import Mathlib.Tactic
import ConfigCare.Proofs.QuotedStrings

/-! Numbers, dates, times and the words that are values are read without a look at what comes
behind them, as long as no word goes on there: a single space counts as part of a date, so no word
may stand behind one either. -/

namespace ConfigCare.Toml

/-- The characters of numbers, dates, times and the words that are values. -/
def isWordChar (c : Char) : Bool :=
  Text.isAsciiLetter c || Text.isAsciiDigit c || ['+', '-', '_', '.', ':'].contains c

/-- A text at whose start no word goes on. -/
def EndsWord (z : Text) : Prop := ∀ c ∈ z.head?, isWordChar c = false

variable {z : Text}

theorem EndsWord.not {p : Char → Bool} (hp : ∀ c, p c → isWordChar c) (hz : EndsWord z) :
    ∀ c ∈ z.head?, p c = false := by
  intro c hc
  by_contra h
  have := hp c (by simpa using h)
  rw [hz c hc] at this
  cases this

theorem EndsWord.ne {d : Char} {y : Text} (hz : EndsWord (d :: y)) {c : Char} (hc : isWordChar c) :
    d ≠ c := by
  rintro rfl
  rw [hz d rfl] at hc
  cases hc

theorem isWordChar_of_digit {c : Char} (h : Text.isAsciiDigit c) : isWordChar c := by
  simp [isWordChar, h]

theorem startsWith_append_end (hz : EndsWord z) {p : Text} (hp : p.all isWordChar) (t : Text) :
    Text.startsWith p (t ++ z) = Text.startsWith p t := by
  induction p generalizing t with
  | nil => rfl
  | cons c p ih =>
    obtain ⟨hc, hp⟩ : isWordChar c ∧ p.all isWordChar := by simpa using hp
    cases t with
    | nil =>
      cases z with
      | nil => rfl
      | cons d z =>
        simp [Text.startsWith, Text.dropStart?, (hz.ne hc).symm]
    | cons d t =>
      by_cases hcd : c = d
      · simpa [Text.startsWith, Text.dropStart?, hcd] using ih hp t
      · simp [Text.startsWith, Text.dropStart?, hcd]

theorem takeWhile_append_end {p : Char → Bool} (hz : ∀ c ∈ z.head?, p c = false) (t : Text) :
    (t ++ z).takeWhile p = t.takeWhile p := by
  induction t with
  | nil =>
    cases z with
    | nil => rfl
    | cons d z => simp [hz d rfl]
  | cons d t ih => by_cases hd : p d <;> simp [hd, ih]

/-! ## Dates and times -/

/-- A reader of the beginning of a text looks at nothing behind the word. -/
def StaysIn {α : Type} (z : Text) (f : Text → Option (α × Text)) : Prop :=
  ∀ t, f (t ++ z) = (f t).map fun r => (r.1, r.2 ++ z)

theorem fixed?_eq_none {n : Nat} {t : Text}
    (h : (t.take n).length = n → ∃ c ∈ t.take n, ¬ Text.isAsciiDigit c) : fixed? n t = none := by
  refine if_neg fun hfixed => ?_
  obtain ⟨hlen, hall⟩ : (t.take n).length = n ∧ ∀ c ∈ t.take n, Text.isAsciiDigit c := by
    simpa only [Bool.and_eq_true, decide_eq_true_eq, List.all_eq_true] using hfixed
  obtain ⟨c, hc, hdigit⟩ := h hlen
  exact hdigit (hall c hc)

theorem staysIn_fixed? (hz : EndsWord z) (n : Nat) : StaysIn z (fixed? n) := by
  intro t
  by_cases hn : n ≤ t.length
  · unfold fixed?
    rw [List.take_append_of_le_length hn, List.drop_append_of_le_length hn]
    dsimp only
    split <;> rfl
  · -- the first character of `z`, if any, is no digit
    have hlong : fixed? n (t ++ z) = none := by
      refine fixed?_eq_none fun hlen => ?_
      rcases z with _ | ⟨d, y⟩
      · rw [List.append_nil, List.length_take] at hlen; omega
      · refine ⟨d, ?_, by simp [hz.not (fun c => isWordChar_of_digit) d rfl]⟩
        rw [List.take_append, show n - t.length = (n - t.length - 1) + 1 by omega]
        exact List.mem_append_right _ List.mem_cons_self
    rw [hlong, fixed?_eq_none fun hlen => by rw [List.length_take] at hlen; omega]
    rfl

theorem StaysIn.bind {α β : Type} {f : Text → Option (α × Text)} {g : α → Text → Option (β × Text)}
    (hf : StaysIn z f) (hg : ∀ a, StaysIn z (g a)) :
    StaysIn z fun t => (f t).bind fun r => g r.1 r.2 := by
  intro t
  dsimp only
  rw [hf t]
  rcases f t with _ | ⟨a, t⟩
  · rfl
  · exact hg a t

theorem StaysIn.after {α : Type} {f : Text → Option (α × Text)} (hz : EndsWord z) {c : Char}
    (hc : isWordChar c) (hf : StaysIn z f) : StaysIn z fun t => (after? c t).bind f := by
  intro t
  cases t with
  | nil =>
    cases z with
    | nil => rfl
    | cons d z =>
      simp [after?, hz.ne hc]
  | cons d t =>
    by_cases hd : d = c
    · simpa [after?, hd] using hf t
    · simp [after?, hd]

theorem staysIn_bounded? (hz : EndsWord z) (n low high : Nat) :
    StaysIn z (bounded? n low high) := by
  intro t
  unfold bounded?
  rw [staysIn_fixed? hz n t]
  rcases fixed? n t with _ | ⟨k, r⟩
  · rfl
  · dsimp only [Option.map_some]
    split <;> rfl

theorem StaysIn.some {α : Type} (a : α) : StaysIn z fun t => Option.some (a, t) := fun _ => rfl

theorem staysIn_fraction (hz : EndsWord z) (hour minute second : Nat) :
    StaysIn z fun s =>
      match s with
      | '.' :: cs =>
        let digits := cs.takeWhile Text.isAsciiDigit
        if digits.isEmpty then Option.some (TimeOfDay.mk hour minute second 0, s)
        else Option.some (⟨hour, minute, second, microseconds digits⟩, cs.drop digits.length)
      | _ => Option.some (⟨hour, minute, second, 0⟩, s) := by
  intro t
  have hdigits (t : Text) : (t ++ z).takeWhile Text.isAsciiDigit = t.takeWhile Text.isAsciiDigit :=
    takeWhile_append_end (hz.not fun c => isWordChar_of_digit) t
  have htaken (cs : Text) := (List.takeWhile_prefix (l := cs) Text.isAsciiDigit).length_le
  rcases t with _ | ⟨c, cs⟩
  · rcases z with _ | ⟨d, z⟩
    · rfl
    · simp [hz.ne (by decide : isWordChar '.')]
  · by_cases hc : c = '.'
    · subst hc
      rw [List.cons_append]
      change (if _ then _ else _) = Option.map _ (if _ then _ else _)
      rw [hdigits, List.drop_append_of_le_length (htaken cs)]
      split <;> rfl
    · simp [hc]

theorem staysIn_time? (hz : EndsWord z) : StaysIn z time? :=
  (staysIn_bounded? hz 2 0 23).bind fun hour => .after hz (by decide) <|
    (staysIn_bounded? hz 2 0 59).bind fun minute => .after hz (by decide) <|
      (staysIn_bounded? hz 2 0 59).bind fun second => staysIn_fraction hz hour minute second

theorem staysIn_date? (hz : EndsWord z) : StaysIn z date? :=
  have hdash : isWordChar '-' := by decide
  (staysIn_fixed? hz 4).bind fun year => .after hz hdash <|
    (staysIn_bounded? hz 2 1 12).bind fun month => .after hz hdash <|
      (staysIn_bounded? hz 2 1 31).bind fun day => .some (Date.mk year month day)

theorem offset?_cons {c : Char} (hZ : c ≠ 'Z') (hz : c ≠ 'z') (cs : Text) :
    offset? (c :: cs) =
      if c ≠ '+' ∧ c ≠ '-' then none
      else (bounded? 2 0 23 cs).bind fun h => (after? ':' h.2).bind fun s =>
        (bounded? 2 0 59 s).bind fun m =>
          Option.some (if c = '-' then -((h.1 : Int) * 60 + m.1) else h.1 * 60 + m.1, m.2) := by
  unfold offset?
  split
  · next heq => cases heq; exact absurd rfl hZ
  · next heq => cases heq; exact absurd rfl hz
  · next heq => cases heq; simp
  · next heq => cases heq

theorem staysIn_offset? (hz : EndsWord z) : StaysIn z offset? := by
  intro t
  rcases t with _ | ⟨c, cs⟩
  · rcases z with _ | ⟨d, z⟩
    · rfl
    · have hsign : d ≠ '+' ∧ d ≠ '-' := ⟨hz.ne (by decide), hz.ne (by decide)⟩
      rw [List.nil_append, offset?_cons (hz.ne (by decide)) (hz.ne (by decide)), if_pos hsign]
      rfl
  · rw [List.cons_append]
    by_cases hZ : c = 'Z'
    · rw [hZ]; rfl
    by_cases hz' : c = 'z'
    · rw [hz']; rfl
    rw [offset?_cons hZ hz', offset?_cons hZ hz']
    split
    · rfl
    · exact (staysIn_bounded? hz 2 0 23).bind (fun hour =>
        .after hz (by decide : isWordChar ':') <| (staysIn_bounded? hz 2 0 59).bind fun minute =>
          .some (if c = '-' then -((hour : Int) * 60 + minute) else hour * 60 + minute)) cs

/-- A text at whose start a word does not go on, nor another begins behind a single space. -/
structure Apart (z : Text) : Prop where
  endsWord : EndsWord z
  spaced : ∀ y, z = ' ' :: y → EndsWord y

theorem time?_eq_none (hz : EndsWord z) : time? z = none := by
  have h := staysIn_time? hz []
  exact h

theorem staysIn_timeAfterDate? (hz : Apart z) : StaysIn z timeAfterDate? := by
  intro t
  rcases t with _ | ⟨c, cs⟩
  · rcases z with _ | ⟨d, y⟩
    · rfl
    · have hT := hz.endsWord.ne (by decide : isWordChar 'T')
      have ht := hz.endsWord.ne (by decide : isWordChar 't')
      rw [List.nil_append, timeAfterDate?]
      split
      · next h =>
        have hspace : d = ' ' := by simpa [hT, ht] using h
        rw [time?_eq_none (hz.spaced y (by rw [hspace]))]
        rfl
      · rfl
  · rw [List.cons_append, timeAfterDate?, timeAfterDate?]
    split
    · exact staysIn_time? hz.endsWord cs
    · rfl

theorem moment?_append (hz : Apart z) (t : Text) :
    moment? (t ++ z) = (moment? t).map fun r => (r.1, r.2.1, r.2.2 ++ z) := by
  unfold moment?
  rw [staysIn_date? hz.endsWord]
  rcases date? t with _ | ⟨d, t⟩
  · rfl
  simp only [Option.map_some, Option.bind_eq_bind, Option.bind_some]
  rw [staysIn_timeAfterDate? hz]
  rcases timeAfterDate? t with _ | ⟨time, s⟩
  · rfl
  simp only [Option.map_some]
  rw [staysIn_offset? hz.endsWord]
  rcases offset? s with _ | ⟨o, r⟩ <;> rfl

/-! ## Numbers -/

/-- A kind of digit: a word character, and no underscore. -/
structure IsDigit (p : Char → Bool) : Prop where
  word : ∀ c, p c → isWordChar c
  underscore : p '_' = false

theorem isDigit_ascii : IsDigit Text.isAsciiDigit := ⟨fun _ => isWordChar_of_digit, by decide⟩

theorem isDigit_hex : IsDigit Text.isHexDigit := ⟨fun c h => by
  simp only [Text.isHexDigit, isWordChar, Text.isAsciiLetter, Bool.or_eq_true, Bool.and_eq_true,
    decide_eq_true_eq] at h ⊢
  rcases h with (h | h) | h
  · exact .inl (.inr h)
  · exact .inl (.inl (.inl ⟨h.1, Char.le_trans h.2 (by decide)⟩))
  · exact .inl (.inl (.inr ⟨h.1, Char.le_trans h.2 (by decide)⟩)), by decide⟩

theorem isDigit_octal : IsDigit fun c => '0' ≤ c && c ≤ '7' := ⟨fun c h => by
  simp only [Bool.and_eq_true, decide_eq_true_eq] at h
  exact isWordChar_of_digit (by
    simpa [Text.isAsciiDigit] using ⟨h.1, Char.le_trans h.2 (by decide)⟩), by decide⟩

theorem isDigit_binary : IsDigit fun c => c = '0' || c = '1' := ⟨fun c h => by
  simp only [Bool.or_eq_true, decide_eq_true_eq] at h
  rcases h with rfl | rfl <;> decide, by decide⟩

theorem digitRun_cons {p : Char → Bool} {c : Char} (hc : c ≠ '_') (cs : Text) :
    digitRun p (c :: cs) = if p c then digitRun p cs + 1 else 0 := by
  rw [digitRun.eq_def]
  split
  · next heq => cases heq; exact absurd rfl hc
  · next heq => cases heq; rfl
  · next heq => cases heq

theorem digitRun_append {p : Char → Bool} (hp : IsDigit p) (hz : EndsWord z) (t : Text) :
    digitRun p (t ++ z) = digitRun p t := by
  have hnil : digitRun p z = 0 := by
    rcases z with _ | ⟨d, y⟩
    · rfl
    · rw [digitRun_cons (hz.ne (by decide)), hz.not hp.word d rfl]
      rfl
  fun_induction digitRun p t with
  | case1 c cs hc ih => simp [digitRun, hc, ih]
  | case2 c cs hc => simp [digitRun, hc]
  | case3 c cs hcs hc ih =>
    have hne : c ≠ '_' := by rintro rfl; rw [hp.underscore] at hc; cases hc
    rw [List.cons_append, digitRun_cons hne, if_pos hc, ih]
  | case4 c cs hcs hc =>
    rw [List.cons_append]
    by_cases hne : c = '_'
    · subst hne
      -- nothing stands behind the underscore in `cs`, and no digit in `z`
      rcases cs with _ | ⟨d, cs⟩
      · rcases z with _ | ⟨d, y⟩
        · simp [digitRun, hc]
        · simp [digitRun, hz.not hp.word d rfl]
      · exact (hcs d cs rfl rfl).elim
    · rw [digitRun_cons hne, if_neg hc]
  | case5 => exact hnil

theorem digitRun_le (p : Char → Bool) (t : Text) : digitRun p t ≤ t.length := by
  fun_induction digitRun p t with
  | case1 c cs hc ih => simp only [List.length_cons]; omega
  | case3 c cs hcs hc ih => simp only [List.length_cons]; omega
  | _ => exact Nat.zero_le _

theorem digits_append {p : Char → Bool} (hp : IsDigit p) (hz : EndsWord z) (t : Text) :
    digits p (t ++ z) = digits p t := by
  rcases t with _ | ⟨c, cs⟩
  · rcases z with _ | ⟨d, y⟩
    · rfl
    · simp [digits, hz.not hp.word d rfl]
  · rw [List.cons_append, digits, digits, digitRun_append hp hz]

theorem digits_le (p : Char → Bool) (t : Text) : digits p t ≤ t.length := by
  rcases t with _ | ⟨c, cs⟩
  · exact le_rfl
  · rw [digits, List.length_cons]
    split
    · exact Nat.succ_le_succ (digitRun_le p cs)
    · exact Nat.zero_le _

theorem inBase?_append {p : Char → Bool} (hp : IsDigit p) (hz : EndsWord z) (base : Nat)
    (t : Text) : inBase? base p (t ++ z) = inBase? base p t := by
  unfold inBase?
  rw [digits_append hp hz]
  split
  · rfl
  · next n hn =>
    rw [List.take_append_of_le_length (hn.ge.trans (digits_le p t))]

theorem inBase?_le {base : Nat} {p : Char → Bool} {t : Text} {v : Data} {n : Nat}
    (h : inBase? base p t = some (v, n)) : n ≤ t.length + 2 := by
  unfold inBase? at h
  split at h
  · cases h
  · next k hk =>
    cases h
    have := digits_le p t
    omega

theorem prefixed?_append (hz : EndsWord z) (t : Text) : prefixed? (t ++ z) = prefixed? t := by
  have hnone {s : Text} (hs : ∀ a b y, s = a :: b :: y → a = '0' → b ≠ 'x' ∧ b ≠ 'b' ∧ b ≠ 'o') :
      prefixed? s = none := by
    unfold prefixed?
    split
    · exact absurd rfl (hs _ _ _ rfl rfl).1
    · exact absurd rfl (hs _ _ _ rfl rfl).2.1
    · exact absurd rfl (hs _ _ _ rfl rfl).2.2
    · rfl
  rcases t with _ | ⟨a, _ | ⟨b, cs⟩⟩
  · rw [List.nil_append, hnone, hnone]
    · rintro a b y ⟨⟩
    · rintro a b y rfl ha
      exact absurd ha (hz.ne (by decide))
  · rw [hnone, hnone]
    · rintro a b y ⟨⟩
    · rintro a' b y heq ha
      cases heq
      exact ⟨hz.ne (by decide), hz.ne (by decide), hz.ne (by decide)⟩
  · unfold prefixed?
    split
    · next heq => cases heq; exact inBase?_append isDigit_hex hz 16 cs
    · next heq => cases heq; exact inBase?_append isDigit_binary hz 2 cs
    · next heq => cases heq; exact inBase?_append isDigit_octal hz 8 cs
    · next hx hb ho =>
      split
      · next heq => cases heq; exact (hx _ rfl).elim
      · next heq => cases heq; exact (hb _ rfl).elim
      · next heq => cases heq; exact (ho _ rfl).elim
      · rfl

theorem prefixed?_le {t : Text} {v : Data} {n : Nat} (h : prefixed? t = some (v, n)) :
    n ≤ t.length := by
  unfold prefixed? at h
  split at h
  · exact inBase?_le h
  · exact inBase?_le h
  · exact inBase?_le h
  · cases h

theorem head?_append_end (hz : EndsWord z) {c : Char} (hc : isWordChar c) (t : Text) :
    (t ++ z).head? = some c ↔ t.head? = some c := by
  rcases t with _ | ⟨d, t⟩
  · rcases z with _ | ⟨d, y⟩
    · rfl
    · simp [hz.ne hc]
  · rfl

def isSigned (t : Text) : Bool := t.head? = some '-' || t.head? = some '+'

def unsigned (t : Text) : Text := if isSigned t then t.drop 1 else t

theorem isSigned_append (hz : EndsWord z) (t : Text) : isSigned (t ++ z) = isSigned t := by
  simp only [isSigned, head?_append_end hz (by decide : isWordChar '-'),
    head?_append_end hz (by decide : isWordChar '+')]

theorem unsigned_append (hz : EndsWord z) (t : Text) : unsigned (t ++ z) = unsigned t ++ z := by
  rw [unsigned, unsigned, isSigned_append hz]
  split
  · next h =>
    rcases t with _ | ⟨c, t⟩
    · cases h
    · rfl
  · rfl

theorem length_unsigned (t : Text) :
    (if isSigned t then 1 else 0) + (unsigned t).length = t.length := by
  rw [unsigned]
  split
  · next h =>
    rcases t with _ | ⟨c, t⟩
    · cases h
    · exact Nat.add_comm _ _
  · exact Nat.zero_add _

theorem exponent?_cons (e : Char) (cs : Text) :
    exponent? (e :: cs) =
      if e = 'e' || e = 'E' then
        match digits Text.isAsciiDigit (unsigned cs) with
        | 0 => none
        | n + 1 =>
          let p : Int := Text.numberOf 10 (withoutUnderscores ((unsigned cs).take (n + 1)))
          some (if cs.head? = some '-' then -p else p, n + 2 + if isSigned cs then 1 else 0)
      else none := rfl

theorem exponent?_append (hz : EndsWord z) (t : Text) : exponent? (t ++ z) = exponent? t := by
  rcases t with _ | ⟨e, cs⟩
  · rcases z with _ | ⟨d, y⟩
    · rfl
    · simp [exponent?, hz.ne (by decide : isWordChar 'e'), hz.ne (by decide : isWordChar 'E')]
  · rw [List.cons_append, exponent?_cons, exponent?_cons, unsigned_append hz, isSigned_append hz,
      digits_append isDigit_ascii hz]
    simp only [head?_append_end hz (by decide : isWordChar '-')]
    split
    · split
      · rfl
      · next n hn => rw [List.take_append_of_le_length (hn.ge.trans (digits_le _ _))]
    · rfl

theorem exponent?_le {t : Text} {p : Int} {n : Nat} (h : exponent? t = some (p, n)) :
    n ≤ t.length := by
  rcases t with _ | ⟨e, cs⟩
  · cases h
  · rw [exponent?_cons] at h
    split at h
    · split at h
      · cases h
      · next k hk =>
        cases h
        have hle := digits_le Text.isAsciiDigit (unsigned cs)
        have hlen := length_unsigned cs
        rw [hk] at hle
        rw [List.length_cons]
        omega
    · cases h

def wholeLength (t : Text) : Nat := if t.head? = some '0' then 1 else digits Text.isAsciiDigit t

/-- The length of a fraction, without its point. -/
def fractionLength (t : Text) : Nat :=
  match t with
  | '.' :: cs => digits Text.isAsciiDigit cs
  | _ => 0

def behindFraction (t : Text) : Text :=
  if fractionLength t = 0 then t else t.drop (fractionLength t + 1)

def powerLength : Option (Int × Nat) → Nat
  | some (_, n) => n
  | none => 0

/-- A decimal number by its parts. -/
def decimalOf (signed : Bool) (negative : Prop) [Decidable negative] (whole fraction : Nat)
    (power : Option (Int × Nat)) (wholeDigits fractionDigits : Text) :
    Option (Except Failure Data × Nat) :=
  if whole = 0 then none
  else
    let length := (if signed then 1 else 0) + whole + (if fraction = 0 then 0 else fraction + 1) +
      powerLength power
    if fraction = 0 && power.isNone then
      if Json.digitLimit < wholeDigits.length then
        some (.error (.digits wholeDigits.length), length)
      else
        let n : Int := Text.numberOf 10 wholeDigits
        some (.ok (.int (if negative then -n else n)), length)
    else
      let p := match power with | some (p, _) => p | none => 0
      some (.ok (.float (.ofDecimal negative (Text.numberOf 10 (wholeDigits ++ fractionDigits))
        (p - fractionDigits.length))), length)

theorem decimal?_eq (t : Text) :
    decimal? t =
      let u := unsigned t
      let rest := u.drop (wholeLength u)
      decimalOf (isSigned t) (t.head? = some '-') (wholeLength u) (fractionLength rest)
        (exponent? (behindFraction rest)) (withoutUnderscores (u.take (wholeLength u)))
        (withoutUnderscores ((rest.drop 1).take (fractionLength rest))) := rfl

theorem wholeLength_append (hz : EndsWord z) (t : Text) : wholeLength (t ++ z) = wholeLength t := by
  simp only [wholeLength, head?_append_end hz (by decide : isWordChar '0'),
    digits_append isDigit_ascii hz]

theorem wholeLength_le (t : Text) : wholeLength t ≤ t.length := by
  rw [wholeLength]
  split
  · next h =>
    rcases t with _ | ⟨c, t⟩
    · cases h
    · exact Nat.succ_le_succ (Nat.zero_le _)
  · exact digits_le _ t

theorem fractionLength_cons (c : Char) (cs : Text) :
    fractionLength (c :: cs) = if c = '.' then digits Text.isAsciiDigit cs else 0 := by
  split
  · next h => rw [h]; rfl
  · next h => simp [fractionLength, h]

theorem fractionLength_append (hz : EndsWord z) (t : Text) :
    fractionLength (t ++ z) = fractionLength t := by
  rcases t with _ | ⟨c, cs⟩
  · rcases z with _ | ⟨d, y⟩
    · rfl
    · rw [List.nil_append, fractionLength_cons, if_neg (hz.ne (by decide))]
      rfl
  · rw [List.cons_append, fractionLength_cons, fractionLength_cons, digits_append isDigit_ascii hz]

/-- A fraction, if there is one, is in the text with its point. -/
theorem fractionLength_lt {t : Text} (h : fractionLength t ≠ 0) : fractionLength t < t.length := by
  rcases t with _ | ⟨c, cs⟩
  · exact absurd rfl h
  · rw [fractionLength_cons] at h ⊢
    split at h
    · next hc =>
      rw [if_pos hc]
      exact Nat.lt_succ_of_le (digits_le _ _)
    · exact absurd rfl h

theorem length_behindFraction (t : Text) :
    (if fractionLength t = 0 then 0 else fractionLength t + 1) + (behindFraction t).length =
      t.length := by
  rw [behindFraction]
  split
  · exact Nat.zero_add _
  · next h =>
    have := fractionLength_lt h
    rw [List.length_drop]
    omega

theorem behindFraction_append (hz : EndsWord z) (t : Text) :
    behindFraction (t ++ z) = behindFraction t ++ z := by
  rw [behindFraction, behindFraction, fractionLength_append hz]
  split
  · rfl
  · next h => rw [List.drop_append_of_le_length (fractionLength_lt h)]

theorem take_fraction_append (t z : Text) :
    ((t ++ z).drop 1).take (fractionLength t) = (t.drop 1).take (fractionLength t) := by
  by_cases h : fractionLength t = 0
  · simp [h]
  · have hlt := fractionLength_lt h
    rw [List.drop_append_of_le_length (by omega), List.take_append_of_le_length (by
      rw [List.length_drop]; omega)]

theorem decimal?_append (hz : EndsWord z) (t : Text) : decimal? (t ++ z) = decimal? t := by
  have hwhole := wholeLength_le (unsigned t)
  rw [decimal?_eq, decimal?_eq]
  dsimp only
  rw [isSigned_append hz, unsigned_append hz, wholeLength_append hz,
    List.drop_append_of_le_length hwhole, List.take_append_of_le_length hwhole,
    fractionLength_append hz, behindFraction_append hz, exponent?_append hz,
    take_fraction_append]
  simp only [head?_append_end hz (by decide : isWordChar '-')]

theorem exponent?_length_le (t : Text) :
    powerLength (exponent? t) ≤ t.length := by
  rcases h : exponent? t with _ | ⟨p, n⟩
  · exact Nat.zero_le _
  · exact exponent?_le h

theorem length_of_decimalOf {signed : Bool} {negative : Prop} [Decidable negative]
    {whole fraction n : Nat} {power : Option (Int × Nat)} {wholeDigits fractionDigits : Text}
    {r : Except Failure Data}
    (h : decimalOf signed negative whole fraction power wholeDigits fractionDigits = some (r, n)) :
    n = (if signed then 1 else 0) + whole + (if fraction = 0 then 0 else fraction + 1) +
      powerLength power := by
  unfold decimalOf at h
  split at h
  · cases h
  · dsimp only at h
    split at h
    · split at h <;> exact (congrArg Prod.snd (Option.some.inj h)).symm
    · exact (congrArg Prod.snd (Option.some.inj h)).symm

theorem decimal?_le {t : Text} {r : Except Failure Data} {n : Nat} (h : decimal? t = some (r, n)) :
    n ≤ t.length := by
  have hsign := length_unsigned t
  have hwhole := wholeLength_le (unsigned t)
  have hrest := List.length_drop (i := wholeLength (unsigned t)) (l := unsigned t)
  have hfraction := length_behindFraction ((unsigned t).drop (wholeLength (unsigned t)))
  have hpower := exponent?_length_le
    (behindFraction ((unsigned t).drop (wholeLength (unsigned t))))
  rw [decimal?_eq] at h
  rw [length_of_decimalOf h]
  omega

/-! ## Values -/

/-- What is read as a value that is no string and holds no others does not depend on what comes
behind it. -/
theorem plainValue_append (hz : Apart z) (o : Nat) (t : Text) :
    plainValue ⟨o, t ++ z⟩ =
      (plainValue ⟨o, t⟩).map fun r => (r.1, ⟨r.2.offset, r.2.rest ++ z⟩) := by
  have hdrop {n : Nat} (h : n ≤ t.length) (v : Data) :
      (Except.ok (v, Cursor.drop n ⟨o, t ++ z⟩) : Except Failure (Data × Cursor)) =
        (Except.ok (v, Cursor.drop n ⟨o, t⟩)).map fun r => (r.1, ⟨r.2.offset, r.2.rest ++ z⟩) := by
    rw [Cursor.drop, List.drop_append_of_le_length h]; rfl
  have hword {p : Text} (hp : p.all isWordChar) :
      Text.startsWith p (t ++ z) = Text.startsWith p t :=
    startsWith_append_end hz.endsWord hp t
  have hlength {r : Text} : (t ++ z).length - (r ++ z).length = t.length - r.length := by
    simp only [List.length_append]; omega
  unfold plainValue
  dsimp only
  rw [hword (by decide), hword (by decide), moment?_append hz, staysIn_time? hz.endsWord,
    prefixed?_append hz.endsWord, decimal?_append hz.endsWord]
  split
  · next h => exact hdrop (Text.startsWith_iff.1 h).length_le _
  split
  · next h => exact hdrop (Text.startsWith_iff.1 h).length_le _
  rcases moment? t with _ | ⟨m, valid, rest⟩
  swap
  · simp only [Option.map_some]
    rw [hlength]
    split
    · exact hdrop (Nat.sub_le _ _) _
    · rfl
  simp only [Option.map_none]
  rcases time? t with _ | ⟨time, rest⟩
  swap
  · simp only [Option.map_some]
    rw [hlength]
    exact hdrop (Nat.sub_le _ _) _
  simp only [Option.map_none]
  rcases hp : prefixed? t with _ | ⟨v, n⟩
  swap
  · exact hdrop (prefixed?_le hp) _
  rcases hd : decimal? t with _ | ⟨v, n⟩
  swap
  · rcases v with e | v
    · rfl
    · exact hdrop (decimal?_le hd) _
  have hwords : ∀ f ∈ specialFloats, f.1.toList.all isWordChar := by decide
  have hfind : (specialFloats.find? fun f => Text.startsWith f.1.toList (t ++ z)) =
      specialFloats.find? fun f => Text.startsWith f.1.toList t :=
    List.find?_congr fun f hf => hword (hwords f hf)
  dsimp only
  rw [hfind]
  generalize hfound : (specialFloats.find? fun f => Text.startsWith f.1.toList t) = found
  rcases found with _ | f
  · rfl
  · have hstart := List.find?_some hfound
    have hle := (Text.startsWith_iff.1 hstart).length_le
    rw [String.length_toList] at hle
    exact hdrop hle _

theorem plainValue_drop {o : Nat} {t : Text} {v : Data} {c : Cursor}
    (h : plainValue ⟨o, t⟩ = .ok (v, c)) :
    ∃ n, ∀ o', plainValue ⟨o', t⟩ = .ok (v, Cursor.drop n ⟨o', t⟩) := by
  unfold plainValue at h ⊢
  dsimp only at h ⊢
  split at h
  · next ht => cases h; exact ⟨4, fun o' => if_pos ht⟩
  next ht =>
  simp only [if_neg ht]
  split at h
  · next hf => cases h; exact ⟨5, fun o' => if_pos hf⟩
  next hf =>
  simp only [if_neg hf]
  split at h
  · split at h
    · next hv => cases h; exact ⟨_, fun o' => if_pos hv⟩
    · cases h
  split at h
  · cases h; exact ⟨_, fun o' => rfl⟩
  split at h
  · cases h; exact ⟨_, fun o' => rfl⟩
  split at h
  · next v n hd => rcases v with e | v <;> cases h; exact ⟨n, fun o' => rfl⟩
  split at h
  · cases h; exact ⟨_, fun o' => rfl⟩
  · cases h

/-- A value that is read from words is read from them wherever they stand apart. -/
theorem plainValue_apart (hz : Apart z) {o : Nat} {t : Text} {v : Data} {c : Cursor}
    (h : plainValue ⟨o, t ++ z⟩ = .ok (v, c)) :
    ∃ k r, t = k ++ r ∧ c.rest = r ++ z ∧
      ∀ y, Apart y → ∀ o', ∃ p, plainValue ⟨o', t ++ y⟩ = .ok (v, ⟨p, r ++ y⟩) := by
  rw [plainValue_append hz] at h
  rcases hp : plainValue ⟨o, t⟩ with e | ⟨v', d⟩
  · rw [hp] at h; cases h
  · rw [hp] at h
    cases h
    obtain ⟨n, hn⟩ := plainValue_drop hp
    have hd := congrArg (fun r => Cursor.rest r.2) (Except.ok.inj (hp.symm.trans (hn o)))
    refine ⟨t.take n, t.drop n, (List.take_append_drop n t).symm, congrArg (· ++ z) hd, ?_⟩
    intro y hy o'
    exact ⟨o' + n, by rw [plainValue_append hy, hn]; rfl⟩

end ConfigCare.Toml
