import ConfigCare.Proofs.CommentRouting
import ConfigCare.Proofs.ShortestDecimal

/-! Numbers as they are written are read back as the same numbers: an integer by its digits, a
binary number by its shortest decimal in any layout. What stands behind a number has to stop it:
a text that goes on with a digit, a point or an exponent would be read as part of it. -/

namespace ConfigCare

namespace Text

theorem digitValue_of_isAsciiDigit {c : Char} (h : isAsciiDigit c = true) :
    digitValue c = c.toNat - '0'.toNat := by
  simp only [isAsciiDigit, Bool.and_eq_true, decide_eq_true_eq] at h
  have hle : c.toNat ≤ '9'.toNat := h.2
  rw [digitValue, if_neg, if_neg]
  · rfl
  · intro hge
    exact absurd (Nat.le_trans (show 'A'.toNat ≤ c.toNat from hge) hle) (by decide)
  · intro hge
    exact absurd (Nat.le_trans (show 'a'.toNat ≤ c.toNat from hge) hle) (by decide)

theorem numberOf_append (base : Nat) (a b : Text) :
    numberOf base (a ++ b) = b.foldl (fun n c => n * base + digitValue c) (numberOf base a) := by
  rw [numberOf, List.foldl_append, numberOf]

theorem foldl_digits_eq {digits : Text} (h : digits.all isAsciiDigit = true) (n : Nat) :
    digits.foldl (fun n c => n * 10 + digitValue c) n = Nat.ofDigitChars 10 digits n := by
  induction digits generalizing n with
  | nil => rfl
  | cons c cs ih =>
    rw [List.all_cons, Bool.and_eq_true] at h
    rw [List.foldl_cons, ih h.2, digitValue_of_isAsciiDigit h.1, Nat.mul_comm]
    rfl

theorem numberOf_eq {digits : Text} (h : digits.all isAsciiDigit = true) :
    numberOf 10 digits = Nat.ofDigitChars 10 digits 0 := foldl_digits_eq h 0

theorem all_isAsciiDigit_toDigits (n : Nat) : (Nat.toDigits 10 n).all isAsciiDigit = true :=
  List.all_eq_true.2 fun _ hc => Nat.isDigit_of_mem_toDigits (by decide) (by decide) hc

theorem numberOf_toDigits (n : Nat) : numberOf 10 (Nat.toDigits 10 n) = n := by
  rw [numberOf_eq (all_isAsciiDigit_toDigits n), Nat.ofDigitChars_ten_toDigits]

theorem all_isAsciiDigit_replicate (n : Nat) : (List.replicate n '0').all isAsciiDigit = true :=
  List.all_eq_true.2 fun _ hc => (List.eq_of_mem_replicate hc).symm ▸ rfl

/-- Zeros in front of digits count for nothing. -/
theorem numberOf_zeros_append (n : Nat) (digits : Text) :
    numberOf 10 (List.replicate n '0' ++ digits) = numberOf 10 digits := by
  induction n with
  | zero => rfl
  | succ n ih => simpa [numberOf, List.replicate_succ, digitValue] using ih

/-- A zero behind digits is a factor of ten. -/
theorem numberOf_append_zeros (n : Nat) (digits : Text) :
    numberOf 10 (digits ++ List.replicate n '0') = numberOf 10 digits * 10 ^ n := by
  induction n with
  | zero => simp
  | succ n ih =>
    rw [List.replicate_succ', ← List.append_assoc, numberOf_append, ih]
    simp [digitValue, pow_succ, mul_assoc]

end Text

namespace Binary64

/-- The zeros that are dropped from a row of digits. -/
theorem exists_dropLastZeros (row : Text) :
    ∃ n, row = dropLastZeros row ++ List.replicate n '0' := by
  obtain ⟨n, hn⟩ : ∃ n, row.reverse.takeWhile (· == '0') = List.replicate n '0' :=
    ⟨_, List.eq_replicate_of_mem fun c hc => by
      simpa using List.all_eq_true.1 (List.all_takeWhile (p := (· == '0'))) c hc⟩
  refine ⟨n, ?_⟩
  have h := congrArg List.reverse (List.takeWhile_append_dropWhile (p := (· == '0')) (l := row.reverse))
  rw [List.reverse_append, List.reverse_reverse, hn, List.reverse_replicate] at h
  exact h.symm

end Binary64

namespace Json

/-- A text that a number in front of it does not go on with. -/
def Stops (rest : Text) : Prop :=
  ∀ c ∈ rest.head?, Text.isAsciiDigit c = false ∧ c ≠ '.' ∧ c ≠ 'e' ∧ c ≠ 'E'

namespace Numeral

def exponentText : Option (Char × Option Char × Text) → Text
  | none => []
  | some (e, sign, digits) => e :: (sign.toList ++ digits)

def fractionText (fraction : Text) : Text := if fraction.isEmpty then [] else '.' :: fraction

/-- A numeral as it is written. -/
def text (n : Numeral) : Text :=
  (if n.negative then ['-'] else []) ++
    (n.whole ++ (fractionText n.fraction ++ exponentText n.exponent))

/-- A numeral that the grammar of JSON allows. -/
structure WellFormed (n : Numeral) : Prop where
  nonempty : n.whole ≠ []
  whole : n.whole.all Text.isAsciiDigit = true
  /-- A zero stands in front of no other digit. -/
  leading : n.whole.head? = some '0' → n.whole = ['0']
  fraction : n.fraction.all Text.isAsciiDigit = true
  exponent : ∀ e sign digits, n.exponent = some (e, sign, digits) →
    (e = 'e' ∨ e = 'E') ∧ (∀ c ∈ sign, c = '+' ∨ c = '-') ∧ digits ≠ [] ∧
      digits.all Text.isAsciiDigit = true

theorem length_exponentText (x : Option (Char × Option Char × Text)) :
    (exponentText x).length = exponentLength x := by
  obtain - | ⟨e, - | c, digits⟩ := x <;> simp [exponentText, exponentLength]

theorem length_fractionText (fraction : Text) :
    (fractionText fraction).length = fractionLength fraction := by
  unfold fractionText fractionLength
  split <;> rfl

theorem length_text (n : Numeral) : n.text.length = n.length := by
  rw [length_eq, text, List.length_append, List.length_append, List.length_append,
    length_exponentText, length_fractionText]
  cases n.negative <;> simp <;> omega

/-- Digits end where another character comes. -/
theorem takeWhile_digits {digits rest : Text} (hd : digits.all Text.isAsciiDigit = true)
    (hr : ∀ c ∈ rest.head?, Text.isAsciiDigit c = false) :
    (digits ++ rest).takeWhile Text.isAsciiDigit = digits := by
  rw [List.takeWhile_append_of_pos (List.all_eq_true.1 hd)]
  cases rest with
  | nil => simp
  | cons c cs => simp [hr c rfl]

theorem whole?_append {n : Numeral} (h : n.WellFormed) {rest : Text}
    (hr : ∀ c ∈ rest.head?, Text.isAsciiDigit c = false) :
    whole? (n.whole ++ rest) = some n.whole := by
  have hdigits := h.whole
  have hleading := h.leading
  rcases hw : n.whole with _ | ⟨c, cs⟩
  · exact absurd hw h.nonempty
  · rw [hw] at hdigits hleading
    rw [List.all_cons, Bool.and_eq_true] at hdigits
    by_cases hc : c = '0'
    · subst hc
      rw [hleading rfl]
      rfl
    · rw [List.cons_append]
      unfold whole?
      split
      · next heq => cases heq; exact absurd rfl hc
      · next heq => cases heq; rw [if_pos hdigits.1, takeWhile_digits hdigits.2 hr]
      · next heq => cases heq

theorem fractionAt_append {fraction rest : Text} (hf : fraction.all Text.isAsciiDigit = true)
    (hr : ∀ c ∈ rest.head?, Text.isAsciiDigit c = false ∧ c ≠ '.') :
    fractionAt (fractionText fraction ++ rest) = fraction := by
  unfold fractionText
  split
  · next h =>
    rw [List.isEmpty_iff] at h
    subst h
    rw [List.nil_append]
    unfold fractionAt
    split
    · next cs => exact absurd rfl (hr '.' rfl).2
    · rfl
  · exact takeWhile_digits hf fun c hc => (hr c hc).1

/-- The sign that a text starts with. -/
def signAt : Text → Option Char
  | '+' :: _ => some '+'
  | '-' :: _ => some '-'
  | _ => none

theorem exponent?_cons {e : Char} (he : e = 'e' ∨ e = 'E') {s digits : Text}
    (hd : (if (signAt s).isSome then s.drop 1 else s).takeWhile Text.isAsciiDigit = digits)
    (hne : digits ≠ []) : exponent? (e :: s) = some (e, signAt s, digits) := by
  have heq : exponent? (e :: s) =
      if e = 'e' || e = 'E' then
        let digits := (if (signAt s).isSome then s.drop 1 else s).takeWhile Text.isAsciiDigit
        if digits.isEmpty then none else some (e, signAt s, digits)
      else none := rfl
  rw [heq, if_pos (by simpa using he)]
  simp only [hd]
  rw [if_neg (by simpa using hne)]

theorem signAt_digit {c : Char} (hc : Text.isAsciiDigit c = true) (cs : Text) :
    signAt (c :: cs) = none := by
  unfold signAt
  split
  · next heq => cases heq; exact absurd hc (by decide)
  · next heq => cases heq; exact absurd hc (by decide)
  · rfl

theorem exponent?_append {n : Numeral} (h : n.WellFormed) {rest : Text} (hr : Stops rest) :
    exponent? (exponentText n.exponent ++ rest) = n.exponent := by
  rcases hx : n.exponent with _ | ⟨e, sign, digits⟩
  · rw [exponentText, List.nil_append]
    cases rest with
    | nil => rfl
    | cons c cs =>
      obtain ⟨-, -, he, hE⟩ := hr c rfl
      simp [exponent?, he, hE]
  · obtain ⟨he, hsign, hne, hdigits⟩ := h.exponent e sign digits hx
    have htake := takeWhile_digits hdigits fun c hc => (hr c hc).1
    rw [exponentText, List.cons_append]
    rcases sign with _ | c
    · obtain ⟨d, ds, rfl⟩ := List.exists_cons_of_ne_nil hne
      have hnone : signAt (d :: ds ++ rest) = none :=
        signAt_digit (Bool.and_eq_true_iff.1 (List.all_cons ▸ hdigits)).1 _
      rw [Option.toList_none, List.nil_append, exponent?_cons he (by rw [hnone]; exact htake) hne,
        hnone]
    · rcases hsign c rfl with rfl | rfl
      · exact exponent?_cons he htake hne
      · exact exponent?_cons he htake hne

theorem exponentText_head {n : Numeral} (h : n.WellFormed) {rest : Text} (hr : Stops rest) :
    ∀ c ∈ (exponentText n.exponent ++ rest).head?, Text.isAsciiDigit c = false ∧ c ≠ '.' := by
  intro c hc
  rcases hx : n.exponent with _ | ⟨e, sign, digits⟩
  · rw [hx, exponentText, List.nil_append] at hc
    exact ⟨(hr c hc).1, (hr c hc).2.1⟩
  · rw [hx, exponentText] at hc
    obtain rfl : e = c := by simpa using hc
    rcases (h.exponent _ _ _ hx).1 with rfl | rfl <;> decide

theorem fractionText_head {fraction rest : Text}
    (hr : ∀ c ∈ rest.head?, Text.isAsciiDigit c = false ∧ c ≠ '.') :
    ∀ c ∈ (fractionText fraction ++ rest).head?, Text.isAsciiDigit c = false := by
  intro c hc
  unfold fractionText at hc
  split at hc
  · exact (hr c hc).1
  · obtain rfl : '.' = c := by simpa using hc
    rfl

/-- Reads a numeral behind its sign. -/
def readUnsigned (negative : Bool) (s : Text) : Option Numeral :=
  match whole? s with
  | none => none
  | some whole =>
    let s := s.drop whole.length
    let fraction := fractionAt s
    let s := if fraction.isEmpty then s else s.drop (fraction.length + 1)
    some ⟨negative, whole, fraction, exponent? s⟩

/-- Whether a text starts with a minus sign, and the text behind it. -/
def splitSign : Text → Bool × Text
  | '-' :: cs => (true, cs)
  | cs => (false, cs)

theorem read?_eq (s : Text) : read? s = readUnsigned (splitSign s).1 (splitSign s).2 := rfl

theorem splitSign_eq {s : Text} (h : s.head? ≠ some '-') : splitSign s = (false, s) := by
  unfold splitSign
  split
  · exact absurd rfl h
  · rfl

theorem readUnsigned_append {n : Numeral} (h : n.WellFormed) {rest : Text} (hr : Stops rest) :
    readUnsigned n.negative (n.whole ++ (fractionText n.fraction ++
      (exponentText n.exponent ++ rest))) = some n := by
  have hexponent := exponentText_head h hr
  have hdrop : (if n.fraction.isEmpty then fractionText n.fraction ++ (exponentText n.exponent ++ rest)
      else (fractionText n.fraction ++ (exponentText n.exponent ++ rest)).drop (n.fraction.length + 1))
      = exponentText n.exponent ++ rest := by
    unfold fractionText
    split <;> simp
  unfold readUnsigned
  rw [whole?_append h (fractionText_head hexponent)]
  simp only [List.drop_left, fractionAt_append h.fraction hexponent, hdrop, exponent?_append h hr]

/-- A numeral that is written out is read back. -/
theorem read?_text {n : Numeral} (h : n.WellFormed) {rest : Text} (hr : Stops rest) :
    read? (n.text ++ rest) = some n := by
  rw [← readUnsigned_append h hr, text]
  simp only [List.append_assoc]
  rcases hneg : n.negative
  · obtain ⟨c, cs, hw⟩ := List.exists_cons_of_ne_nil h.nonempty
    have hdigit := h.whole
    rw [hw, List.all_cons, Bool.and_eq_true] at hdigit
    rw [hw, read?_eq, splitSign_eq]
    · rfl
    · intro hc
      obtain rfl : c = '-' := by simpa using hc
      exact absurd hdigit.1 (by decide)
  · rfl

/-- The digits of a numeral as one number. -/
def coefficient (n : Numeral) : Nat := Text.numberOf 10 (n.whole ++ n.fraction)

/-- The number behind the letter of an exponent. -/
def power (n : Numeral) : Int :=
  match n.exponent with
  | none => 0
  | some (_, sign, digits) =>
    if sign = some '-' then -(Text.numberOf 10 digits : Int) else Text.numberOf 10 digits

/-- A numeral with a point or an exponent denotes a binary number. -/
theorem value_of_decimal {n : Numeral} (h : n.fraction ≠ [] ∨ n.exponent ≠ none) :
    n.value = .ok (.float (.ofDecimal n.negative n.coefficient (n.power - n.fraction.length))) := by
  have hdecimal : ¬(n.fraction.isEmpty && n.exponent.isNone) = true := by
    rcases h with h | h
    · simp [h]
    · simp [Option.isNone_iff_eq_none, h]
  unfold value
  rw [if_neg hdecimal]
  rfl

/-! ## Integers -/

/-- An integer as a numeral. -/
def ofInt (n : Int) : Numeral := ⟨n < 0, Nat.toDigits 10 n.natAbs, [], none⟩

theorem text_ofInt (n : Int) : (ofInt n).text = Text.lit (toString n) := by
  have htext : (ofInt n).text =
      (if decide (n < 0) = true then ['-'] else []) ++ Nat.toDigits 10 n.natAbs := by
    simp [ofInt, text, fractionText, exponentText]
  rw [htext, Int.toString_eq_repr, Int.repr_eq_if]
  by_cases h : 0 ≤ n
  · rw [if_pos h, if_neg (by simpa using h), List.nil_append, Text.lit, Nat.repr_eq_ofList_toDigits,
      String.toList_ofList, show n.natAbs = n.toNat by omega]
  · rw [if_neg h, if_pos (by simpa using h), Text.lit, String.toList_append,
      Nat.repr_eq_ofList_toDigits, String.toList_ofList, show n.natAbs = (-n).toNat by omega]
    simp

/-- Only zero starts with a zero. -/
theorem head_toDigits {n : Nat} (h : (Nat.toDigits 10 n).head? = some '0') : n = 0 := by
  induction n using Nat.strongRecOn with
  | ind n ih =>
    rw [Nat.toDigits_eq_if (by decide)] at h
    split at h
    · next hn =>
      rw [List.head?_cons, Option.some.injEq] at h
      interval_cases n <;> first | rfl | exact absurd h (by decide)
    · next hn =>
      rw [List.head?_append_of_ne_nil _ Nat.toDigits_ne_nil] at h
      have := ih (n / 10) (by omega) h
      omega

theorem wellFormed_ofInt (n : Int) : (ofInt n).WellFormed where
  nonempty := Nat.toDigits_ne_nil
  whole := Text.all_isAsciiDigit_toDigits _
  leading h := by
    show Nat.toDigits 10 n.natAbs = ['0']
    rw [head_toDigits h]
    rfl
  fraction := rfl
  exponent _ _ _ h := by cases h

/-- A numeral without point and exponent denotes an integer. -/
theorem value_of_integer {n : Numeral} (hf : n.fraction = []) (he : n.exponent = none)
    (hlimit : n.whole.length ≤ digitLimit) :
    n.value = .ok (.int (if n.negative then -(Text.numberOf 10 n.whole : Int)
      else Text.numberOf 10 n.whole)) := by
  unfold value
  rw [if_pos (by simp [hf, he]), if_neg (not_lt.2 hlimit)]

theorem value_ofInt {n : Int} (h : n.natAbs < 10 ^ digitLimit) : (ofInt n).value = .ok (.int n) := by
  have hlimit := (Nat.length_toDigits_le_iff (b := 10) (by decide) (by decide)).2 h
  rw [value_of_integer rfl rfl hlimit]
  have hvalue : (if decide (n < 0) = true then -(Text.numberOf 10 (Nat.toDigits 10 n.natAbs) : Int)
      else Text.numberOf 10 (Nat.toDigits 10 n.natAbs)) = n := by
    rw [Text.numberOf_toDigits]
    simp only [decide_eq_true_eq]
    split <;> omega
  exact congrArg (Except.ok <| Data.int ·) hvalue

/-! ## Shortest decimals -/

/-- The power of ten behind a row of digits, as an exponent. -/
def exponentOf (l : Binary64.Layout) (x : Int) : Char × Option Char × Text :=
  ('e', some (if x < 0 then '-' else '+'),
    List.replicate (l.exponentDigits - (Nat.toDigits 10 x.natAbs).length) '0' ++
      Nat.toDigits 10 x.natAbs)

/-- The numeral that a layout writes for a row of digits. -/
def ofDigits (l : Binary64.Layout) (negative : Bool) (digits : Text) (point : Int) : Numeral :=
  if point < l.leastPoint || l.greatestPoint < point then
    ⟨negative, digits.take 1, digits.drop 1, some (exponentOf l (point - 1))⟩
  else if point ≤ 0 then ⟨negative, ['0'], List.replicate (-point).toNat '0' ++ digits, none⟩
  else if (digits.length : Int) ≤ point then
    ⟨negative, digits ++ List.replicate (point - digits.length).toNat '0', ['0'], none⟩
  else ⟨negative, digits.take point.toNat, digits.drop point.toNat, none⟩

theorem text_ofDigits (l : Binary64.Layout) (negative : Bool) {digits : Text} (hne : digits ≠ [])
    (point : Int) :
    (ofDigits l negative digits point).text =
      (if negative then ['-'] else []) ++ l.text digits point := by
  obtain ⟨d, ds, rfl⟩ := List.exists_cons_of_ne_nil hne
  have htext : ∀ w f x, (⟨negative, w, f, x⟩ : Numeral).text =
      (if negative then ['-'] else []) ++ (w ++ (fractionText f ++ exponentText x)) :=
    fun _ _ _ => rfl
  generalize (if negative then ['-'] else []) = sign at htext ⊢
  unfold ofDigits Binary64.Layout.text
  dsimp only
  split_ifs with hsci hsmall hlarge
  · cases ds <;>
      simp [htext, fractionText, exponentText, exponentOf, Binary64.Layout.exponentText]
  · rw [htext, show Text.lit "0." = ['0', '.'] from rfl]
    simp [fractionText, exponentText]
  · rw [htext, show Text.lit ".0" = ['.', '0'] from rfl]
    simp [fractionText, exponentText]
  · have hdrop : ¬ ((d :: ds).drop point.toNat).isEmpty = true := by
      rw [List.isEmpty_iff, List.drop_eq_nil_iff]
      omega
    rw [htext, fractionText, if_neg hdrop]
    simp [exponentText]

theorem all_take {p : Char → Bool} {s : Text} (h : s.all p = true) (n : Nat) :
    (s.take n).all p = true :=
  List.all_eq_true.2 fun c hc => List.all_eq_true.1 h c (List.mem_of_mem_take hc)

theorem all_drop {p : Char → Bool} {s : Text} (h : s.all p = true) (n : Nat) :
    (s.drop n).all p = true :=
  List.all_eq_true.2 fun c hc => List.all_eq_true.1 h c (List.mem_of_mem_drop hc)

theorem wellFormed_ofDigits (l : Binary64.Layout) (negative : Bool) {digits : Text}
    (hne : digits ≠ []) (hd : digits.all Text.isAsciiDigit = true) (hhead : digits.head? ≠ some '0')
    (point : Int) : (ofDigits l negative digits point).WellFormed := by
  obtain ⟨d, ds, rfl⟩ := List.exists_cons_of_ne_nil hne
  have hexponent : ∀ x e sign t, some (exponentOf l x) = some (e, sign, t) →
      (e = 'e' ∨ e = 'E') ∧ (∀ c ∈ sign, c = '+' ∨ c = '-') ∧ t ≠ [] ∧
        t.all Text.isAsciiDigit = true := by
    rintro x e sign t h
    cases h
    refine ⟨.inl rfl, ?_, by simp [Nat.toDigits_ne_nil], ?_⟩
    · intro c hc
      obtain rfl := Option.some.inj hc
      split <;> simp
    · rw [List.all_append, Text.all_isAsciiDigit_replicate, Text.all_isAsciiDigit_toDigits]
      rfl
  unfold ofDigits
  split_ifs with hsci hsmall hlarge
  · exact ⟨by simp, all_take hd 1, fun h => absurd h hhead, all_drop hd 1, hexponent _⟩
  · refine ⟨by simp, rfl, fun _ => rfl, ?_, by simp⟩
    rw [List.all_append, Text.all_isAsciiDigit_replicate, hd]
    rfl
  · refine ⟨by simp, ?_, fun h => absurd h hhead, rfl, by simp⟩
    rw [List.all_append, Text.all_isAsciiDigit_replicate, hd]
    rfl
  · obtain ⟨n, hn⟩ : ∃ n, point.toNat = n + 1 := ⟨point.toNat - 1, by omega⟩
    rw [hn]
    exact ⟨by simp, all_take hd _, fun h => absurd h hhead, all_drop hd _, by simp⟩

theorem power_exponentOf (l : Binary64.Layout) (negative : Bool) (whole fraction : Text) (x : Int) :
    (⟨negative, whole, fraction, some (exponentOf l x)⟩ : Numeral).power = x := by
  simp only [power, exponentOf, Text.numberOf_zeros_append, Text.numberOf_toDigits]
  by_cases hx : x < 0
  · rw [if_pos hx, if_pos rfl]
    omega
  · rw [if_neg hx, if_neg (by decide)]
    omega

/-- A layout writes a number that its digits and its point denote. -/
theorem value_ofDigits (l : Binary64.Layout) (negative : Bool) {digits : Text} (hne : digits ≠ [])
    (point : Int) :
    ∃ (d : Nat) (k : Int), (ofDigits l negative digits point).value =
        .ok (.float (.ofDecimal negative d k)) ∧
      (d : ℚ) * 10 ^ k = Text.numberOf 10 digits * 10 ^ (point - digits.length) := by
  have hlength : 0 < digits.length := List.length_pos_of_ne_nil hne
  unfold ofDigits
  split_ifs with hsci hsmall hlarge
  · refine ⟨_, _, value_of_decimal (.inr (by simp)), ?_⟩
    rw [coefficient, power_exponentOf, List.take_append_drop, List.length_drop]
    congr 2
    omega
  · refine ⟨_, _, value_of_decimal (.inl (by simp [hne])), ?_⟩
    have hzeros : ['0'] ++ (List.replicate (-point).toNat '0' ++ digits) =
        List.replicate ((-point).toNat + 1) '0' ++ digits := by
      rw [List.replicate_succ]; rfl
    rw [coefficient, hzeros, Text.numberOf_zeros_append, power, List.length_append,
      List.length_replicate]
    congr 2
    simp only
    omega
  · refine ⟨_, _, value_of_decimal (.inl (by simp)), ?_⟩
    obtain ⟨n, hn⟩ : ∃ n : ℕ, point - digits.length = n := ⟨(point - digits.length).toNat, by omega⟩
    have hzeros : digits ++ List.replicate (point - digits.length).toNat '0' ++ ['0'] =
        digits ++ List.replicate (n + 1) '0' := by
      rw [hn, List.replicate_succ', List.append_assoc]; rfl
    rw [coefficient, hzeros, Text.numberOf_append_zeros, hn, power]
    simp only [List.length_singleton]
    rw [Nat.cast_mul, Nat.cast_pow, Nat.cast_ofNat, mul_assoc, ← zpow_natCast (10 : ℚ) (n + 1),
      ← zpow_add₀ (by norm_num)]
    congr 2
    push_cast
    ring
  · refine ⟨_, _, value_of_decimal (.inl ?_), ?_⟩
    · simp only [ne_eq, List.drop_eq_nil_iff]
      omega
    · rw [coefficient, List.take_append_drop, power, List.length_drop]
      congr 2
      simp only
      omega

/-- What a finite number is written as denotes that number. -/
theorem exists_numeral (negative : Bool) {m : Nat} {e : Int} (h : Binary64.Canonical m e) :
    ∃ n : Numeral, n.WellFormed ∧ n.text = (Binary64.finite negative m e).text ∧
      n.value = .ok (.float (.finite negative m e)) := by
  rcases Nat.eq_zero_or_pos m with rfl | hm
  · obtain rfl : e = -1074 := h.full.resolve_left (by decide)
    exact ⟨⟨negative, ['0'], ['0'], none⟩, ⟨by simp, rfl, fun _ => rfl, rfl, by simp⟩, rfl,
      value_of_decimal (.inl (by simp))⟩
  · obtain ⟨row, hrow⟩ : ∃ row, row = Nat.toDigits 10 (Binary64.shortest m e).1 := ⟨_, rfl⟩
    obtain ⟨zeros, hkept⟩ := Binary64.exists_dropLastZeros row
    generalize hdigits : Binary64.dropLastZeros row = digits at hkept
    have hall : row.all Text.isAsciiDigit = true := hrow ▸ Text.all_isAsciiDigit_toDigits _
    have hvalue : Text.numberOf 10 row = (Binary64.shortest m e).1 :=
      hrow ▸ Text.numberOf_toDigits _
    have hpos := Binary64.shortest_pos h hm
    have hne : digits ≠ [] := by
      rintro rfl
      rw [hkept, Text.numberOf_append_zeros] at hvalue
      simp [Text.numberOf] at hvalue
      omega
    have hhead : digits.head? ≠ some '0' := by
      intro hzero
      refine hpos.ne' (head_toDigits ?_)
      rw [← hrow, hkept, List.head?_append_of_ne_nil _ hne, hzero]
    obtain ⟨d, k, hd, hdk⟩ := value_ofDigits Binary64.plain negative hne
      (row.length + (Binary64.shortest m e).2)
    refine ⟨ofDigits Binary64.plain negative digits (row.length + (Binary64.shortest m e).2),
      wellFormed_ofDigits _ _ hne ?_ hhead _, ?_, ?_⟩
    · rw [hkept, List.all_append, Bool.and_eq_true] at hall
      exact hall.1
    · rw [text_ofDigits _ _ hne, Binary64.text, if_neg hm.ne', ← hdigits, hrow]
    · rw [hd, Binary64.ofDecimal_shortest negative h hm]
      rw [hdk, ← hvalue, hkept, Text.numberOf_append_zeros, List.length_append,
        List.length_replicate, Nat.cast_mul, Nat.cast_pow, Nat.cast_ofNat, mul_assoc,
        ← zpow_natCast (10 : ℚ) zeros, ← zpow_add₀ (by norm_num)]
      congr 2
      push_cast
      ring

theorem exists_digit {n : Numeral} (h : n.WellFormed) :
    ∃ c cs, Text.isAsciiDigit c = true ∧ n.text = (if n.negative then ['-'] else []) ++ c :: cs := by
  obtain ⟨c, cs, hw⟩ := List.exists_cons_of_ne_nil h.nonempty
  have hdigits := h.whole
  rw [hw, List.all_cons, Bool.and_eq_true] at hdigits
  exact ⟨c, _, hdigits.1, by rw [text, hw, List.cons_append]⟩

end Numeral

/-- No word is the beginning of a number. -/
theorem find?_words_text (refuse : Bool) {n : Numeral} (h : n.WellFormed) (rest : Text) :
    ((words refuse).find? fun w => Text.startsWith w.1 (n.text ++ rest)) = none := by
  obtain ⟨c, cs, hc, htext⟩ := n.exists_digit h
  have hne : ∀ x : Char, Text.isAsciiDigit x = false → x ≠ c := by
    rintro x hx rfl
    rw [hx] at hc
    cases hc
  rw [htext, List.find?_eq_none]
  intro w hw
  have hw : w.1 ∈ ["null", "true", "false", "NaN", "Infinity", "-Infinity"].map Text.lit := by
    have := List.mem_map_of_mem (f := Prod.fst) hw
    exact this
  have hn := hne 'n' (by decide)
  have ht := hne 't' (by decide)
  have hf := hne 'f' (by decide)
  have hN := hne 'N' (by decide)
  have hI := hne 'I' (by decide)
  have hm := hne '-' (by decide)
  simp only [List.map_cons, List.map_nil, List.mem_cons, List.not_mem_nil, or_false] at hw
  rcases hw with hw | hw | hw | hw | hw | hw <;> rw [hw] <;> cases n.negative <;>
    simp [Text.startsWith, Text.dropStart?, Text.lit, *]

theorem scalar_text (refuse : Bool) {n : Numeral} (h : n.WellFormed) {v : Data}
    (hv : n.value = .ok v) (offset : Nat) {rest : Text} (hr : Stops rest) :
    scalar refuse ⟨offset, n.text ++ rest⟩ = .ok (v, ⟨offset + n.text.length, rest⟩) := by
  unfold scalar
  rw [find?_words_text refuse h rest, Numeral.read?_text h hr]
  simp only [hv, ← n.length_text, List.drop_left]

end Json

end ConfigCare
