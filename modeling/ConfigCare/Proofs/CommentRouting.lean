import ConfigCare.Format.Document
import ConfigCare.Proofs.Tokens

/-! A document with a comment is never written anew from its value. The guess at comments may miss
one, so what counts is that the JSON reader takes no text with a comment: `no_comment_of_read`.
Every part of the reader passes over text in which the lexer sees no comment and comes back to code, and
such passages compose. A passage is counted with the levels of nesting that it rises by: a value that is
read rises by none. -/

namespace ConfigCare

namespace Jsonc

/-- What the delimiters among some tokens open, less what they close. -/
def Token.rise : Token → Int
  | .mark c => if isOpener c then 1 else if isCloser c then -1 else 0
  | _ => 0

def rise (ts : List Token) : Int := ts.foldr (fun t n => t.rise + n) 0

@[simp] theorem rise_nil : rise [] = 0 := rfl

@[simp] theorem rise_append (ts us : List Token) : rise (ts ++ us) = rise ts + rise us := by
  induction ts with
  | nil => simp
  | cons t ts ih =>
    simp only [rise, List.cons_append, List.foldr_cons] at ih ⊢
    rw [ih, Int.add_assoc]

@[simp] theorem rise_wordToken (w : Text) : rise (wordToken w) = 0 := by
  cases w <;> rfl

@[simp] theorem rise_string (s : Text) : rise [.string s] = 0 := rfl

@[simp] theorem rise_mark (c : Char) : rise [.mark c] = (Token.mark c).rise := by
  simp [rise]

/-- In code a character rises by what it does as a delimiter. -/
theorem rise_stepCode (w : Text) {c : Char} (hq : c ≠ '"') :
    rise (Lexer.stepCode w c).1 = (Token.mark c).rise := by
  rw [Lexer.stepCode, if_neg hq]
  by_cases hmark : isMark c
  · simp [hmark]
  · have hrise : (Token.mark c).rise = 0 := by
      simp only [isMark, Bool.or_eq_true, not_or] at hmark
      simp [Token.rise, hmark]
    rw [if_neg hmark, hrise]
    split
    · exact rise_wordToken w
    · split <;> rfl

end Jsonc

namespace Json

open Jsonc

/-- Reading the text in code completes no comment, rises by so many levels and comes back to code. -/
def Plain (n : Int) (p : Text) : Prop :=
  ∀ w, ∃ ts w', (Lexer.code w).read p = (ts, .code w') ∧ ts.any Token.isComment = false ∧ rise ts = n

theorem Plain.nil : Plain 0 [] := fun w => ⟨[], w, rfl, rfl, rfl⟩

theorem Plain.append {m n : Int} {p q : Text} (hp : Plain m p) (hq : Plain n q) :
    Plain (m + n) (p ++ q) := by
  intro w
  obtain ⟨ts, w', h, hts, hm⟩ := hp w
  obtain ⟨us, w'', h', hus, hn⟩ := hq w'
  refine ⟨ts ++ us, w'', ?_, ?_, ?_⟩
  · rw [Lexer.read_append, h, h']
  · rw [List.any_append, hts, hus]; rfl
  · rw [rise_append, hm, hn]

/-- Neither a quote nor a slash. -/
def isPlain (c : Char) : Bool := c ≠ '"' && c ≠ '/'

theorem plain_char {c : Char} (h : isPlain c) : Plain (Token.mark c).rise [c] := by
  obtain ⟨hq, hs⟩ : c ≠ '"' ∧ c ≠ '/' := by simpa [isPlain] using h
  intro w
  obtain ⟨ts, w', hstep, hts⟩ := Lexer.stepCode_plain w hq hs
  refine ⟨ts, w', ?_, hts, ?_⟩
  · rw [Lexer.read_cons, Lexer.step, hstep, Lexer.read_nil, List.append_nil]
  · rw [← rise_stepCode w hq, hstep]

/-- Neither a quote, a slash nor a delimiter. -/
def isFlat (c : Char) : Bool := isPlain c && (!isOpener c && !isCloser c)

theorem plain_of_all {p : Text} (h : p.all isFlat) : Plain 0 p := by
  induction p with
  | nil => exact .nil
  | cons c cs ih =>
    obtain ⟨hc, hcs⟩ := Bool.and_eq_true_iff.1 h
    obtain ⟨hplain, hrise⟩ : isPlain c = true ∧ (Token.mark c).rise = 0 := by
      simp only [isFlat, Bool.and_eq_true, Bool.not_eq_true'] at hc
      simp [Token.rise, hc]
    have h := (plain_char hplain).append (ih hcs)
    rwa [hrise] at h

/-- One can pass from the first text over plain text to the second, and rises by so many levels. -/
def Passes (n : Int) (s r : Text) : Prop := ∃ p, s = p ++ r ∧ Plain n p

theorem Passes.trans {m n : Int} {s r t : Text} (h : Passes m s r) (h' : Passes n r t) :
    Passes (m + n) s t := by
  obtain ⟨p, rfl, hp⟩ := h
  obtain ⟨q, rfl, hq⟩ := h'
  exact ⟨p ++ q, (List.append_assoc ..).symm, hp.append hq⟩

/-- On one level. -/
theorem Passes.level {n : Int} {s r t : Text} (h : Passes 0 s r) (h' : Passes n r t) : Passes n s t := by
  simpa using h.trans h'

theorem passes_cons {c : Char} (h : isPlain c) (s : Text) : Passes (Token.mark c).rise (c :: s) s :=
  ⟨[c], rfl, plain_char h⟩

theorem passes_drop {s : Text} {n : Nat} (h : (s.take n).all isFlat) : Passes 0 s (s.drop n) :=
  ⟨s.take n, (List.take_append_drop n s).symm, plain_of_all h⟩

theorem passes_skip (c : Cursor) : Passes 0 c.rest (skip c).rest := by
  rw [skip, Cursor.skipWhile, Cursor.skipFrom_rest]
  refine ⟨_, List.takeWhile_append_dropWhile.symm, plain_of_all ?_⟩
  refine List.all_eq_true.2 fun x hx => ?_
  have hs : isSpace x := List.all_eq_true.1 List.all_takeWhile x hx
  simp only [isSpace, Bool.or_eq_true, decide_eq_true_eq] at hs
  rcases hs with ((rfl | rfl) | rfl) | rfl <;> decide

/-- What a step passes over, and the levels that it rises by, whenever it succeeds. -/
def PassesOver {α : Type} (n : Int) (read : Step α) : Prop :=
  ∀ ⦃c v c'⦄, read c = .ok (v, c') → Passes n c.rest c'.rest

/-! ## Strings -/

theorem hexDigit_in_string {c : Char} (h : Text.isHexDigit c) : c ≠ '"' ∧ c ≠ '\\' := by
  constructor <;> (rintro rfl; exact absurd h (by decide))

theorem read_hexDigits {ds : Text} (h : ds.all Text.isHexDigit) (x : Text) :
    (Lexer.string x).read ds = ([], .string (x ++ ds)) := by
  induction ds generalizing x with
  | nil => simp
  | cons d ds ih =>
    simp only [List.all_cons, Bool.and_eq_true] at h
    obtain ⟨hq, hb⟩ := hexDigit_in_string h.1
    rw [Lexer.read_string_cons x hq hb, ih h.2]
    simp

/-- A string that is accepted is one literal of the lexer, to its closing quote. -/
theorem read_stringFrom {start offset : Nat} {done v : WideText} {s : Text} {c : Cursor}
    (h : stringFrom start done offset s = .ok (v, c)) :
    ∃ q, s = q ++ c.rest ∧
      ∀ x, (Lexer.string x).read q = ([.string (x ++ q)], .code []) := by
  fun_induction stringFrom start done offset s with
  | case1 => cases h
  | case2 done offset cs =>
    cases h
    exact ⟨['"'], rfl, fun x => rfl⟩
  | case3 => cases h
  | case4 done offset a b c d e cs hex ih =>
    obtain ⟨q, hq, hread⟩ := ih h
    refine ⟨['\\', 'u'] ++ ([a, b, c, d] ++ q), by simp [hq], fun x => ?_⟩
    rw [List.cons_append, List.cons_append, Lexer.read_string_escape, List.nil_append,
      Lexer.read_append, read_hexDigits hex, hread]
    simp
  | case5 => cases h
  | case6 => cases h
  | case7 done offset e cs _ _ c hc ih =>
    obtain ⟨q, rfl, hread⟩ := ih h
    refine ⟨'\\' :: e :: q, rfl, fun x => ?_⟩
    rw [Lexer.read_string_escape, hread]
    simp
  | case8 => cases h
  | case9 => cases h
  | case10 done offset c cs hq hend _ hesc _ ih =>
    have hb : c ≠ '\\' := by
      intro e
      cases cs with
      | nil => exact hend e rfl
      | cons d ds => exact hesc d ds e rfl
    obtain ⟨q, rfl, hread⟩ := ih h
    refine ⟨c :: q, rfl, fun x => ?_⟩
    rw [Lexer.read_string_cons x hq hb, hread]
    simp

theorem passes_string {start offset : Nat} {done v : WideText} {s : Text} {c : Cursor}
    (h : stringFrom start done offset s = .ok (v, c)) : Passes 0 ('"' :: s) c.rest := by
  obtain ⟨q, rfl, hread⟩ := read_stringFrom h
  refine ⟨'"' :: q, rfl, fun w => ⟨wordToken w ++ [.string ('"' :: q)], [], ?_, ?_, ?_⟩⟩
  · rw [Lexer.read_cons, Lexer.step, Lexer.stepCode, if_pos rfl, hread]
    rfl
  · simp [Lexer.wordToken_no_comment, Token.isComment]
  · simp

/-! ## Words and numbers -/

theorem isFlat_of_isAsciiDigit {c : Char} (h : Text.isAsciiDigit c) : isFlat c := by
  have hne : ∀ d, Text.isAsciiDigit d = false → c ≠ d := by
    rintro d hd rfl
    exact Bool.false_ne_true (hd.symm.trans h)
  simp [isFlat, isPlain, isOpener, isCloser, hne '"' (by decide), hne '/' (by decide),
    hne '\x7b' (by decide), hne '[' (by decide), hne '\x7d' (by decide), hne ']' (by decide)]

theorem isFlat_of_digits {ds : Text} (h : ds.all Text.isAsciiDigit) : ds.all isFlat :=
  List.all_eq_true.2 fun d hd => isFlat_of_isAsciiDigit (List.all_eq_true.1 h d hd)

theorem take_takeWhile_length (p : Char → Bool) (s : Text) :
    s.take (s.takeWhile p).length = s.takeWhile p :=
  (List.prefix_iff_eq_take.1 (List.takeWhile_prefix p)).symm

theorem all_take_add {p : Char → Bool} {s : Text} {m n : Nat} (h : (s.take m).all p)
    (h' : ((s.drop m).take n).all p) : (s.take (m + n)).all p := by
  rw [List.take_add, List.all_append, h, h']; rfl

namespace Numeral

theorem plain_whole {s w : Text} (h : whole? s = some w) : (s.take w.length).all isFlat := by
  unfold whole? at h
  split at h
  · cases h; rfl
  · next c cs _ =>
    split at h
    · next hc =>
      cases h
      rw [List.length_cons, List.take_succ_cons, take_takeWhile_length, List.all_cons,
        isFlat_of_isAsciiDigit hc, isFlat_of_digits List.all_takeWhile]
      rfl
    · cases h
  · cases h

/-- The number of characters of an exponent, with its letter and its sign. -/
def exponentLength : Option (Char × Option Char × Text) → Nat
  | none => 0
  | some (_, sign, digits) => digits.length + if sign.isSome then 2 else 1

theorem plain_exponent (s : Text) : (s.take (exponentLength (exponent? s))).all isFlat := by
  have digits : ∀ t : Text, (t.take (t.takeWhile Text.isAsciiDigit).length).all isFlat := by
    intro t
    rw [take_takeWhile_length]
    exact isFlat_of_digits List.all_takeWhile
  rcases h : exponent? s with _ | ⟨e, sign, ds⟩
  · rfl
  · rw [exponentLength]
    unfold exponent? at h
    split at h
    · next c cs =>
      split at h
      · next he =>
        have hc : isFlat c := by
          rcases Bool.or_eq_true_iff.1 he with h | h <;> (rw [of_decide_eq_true h]; decide)
        simp only [Option.ite_none_left_eq_some, Option.some.injEq, Prod.mk.injEq] at h
        obtain ⟨-, rfl, rfl, rfl⟩ := h
        -- with a sign one more character is passed over than without
        split
        · next t => simp [List.take_succ_cons, hc, digits t, show isFlat '+' by decide]
        · next t => simp [List.take_succ_cons, hc, digits t, show isFlat '-' by decide]
        · simp [List.take_succ_cons, hc, digits cs]
      · cases h
    · cases h

/-- The digits behind a point. -/
def fractionAt : Text → Text
  | '.' :: cs => cs.takeWhile Text.isAsciiDigit
  | _ => []

/-- The number of characters of a fraction, with its point. -/
def fractionLength (fraction : Text) : Nat := if fraction.isEmpty then 0 else fraction.length + 1

theorem plain_fraction (s : Text) : (s.take (fractionLength (fractionAt s))).all isFlat := by
  unfold fractionAt fractionLength
  split
  · next cs =>
    split
    · rfl
    · rw [List.take_succ_cons, take_takeWhile_length, List.all_cons,
        isFlat_of_digits List.all_takeWhile]
      rfl
  · rfl

/-- A numeral behind its sign: the whole part, then the fraction, then the exponent. -/
theorem read?_eq_some {s : Text} {n : Numeral} (h : read? s = some n) :
    ∃ t, ((n.negative = true ∧ s = '-' :: t) ∨ (n.negative = false ∧ s = t)) ∧
      whole? t = some n.whole ∧ n.fraction = fractionAt (t.drop n.whole.length) ∧
      n.exponent = exponent? ((t.drop n.whole.length).drop (fractionLength n.fraction)) := by
  have skip : ∀ t f : Text, (if f.isEmpty then t else t.drop (f.length + 1)) =
      t.drop (fractionLength f) := by
    intro t f
    unfold fractionLength
    split <;> rfl
  unfold read? at h
  simp only at h
  split at h
  · cases h
  · next whole hw =>
    cases h
    split at hw
    · next t => exact ⟨t, .inl ⟨rfl, rfl⟩, hw, rfl, congrArg exponent? (skip ..)⟩
    · next t ht => exact ⟨_, .inr ⟨rfl, rfl⟩, hw, rfl, congrArg exponent? (skip ..)⟩

theorem length_eq (n : Numeral) :
    n.length = (if n.negative then 1 else 0) + n.whole.length + fractionLength n.fraction +
      exponentLength n.exponent := by
  unfold length fractionLength exponentLength
  rfl

theorem plain_read {s : Text} {n : Numeral} (h : read? s = some n) :
    (s.take n.length).all isFlat := by
  obtain ⟨t, hs, hwhole, hfraction, hexponent⟩ := read?_eq_some h
  have hwf : (t.take (n.whole.length + fractionLength n.fraction)).all isFlat :=
    all_take_add (plain_whole hwhole) (hfraction ▸ plain_fraction _)
  have hunsigned : (t.take (n.whole.length + fractionLength n.fraction +
      exponentLength n.exponent)).all isFlat := by
    refine all_take_add hwf ?_
    rw [← List.drop_drop, hexponent]
    exact plain_exponent _
  rw [length_eq]
  rcases hs with ⟨hneg, rfl⟩ | ⟨hneg, rfl⟩
  · rw [if_pos hneg, Nat.add_assoc, Nat.add_assoc, Nat.add_comm 1, List.take_succ_cons, List.all_cons,
      ← Nat.add_assoc]
    exact Bool.and_eq_true_iff.2 ⟨by decide, hunsigned⟩
  · rw [if_neg (by simp [hneg]), Nat.zero_add]
    exact hunsigned

end Numeral

theorem passesOver_scalar (refuse : Bool) : PassesOver 0 (scalar refuse) := by
  intro c v c' h
  unfold scalar at h
  split at h
  · next w v' hw =>
    cases h
    have hmem := List.mem_of_find?_eq_some hw
    have hstart := List.find?_some hw
    obtain ⟨r, hr⟩ := Option.isSome_iff_exists.1 hstart
    rw [Text.eq_append_of_dropStart? hr]
    simp only [List.drop_left]
    refine ⟨w, rfl, plain_of_all ?_⟩
    simp only [words, words.constant, List.mem_cons, Prod.mk.injEq, List.not_mem_nil,
      or_false] at hmem
    rcases hmem with ⟨rfl, -⟩ | ⟨rfl, -⟩ | ⟨rfl, -⟩ | ⟨rfl, -⟩ | ⟨rfl, -⟩ | ⟨rfl, -⟩ <;> decide
  · cases h
  · split at h
    · cases h
    · next n hn =>
      split at h
      · cases h
      · cases h
        exact passes_drop (Numeral.plain_read hn)

/-! ## Lists and tables -/

/-- A comma and the white space behind it. -/
theorem passes_comma {n : Nat} {cs : Text} : Passes 0 (',' :: cs) (skip ⟨n, cs⟩).rest := by
  have hcomma : Passes 0 (',' :: cs) cs := passes_cons (by decide) cs
  exact hcomma.level (passes_skip ⟨n, cs⟩)

theorem passesOver_items {read : Step Data} (hread : PassesOver 0 read) (fuel : Nat)
    (done : List Data) : PassesOver (-1) (items read fuel done) := by
  induction fuel generalizing done with
  | zero => intro c v c' h; cases h
  | succ fuel ih =>
    intro c vs c' h
    unfold items at h
    split at h
    · cases h
    · next v c₁ hv =>
      have hskip := (hread hv).level (passes_skip c₁)
      split at h
      · next n cs hc =>
        cases h
        rw [hc] at hskip
        exact hskip.level (passes_cons (by decide) cs)
      · next n cs hc =>
        rw [hc] at hskip
        exact (hskip.level passes_comma).level (ih _ h)
      · cases h

theorem passesOver_key : PassesOver 0 key := by
  intro c k c' h
  unfold key at h
  split at h
  · next cs hcs =>
    split at h
    · cases h
    · next k' c₁ hk =>
      have hskip := (hcs ▸ passes_string hk).level (passes_skip c₁)
      split at h
      · next n ds hc =>
        cases h
        rw [hc] at hskip
        exact (hskip.level (passes_cons (by decide) ds)).level (passes_skip ⟨n + 1, ds⟩)
      · cases h
  · cases h

theorem passesOver_members {read : Step Data} (hread : PassesOver 0 read) (fuel : Nat)
    (done : List (WideText × Data)) : PassesOver (-1) (members read fuel done) := by
  induction fuel generalizing done with
  | zero => intro c v c' h; cases h
  | succ fuel ih =>
    intro c vs c' h
    unfold members at h
    split at h
    · cases h
    · next k c₁ hk =>
      split at h
      · cases h
      · next v c₂ hv =>
        have hskip := (passesOver_key hk).level ((hread hv).level (passes_skip c₂))
        split at h
        · next n cs hc =>
          cases h
          rw [hc] at hskip
          exact hskip.level (passes_cons (by decide) cs)
        · next n cs hc =>
          rw [hc] at hskip
          exact (hskip.level passes_comma).level (ih _ h)
        · cases h

theorem exists_of_map_ok {ε α β : Type} {x : Except ε α} {f : α → β} {r : β}
    (h : x.map f = .ok r) : ∃ a, x = .ok a ∧ f a = r := by
  cases x with
  | error e => cases h
  | ok a => cases h; exact ⟨a, rfl, rfl⟩

theorem passesOver_list {read : Step Data} (hread : PassesOver 0 read) (fuel : Nat) :
    PassesOver (-1) (list read fuel) := by
  intro c v c' h
  unfold list at h
  split at h
  · next n cs hc =>
    cases h
    exact (hc ▸ passes_skip c).level (passes_cons (by decide) cs)
  · obtain ⟨⟨vs, c₁⟩, hitems, he⟩ := exists_of_map_ok h
    cases he
    exact (passes_skip c).level (passesOver_items hread fuel [] hitems)

theorem passesOver_table {read : Step Data} (hread : PassesOver 0 read) (fuel : Nat) :
    PassesOver (-1) (table read fuel) := by
  intro c v c' h
  unfold table at h
  split at h
  · next n cs hc =>
    cases h
    exact (hc ▸ passes_skip c).level (passes_cons (by decide) cs)
  · obtain ⟨⟨es, c₁⟩, hmembers, he⟩ := exists_of_map_ok h
    cases he
    exact (passes_skip c).level (passesOver_members hread fuel [] hmembers)

theorem passesOver_value (refuse : Bool) (fuel depth : Nat) :
    PassesOver 0 (value refuse fuel depth) := by
  have one : ∀ inner : Option (Step Data), (∀ read ∈ inner, PassesOver 0 read) →
      PassesOver 0 (valueWith refuse fuel inner) := by
    intro inner hinner c v c' h
    unfold valueWith at h
    split at h
    · next cs hcs =>
      obtain ⟨⟨t, c₁⟩, hstring, he⟩ := exists_of_map_ok h
      cases he
      rw [hcs]
      exact passes_string hstring
    · next cs read hcs =>
      rw [hcs]
      exact (passes_cons (by decide) cs).trans (passesOver_list (hinner read rfl) fuel h)
    · next cs read hcs =>
      rw [hcs]
      exact (passes_cons (by decide) cs).trans (passesOver_table (hinner read rfl) fuel h)
    · cases h
    · cases h
    · exact passesOver_scalar refuse h
  induction depth with
  | zero => exact one none (by simp)
  | succ depth ih => exact one _ (by simpa using ih)

/-- A text that is read holds one value, and nothing but white space around it. -/
theorem exists_value_of_read {refuse : Bool} {s : Text} {v : Data} (h : read refuse s = .ok v) :
    ∃ c, value refuse (s.length + 1) depthLimit (skip ⟨0, s⟩) = .ok (v, c) ∧ (skip c).rest = [] := by
  unfold read document at h
  split at h
  · cases h
  · next hv =>
    split at hv
    · cases hv
    · split at hv
      · cases hv
      · next c hvalue =>
        split at hv
        · next hc =>
          cases hv
          cases h
          exact ⟨c, hvalue, by rw [hc]⟩
        · cases hv

/-- A text that is read as JSON has no comment. -/
theorem no_comment_of_read {refuse : Bool} {s : Text} {v : Data} (h : read refuse s = .ok v) :
    hasComment s = false := by
  obtain ⟨c, hvalue, hend⟩ := exists_value_of_read h
  have hpasses : Passes 0 s [] := hend ▸ (passes_skip ⟨0, s⟩).level
    ((passesOver_value refuse _ _ hvalue).level (passes_skip c))
  obtain ⟨p, hs, hp⟩ := hpasses
  obtain ⟨ts, w, hread, hts, -⟩ := hp []
  rw [hs, List.append_nil, hasComment, tokens, Lexer.tokens, hread, List.any_append, hts]
  exact Lexer.wordToken_no_comment w

end Json

end ConfigCare

namespace ConfigCare.Format

open Jsonc

/-- A document with a comment is no strict JSON, and it is indented whether or not the comment is
noticed. -/
theorem formatJson_of_hasComment (strict : Bool) (s : Text) (h : hasComment s) :
    (∀ t, Json.canonical s ≠ .ok t) ∧ formatJson strict s = .ok (indented strict s) := by
  have hread : ∀ t, Json.canonical s ≠ .ok t := by
    intro t ht
    obtain ⟨v, hv, -⟩ := Json.exists_of_map_ok ht
    rw [Json.no_comment_of_read hv] at h
    cases h
  refine ⟨hread, ?_⟩
  unfold formatJson
  split
  · rfl
  · split
    · next t ht => exact absurd ht (hread t)
    · rfl

/-- The guess misses this comment, whose slashes stand behind a colon. -/
theorem formatJson_of_missed_comment :
    Jsonc.looksCommented (Text.lit "\x7b\"a\"://x\n1\x7d") = false ∧
      hasComment (Text.lit "\x7b\"a\"://x\n1\x7d") ∧
      (∀ t, Json.canonical (Text.lit "\x7b\"a\"://x\n1\x7d") ≠ .ok t) ∧
      formatJson true (Text.lit "\x7b\"a\"://x\n1\x7d") =
        .ok (indented true (Text.lit "\x7b\"a\"://x\n1\x7d")) :=
  ⟨by decide, by decide, formatJson_of_hasComment true _ (by decide)⟩

end ConfigCare.Format
