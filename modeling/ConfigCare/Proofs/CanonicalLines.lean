import ConfigCare.Proofs.Settled
import ConfigCare.Proofs.WrittenValues

/-! The lines of a canonical JSON text and what the two reindenters make of them. Such a text is laid
out in rows, one line or a block between a line that opens it and one that closes it (`Laid`).
Counting delimiters, `reindentNested` leaves every layout as it is; `reindent` does so unless a line
that opens a block holds a pair of brackets, which it can only hold in a key. -/

namespace ConfigCare

namespace Jsonc

open Text
open Json (isPlain)

/-! ## Code without comments -/

/-- Passing over a text in code finds no comment, comes back to code, and counts so. -/
structure Clean (p : Text) (count : Tally → Tally) : Prop where
  scan : ∀ offset t rest, scanFrom offset t .code (p ++ rest) =
    scanFrom (offset + p.length) (count t) .code rest
  comment : ∀ offset rest, commentFrom .code offset (p ++ rest) =
    commentFrom .code (offset + p.length) rest

theorem Clean.nil : Clean [] id := ⟨fun _ _ _ => rfl, fun _ _ => rfl⟩

theorem Clean.append {p q : Text} {f g : Tally → Tally} (hp : Clean p f) (hq : Clean q g) :
    Clean (p ++ q) (g ∘ f) where
  scan offset t rest := by
    rw [List.append_assoc, hp.scan, hq.scan, List.length_append, Nat.add_assoc]
    rfl
  comment offset rest := by
    rw [List.append_assoc, hp.comment, hq.comment, List.length_append, Nat.add_assoc]

theorem Clean.char {c : Char} (h : isPlain c = true) : Clean [c] (·.add c) := by
  obtain ⟨hquote, hslash⟩ : c ≠ '"' ∧ c ≠ '/' := by simpa [isPlain] using h
  refine ⟨fun offset t rest => ?_, fun offset rest => ?_⟩
  · rw [List.singleton_append, scanFrom_code_cons, if_neg hquote]
    · rfl
    · intro y e
      exact hslash (List.cons.inj e).1
    · intro y e
      exact hslash (List.cons.inj e).1
  · rw [List.singleton_append, commentFrom, if_neg, Place.next, if_neg hquote]
    · rfl
    · simp [Text.startsWith, dropStart?, lineComment, Ne.symm hslash]

theorem Clean.plain {p : Text} (h : p.all isPlain = true) : Clean p fun t => p.foldl Tally.add t := by
  induction p with
  | nil => exact .nil
  | cons c cs ih =>
    rw [List.all_cons, Bool.and_eq_true] at h
    exact (Clean.char h.1).append (ih h.2)

/-- The inside of a string literal: an escape is a backslash and another character. -/
inductive Inside : Text → Prop where
  | nil : Inside []
  | char {c : Char} {cs : Text} (hq : c ≠ '"') (hb : c ≠ '\\') (hn : c ≠ '\n') (h : Inside cs) :
    Inside (c :: cs)
  | escape {c : Char} {cs : Text} (hn : c ≠ '\n') (h : Inside cs) : Inside ('\\' :: c :: cs)

theorem Inside.append {a b : Text} (ha : Inside a) (hb : Inside b) : Inside (a ++ b) := by
  induction ha with
  | nil => exact hb
  | char hq hbs hn _ ih => exact .char hq hbs hn ih
  | escape hn _ ih => exact .escape hn ih

theorem Inside.newline_not_mem {p : Text} (h : Inside p) : '\n' ∉ p := by
  induction h with
  | nil => simp
  | char _ _ hn _ ih => simp [Ne.symm hn, ih]
  | escape hn _ ih => simp [Ne.symm hn, ih]

theorem Inside.scan {p : Text} (h : Inside p) (offset : Nat) (t : Tally) (rest : Text) :
    scanFrom offset t .string (p ++ '"' :: rest) = scanFrom (offset + p.length + 1) t .code rest := by
  induction h generalizing offset with
  | nil =>
    rw [List.nil_append, scanFrom_string_cons (by simp), if_pos rfl]
    rfl
  | @char c cs hq hb _ _ ih =>
    rw [List.cons_append, scanFrom_string_cons, if_neg hq, ih, List.length_cons]
    · congr 1; omega
    · intro d y e
      exact hb (List.cons.inj e).1
  | @escape c cs _ _ ih =>
    rw [List.cons_append, List.cons_append, scanFrom, ih, List.length_cons, List.length_cons]
    congr 1; omega

theorem Inside.comment {p : Text} (h : Inside p) (offset : Nat) (rest : Text) :
    commentFrom .string offset (p ++ '"' :: rest) = commentFrom .code (offset + p.length + 1) rest := by
  induction h generalizing offset with
  | nil => rfl
  | @char c cs hq hb _ _ ih =>
    rw [List.cons_append, commentFrom, if_neg (by simp), Place.next, if_neg hb, if_neg hq, ih,
      List.length_cons]
    congr 1; omega
  | @escape c cs _ _ ih =>
    have hstep : commentFrom .string offset ('\\' :: c :: cs ++ '"' :: rest) =
        commentFrom .string (offset + 1 + 1) (cs ++ '"' :: rest) := rfl
    rw [hstep, ih, List.length_cons, List.length_cons]
    congr 1; omega

/-- A string literal is code from quote to quote, and it counts as code. -/
theorem Inside.clean {p : Text} (h : Inside p) : Clean ('"' :: (p ++ ['"'])) (·.add '"') where
  scan offset t rest := by
    rw [List.cons_append, List.append_assoc, scanFrom_code_cons (by simp) (by simp), if_pos rfl,
      List.singleton_append, h.scan, List.length_cons, List.length_append, List.length_singleton]
    congr 1; omega
  comment offset rest := by
    have hstep : commentFrom .code offset ('"' :: (p ++ ['"']) ++ rest) =
        commentFrom .string (offset + 1) (p ++ '"' :: rest) := by
      rw [List.cons_append, List.append_assoc]
      rfl
    rw [hstep, h.comment, List.length_cons, List.length_append, List.length_singleton]
    congr 1; omega

theorem inside_hexDigits (width n : Nat) : Inside (hexDigits width n) := by
  have hall := all_isHexDigit_hexDigits width n
  generalize hexDigits width n = ds at hall
  induction ds with
  | nil => exact .nil
  | cons d ds ih =>
    rw [List.all_cons, Bool.and_eq_true] at hall
    have hne : ∀ x : Char, isHexDigit x = false → d ≠ x := by
      rintro x hx rfl
      rw [hx] at hall
      exact absurd hall.1 (by decide)
    exact .char (hne _ (by decide)) (hne _ (by decide)) (hne _ (by decide)) (ih hall.2)

theorem inside_escapedChar (c : Char) : Inside (Json.escapedChar c) := by
  unfold Json.escapedChar
  split
  · exact .escape (by decide) .nil
  · exact .escape (by decide) .nil
  · exact .escape (by decide) .nil
  · exact .escape (by decide) .nil
  · exact .escape (by decide) .nil
  · next hquote hslash hbreak _ _ =>
    split_ifs
    · exact .escape (by decide) .nil
    · exact .escape (by decide) .nil
    · exact .escape (by decide) (inside_hexDigits 4 _)
    · exact .char hquote hslash hbreak .nil

theorem inside_inside (s : WideText) : Inside (Json.inside s) := by
  induction s with
  | nil => exact .nil
  | cons g s ih =>
    rw [Json.inside_cons]
    refine Inside.append ?_ ih
    cases g with
    | char c =>
      rw [Json.escapedGlyph, WideText.spelled_ofText]
      exact inside_escapedChar c
    | half code =>
      rw [Json.escapedGlyph, WideText.spelled_cons, WideText.spelled_nil, List.append_nil]
      exact .escape (by decide) (inside_hexDigits 4 code)

theorem clean_string (s : WideText) : Clean (WideText.spelled (Json.string s)) (·.add '"') := by
  rw [Json.spelled_string]
  exact (inside_inside s).clean

theorem newline_not_mem_string (s : WideText) : '\n' ∉ WideText.spelled (Json.string s) := by
  rw [Json.spelled_string]
  simp [(inside_inside s).newline_not_mem]

/-! ## Words -/

/-- A character of a number or of a word that stands for a value. -/
def isWordChar (c : Char) : Bool :=
  isAsciiDigit c || isAsciiLetter c || c = '-' || c = '+' || c = '.'

theorem isWordChar_bounds {c : Char} (h : isWordChar c = true) :
    43 ≤ c.toNat ∧ c.toNat ≤ 122 := by
  simp only [isWordChar, isAsciiDigit, isAsciiLetter, Bool.or_eq_true, Bool.and_eq_true,
    decide_eq_true_eq] at h
  have hbound : ∀ {a b : Char}, a ≤ c ∧ c ≤ b → a.toNat ≤ c.toNat ∧ c.toNat ≤ b.toNat :=
    fun h => ⟨h.1, h.2⟩
  rcases h with (((h | h | h) | rfl) | rfl) | rfl
  · exact ⟨(show 43 ≤ '0'.toNat by decide).trans (hbound h).1,
      (hbound h).2.trans (show '9'.toNat ≤ 122 by decide)⟩
  · exact ⟨(show 43 ≤ 'a'.toNat by decide).trans (hbound h).1,
      (hbound h).2.trans (show 'z'.toNat ≤ 122 by decide)⟩
  · exact ⟨(show 43 ≤ 'A'.toNat by decide).trans (hbound h).1,
      (hbound h).2.trans (show 'Z'.toNat ≤ 122 by decide)⟩
  all_goals decide

theorem isBlank_of_isWordChar {c : Char} (h : isWordChar c = true) : isBlank c = false := by
  obtain ⟨hlow, hhigh⟩ := isWordChar_bounds h
  rw [Bool.eq_false_iff]
  intro hblank
  simp only [isBlank, Bool.or_eq_true, Bool.and_eq_true, decide_eq_true_eq, beq_iff_eq] at hblank
  omega

theorem ne_of_isWordChar {c x : Char} (h : isWordChar c = true) (hx : isWordChar x = false) :
    c ≠ x := by
  rintro rfl
  rw [hx] at h
  cases h

theorem Tally.add_word {c : Char} (h : isWordChar c = true) (t : Tally) : t.add c = t.seen := by
  have hopener : isOpener c = false := by
    simp [isOpener, ne_of_isWordChar h (show isWordChar '\x7b' = false by decide),
      ne_of_isWordChar h (show isWordChar '[' = false by decide)]
  have hcloser : isCloser c = false := by
    simp [isCloser, ne_of_isWordChar h (show isWordChar '\x7d' = false by decide),
      ne_of_isWordChar h (show isWordChar ']' = false by decide)]
  rw [Tally.add, hopener, hcloser, isBlank_of_isWordChar h,
    decide_eq_false (ne_of_isWordChar h (show isWordChar ',' = false by decide))]
  rfl

theorem clean_word {w : Text} (hw : w.all isWordChar = true) (hne : w ≠ []) :
    Clean w Tally.seen := by
  have hfold : ∀ w : Text, w.all isWordChar = true → w ≠ [] → ∀ t : Tally,
      w.foldl Tally.add t = t.seen := by
    intro w
    induction w with
    | nil => exact fun _ h => absurd rfl h
    | cons c cs ih =>
      intro hw _ t
      rw [List.all_cons, Bool.and_eq_true] at hw
      rw [List.foldl_cons, Tally.add_word hw.1]
      cases cs with
      | nil => rfl
      | cons d ds => exact ih hw.2 (List.cons_ne_nil _ _) _
  have hplain : w.all isPlain = true := List.all_eq_true.2 fun c hc => by
    have hc := List.all_eq_true.1 hw c hc
    simp [isPlain, ne_of_isWordChar hc (show isWordChar '"' = false by decide),
      ne_of_isWordChar hc (show isWordChar '/' = false by decide)]
  have hclean := Clean.plain hplain
  rwa [show (fun t => w.foldl Tally.add t) = Tally.seen from funext (hfold w hw hne)] at hclean

/-! ## Rows -/

/-- A line of code as both reindenters see it: whether it starts with a closer, and whether it opens
a block that goes on below. -/
structure Row (l : Text) (closes opens : Bool) : Prop where
  head : ∃ c cs, l = c :: cs ∧ isBlank c = false ∧ c ≠ '/' ∧ c ≠ '*' ∧ isCloser c = closes
  last : ∀ c ∈ l.getLast?, isBlank c = false
  ends : endsWithAny ['\x7b', '['] l = opens
  scan : ∃ opened closed, scanLine l false = ⟨closes.toNat, opened, closed, none, false⟩ ∧
    opened + closes.toNat = closed + opens.toNat
  uncommented : commentFrom .code 0 l = none
  oneLine : '\n' ∉ l

theorem Row.trim {l : Text} {closes opens : Bool} (h : Row l closes opens) : trim l = l := by
  obtain ⟨c, cs, rfl, hc, -⟩ := h.head
  exact trim_eq_self hc h.last

theorem Row.isCommentLine {l : Text} {closes opens : Bool} (h : Row l closes opens) :
    isCommentLine l = false := by
  obtain ⟨c, cs, rfl, -, hslash, hstar, -⟩ := h.head
  simp [Jsonc.isCommentLine, lineComment, blockComment, Text.startsWith, dropStart?,
    Ne.symm hslash, Ne.symm hstar]

theorem Row.ne_nil {l : Text} {closes opens : Bool} (h : Row l closes opens) : l ≠ [] := by
  obtain ⟨c, cs, rfl, -⟩ := h.head
  exact List.cons_ne_nil _ _

/-- How a row is indented by its characters at both ends. -/
theorem Row.reindentLine {l : Text} {closes opens : Bool} (h : Row l closes opens)
    (depth own : Nat) :
    reindentLine depth (indent own ++ l) =
      let depth := if closes then depth - 1 else depth
      (if opensBlock l then depth + 1 else depth, indent depth ++ l) := by
  obtain ⟨c, cs, hl, -, -, -, hcloser⟩ := h.head
  have hsplit : splitComment l = (l, none) := by rw [splitComment, h.uncommented]
  rw [reindentLine_of_code depth (trim_indent h.trim own) (by rw [hl]; rfl) h.isCommentLine, hsplit,
    hcloser]
  rfl

/-- How a row is indented by its delimiters. -/
theorem Row.nestLine {l : Text} {closes opens : Bool} (h : Row l closes opens) (depth own : Nat)
    (hdepth : closes.toNat ≤ depth) :
    nestLine ⟨depth, false⟩ (indent own ++ l) =
      (⟨depth - closes.toNat + opens.toNat, false⟩, indent (depth - closes.toNat) ++ l) := by
  obtain ⟨c, cs, hl, -⟩ := h.head
  obtain ⟨opened, closed, hscan, hcount⟩ := h.scan
  have htrim := trim_indent h.trim own
  unfold Jsonc.nestLine
  rw [htrim, hl]
  simp only
  rw [← hl, hscan]
  simp only [spacedAt, Prod.mk.injEq, Nesting.mk.injEq, and_true]
  omega

/-- The value of a row that is no block. -/
structure Body (b : Text) : Prop where
  head : ∃ c cs, b = c :: cs ∧ isBlank c = false ∧ c ≠ '/' ∧ c ≠ '*' ∧ isCloser c = false
  last : ∃ c, b.getLast? = some c ∧ isBlank c = false ∧ isOpener c = false
  clean : ∃ count, Clean b count ∧
    ∀ t, t = Tally.none ∨ t = Tally.none.seen → ∃ n, count t = ⟨0, n, n, true⟩
  oneLine : '\n' ∉ b

theorem body_word {w : Text} (hw : w.all isWordChar = true) (hne : w ≠ []) : Body w := by
  have hnot : ∀ {c}, c ∈ w → ∀ x : Char, isWordChar x = false → c ≠ x :=
    fun hc x hx => ne_of_isWordChar (List.all_eq_true.1 hw _ hc) hx
  refine ⟨?_, ?_, ⟨_, clean_word hw hne, ?_⟩, ?_⟩
  · obtain ⟨c, cs, rfl⟩ := List.exists_cons_of_ne_nil hne
    have hc : c ∈ c :: cs := List.mem_cons_self ..
    refine ⟨c, cs, rfl, isBlank_of_isWordChar (List.all_eq_true.1 hw c hc), hnot hc _ (by decide),
      hnot hc _ (by decide), ?_⟩
    simp [isCloser, hnot hc '\x7d' (by decide), hnot hc ']' (by decide)]
  · have hc := List.getLast_mem hne
    refine ⟨w.getLast hne, List.getLast?_eq_some_getLast hne,
      isBlank_of_isWordChar (List.all_eq_true.1 hw _ hc), ?_⟩
    simp [isOpener, hnot hc '\x7b' (by decide), hnot hc '[' (by decide)]
  · rintro t (rfl | rfl) <;> exact ⟨0, rfl⟩
  · exact fun h => hnot h '\n' (by decide) rfl

theorem body_string (s : WideText) : Body (WideText.spelled (Json.string s)) := by
  refine ⟨⟨'"', _, Json.spelled_string s, by decide⟩, ⟨'"', ?_, by decide⟩,
    ⟨_, clean_string s, ?_⟩, newline_not_mem_string s⟩
  · rw [Json.spelled_string, ← List.cons_append, List.getLast?_append_of_ne_nil _ (by simp)]
    rfl
  · rintro t (rfl | rfl) <;> exact ⟨0, rfl⟩

theorem body_pair {opening closing : Char}
    (h : (opening = '[' ∧ closing = ']') ∨ (opening = '\x7b' ∧ closing = '\x7d')) :
    Body [opening, closing] := by
  obtain ⟨rfl, rfl⟩ | ⟨rfl, rfl⟩ := h
  all_goals
    refine ⟨⟨_, _, rfl, by decide⟩, ⟨_, rfl, by decide⟩, ⟨_, .plain (by decide), ?_⟩, by decide⟩
    rintro t (rfl | rfl) <;> exact ⟨1, rfl⟩

/-- What stands in front of a value: its key, if it has one. -/
def prefixOf : Option WideText → Text
  | none => []
  | some k => WideText.spelled (Json.string k) ++ [':', ' ']

theorem clean_prefixOf (key : Option WideText) :
    ∃ count, Clean (prefixOf key) count ∧
      (count Tally.none = Tally.none ∨ count Tally.none = Tally.none.seen) := by
  cases key with
  | none => exact ⟨_, .nil, .inl rfl⟩
  | some k => exact ⟨_, (clean_string k).append (.plain (p := [':', ' ']) (by decide)), .inr rfl⟩

theorem newline_not_mem_prefixOf (key : Option WideText) : '\n' ∉ prefixOf key := by
  cases key with
  | none => simp [prefixOf]
  | some k => simp [prefixOf, newline_not_mem_string k]

theorem head_prefixOf (key : Option WideText) {b : Text}
    (hb : ∃ c cs, b = c :: cs ∧ isBlank c = false ∧ c ≠ '/' ∧ c ≠ '*' ∧ isCloser c = false) :
    ∃ c cs, prefixOf key ++ b = c :: cs ∧ isBlank c = false ∧ c ≠ '/' ∧ c ≠ '*' ∧
      isCloser c = false := by
  cases key with
  | none => exact hb
  | some k => exact ⟨'"', _, by rw [prefixOf, Json.spelled_string]; rfl, by decide⟩

/-- What stands behind a value: a comma, unless it is the last. -/
def commaIf (more : Bool) : Text := if more then [','] else []

theorem scanLine_of_clean {l : Text} {count : Tally → Tally} (h : Clean l count) :
    scanLine l false = (count Tally.none).finish none false := by
  have := h.scan 0 Tally.none []
  rw [List.append_nil] at this
  exact this

theorem uncommented_of_clean {l : Text} {count : Tally → Tally} (h : Clean l count) :
    commentFrom .code 0 l = none := by
  have := h.comment 0 []
  rw [List.append_nil] at this
  exact this

theorem clean_commaIf (more : Bool) : Clean (commaIf more) id := by
  cases more with
  | false => exact .nil
  | true => exact .char (c := ',') (by decide)

theorem row_body (key : Option WideText) {b : Text} (h : Body b) (more : Bool) :
    Row (prefixOf key ++ (b ++ commaIf more)) false false := by
  obtain ⟨before, hbefore, hnone⟩ := clean_prefixOf key
  obtain ⟨count, hcount, hcounts⟩ := h.clean
  obtain ⟨n, hn⟩ := hcounts _ hnone
  have hclean := hbefore.append (hcount.append (clean_commaIf more))
  obtain ⟨c, cs, hb, hc⟩ := h.head
  obtain ⟨d, hd, hblank, hopener⟩ := h.last
  have hlast : ∃ d, (prefixOf key ++ (b ++ commaIf more)).getLast? = some d ∧ isBlank d = false ∧
      isOpener d = false := by
    have hne : b ≠ [] := by rw [hb]; exact List.cons_ne_nil _ _
    rw [List.getLast?_append_of_ne_nil _ (by simp [hne])]
    cases more with
    | false => exact ⟨d, by rw [commaIf]; simpa using hd, hblank, hopener⟩
    | true => exact ⟨',', by rw [commaIf]; simp, by decide⟩
  obtain ⟨d, hd, hblank, hopener⟩ := hlast
  refine ⟨head_prefixOf key ⟨c, cs ++ commaIf more, by rw [hb]; rfl, hc⟩, ?_, ?_, ⟨n, n, ?_, rfl⟩,
    uncommented_of_clean hclean, ?_⟩
  · intro x hx
    rw [hd] at hx
    cases hx
    exact hblank
  · simpa [endsWithAny, hd, isOpener] using hopener
  · rw [scanLine_of_clean hclean]
    simp [hn, Tally.finish]
  · have hcomma : '\n' ∉ commaIf more := by cases more <;> decide
    simp [newline_not_mem_prefixOf key, h.oneLine, hcomma]

theorem row_opening (key : Option WideText) {opening : Char} (ho : opening = '[' ∨ opening = '\x7b') :
    Row (prefixOf key ++ [opening]) false true := by
  obtain ⟨before, hbefore, hnone⟩ := clean_prefixOf key
  have hclean := hbefore.append (.plain (p := [opening]) (by rcases ho with rfl | rfl <;> decide))
  have hlast : (prefixOf key ++ [opening]).getLast? = some opening := by simp
  refine ⟨head_prefixOf key ⟨opening, [], rfl, ?_⟩, ?_, ?_, ⟨1, 0, ?_, rfl⟩,
    uncommented_of_clean hclean, ?_⟩
  · rcases ho with rfl | rfl <;> decide
  · intro x hx
    rw [hlast] at hx
    cases hx
    rcases ho with rfl | rfl <;> decide
  · rw [endsWithAny, hlast]
    rcases ho with rfl | rfl <;> decide
  · rw [scanLine_of_clean hclean]
    rcases hnone with hnone | hnone <;> rcases ho with rfl | rfl <;>
      simp only [Function.comp, hnone] <;> rfl
  · rcases ho with rfl | rfl <;> simp [newline_not_mem_prefixOf key]

theorem row_closing {closing : Char} (hc : closing = ']' ∨ closing = '\x7d') (more : Bool) :
    Row (closing :: commaIf more) true false := by
  have hlast : ∀ c ∈ (closing :: commaIf more).getLast?, isBlank c = false := by
    rcases hc with rfl | rfl <;> cases more <;>
      · rintro _ ⟨⟩
        decide
  rcases hc with rfl | rfl <;> cases more <;>
    exact ⟨⟨_, _, rfl, by decide⟩, hlast, by decide, ⟨0, 1, by decide, rfl⟩, by decide, by decide⟩

/-! ## Layouts -/

/-- Rows with the depth that they stand at, as canonical text has them. -/
inductive Laid : Nat → List (Nat × Text) → Prop where
  | line {depth : Nat} {l : Text} (h : Row l false false) : Laid depth [(depth, l)]
  | block {depth : Nat} {l l' : Text} {rows : List (Nat × Text)} (h : Row l false true)
    (hrows : Laid (depth + 1) rows) (h' : Row l' true false) :
    Laid depth ((depth, l) :: (rows ++ [(depth, l')]))
  | append {depth : Nat} {rows rows' : List (Nat × Text)} (h : Laid depth rows)
    (h' : Laid depth rows') : Laid depth (rows ++ rows')

/-- A row as it is printed. -/
def shown (r : Nat × Text) : Text := indent r.1 ++ r.2

theorem Laid.exists_head {depth : Nat} {rows : List (Nat × Text)} (h : Laid depth rows) :
    ∃ l opens rest, rows = (depth, l) :: rest ∧ Row l false opens := by
  induction h with
  | line h => exact ⟨_, _, _, rfl, h⟩
  | block h => exact ⟨_, _, _, rfl, h⟩
  | append _ _ ih =>
    obtain ⟨l, opens, rest, rfl, h⟩ := ih
    exact ⟨l, opens, _, rfl, h⟩

theorem Laid.exists_row {depth : Nat} {rows : List (Nat × Text)} (h : Laid depth rows) :
    ∀ r ∈ rows, ∃ closes opens, Row r.2 closes opens := by
  induction h with
  | line h =>
    intro r hr
    rw [List.mem_singleton] at hr
    subst hr
    exact ⟨_, _, h⟩
  | block h _ h' ih =>
    intro r hr
    rcases List.mem_cons.1 hr with rfl | hr
    · exact ⟨_, _, h⟩
    · rcases List.mem_append.1 hr with hr | hr
      · exact ih r hr
      · rw [List.mem_singleton] at hr
        subst hr
        exact ⟨_, _, h'⟩
  | append _ _ ih ih' =>
    intro r hr
    rcases List.mem_append.1 hr with hr | hr
    · exact ih r hr
    · exact ih' r hr

/-- Counting delimiters gives every row its own depth back. -/
theorem Laid.nested {depth : Nat} {rows : List (Nat × Text)} (h : Laid depth rows) :
    threaded nestLine ⟨depth, false⟩ (rows.map shown) = rows.map shown ∧
      threadedState nestLine ⟨depth, false⟩ (rows.map shown) = ⟨depth, false⟩ := by
  induction h with
  | @line depth l h =>
    have hstep := h.nestLine depth depth (Nat.zero_le _)
    simp only [List.map_cons, List.map_nil, shown, threaded_cons, threaded_nil, threadedState, hstep]
    exact ⟨rfl, rfl⟩
  | @block depth l l' rows h _ h' ih =>
    have hstep := h.nestLine depth depth (Nat.zero_le _)
    have hstep' := h'.nestLine (depth + 1) depth (Nat.succ_pos _)
    simp only [List.map_cons, List.map_append, List.map_nil, shown, threaded_cons, threadedState,
      hstep] at ih ⊢
    simp only [Bool.toNat_false, Bool.toNat_true, Nat.sub_zero, Nat.add_zero,
      Nat.add_sub_cancel] at hstep' ⊢
    rw [threaded_append, threadedState_append, ih.1, ih.2]
    simp only [threaded_cons, threaded_nil, threadedState, hstep']
    exact ⟨trivial, trivial⟩
  | append _ _ ih ih' =>
    rw [List.map_append, threaded_append, threadedState_append, ih.1, ih.2]
    exact ⟨by rw [ih'.1], ih'.2⟩

/-- A row that opens a block which `reindent` does not see, for the brackets in the row. -/
def hides (l : Text) : Bool := endsWithAny ['\x7b', '['] l && !opensBlock l

theorem Row.opensBlock_of_ends {l : Text} {closes opens : Bool} (h : Row l closes opens)
    (hides : hides l = false) : opensBlock l = opens := by
  have hends := h.ends
  unfold Jsonc.hides at hides
  rw [hends] at hides
  cases opens with
  | false => rw [opensBlock, hends]; rfl
  | true => simpa using hides

/-- If it sees every block, `reindent` gives every row its own depth back. -/
theorem Laid.reindented {depth : Nat} {rows : List (Nat × Text)} (h : Laid depth rows)
    (hsees : ∀ r ∈ rows, hides r.2 = false) :
    threaded reindentLine depth (rows.map shown) = rows.map shown ∧
      threadedState reindentLine depth (rows.map shown) = depth := by
  induction h with
  | @line depth l h =>
    have hstep := h.reindentLine depth depth
    rw [h.opensBlock_of_ends (hsees (depth, l) (by simp))] at hstep
    simp only [List.map_cons, List.map_nil, shown, threaded_cons, threaded_nil, threadedState, hstep]
    exact ⟨rfl, rfl⟩
  | @block depth l l' rows h _ h' ih =>
    have hstep := h.reindentLine depth depth
    have hstep' := h'.reindentLine (depth + 1) depth
    rw [h.opensBlock_of_ends (hsees (depth, l) (by simp))] at hstep
    rw [h'.opensBlock_of_ends (hsees (depth, l') (by simp))] at hstep'
    have ih := ih fun r hr => hsees r (by simp [hr])
    simp only [List.map_cons, List.map_append, List.map_nil, shown, threaded_cons, threadedState,
      hstep] at ih ⊢
    simp only [if_true, Bool.false_eq_true, if_false, Nat.add_sub_cancel] at hstep' ⊢
    rw [threaded_append, threadedState_append, ih.1, ih.2]
    simp only [threaded_cons, threaded_nil, threadedState, hstep']
    exact ⟨trivial, trivial⟩
  | append _ _ ih ih' =>
    have ih := ih fun r hr => hsees r (List.mem_append_left _ hr)
    have ih' := ih' fun r hr => hsees r (List.mem_append_right _ hr)
    rw [List.map_append, threaded_append, threadedState_append, ih.1, ih.2]
    exact ⟨by rw [ih'.1], ih'.2⟩

theorem indent_append_inj {a b : Nat} {l : Text} (h : indent a ++ l = indent b ++ l) : a = b := by
  have := congrArg List.length h
  simp [indent] at this
  omega

/-- Behind a block that it does not see, `reindent` prints a row too far out. -/
theorem Laid.not_reindented {depth : Nat} {rows : List (Nat × Text)} (h : Laid depth rows)
    {r : Nat × Text} (hr : r ∈ rows) (hides : hides r.2 = true) (s : Nat) :
    threaded reindentLine s (rows.map shown) ≠ rows.map shown := by
  have ends : ∀ {l closes}, Row l closes false → Jsonc.hides l = false := by
    intro l closes h
    rw [Jsonc.hides, h.ends]
    rfl
  induction h generalizing s with
  | line h =>
    rw [List.mem_singleton] at hr
    rw [hr, ends h] at hides
    cases hides
  | @block depth l l' rows h hrows h' ih =>
    intro heq
    have hstep := h.reindentLine s depth
    simp only [List.map_cons, List.map_append, List.map_nil, shown, threaded_cons, hstep,
      List.cons.injEq] at heq
    rcases List.mem_cons.1 hr with rfl | hr
    · obtain rfl : s = depth := indent_append_inj heq.1
      obtain ⟨l₂, opens, rest, rfl, h₂⟩ := hrows.exists_head
      have hmiss : opensBlock l = false := by
        simp only [Jsonc.hides, Bool.and_eq_true, Bool.not_eq_true'] at hides
        exact hides.2
      have htail := heq.2
      rw [hmiss] at htail
      simp only [Bool.false_eq_true, if_false, List.map_cons, shown, List.cons_append,
        threaded_cons, h₂.reindentLine, List.cons.injEq] at htail
      have := indent_append_inj htail.1
      omega
    · rcases List.mem_append.1 hr with hr | hr
      · have htail := heq.2
        rw [threaded_append] at htail
        exact ih hr _ (List.append_inj htail (length_threaded _ _ _)).1
      · rw [List.mem_singleton] at hr
        rw [hr, ends h'] at hides
        cases hides
  | append h h' ih ih' =>
    intro heq
    rw [List.map_append, threaded_append] at heq
    obtain ⟨hleft, hright⟩ := List.append_inj heq (length_threaded _ _ _)
    rcases List.mem_append.1 hr with hr | hr
    · exact ih hr s hleft
    · exact ih' hr _ hright

/-! ## The rows of a value -/

/-- Whether a key, as it is written, holds a pair of brackets. -/
def holdsBrackets (key : WideText) : Bool :=
  holdsPair '[' ']' false (WideText.spelled (Json.string key)) ||
    holdsPair '\x7b' '\x7d' false (WideText.spelled (Json.string key))

theorem hides_opening (key : Option WideText) {opening : Char}
    (ho : opening = '[' ∨ opening = '\x7b') :
    hides (prefixOf key ++ [opening]) = key.any holdsBrackets := by
  rw [hides, opensBlock, (row_opening key ho).ends]
  have hlist : ']' ∉ [opening] := by rcases ho with rfl | rfl <;> decide
  have htable : '\x7d' ∉ [opening] := by rcases ho with rfl | rfl <;> decide
  rw [holdsPair_append_of_not_mem hlist, holdsPair_append_of_not_mem htable]
  cases key with
  | none => rfl
  | some k =>
    rw [prefixOf, holdsPair_append_of_not_mem (by decide), holdsPair_append_of_not_mem (by decide),
      Option.any_some, holdsBrackets]
    cases holdsPair '[' ']' false (WideText.spelled (Json.string k)) <;>
      cases holdsPair '\x7b' '\x7d' false (WideText.spelled (Json.string k)) <;> rfl

end Jsonc

namespace Data

/-- A list or a table with something in it. -/
def isBlock : Data → Bool
  | .list (_ :: _) => true
  | .table (_ :: _) => true
  | _ => false

mutual

/-- Whether a block in a value stands behind a key that holds a pair of brackets. -/
def hidesBlock : Data → Bool
  | .null => false
  | .bool _ => false
  | .int _ => false
  | .float _ => false
  | .text _ => false
  | .moment _ => false
  | .list vs => hidesBlockInItems vs
  | .table es => hidesBlockInMembers es

def hidesBlockInItems : List Data → Bool
  | [] => false
  | v :: vs => hidesBlock v || hidesBlockInItems vs

def hidesBlockInMembers : List (WideText × Data) → Bool
  | [] => false
  | (k, v) :: es =>
    ((isBlock v && Jsonc.holdsBrackets k) || hidesBlock v) || hidesBlockInMembers es

end

theorem hidesBlockInItems_eq (vs : List Data) : hidesBlockInItems vs = vs.any hidesBlock := by
  induction vs with
  | nil => rfl
  | cons v vs ih => rw [hidesBlockInItems, ih, List.any_cons]

theorem hidesBlockInMembers_eq (es : List (WideText × Data)) :
    hidesBlockInMembers es =
      es.any fun e => (isBlock e.2 && Jsonc.holdsBrackets e.1) || hidesBlock e.2 := by
  induction es with
  | nil => rfl
  | cons e es ih => rw [hidesBlockInMembers, ih, List.any_cons]

/-- A value whose lines are known: no moment is in it, and of floats only canonical ones. What its
keys are does not matter. -/
inductive Printable : Data → Prop where
  | null : Printable .null
  | bool (b : Bool) : Printable (.bool b)
  | int (n : Int) : Printable (.int n)
  | float {x : Binary64} (h : x.IsCanonical) : Printable (.float x)
  | text (s : WideText) : Printable (.text s)
  | list {vs : List Data} (h : ∀ v ∈ vs, Printable v) : Printable (.list vs)
  | table {es : Entries} (h : ∀ e ∈ es, Printable e.2) : Printable (.table es)

theorem Readable.printable {levels : Nat} {v : Data} (hv : Readable levels v) : Printable v := by
  induction hv with
  | null => exact .null
  | bool b => exact .bool b
  | int => exact .int _
  | float h => exact .float h
  | text => exact .text _
  | list _ ih => exact .list ih
  | table _ _ _ ih => exact .table ih

end Data

namespace Jsonc

open Text
open Json (source memberSource source_list source_table Numeral)

theorem all_isWordChar_text {n : Numeral} (h : n.WellFormed) : n.text.all isWordChar = true := by
  have digits : ∀ {s : Text}, s.all isAsciiDigit = true → s.all isWordChar = true := by
    intro s hs
    refine List.all_eq_true.2 fun c hc => ?_
    rw [isWordChar, List.all_eq_true.1 hs c hc]
    rfl
  have hexponent : (Numeral.exponentText n.exponent).all isWordChar = true := by
    rcases hx : n.exponent with _ | ⟨e, sign, ds⟩
    · rfl
    · obtain ⟨he, hsign, -, hds⟩ := h.exponent e sign ds hx
      have he : isWordChar e = true := by rcases he with rfl | rfl <;> decide
      have hsign : sign.toList.all isWordChar = true := by
        cases sign with
        | none => rfl
        | some c => rcases hsign c rfl with rfl | rfl <;> decide
      rw [Numeral.exponentText, List.all_cons, List.all_append, he, hsign, digits hds]
      rfl
  have hfraction : (Numeral.fractionText n.fraction).all isWordChar = true := by
    unfold Numeral.fractionText
    split
    · rfl
    · rw [List.all_cons, digits h.fraction]
      rfl
  rw [Numeral.text, List.all_append, List.all_append, List.all_append, digits h.whole, hfraction,
    hexponent]
  cases n.negative <;> rfl

theorem body_numeral {n : Numeral} (h : n.WellFormed) : Body n.text := by
  refine body_word (all_isWordChar_text h) ?_
  obtain ⟨c, cs, -, htext⟩ := n.exists_digit h
  simp [htext]

theorem body_source {v : Data} (hv : v.Printable) (hblock : v.isBlock = false) (l : Json.Layout)
    (depth : Nat) : Body (source l depth v) := by
  cases hv with
  | null => exact body_word (w := Text.lit "null") (by decide) (by decide)
  | bool b =>
    cases b
    · exact body_word (w := Text.lit "false") (by decide) (by decide)
    · exact body_word (w := Text.lit "true") (by decide) (by decide)
  | int =>
    rw [source, Json.render, WideText.spelled_ofText, ← Numeral.text_ofInt]
    exact body_numeral (Numeral.wellFormed_ofInt _)
  | @float x h =>
    rw [source, Json.render, WideText.spelled_ofText]
    cases x with
    | notANumber => exact body_word (w := Text.lit "NaN") (by decide) (by decide)
    | infinite negative =>
      cases negative
      · exact body_word (w := Text.lit "Infinity") (by decide) (by decide)
      · exact body_word (w := '-' :: Text.lit "Infinity") (by decide) (by decide)
    | finite negative m e =>
      obtain ⟨n, hn, htext, -⟩ := Numeral.exists_numeral negative h
      rw [← htext]
      exact body_numeral hn
  | text => rw [source, Json.render]; exact body_string _
  | @list vs =>
    cases vs with
    | nil => exact body_pair (.inl ⟨rfl, rfl⟩)
    | cons v vs => cases hblock
  | @table es =>
    cases es with
    | nil => exact body_pair (.inr ⟨rfl, rfl⟩)
    | cons e es => cases hblock

/-- Rows that print a text, and whether one of them hides a block. -/
structure LaidAs (depth : Nat) (s : Text) (hidden : Bool) (rows : List (Nat × Text)) : Prop where
  laid : Laid depth rows
  text : terminated (rows.map shown) = indent depth ++ (s ++ ['\n'])
  hidden : rows.any (fun r => hides r.2) = hidden

theorem laidAs_line {l : Text} (h : Row l false false) (depth : Nat) :
    LaidAs depth l false [(depth, l)] where
  laid := .line h
  text := by simp [shown]
  hidden := by simp [hides, h.ends]

/-- Pieces with commas between them, each on rows of its own. -/
theorem exists_laidAs_intercalate {α : Type} {depth : Nat} (text : α → Text) (hidden : α → Bool)
    {xs : List α} (hne : xs ≠ [])
    (h : ∀ x ∈ xs, ∀ more, ∃ rows, LaidAs depth (text x ++ commaIf more) (hidden x) rows) :
    ∃ rows, LaidAs depth (List.intercalate (Json.Layout.separator .indented depth) (xs.map text))
      (xs.any hidden) rows := by
  induction xs with
  | nil => exact absurd rfl hne
  | cons x xs ih =>
    cases xs with
    | nil =>
      obtain ⟨rows, hrows⟩ := h x (by simp) false
      rw [commaIf, if_neg (by decide), List.append_nil] at hrows
      refine ⟨rows, ?_⟩
      rw [List.map_singleton, List.intercalate_singleton, List.any_cons, List.any_nil, Bool.or_false]
      exact hrows
    | cons x' xs =>
      obtain ⟨rows, hrows⟩ := h x (by simp) true
      obtain ⟨rows', hrows'⟩ := ih (by simp) fun y hy => h y (List.mem_cons_of_mem _ hy)
      refine ⟨rows ++ rows', hrows.laid.append hrows'.laid, ?_, ?_⟩
      · have hmap : (x :: x' :: xs).map text = text x :: text x' :: xs.map text := rfl
        rw [List.map_append, terminated_append, hrows.text, hrows'.text, hmap,
          List.intercalate_cons_cons, List.map_cons]
        simp [commaIf, Json.Layout.separator, Json.Layout.lineBreak, indent]
      · rw [List.any_append, hrows.hidden, hrows'.hidden, List.any_cons (a := x)]

/-- A block between its two delimiters. -/
theorem laidAs_block {depth : Nat} {s : Text} {hidden : Bool} {rows : List (Nat × Text)}
    (h : LaidAs (depth + 1) s hidden rows) (key : Option WideText) (more : Bool)
    {opening closing : Char}
    (hpair : (opening = '[' ∧ closing = ']') ∨ (opening = '\x7b' ∧ closing = '\x7d')) :
    LaidAs depth (prefixOf key ++ (opening :: (Json.Layout.lineBreak .indented (depth + 1) ++
        (s ++ (Json.Layout.lineBreak .indented depth ++ [closing]))) ++ commaIf more))
      (key.any holdsBrackets || hidden)
      ((depth, prefixOf key ++ [opening]) :: (rows ++ [(depth, closing :: commaIf more)])) := by
  have ho : opening = '[' ∨ opening = '\x7b' := hpair.imp (·.1) (·.1)
  have hclosing := row_closing (hpair.imp (·.2) (·.2)) more
  refine ⟨.block (row_opening key ho) h.laid hclosing, ?_, ?_⟩
  · rw [List.map_cons, List.map_append, terminated_cons, terminated_append, h.text]
    simp [shown, Json.Layout.lineBreak, indent]
  · rw [List.any_cons, List.any_append, h.hidden, hides_opening key ho, List.any_cons, List.any_nil,
      hides, hclosing.ends]
    simp

/-- The rows of a value behind its key. -/
theorem exists_laidAs_source {v : Data} (hv : v.Printable) (depth : Nat) (key : Option WideText)
    (more : Bool) :
    ∃ rows, LaidAs depth (prefixOf key ++ (source .indented depth v ++ commaIf more))
      ((v.isBlock && key.any holdsBrackets) || v.hidesBlock) rows := by
  have one : ∀ {v : Data}, v.Printable → v.isBlock = false → ∀ depth key more,
      ∃ rows, LaidAs depth (prefixOf key ++ (source .indented depth v ++ commaIf more)) false rows :=
    fun hv hblock depth key more =>
      ⟨_, laidAs_line (row_body key (body_source hv hblock _ _) more) depth⟩
  induction hv generalizing depth key more with
  | null => exact one .null rfl depth key more
  | bool b => exact one (.bool b) rfl depth key more
  | int n => exact one (.int n) rfl depth key more
  | float h => exact one (.float h) rfl depth key more
  | text s => exact one (.text s) rfl depth key more
  | @list vs h ih =>
    cases vs with
    | nil => exact one (.list (by simp)) rfl depth key more
    | cons v vs =>
      obtain ⟨rows, hrows⟩ := exists_laidAs_intercalate (source .indented (depth + 1))
        Data.hidesBlock (List.cons_ne_nil v vs) fun x hx more => by simpa [prefixOf] using ih x hx (depth + 1) none more
      rw [source_list, Data.hidesBlock, Data.hidesBlockInItems_eq, Data.isBlock, Bool.true_and]
      exact ⟨_, laidAs_block hrows key more (.inl ⟨rfl, rfl⟩)⟩
  | @table es h ih =>
    cases es with
    | nil => exact one (.table (by simp)) rfl depth key more
    | cons e es =>
      obtain ⟨rows, hrows⟩ := exists_laidAs_intercalate (memberSource .indented (depth + 1))
        (fun e => (e.2.isBlock && holdsBrackets e.1) || e.2.hidesBlock) (List.cons_ne_nil e es)
        fun x hx more => by
          simpa [prefixOf, memberSource] using ih x hx (depth + 1) (some x.1) more
      rw [source_table, Data.hidesBlock, Data.hidesBlockInMembers_eq, Data.isBlock, Bool.true_and]
      exact ⟨_, laidAs_block hrows key more (.inr ⟨rfl, rfl⟩)⟩

end Jsonc

end ConfigCare
