import ConfigCare.Jsonc.Reindent
import ConfigCare.Proofs.Margins

/-! The tokens of a JSON text with comments, read character by character over the whole text. A
quote opens a string literal, which runs to the next quote that no backslash escapes. Outside of
literals `//` opens a comment to the end of the line and `/*` one to the next `*/`. What is never
closed runs to the end of the text. -/

namespace ConfigCare.Jsonc

inductive Token where
  | string (s : Text)
  | mark (c : Char)
  | word (s : Text)
  | comment (s : Text)
deriving DecidableEq

/-- What is being read, with its characters so far. The slash of `slash` stands behind its word and
may open a comment; the star of `star` is the last character of its comment and may end it. -/
inductive Lexer where
  | code (word : Text)
  | slash (word : Text)
  | string (s : Text)
  | escape (s : Text)
  | line (s : Text)
  | block (s : Text)
  | star (s : Text)
deriving DecidableEq

/-- Delimiters, commas and colons. -/
def isMark (c : Char) : Bool := isOpener c || isCloser c || c = ',' || c = ':'

def wordToken : Text → List Token
  | [] => []
  | c :: cs => [.word (c :: cs)]

namespace Lexer

/-- Reads a character behind a word, or behind white space if the word is empty. -/
def stepCode (w : Text) (c : Char) : List Token × Lexer :=
  if c = '"' then (wordToken w, .string [c])
  else if isMark c then (wordToken w ++ [.mark c], .code [])
  else if Text.isBlank c then (wordToken w, .code [])
  else if c = '/' then ([], .slash w)
  else ([], .code (w ++ [c]))

/-- The tokens that a character completes, and what is being read after it. -/
def step : Lexer → Char → List Token × Lexer
  | .code w, c => stepCode w c
  | .slash w, c =>
    if c = '/' then (wordToken w, .line ['/', '/'])
    else if c = '*' then (wordToken w, .block ['/', '*'])
    else stepCode (w ++ ['/']) c
  | .string s, c =>
    if c = '"' then ([.string (s ++ [c])], .code [])
    else ([], if c = '\\' then .escape (s ++ [c]) else .string (s ++ [c]))
  | .escape s, c => ([], .string (s ++ [c]))
  | .line s, c => if c = '\n' then ([.comment s], .code []) else ([], .line (s ++ [c]))
  | .block s, c => ([], if c = '*' then .star (s ++ [c]) else .block (s ++ [c]))
  | .star s, c =>
    if c = '/' then ([.comment (s ++ [c])], .code [])
    else ([], if c = '*' then .star (s ++ [c]) else .block (s ++ [c]))

def read : Lexer → Text → List Token × Lexer
  | m, [] => ([], m)
  | m, c :: cs => ((m.step c).1 ++ (read (m.step c).2 cs).1, (read (m.step c).2 cs).2)

/-- The token that the end of the text completes. -/
def finish : Lexer → List Token
  | .code w => wordToken w
  | .slash w => wordToken (w ++ ['/'])
  | .string s | .escape s => [.string s]
  | .line s | .block s | .star s => [.comment s]

/-- The tokens of a text that goes on where the lexer stands. -/
def tokens (m : Lexer) (s : Text) : List Token := (m.read s).1 ++ (m.read s).2.finish

def inString : Lexer → Bool
  | .string _ | .escape _ => true
  | _ => false

def inBlock : Lexer → Bool
  | .block _ | .star _ => true
  | _ => false

def afterStar : Lexer → Bool
  | .star _ => true
  | _ => false

/-- Whether from here on no line ends in a string literal, and the text does not end in one or in a
block comment. -/
def closes : Lexer → Text → Bool
  | m, [] => !m.inString && !m.inBlock
  | m, c :: cs => !(m.inString && c = '\n') && closes (m.step c).2 cs

end Lexer

def tokens (s : Text) : List Token := (Lexer.code []).tokens s

def Token.literal? : Token → Option Text
  | .string s => some s
  | _ => none

def Token.isComment : Token → Bool
  | .comment _ => true
  | _ => false

/-- The string literals of a text, with their quotes. -/
def literals (s : Text) : List Text := (tokens s).filterMap Token.literal?

def hasComment (s : Text) : Bool := (tokens s).any Token.isComment

/-- Every string literal ends on the line on which it starts, and every block comment ends. -/
def Closed (s : Text) : Prop := (Lexer.code []).closes s

instance (s : Text) : Decidable (Closed s) := inferInstanceAs (Decidable (_ = true))

example : tokens (Text.lit "[1/2, \"//\\\"\" /**/] // x") =
    [.mark '[', .word ['1', '/', '2'], .mark ',', .string (Text.lit "\"//\\\"\""),
      .comment (Text.lit "/**/"), .mark ']', .comment (Text.lit "// x")] := by decide

namespace Lexer

open Text

/-! ## Reading in pieces -/

@[simp] theorem read_nil (m : Lexer) : m.read [] = ([], m) := rfl

theorem read_cons (m : Lexer) (c : Char) (cs : Text) :
    m.read (c :: cs) = ((m.step c).1 ++ ((m.step c).2.read cs).1, ((m.step c).2.read cs).2) := rfl

theorem read_append (m : Lexer) (a b : Text) :
    m.read (a ++ b) = ((m.read a).1 ++ ((m.read a).2.read b).1, ((m.read a).2.read b).2) := by
  induction a generalizing m with
  | nil => rfl
  | cons c cs ih => simp only [List.cons_append, read_cons, ih, List.append_assoc]

theorem tokens_append (m : Lexer) (a b : Text) :
    m.tokens (a ++ b) = (m.read a).1 ++ (m.read a).2.tokens b := by
  simp only [tokens, read_append, List.append_assoc]

theorem tokens_cons (m : Lexer) (c : Char) (cs : Text) :
    m.tokens (c :: cs) = (m.step c).1 ++ (m.step c).2.tokens cs := by
  rw [tokens, read_cons, tokens, List.append_assoc]

theorem wordToken_no_comment (w : Text) : (wordToken w).any Token.isComment = false := by
  cases w <;> rfl

/-- Only a quote and a slash lead out of code, and no comment ends in it. -/
theorem stepCode_plain (w : Text) {c : Char} (hq : c ≠ '"') (hs : c ≠ '/') :
    ∃ ts w', stepCode w c = (ts, .code w') ∧ ts.any Token.isComment = false := by
  rw [stepCode, if_neg hq, if_neg hs]
  split
  · exact ⟨_, _, rfl, by simp [wordToken_no_comment, Token.isComment]⟩
  · split
    · exact ⟨_, _, rfl, wordToken_no_comment w⟩
    · exact ⟨[], _, rfl, rfl⟩

theorem eq_slash_of_stepCode {w x : Text} {c : Char} (h : (stepCode w c).2 = .slash x) :
    c = '/' := by
  by_contra hs
  by_cases hq : c = '"'
  · rw [hq] at h; cases h
  · obtain ⟨ts, w', hstep, -⟩ := stepCode_plain w hq hs
    rw [hstep] at h
    cases h

/-- Only a slash leads to a place behind a slash. -/
theorem eq_slash_of_step {m : Lexer} {c : Char} {x : Text} (h : (m.step c).2 = .slash x) :
    c = '/' := by
  cases m with
  | code w => exact eq_slash_of_stepCode h
  | slash w =>
    simp only [step] at h
    split at h
    · cases h
    · split at h
      · cases h
      · exact eq_slash_of_stepCode h
  | escape s => cases h
  | _ =>
    simp only [step] at h
    split_ifs at h

theorem eq_star_of_afterStar {m : Lexer} (h : m.afterStar) : ∃ s, m = .star s := by
  cases m with
  | star s => exact ⟨s, rfl⟩
  | _ => cases h

/-- Only a star leads to a place behind a star. -/
theorem eq_star_of_step {m : Lexer} {c : Char} {x : Text} (h : (m.step c).2 = .star x) :
    c = '*' := by
  have code : ∀ w, (stepCode w c).2 ≠ .star x := by
    intro w hw
    rw [stepCode] at hw
    split_ifs at hw
  cases m with
  | code w => exact absurd h (code w)
  | slash w =>
    simp only [step] at h
    split at h
    · cases h
    · split at h
      · cases h
      · exact absurd h (code _)
  | escape s => cases h
  | block s =>
    simp only [step] at h
    by_contra hc
    rw [if_neg hc] at h
    cases h
  | star s =>
    simp only [step] at h
    by_contra hc
    rw [if_neg hc] at h
    split_ifs at h
  | _ =>
    simp only [step] at h
    split_ifs at h

/-- The last character read, where only one character leads. -/
theorem last_of_step {d : Char} (place : Lexer → Prop)
    (hstep : ∀ {m : Lexer} {c : Char}, place (m.step c).2 → c = d) {m : Lexer} {a : Text}
    (h : place (m.read a).2) (ha : a ≠ []) : a.getLast? = some d := by
  rcases List.eq_nil_or_concat a with rfl | ⟨b, c, rfl⟩
  · exact absurd rfl ha
  · rw [List.concat_eq_append] at h ⊢
    rw [read_append] at h
    rw [hstep h, List.getLast?_concat]

/-- A slash stands alone before anything but a slash and a star. -/
theorem read_slash_cons (w : Text) {c : Char} (hs : c ≠ '/') (hb : c ≠ '*') (cs : Text) :
    (slash w).read (c :: cs) = (code (w ++ ['/'])).read (c :: cs) := by
  have h : (slash w).step c = (code (w ++ ['/'])).step c := by
    simp only [step, if_neg hs, if_neg hb]
  rw [read_cons, read_cons, h]

/-- A star ends no comment before anything but a slash. -/
theorem read_star_cons (s : Text) {c : Char} (hs : c ≠ '/') (cs : Text) :
    (star s).read (c :: cs) = (block s).read (c :: cs) := by
  have h : (star s).step c = (block s).step c := by
    simp only [step, if_neg hs]
  rw [read_cons, read_cons, h]

/-! ## White space -/

theorem stepCode_blank (w : Text) {c : Char} (h : isBlank c) :
    stepCode w c = (wordToken w, .code []) := by
  have hq : c ≠ '"' := by rintro rfl; exact absurd h (by decide)
  have hm : isMark c = false := by
    simp only [isMark, isOpener, isCloser, Bool.or_eq_false_iff, decide_eq_false_iff_not]
    refine ⟨⟨⟨⟨?_, ?_⟩, ?_, ?_⟩, ?_⟩, ?_⟩ <;> (rintro rfl; exact absurd h (by decide))
  simp [stepCode, hq, hm, h]

theorem ne_of_isBlank {c d : Char} (h : isBlank c) (hd : isBlank d = false) : c ≠ d := by
  rintro rfl; simp [h] at hd

/-- White space ends a word, and then nothing happens any more. -/
theorem read_code_blank {a : Text} (h : isBlankLine a) (w : Text) (hw : a = [] → w = []) :
    (code w).read a = (wordToken w, .code []) := by
  induction a generalizing w with
  | nil => rw [hw rfl]; rfl
  | cons c cs ih =>
    obtain ⟨hc, hcs⟩ := isBlankLine_cons.1 h
    rw [read_cons, step, stepCode_blank w hc, ih hcs [] fun _ => rfl]
    simp [wordToken]

theorem read_block_blank {a : Text} (h : isBlankLine a) (s : Text) :
    (block s).read a = ([], .block (s ++ a)) := by
  induction a generalizing s with
  | nil => simp
  | cons c cs ih =>
    obtain ⟨hc, hcs⟩ := isBlankLine_cons.1 h
    have hb : c ≠ '*' := ne_of_isBlank hc (by decide)
    rw [read_cons, step, if_neg hb, ih hcs]
    simp

theorem read_line {a : Text} (h : '\n' ∉ a) (s : Text) :
    (line s).read a = ([], .line (s ++ a)) := by
  induction a generalizing s with
  | nil => simp
  | cons c cs ih =>
    rw [List.mem_cons, not_or] at h
    rw [read_cons, step, if_neg (Ne.symm h.1), ih h.2]
    simp

theorem read_string_cons (s : Text) {c : Char} (hq : c ≠ '"') (hb : c ≠ '\\') (cs : Text) :
    (string s).read (c :: cs) = (string (s ++ [c])).read cs := by
  rw [read_cons, step, if_neg hq, if_neg hb]; rfl

theorem read_string_escape (s : Text) (c : Char) (cs : Text) :
    (string s).read ('\\' :: c :: cs) = (string (s ++ ['\\', c])).read cs := by
  rw [read_cons, read_cons, step, if_neg (by decide), if_pos rfl, step]
  simp

theorem read_string_blank {a : Text} (h : isBlankLine a) (s : Text) :
    (string s).read a = ([], .string (s ++ a)) := by
  induction a generalizing s with
  | nil => simp
  | cons c cs ih =>
    obtain ⟨hc, hcs⟩ := isBlankLine_cons.1 h
    have hq : c ≠ '"' := ne_of_isBlank hc (by decide)
    have hb : c ≠ '\\' := ne_of_isBlank hc (by decide)
    rw [read_string_cons s hq hb, ih hcs]
    simp

/-- Before white space a slash stands alone. -/
theorem read_slash_blank {a : Text} (h : isBlankLine a) (w : Text) (ha : a ≠ []) :
    (slash w).read a = (wordToken (w ++ ['/']), .code []) := by
  obtain ⟨c, cs, rfl⟩ := List.exists_cons_of_ne_nil ha
  obtain ⟨hc, -⟩ := isBlankLine_cons.1 h
  rw [read_slash_cons w (ne_of_isBlank hc (by decide)) (ne_of_isBlank hc (by decide)),
    read_code_blank h _ (by simp)]

/-- Before white space a star ends no comment. -/
theorem read_star_blank {a : Text} (h : isBlankLine a) (s : Text) (ha : a ≠ []) :
    (star s).read a = ([], .block (s ++ a)) := by
  obtain ⟨c, cs, rfl⟩ := List.exists_cons_of_ne_nil ha
  obtain ⟨hc, -⟩ := isBlankLine_cons.1 h
  rw [read_star_cons s (ne_of_isBlank hc (by decide)), read_block_blank h]

theorem inString_read_blank {m : Lexer} (hm : m.inString) {a : Text} (h : isBlankLine a) :
    (m.read a).2.inString := by
  cases m with
  | string s => rw [read_string_blank h]; rfl
  | escape s =>
    cases a with
    | nil => rfl
    | cons c cs =>
      obtain ⟨-, hcs⟩ := isBlankLine_cons.1 h
      rw [read_cons, step, read_string_blank hcs]; rfl
  | _ => cases hm

/-- White space opens no literal. -/
theorem inString_of_step_blank {m : Lexer} {c : Char} (hc : isBlank c)
    (h : (m.step c).2.inString) : m.inString := by
  cases m with
  | code w => rw [step, stepCode_blank w hc] at h; cases h
  | slash w =>
    have hs : c ≠ '/' := ne_of_isBlank hc (by decide)
    have hb : c ≠ '*' := ne_of_isBlank hc (by decide)
    rw [step, if_neg hs, if_neg hb, stepCode_blank _ hc] at h
    cases h
  | string s => rfl
  | escape s => rfl
  | _ =>
    simp only [step] at h
    split_ifs at h <;> cases h

theorem inString_of_read_blank {m : Lexer} {a : Text} (ha : isBlankLine a)
    (h : (m.read a).2.inString) : m.inString := by
  induction a generalizing m with
  | nil => exact h
  | cons c cs ih =>
    obtain ⟨hc, hcs⟩ := isBlankLine_cons.1 ha
    exact inString_of_step_blank hc (ih hcs h)

/-! ## Literals and comments that are open -/

/-- A literal that is closed in a text is closed there however it began. -/
theorem exists_literal {kind : Text → Lexer} (hk : kind = .string ∨ kind = .escape) {r s : Text}
    (h : ((kind s).read r).2.inString = false) :
    ∃ a b, r = a ++ b ∧ ∀ y, (kind y).read a = ([.string (y ++ a)], .code []) := by
  induction r generalizing kind s with
  | nil => rcases hk with rfl | rfl <;> cases h
  | cons c cs ih =>
    have goes_on : ∀ kind' : Text → Lexer, kind' = .string ∨ kind' = .escape →
        (∀ y, (kind y).step c = ([], kind' (y ++ [c]))) →
        ∃ a b, c :: cs = a ++ b ∧ ∀ y, (kind y).read a = ([.string (y ++ a)], .code []) := by
      intro kind' hk' hstep
      rw [read_cons, hstep] at h
      obtain ⟨a, b, rfl, hread⟩ := ih hk' h
      refine ⟨c :: a, b, rfl, fun y => ?_⟩
      rw [read_cons, hstep, hread]
      simp
    rcases hk with rfl | rfl
    · by_cases hq : c = '"'
      · refine ⟨[c], cs, rfl, fun y => ?_⟩
        rw [hq]; rfl
      · by_cases hb : c = '\\'
        · exact goes_on .escape (.inr rfl) fun y => by rw [step, if_neg hq, if_pos hb]
        · exact goes_on .string (.inl rfl) fun y => by rw [step, if_neg hq, if_neg hb]
    · exact goes_on .string (.inl rfl) fun _ => rfl

/-- The first token in a block comment is the comment, with all that has been read of it. -/
theorem tokens_comment {kind : Text → Lexer} (hk : kind = .block ∨ kind = .star) (s x : Text) :
    ∃ y ts, (kind s).tokens x = .comment (s ++ y) :: ts := by
  induction x generalizing kind s with
  | nil => exact ⟨[], [], by rcases hk with rfl | rfl <;> simp [tokens, finish]⟩
  | cons c cs ih =>
    have goes_on : ∀ kind' : Text → Lexer, kind' = .block ∨ kind' = .star →
        (kind s).step c = ([], kind' (s ++ [c])) →
        ∃ y ts, (kind s).tokens (c :: cs) = .comment (s ++ y) :: ts := by
      intro kind' hk' hstep
      obtain ⟨y, ts, htokens⟩ := ih hk' (s ++ [c])
      refine ⟨c :: y, ts, ?_⟩
      rw [tokens_cons, hstep, htokens]
      simp
    rcases hk with rfl | rfl
    · by_cases hb : c = '*'
      · exact goes_on .star (.inr rfl) (by rw [step, if_pos hb])
      · exact goes_on .block (.inl rfl) (by rw [step, if_neg hb])
    · by_cases hs : c = '/'
      · exact ⟨[c], _, by rw [tokens_cons, step, if_pos hs]; rfl⟩
      · by_cases hb : c = '*'
        · exact goes_on .star (.inr rfl) (by rw [step, if_neg hs, if_pos hb])
        · exact goes_on .block (.inl rfl) (by rw [step, if_neg hs, if_neg hb])

/-! ## Lines -/

/-- What can be open where a line starts, if no string literal is: nothing or a block comment. -/
def AtLineStart (m : Lexer) : Prop := m = .code [] ∨ ∃ s, m = .block (s ++ ['\n'])

theorem step_newline (m : Lexer) : m.step '\n' =
    match m with
    | .code w => (wordToken w, .code [])
    | .slash w => (wordToken (w ++ ['/']), .code [])
    | .string s | .escape s => ([], .string (s ++ ['\n']))
    | .line s => ([.comment s], .code [])
    | .block s | .star s => ([], .block (s ++ ['\n'])) := by
  cases m <;> rfl

theorem atLineStart_step {m : Lexer} (h : m.inString = false) : (m.step '\n').2.AtLineStart := by
  rw [step_newline]
  cases m with
  | string s => cases h
  | escape s => cases h
  | block s => exact .inr ⟨s, rfl⟩
  | star s => exact .inr ⟨s, rfl⟩
  | _ => exact .inl rfl

theorem inBlock_step (m : Lexer) : (m.step '\n').2.inBlock = m.inBlock := by
  cases m <;> rfl

theorem closes_line {l : Text} (hl : '\n' ∉ l) (m : Lexer) (rest : Text) :
    m.closes (l ++ '\n' :: rest) =
      (!(m.read l).2.inString && ((m.read l).2.step '\n').2.closes rest) := by
  induction l generalizing m with
  | nil => simp [closes]
  | cons c cs ih =>
    rw [List.mem_cons, not_or] at hl
    rw [List.cons_append, closes, ih hl.2, read_cons]
    simp [Ne.symm hl.1]

/-- A closed text goes on behind its first line, where no literal is open. -/
theorem closes_first {m : Lexer} {l : Text} {ls : List Text} (hl : '\n' ∉ l) {rest : Text}
    (h : m.closes (terminated (l :: ls) ++ rest)) :
    (m.read l).2.inString = false ∧ (m.read (l ++ ['\n'])).2.AtLineStart ∧
      (m.read (l ++ ['\n'])).2.closes (terminated ls ++ rest) := by
  rw [terminated_cons, List.append_assoc, List.cons_append, closes_line hl, Bool.and_eq_true] at h
  have hs : (m.read l).2.inString = false := by simpa using h.1
  have hafter : (m.read (l ++ ['\n'])).2 = ((m.read l).2.step '\n').2 := by
    rw [read_append]; rfl
  rw [hafter]
  exact ⟨hs, atLineStart_step hs, h.2⟩

/-- After closed lines no literal is open. -/
theorem atLineStart_read {m : Lexer} {ls : List Text} (hm : m.AtLineStart)
    (hls : ∀ l ∈ ls, '\n' ∉ l) {rest : Text} (h : m.closes (terminated ls ++ rest)) :
    (m.read (terminated ls)).2.AtLineStart := by
  induction ls generalizing m with
  | nil => exact hm
  | cons l ls ih =>
    obtain ⟨-, hstart, hrest⟩ := closes_first (hls l (by simp)) h
    rw [terminated_line, read_append]
    exact ih hstart (fun l' hl' => hls l' (by simp [hl'])) hrest

theorem closes_concat {m : Lexer} {s : Text} (h : m.closes s) :
    m.closes (s ++ ['\n']) ∧ (m.read (s ++ ['\n'])).2 = .code [] ∧
      m.tokens s = (m.read (s ++ ['\n'])).1 := by
  induction s generalizing m with
  | nil =>
    rw [List.nil_append, read_cons, step_newline]
    cases m with
    | code w => simp [closes, tokens, finish, step_newline, inString, inBlock]
    | slash w => simp [closes, tokens, finish, step_newline, inString, inBlock]
    | line s => simp [closes, tokens, finish, step_newline, inString, inBlock]
    | _ => cases h
  | cons c cs ih =>
    simp only [closes, Bool.and_eq_true] at h
    obtain ⟨hclose, hend, htok⟩ := ih h.2
    refine ⟨?_, hend, ?_⟩
    · rw [List.cons_append, closes, h.1, hclose]; rfl
    · rw [← List.singleton_append, tokens_append, List.append_assoc, read_append]
      simp only [read_cons, read_nil, List.append_nil, htok]

end Lexer

end ConfigCare.Jsonc
