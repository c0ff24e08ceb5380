import ConfigCare.Jsonc.Comment
import ConfigCare.Proofs.Tokens

/-! Tokens line by line. Two lexers agree if they stand in the same place and what they have read
cannot be told apart later on; the tokens are looked at through a `View`, which may ignore part of a
comment or a literal. White space at the ends of a line does not count for a view that ignores the
margins of comments, so a formatter that goes through the lines keeps the tokens of a text as soon
as it keeps those of each trimmed line: `read_threaded`. -/

namespace ConfigCare.Jsonc

open Text

/-- What is looked at of comments and of literals. -/
structure View where
  comment : Text → Text
  literal : Text → Text

def View.token (v : View) : Token → Token
  | .comment s => .comment (v.comment s)
  | .string s => .string (v.literal s)
  | t => t

def View.tokens (v : View) (ts : List Token) : List Token := ts.map v.token

@[simp] theorem View.tokens_append (v : View) (ts us : List Token) :
    v.tokens (ts ++ us) = v.tokens ts ++ v.tokens us := by
  simp [View.tokens]

/-- Tokens that look the same have the same literals, if literals are looked at as they are. -/
theorem View.literals_eq {f : Text → Text} {ts us : List Token}
    (h : View.tokens ⟨f, id⟩ ts = View.tokens ⟨f, id⟩ us) :
    ts.filterMap Token.literal? = us.filterMap Token.literal? := by
  have kept : ∀ ts : List Token,
      (View.tokens ⟨f, id⟩ ts).filterMap Token.literal? = ts.filterMap Token.literal? := by
    intro ts
    rw [View.tokens, List.filterMap_map]
    congr 1
    funext t
    cases t <;> rfl
  rw [← kept ts, ← kept us, h]

/-- Literals are all that is missing in a view that does not look at them. -/
theorem View.token_eq {f : Text → Text} {t u : Token}
    (h : View.token ⟨f, fun _ => []⟩ t = View.token ⟨f, fun _ => []⟩ u)
    (hlit : t.literal? = u.literal?) : View.token ⟨f, id⟩ t = View.token ⟨f, id⟩ u := by
  cases t with
  | string s =>
    cases u with
    | string s' => cases hlit; rfl
    | _ => cases h
  | _ =>
    cases u with
    | string s' => cases h
    | _ => exact h

theorem View.tokens_eq {f : Text → Text} {ts us : List Token}
    (h : View.tokens ⟨f, fun _ => []⟩ ts = View.tokens ⟨f, fun _ => []⟩ us)
    (hlit : ts.filterMap Token.literal? = us.filterMap Token.literal?) :
    View.tokens ⟨f, id⟩ ts = View.tokens ⟨f, id⟩ us := by
  induction ts generalizing us with
  | nil =>
    cases us with
    | nil => rfl
    | cons u us => cases h
  | cons t ts ih =>
    cases us with
    | nil => cases h
    | cons u us =>
      obtain ⟨hhead, htail⟩ := List.cons.inj h
      have hkind : t.literal?.isSome = u.literal?.isSome := by
        cases t <;> cases u <;> first | rfl | cases hhead
      suffices t.literal? = u.literal? ∧
          ts.filterMap Token.literal? = us.filterMap Token.literal? from
        congrArg₂ List.cons (View.token_eq hhead this.1) (ih htail this.2)
      cases ht : t.literal? with
      | none =>
        have hu : u.literal? = none := by simpa [ht] using hkind.symm
        rw [List.filterMap_cons_none ht, List.filterMap_cons_none hu] at hlit
        exact ⟨hu.symm, hlit⟩
      | some s =>
        obtain ⟨s', hu⟩ := Option.isSome_iff_exists.1 (hkind.symm.trans (by rw [ht]; rfl))
        rw [List.filterMap_cons_some ht, List.filterMap_cons_some hu] at hlit
        obtain ⟨rfl, hrest⟩ := List.cons.inj hlit
        exact ⟨hu.symm, hrest⟩

/-- Texts that look the same whatever is read behind them. -/
def Alike (f : Text → Text) (s s' : Text) : Prop := ∀ x, f (s ++ x) = f (s' ++ x)

theorem Alike.symm {f : Text → Text} {s s' : Text} (h : Alike f s s') : Alike f s' s :=
  fun x => (h x).symm

theorem Alike.trans {f : Text → Text} {s s' s'' : Text} (h : Alike f s s') (h' : Alike f s' s'') :
    Alike f s s'' :=
  fun x => (h x).trans (h' x)

theorem Alike.append {f : Text → Text} {s s' : Text} (h : Alike f s s') (t : Text) :
    Alike f (s ++ t) (s' ++ t) := by
  intro x
  rw [List.append_assoc, List.append_assoc]
  exact h (t ++ x)

theorem Alike.eq {f : Text → Text} {s s' : Text} (h : Alike f s s') : f s = f s' := by
  simpa using h []

/-- Lexers in the same place, with texts that look alike. -/
inductive Agree (v : View) : Lexer → Lexer → Prop where
  | refl (m : Lexer) : Agree v m m
  | string {s s' : Text} (h : Alike v.literal s s') : Agree v (.string s) (.string s')
  | escape {s s' : Text} (h : Alike v.literal s s') : Agree v (.escape s) (.escape s')
  | line {s s' : Text} (h : Alike v.comment s s') : Agree v (.line s) (.line s')
  | block {s s' : Text} (h : Alike v.comment s s') : Agree v (.block s) (.block s')
  | star {s s' : Text} (h : Alike v.comment s s') : Agree v (.star s) (.star s')

/-- The same tokens completed, and agreement on what is being read. -/
structure Same (v : View) (r r' : List Token × Lexer) : Prop where
  tokens : v.tokens r.1 = v.tokens r'.1
  lexer : Agree v r.2 r'.2

section
variable {v : View} {m m' : Lexer}

theorem Agree.symm (h : Agree v m m') : Agree v m' m := by
  cases h with
  | refl => exact .refl _
  | string h => exact .string h.symm
  | escape h => exact .escape h.symm
  | line h => exact .line h.symm
  | block h => exact .block h.symm
  | star h => exact .star h.symm

theorem Agree.trans {m'' : Lexer} (h : Agree v m m') (h' : Agree v m' m'') : Agree v m m'' := by
  cases h' with
  | refl => exact h
  | string h' => cases h with
    | refl => exact .string h'
    | string h => exact .string (h.trans h')
  | escape h' => cases h with
    | refl => exact .escape h'
    | escape h => exact .escape (h.trans h')
  | line h' => cases h with
    | refl => exact .line h'
    | line h => exact .line (h.trans h')
  | block h' => cases h with
    | refl => exact .block h'
    | block h => exact .block (h.trans h')
  | star h' => cases h with
    | refl => exact .star h'
    | star h => exact .star (h.trans h')

theorem Agree.inString (h : Agree v m m') : m.inString = m'.inString := by
  cases h <;> rfl

theorem Agree.inBlock (h : Agree v m m') : m.inBlock = m'.inBlock := by
  cases h <;> rfl

theorem Agree.eq_code {w : Text} (h : Agree v (.code w) m) : m = .code w := by
  cases h; rfl

theorem Same.refl (r : List Token × Lexer) : Same v r r := ⟨rfl, .refl _⟩

theorem Same.symm {r r' : List Token × Lexer} (h : Same v r r') : Same v r' r :=
  ⟨h.tokens.symm, h.lexer.symm⟩

theorem Same.trans {r r' r'' : List Token × Lexer} (h : Same v r r') (h' : Same v r' r'') :
    Same v r r'' :=
  ⟨h.tokens.trans h'.tokens, h.lexer.trans h'.lexer⟩

theorem Agree.step (h : Agree v m m') (c : Char) : Same v (m.step c) (m'.step c) := by
  cases h with
  | refl => exact .refl _
  | string h =>
    by_cases hq : c = '"'
    · simp only [Lexer.step, if_pos hq]
      exact ⟨by simp [View.tokens, View.token, (h.append [c]).eq], .refl _⟩
    · by_cases hb : c = '\\'
      · simp only [Lexer.step, if_neg hq, if_pos hb]
        exact ⟨rfl, .escape (h.append [c])⟩
      · simp only [Lexer.step, if_neg hq, if_neg hb]
        exact ⟨rfl, .string (h.append [c])⟩
  | escape h => exact ⟨rfl, .string (h.append [c])⟩
  | line h =>
    by_cases hn : c = '\n'
    · simp only [Lexer.step, if_pos hn]
      exact ⟨by simp [View.tokens, View.token, h.eq], .refl _⟩
    · simp only [Lexer.step, if_neg hn]
      exact ⟨rfl, .line (h.append [c])⟩
  | block h =>
    by_cases hs : c = '*'
    · simp only [Lexer.step, if_pos hs]
      exact ⟨rfl, .star (h.append [c])⟩
    · simp only [Lexer.step, if_neg hs]
      exact ⟨rfl, .block (h.append [c])⟩
  | star h =>
    by_cases he : c = '/'
    · simp only [Lexer.step, if_pos he]
      exact ⟨by simp [View.tokens, View.token, (h.append [c]).eq], .refl _⟩
    · by_cases hs : c = '*'
      · simp only [Lexer.step, if_neg he, if_pos hs]
        exact ⟨rfl, .star (h.append [c])⟩
      · simp only [Lexer.step, if_neg he, if_neg hs]
        exact ⟨rfl, .block (h.append [c])⟩

theorem Agree.read (h : Agree v m m') (s : Text) : Same v (m.read s) (m'.read s) := by
  induction s generalizing m m' with
  | nil => exact ⟨rfl, h⟩
  | cons c cs ih =>
    have hstep := h.step c
    have hrest := ih hstep.lexer
    rw [Lexer.read_cons, Lexer.read_cons]
    exact ⟨by simp [hstep.tokens, hrest.tokens], hrest.lexer⟩

/-- Reading goes on in step. -/
theorem Same.append {a a' b b' : Text} (h : Same v (m.read a) (m'.read a'))
    (h' : Same v ((m.read a).2.read b) ((m'.read a').2.read b')) :
    Same v (m.read (a ++ b)) (m'.read (a' ++ b')) := by
  rw [Lexer.read_append, Lexer.read_append]
  exact ⟨by simp [h.tokens, h'.tokens], h'.lexer⟩

theorem Same.append_right {a a' : Text} (h : Same v (m.read a) (m'.read a')) (b : Text) :
    Same v (m.read (a ++ b)) (m'.read (a' ++ b)) :=
  h.append (h.lexer.read b)

theorem Agree.finish (h : Agree v m m') : v.tokens m.finish = v.tokens m'.finish := by
  cases h with
  | refl => rfl
  | _ h => simp [Lexer.finish, View.tokens, View.token, h.eq]

theorem Agree.tokens (h : Agree v m m') (s : Text) :
    v.tokens (m.tokens s) = v.tokens (m'.tokens s) := by
  rw [Lexer.tokens, Lexer.tokens, View.tokens_append, View.tokens_append, (h.read s).tokens,
    (h.read s).lexer.finish]

/-- Texts that are read the same leave the same tokens with any rest. -/
theorem Same.tokens_append {a a' : Text} (h : Same v (m.read a) (m'.read a')) (x : Text) :
    v.tokens (m.tokens (a ++ x)) = v.tokens (m'.tokens (a' ++ x)) := by
  rw [Lexer.tokens_append, Lexer.tokens_append, View.tokens_append, View.tokens_append, h.tokens,
    h.lexer.tokens x]

/-! ## Margins -/

/-- A view that does not tell white space at the ends of the lines of a comment. -/
structure View.IgnoresMargins (v : View) : Prop where
  trailing : ∀ s b, isBlankLine b → '\n' ∉ b → v.comment (s ++ b) = v.comment s
  beforeBreak : ∀ s b, isBlankLine b → '\n' ∉ b → Alike v.comment (s ++ (b ++ ['\n'])) (s ++ ['\n'])
  afterBreak : ∀ s a, isBlankLine a → '\n' ∉ a → Alike v.comment (s ++ ['\n'] ++ a) (s ++ ['\n'])

theorem same_leading (hv : v.IgnoresMargins) (hm : m.AtLineStart) {a : Text} (ha : isBlankLine a)
    (hn : '\n' ∉ a) (x : Text) : Same v (m.read (a ++ x)) (m.read x) := by
  have hblank : Same v (m.read a) (m.read []) := by
    rcases hm with rfl | ⟨s, rfl⟩
    · rw [Lexer.read_code_blank ha [] fun _ => rfl]
      exact .refl _
    · rw [Lexer.read_block_blank ha]
      exact ⟨rfl, .block (hv.afterBreak s a ha hn)⟩
  exact hblank.append_right x

theorem same_trailing (hv : v.IgnoresMargins) (hm : m.inString = false) {b : Text}
    (hb : isBlankLine b) (hn : '\n' ∉ b) : Same v (m.read (b ++ ['\n'])) (m.read ['\n']) := by
  have hbn : isBlankLine (b ++ ['\n']) := by rw [isBlankLine_append, hb]; rfl
  have hnl : isBlankLine ['\n'] := rfl
  cases m with
  | code w =>
    rw [Lexer.read_code_blank hbn w (by simp), Lexer.read_code_blank hnl w (by simp)]
    exact .refl _
  | slash w =>
    rw [Lexer.read_slash_blank hbn w (by simp), Lexer.read_slash_blank hnl w (by simp)]
    exact .refl _
  | string s => cases hm
  | escape s => cases hm
  | line s =>
    rw [Lexer.read_append, Lexer.read_line hn]
    exact ⟨by simp [Lexer.read_cons, Lexer.step, View.tokens, View.token, hv.trailing s b hb hn],
      .refl _⟩
  | block s =>
    rw [Lexer.read_block_blank hbn, Lexer.read_block_blank hnl]
    exact ⟨rfl, .block (hv.beforeBreak s b hb hn)⟩
  | star s =>
    rw [Lexer.read_star_blank hbn s (by simp), Lexer.read_star_blank hnl s (by simp)]
    exact ⟨rfl, .block (hv.beforeBreak s b hb hn)⟩

/-- A trimmed line leaves no literal open if the line does not. -/
theorem inString_trim (hv : v.IgnoresMargins) (hm : m.AtLineStart) {l : Text} (hl : '\n' ∉ l)
    (hs : (m.read l).2.inString = false) : (m.read (trim l)).2.inString = false := by
  obtain ⟨a, b, ha, hb, e⟩ := exists_margins l
  generalize trim l = t at e ⊢
  subst e
  rw [List.mem_append, List.mem_append, not_or, not_or] at hl
  have hlead := same_leading hv hm ha hl.1 (t ++ b)
  rw [hlead.lexer.inString, Lexer.read_append] at hs
  by_contra h
  have hopen := Lexer.inString_read_blank (eq_true_of_ne_false h) hb
  rw [hs] at hopen
  cases hopen

/-- A line has the tokens of the line trimmed. -/
theorem same_trim (hv : v.IgnoresMargins) (hm : m.AtLineStart) {l : Text} (hl : '\n' ∉ l)
    (hs : (m.read l).2.inString = false) :
    Same v (m.read (l ++ ['\n'])) (m.read (trim l ++ ['\n'])) := by
  have ht := inString_trim hv hm hl hs
  obtain ⟨a, b, ha, hb, e⟩ := exists_margins l
  generalize trim l = t at e ht ⊢
  subst e
  rw [List.mem_append, List.mem_append, not_or, not_or] at hl
  have hlead := same_leading hv hm ha hl.1 (t ++ (b ++ ['\n']))
  rw [List.append_assoc, List.append_assoc]
  exact hlead.trans (Same.append (.refl _) (same_trailing hv ht hb hl.2.2))

theorem same_indent (hv : v.IgnoresMargins) (hm : m.AtLineStart) (depth : Nat) (x : Text) :
    Same v (m.read (indent depth ++ x)) (m.read x) :=
  same_leading hv hm (by simp [isBlankLine, indent, show isBlank ' ' = true by decide])
    (by simp [indent]) x

/-! ## A comment behind code -/

theorem read_code_comment {w : Text} (hw : isBlankLine w) (x r : Text) :
    (Lexer.code x).read (w ++ '/' :: '/' :: r) =
      (wordToken x ++ ((Lexer.line ['/', '/']).read r).1, ((Lexer.line ['/', '/']).read r).2) := by
  have slashes : ∀ x, (Lexer.code x).read ('/' :: '/' :: r) =
      (wordToken x ++ ((Lexer.line ['/', '/']).read r).1, ((Lexer.line ['/', '/']).read r).2) :=
    fun _ => rfl
  cases w with
  | nil => exact slashes x
  | cons c cs => rw [Lexer.read_append, Lexer.read_code_blank hw x (by simp), slashes]; rfl

/-- Where code ends in front of a comment, any white space there is as good as one space. -/
theorem read_gap {w x : Text} (hw : isBlankLine w) (hn : '\n' ∉ w) (h : (m.read w).2 = .code x)
    (r : Text) : m.read (w ++ '/' :: '/' :: r) = m.read (' ' :: '/' :: '/' :: r) := by
  have hspace : isBlankLine [' '] := rfl
  cases m with
  | code y => exact (read_code_comment hw y r).trans (read_code_comment hspace y r).symm
  | slash y =>
    cases w with
    | nil => cases h
    | cons c cs =>
      rw [← List.singleton_append (l := '/' :: '/' :: r), Lexer.read_append, Lexer.read_append,
        Lexer.read_slash_blank hw y (by simp), Lexer.read_slash_blank hspace y (by simp)]
  | line s => rw [Lexer.read_line hn] at h; cases h
  | block s => rw [Lexer.read_block_blank hw] at h; cases h
  | star s =>
    cases w with
    | nil => cases h
    | cons c cs => rw [Lexer.read_star_blank hw s (by simp)] at h; cases h
  | string s => rw [Lexer.read_string_blank hw] at h; cases h
  | escape s =>
    have := Lexer.inString_read_blank (m := .escape s) rfl hw
    rw [h] at this
    cases this

theorem spaced_of_visible {c : Char} (hc : isBlank c = false) (cs comment : Text) :
    spaced (c :: cs) (some comment) = trimEnd (c :: cs) ++ ' ' :: comment := by
  have htrim : trim (c :: cs) = trimEnd (c :: cs) := by rw [trim, trimStart_eq_self hc]
  unfold spaced
  cases h : trim (c :: cs) with
  | nil =>
    have := List.all_eq_true.1 ((trim_eq_nil_iff _).1 h) c (by simp)
    rw [hc] at this
    cases this
  | cons d ds => rw [← htrim, h]

theorem getLast?_spaced (code : Text) {comment : Text} (h : comment ≠ []) :
    (spaced code (some comment)).getLast? = comment.getLast? := by
  unfold spaced
  cases trim code with
  | nil => rfl
  | cons c cs =>
    change (c :: cs ++ ' ' :: comment).getLast? = comment.getLast?
    rw [List.append_cons, List.getLast?_append_of_ne_nil _ h]

/-! ## Whole texts -/

/-- What holds of each line, with what is open where it starts. -/
def EachLine (P : Lexer → Text → Prop) : Lexer → List Text → Prop
  | _, [] => True
  | m, l :: ls => P m l ∧ EachLine P (m.read (l ++ ['\n'])).2 ls

instance EachLine.decidable (P : Lexer → Text → Prop) [∀ m l, Decidable (P m l)] :
    ∀ m ls, Decidable (EachLine P m ls)
  | _, [] => .isTrue trivial
  | m, l :: ls =>
    have := EachLine.decidable P (m.read (l ++ ['\n'])).2 ls
    inferInstanceAs (Decidable (P m l ∧ EachLine P _ ls))

variable {σ : Type}

/-- A step that keeps the tokens of each line keeps those of all lines. `I` ties what it hands from
line to line to what is open there. -/
theorem read_threaded {step : σ → Text → σ × Text} {I : σ → Lexer → Prop}
    {P : Lexer → Text → Prop}
    (hline : ∀ s m l, I s m → m.AtLineStart → '\n' ∉ l → (m.read l).2.inString = false → P m l →
      Same v (m.read (l ++ ['\n'])) (m.read ((step s l).2 ++ ['\n'])) ∧
        I (step s l).1 (m.read (l ++ ['\n'])).2)
    (ls : List Text) (hls : ∀ l ∈ ls, '\n' ∉ l) (s : σ) (m m' : Lexer) (hm : m.AtLineStart)
    (hmm : Agree v m m') (hI : I s m) {rest : Text} (hc : m.closes (terminated ls ++ rest))
    (hP : EachLine P m ls) :
    Same v (m.read (terminated ls)) (m'.read (terminated (threaded step s ls))) := by
  induction ls generalizing s m m' with
  | nil => exact hmm.read []
  | cons l ls ih =>
    have hl := hls l (by simp)
    obtain ⟨hs, hstart, hrest⟩ := Lexer.closes_first hl hc
    obtain ⟨hsame, hI'⟩ := hline s m l hI hm hl hs hP.1
    have hfirst := hsame.trans (hmm.read ((step s l).2 ++ ['\n']))
    rw [terminated_line, threaded_cons, terminated_line]
    exact hfirst.append (ih (fun l' hl' => hls l' (by simp [hl'])) _ _ _ hstart hfirst.lexer hI'
      hrest hP.2)

theorem eachLine_append {P : Lexer → Text → Prop} {m : Lexer} {ls ls' : List Text} :
    EachLine P m (ls ++ ls') ↔ EachLine P m ls ∧ EachLine P (m.read (terminated ls)).2 ls' := by
  induction ls generalizing m with
  | nil => simp [EachLine]
  | cons l ls ih =>
    rw [terminated_line, Lexer.read_append]
    simp only [List.cons_append, EachLine, ih, and_assoc]

theorem eachLine_and {P Q : Lexer → Text → Prop} {m : Lexer} {ls : List Text} :
    EachLine (fun m l => P m l ∧ Q m l) m ls ↔ EachLine P m ls ∧ EachLine Q m ls := by
  induction ls generalizing m with
  | nil => simp [EachLine]
  | cons l ls ih => simp only [EachLine, ih, and_and_and_comm]

theorem eachLine_of_forall {P : Lexer → Text → Prop} {ls : List Text} (h : ∀ l ∈ ls, ∀ m, P m l)
    (m : Lexer) : EachLine P m ls := by
  induction ls generalizing m with
  | nil => trivial
  | cons l ls ih => exact ⟨h l (by simp) m, ih (fun l' hl' => h l' (by simp [hl'])) _⟩

theorem closes_lines {s : Text} (h : Closed s) :
    (Lexer.code []).closes (terminated (splitOn '\n' s)) := by
  rw [terminated_splitOn]
  exact (Lexer.closes_concat h).1

/-- The blank lines at the end of a closed text have no part in its tokens. -/
theorem tokens_of_blank_tail {s : Text} (h : Closed s) {ls bs : List Text}
    (hs : splitOn '\n' s = ls ++ bs) (hbs : ∀ b ∈ bs, isBlankLine b) :
    (Lexer.code []).read (terminated ls) = (tokens s, .code []) := by
  obtain ⟨-, hend, htokens⟩ := Lexer.closes_concat h
  have hclose := closes_lines h
  rw [← terminated_splitOn] at hend htokens
  rw [hs, terminated_append] at hclose hend htokens
  have hstart := Lexer.atLineStart_read (.inl rfl)
    (fun l hl => not_mem_of_mem_splitOn l (hs ▸ List.mem_append_left bs hl)) hclose
  have hblank : isBlankLine (terminated bs) := by
    rw [isBlankLine, terminated, List.all_flatMap, List.all_eq_true]
    intro b hb
    have hline : isBlankLine (b ++ ['\n']) := by rw [isBlankLine_append, hbs b hb]; rfl
    exact hline
  rw [Lexer.read_append] at hend htokens
  rcases hstart with hcode | ⟨t, hopen⟩
  · rw [hcode, Lexer.read_code_blank hblank [] fun _ => rfl] at htokens
    refine Prod.ext ?_ hcode
    rw [tokens, htokens]
    simp [wordToken]
  · rw [hopen, Lexer.read_block_blank hblank] at hend
    cases hend

/-- A closed text keeps its tokens under a step that keeps those of each line. -/
theorem tokens_unlines_threaded {step : σ → Text → σ × Text} (hends : KeepsLineEnds step)
    {I : σ → Lexer → Prop} {P : Lexer → Text → Prop}
    (hline : ∀ s m l, I s m → m.AtLineStart → '\n' ∉ l → (m.read l).2.inString = false → P m l →
      Same v (m.read (l ++ ['\n'])) (m.read ((step s l).2 ++ ['\n'])) ∧
        I (step s l).1 (m.read (l ++ ['\n'])).2)
    {s : σ} (hI : I s (.code [])) {t : Text} (ht : Closed t)
    (hP : EachLine P (.code []) (splitOn '\n' t)) :
    v.tokens (tokens (unlines (threaded step s (splitOn '\n' t)))) = v.tokens (tokens t) := by
  obtain ⟨ls, bs, hls, hbs, hout⟩ := hends.unlines_threaded s (splitOn '\n' t)
  have hread := tokens_of_blank_tail ht hls hbs
  have hclose := closes_lines ht
  rw [hls] at hP
  rw [hls, terminated_append] at hclose
  rcases hout with hout | ⟨rfl, hout⟩
  · have hsame := read_threaded hline ls
      (fun l hl => not_mem_of_mem_splitOn l (hls ▸ List.mem_append_left bs hl)) s _ _ (.inl rfl)
      (.refl _) hI hclose (eachLine_append.1 hP).1
    rw [hread] at hsame
    rw [hout, tokens, Lexer.tokens, hsame.lexer.eq_code, View.tokens_append, ← hsame.tokens]
    simp [Lexer.finish, wordToken, View.tokens]
  · have htokens : [] = tokens t := congrArg Prod.fst hread
    rw [hout, ← htokens]
    rfl

end

end ConfigCare.Jsonc
