import ConfigCare.Proofs.LineTokens

/-! Indenting line by line and the tokens of a text. A line is split in front of its first `//`
outside of string literals, and the search takes the line by itself: it knows nothing of block
comments, so that a quote in one puts it out of step. Where it is wrong, the space that it writes
in front of the `//` can fall into a string literal or part the `*` and `/` that end a comment. The
tokens of a text are kept if and only if neither happens. -/

namespace ConfigCare.Jsonc

open Text

/-! ## Where a line is split -/

/-- The offset of the `//` in front of which the trimmed line is split; a line that is a comment
from its start is not. -/
def splitPoint (l : Text) : Option Nat :=
  if isCommentLine (trim l) then none else commentFrom .code 0 (trim l)

/-- The white space at the end of a text. -/
def gap (s : Text) : Text := s.drop (trimEnd s).length

/-- The line is not split between the star and the slash that end a block comment. -/
def KeepsEnd (m : Lexer) (l : Text) : Prop :=
  ∀ n ∈ splitPoint l, (m.read ((trim l).take n)).2.afterStar = false

/-- The line is not split in a string literal, unless one space stands there. -/
def KeepsLiteral (m : Lexer) (l : Text) : Prop :=
  ∀ n ∈ splitPoint l, (m.read ((trim l).take n)).2.inString → gap ((trim l).take n) = [' ']

instance (m : Lexer) (l : Text) : Decidable (KeepsEnd m l) :=
  inferInstanceAs (Decidable (∀ n ∈ splitPoint l, _))

instance (m : Lexer) (l : Text) : Decidable (KeepsLiteral m l) :=
  inferInstanceAs (Decidable (∀ n ∈ splitPoint l, _))

/-- A trimmed line with one space in front of the comment that is split off. -/
def respaced (l : Text) : Text :=
  match splitPoint l with
  | none => trim l
  | some n => spaced ((trim l).take n) (some ((trim l).drop n))

theorem trimEnd_gap (s : Text) : s = trimEnd s ++ gap s ∧ isBlankLine (gap s) := by
  obtain ⟨w, hw, hs⟩ := exists_trimEnd s
  have hgap : gap s = w := by
    have := congrArg (List.drop (trimEnd s).length) hs
    rwa [List.drop_left] at this
  rw [hgap]
  exact ⟨hs, hw⟩

theorem startsWith_lineComment {s : Text} (h : Text.startsWith lineComment s) :
    ∃ r, s = '/' :: '/' :: r := by
  obtain ⟨r, hr⟩ := Option.isSome_iff_exists.1 h
  exact ⟨r, eq_append_of_dropStart? hr⟩

/-- The search stops in front of a `//`, and not right behind another slash. -/
theorem commentFrom_eq_some {place : Place} {offset n : Nat} {l : Text}
    (h : commentFrom place offset l = some n) :
    ∃ a r, l = a ++ '/' :: '/' :: r ∧ n = offset + a.length ∧
      a.foldl (fun p c => Place.next c p) place = .code ∧ a.getLast? ≠ some '/' := by
  induction l generalizing place offset with
  | nil => cases h
  | cons c cs ih =>
    rw [commentFrom] at h
    split at h
    · next hstop =>
      cases h
      rw [Bool.and_eq_true, decide_eq_true_eq] at hstop
      obtain ⟨r, hr⟩ := startsWith_lineComment hstop.2
      exact ⟨[], r, hr, rfl, hstop.1, by simp⟩
    · next hgo =>
      obtain ⟨a, r, rfl, rfl, hplace, hlast⟩ := ih h
      refine ⟨c :: a, r, rfl, by simp only [List.length_cons]; omega, hplace, ?_⟩
      cases a with
      | cons d ds => simpa using hlast
      | nil =>
        -- behind a slash in code the search would have stopped one character earlier
        rintro hc
        obtain rfl : c = '/' := by simpa using hc
        apply hgo
        have hcode : place = .code := by
          cases place with
          | code => rfl
          | string => exact absurd hplace (by decide)
          | escaped => exact absurd hplace (by decide)
        rw [hcode]
        rfl

/-- A split line: the text in front, its white space, and the rest behind the slashes. -/
theorem exists_split {l : Text} {n : Nat} (h : splitPoint l = some n) :
    ∃ b w r, trim l = b ++ (w ++ '/' :: '/' :: r) ∧ (trim l).take n = b ++ w ∧
      gap ((trim l).take n) = w ∧ isBlankLine w ∧ b ≠ [] ∧ (w = [] → b.getLast? ≠ some '/') ∧
      respaced l = b ++ ' ' :: '/' :: '/' :: r := by
  have hpoint := h
  unfold splitPoint at h
  split at h
  · cases h
  · next hline =>
    obtain ⟨a, r, hl, hn, -, hlast⟩ := commentFrom_eq_some h
    rw [Nat.zero_add] at hn
    have htake : (trim l).take n = a := by rw [hl, hn, List.take_left]
    have hdrop : (trim l).drop n = '/' :: '/' :: r := by rw [hl, hn, List.drop_left]
    cases a with
    | nil => rw [hl] at hline; exact absurd rfl hline
    | cons c cs =>
      have hc : isBlank c = false := trim_cons hl
      obtain ⟨hgap, hblank⟩ := trimEnd_gap (c :: cs)
      refine ⟨trimEnd (c :: cs), gap (c :: cs), r, ?_, htake.trans hgap, by rw [htake], hblank,
        ?_, ?_, ?_⟩
      · rw [← List.append_assoc, ← hgap, hl]
      · intro e
        rw [e, List.nil_append] at hgap
        have := List.all_eq_true.1 hblank c (hgap ▸ List.mem_cons_self ..)
        rw [hc] at this
        cases this
      · intro e
        rw [e, List.append_nil] at hgap
        rwa [← hgap]
      · rw [respaced, hpoint]
        simp only [htake, hdrop]
        exact spaced_of_visible hc cs _

/-! ## Reading a line that was split -/

section
variable {g : Text → Text}

theorem alike_visible {s s' : Text} (h : visible s = visible s') : Alike visible s s' := by
  intro x
  rw [visible_append, visible_append, h]

theorem visible_append_blank (s : Text) {w : Text} (hw : isBlankLine w) :
    visible (s ++ w) = visible s := by
  rw [visible_append, visible_eq_nil hw, List.append_nil]

theorem visible_ignoresMargins : View.IgnoresMargins ⟨visible, g⟩ where
  trailing s _ hb _ := visible_append_blank s hb
  beforeBreak s b hb _ := alike_visible (by simp [visible_eq_nil hb])
  afterBreak s a ha _ := alike_visible (visible_append_blank _ ha)

theorem read_escape_blank {w : Text} (hw : isBlankLine w) (s : Text) :
    (Lexer.escape s).read (w ++ ['/']) = ([], .string (s ++ (w ++ ['/']))) := by
  cases w with
  | nil => rfl
  | cons c cs =>
    obtain ⟨-, hcs⟩ := isBlankLine_cons.1 hw
    rw [List.cons_append, Lexer.read_cons, Lexer.step, Lexer.read_append,
      Lexer.read_string_blank hcs, Lexer.read_string_cons _ (by decide) (by decide)]
    simp

/-- The white space in front of the slashes does not matter, but for three places of the lexer: a
slash or a star right before them, and a string literal that is looked at. -/
theorem same_gap {q : Lexer} {w : Text} (hw : isBlankLine w) (hn : '\n' ∉ w)
    (hslash : ∀ x, q = .slash x → w ≠ []) (hstar : ∀ s, q = .star s → w ≠ [])
    (hlit : q.inString → w = [' '] ∨ ∀ x y, g x = g y) (r : Text) :
    Same ⟨visible, g⟩ (q.read (w ++ '/' :: '/' :: r)) (q.read (' ' :: '/' :: '/' :: r)) := by
  have hspace : isBlankLine [' '] := rfl
  have hvisible : ∀ s : Text, visible (s ++ w) = visible (s ++ [' ']) := by
    intro s
    rw [visible_append_blank s hw, visible_append_blank s hspace]
  have before : ∀ {q : Lexer}, Same ⟨visible, g⟩ (q.read w) (q.read [' ']) →
      Same ⟨visible, g⟩ (q.read (w ++ '/' :: '/' :: r)) (q.read (' ' :: '/' :: '/' :: r)) :=
    fun h => h.append_right ('/' :: '/' :: r)
  cases q with
  | code x =>
    rw [read_code_comment hw, ← List.singleton_append (l := '/' :: '/' :: r),
      read_code_comment hspace]
    exact .refl _
  | slash x =>
    rw [read_gap hw hn (by rw [Lexer.read_slash_blank hw x (hslash x rfl)])]
    exact .refl _
  | string s =>
    rcases hlit rfl with rfl | hg
    · exact .refl _
    · refine before ?_
      rw [Lexer.read_string_blank hw, Lexer.read_string_blank hspace]
      exact ⟨rfl, .string fun x => hg _ _⟩
  | escape s =>
    rcases hlit rfl with rfl | hg
    · exact .refl _
    · have hslash : Same ⟨visible, g⟩ ((Lexer.escape s).read (w ++ ['/']))
          ((Lexer.escape s).read [' ', '/']) := by
        rw [read_escape_blank hw]
        exact ⟨rfl, .string fun x => hg _ _⟩
      rw [← List.singleton_append (l := '/' :: r), ← List.append_assoc]
      exact hslash.append_right ('/' :: r)
  | line s =>
    refine before ?_
    rw [Lexer.read_line hn, Lexer.read_line (by decide)]
    exact ⟨rfl, .line (alike_visible (hvisible s))⟩
  | block s =>
    refine before ?_
    rw [Lexer.read_block_blank hw, Lexer.read_block_blank hspace]
    exact ⟨rfl, .block (alike_visible (hvisible s))⟩
  | star s =>
    refine before ?_
    rw [Lexer.read_star_blank hw s (hstar s rfl), Lexer.read_star_blank hspace s (by simp)]
    exact ⟨rfl, .block (alike_visible (hvisible s))⟩

theorem same_respaced {m : Lexer} {l : Text} (hl : '\n' ∉ l) (hend : KeepsEnd m l)
    (hlit : KeepsLiteral m l ∨ ∀ x y, g x = g y) :
    Same ⟨visible, g⟩ (m.read (trim l)) (m.read (respaced l)) := by
  cases hp : splitPoint l with
  | none => rw [respaced, hp]; exact .refl _
  | some n =>
    obtain ⟨b, w, r, ht, htake, hgap, hw, hb, hlast, hr⟩ := exists_split hp
    have hend := hend n hp
    have hn : '\n' ∉ w := fun h => hl (mem_of_mem_trim (by rw [ht]; simp [h]))
    rw [htake, Lexer.read_append] at hend
    rw [ht, hr]
    refine Same.append (.refl _) (same_gap hw hn ?_ ?_ ?_ r)
    · rintro x hx rfl
      exact hlast rfl (Lexer.last_of_step (· = .slash x) Lexer.eq_slash_of_step hx hb)
    · rintro s hs rfl
      rw [Lexer.read_nil, hs] at hend
      cases hend
    · intro hq
      refine hlit.imp_left fun h => ?_
      rw [← hgap]
      refine h n hp ?_
      rw [htake, Lexer.read_append]
      exact Lexer.inString_read_blank hq hw

/-! ## The step of the reindenter -/

theorem respaced_of_blank {l : Text} (h : trim l = []) : respaced l = [] := by
  have hp : splitPoint l = none := by
    unfold splitPoint
    rw [h]
    rfl
  rw [respaced, hp]
  exact h

theorem reindentLine_of_visible (depth : Nat) {l : Text} (h : trim l ≠ []) :
    ∃ depth', (reindentLine depth l).2 = indent depth' ++ respaced l := by
  unfold reindentLine respaced splitPoint
  cases ht : trim l with
  | nil => exact absurd ht h
  | cons c cs =>
    simp only
    split
    · exact ⟨depth, rfl⟩
    · refine ⟨if isCloser c then depth - 1 else depth, ?_⟩
      unfold splitComment
      cases commentFrom .code 0 (c :: cs) <;> rfl

theorem reindentLine_of_blank (depth : Nat) {l : Text} (h : isBlankLine l) :
    reindentLine depth l = (depth, []) := by
  rw [reindentLine, (trim_eq_nil_iff l).2 h]

theorem reindentLine_trim (depth : Nat) (l : Text) :
    reindentLine depth l = reindentLine depth (trim l) := by
  rw [reindentLine, reindentLine, trim_trim]

theorem getLast?_respaced (l : Text) : (respaced l).getLast? = (trim l).getLast? := by
  cases hp : splitPoint l with
  | none => rw [respaced, hp]
  | some n =>
    obtain ⟨b, w, r, ht, -, -, -, -, -, hr⟩ := exists_split hp
    rw [hr, ht, List.append_cons, ← List.append_assoc, List.getLast?_append_of_ne_nil _ (by simp),
      List.getLast?_append_of_ne_nil _ (by simp)]

theorem reindentLine_keepsLineEnds : KeepsLineEnds reindentLine where
  blank depth l h := reindentLine_of_blank depth h
  ending depth l h := by
    have ht : trim l ≠ [] := fun e => h ((trim_eq_nil_iff l).1 e)
    have hlast := getLast?_respaced l
    have hne : respaced l ≠ [] := by
      intro e
      rw [e] at hlast
      exact ht (List.getLast?_eq_none_iff.1 hlast.symm)
    obtain ⟨depth', hline⟩ := reindentLine_of_visible depth ht
    rw [hline, List.getLast?_append_of_ne_nil _ hne, hlast]

/-- What is printed for a line is read as the line respaced. -/
theorem same_reindentLine {v : View} (hv : v.IgnoresMargins) {m : Lexer} (hm : m.AtLineStart)
    (depth : Nat) (l x : Text) :
    Same v (m.read ((reindentLine depth l).2 ++ x)) (m.read (respaced l ++ x)) := by
  by_cases h : trim l = []
  · rw [reindentLine_of_blank depth ((trim_eq_nil_iff l).1 h), respaced_of_blank h]
    exact .refl _
  · obtain ⟨depth', hline⟩ := reindentLine_of_visible depth h
    rw [hline, List.append_assoc]
    exact same_indent hv hm depth' _

/-- A line keeps the tokens that are looked at if it is split in no bad place. -/
theorem same_line {m : Lexer} {l : Text} (hm : m.AtLineStart) (hl : '\n' ∉ l)
    (hstring : (m.read l).2.inString = false) (hend : KeepsEnd m l)
    (hlit : KeepsLiteral m l ∨ ∀ x y, g x = g y) (depth : Nat) :
    Same ⟨visible, g⟩ (m.read (l ++ ['\n'])) (m.read ((reindentLine depth l).2 ++ ['\n'])) := by
  have hv : View.IgnoresMargins ⟨visible, g⟩ := visible_ignoresMargins
  refine (same_trim hv hm hl hstring).trans (Same.trans ?_ (same_reindentLine hv hm depth l _).symm)
  exact (same_respaced hl hend hlit).append_right _

/-! ## Lines that lose something -/

/-- A line split between a star and a slash loses the end of its comment. -/
theorem keepsEnd_of_tokens {m : Lexer} {l X Y : Text}
    (h : View.tokens ⟨visible, g⟩ (m.tokens (trim l ++ X)) =
      View.tokens ⟨visible, g⟩ (m.tokens (respaced l ++ Y))) : KeepsEnd m l := by
  intro n hp
  by_contra hafter
  obtain ⟨s, hstar⟩ := Lexer.eq_star_of_afterStar (eq_true_of_ne_false hafter)
  obtain ⟨b, w, r, ht, htake, -, hw, hb, -, hr⟩ := exists_split hp
  rw [htake] at hstar
  -- white space leads to no star, so the slashes stand right behind it
  have hlast := Lexer.last_of_step (· = .star s) Lexer.eq_star_of_step hstar (by simp [hb])
  have hw' : w = [] := by
    by_contra hne
    rw [List.getLast?_append_of_ne_nil _ hne] at hlast
    have hblank := List.all_eq_true.1 hw _ (List.mem_of_getLast? hlast)
    exact absurd hblank (by decide)
  subst hw'
  rw [List.append_nil] at hstar
  have hkept : m.tokens (trim l ++ X) =
      (m.read b).1 ++ .comment (s ++ ['/']) :: (Lexer.code []).tokens ('/' :: r ++ X) := by
    rw [ht, List.nil_append, List.append_assoc, Lexer.tokens_append, hstar]
    rfl
  obtain ⟨y, ts, hcomment⟩ :=
    Lexer.tokens_comment (.inl rfl) (s ++ [' '] ++ ['/'] ++ ['/']) (r ++ Y)
  have hlost : m.tokens (respaced l ++ Y) =
      (m.read b).1 ++ .comment (s ++ [' '] ++ ['/'] ++ ['/'] ++ y) :: ts := by
    rw [hr, List.append_assoc, Lexer.tokens_append, hstar, ← hcomment]
    rfl
  rw [hkept, hlost, View.tokens_append, View.tokens_append] at h
  have hhead := Token.comment.inj (List.cons.inj (List.append_cancel_left h)).1
  have hlength := congrArg List.length hhead
  have hone : (visible ['/']).length = 1 := rfl
  simp only [visible_append, List.length_append] at hlength
  omega

theorem read_inString_split {q : Lexer} (hq : q.inString) :
    ∃ s, ∀ w, isBlankLine w → q.read (w ++ ['/', '/']) = ([], .string (s ++ w ++ ['/', '/'])) := by
  cases q with
  | string s =>
    refine ⟨s, fun w hw => ?_⟩
    rw [Lexer.read_append, Lexer.read_string_blank hw]
    simp [Lexer.read_cons, Lexer.step]
  | escape s =>
    refine ⟨s, fun w hw => ?_⟩
    rw [← List.singleton_append (l := ['/']), ← List.append_assoc, Lexer.read_append,
      read_escape_blank hw]
    simp [Lexer.read_cons, Lexer.step]
  | _ => cases hq

/-- A line split in a literal loses the white space that stands there. -/
theorem keepsLiteral_of_tokens {m : Lexer} {l X Y : Text}
    (hclosed : (m.read (trim l)).2.inString = false)
    (h : View.tokens ⟨visible, id⟩ (m.tokens (trim l ++ X)) =
      View.tokens ⟨visible, id⟩ (m.tokens (respaced l ++ Y))) : KeepsLiteral m l := by
  intro n hp hstring
  obtain ⟨b, w, r, ht, htake, hgap, hw, -, -, hr⟩ := exists_split hp
  rw [hgap]
  rw [htake, Lexer.read_append] at hstring
  obtain ⟨s, hread⟩ := read_inString_split (Lexer.inString_of_read_blank hw hstring)
  have hspace := hread [' '] rfl
  have hwhite := hread w hw
  -- the literal ends in the rest of the line
  have hrest : ((Lexer.string (s ++ w ++ ['/', '/'])).read r).2.inString = false := by
    rw [ht, Lexer.read_append, ← List.singleton_append (l := '/' :: r),
      ← List.singleton_append (l := r), ← List.append_assoc, ← List.append_assoc,
      Lexer.read_append, List.append_assoc] at hclosed
    rw [List.singleton_append, hwhite] at hclosed
    exact hclosed
  obtain ⟨c, d, rfl, hliteral⟩ := Lexer.exists_literal (.inl rfl) hrest
  have split : ∀ (v Z : Text), isBlankLine v →
      m.tokens (b ++ (v ++ '/' :: '/' :: (c ++ d)) ++ Z) =
        (m.read b).1 ++ .string (s ++ v ++ ['/', '/'] ++ c) :: (Lexer.code []).tokens (d ++ Z) := by
    intro v Z hv
    have e : b ++ (v ++ '/' :: '/' :: (c ++ d)) ++ Z =
        b ++ ((v ++ ['/', '/']) ++ (c ++ (d ++ Z))) := by
      simp
    rw [e, Lexer.tokens_append, Lexer.tokens_append, hread v hv, Lexer.tokens_append, hliteral]
    rfl
  rw [ht, hr, split w X hw, ← List.singleton_append (l := '/' :: '/' :: (c ++ d)),
    split [' '] Y rfl, View.tokens_append, View.tokens_append] at h
  have hhead := (List.cons.inj (List.append_cancel_left h)).1
  have hspaces : w ++ '/' :: '/' :: c = [' '] ++ '/' :: '/' :: c := by
    simpa [View.token] using hhead
  exact List.append_cancel_right hspaces

/-- A line whose tokens are kept, with something behind it, is split in no bad place. -/
theorem keeps_of_tokens {m : Lexer} {l X Y : Text} (hm : m.AtLineStart) (hl : '\n' ∉ l)
    (hstring : (m.read l).2.inString = false)
    (h : View.tokens ⟨visible, id⟩ (m.tokens (trim l ++ X)) =
      View.tokens ⟨visible, id⟩ (m.tokens (respaced l ++ Y))) :
    KeepsEnd m l ∧ KeepsLiteral m l :=
  ⟨keepsEnd_of_tokens h,
    keepsLiteral_of_tokens (inString_trim (visible_ignoresMargins (g := id)) hm hl hstring) h⟩

theorem eachLine_of_tokens {ls : List Text} (hls : ∀ l ∈ ls, '\n' ∉ l) (depth : Nat) {m m' : Lexer}
    (hm : m.AtLineStart) (hmm : Agree ⟨visible, id⟩ m m') {rest : Text}
    (hc : m.closes (terminated ls ++ rest))
    (h : View.tokens ⟨visible, id⟩ (m.tokens (terminated ls)) =
      View.tokens ⟨visible, id⟩ (m'.tokens (terminated (threaded reindentLine depth ls)))) :
    EachLine (fun m l => KeepsEnd m l ∧ KeepsLiteral m l) m ls := by
  induction ls generalizing depth m m' with
  | nil => trivial
  | cons l ls ih =>
    have hv : View.IgnoresMargins ⟨visible, id⟩ := visible_ignoresMargins
    have hl := hls l (by simp)
    obtain ⟨hstring, hstart, hrest⟩ := Lexer.closes_first hl hc
    rw [terminated_line, threaded_cons, terminated_line] at h
    have hin := (same_trim hv hm hl hstring).tokens_append (terminated ls)
    have hout := (same_reindentLine hv hm depth l ['\n']).tokens_append
      (terminated (threaded reindentLine (reindentLine depth l).1 ls))
    have hkeeps : KeepsEnd m l ∧ KeepsLiteral m l := by
      refine keeps_of_tokens hm hl hstring (X := ['\n'] ++ terminated ls)
        (Y := ['\n'] ++ terminated (threaded reindentLine (reindentLine depth l).1 ls)) ?_
      rw [← List.append_assoc, ← List.append_assoc, ← hin, ← hout, h, hmm.tokens]
    have hline := (same_line hm hl hstring hkeeps.1 (.inl hkeeps.2) depth).trans (hmm.read _)
    rw [Lexer.tokens_append, Lexer.tokens_append, View.tokens_append, View.tokens_append,
      hline.tokens] at h
    exact ⟨hkeeps, ih (fun l' hl' => hls l' (by simp [hl'])) _ hstart hline.lexer hrest
      (List.append_cancel_left h)⟩

theorem keeps_of_blank {l : Text} (h : isBlankLine l) (m : Lexer) :
    KeepsEnd m l ∧ KeepsLiteral m l := by
  have hp : splitPoint l = none := by
    unfold splitPoint
    rw [(trim_eq_nil_iff l).2 h]
    rfl
  constructor
  · intro n hn; rw [hp] at hn; cases hn
  · intro n hn; rw [hp] at hn; cases hn

/-! ## Whole texts -/

theorem tokens_reindent {P : Lexer → Text → Prop} (hend : ∀ {m l}, P m l → KeepsEnd m l)
    (hlit : ∀ {m l}, P m l → KeepsLiteral m l ∨ ∀ x y, g x = g y) {s : Text} (h : Closed s)
    (hP : EachLine P (.code []) (splitOn '\n' s)) :
    View.tokens ⟨visible, g⟩ (tokens (reindent s)) = View.tokens ⟨visible, g⟩ (tokens s) := by
  rw [reindent, threaded_lines reindentLine reindentLine_trim]
  exact tokens_unlines_threaded reindentLine_keepsLineEnds (I := fun _ _ => True)
    (fun depth m l _ hm hl hstring hp =>
      ⟨same_line hm hl hstring (hend hp) (hlit hp) depth, trivial⟩) trivial h hP

theorem eachLine_of_tokens_reindent {s : Text} (h : Closed s)
    (htokens : View.tokens ⟨visible, id⟩ (tokens (reindent s)) =
      View.tokens ⟨visible, id⟩ (tokens s)) :
    EachLine (fun m l => KeepsEnd m l ∧ KeepsLiteral m l) (.code []) (splitOn '\n' s) := by
  obtain ⟨ls, bs, hls, hbs, hout⟩ := reindentLine_keepsLineEnds.unlines_threaded 0 (splitOn '\n' s)
  have hread := tokens_of_blank_tail h hls hbs
  have hclose := closes_lines h
  rw [hls, terminated_append] at hclose
  rw [hls, eachLine_append]
  refine ⟨?_, eachLine_of_forall (fun l hl => keeps_of_blank (hbs l hl)) _⟩
  rcases hout with hout | ⟨rfl, -⟩
  · have hin : (Lexer.code []).tokens (terminated ls) = tokens s := by
      rw [Lexer.tokens, hread]
      simp [Lexer.finish, wordToken]
    refine eachLine_of_tokens (fun l hl => ?_) 0 (.inl rfl) (.refl _) hclose ?_
    · exact not_mem_of_mem_splitOn l (hls ▸ List.mem_append_left bs hl)
    · rw [hin, ← htokens, reindent, threaded_lines reindentLine reindentLine_trim, hout]
      rfl
  · trivial

/-- Indenting line by line keeps the tokens of a closed text, up to white space in comments, if and
only if no line is split in the end of a comment or in a literal. If none is split in the end of a
comment, it keeps the literals if and only if none is split in a literal. -/
theorem literals_reindent_iff (s : Text) (h : Closed s) :
    (View.tokens ⟨visible, id⟩ (tokens (reindent s)) = View.tokens ⟨visible, id⟩ (tokens s) ↔
      EachLine KeepsEnd (.code []) (splitOn '\n' s) ∧
        EachLine KeepsLiteral (.code []) (splitOn '\n' s)) ∧
    (EachLine KeepsEnd (.code []) (splitOn '\n' s) →
      (literals (reindent s) = literals s ↔
        EachLine KeepsLiteral (.code []) (splitOn '\n' s))) := by
  have hiff : View.tokens ⟨visible, id⟩ (tokens (reindent s)) =
      View.tokens ⟨visible, id⟩ (tokens s) ↔
        EachLine KeepsEnd (.code []) (splitOn '\n' s) ∧
          EachLine KeepsLiteral (.code []) (splitOn '\n' s) := by
    rw [← eachLine_and]
    exact ⟨eachLine_of_tokens_reindent h, tokens_reindent And.left (fun hp => .inl hp.2) h⟩
  refine ⟨hiff, fun hend => ⟨fun hlit => ?_, fun hlit => ?_⟩⟩
  · have hshape := tokens_reindent (g := fun _ => []) (fun hp => hp) (fun _ => .inr fun _ _ => rfl)
      h hend
    exact (hiff.1 (View.tokens_eq hshape hlit)).2
  · exact View.literals_eq (hiff.2 ⟨hend, hlit⟩)

/-- A space in the end of a comment makes it go on, so that the literal behind it is no more. -/
example :
    let s := lit "1, /* a *///c\n\"b\""
    Closed s ∧ literals (reindent s) = [] ∧ literals s = [lit "\"b\""] := by decide

/-- A line is split in a literal here, but where one space stands already. -/
theorem literals_reindent_of_quote :
    let s := lit "\x7b\n\"a\": 1,// one\n/* 5\" */ \"b //c\": \"http://x\"\n\x7d"
    Closed s ∧ EachLine KeepsEnd (.code []) (splitOn '\n' s) ∧
      EachLine KeepsLiteral (.code []) (splitOn '\n' s) ∧ literals (reindent s) = literals s := by
  intro s
  have hclosed : Closed s := by decide
  have hend : EachLine KeepsEnd (.code []) (splitOn '\n' s) := by decide
  have hlit : EachLine KeepsLiteral (.code []) (splitOn '\n' s) := by decide
  exact ⟨hclosed, hend, hlit, ((literals_reindent_iff s hclosed).2 hend).2 hlit⟩

/-- The quote in the comment lets the search find a comment in the address. -/
theorem literals_reindent_ne :
    let s := lit "\x7b\n\"a\": 1, /* 5\" */ \"url\": \"http://x\"\n\x7d"
    Closed s ∧ literals (reindent s) ≠ literals s := by decide

end

end ConfigCare.Jsonc
