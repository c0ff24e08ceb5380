import Mathlib.Data.List.Basic
import Mathlib.Tactic.Common
import ConfigCare.Text.Lines

/-! White space at the ends of a line, and a text as its physical lines, each with its line feed.
A formatter that goes through the lines of a text and looks at each one trimmed sees the same lines
whether or not carriage returns are taken off, and what it prints is again one line after another. -/

namespace ConfigCare.Text

/-! ## Margins -/

theorem dropWhile_append_of_all {p : Char → Bool} {a : Text} (h : a.all p) (b : Text) :
    (a ++ b).dropWhile p = b.dropWhile p := by
  induction a with
  | nil => rfl
  | cons c cs ih =>
    simp only [List.all_cons, Bool.and_eq_true] at h
    rw [List.cons_append, List.dropWhile_cons_of_pos h.1, ih h.2]

theorem isBlankLine_cons {c : Char} {cs : Text} :
    isBlankLine (c :: cs) ↔ isBlank c ∧ isBlankLine cs := by
  simp [isBlankLine]

theorem isBlankLine_append (a b : Text) :
    isBlankLine (a ++ b) = (isBlankLine a && isBlankLine b) := by
  simp [isBlankLine]

theorem isBlankLine_reverse (a : Text) : isBlankLine a.reverse = isBlankLine a := by
  simp [isBlankLine]

theorem trimStart_append {a : Text} (h : isBlankLine a) (s : Text) :
    trimStart (a ++ s) = trimStart s :=
  dropWhile_append_of_all h s

theorem trimEnd_append {b : Text} (h : isBlankLine b) (s : Text) :
    trimEnd (s ++ b) = trimEnd s := by
  unfold trimEnd
  rw [List.reverse_append, dropWhile_append_of_all (by rwa [← isBlankLine_reverse] at h)]

/-- A text is its trimmed start and the white space in front of it. -/
theorem exists_trimStart (s : Text) : ∃ a, isBlankLine a ∧ s = a ++ trimStart s :=
  ⟨s.takeWhile isBlank, List.all_takeWhile, List.takeWhile_append_dropWhile.symm⟩

theorem exists_trimEnd (s : Text) : ∃ b, isBlankLine b ∧ s = trimEnd s ++ b := by
  obtain ⟨a, ha, h⟩ := exists_trimStart s.reverse
  refine ⟨a.reverse, by rwa [isBlankLine_reverse], ?_⟩
  have := congrArg List.reverse h
  simpa [trimEnd, trimStart] using this

theorem exists_margins (s : Text) :
    ∃ a b, isBlankLine a ∧ isBlankLine b ∧ s = a ++ (trim s ++ b) := by
  obtain ⟨a, ha, h⟩ := exists_trimStart s
  obtain ⟨b, hb, h'⟩ := exists_trimEnd (trimStart s)
  exact ⟨a, b, ha, hb, h.trans (congrArg (a ++ ·) h')⟩

theorem trimEnd_eq_self {s : Text} (h : ∀ c ∈ s.getLast?, isBlank c = false) : trimEnd s = s := by
  unfold trimEnd
  cases hr : s.reverse with
  | nil => simpa using (List.reverse_eq_nil_iff.1 hr).symm
  | cons c cs =>
    have hc : isBlank c = false := h c (by simp [← List.head?_reverse, hr])
    rw [List.dropWhile_cons_of_neg (by simp [hc]), ← hr, List.reverse_reverse]

theorem trimStart_eq_self {c : Char} {cs : Text} (h : isBlank c = false) :
    trimStart (c :: cs) = c :: cs :=
  List.dropWhile_cons_of_neg (by simp [h])

theorem getLast?_trimEnd (s : Text) : ∀ c ∈ (trimEnd s).getLast?, isBlank c = false := by
  intro c hc
  rw [trimEnd, List.getLast?_reverse] at hc
  have := List.head?_dropWhile_not isBlank s.reverse
  rw [Option.mem_def.1 hc] at this
  simpa using this

theorem trimStart_cons {s : Text} {c : Char} {cs : Text} (h : trimStart s = c :: cs) :
    isBlank c = false := by
  have := List.head?_dropWhile_not isBlank s
  rw [show s.dropWhile isBlank = c :: cs from h] at this
  simpa using this

/-- A trimmed text starts with a visible character. -/
theorem trim_cons {s : Text} {c : Char} {cs : Text} (h : trim s = c :: cs) : isBlank c = false := by
  obtain ⟨b, hb, hs⟩ := exists_trimEnd (trimStart s)
  rw [show trimEnd (trimStart s) = c :: cs from h] at hs
  exact trimStart_cons hs

theorem trim_eq_nil_iff (s : Text) : trim s = [] ↔ isBlankLine s := by
  constructor
  · intro h
    obtain ⟨a, b, ha, hb, hs⟩ := exists_margins s
    rw [hs, h, isBlankLine_append, ha, List.nil_append, hb]; rfl
  · intro h
    rw [trim, ← List.append_nil s, trimStart_append h]; rfl

theorem trimEnd_eq_nil_iff (s : Text) : trimEnd s = [] ↔ isBlankLine s := by
  constructor
  · intro h
    obtain ⟨b, hb, hs⟩ := exists_trimEnd s
    rwa [hs, h]
  · intro h
    rw [← List.nil_append s, trimEnd_append h]
    rfl

theorem trim_append {a b : Text} (ha : isBlankLine a) (hb : isBlankLine b) (s : Text) :
    trim (a ++ (s ++ b)) = trim s := by
  rw [trim, trimStart_append ha]
  obtain ⟨w, hw, hs⟩ := exists_trimStart s
  cases h : trimStart s with
  | nil =>
    rw [h, List.append_nil] at hs
    have hblank : isBlankLine (s ++ b) := by rw [isBlankLine_append, hs, hw, hb]; rfl
    rw [trim, h, ← List.append_nil (s ++ b), trimStart_append hblank]; rfl
  | cons c cs =>
    have hc : isBlank c = false := trimStart_cons h
    rw [hs, List.append_assoc, trimStart_append hw, h, List.cons_append, trimStart_eq_self hc,
      ← List.cons_append, trimEnd_append hb, trim, trimStart_append hw, trimStart_eq_self hc]

theorem trim_trim (s : Text) : trim (trim s) = trim s := by
  obtain ⟨a, b, ha, hb, hs⟩ := exists_margins s
  conv_rhs => rw [hs, trim_append ha hb]

theorem trimStart_trimEnd (s : Text) : trimStart (trimEnd s) = trim s := by
  obtain ⟨b, hb, hs⟩ := exists_trimEnd s
  obtain ⟨a, -, ha⟩ := exists_trimStart (trimEnd s)
  have hlast : ∀ c ∈ (trimStart (trimEnd s)).getLast?, isBlank c = false := by
    intro c hc
    refine getLast?_trimEnd s c ?_
    rw [ha]
    exact List.mem_getLast?_append_of_mem_getLast? hc
  calc trimStart (trimEnd s) = trim (trimEnd s) := (trimEnd_eq_self hlast).symm
    _ = trim (trimEnd s ++ b) := (trim_append (a := []) rfl hb _).symm
    _ = trim s := by rw [← hs]

theorem trimEnd_append_trimEnd (a b : Text) : trimEnd (a ++ trimEnd b) = trimEnd (a ++ b) := by
  obtain ⟨w, hw, hb⟩ := exists_trimEnd b
  conv_rhs => rw [hb, ← List.append_assoc, trimEnd_append hw]

theorem trimStart_append_self {x : Text} (hx : trimStart x = x) (a : Text) :
    trimStart (a ++ x) = trimStart a ++ x := by
  rw [trimStart, List.dropWhile_append]
  split
  · next h =>
    rw [show trimStart a = [] from List.isEmpty_iff.1 h]
    exact hx
  · rfl

/-- Only the white space in front of the first visible character is trimmed. -/
theorem trimStart_append_of_visible {a : Text} (ha : ¬ isBlankLine a) (s : Text) :
    trimStart (a ++ s) = trimStart a ++ s := by
  have hne : ¬ (trimStart a).isEmpty = true := by
    intro hnil
    obtain ⟨w, hw, heq⟩ := exists_trimStart a
    rw [List.isEmpty_iff.1 hnil, List.append_nil] at heq
    exact ha (heq ▸ hw)
  rw [trimStart, List.dropWhile_append]
  exact if_neg hne

theorem getLast?_trimStart {s : Text} {c : Char} (hs : s.getLast? = some c)
    (hc : isBlank c = false) : (trimStart s).getLast? = some c := by
  obtain ⟨a, ha, heq⟩ := exists_trimStart s
  rw [heq, List.getLast?_append] at hs
  cases hlast : (trimStart s).getLast? with
  | some d => rwa [hlast] at hs
  | none =>
    rw [hlast, Option.none_or] at hs
    rw [List.all_eq_true.1 ha c (List.mem_of_getLast? hs)] at hc
    cases hc

theorem trimEnd_append_self {x : Text} (hx : ∀ c ∈ x.getLast?, isBlank c = false) (b : Text) :
    trimEnd (x ++ b) = x ++ trimEnd b := by
  have hreverse : trimStart x.reverse = x.reverse := by
    simpa [trimEnd, trimStart] using congrArg List.reverse (trimEnd_eq_self hx)
  rw [trimEnd, List.reverse_append, ← trimStart, trimStart_append_self hreverse, List.reverse_append,
    List.reverse_reverse]
  rfl

/-- Trimming a line leaves what is visible at its ends where it is. -/
theorem trim_append_self {w : Text} (hw : trim w = w) (hne : w ≠ []) (a b : Text) :
    trim (a ++ (w ++ b)) = trimStart a ++ (w ++ trimEnd b) := by
  obtain ⟨c, cs, rfl⟩ := List.exists_cons_of_ne_nil hne
  have hstart : trimStart (c :: (cs ++ b)) = c :: (cs ++ b) := trimStart_eq_self (trim_cons hw)
  have hend : ∀ d ∈ (trimStart a ++ c :: cs).getLast?, isBlank d = false := by
    rw [List.getLast?_append_of_ne_nil _ (List.cons_ne_nil c cs), ← hw]
    exact getLast?_trimEnd _
  rw [trim, List.cons_append, trimStart_append_self hstart, ← List.cons_append, ← List.append_assoc,
    trimEnd_append_self hend, List.append_assoc]

theorem mem_of_mem_trim {s : Text} {c : Char} (h : c ∈ trim s) : c ∈ s := by
  obtain ⟨a, b, -, -, hs⟩ := exists_margins s
  rw [hs]
  simp [h]

theorem trim_dropReturn (l : Text) : trim (dropReturn l) = trim l := by
  unfold dropReturn
  split
  · next r hr =>
    have hl : l = r.reverse ++ ['\r'] := by simpa using congrArg List.reverse hr
    rw [hl, show r.reverse ++ ['\r'] = [] ++ (r.reverse ++ ['\r']) from rfl,
      trim_append (by decide) (by decide)]
  · rfl

theorem visible_eq_nil {s : Text} (h : isBlankLine s) : visible s = [] := by
  rw [visible, List.filter_eq_nil_iff]
  intro c hc
  simpa using List.all_eq_true.1 h c hc

/-! ## Lines -/

theorem splitOn_go_eq_singleton {sep : Char} {s : Text} (h : sep ∉ s) (piece : Text) :
    splitOn.go sep piece s = [piece.reverse ++ s] := by
  induction s generalizing piece with
  | nil => simp [splitOn.go]
  | cons c cs ih =>
    have hc : c ≠ sep := fun e => h (by simp [e])
    rw [splitOn.go, if_neg hc, ih fun hm => h (List.mem_cons_of_mem _ hm)]
    simp

theorem splitOn_go_append (sep : Char) (piece a b : Text) :
    splitOn.go sep piece (a ++ sep :: b) = splitOn.go sep piece a ++ splitOn sep b := by
  induction a generalizing piece with
  | nil => simp [splitOn.go, splitOn]
  | cons c cs ih =>
    by_cases hc : c = sep
    · simp [splitOn.go, hc, ih]
    · simp [splitOn.go, hc, ih]

theorem splitOn_append (sep : Char) (a b : Text) :
    splitOn sep (a ++ sep :: b) = splitOn sep a ++ splitOn sep b :=
  splitOn_go_append sep [] a b

theorem not_mem_of_mem_splitOn {sep : Char} {s : Text} : ∀ l ∈ splitOn sep s, sep ∉ l := by
  have go : ∀ s piece, sep ∉ piece → ∀ l ∈ splitOn.go sep piece s, sep ∉ l := by
    intro s
    induction s with
    | nil => intro piece hp l hl; simp_all [splitOn.go]
    | cons c cs ih =>
      intro piece hp l hl
      rw [splitOn.go] at hl
      split at hl
      · rcases List.mem_cons.1 hl with rfl | hl
        · simpa using hp
        · exact ih [] (by simp) l hl
      · next hc => exact ih (c :: piece) (by simp [hp, Ne.symm hc]) l hl
  exact go s [] (by simp)

/-- What is put behind a text without a separator belongs to its last piece. -/
theorem splitOn_append_tail {sep : Char} {b : Text} (hb : sep ∉ b) (s : Text) :
    ∃ ps l, splitOn sep s = ps ++ [l] ∧ splitOn sep (s ++ b) = ps ++ [l ++ b] := by
  have go : ∀ s piece, ∃ ps l, splitOn.go sep piece s = ps ++ [l] ∧
      splitOn.go sep piece (s ++ b) = ps ++ [l ++ b] := by
    intro s
    induction s with
    | nil => exact fun piece => ⟨[], piece.reverse, rfl, splitOn_go_eq_singleton hb piece⟩
    | cons c cs ih =>
      intro piece
      by_cases hc : c = sep
      · obtain ⟨ps, l, h, h'⟩ := ih []
        exact ⟨piece.reverse :: ps, l, by simp [splitOn.go, hc, h], by simp [splitOn.go, hc, h']⟩
      · obtain ⟨ps, l, h, h'⟩ := ih (c :: piece)
        exact ⟨ps, l, by simp [splitOn.go, hc, h], by simp [splitOn.go, hc, h']⟩
  exact go s []

theorem splitOn_go_head (sep : Char) (s : Text) :
    ∃ l ps, ∀ piece, splitOn.go sep piece s = (piece.reverse ++ l) :: ps := by
  induction s with
  | nil => exact ⟨[], [], fun piece => by simp [splitOn.go]⟩
  | cons c cs ih =>
    obtain ⟨l, ps, h⟩ := ih
    by_cases hc : c = sep
    · exact ⟨[], splitOn.go sep [] cs, fun piece => by simp [splitOn.go, hc]⟩
    · exact ⟨c :: l, ps, fun piece => by simp [splitOn.go, hc, h]⟩

theorem splitOn_append_head {sep : Char} {a : Text} (ha : sep ∉ a) (s : Text) :
    ∃ l ps, splitOn sep s = l :: ps ∧ splitOn sep (a ++ s) = (a ++ l) :: ps := by
  obtain ⟨l, ps, h⟩ := splitOn_go_head sep s
  have go : ∀ a piece, sep ∉ a →
      splitOn.go sep piece (a ++ s) = (piece.reverse ++ (a ++ l)) :: ps := by
    intro a
    induction a with
    | nil => exact fun piece _ => h piece
    | cons c cs ih =>
      intro piece hn
      rw [List.mem_cons, not_or] at hn
      simp [splitOn.go, Ne.symm hn.1, ih (c :: piece) hn.2]
  exact ⟨l, ps, h [], go a [] ha⟩

/-- A text with each of its lines trimmed. -/
def trimLines (s : Text) : Text := joinWith ['\n'] ((splitOn '\n' s).map trim)

theorem trimmed_splitOn_append (s : Text) {b : Text} (hb : isBlankLine b) (hn : '\n' ∉ b) :
    (splitOn '\n' (s ++ b)).map trim = (splitOn '\n' s).map trim := by
  obtain ⟨ps, l, h, h'⟩ := splitOn_append_tail hn s
  have hl : trim (l ++ b) = trim l := trim_append (a := []) rfl hb l
  rw [h, h']
  simp [hl]

theorem trimmed_splitOn_prepend {a : Text} (ha : isBlankLine a) (hn : '\n' ∉ a) (s : Text) :
    (splitOn '\n' (a ++ s)).map trim = (splitOn '\n' s).map trim := by
  obtain ⟨l, ps, h, h'⟩ := splitOn_append_head hn s
  have hl : trim (a ++ l) = trim l := by simpa using trim_append (b := []) ha rfl l
  rw [h, h']
  simp [hl]

/-- Lines as a text, each with its line feed. -/
def terminated (ls : List Text) : Text := ls.flatMap (· ++ ['\n'])

@[simp] theorem terminated_nil : terminated [] = [] := rfl

@[simp] theorem terminated_cons (l : Text) (ls : List Text) :
    terminated (l :: ls) = l ++ '\n' :: terminated ls := by
  simp [terminated]

theorem terminated_line (l : Text) (ls : List Text) :
    terminated (l :: ls) = (l ++ ['\n']) ++ terminated ls := by
  simp

@[simp] theorem terminated_append (ls ls' : List Text) :
    terminated (ls ++ ls') = terminated ls ++ terminated ls' := by
  simp [terminated]

theorem joinWith_terminated {ls : List Text} (h : ls ≠ []) :
    joinWith ['\n'] ls ++ ['\n'] = terminated ls := by
  induction ls with
  | nil => exact absurd rfl h
  | cons l ls ih =>
    cases ls with
    | nil => simp [joinWith]
    | cons l' ls => rw [joinWith_cons _ _ (by simp), List.append_assoc, ih (by simp)]; simp

/-- A text with a line feed at its end is its lines, one after another. -/
theorem terminated_splitOn (s : Text) : terminated (splitOn '\n' s) = s ++ ['\n'] := by
  rw [← joinWith_terminated (splitOn_ne_nil _ _), joinWith_splitOn]

/-- Lines, each with its line feed, are split off one by one. -/
theorem splitOn_terminated_append {ls : List Text} (hls : ∀ l ∈ ls, '\n' ∉ l) (s : Text) :
    splitOn '\n' (terminated ls ++ s) = ls ++ splitOn '\n' s := by
  induction ls with
  | nil => rfl
  | cons l ls ih =>
    rw [terminated_cons, List.append_assoc, List.cons_append, splitOn_append,
      ih fun k hk => hls k (by simp [hk]), splitOn, splitOn_go_eq_singleton (hls l (by simp))]
    rfl

variable {σ β : Type}

/-- A step that looks at the trimmed line only does not see carriage returns. -/
theorem threaded_lines (step : σ → Text → σ × β) (hstep : ∀ s l, step s l = step s (trim l))
    (s : σ) (t : Text) : threaded step s (lines t) = threaded step s (splitOn '\n' t) := by
  have congr : ∀ (f : Text → Text) (_ : ∀ l, trim (f l) = trim l) (ls rest : List Text) (s : σ),
      threaded step s (ls.map f ++ rest) = threaded step s (ls ++ rest) := by
    intro f hf ls rest
    induction ls with
    | nil => intro s; rfl
    | cons l ls ih =>
      intro s
      simp only [List.map_cons, List.cons_append, threaded_cons]
      rw [hstep s (f l), hf, ← hstep, ih]
  unfold lines dropReturns
  rw [congr _ trim_dropReturn, List.dropLast_eq_take, List.take_append_drop]

/-- The state that a list of steps leaves behind. -/
def threadedState (step : σ → Text → σ × β) (s : σ) : List Text → σ
  | [] => s
  | l :: ls => threadedState step (step s l).1 ls

theorem threaded_append (step : σ → Text → σ × β) (s : σ) (ls ls' : List Text) :
    threaded step s (ls ++ ls') =
      threaded step s ls ++ threaded step (threadedState step s ls) ls' := by
  induction ls generalizing s with
  | nil => rfl
  | cons l ls ih => simp [ih, threadedState]

theorem threadedState_append (step : σ → Text → σ × β) (s : σ) (ls ls' : List Text) :
    threadedState step s (ls ++ ls') = threadedState step (threadedState step s ls) ls' := by
  induction ls generalizing s with
  | nil => rfl
  | cons l ls ih => exact ih _

/-! ## Lines without the blank ones at the end -/

theorem exists_blank_tail (ls : List Text) :
    ∃ ls' bs, ls = ls' ++ bs ∧ (∀ b ∈ bs, isBlankLine b) ∧
      (ls' = [] ∨ ∃ front l, ls' = front ++ [l] ∧ ¬ isBlankLine l) := by
  induction ls with
  | nil => exact ⟨[], [], rfl, by simp, .inl rfl⟩
  | cons l ls ih =>
    obtain ⟨ls', bs, rfl, hbs, rfl | ⟨front, l', rfl, hl'⟩⟩ := ih
    · by_cases hl : isBlankLine l
      · exact ⟨[], l :: bs, rfl, by simpa [hl] using hbs, .inl rfl⟩
      · exact ⟨[l], bs, rfl, hbs, .inr ⟨[], l, rfl, hl⟩⟩
    · exact ⟨l :: (front ++ [l']), bs, rfl, hbs, .inr ⟨l :: front, l', rfl, hl'⟩⟩

theorem joinWith_concat (ls : List Text) (l : Text) :
    joinWith ['\n'] (ls ++ [l]) = terminated ls ++ l := by
  have : joinWith ['\n'] (ls ++ [l]) ++ ['\n'] = terminated (ls ++ [l]) :=
    joinWith_terminated (by simp)
  rw [terminated_append, terminated_cons, terminated_nil, ← List.singleton_append (l := []),
    List.append_nil, ← List.append_assoc] at this
  exact List.append_cancel_right this

theorem terminated_nils (k : Nat) : terminated (List.replicate k []) = List.replicate k '\n' := by
  simp [terminated, List.flatMap_replicate]

theorem dropLastBreaks_append_breaks (s : Text) (k : Nat) :
    dropLastBreaks (s ++ List.replicate k '\n') = dropLastBreaks s := by
  unfold dropLastBreaks
  rw [List.reverse_append, dropWhile_append_of_all (by simp)]

theorem dropLastBreaks_eq_self {s : Text} (h : ∀ c ∈ s.getLast?, c ≠ '\n') :
    dropLastBreaks s = s := by
  unfold dropLastBreaks
  cases hr : s.reverse with
  | nil => simpa using (List.reverse_eq_nil_iff.1 hr).symm
  | cons c cs =>
    have hc : c ≠ '\n' := h c (by simp [← List.head?_reverse, hr])
    rw [List.dropWhile_cons_of_neg (by simpa using hc), ← hr, List.reverse_reverse]

theorem unlines_nils (k : Nat) : unlines (List.replicate k []) = ['\n'] := by
  cases k with
  | zero => rfl
  | succ k =>
    rw [unlines, List.replicate_succ', joinWith_concat, terminated_nils, List.append_nil,
      ← List.nil_append (List.replicate k '\n'), dropLastBreaks_append_breaks]
    rfl

theorem unlines_append_nils {ls : List Text} (h : ls ≠ []) (k : Nat) :
    unlines (ls ++ List.replicate k []) = unlines ls := by
  have : joinWith ['\n'] (ls ++ List.replicate k []) =
      joinWith ['\n'] ls ++ List.replicate k '\n' := by
    refine List.append_cancel_right (?_ : _ ++ ['\n'] = _ ++ ['\n'])
    rw [joinWith_terminated (by simp [h]), terminated_append, terminated_nils,
      ← joinWith_terminated h, List.append_assoc, List.append_assoc, ← List.replicate_succ',
      List.singleton_append, ← List.replicate_succ]
  rw [unlines, this, dropLastBreaks_append_breaks, unlines]

theorem unlines_concat (ls : List Text) {l : Text} (hl : l ≠ [])
    (hlast : ∀ c ∈ l.getLast?, c ≠ '\n') : unlines (ls ++ [l]) = terminated (ls ++ [l]) := by
  rw [unlines, dropLastBreaks_eq_self, joinWith_terminated (by simp)]
  rw [joinWith_concat, List.getLast?_append_of_ne_nil _ hl]
  exact hlast

/-- A step that leaves blank lines empty and ends every other line as it ended before. -/
structure KeepsLineEnds (step : σ → Text → σ × Text) : Prop where
  blank : ∀ s l, isBlankLine l → step s l = (s, [])
  ending : ∀ s l, ¬ isBlankLine l → (step s l).2.getLast? = (trim l).getLast?

theorem KeepsLineEnds.threaded_blank {step : σ → Text → σ × Text} (h : KeepsLineEnds step) (s : σ)
    {bs : List Text} (hbs : ∀ b ∈ bs, isBlankLine b) :
    threaded step s bs = List.replicate bs.length [] := by
  induction bs with
  | nil => rfl
  | cons b bs ih =>
    rw [threaded_cons, h.blank s b (hbs b (by simp)), ih fun b' hb' => hbs b' (by simp [hb'])]
    rfl

/-- What a step prints is its lines one after another, less the blank lines at the end; of a text
with no other lines, one line feed is left. -/
theorem KeepsLineEnds.unlines_threaded {step : σ → Text → σ × Text} (h : KeepsLineEnds step)
    (s : σ) (ls : List Text) :
    ∃ ls' bs, ls = ls' ++ bs ∧ (∀ b ∈ bs, isBlankLine b) ∧
      (unlines (threaded step s ls) = terminated (threaded step s ls') ∨
        ls' = [] ∧ unlines (threaded step s ls) = ['\n']) := by
  obtain ⟨ls', bs, rfl, hbs, hls'⟩ := exists_blank_tail ls
  refine ⟨ls', bs, rfl, hbs, ?_⟩
  rw [threaded_append, h.threaded_blank _ hbs]
  rcases hls' with rfl | ⟨front, l, rfl, hl⟩
  · exact .inr ⟨rfl, unlines_nils bs.length⟩
  · left
    have hend := h.ending (threadedState step s front) l hl
    rw [unlines_append_nils (by simp [threaded_append]), threaded_append]
    refine unlines_concat _ ?_ ?_
    · intro e
      rw [e] at hend
      exact hl ((trim_eq_nil_iff l).1 (List.getLast?_eq_none_iff.1 hend.symm))
    · intro c hc e
      rw [hend] at hc
      have := getLast?_trimEnd (trimStart l) c hc
      simp [e, isBlank] at this

end ConfigCare.Text
