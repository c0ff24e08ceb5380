import ConfigCare.Proofs.Settled
import ConfigCare.Proofs.Visible

/-! The line formatters print the lines that are not blank, each by a rule of its own, and one blank
line for each run of them that more lines follow. -/

namespace ConfigCare.Format

open Text

/-- Whether lines from here on stay, with a blank line in front of them or without. -/
def thinnedFrom : Bool → List Text → List Text
  | _, [] => []
  | gap, l :: ls =>
    if isBlankLine l then
      if gap then thinnedFrom true ls else l :: thinnedFrom true ls
    else l :: thinnedFrom false ls

theorem foldl_collapseStep (gap : Bool) (done ls : List Text) :
    (ls.foldl collapseStep (gap, done)).2.reverse = done.reverse ++ thinnedFrom gap ls := by
  induction ls generalizing gap done with
  | nil => simp [thinnedFrom]
  | cons l ls ih =>
    rw [List.foldl_cons]
    by_cases hl : isBlankLine l
    · cases gap <;> simp [collapseStep, thinnedFrom, hl, ih]
    · simp [collapseStep, thinnedFrom, hl, ih]

theorem collapseBlankLines_eq (ls : List Text) : collapseBlankLines ls = thinnedFrom false ls :=
  foldl_collapseStep false [] ls

/-- A rule for trimmed lines by which blank lines become empty, and no other line ends in white
space. -/
structure Tidies (fix : Text → Text) : Prop where
  blank : ∀ l, isBlankLine l → fix (trimEnd l) = []
  visible : ∀ l, ¬ isBlankLine l → ∃ b c, fix (trimEnd l) = b ++ [c] ∧ isBlank c = false

/-- The lines that are printed for those from here on; `gap` says whether the last one was blank. -/
def printedFrom (fix : Text → Text) : Bool → List Text → List Text
  | _, [] => []
  | gap, l :: ls =>
    if isBlankLine l then printedFrom fix true ls
    else (if gap then [[]] else []) ++ fix (trimEnd l) :: printedFrom fix false ls

variable {fix : Text → Text}

theorem printedFrom_blank {l : Text} (hl : isBlankLine l) (gap : Bool) (ls : List Text) :
    printedFrom fix gap (l :: ls) = printedFrom fix true ls :=
  if_pos hl

theorem printedFrom_line {l : Text} (hl : ¬ isBlankLine l) (gap : Bool) (ls : List Text) :
    printedFrom fix gap (l :: ls) =
      (if gap then [[]] else []) ++ fix (trimEnd l) :: printedFrom fix false ls :=
  if_neg hl

theorem printedFrom_eq_nil_iff {gap : Bool} {ls : List Text} :
    printedFrom fix gap ls = [] ↔ ∀ l ∈ ls, isBlankLine l := by
  induction ls generalizing gap with
  | nil => simp [printedFrom]
  | cons l ls ih =>
    by_cases hl : isBlankLine l
    · rw [printedFrom_blank hl, ih, List.forall_mem_cons]
      exact (and_iff_right hl).symm
    · rw [printedFrom_line hl]
      exact iff_of_false (by simp) fun h => hl (h l List.mem_cons_self)

theorem mem_printedFrom {gap : Bool} {ls : List Text} {k : Text} (hk : k ∈ printedFrom fix gap ls) :
    k = [] ∨ ∃ l ∈ ls, ¬ isBlankLine l ∧ k = fix (trimEnd l) := by
  induction ls generalizing gap with
  | nil => cases hk
  | cons l ls ih =>
    have hlater {gap : Bool} (hk : k ∈ printedFrom fix gap ls) :
        k = [] ∨ ∃ m ∈ l :: ls, ¬ isBlankLine m ∧ k = fix (trimEnd m) :=
      (ih hk).imp_right fun ⟨m, hm, h⟩ => ⟨m, List.mem_cons_of_mem l hm, h⟩
    by_cases hl : isBlankLine l
    · rw [printedFrom_blank hl] at hk
      exact hlater hk
    · rw [printedFrom_line hl, List.mem_append, List.mem_cons] at hk
      rcases hk with hk | rfl | hk
      · cases gap
        · cases hk
        · exact .inl (List.mem_singleton.1 hk)
      · exact .inr ⟨l, List.mem_cons_self, hl, rfl⟩
      · exact hlater hk

theorem Tidies.isBlankLine_iff (h : Tidies fix) (l : Text) :
    isBlankLine (fix (trimEnd l)) ↔ isBlankLine l := by
  by_cases hl : isBlankLine l
  · exact iff_of_true (by rw [h.blank l hl]; rfl) hl
  · obtain ⟨b, c, heq, hc⟩ := h.visible l hl
    exact iff_of_false (by simp [heq, isBlankLine, hc]) hl

/-- What stays of the lines is what is printed, and perhaps a blank line at the end. -/
theorem Tidies.thinnedFrom_map (h : Tidies fix) (ls : List Text) :
    (∃ e, (e = [] ∨ e = [[]]) ∧
      thinnedFrom false (ls.map fun l => fix (trimEnd l)) = printedFrom fix false ls ++ e) ∧
    ∃ e, (e = [] ∨ e = [[]]) ∧
      [] :: thinnedFrom true (ls.map fun l => fix (trimEnd l)) = printedFrom fix true ls ++ e := by
  induction ls with
  | nil => exact ⟨⟨[], .inl rfl, rfl⟩, ⟨[[]], .inr rfl, rfl⟩⟩
  | cons l ls ih =>
    obtain ⟨⟨e, he, heq⟩, ⟨e', he', heq'⟩⟩ := ih
    have hiff := h.isBlankLine_iff l
    by_cases hl : isBlankLine l
    · refine ⟨⟨e', he', ?_⟩, ⟨e', he', ?_⟩⟩
      · rw [printedFrom_blank hl, ← heq', List.map_cons, thinnedFrom, if_pos (hiff.2 hl),
          h.blank l hl]
        rfl
      · rw [printedFrom_blank hl, ← heq', List.map_cons, thinnedFrom, if_pos (hiff.2 hl)]
        rfl
    · have hl' : ¬ isBlankLine (fix (trimEnd l)) := fun h => hl (hiff.1 h)
      refine ⟨⟨e, he, ?_⟩, ⟨e, he, ?_⟩⟩
      · rw [printedFrom_line hl, List.map_cons, thinnedFrom, if_neg hl', heq]
        rfl
      · rw [printedFrom_line hl, List.map_cons, thinnedFrom, if_neg hl', heq]
        rfl

/-- The last line that is printed ends in a visible character. -/
theorem Tidies.last_printed (h : Tidies fix) {gap : Bool} {ls : List Text}
    (hne : printedFrom fix gap ls ≠ []) :
    ∃ front b c, printedFrom fix gap ls = front ++ [b ++ [c]] ∧ isBlank c = false := by
  induction ls generalizing gap with
  | nil => exact absurd rfl hne
  | cons l ls ih =>
    by_cases hl : isBlankLine l
    · rw [printedFrom_blank hl] at hne ⊢
      exact ih hne
    · rw [printedFrom_line hl]
      by_cases hls : printedFrom fix false ls = []
      · obtain ⟨b, c, heq, hc⟩ := h.visible l hl
        rw [hls, heq]
        exact ⟨_, b, c, rfl, hc⟩
      · obtain ⟨front, b, c, heq, hc⟩ := ih hls
        exact ⟨(if gap then [[]] else []) ++ fix (trimEnd l) :: front, b, c, by simp [heq], hc⟩

theorem withBreak_of_break (s : Text) : withBreak (s ++ ['\n']) = s ++ ['\n'] := by
  simp [withBreak, endsWithAny]

theorem withBreak_of_visible {s : Text} {c : Char} (hc : isBlank c = false) :
    withBreak (s ++ [c]) = s ++ [c] ++ ['\n'] := by
  have hne : c ≠ '\n' := by rintro rfl; cases hc
  simp [withBreak, endsWithAny, hne]

/-- What a line formatter prints. -/
theorem Tidies.normalize_eq (h : Tidies fix) (s : Text) :
    normalize fix s =
      if printedFrom fix false (lines s) = [] then ['\n']
      else terminated (printedFrom fix false (lines s)) := by
  obtain ⟨⟨e, he, heq⟩, -⟩ := h.thinnedFrom_map (lines s)
  rw [normalize, collapseBlankLines_eq, heq]
  split
  · next hnil =>
    rw [hnil]
    rcases he with rfl | rfl <;> rfl
  · next hne =>
    rcases he with rfl | rfl
    · obtain ⟨front, b, c, hlast, hc⟩ := h.last_printed hne
      rw [List.append_nil, ← joinWith_terminated hne, hlast, joinWith_concat, ← List.append_assoc,
        withBreak_of_visible hc]
    · rw [joinWith_concat, List.append_nil, ← joinWith_terminated hne, withBreak_of_break]

end ConfigCare.Format
