import ConfigCare.Proofs.TomlSpacing

/-! Formatting a formatted YAML or TOML text changes nothing. What a line formatter prints is read
again as the lines it printed, with one empty line behind them; a rule that leaves its own lines as
they are prints them once more and the blank line not at all. -/

namespace ConfigCare.Format

open Text

/-- A rule that leaves the lines it prints as they are, and prints no line break. -/
structure Abides (fix : Text → Text) : Prop extends Tidies fix where
  again : ∀ l, fix (fix (trimEnd l)) = fix (trimEnd l)
  oneLine : ∀ l, '\n' ∉ l → '\n' ∉ fix l

variable {fix : Text → Text}

theorem Tidies.getLast?_fix (h : Tidies fix) (l : Text) :
    ∀ c ∈ (fix (trimEnd l)).getLast?, isBlank c = false := by
  by_cases hl : isBlankLine l
  · simp [h.blank l hl]
  · obtain ⟨b, c, heq, hc⟩ := h.visible l hl
    simp [heq, hc]

theorem Abides.again_trimmed (h : Abides fix) (l : Text) :
    fix (trimEnd (fix (trimEnd l))) = fix (trimEnd l) := by
  rw [trimEnd_eq_self (h.getLast?_fix l), h.again]

/-- The lines that are printed are printed again, and nothing for the empty line behind them. -/
theorem Abides.printedFrom_printedFrom (h : Abides fix) (gap : Bool) (ls : List Text) :
    printedFrom fix false (printedFrom fix gap ls ++ [[]]) = printedFrom fix gap ls := by
  induction ls generalizing gap with
  | nil => rfl
  | cons l ls ih =>
    by_cases hl : isBlankLine l
    · rw [printedFrom_blank hl]
      exact ih true
    · have hline : ¬ isBlankLine (fix (trimEnd l)) := mt (h.isBlankLine_iff l).1 hl
      have hagain (gap : Bool) :
          printedFrom fix gap (fix (trimEnd l) :: (printedFrom fix false ls ++ [[]])) =
            (if gap then [[]] else []) ++ fix (trimEnd l) :: printedFrom fix false ls := by
        rw [printedFrom_line hline, h.again_trimmed, ih]
      rw [printedFrom_line hl]
      cases gap with
      | false => exact hagain false
      | true => exact (printedFrom_blank rfl false _).trans (hagain true)

theorem Abides.lines_printed (h : Abides fix) {ls : List Text} (hls : ∀ l ∈ ls, '\n' ∉ l) :
    lines (terminated (printedFrom fix false ls)) = printedFrom fix false ls ++ [[]] := by
  refine Toml.lines_terminated fun k hk => ?_
  rcases mem_printedFrom hk with rfl | ⟨l, hl, -, rfl⟩
  · exact ⟨by simp, by simp⟩
  · refine ⟨h.oneLine _ (Toml.notMem_trimEnd (hls l hl)), fun hlast => ?_⟩
    exact absurd (h.getLast?_fix l _ hlast) (by decide)

theorem Abides.normalize_normalize (h : Abides fix) (s : Text) :
    normalize fix (normalize fix s) = normalize fix s := by
  have hls := Toml.newline_notMem_lines s
  have hlines := h.lines_printed hls
  have hprinted := h.printedFrom_printedFrom false (lines s)
  simp only [h.normalize_eq]
  by_cases hnil : printedFrom fix false (lines s) = []
  · -- a text without a visible character is printed as one line feed
    rw [if_pos hnil]
    rfl
  · rw [if_neg hnil, hlines, hprinted, if_neg hnil]

/-! ## The rules -/

theorem abides_id : Abides id where
  blank l hl := (trimEnd_eq_nil_iff l).2 hl
  visible l hl := by
    rcases List.eq_nil_or_concat (trimEnd l) with hnil | ⟨b, c, heq⟩
    · refine absurd ?_ hl
      have := visible_trimEnd l
      rw [hnil] at this
      simpa [visible, isBlankLine] using this.symm
    · rw [List.concat_eq_append] at heq
      exact ⟨b, c, heq, getLast?_trimEnd l c (by simp [heq])⟩
  again _ := rfl
  oneLine _ hl := hl

/-- The key of the spaced line is a key again. -/
theorem IsKey.spaced {k : Text} (h : IsKey k) : IsKey (trimEnd k ++ [' ']) where
  noSign := by
    have := Toml.notMem_trimEnd h.noSign
    simp [this]
  ne_nil := by simp
  noMark := by
    have hspace : visible [' '] = [] := by decide
    rw [visible_append, visible_trimEnd, hspace, List.append_nil]
    exact h.noMark

theorem spacedAssignment_spacedAssignment (l : Text) :
    spacedAssignment (spacedAssignment l) = spacedAssignment l := by
  obtain h | ⟨k, v, rfl, hk⟩ := spacedAssignment_eq_self_or l
  · rw [h, h]
  · -- the spaced line has a key and a value again
    have hkey : trimEnd (trimEnd k ++ [' ']) = trimEnd k := by
      rw [trimEnd_append (by decide), trimEnd_eq_self (getLast?_trimEnd k)]
    have hvalue : trimStart (trimEnd (' ' :: trimStart v)) = trimEnd (trimStart v) := by
      obtain ⟨a, ha, hv⟩ := exists_trimStart v
      have hspace : trimStart (' ' :: trimStart v) = trimStart v := by
        have hstart := trimStart_append ha (trimStart v)
        rw [← hv] at hstart
        exact (trimStart_append (a := [' ']) rfl _).trans hstart.symm
      rw [trimStart_trimEnd, trim, hspace]
    rw [spacedAssignment_of_isKey hk, trimEnd_spaced, spacedAssignment_of_isKey hk.spaced, hkey,
      hvalue, trimEnd_append_trimEnd, trimEnd_spaced]

theorem abides_spacedAssignment : Abides spacedAssignment where
  toTidies := Toml.tidies_spacedAssignment
  again l := spacedAssignment_spacedAssignment (trimEnd l)
  oneLine _ := Toml.newline_notMem_spacedAssignment

/-- A formatted YAML or TOML text stays as it is. -/
theorem normalizers_idempotent (s : Text) :
    normalizeYaml (normalizeYaml s) = normalizeYaml s ∧
      normalizeToml (normalizeToml s) = normalizeToml s :=
  ⟨abides_id.normalize_normalize s, abides_spacedAssignment.normalize_normalize s⟩

end ConfigCare.Format
