import ConfigCare.Proofs.NormalizedAgain

/-! What the line formatters do to the blank lines of a text. Its lines, trimmed at their ends, are
visible lines with a number of blank ones in front of each, and a number of them behind the
last. What is printed are the same lines, each by the rule of the format, with one blank line where there
were some, and none at the end. -/

namespace ConfigCare.Format

open Text

/-- Visible lines, each with the number of blank lines in front of it, and the blank lines at the end. -/
structure Spread where
  body : List (Nat × Text)
  tail : Nat

namespace Spread

def lines (p : Spread) : List Text :=
  p.body.flatMap (fun b => List.replicate b.1 [] ++ [b.2]) ++ List.replicate p.tail []

/-- One blank line for any number of them, none at the end, and every line by a rule. -/
def thinned (fix : Text → Text) (p : Spread) : Spread := ⟨p.body.map fun b => (min b.1 1, fix b.2), 0⟩

/-- The lines of a text, trimmed at their ends, are spread like this. -/
structure Of (p : Spread) (s : Text) : Prop where
  lines_eq : p.lines = (Text.lines s).map trimEnd
  visible : ∀ b ∈ p.body, ¬ isBlankLine b.2

theorem lines_cons (n : Nat) (l : Text) (body : List (Nat × Text)) (tail : Nat) :
    lines ⟨(n, l) :: body, tail⟩ = List.replicate n [] ++ l :: lines ⟨body, tail⟩ := by
  simp [lines]

/-- A blank line in front of all others. -/
theorem exists_lines_nil_cons (p : Spread) :
    ∃ q : Spread, q.lines = [] :: p.lines ∧ ((∀ b ∈ p.body, ¬ isBlankLine b.2) →
      ∀ b ∈ q.body, ¬ isBlankLine b.2) := by
  obtain ⟨body, tail⟩ := p
  cases body with
  | nil => exact ⟨⟨[], tail + 1⟩, rfl, id⟩
  | cons b body =>
    refine ⟨⟨(b.1 + 1, b.2) :: body, tail⟩, ?_, fun h => ?_⟩
    · rw [lines_cons, lines_cons]
      rfl
    · rw [List.forall_mem_cons] at h ⊢
      exact h

theorem exists_of (s : Text) : ∃ p : Spread, p.Of s := by
  suffices h : ∀ ls : List Text, ∃ p : Spread, p.lines = ls.map trimEnd ∧
      ∀ b ∈ p.body, ¬ isBlankLine b.2 by
    obtain ⟨p, hlines, hvisible⟩ := h (Text.lines s)
    exact ⟨p, hlines, hvisible⟩
  intro ls
  induction ls with
  | nil => exact ⟨⟨[], 0⟩, rfl, by simp⟩
  | cons l ls ih =>
    obtain ⟨p, hlines, hvisible⟩ := ih
    rw [List.map_cons, ← hlines]
    by_cases hl : isBlankLine l
    · obtain ⟨q, hq, hkeeps⟩ := p.exists_lines_nil_cons
      have hnil : trimEnd l = [] := abides_id.blank l hl
      rw [hnil]
      exact ⟨q, hq, hkeeps hvisible⟩
    · refine ⟨⟨(0, trimEnd l) :: p.body, p.tail⟩, lines_cons 0 _ _ _, ?_⟩
      exact List.forall_mem_cons.2 ⟨mt (abides_id.isBlankLine_iff l).1 hl, hvisible⟩

/-- Every line is trimmed at its end. -/
theorem Of.trimEnd_eq {p : Spread} {s : Text} (h : p.Of s) : ∀ b ∈ p.body, trimEnd b.2 = b.2 := by
  intro b hb
  have hmem : b.2 ∈ (Text.lines s).map trimEnd := by
    rw [← h.lines_eq, lines, List.mem_append, List.mem_flatMap]
    exact .inl ⟨b, hb, by simp⟩
  obtain ⟨l, -, hl⟩ := List.mem_map.1 hmem
  rw [← hl]
  exact trimEnd_eq_self (getLast?_trimEnd l)

end Spread

variable {fix : Text → Text}

/-! ## Lines that are printed -/

theorem printedFrom_map_trimEnd (gap : Bool) (ls : List Text) :
    printedFrom fix gap (ls.map trimEnd) = printedFrom fix gap ls := by
  induction ls generalizing gap with
  | nil => rfl
  | cons l ls ih =>
    have hiff : isBlankLine (trimEnd l) ↔ isBlankLine l := abides_id.isBlankLine_iff l
    rw [List.map_cons]
    by_cases hl : isBlankLine l
    · rw [printedFrom_blank hl, printedFrom_blank (hiff.2 hl), ih]
    · rw [printedFrom_line hl, printedFrom_line (mt hiff.1 hl), ih,
        trimEnd_eq_self (getLast?_trimEnd l)]

theorem printedFrom_replicate (gap : Bool) (n : Nat) (ls : List Text) :
    printedFrom fix gap (List.replicate n [] ++ ls) = printedFrom fix (gap || 0 < n) ls := by
  induction n generalizing gap with
  | zero => simp
  | succ n ih =>
    rw [List.replicate_succ, List.cons_append, printedFrom_blank rfl, ih]
    simp

/-- The blank lines in front of a line leave one, and those at the end none. -/
theorem printedFrom_lines {p : Spread} (hvisible : ∀ b ∈ p.body, ¬ isBlankLine b.2)
    (htrimmed : ∀ b ∈ p.body, trimEnd b.2 = b.2) :
    printedFrom fix false p.lines = (p.thinned fix).lines := by
  obtain ⟨body, tail⟩ := p
  induction body with
  | nil =>
    have h : printedFrom fix false (List.replicate tail [] ++ []) = _ :=
      printedFrom_replicate false tail []
    rwa [List.append_nil] at h
  | cons b body ih =>
    rw [List.forall_mem_cons] at hvisible htrimmed
    have hgap : (if 0 < b.1 then [[]] else []) = List.replicate (min b.1 1) ([] : Text) := by
      rcases b.1 with - | n <;> simp
    rw [Spread.lines_cons, printedFrom_replicate, printedFrom_line hvisible.1, htrimmed.1,
      ih hvisible.2 htrimmed.2]
    simp [Spread.thinned, Spread.lines_cons, hgap]

/-- What is printed for lines that are spread like this: the thinned lines, each with its line feed, or
one line feed alone. -/
structure PrintsThinned (fix : Text → Text) (p : Spread) (out : Text) : Prop where
  visible : ∀ b ∈ p.body, ¬ isBlankLine (fix b.2)
  nothing : p.body = [] → out = ['\n']
  text : p.body ≠ [] → out = terminated (p.thinned fix).lines
  lines : p.body ≠ [] → Text.lines out = (p.thinned fix).lines ++ [[]]
  /-- One line feed stands at the end and not another in front of it. -/
  ending : p.body ≠ [] → ∃ t c, out = t ++ [c, '\n'] ∧ isBlank c = false

theorem Abides.printsThinned (h : Abides fix) {p : Spread} {s : Text} (hp : p.Of s) :
    PrintsThinned fix p (normalize fix s) := by
  have hprinted : printedFrom fix false (lines s) = (p.thinned fix).lines := by
    rw [← printedFrom_map_trimEnd, ← hp.lines_eq, printedFrom_lines hp.visible hp.trimEnd_eq]
  have hls := Toml.newline_notMem_lines s
  have hlines := h.lines_printed hls
  have hlast := @Tidies.last_printed _ h.toTidies false (lines s)
  have hnil : (p.thinned fix).lines = [] ↔ p.body = [] := by
    obtain ⟨body, tail⟩ := p
    cases body with
    | nil => exact iff_of_true rfl rfl
    | cons b body => exact iff_of_false (by simp [Spread.thinned, Spread.lines_cons]) (by simp)
  rw [hprinted] at hlines hlast
  rw [h.normalize_eq, hprinted]
  refine ⟨fun b hb => ?_, fun hbody => ?_, fun hbody => ?_, fun hbody => ?_, fun hbody => ?_⟩
  · have hiff := h.isBlankLine_iff b.2
    rw [hp.trimEnd_eq b hb] at hiff
    exact mt hiff.1 (hp.visible b hb)
  · rw [if_pos (hnil.2 hbody)]
  · rw [if_neg (mt hnil.1 hbody)]
  · rw [if_neg (mt hnil.1 hbody), hlines]
  · obtain ⟨front, b, c, heq, hc⟩ := hlast (mt hnil.1 hbody)
    refine ⟨terminated front ++ b, c, ?_, hc⟩
    rw [if_neg (mt hnil.1 hbody), heq, terminated_append, terminated_cons, terminated_nil]
    simp

/-- The line formatters keep every visible line and thin out the blank ones. -/
theorem normalizers_thin_blank_lines (s : Text) :
    ∃ p : Spread, p.Of s ∧ PrintsThinned id p (normalizeYaml s) ∧
      PrintsThinned spacedAssignment p (normalizeToml s) := by
  obtain ⟨p, hp⟩ := Spread.exists_of s
  exact ⟨p, hp, abides_id.printsThinned hp, abides_spacedAssignment.printsThinned hp⟩

end ConfigCare.Format
