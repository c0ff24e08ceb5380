import ConfigCare.Format.Document
import ConfigCare.Proofs.NormalizedLines
import ConfigCare.Proofs.TomlSpacing

/-! A text and the same text with a carriage return in front of every line feed. The line formatters
and the guess at comments make nothing of the returns: the lines come apart as they do without, and
no mark that they look for has white space in it. -/

namespace ConfigCare

namespace Text

/-- The text with `\r\n` for every line feed, and with every return that it has of its own. -/
def withReturns (s : Text) : Text := replace ['\n'] ['\r', '\n'] s

@[simp] theorem withReturns_nil : withReturns [] = [] := rfl

@[simp] theorem withReturns_break (s : Text) :
    withReturns ('\n' :: s) = '\r' :: '\n' :: withReturns s := rfl

theorem withReturns_cons {c : Char} (h : c ≠ '\n') (s : Text) :
    withReturns (c :: s) = c :: withReturns s := by
  have hstart : ¬ startsWith ['\n'] (c :: s) := by
    simp [startsWith, dropStart?, Ne.symm h]
  exact if_neg hstart

theorem withReturns_append {p : Text} (h : '\n' ∉ p) (s : Text) :
    withReturns (p ++ s) = p ++ withReturns s := by
  induction p with
  | nil => rfl
  | cons c p ih =>
    rw [List.mem_cons, not_or] at h
    rw [List.cons_append, withReturns_cons (Ne.symm h.1), ih h.2, List.cons_append]

/-- No line feed comes first, so a return in front of it is no part of a break. -/
theorem head?_withReturns (s : Text) : (withReturns s).head? ≠ some '\n' := by
  cases s with
  | nil => simp
  | cons c s =>
    by_cases hc : c = '\n'
    · simp [hc]
    · simp [withReturns_cons hc, hc]

/-- Whatever comes behind a character that is not a return came behind it before. -/
theorem withReturns_eq_cons {c : Char} (hc : c ≠ '\r') {s r : Text} (h : withReturns s = c :: r) :
    ∃ t, s = c :: t ∧ withReturns t = r := by
  cases s with
  | nil => cases h
  | cons d s =>
    by_cases hd : d = '\n'
    · subst hd
      cases h
      exact absurd rfl hc
    · rw [withReturns_cons hd] at h
      cases h
      exact ⟨s, rfl, rfl⟩

theorem startsWith_withReturns {p : Text} (hp : p.all fun c => !isBlank c) (s : Text) :
    startsWith p (withReturns s) = startsWith p s := by
  induction p generalizing s with
  | nil => cases s <;> rfl
  | cons c p ih =>
    simp only [List.all_cons, Bool.and_eq_true, Bool.not_eq_true'] at hp
    have hne : ∀ d, isBlank d → c ≠ d := fun d hd => Ne.symm (Jsonc.Lexer.ne_of_isBlank hd hp.1)
    cases s with
    | nil => rfl
    | cons d s =>
      by_cases hd : d = '\n'
      · subst hd
        simp [startsWith, dropStart?, hne '\r' (by decide), hne '\n' (by decide)]
      · have hs := ih hp.2 s
        simp only [startsWith] at hs
        by_cases hcd : c = d <;> simp [withReturns_cons hd, startsWith, dropStart?, hcd, hs]

/-! ## Lines -/

theorem unifyBreaks_withReturns (s : Text) : Toml.unifyBreaks (withReturns s) = s := by
  induction s with
  | nil => rfl
  | cons c s ih =>
    by_cases hc : c = '\n'
    · subst hc
      rw [withReturns_break, Toml.unifyBreaks_return, ih]
    · rw [withReturns_cons hc, Toml.unifyBreaks_cons fun _ => head?_withReturns s, ih]

theorem lines_withReturns (s : Text) : lines (withReturns s) = splitOn '\n' s := by
  rw [Toml.lines_eq, unifyBreaks_withReturns]

theorem exists_dropReturn (l : Text) : ∃ b, isBlankLine b ∧ l = dropReturn l ++ b := by
  unfold dropReturn
  split
  · next r heq => exact ⟨['\r'], rfl, by simpa using congrArg List.reverse heq⟩
  · exact ⟨[], rfl, (List.append_nil l).symm⟩

theorem trimEnd_dropReturn (l : Text) : trimEnd (dropReturn l) = trimEnd l := by
  obtain ⟨b, hb, heq⟩ := exists_dropReturn l
  conv_rhs => rw [heq, trimEnd_append hb]

/-- A function that makes nothing of a return at the end sees the same lines in both texts. -/
theorem map_lines {β : Type} {f : Text → β} (hf : ∀ l, f (dropReturn l) = f l) (s : Text) :
    (lines s).map f = (splitOn '\n' s).map f := by
  have hdrop : f ∘ dropReturn = f := funext hf
  rw [lines, dropReturns, List.map_append, List.map_map, hdrop, ← List.map_append,
    List.dropLast_eq_take, List.take_append_drop]

theorem map_lines_withReturns {β : Type} {f : Text → β} (hf : ∀ l, f (dropReturn l) = f l)
    (s : Text) : (lines (withReturns s)).map f = (lines s).map f := by
  rw [lines_withReturns, map_lines hf]

end Text

open Text

namespace Jsonc

/-! ## The guess at comments -/

theorem startsWith_append_blank {p b : Text} (hp : p.all fun c => !isBlank c) (hb : isBlankLine b)
    (x : Text) : Text.startsWith p (x ++ b) = Text.startsWith p x := by
  induction p generalizing x with
  | nil => cases x <;> rfl
  | cons c p ih =>
    simp only [List.all_cons, Bool.and_eq_true, Bool.not_eq_true'] at hp
    cases x with
    | nil =>
      cases b with
      | nil => rfl
      | cons d b =>
        have hne : c ≠ d := Ne.symm (Lexer.ne_of_isBlank (isBlankLine_cons.1 hb).1 hp.1)
        simp [Text.startsWith, dropStart?, hne]
    | cons d x =>
      have hx := ih hp.2 x
      simp only [Text.startsWith] at hx
      by_cases hcd : c = d <;> simp [Text.startsWith, dropStart?, hcd, hx]

/-- A mark at the start of a line does not reach into the return at its end. -/
theorem startsWith_trimStart_dropReturn {p : Text} (hp : p.all fun c => !isBlank c) (l : Text) :
    Text.startsWith p (trimStart (dropReturn l)) = Text.startsWith p (trimStart l) := by
  have htrim : ∀ l, Text.startsWith p (trimStart l) = Text.startsWith p (trim l) := by
    intro l
    obtain ⟨b, hb, hl⟩ := exists_trimEnd (trimStart l)
    conv_lhs => rw [hl, startsWith_append_blank hp hb]
    rfl
  rw [htrim, htrim, trim_dropReturn]

theorem hasInlineMark_withReturns (s : Text) : hasInlineMark (withReturns s) = hasInlineMark s := by
  induction s with
  | nil => rfl
  | cons c s ih =>
    have hmark : Text.startsWith lineComment (withReturns s) = Text.startsWith lineComment s :=
      startsWith_withReturns (by decide) s
    by_cases hc : c = '\n'
    · subst hc
      have hreturn : Text.startsWith lineComment ('\n' :: withReturns s) = false := rfl
      simp [hasInlineMark, hmark, hreturn, ih]
    · rw [withReturns_cons hc]
      simp only [hasInlineMark, hmark, ih]

theorem occursIn_withReturns {p : Text} (hp : p.all fun c => !isBlank c) (hne : p ≠ []) (s : Text) :
    Text.occursIn p (withReturns s) = Text.occursIn p s := by
  induction s with
  | nil => rfl
  | cons c s ih =>
    have hstart := startsWith_withReturns hp (c :: s)
    by_cases hc : c = '\n'
    · -- the return that is added starts no occurrence either
      subst hc
      have hreturn : Text.startsWith p ('\r' :: '\n' :: withReturns s) =
          Text.startsWith p ('\n' :: withReturns s) := by
        obtain ⟨d, p, rfl⟩ := List.exists_cons_of_ne_nil hne
        have hd : isBlank d = false := by simpa using (List.all_eq_true.1 hp d (by simp))
        have hblank : ∀ c, isBlank c → d ≠ c := fun c hc => Ne.symm (Lexer.ne_of_isBlank hc hd)
        simp [Text.startsWith, dropStart?, hblank '\r' (by decide), hblank '\n' (by decide)]
      rw [withReturns_break] at hstart ⊢
      rw [Text.occursIn, Text.occursIn, Text.occursIn, ← hreturn, hstart, ih, ← Bool.or_assoc,
        Bool.or_self]
    · rw [withReturns_cons hc] at hstart ⊢
      rw [Text.occursIn, Text.occursIn, hstart, ih]

/-- Whether a text looks commented does not depend on the returns in its breaks. -/
theorem looksCommented_withReturns (s : Text) :
    looksCommented (withReturns s) = looksCommented s := by
  have hlines : (splitOn '\n' (withReturns s)).map
        (fun l => Text.startsWith lineComment (trimStart l)) =
      (splitOn '\n' s).map fun l => Text.startsWith lineComment (trimStart l) := by
    rw [← map_lines (startsWith_trimStart_dropReturn (by decide)), lines_withReturns]
  have hany := congrArg (List.any · id) hlines
  simp only [List.any_map] at hany
  unfold looksCommented
  rw [occursIn_withReturns (by decide) (by decide), hasInlineMark_withReturns]
  exact congrArg (· || _ || _) hany

/-! ## The line formatters -/

theorem indented_withReturns (strict : Bool) (s : Text) :
    Format.indented strict (withReturns s) = Format.indented strict s := by
  cases strict with
  | false =>
    simp only [Format.indented, reindent, Bool.false_eq_true, if_false]
    rw [lines_withReturns, threaded_lines _ reindentLine_trim]
  | true =>
    simp only [Format.indented, reindentNested, if_true]
    rw [lines_withReturns, threaded_lines _ nestLine_trim]

end Jsonc

namespace Format

theorem normalize_withReturns (fix : Text → Text) (s : Text) :
    normalize fix (withReturns s) = normalize fix s := by
  have hlines := map_lines_withReturns (f := fun l => fix (trimEnd l))
    (fun l => congrArg fix (trimEnd_dropReturn l)) s
  rw [normalize, hlines, normalize]

end Format

end ConfigCare
