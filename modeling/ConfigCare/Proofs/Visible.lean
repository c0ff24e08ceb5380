import Mathlib.Data.List.TakeWhile
import ConfigCare.Format.Spacing
import ConfigCare.Jsonc.Nesting
import ConfigCare.Proofs.Margins

/-! The formatters that do not parse lay out white space only: what is left of a text without white
space is left of each of their outputs. Each of them goes through the lines of the text, so it
suffices that no line loses or gains a visible character; line breaks are white space themselves. -/

namespace ConfigCare

namespace Text

theorem visible_joinWith (ls : List Text) : visible (joinWith ['\n'] ls) = ls.flatMap visible := by
  induction ls with
  | nil => rfl
  | cons l ls ih =>
    cases ls with
    | nil => simp [joinWith]
    | cons l' ls =>
      rw [joinWith_cons _ _ (by simp), visible_append, visible_append, ih]
      simp [show visible ['\n'] = [] by decide]

theorem visible_splitOn (s : Text) : (splitOn '\n' s).flatMap visible = visible s := by
  rw [← visible_joinWith, joinWith_splitOn]

theorem visible_dropReturn (l : Text) : visible (dropReturn l) = visible l := by
  rw [← visible_trim (dropReturn l), trim_dropReturn, visible_trim]

theorem visible_lines (s : Text) : (lines s).flatMap visible = visible s := by
  rw [lines, dropReturns, List.flatMap_append, List.flatMap_map]
  simp only [visible_dropReturn]
  rw [← List.flatMap_append, List.dropLast_eq_take, List.take_append_drop, visible_splitOn]

theorem visible_dropLastBreaks (s : Text) : visible (dropLastBreaks s) = visible s := by
  have drop : ∀ t : Text, visible (t.dropWhile (· == '\n')) = visible t := by
    intro t
    induction t with
    | nil => rfl
    | cons c cs ih =>
      by_cases hc : c = '\n'
      · rw [List.dropWhile_cons_of_pos (by simpa using hc), ih, hc]; rfl
      · rw [List.dropWhile_cons_of_neg (by simpa using hc)]
  rw [dropLastBreaks, visible_reverse, drop, visible_reverse, List.reverse_reverse]

theorem visible_unlines (ls : List Text) : visible (unlines ls) = ls.flatMap visible := by
  rw [unlines, visible_append, visible_dropLastBreaks, visible_joinWith]
  simp [show visible ['\n'] = [] by decide]

/-- Going through the lines keeps what every step keeps. -/
theorem visible_threaded {σ : Type} {step : σ → Text → σ × Text}
    (h : ∀ s l, visible (step s l).2 = visible l) (s : σ) (ls : List Text) :
    (threaded step s ls).flatMap visible = ls.flatMap visible := by
  induction ls generalizing s with
  | nil => rfl
  | cons l ls ih => rw [threaded_cons, List.flatMap_cons, List.flatMap_cons, h, ih]

end Text

namespace Jsonc

open Text

theorem visible_indent (depth : Nat) : visible (indent depth) = [] :=
  visible_eq_nil (by simp [isBlankLine, indent, show isBlank ' ' = true by decide])

theorem visible_spaced (code comment : Text) :
    visible (spaced code (some comment)) = visible code ++ visible comment := by
  have h := visible_trim code
  unfold spaced
  cases ht : trim code with
  | nil => rw [← h, ht]; rfl
  | cons c cs =>
    simp only
    rw [visible_append, ← ht, h, ← List.singleton_append, visible_append,
      show visible [' '] = [] by decide, List.nil_append]

theorem visible_splitComment (l : Text) :
    visible (spaced (splitComment l).1 (splitComment l).2) = visible l := by
  unfold splitComment
  cases commentFrom .code 0 l with
  | none => rfl
  | some n => simp only [visible_spaced, ← visible_append, List.take_append_drop]

theorem visible_spacedAt (l : Text) (start : Option Nat) : visible (spacedAt l start) = visible l := by
  rcases start with - | - | n
  · rfl
  · rfl
  · simp only [spacedAt, visible_spaced, ← visible_append, List.take_append_drop]

theorem visible_reindentLine (depth : Nat) (l : Text) :
    visible (reindentLine depth l).2 = visible l := by
  rw [← visible_trim l]
  unfold reindentLine
  cases trim l with
  | nil => rfl
  | cons c cs =>
    simp only
    split
    · rw [visible_append, visible_indent, List.nil_append]
    · rw [visible_append, visible_indent, List.nil_append, visible_splitComment]

theorem visible_nestLine (s : Nesting) (l : Text) : visible (nestLine s l).2 = visible l := by
  rw [← visible_trim l]
  unfold nestLine
  cases trim l with
  | nil => rfl
  | cons c cs => simp only [visible_append, visible_indent, visible_spacedAt, List.nil_append]

theorem visible_reindent (s : Text) : visible (reindent s) = visible s := by
  rw [reindent, visible_unlines, visible_threaded visible_reindentLine, visible_lines]

theorem visible_reindentNested (s : Text) : visible (reindentNested s) = visible s := by
  rw [reindentNested, visible_unlines, visible_threaded visible_nestLine, visible_lines]

end Jsonc

namespace Format

open Text

theorem visible_collapseStep (s : Bool × List Text) (l : Text) :
    (collapseStep s l).2.reverse.flatMap visible = s.2.reverse.flatMap visible ++ visible l := by
  simp only [collapseStep]
  split
  · next h =>
    simp only [Bool.and_eq_true] at h
    rw [visible_eq_nil h.1, List.append_nil]
  · simp

/-- Only blank lines are left out. -/
theorem visible_collapseBlankLines (ls : List Text) :
    (collapseBlankLines ls).flatMap visible = ls.flatMap visible := by
  have run : ∀ (ls : List Text) (s : Bool × List Text),
      (ls.foldl collapseStep s).2.reverse.flatMap visible =
        s.2.reverse.flatMap visible ++ ls.flatMap visible := by
    intro ls
    induction ls with
    | nil => intro s; simp
    | cons l ls ih =>
      intro s
      rw [List.foldl_cons, ih, visible_collapseStep, List.append_assoc, List.flatMap_cons]
  simpa [collapseBlankLines] using run ls (false, [])

theorem visible_normalize {fix : Text → Text} (hfix : ∀ l, visible (fix l) = visible l)
    (s : Text) : visible (normalize fix s) = visible s := by
  have hbreak : ∀ t, visible (withBreak t) = visible t := by
    intro t
    unfold withBreak
    split
    · rfl
    · rw [visible_append, show visible ['\n'] = [] by decide, List.append_nil]
  rw [normalize, hbreak, visible_joinWith, visible_collapseBlankLines, List.flatMap_map]
  simp only [hfix, visible_trimEnd]
  exact visible_lines s

theorem isComment_iff (l : Text) :
    startsWith ['#'] (trimStart l) ↔ (visible l).head? = some '#' := by
  have hhead : (visible l).head? = (trimStart l).head? := by
    simp [visible, trimStart, List.head?_filter, List.find?_eq_head?_dropWhile_not]
  rw [hhead, startsWith_iff]
  constructor
  · rintro ⟨r, hr⟩
    rw [← hr]
    rfl
  · intro h
    obtain ⟨r, hr⟩ := List.head?_eq_some_iff.1 h
    exact ⟨r, hr.symm⟩

/-- The sign is no comment mark, so the key alone says whether the line is a comment. -/
theorem isComment_assignment_iff (k v : Text) :
    startsWith ['#'] (trimStart (k ++ '=' :: v)) ↔ (visible k).head? = some '#' := by
  rw [isComment_iff, visible_append]
  cases visible k with
  | nil => simp [visible, show isBlank '=' = false by decide]
  | cons c cs => simp

/-- What stands in front of the first equals sign of a line that is spaced. -/
structure IsKey (k : Text) : Prop where
  noSign : '=' ∉ k
  ne_nil : k ≠ []
  noMark : (visible k).head? ≠ some '#'

instance (k : Text) : Decidable (IsKey k) :=
  decidable_of_iff ('=' ∉ k ∧ k ≠ [] ∧ (visible k).head? ≠ some '#')
    ⟨fun h => ⟨h.1, h.2.1, h.2.2⟩, fun h => ⟨h.noSign, h.ne_nil, h.noMark⟩⟩

theorem takeWhile_noSign {k : Text} (hk : '=' ∉ k) : k.takeWhile (· ≠ '=') = k :=
  List.takeWhile_eq_self_iff.2 fun c hc => decide_eq_true fun h : c = '=' => hk (h ▸ hc)

theorem takeWhile_sign {k : Text} (hk : '=' ∉ k) (v : Text) :
    (k ++ '=' :: v).takeWhile (· ≠ '=') = k := by
  rw [List.takeWhile_append, takeWhile_noSign hk]
  simp

theorem dropWhile_sign {k : Text} (hk : '=' ∉ k) (v : Text) :
    (k ++ '=' :: v).dropWhile (· ≠ '=') = '=' :: v := by
  have hall := List.takeWhile_append_dropWhile (p := (· ≠ '=')) (l := k ++ '=' :: v)
  rw [takeWhile_sign hk] at hall
  exact List.append_cancel_left hall

theorem spacedAssignment_append {k : Text} (hk : '=' ∉ k) (v : Text) :
    (IsKey k ∧ spacedAssignment (k ++ '=' :: v) =
      trimEnd (trimEnd k ++ Text.lit " = " ++ trimStart v)) ∨
    (¬ IsKey k ∧ spacedAssignment (k ++ '=' :: v) = k ++ '=' :: v) := by
  have hmark := isComment_assignment_iff k v
  have hsign : (k ++ '=' :: v).contains '=' := by simp
  rw [spacedAssignment, takeWhile_sign hk, dropWhile_sign hk, hsign]
  split
  · next hcomment => exact .inr ⟨fun h => h.noMark (hmark.1 (by simpa using hcomment)), rfl⟩
  · next hcomment =>
    split
    · exact .inr ⟨fun h => h.ne_nil rfl, rfl⟩
    · next hne => exact .inl ⟨⟨hk, hne, fun h => hcomment (by simp [hmark.2 h])⟩, rfl⟩

theorem spacedAssignment_of_isKey {k : Text} (h : IsKey k) (v : Text) :
    spacedAssignment (k ++ '=' :: v) = trimEnd (trimEnd k ++ Text.lit " = " ++ trimStart v) := by
  obtain ⟨-, heq⟩ | ⟨hno, -⟩ := spacedAssignment_append h.noSign v
  · exact heq
  · exact absurd h hno

/-- In a spaced line the key ends in the one space in front of the sign. -/
theorem trimEnd_spaced (k v : Text) : trimEnd (trimEnd k ++ Text.lit " = " ++ trimStart v) =
    (trimEnd k ++ [' ']) ++ '=' :: trimEnd (' ' :: trimStart v) := by
  have h := trimEnd_append_self (x := trimEnd k ++ [' ', '=']) (by simp +decide)
    (' ' :: trimStart v)
  simpa [show Text.lit " = " = [' ', '=', ' '] from rfl] using h

/-- A line stays as it is, or it is spaced between its key and its value. -/
theorem spacedAssignment_eq_self_or (l : Text) :
    spacedAssignment l = l ∨ ∃ k v, l = k ++ '=' :: v ∧ IsKey k := by
  by_cases hmem : '=' ∈ l
  · obtain ⟨k, v, rfl, hk⟩ := List.eq_append_cons_of_mem hmem
    obtain ⟨hkey, -⟩ | ⟨-, heq⟩ := spacedAssignment_append hk v
    · exact .inr ⟨k, v, rfl, hkey⟩
    · exact .inl heq
  · exact .inl (by simp [spacedAssignment, hmem])

/-- A line stays as it is, or single spaces are set around an equals sign and none at the end. -/
theorem spacedAssignment_cases (l : Text) :
    spacedAssignment l = l ∨ ∃ k v, l = k ++ '=' :: v ∧
      spacedAssignment l = trimEnd (trimEnd k ++ Text.lit " = " ++ trimStart v) := by
  obtain h | ⟨k, v, rfl, hk⟩ := spacedAssignment_eq_self_or l
  · exact .inl h
  · exact .inr ⟨k, v, rfl, spacedAssignment_of_isKey hk v⟩

/-- The equals sign stays between the key and the value. -/
theorem visible_spacedAssignment (l : Text) : visible (spacedAssignment l) = visible l := by
  rcases spacedAssignment_cases l with h | ⟨k, v, hl, h⟩
  · rw [h]
  · have hsign : visible (Text.lit " = ") = visible ['='] := by decide
    rw [h, hl, ← List.singleton_append, visible_append, visible_append, visible_trimEnd,
      visible_append, visible_append, visible_trimEnd, visible_trimStart, hsign, List.append_assoc]

/-- No layout loses, adds or moves a visible character, whatever the text is. -/
theorem visible_layouts (s : Text) :
    visible (Jsonc.reindent s) = visible s ∧ visible (Jsonc.reindentNested s) = visible s ∧
      visible (normalizeYaml s) = visible s ∧ visible (normalizeToml s) = visible s :=
  ⟨Jsonc.visible_reindent s, Jsonc.visible_reindentNested s, visible_normalize (fun _ => rfl) s,
    visible_normalize visible_spacedAssignment s⟩

end Format

end ConfigCare
