import ConfigCare.Proofs.CanonicalForm
import ConfigCare.Proofs.CanonicalLines

/-! Formatting a formatted JSON document again. The two ways to format do not see the same documents:
what is written canonically may look commented afterwards and be indented the second time, and what
is indented may be strict JSON afterwards and be written canonically. `formatJson_again_iff` says when
the second time changes something. -/

namespace ConfigCare

namespace Text

variable {σ : Type}

/-- A text stays as it is if and only if each of its lines does. -/
theorem Settles.unlines_threaded_iff {step : σ → Text → σ × Text} (h : Settles step)
    (hends : KeepsLineEnds step) (htrim : ∀ s l, step s l = step s (trim l)) (s : σ)
    {front : List Text} {l : Text} (hls : ∀ l' ∈ front ++ [l], '\n' ∉ l') (hl : ¬ isBlankLine l) :
    unlines (Text.threaded step s (lines (terminated (front ++ [l])))) = terminated (front ++ [l]) ↔
      Text.threaded step s (front ++ [l]) = front ++ [l] := by
  have hout := h.not_mem s hls
  have hunlines : unlines (Text.threaded step s (lines (terminated (front ++ [l])))) =
      terminated (Text.threaded step s (front ++ [l])) := by
    have hblank : ∀ s, Text.threaded step s [[]] = List.replicate 1 [] :=
      fun s => hends.threaded_blank s (by simp [isBlankLine])
    rw [threaded_lines step htrim, splitOn_terminated hls, threaded_append, hblank,
      unlines_append_nils (by simp [threaded_append]), threaded_append, threaded_cons, threaded_nil]
    obtain ⟨c, hc⟩ : ∃ c, (trim l).getLast? = some c :=
      ⟨_, List.getLast?_eq_some_getLast fun hnil => hl ((trim_eq_nil_iff l).1 hnil)⟩
    have hlast := hends.ending (threadedState step s front) l hl
    refine unlines_concat _ ?_ ?_
    · intro hnil
      rw [hnil, hc] at hlast
      cases hlast
    · rintro d hd rfl
      refine hout (step (threadedState step s front) l).2 ?_ (List.mem_of_getLast? hd)
      rw [threaded_append, threaded_cons, threaded_nil]
      simp
  rw [hunlines]
  exact ⟨terminated_inj hout hls, congrArg terminated⟩

end Text

namespace Jsonc

open Text
open Json (source)

/-! ## Canonical text indented -/

/-- The lines of a canonical text. -/
theorem exists_rows {v : Data} (hv : v.Printable) :
    ∃ front r, Laid 0 (front ++ [r]) ∧
      source .indented 0 v ++ ['\n'] = terminated (front.map shown ++ [shown r]) ∧
      (front ++ [r]).any (fun r => hides r.2) = v.hidesBlock ∧
      (∀ l ∈ front.map shown ++ [shown r], '\n' ∉ l) ∧ ¬ isBlankLine (shown r) := by
  obtain ⟨rows, hrows⟩ := exists_laidAs_source hv 0 none false
  have hne : rows ≠ [] := by
    obtain ⟨l, opens, rest, h, -⟩ := hrows.laid.exists_head
    rw [h]
    exact List.cons_ne_nil _ _
  obtain ⟨front, r, rfl⟩ : ∃ front r, rows = front ++ [r] :=
    ⟨rows.dropLast, rows.getLast hne, (List.dropLast_append_getLast hne).symm⟩
  have htext := hrows.text
  have hhidden := hrows.hidden
  simp only [prefixOf, commaIf, indent, List.map_append, List.map_cons, List.map_nil, Nat.mul_zero,
    List.replicate_zero, List.nil_append, List.append_nil, Bool.false_eq_true, if_false] at htext
  simp only [Option.any_none, Bool.and_false, Bool.false_or] at hhidden
  refine ⟨front, r, hrows.laid, htext.symm, hhidden, ?_, ?_⟩
  · intro l hl
    obtain ⟨x, hx, rfl⟩ : ∃ x ∈ front ++ [r], shown x = l := by
      rw [← List.mem_map, List.map_append]
      exact hl
    obtain ⟨closes, opens, hrow⟩ := hrows.laid.exists_row x hx
    exact newline_not_mem_indent hrow.oneLine _
  · obtain ⟨closes, opens, hrow⟩ := hrows.laid.exists_row r (by simp)
    rw [← trim_eq_nil_iff, shown, trim_indent hrow.trim]
    exact hrow.ne_nil

/-- Canonical text is indented by its delimiters already. -/
theorem reindentNested_source {v : Data} (hv : v.Printable) :
    reindentNested (source .indented 0 v ++ ['\n']) = source .indented 0 v ++ ['\n'] := by
  obtain ⟨front, r, hlaid, htext, -, hlines, hlast⟩ := exists_rows hv
  rw [htext]
  refine (nestLine_settles.unlines_threaded_iff nestLine_keepsLineEnds nestLine_trim _ hlines
    hlast).2 ?_
  have h := hlaid.nested.1
  rwa [List.map_append] at h

/-- Canonical text is indented line by line already, unless a key hides a block. -/
theorem reindent_source_iff {v : Data} (hv : v.Printable) :
    reindent (source .indented 0 v ++ ['\n']) = source .indented 0 v ++ ['\n'] ↔
      v.hidesBlock = false := by
  obtain ⟨front, r, hlaid, htext, hhidden, hlines, hlast⟩ := exists_rows hv
  rw [htext, ← hhidden]
  refine (reindentLine_settles.unlines_threaded_iff reindentLine_keepsLineEnds reindentLine_trim 0
    hlines hlast).trans ?_
  rw [show front.map shown ++ [shown r] = (front ++ [r]).map shown by simp]
  constructor
  · intro h
    rw [Bool.eq_false_iff]
    intro hany
    obtain ⟨x, hx, hhides⟩ := List.any_eq_true.1 hany
    exact hlaid.not_reindented hx hhides 0 h
  · intro h
    exact (hlaid.reindented fun x hx => by
      simpa using List.any_eq_false.1 h x hx).1

end Jsonc

namespace Format

open WideText (ofText spelled)
open Jsonc (looksCommented)
open Json (canonical canonicalText)

theorem indented_indented (strict : Bool) (s : Text) :
    indented strict (indented strict s) = indented strict s := by
  cases strict
  · exact Jsonc.reindent_reindent s
  · exact Jsonc.reindentNested_reindentNested s

theorem indented_source_iff (strict : Bool) {levels : Nat} {v : Data}
    (hv : Data.Readable levels v) :
    indented strict (Json.source .indented 0 v ++ ['\n']) = Json.source .indented 0 v ++ ['\n'] ↔
      (strict = false → v.hidesBlock = false) := by
  cases strict
  · exact (Jsonc.reindent_source_iff hv.printable).trans ⟨fun h _ => h, fun h => h rfl⟩
  · exact ⟨fun _ h => (Bool.noConfusion h), fun _ => Jsonc.reindentNested_source hv.printable⟩

theorem encode_eq_ok_iff {u : WideText} {t : Text} : u.encode = .ok t ↔ u = ofText t :=
  ⟨WideText.eq_ofText_of_encode, fun h => h ▸ WideText.encode_ofText t⟩

/-- An indented text stays as it is unless it is strict JSON in another form than the canonical. -/
theorem formatJson_of_indented {strict : Bool} {t : Text} (h : indented strict t = t) :
    formatJson strict t = .ok t ↔
      (looksCommented t = false → ∀ u, canonical t = .ok u → u = ofText t) := by
  unfold formatJson
  split
  · next hlooks => simp [h, hlooks]
  · next hlooks =>
    split
    · next u hu => simp [hlooks, hu, encode_eq_ok_iff]
    · next hu => simp [h, hu]

/-- A canonical text is written canonically again, or it is indented. -/
theorem formatJson_of_canonical {strict : Bool} {t : Text} {v : Data}
    (hv : Data.Readable Json.depthLimit v) (ht : canonicalText v = ofText t) :
    formatJson strict t = .ok t ↔
      (strict = false → (looksCommented t = true ∨ v.constants ≠ []) → v.hidesBlock = false) := by
  have hsource : t = Json.source .indented 0 v ++ ['\n'] := by
    rw [← Json.spelled_canonicalText, ht, WideText.spelled_ofText]
  have hindented : indented strict t = t ↔ (strict = false → v.hidesBlock = false) := by
    rw [hsource]
    exact indented_source_iff strict hv
  unfold formatJson
  split
  · next hlooks =>
    rw [Except.ok.injEq, hindented]
    simp [hlooks]
  · next hlooks =>
    rcases hconstants : v.constants with _ | ⟨name, names⟩
    · have hread : Json.read true t = .ok v := by
        rw [hsource]
        exact Json.read_source hv .indented rfl (.inr hconstants)
      rw [canonical, hread]
      simp [Except.map, ht, hlooks]
    · have hread : Json.read true t = .error (.constant name) := by
        rw [hsource]
        exact Json.read_source_refused hv .indented rfl hconstants
      rw [canonical, hread]
      simp [Except.map, hindented]

/-- When a formatted document stays as it is. One that was indented does unless it is strict JSON,
looks uncommented and is not in canonical form. One that was written canonically always does if
indenting counts delimiters; otherwise it does unless it is indented the second time, because it looks
commented or has a number out of range, and has a block behind a key that holds a pair of brackets. -/
theorem formatJson_again_iff {strict : Bool} {s t : Text} (h : formatJson strict s = .ok t) :
    formatJson strict t = .ok t ↔
      ((looksCommented s = true ∨ ∀ v, Json.read true s ≠ .ok v) →
        looksCommented t = false → ∀ u, canonical t = .ok u → u = ofText t) ∧
      (∀ v, looksCommented s = false → Json.read true s = .ok v → strict = false →
        (looksCommented t = true ∨ v.constants ≠ []) → v.hidesBlock = false) := by
  unfold formatJson at h
  split at h
  · next hlooks =>
    cases h
    rw [formatJson_of_indented (indented_indented strict s)]
    simp [hlooks]
  · next hlooks =>
    split at h
    · next w hw =>
      obtain ⟨v, hv, rfl⟩ := Json.exists_of_map_ok hw
      rw [formatJson_of_canonical (Json.readable_read hv) (WideText.eq_ofText_of_encode h)]
      simp [hlooks, hv]
    · next e he =>
      cases h
      have hread : ∀ v, Json.read true s ≠ .ok v := by
        intro v hv
        rw [canonical, hv] at he
        cases he
      rw [formatJson_of_indented (indented_indented strict s)]
      simp [hread]

/-- The canonical text looks commented, and the second time the block behind the key `[x]` is
indented by a level less. -/
theorem formatJson_again_of_bracket_key :
    formatJson false (Text.lit "\x7b\"[x]\": \x7b\"a\": \" \\/\\/\"\x7d\x7d") =
        .ok (Text.lit "\x7b\n  \"[x]\": \x7b\n    \"a\": \" //\"\n  \x7d\n\x7d\n") ∧
      formatJson false (Text.lit "\x7b\n  \"[x]\": \x7b\n    \"a\": \" //\"\n  \x7d\n\x7d\n") ≠
        .ok (Text.lit "\x7b\n  \"[x]\": \x7b\n    \"a\": \" //\"\n  \x7d\n\x7d\n") := by
  have honce : formatJson false (Text.lit "\x7b\"[x]\": \x7b\"a\": \" \\/\\/\"\x7d\x7d") =
      .ok (Text.lit "\x7b\n  \"[x]\": \x7b\n    \"a\": \" //\"\n  \x7d\n\x7d\n") := by decide +kernel
  refine ⟨honce, fun htwice => ?_⟩
  obtain ⟨v, hv, hhides⟩ := Json.exists_of_map_ok (show (Json.read true
    (Text.lit "\x7b\"[x]\": \x7b\"a\": \" \\/\\/\"\x7d\x7d")).map Data.hidesBlock = .ok true by
      decide +kernel)
  have hsees := ((formatJson_again_iff honce).1 htwice).2 v (by decide +kernel) hv rfl
    (.inl (by decide +kernel))
  rw [hhides] at hsees
  cases hsees

/-- A form feed in front makes a text no strict JSON, but indenting takes it off. -/
theorem formatJson_again_of_form_feed :
    formatJson false ('\x0c' :: Text.lit "[1]") = .ok (Text.lit "[1]\n") ∧
      formatJson false (Text.lit "[1]\n") = .ok (Text.lit "[\n  1\n]\n") := by
  constructor <;> decide +kernel

end Format

end ConfigCare
