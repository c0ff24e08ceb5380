import ConfigCare.Log.Record
import ConfigCare.Proofs.CanonicalLines
import ConfigCare.Proofs.ReportReading

/-! The line that a record is written as. Whatever is in its message, the line has no line feed in it, and
it is JSON that tells the record again. -/

namespace ConfigCare

namespace Json

theorem not_mem_intercalate {c : Char} {sep : Text} (hsep : c ∉ sep) {ts : List Text}
    (h : ∀ t ∈ ts, c ∉ t) : c ∉ List.intercalate sep ts := by
  induction ts with
  | nil => simp
  | cons t ts ih =>
    rw [List.forall_mem_cons] at h
    cases ts with
    | nil => simpa using h.1
    | cons t' ts =>
      rw [List.intercalate_cons_cons, List.mem_append, List.mem_append]
      rintro ((ht | hs) | hts)
      · exact h.1 ht
      · exact hsep hs
      · exact ih h.2 hts

/-- A value that is written compactly stands on one line. -/
theorem newline_not_mem_compact {v : Data} (hv : v.Printable) (depth : Nat) :
    '\n' ∉ source .compact depth v := by
  have hsep : '\n' ∉ [',', ' '] := by decide
  induction hv generalizing depth with
  | @list vs h ih =>
    cases vs with
    | nil => exact (Jsonc.body_source (.list h) rfl .compact depth).oneLine
    | cons v vs =>
      have hitems : ∀ t ∈ (v :: vs).map (source .compact (depth + 1)), '\n' ∉ t :=
        List.forall_mem_map.2 fun v hv => ih v hv (depth + 1)
      have hall := not_mem_intercalate hsep hitems
      rw [source_list, Layout.separator]
      simpa [Layout.lineBreak] using hall
  | @table es h ih =>
    cases es with
    | nil => exact (Jsonc.body_source (.table h) rfl .compact depth).oneLine
    | cons e es =>
      have hmembers : ∀ t ∈ (e :: es).map (memberSource .compact (depth + 1)), '\n' ∉ t := by
        refine List.forall_mem_map.2 fun e he => ?_
        simp [memberSource, Jsonc.newline_not_mem_string, ih e he (depth + 1)]
      have hall := not_mem_intercalate hsep hmembers
      rw [source_table, Layout.separator]
      simpa [Layout.lineBreak] using hall
  | float h => exact (Jsonc.body_source (.float h) rfl .compact depth).oneLine
  | null | bool | int | text =>
    exact (Jsonc.body_source (by constructor) rfl .compact depth).oneLine

end Json

namespace Log

open Report.Document (Writable key member member_table textOf textOf_text writable_table writable_text)

/-- A line tells a record if it is JSON with the name of its level, its logger, its message with the
arguments in it, the time it was made at, and the trace if there is one. -/
def Tells (line : Text) (r : Record) : Prop :=
  ∃ d message, Json.read false line = .ok d ∧ r.text = .ok message ∧
    (member "level" d).bind textOf = some (levelName r.level) ∧
    (member "logger" d).bind textOf = some r.logger ∧
    (member "message" d).bind textOf = some message ∧
    (member "timestamp" d).bind textOf = some (momentOf r.created).text ∧
    (member "exception" d).bind textOf = r.exception

namespace Record

theorem writable_object (levels : Nat) (r : Record) (message : Text) :
    Writable (levels + 1) (r.object message) := by
  have hnames : (((r.members message).map fun m => (m.1, Report.Document.text m.2)).map
      Prod.fst).Nodup := by
    cases h : r.exception <;> simp [members, h]
  have hvalues : ∀ m ∈ (r.members message).map fun m => (m.1, Report.Document.text m.2),
      Writable levels m.2 := List.forall_mem_map.2 fun m _ => writable_text m.2
  have h := writable_table _ hnames hvalues
  rwa [List.map_map] at h

theorem tells_object {r : Record} {message l : Text} (h : r.text = .ok message)
    (hread : Json.read false l = .ok (r.object message)) : Tells l r := by
  have hobject : r.object message =
      .table ((r.members message).map fun m => (key m.1, Report.Document.text m.2)) := rfl
  have hnone : member "exception" (.table []) = none := rfl
  refine ⟨r.object message, message, hread, h, ?_⟩
  rw [hobject]
  cases hexception : r.exception <;> simp [members, hexception, member_table, hnone]

/-- The line of a record is one line, and tells it. -/
theorem exists_line {r : Record} {message : Text} (h : r.text = .ok message) :
    ∃ l, r.line = .ok l ∧ '\n' ∉ l ∧ Tells l r := by
  obtain ⟨hreadable, hhalf⟩ := writable_object 989 r message
  obtain ⟨l, htext, hread⟩ := Json.read_text hreadable hhalf (.inl rfl) .compact
  have hwrite : Json.write .compact (r.object message) = WideText.ofText l := by
    rw [Json.text, Data.exceedsDigits_of_readable hreadable] at htext
    rcases hencode : WideText.encode (Json.write .compact (r.object message)) with e | s
    · rw [hencode] at htext
      cases htext
    · rw [hencode] at htext
      cases htext
      exact WideText.eq_ofText_of_encode hencode
  refine ⟨l, ?_, ?_, tells_object h hread⟩
  · rw [line, h, Except.map, hwrite, WideText.chars_ofText]
  · have hline := Json.newline_not_mem_compact hreadable.printable 0
    rwa [Json.source, show Json.render .compact 0 _ = _ from hwrite, WideText.spelled_ofText] at hline

end Record

end Log

end ConfigCare
