import ConfigCare.Proofs.Unencodable
import ConfigCare.Report.Document

/-! What a reader gets from the report of a scan. Whatever the files, the rules and the masks are
called, the report is JSON, pretty or compact, that denotes the value it was made from; and from that
value the findings can be told again, in order. This goes for numbers of no more digits than are ever
read: a longer one leaves no report at all. -/

namespace ConfigCare

namespace Data

theorem itemsExceedDigits_eq (vs : List Data) : itemsExceedDigits vs = vs.any exceedsDigits := by
  induction vs with
  | nil => rfl
  | cons v vs ih => rw [itemsExceedDigits, ih, List.any_cons]

theorem membersExceedDigits_eq (es : Entries) :
    membersExceedDigits es = es.any fun e => e.2.exceedsDigits := by
  induction es with
  | nil => rfl
  | cons e es ih => rw [membersExceedDigits, ih, List.any_cons]

theorem exceedsDigits_int (n : Int) :
    (Data.int n).exceedsDigits ↔ 10 ^ Json.digitLimit ≤ n.natAbs := by
  rw [exceedsDigits, decide_eq_true_iff, Nat.pow_eq]

theorem exceedsDigits_of_readable {levels : Nat} {v : Data} (hv : Readable levels v) :
    v.exceedsDigits = false := by
  induction hv with
  | @int _ n h => exact eq_false_of_ne_true fun hn => Nat.not_le_of_lt h ((exceedsDigits_int n).1 hn)
  | list _ ih =>
    rw [exceedsDigits, itemsExceedDigits_eq]
    exact List.any_eq_false.2 fun v hv => by simp [ih v hv]
  | table _ _ _ ih =>
    rw [exceedsDigits, membersExceedDigits_eq]
    exact List.any_eq_false.2 fun e he => by simp [ih e he]
  | _ => rfl

end Data

namespace Json

open Data (Readable HoldsHalf)
open WideText (HasHalf)

/-- A value without halves of surrogate pairs has a text that is read as the value. -/
theorem read_text {refuse : Bool} {v : Data} (hv : Readable depthLimit v) (hhalf : ¬ HoldsHalf v)
    (h : refuse = false ∨ v.constants = []) (l : Layout) :
    ∃ s, text l v = .ok s ∧ read refuse s = .ok v := by
  have hwrite : ¬ HasHalf (write l v) := fun hw => hhalf ((hasHalf_render hv l 0).1 hw)
  obtain ⟨s, hs⟩ : ∃ s, WideText.encode (write l v) = .ok s := by
    rcases hs : WideText.encode (write l v) with e | s
    · exact absurd (WideText.encode_eq_error_iff.1 ⟨e, hs⟩) hwrite
    · exact ⟨s, rfl⟩
  have hsource : source l 0 v = s := by
    have := congrArg WideText.spelled (WideText.eq_ofText_of_encode hs)
    rwa [WideText.spelled_ofText] at this
  refine ⟨s, ?_, ?_⟩
  · rw [text, Data.exceedsDigits_of_readable hv, hs]
    rfl
  · have := read_source hv l (w := []) rfl h
    rwa [hsource, List.append_nil] at this

end Json

namespace WideText

theorem unpaired_ofText (s : Text) : Unpaired (ofText s) where
  inRange g hg := by
    obtain ⟨c, -, rfl⟩ := List.mem_map.1 hg
    trivial
  apart := by
    refine (List.isChain_map _).2 (List.Pairwise.isChain ?_)
    exact List.pairwise_of_forall fun _ _ h => h

end WideText

namespace Report.Document

open Data (Readable HoldsHalf lookup?)
open Secret (ScanResult Finding)

/-! ## What a report says -/

/-- A secret as the report tells it. -/
structure Told where
  file : Text
  line : Int
  column : Int
  rule : Text
  masked : Text
deriving DecidableEq

/-- What stands in a report. -/
structure Contents where
  timestamp : Text
  totalFiles : Int
  scannedFiles : Int
  secretsFound : Int
  hasSecrets : Bool
  secrets : List Told
deriving DecidableEq

def textOf : Data → Option Text
  | .text s => s.text?
  | _ => none

def intOf : Data → Option Int
  | .int n => some n
  | _ => none

def boolOf : Data → Option Bool
  | .bool b => some b
  | _ => none

/-- A member of a table by its name. -/
def member (name : String) : Data → Option Data
  | .table es => lookup? (key name) es
  | _ => none

def toldOf (d : Data) : Option Told := do
  return ⟨← (member "file" d).bind textOf, ← (member "line" d).bind intOf,
    ← (member "column" d).bind intOf, ← (member "patternName" d).bind textOf,
    ← (member "maskedMatch" d).bind textOf⟩

def secretsOf : Data → Option (List Told)
  | .list ds => ds.mapM toldOf
  | _ => none

/-- Reads a report as a user of it does, by the names of its members. -/
def contentsOf (d : Data) : Option Contents := do
  let summary ← member "summary" d
  return ⟨← (member "timestamp" d).bind textOf, ← (member "totalFiles" summary).bind intOf,
    ← (member "scannedFiles" summary).bind intOf, ← (member "secretsFound" summary).bind intOf,
    ← (member "hasSecrets" summary).bind boolOf, ← (member "secrets" d).bind secretsOf⟩

/-- What the report of a result is to say. -/
def told (f : Finding) : Told := ⟨f.file, f.line, f.column, f.rule, f.masked⟩

structure Tells (time : Moment) (r : ScanResult) (c : Contents) : Prop where
  timestamp : c.timestamp = time.text
  totalFiles : c.totalFiles = r.candidates
  scannedFiles : c.scannedFiles = r.visited
  secretsFound : c.secretsFound = c.secrets.length
  hasSecrets : c.hasSecrets ↔ c.secrets ≠ []
  secrets : c.secrets = r.findings.map told

@[simp] theorem textOf_text (s : Text) : textOf (text s) = some s := by
  simp [textOf, text, WideText.text?, Except.toOption]

theorem key_inj {a b : String} : key a = key b ↔ a = b := by
  have hchar : Function.Injective Glyph.char := fun _ _ h => by cases h; rfl
  rw [key, key, WideText.ofText, WideText.ofText, List.map_inj_right hchar, String.toList_inj]

/-- The members of a table are told apart by their names. -/
theorem member_table (name k : String) (v : Data) (es : Entries) :
    member name (.table ((key k, v) :: es)) = if k = name then some v else member name (.table es) := by
  simp only [member, lookup?, key_inj]

theorem toldOf_finding (f : Finding) : toldOf (finding f) = some (told f) := by
  simp [toldOf, finding, member_table, intOf, told]

theorem secretsOf_findings (fs : List Finding) :
    secretsOf (.list (fs.map finding)) = some (fs.map told) := by
  rw [secretsOf, List.mapM_map]
  induction fs with
  | nil => rfl
  | cons f fs ih => simp [toldOf_finding, ih]

/-- Whatever is in the result, the report says it. -/
theorem exists_contents (time : Moment) (r : ScanResult) :
    ∃ c, contentsOf (value time r) = some c ∧ Tells time r c := by
  refine ⟨⟨time.text, r.candidates, r.visited, r.findings.length, r.hasSecrets,
    r.findings.map told⟩, ?_, ?_⟩
  · simp [contentsOf, value, summary, member_table, intOf, boolOf, secretsOf_findings]
  · refine ⟨rfl, rfl, rfl, by simp, ?_, rfl⟩
    simp [ScanResult.hasSecrets]

/-! ## Reading the report -/

/-- The numbers that a report gives. -/
def numbers (r : ScanResult) : List Nat :=
  r.candidates :: r.visited :: r.findings.length :: r.findings.flatMap fun f => [f.line, f.column]

theorem exceedsDigits_finding_iff (f : Finding) :
    (finding f).exceedsDigits ↔
      10 ^ Json.digitLimit ≤ f.line ∨ 10 ^ Json.digitLimit ≤ f.column := by
  simp [finding, text, Data.exceedsDigits, Data.membersExceedDigits]

theorem exists_number_iff {p : Nat → Prop} (r : ScanResult) :
    (∃ n ∈ numbers r, p n) ↔ (p r.candidates ∨ p r.visited ∨ p r.findings.length) ∨
      ∃ f ∈ r.findings, p f.line ∨ p f.column := by
  have hfindings : (∃ n ∈ r.findings.flatMap fun f => [f.line, f.column], p n) ↔
      ∃ f ∈ r.findings, p f.line ∨ p f.column := by
    constructor
    · rintro ⟨n, hn, hp⟩
      obtain ⟨f, hf, hnf⟩ := List.mem_flatMap.1 hn
      simp only [List.mem_cons, List.not_mem_nil, or_false] at hnf
      rcases hnf with rfl | rfl
      · exact ⟨f, hf, .inl hp⟩
      · exact ⟨f, hf, .inr hp⟩
    · rintro ⟨f, hf, hp | hp⟩
      · exact ⟨_, List.mem_flatMap.2 ⟨f, hf, by simp⟩, hp⟩
      · exact ⟨_, List.mem_flatMap.2 ⟨f, hf, List.mem_cons_of_mem _ (by simp)⟩, hp⟩
  simp only [numbers, List.exists_mem_cons_iff, hfindings, or_assoc]

theorem exceedsDigits_value_iff (time : Moment) (r : ScanResult) :
    (value time r).exceedsDigits ↔ ∃ n ∈ numbers r, 10 ^ Json.digitLimit ≤ n := by
  rw [exists_number_iff]
  simp [value, summary, text, Data.exceedsDigits, Data.membersExceedDigits,
    Data.itemsExceedDigits_eq, exceedsDigits_finding_iff]

/-- What can be written and read again: nothing is too long, too deep or without an encoding. -/
structure Writable (levels : Nat) (v : Data) : Prop where
  readable : Readable levels v
  noHalf : ¬ HoldsHalf v

section

variable {levels : Nat}

theorem writable_text (s : Text) : Writable levels (text s) :=
  ⟨.text (WideText.unpaired_ofText s), by simp [text, Data.holdsHalf_text]⟩

theorem writable_int {n : Nat} (h : n < 10 ^ Json.digitLimit) : Writable levels (.int n) :=
  ⟨.int h, by rintro ⟨⟩⟩

theorem writable_list {vs : List Data} (h : ∀ v ∈ vs, Writable levels v) :
    Writable (levels + 1) (.list vs) where
  readable := .list fun v hv => (h v hv).readable
  noHalf hhalf := by
    obtain ⟨v, hv, hv'⟩ := Data.holdsHalf_list.1 hhalf
    exact (h v hv).noHalf hv'

theorem writable_table (ms : List (String × Data)) (hnames : (ms.map Prod.fst).Nodup)
    (h : ∀ m ∈ ms, Writable levels m.2) :
    Writable (levels + 1) (.table (ms.map fun m => (key m.1, m.2))) where
  readable := by
    refine .table ?_ ?_ ?_
    · exact List.forall_mem_map.2 fun m _ => WideText.unpaired_ofText _
    · have hkeys := hnames.map fun a b (h : key a = key b) => key_inj.1 h
      rwa [List.map_map] at hkeys ⊢
    · exact List.forall_mem_map.2 fun m hm => (h m hm).readable
  noHalf hhalf := by
    obtain ⟨e, he, he'⟩ := Data.holdsHalf_table.1 hhalf
    obtain ⟨m, hm, rfl⟩ := List.mem_map.1 he
    exact he'.elim (WideText.not_hasHalf_ofText _) (h m hm).noHalf

end

theorem writable_finding (levels : Nat) {f : Finding} (hline : f.line < 10 ^ Json.digitLimit)
    (hcolumn : f.column < 10 ^ Json.digitLimit) : Writable (levels + 1) (finding f) := by
  refine writable_table [("file", _), ("line", _), ("column", _), ("patternName", _),
    ("maskedMatch", _)] (by simp) ?_
  simp only [List.forall_mem_cons]
  exact ⟨writable_text _, writable_int hline, writable_int hcolumn, writable_text _,
    writable_text _, by simp⟩

theorem writable_value (levels : Nat) (time : Moment) {r : ScanResult}
    (h : ∀ n ∈ numbers r, n < 10 ^ Json.digitLimit) : Writable (levels + 3) (value time r) := by
  simp only [numbers, List.forall_mem_cons, List.forall_mem_flatMap] at h
  obtain ⟨hcandidates, hvisited, hfound, hfindings⟩ := h
  have hsummary : Writable (levels + 2) (summary r) := by
    refine writable_table [("totalFiles", _), ("scannedFiles", _), ("secretsFound", _),
      ("hasSecrets", .bool r.hasSecrets)] (by simp) ?_
    simp only [List.forall_mem_cons]
    exact ⟨writable_int hcandidates, writable_int hvisited, writable_int hfound,
      ⟨.bool _, by rintro ⟨⟩⟩, by simp⟩
  have hsecrets : Writable (levels + 2) (.list (r.findings.map finding)) := by
    refine writable_list (List.forall_mem_map.2 fun f hf => ?_)
    have hnumbers := hfindings f hf
    exact writable_finding levels hnumbers.1 hnumbers.2.1
  refine writable_table [("timestamp", _), ("summary", _), ("secrets", _)] (by simp) ?_
  simp only [List.forall_mem_cons]
  exact ⟨writable_text _, hsummary, hsecrets, by simp⟩

/-- A report whose numbers are not too long is read as the value that it was made of, in both layouts,
and tells all that was found. -/
theorem report_reads_back (time : Moment) {r : ScanResult}
    (h : ∀ n ∈ numbers r, n < 10 ^ Json.digitLimit) :
    ∃ c, Tells time r c ∧ contentsOf (value time r) = some c ∧
      ∀ pretty, ∃ s, render time r pretty = .ok s ∧ Json.read false s = .ok (value time r) := by
  obtain ⟨c, hc, htells⟩ := exists_contents time r
  have hvalue : Writable Json.depthLimit (value time r) := writable_value 987 time h
  have hread (l : Json.Layout) :
      ∃ s, Json.text l (value time r) = .ok s ∧ Json.read false s = .ok (value time r) :=
    Json.read_text hvalue.readable hvalue.noHalf (.inl rfl) l
  exact ⟨c, htells, hc, fun pretty => hread _⟩

/-- A finding with a quote, a backslash, a control character and a letter beyond ASCII in its names. -/
theorem report_reads_back_of_marks :
    let f : Finding := ⟨Text.lit "a\"\\.js", 1, 7, Text.lit "Schlüssel", [], [], Text.lit "*\t*", []⟩
    let r : ScanResult := ⟨[], 2, 3, [f], []⟩
    (∀ n ∈ numbers r, n < 10 ^ Json.digitLimit) ∧
      ∃ v c, c.secrets = [told f] ∧ contentsOf v = some c ∧
        ∀ pretty, ∃ s, render (.day ⟨2025, 1, 2⟩) r pretty = .ok s ∧ Json.read false s = .ok v := by
  intro f r
  have hnumbers : ∀ n ∈ numbers r, n < 10 ^ Json.digitLimit := by decide +kernel
  obtain ⟨c, htells, hc, hread⟩ := report_reads_back (.day ⟨2025, 1, 2⟩) hnumbers
  exact ⟨hnumbers, value (.day ⟨2025, 1, 2⟩) r, c, htells.secrets, hc, hread⟩

/-- That finding as it is written. -/
example : Json.text .compact
      (finding ⟨Text.lit "a\"\\.js", 1, 7, Text.lit "Schlüssel", [], [], Text.lit "*\t*", []⟩) =
    .ok (Text.lit "\x7b\"file\": \"a\\\"\\\\.js\", \"line\": 1, \"column\": 7, \"patternName\": \"Schlüssel\", \"maskedMatch\": \"*\\t*\"\x7d") := by
  decide +kernel

/-- A number of too many digits leaves no report. -/
theorem render_of_long_number (time : Moment) {r : ScanResult}
    (h : ∃ n ∈ numbers r, 10 ^ Json.digitLimit ≤ n) (pretty : Bool) :
    render time r pretty = .error .digits := by
  rw [render, Json.text, if_pos ((exceedsDigits_value_iff time r).2 h)]

/-- A count of files that has one digit too many. -/
theorem no_report_of_long_count :
    let r : ScanResult := ⟨[], 10 ^ Json.digitLimit, 0, [], []⟩
    ∀ pretty, render (.day ⟨2025, 1, 2⟩) r pretty = .error .digits := by
  intro r pretty
  exact render_of_long_number _ ⟨r.candidates, List.mem_cons_self, le_refl r.candidates⟩ pretty

end Report.Document

end ConfigCare
