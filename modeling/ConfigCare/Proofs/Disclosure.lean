import ConfigCare.Proofs.Positions
import ConfigCare.Report.Document

/-! What the report of a scan discloses. A finding is told by its position, its rule and its masked
secret. The position depends on the line feeds of the text alone, the mask on the length and the ends
of the secret. So contents that differ only where the masks hide them have one report. -/

namespace ConfigCare

namespace Text

/-- Two texts of one length that have their line feeds at the same offsets. -/
structure SameLines (s t : Text) : Prop where
  length : s.length = t.length
  feeds : ∀ n : Nat, s[n]? = some '\n' ↔ t[n]? = some '\n'

/-- The characters from one offset up to another. -/
def part (s : Text) (start finish : Nat) : Text := (s.drop start).take (finish - start)

theorem sameLines_iff {s t : Text} :
    SameLines s t ↔ s.map (· == '\n') = t.map (· == '\n') := by
  constructor
  · intro h
    refine List.ext_getElem (by simpa using h.length) fun n hs ht => ?_
    rw [List.length_map] at hs ht
    have hfeed := h.feeds n
    rw [List.getElem?_eq_getElem hs, List.getElem?_eq_getElem ht, Option.some_inj,
      Option.some_inj] at hfeed
    rw [List.getElem_map, List.getElem_map, Bool.eq_iff_iff, beq_iff_eq, beq_iff_eq]
    exact hfeed
  · intro h
    refine ⟨by simpa using congrArg List.length h, fun n => ?_⟩
    have hfeed : (s[n]?.map (· == '\n') = some true) ↔ (t[n]?.map (· == '\n') = some true) := by
      rw [← List.getElem?_map, ← List.getElem?_map, h]
    simpa using hfeed

instance (s t : Text) : Decidable (SameLines s t) := decidable_of_iff _ sameLines_iff.symm

namespace SameLines

variable {s t : Text} {x y : Char}

theorem head_iff (h : SameLines (x :: s) (y :: t)) : x = '\n' ↔ y = '\n' := by
  simpa using h.feeds 0

theorem tail (h : SameLines (x :: s) (y :: t)) : SameLines s t :=
  ⟨by simpa using h.length, fun n => by simpa using h.feeds (n + 1)⟩

theorem take (h : SameLines s t) (n : Nat) : SameLines (s.take n) (t.take n) := by
  refine ⟨by simp [h.length], fun m => ?_⟩
  rw [List.getElem?_take, List.getElem?_take]
  split
  · exact h.feeds m
  · exact Iff.rfl

theorem count_eq (h : SameLines s t) : s.count '\n' = t.count '\n' := by
  induction s generalizing t with
  | nil => rw [List.eq_nil_of_length_eq_zero h.length.symm]
  | cons x s ih =>
    cases t with
    | nil => cases h.length
    | cons y t => simp only [List.count_cons, beq_iff_eq, h.head_iff, ih h.tail]

theorem lastStart_eq (h : SameLines s t) (start offset : Nat) :
    lastStart start offset s = lastStart start offset t := by
  induction s generalizing t start offset with
  | nil => rw [List.eq_nil_of_length_eq_zero h.length.symm]
  | cons x s ih =>
    cases t with
    | nil => cases h.length
    | cons y t => simp only [lastStart, h.head_iff, ih h.tail]

theorem position_eq (h : SameLines s t) (n : Nat) : position s n = position t n := by
  rw [position, position, lineStart, lineStart, (h.take n).count_eq, (h.take n).lastStart_eq]

end SameLines

end Text

/-- Where a match begins and where it ends. -/
def Regex.Span.extent (s : Span) : Nat × Nat := (s.offset, s.finish)

namespace Secret

open Text (part lit)

/-- A mask shows no more of a secret than its length and, if it is long, its two ends. -/
theorem mask_congr {mark s t : Text} (hlength : s.length = t.length)
    (hends : 2 * visibleCount < s.length → s.take visibleCount = t.take visibleCount ∧
      s.drop (s.length - visibleCount) = t.drop (t.length - visibleCount)) :
    mask mark s = mask mark t := by
  simp only [mask, ← hlength]
  by_cases hshort : s.length ≤ 2 * visibleCount
  · rw [if_pos hshort, if_pos hshort]
  · obtain ⟨hfirst, hlast⟩ := hends (Nat.lt_of_not_le hshort)
    rw [if_neg hshort, if_neg hshort, hfirst, hlast, ← hlength]

namespace CompiledRule

/-- The matches of a rule that are reported. -/
def reported (r : CompiledRule) (content : Text) : List Regex.Span :=
  (r.pattern.spans content).filter (r.counts content)

theorem mem_spans_of_mem_reported {r : CompiledRule} {content : Text} {s : Regex.Span}
    (h : s ∈ r.reported content) : s ∈ r.pattern.spans content :=
  (List.mem_filter.1 h).1

end CompiledRule

/-- Contents with their lines and the reported matches of every rule at the same offsets; of a match
of more than eight characters, both hold the same first four and the same last four. -/
structure AlikeWhereShown (rules : List CompiledRule) (c d : Text) : Prop where
  lines : Text.SameLines c d
  spans : ∀ r ∈ rules, (r.reported c).map (·.extent) = (r.reported d).map (·.extent)
  ends : ∀ r ∈ rules, ∀ s ∈ r.reported c, 8 < s.text.length →
    part c s.offset (s.offset + 4) = part d s.offset (s.offset + 4) ∧
      part c (s.finish - 4) s.finish = part d (s.finish - 4) s.finish

instance (rules : List CompiledRule) (c d : Text) : Decidable (AlikeWhereShown rules c d) :=
  decidable_of_iff (Text.SameLines c d ∧
      (∀ r ∈ rules, (r.reported c).map (·.extent) = (r.reported d).map (·.extent)) ∧
      ∀ r ∈ rules, ∀ s ∈ r.reported c, 8 < s.text.length →
        part c s.offset (s.offset + 4) = part d s.offset (s.offset + 4) ∧
          part c (s.finish - 4) s.finish = part d (s.finish - 4) s.finish)
    ⟨fun ⟨lines, spans, ends⟩ => ⟨lines, spans, ends⟩, fun h => ⟨h.lines, h.spans, h.ends⟩⟩

section

variable {p : Regex.Pattern} {content c d file : Text} {s t : Regex.Span}

theorem text_eq_part (hs : s ∈ p.spans content) : s.text = part content s.offset s.finish := by
  rw [part, Regex.Span.finish, Nat.add_sub_cancel_left]
  exact List.prefix_iff_eq_take.1 (Regex.Pattern.prefix_of_mem_spans hs)

theorem take_part {start finish k : Nat} (h : start + k ≤ finish) :
    (part content start finish).take k = part content start (start + k) := by
  rw [part, part, List.take_take, Nat.add_sub_cancel_left, Nat.min_eq_left (by omega)]

theorem drop_part {start finish k : Nat} :
    (part content start finish).drop k = part content (start + k) finish := by
  rw [part, part, List.drop_take, List.drop_drop, Nat.sub_add_eq]

/-- A long match begins and ends as its content does there. -/
theorem ends_of_mem_spans (hs : s ∈ p.spans content) (hlong : 8 < s.text.length) :
    s.text.take 4 = part content s.offset (s.offset + 4) ∧
      s.text.drop (s.text.length - 4) = part content (s.finish - 4) s.finish := by
  have hfinish : s.finish = s.offset + s.text.length := rfl
  have hlast : s.offset + (s.text.length - 4) = s.finish - 4 := by omega
  constructor
  · rw [text_eq_part hs, take_part (by omega)]
  · rw [text_eq_part hs, drop_part, ← text_eq_part hs, hlast]

/-- Matches at the same offsets of such contents are told alike. -/
theorem document_finding_congr (r : CompiledRule) (hlines : Text.SameLines c d)
    (hs : s ∈ r.pattern.spans c) (ht : t ∈ r.pattern.spans d) (hextent : s.extent = t.extent)
    (hends : 8 < s.text.length → part c s.offset (s.offset + 4) = part d s.offset (s.offset + 4) ∧
      part c (s.finish - 4) s.finish = part d (s.finish - 4) s.finish) :
    Report.Document.finding (r.finding c file s) = Report.Document.finding (r.finding d file t) := by
  obtain ⟨hoffset, hfinish⟩ := Prod.mk.inj hextent
  have hlength : s.text.length = t.text.length := by
    unfold Regex.Span.finish at hfinish
    omega
  have hmask : mask star s.text = mask star t.text := by
    refine mask_congr hlength fun (hlong : 8 < s.text.length) => ?_
    obtain ⟨hfirst, hlast⟩ := ends_of_mem_spans hs hlong
    obtain ⟨hfirst', hlast'⟩ := ends_of_mem_spans ht (hlength ▸ hlong)
    rw [visibleCount, hfirst, hlast, hfirst', hlast', ← hoffset, ← hfinish]
    exact hends hlong
  simp only [Report.Document.finding, CompiledRule.finding, hmask, hlines.position_eq, hoffset]

end

theorem map_congr_of_map_eq {α β γ : Type} {f g : α → β} {k : α → γ} {as bs : List α}
    (h : as.map k = bs.map k) (hfg : ∀ a ∈ as, ∀ b ∈ bs, k a = k b → f a = g b) :
    as.map f = bs.map g := by
  induction as generalizing bs with
  | nil => cases bs with
    | nil => rfl
    | cons b bs => cases h
  | cons a as ih =>
    cases bs with
    | nil => cases h
    | cons b bs =>
      obtain ⟨hab, hrest⟩ := List.cons.inj h
      rw [List.map_cons, List.map_cons, hfg a (by simp) b (by simp) hab,
        ih hrest fun a ha b hb => hfg a (by simp [ha]) b (by simp [hb])]

theorem document_scan_congr {rules : List CompiledRule} {c d : Text}
    (h : AlikeWhereShown rules c d) (file : Text) :
    (scan rules c file).map Report.Document.finding =
      (scan rules d file).map Report.Document.finding := by
  rw [scan, scan, List.map_flatMap, List.map_flatMap]
  refine List.flatMap_congr fun r hr => ?_
  rw [CompiledRule.scan, CompiledRule.scan, List.map_map, List.map_map]
  exact map_congr_of_map_eq (h.spans r hr) fun s hs t ht hextent =>
    document_finding_congr r h.lines (CompiledRule.mem_spans_of_mem_reported hs)
      (CompiledRule.mem_spans_of_mem_reported ht) hextent (h.ends r hr s hs)

/-- Of the findings, a report holds what is told of each and their number. -/
theorem write_congr {fs gs : List (List Finding)}
    (h : fs.flatten.map Report.Document.finding = gs.flatten.map Report.Document.finding)
    (root : Text) (candidates visited : Nat) (errors : List Text) (time : Moment) (pretty : Bool) :
    Report.Document.write time (.ofFiles root candidates visited fs errors) pretty =
      Report.Document.write time (.ofFiles root candidates visited gs errors) pretty := by
  have hlength : fs.flatten.length = gs.flatten.length := by
    rw [← List.length_map Report.Document.finding, h, List.length_map]
  have hempty : fs.flatten.isEmpty = gs.flatten.isEmpty := by
    rw [← List.isEmpty_map, h, List.isEmpty_map]
  simp only [Report.Document.write, Report.Document.value, Report.Document.summary,
    ScanResult.hasSecrets, ScanResult.ofFiles, h, hlength, hempty]

/-- The report does not depend on what the masks hide. Contents of one length, with the same lines,
the same reported matches and the same ends of the long ones, are reported by the same text, whatever
else was scanned with them. -/
theorem report_of_alikeWhereShown {rules : List CompiledRule} {c d : Text}
    (h : AlikeWhereShown rules c d) (file root : Text) (candidates visited : Nat)
    (before after : List (List Finding)) (errors : List Text) (time : Moment) (pretty : Bool) :
    Report.Document.write time (.ofFiles root candidates visited
        (before ++ scan rules c file :: after) errors) pretty =
      Report.Document.write time (.ofFiles root candidates visited
        (before ++ scan rules d file :: after) errors) pretty := by
  refine write_congr ?_ root candidates visited errors time pretty
  simp only [List.flatten_append, List.flatten_cons, List.map_append, document_scan_congr h file]

/-- A short secret and the middle of a long one may be others. -/
theorem report_of_alikeWhereShown_tokens :
    let rules := (compile [⟨lit "Token", lit "tok_\\w+", none, []⟩]).toOption.getD []
    let c := lit "a = tok_secret_9999\nb = tok_abc"
    let d := lit "z = tok_hidden_9999\nb = tok_xyz"
    let result (content : Text) := ScanResult.ofFiles (lit "/src") 1 1
      [scan rules content (lit "a.env")] []
    c ≠ d ∧ AlikeWhereShown rules c d ∧
      (scan rules c (lit "a.env")).map (fun f => (f.line, f.column, f.masked)) =
        [(1, 5, lit "tok_*******9999"), (2, 5, lit "*******")] ∧
      ∀ time, Report.Document.write time (result c) true =
        Report.Document.write time (result d) true := by
  intro rules c d result
  have halike : AlikeWhereShown rules c d := by decide +kernel
  exact ⟨by decide, halike, by decide +kernel, fun time =>
    report_of_alikeWhereShown halike (lit "a.env") (lit "/src") 1 1 [] [] [] time true⟩

end Secret

end ConfigCare
