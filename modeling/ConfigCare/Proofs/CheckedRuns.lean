import ConfigCare.Proofs.FormatChanges
import ConfigCare.Proofs.Pools

/-! What a run that only checks tells of a run that writes. File by file, what it calls unchanged is
left as it is, what it calls in need of formatting is formatted, and what cannot be read or decoded is
told with the same message. It is to be noticed where any file is not unchanged. As a disk holds no
links, no file is formatted twice. -/

namespace ConfigCare

/-- A format run is to be noticed where it checks and a file is not unchanged. -/
theorem Format.Summary.needsAttention_ofOutcomes (os : List Outcome) :
    (Summary.ofOutcomes os).needsAttention true = true ↔ ∃ o ∈ os, o.status ≠ .unchanged := by
  have hcount (s : Status) : 0 < Summary.count s os ↔ ∃ o ∈ os, o.status = s := by
    simp [Summary.count, List.countP_pos_iff]
  simp only [needsAttention, ofOutcomes, Bool.true_and, Bool.or_eq_true, decide_eq_true_eq, hcount,
    ← exists_or, ← and_or_left]
  refine exists_congr fun o => and_congr_right fun _ => ?_
  cases o.status <;> simp

namespace Project

open Files Format
open Text (lit)

variable {strict check : Bool} {locks : Locks} {tree tree' tree₁ : Entry} {c : Candidate}
  {cs : List Candidate} {o o' : Outcome} {os os' : List Outcome}

/-- Whether a file is to be written and cannot be. -/
def FailsToWrite (strict : Bool) (locks : Locks) (tree : Entry) (c : Candidate) : Prop :=
  ∃ d bytes e, decide strict false c.extension (c.read locks.reading tree) = .ok d ∧
    d.bytes = some bytes ∧ c.write locks.writing bytes tree = .error e

/-- What is told of a file by a run that checks, and by one that writes. -/
inductive Foretells (strict : Bool) (refused : Refused) (tree : Entry) (c : Candidate) :
    Outcome → Outcome → Prop where
  | unchanged {s : Text} (h : c.Holds refused tree s)
    (hsame : document s c.extension strict = .ok s) :
    Foretells strict refused tree c ⟨c.relative, .unchanged, none⟩ ⟨c.relative, .unchanged, none⟩
  | formatted {s t : Text} (h : c.Holds refused tree s)
    (hdocument : document s c.extension strict = .ok t) (hdiffers : t ≠ s) :
    Foretells strict refused tree c ⟨c.relative, .error, some needsFormatting⟩
      ⟨c.relative, .formatted, none⟩
  | unread {e : AccessError} (h : c.read refused tree = .error e) :
    Foretells strict refused tree c ⟨c.relative, .error, some e.message⟩
      ⟨c.relative, .error, some e.message⟩
  | undecoded {bytes : Bytes} {e : Utf8.DecodeError} (h : c.read refused tree = .ok bytes)
    (hdecode : Utf8.decode bytes = .error e) :
    Foretells strict refused tree c ⟨c.relative, .error, some e.message⟩
      ⟨c.relative, .error, some e.message⟩

/-- A file alone has the outcome that comes of what is decided on it. -/
theorem exists_decide_of_alone (h : (formatCandidates strict check locks tree [c]).2 = .ok [o]) :
    ∃ d, decide strict check c.extension (c.read locks.reading tree) = .ok d ∧
      (d.apply c locks.writing tree).1 = o := by
  rw [formatCandidates] at h
  cases hd : decide strict check c.extension (c.read locks.reading tree) with
  | error e =>
    rw [hd] at h
    cases h
  | ok d =>
    rw [hd] at h
    exact ⟨d, rfl, (List.cons.inj (Except.ok.inj h)).1⟩

/-- What is decided on a file to check it foretells what is decided on it to format it. -/
theorem foretells_of_alone (hfree : ¬ FailsToWrite strict locks tree c)
    (hchecked : (formatCandidates strict true locks tree [c]).2 = .ok [o'])
    (hwritten : (formatCandidates strict false locks tree [c]).2 = .ok [o]) :
    Foretells strict locks.reading tree c o' o := by
  obtain ⟨d', hd', rfl⟩ := exists_decide_of_alone hchecked
  obtain ⟨d, hd, rfl⟩ := exists_decide_of_alone hwritten
  have hwrites := hd
  unfold decide at hd hd'
  cases hread : c.read locks.reading tree with
  | error e =>
    simp only [hread, Except.ok.injEq] at hd hd'
    subst hd hd'
    exact .unread hread
  | ok bytes =>
    cases hdecode : Utf8.decode bytes with
    | error e =>
      simp only [hread, hdecode, Except.ok.injEq] at hd hd'
      subst hd hd'
      exact .undecoded hread hdecode
    | ok s =>
      cases hdocument : document s c.extension strict with
      | error e => simp [hread, hdecode, hdocument] at hd
      | ok t =>
        by_cases hsame : t = s
        · simp only [hread, hdecode, hdocument, hsame, if_true, Except.ok.injEq] at hd hd'
          subst hd hd'
          exact .unchanged ⟨bytes, hread, hdecode⟩ (hsame ▸ hdocument)
        · simp only [hread, hdecode, hdocument, hsame, if_true, if_false, Bool.false_eq_true,
            Except.ok.injEq] at hd hd'
          subst hd hd'
          simp only [Decision.apply, Decision.failed]
          cases hwrite : c.write locks.writing (Utf8.encode t) tree with
          | error e => exact absurd ⟨_, _, e, hwrites, rfl, hwrite⟩ hfree
          | ok tree' => exact .formatted ⟨bytes, hread, hdecode⟩ hdocument hsame

theorem Foretells.unchanged_iff {refused : Refused} (h : Foretells strict refused tree c o' o) :
    o'.status = .unchanged ↔ o.status = .unchanged := by
  cases h <;> simp

/-- Treated alike, files are foretold one by one, and none is unchanged in one run only. -/
theorem foretells_of_treated (hfree : ∀ c ∈ cs, ¬ FailsToWrite strict locks tree c)
    (hchecked : List.Forall₂ (Treated strict true locks tree tree₁) cs os')
    (hwritten : List.Forall₂ (Treated strict false locks tree tree') cs os) :
    List.Forall₂ (fun c told => Foretells strict locks.reading tree c told.1 told.2) cs
        (os'.zip os) ∧
      ((∃ o ∈ os', o.status ≠ .unchanged) ↔ ∃ o ∈ os, o.status ≠ .unchanged) := by
  induction hchecked generalizing os with
  | nil =>
    cases hwritten
    exact ⟨.nil, Iff.rfl⟩
  | cons hc' _ ih =>
    cases hwritten with
    | cons hc hcs =>
      rw [List.forall_mem_cons] at hfree
      have hhead := foretells_of_alone hfree.1 hc'.alone hc.alone
      obtain ⟨hrest, hiff⟩ := ih hfree.2 hcs
      refine ⟨.cons hhead hrest, ?_⟩
      rw [List.exists_mem_cons_iff, List.exists_mem_cons_iff, ne_eq, ne_eq, hhead.unchanged_iff, hiff]

theorem RunsTo.congr (h : RunsTo strict check locks tree tree₁ cs os)
    (hread : ∀ place, tree'.read place = tree₁.read place) :
    RunsTo strict check locks tree tree' cs os := by
  refine ⟨h.treated.imp ?_, ?_⟩
  · intro c o hc
    exact ⟨hc.alone, (hread c.place).symm ▸ hc.fares⟩
  · intro place hplace
    rw [hread, h.frame place hplace]

variable {p : Project} {disk disk' disk₁ : Disk} {summary checked written : Summary}

/-- However it goes, a run that has a summary has treated its files one by one. -/
theorem FormatsTo.exists_runsTo (h : disk.tree.Proper)
    (hrun : p.FormatsTo disk locks check disk' summary) :
    ∃ found, p.formatFiles disk.tree = .ok found ∧ summary = .ofOutcomes summary.outcomes ∧
      RunsTo p.settings.formatter.strict check locks disk.tree disk'.tree found.candidates
        summary.outcomes := by
  cases hrun with
  | inTurn _ hrun =>
    cases hfound : p.formatFiles disk.tree with
    | error e =>
      rw [formatLocked, hfound] at hrun
      cases hrun
    | ok found =>
      obtain ⟨tree', r, hends, heq⟩ := ends_formatLocked h hfound locks check
      rw [heq] at hrun
      cases hends with
      | stops => cases hrun
      | returns hruns =>
        cases hrun
        exact ⟨found, rfl, rfl, hruns⟩
  | @pooled found order pool _ _ hfound hrun hsummary =>
    obtain ⟨os, hos, rfl⟩ := Option.map_eq_some_iff.1 hsummary
    have hsound := sound_formatFiles h hfound
    obtain ⟨-, -, hresults⟩ := Pool.run_start hsound.distinct
      (fun c held => exists_endsIn_formatTask _ check c locks held) hrun
    obtain ⟨tree', hturns, hread⟩ := hresults os hos
    have hends : Ends p.settings.formatter.strict check locks disk.tree found.candidates
        (formatCandidates p.settings.formatter.strict check locks disk.tree found.candidates) :=
      ends_formatCandidates hsound.distinct hsound.there
    rw [formatCandidates_eq, hturns] at hends
    cases hends with
    | returns hruns => exact ⟨found, hfound, rfl, hruns.congr hread⟩

/-- A run that only checks the files of a project comes to a summary. -/
theorem exists_formatsTo_of_check {found : Collected} (h : disk.tree.Proper)
    (hfound : p.formatFiles disk.tree = .ok found) (locks : Locks) :
    ∃ disk' summary, p.FormatsTo disk locks true disk' summary := by
  by_cases hturns : p.settings.concurrency ≤ 1
  · obtain ⟨tree', r, hends, heq⟩ := ends_formatLocked h hfound locks true
    cases hends with
    | stops _ hcheck => cases hcheck
    | returns => exact ⟨_, _, .inTurn hturns heq⟩
  · have hlimit : 1 ≤ p.settings.concurrency.toNat := by omega
    obtain ⟨order, pool, os, hrun, hos⟩ := Pool.exists_run_results
      (sound_formatFiles h hfound).distinct
      (fun c held => exists_endsIn_checkTask p.settings.formatter.strict c locks held) hlimit disk.tree
    have hsummary : pool.summary? = some (.ofOutcomes os) := by
      rw [Pool.summary?, hos]
      rfl
    exact ⟨_, _, .pooled (by omega) hfound hrun hsummary⟩

/-- Where a run that writes comes to a summary and no write fails, so does a run that only checks the
same files, and whichever way it goes it foretells the other. Both tell of the same files in the same
order. The check is to be noticed just where a file is not unchanged, which is so in both or in none. -/
theorem check_foretells_write (p : Project) (h : disk.tree.Proper)
    (hwrite : p.FormatsTo disk locks false disk' written)
    (hfree : ∀ found, p.formatFiles disk.tree = .ok found → ∀ c ∈ found.candidates,
      ¬ FailsToWrite p.settings.formatter.strict locks disk.tree c) :
    (∃ disk₁ checked, p.FormatsTo disk locks true disk₁ checked) ∧
    ∀ disk₁ checked, p.FormatsTo disk locks true disk₁ checked →
      ∃ found, p.formatFiles disk.tree = .ok found ∧
        checked.outcomes.map (·.file) = found.candidates.map (·.relative) ∧
        written.outcomes.map (·.file) = found.candidates.map (·.relative) ∧
        List.Forall₂ (fun c told => Foretells p.settings.formatter.strict locks.reading disk.tree c
          told.1 told.2) found.candidates (checked.outcomes.zip written.outcomes) ∧
        (checked.needsAttention true = true ↔ ∃ o ∈ checked.outcomes, o.status ≠ .unchanged) ∧
        (checked.needsAttention true = true ↔ ∃ o ∈ written.outcomes, o.status ≠ .unchanged) := by
  obtain ⟨found, hfound, hwritten, hruns⟩ := hwrite.exists_runsTo h
  refine ⟨exists_formatsTo_of_check h hfound locks, fun disk₁ checked hcheck => ⟨found, hfound, ?_⟩⟩
  obtain ⟨found', hfound', hchecked, hruns'⟩ := hcheck.exists_runsTo h
  cases hfound.symm.trans hfound'
  obtain ⟨hforetells, hiff⟩ := foretells_of_treated (hfree found hfound) hruns'.treated hruns.treated
  have hattention : checked.needsAttention true = true ↔
      ∃ o ∈ checked.outcomes, o.status ≠ .unchanged := by
    rw [hchecked]
    exact Summary.needsAttention_ofOutcomes checked.outcomes
  exact ⟨hruns'.files_eq, hruns.files_eq, hforetells, hattention, hattention.trans hiff⟩

/-- Where no file is locked against writing, no write fails. -/
theorem not_failsToWrite (hfree : locks.writing = []) : ¬ FailsToWrite strict locks tree c := by
  rintro ⟨d, bytes, e, hd, hbytes, hwrite⟩
  have hdecides := hd ▸ decides_decide strict false locks.reading tree c
  cases hdecides with
  | write _ hs =>
    obtain ⟨content, hread, -⟩ := hs
    obtain ⟨tree', hwritten, -⟩ := Candidate.exists_write (Candidate.read_eq_ok hread)
      (hfree ▸ List.not_mem_nil : c.place ∉ locks.writing) bytes
    rw [hwrite] at hwritten
    cases hwritten
  | _ => cases hbytes

/-- One file is formatted, one is no UTF-8 and one is left as it is. A check is to be noticed. -/
theorem check_foretells_write_of_three :
    let disk : Disk := ⟨.folder [(lit "a.json", .file (Utf8.encode (lit "[1]"))),
      (lit "b.json", .file [0x5B, 0xFF, 0x5D]), (lit "c.json", .file (Utf8.encode (lit "1\n")))], []⟩
    let p : Project := ⟨[], ⟨1, .default, ⟨[lit ".json"], [], false⟩, .default⟩, none⟩
    disk.tree.Proper ∧ ∃ disk' written, p.FormatsTo disk ⟨[], []⟩ false disk' written ∧
      written.outcomes.map (fun o => (o.file, o.status)) = [(lit "a.json", .formatted),
        (lit "b.json", .error), (lit "c.json", .unchanged)] ∧
      ∃ disk₁ checked, p.FormatsTo disk ⟨[], []⟩ true disk₁ checked ∧
        checked.outcomes.map (·.file) = [lit "a.json", lit "b.json", lit "c.json"] ∧
        checked.needsAttention true = true := by
  intro disk p
  have hproper : disk.tree.Proper := by
    refine .folder (by decide) fun e he => ?_
    simp only [List.mem_cons, List.not_mem_nil, or_false] at he
    rcases he with rfl | rfl | rfl <;> exact .file _
  have htold : (p.formatLocked disk ⟨[], []⟩ false).2.toOption.map
      (fun summary => summary.outcomes.map fun o => (o.file, o.status)) =
      some [(lit "a.json", .formatted), (lit "b.json", .error), (lit "c.json", .unchanged)] := by
    decide +kernel
  cases hrun : (p.formatLocked disk ⟨[], []⟩ false).2 with
  | error e =>
    rw [hrun] at htold
    cases htold
  | ok written =>
    rw [hrun] at htold
    have hwritten := Option.some.inj htold
    have hwrite : p.FormatsTo disk ⟨[], []⟩ false (p.formatLocked disk ⟨[], []⟩ false).1 written :=
      .inTurn (by decide) (Prod.ext rfl hrun)
    obtain ⟨⟨disk₁, checked, hcheck⟩, hforetells⟩ := check_foretells_write p hproper hwrite
      fun _ _ _ _ => not_failsToWrite rfl
    obtain ⟨found, -, hfiles, hfiles', -, -, hattention⟩ := hforetells disk₁ checked hcheck
    refine ⟨hproper, _, written, hwrite, hwritten, disk₁, checked, hcheck, ?_, hattention.2 ?_⟩
    · have hnames := congrArg (List.map Prod.fst) hwritten
      rw [List.map_map] at hnames
      exact (hfiles.trans hfiles'.symm).trans hnames
    · obtain ⟨o, ho, heq⟩ := List.mem_map.1 (hwritten ▸ List.mem_cons_self)
      exact ⟨o, ho, by rw [(Prod.mk.inj heq).2]; decide⟩

end Project

end ConfigCare
