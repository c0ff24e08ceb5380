import ConfigCare.Proofs.FormatRuns

/-! What a format run changes on the disk: the files it tells as formatted and no others, and each of
these then holds the formatted text. So it is also if the run ends early. A disk holds no links, through
which a file that is told as unchanged could be changed at another place. -/

namespace ConfigCare

theorem Files.Candidate.read_eq_ok {c : Candidate} {refused : Refused} {tree : Entry} {bytes : Bytes}
    (h : c.read refused tree = .ok bytes) : tree.read c.place = .ok bytes := by
  unfold Candidate.read at h
  split at h
  · cases h
  · cases hread : tree.read c.place with
    | error fault => rw [hread] at h; cases h
    | ok content => rw [hread] at h; cases h; rfl

namespace Project

open Files Format
open Text (lit)

variable {strict check : Bool} {locks : Locks} {tree tree' : Entry} {c : Candidate}
  {cs : List Candidate} {o : Outcome} {os : List Outcome}

/-- A file that held the UTF-8 of a text, and holds that of the formatted text. -/
def Rewritten (strict : Bool) (tree tree' : Entry) (c : Candidate) : Prop :=
  ∃ bytes s t, tree.read c.place = .ok bytes ∧ Utf8.decode bytes = .ok s ∧
    document s c.extension strict = .ok t ∧ tree'.read c.place = .ok (Utf8.encode t)

/-- A file is told as formatted where it is rewritten, and with other bytes; all others stay. -/
theorem Treated.kept_or_rewritten (h : Treated strict check locks tree tree' c o) :
    (tree'.read c.place = tree.read c.place ∧ o.status ≠ .formatted) ∨
      (check = false ∧ o.status = .formatted ∧ Rewritten strict tree tree' c ∧
        tree'.read c.place ≠ tree.read c.place) := by
  have hfares := h.fares
  generalize hafter : tree'.read c.place = after at hfares
  cases hfares with
  | formatted hcheck hs hdocument hdiffers =>
    next s t _ =>
    obtain ⟨bytes, hread, hdecode⟩ := hs
    have hbefore := Candidate.read_eq_ok hread
    refine .inr ⟨hcheck, rfl, ⟨bytes, s, t, hbefore, hdecode, hdocument, hafter⟩, fun heq => ?_⟩
    rw [hbefore, Except.ok.injEq] at heq
    rw [← heq, Utf8.decode_encode, Except.ok.injEq] at hdecode
    exact hdiffers hdecode
  | _ => exact .inl ⟨rfl, nofun⟩

theorem Fares.file_eq {after : Except AccessFault Bytes}
    (h : Fares strict check locks tree c o after) : o.file = c.relative := by
  cases h <;> rfl

namespace RunsTo

variable (h : RunsTo strict check locks tree tree' cs os)

include h

theorem files_eq : os.map (·.file) = cs.map (·.relative) := by
  rw [eq_comm, ← List.forall₂_eq_eq_eq, List.forall₂_map_left_iff, List.forall₂_map_right_iff]
  exact h.treated.imp fun _ _ htreated => htreated.fares.file_eq.symm

/-- Every place reads as before, or the file there is rewritten. -/
theorem kept_or_rewritten (place : List Text) :
    tree'.read place = tree.read place ∨
      check = false ∧ ∃ c ∈ cs, c.place = place ∧ Rewritten strict tree tree' c := by
  by_cases hplace : ∃ c ∈ cs, c.place = place
  · obtain ⟨c, hc, rfl⟩ := hplace
    obtain ⟨o, -, htreated⟩ := h.exists_treated hc
    rcases htreated.kept_or_rewritten with ⟨hkept, -⟩ | ⟨hcheck, -, hrewritten, -⟩
    · exact .inl hkept
    · exact .inr ⟨hcheck, c, hc, rfl, hrewritten⟩
  · exact .inl (h.frame place fun c hc heq => hplace ⟨c, hc, heq⟩)

theorem changed_iff (place : List Text) :
    tree'.read place ≠ tree.read place ↔
      ∃ told ∈ cs.zip os, told.1.place = place ∧ told.2.status = .formatted := by
  constructor
  · intro hchanged
    obtain ⟨-, c, hc, rfl, -⟩ := (h.kept_or_rewritten place).resolve_left hchanged
    obtain ⟨o, ho, htreated⟩ := h.exists_treated hc
    rcases htreated.kept_or_rewritten with ⟨hkept, -⟩ | ⟨-, hformatted, -⟩
    · exact absurd hkept hchanged
    · exact ⟨(c, o), ho, rfl, hformatted⟩
  · rintro ⟨⟨c, o⟩, ho, rfl, hformatted⟩
    rcases (List.forall₂_zip h.treated ho).kept_or_rewritten with ⟨-, hother⟩ | ⟨-, -, -, hchanged⟩
    · exact absurd hformatted hother
    · exact hchanged

end RunsTo

theorem Decides.bytes_of_check {refused : Refused} {d : Decision}
    (h : Decides strict true refused tree c (.ok d)) : d.bytes = none := by
  cases h with
  | write hcheck => cases hcheck
  | _ => rfl

/-- A run that only checks carries out nothing. -/
theorem formatCandidates_of_check (strict : Bool) (locks : Locks) (tree : Entry)
    (cs : List Candidate) : (formatCandidates strict true locks tree cs).1 = tree := by
  induction cs with
  | nil => rfl
  | cons c cs ih =>
    rw [formatCandidates]
    cases hd : decide strict true c.extension (c.read locks.reading tree) with
    | error e => rfl
    | ok d =>
      have hdecides := hd ▸ decides_decide strict true locks.reading tree c
      simp only [Decision.apply, hdecides.bytes_of_check]
      exact ih

/-- What a format run leaves on the disk, whether it returns or not. Every file holds what it held, or
in a run that writes the formatted text of what it held, and then it is one of the files that the run is
about. If the run returns, the files told as formatted are those that hold other bytes. A run that only
checks leaves all as it is. -/
theorem formatLocked_changes_formatted (p : Project) {disk : Disk} (h : disk.tree.Proper)
    (locks : Locks) (check : Bool) :
    let run := p.formatLocked disk locks check
    run.1.here = disk.here ∧
    (∀ place, run.1.tree.read place = disk.tree.read place ∨
      check = false ∧ ∃ found, p.formatFiles disk.tree = .ok found ∧
        ∃ c ∈ found.candidates, c.place = place ∧
          Rewritten p.settings.formatter.strict disk.tree run.1.tree c) ∧
    (∀ summary, run.2 = .ok summary → ∃ found, p.formatFiles disk.tree = .ok found ∧
      summary.outcomes.map (·.file) = found.candidates.map (·.relative) ∧
      ∀ place, run.1.tree.read place ≠ disk.tree.read place ↔
        ∃ told ∈ found.candidates.zip summary.outcomes,
          told.1.place = place ∧ told.2.status = .formatted) ∧
    (check = true → run.1 = disk) := by
  intro run
  cases hfound : p.formatFiles disk.tree with
  | error e =>
    have hrun : run = (disk, .error e) := by simp only [run, formatLocked, hfound]
    simp [hrun]
  | ok found =>
    obtain ⟨tree', r, hr, heq⟩ := ends_formatLocked h hfound locks check
    have hrun : run = ({ disk with tree := tree' }, (r.map Summary.ofOutcomes).mapError .encoding) := heq
    have hcheck : check = true → run.1 = disk := by
      rintro rfl
      simp only [run, formatLocked, hfound, formatCandidates_of_check]
    have hplaces : ∀ place, tree'.read place = disk.tree.read place ∨
        check = false ∧ ∃ c ∈ found.candidates, c.place = place ∧
          Rewritten p.settings.formatter.strict disk.tree tree' c := by
      intro place
      cases hr with
      | returns hruns => exact hruns.kept_or_rewritten place
      | stops hcs _ _ hruns =>
        refine (hruns.kept_or_rewritten place).imp_right ?_
        rintro ⟨hcheck, c, hc, hrewritten⟩
        exact ⟨hcheck, c, by simp [hcs, hc], hrewritten⟩
    refine ⟨by rw [hrun], fun place => ?_, fun summary hsummary => ⟨found, rfl, ?_⟩, hcheck⟩
    · rw [hrun]
      refine (hplaces place).imp_right ?_
      rintro ⟨hcheck, hc⟩
      exact ⟨hcheck, found, rfl, hc⟩
    · rw [hrun] at hsummary ⊢
      cases hr with
      | stops => cases hsummary
      | returns hruns =>
        cases hsummary
        exact ⟨hruns.files_eq, hruns.changed_iff⟩

/-- A file is formatted, one that is no UTF-8 stays, and so does one that is ignored. -/
theorem formatLocked_changes_formatted_of_three :
    let disk : Disk := ⟨.folder [(lit "a.json", .file (Utf8.encode (lit "[1]"))),
      (lit "b.json", .file [0x5B, 0xFF, 0x5D]),
      (lit "dist", .folder [(lit "c.json", .file (Utf8.encode (lit "[1]")))])], []⟩
    let p : Project := ⟨[], ⟨1, .default, ⟨[lit ".json"], [lit "dist"], false⟩, .default⟩, none⟩
    let run := p.formatLocked disk ⟨[], []⟩ false
    disk.tree.Proper ∧
      run.2.toOption.map (fun summary => summary.outcomes.map fun o => (o.file, o.status)) =
        some [(lit "a.json", .formatted), (lit "b.json", .error)] ∧
      run.1.tree.read [lit "a.json"] = .ok (Utf8.encode (lit "[\n  1\n]\n")) ∧
      ∀ place, place ≠ [lit "a.json"] → run.1.tree.read place = disk.tree.read place := by
  intro disk p run
  have hproper : disk.tree.Proper := by
    refine .folder (by decide) fun e he => ?_
    simp only [List.mem_cons, List.not_mem_nil, or_false] at he
    rcases he with rfl | rfl | rfl
    · exact .file _
    · exact .file _
    · exact .folder (by decide) (by simpa using .file _)
  obtain ⟨-, -, hreturns, -⟩ := formatLocked_changes_formatted p hproper ⟨[], []⟩ false
  have hcandidates : (p.formatFiles disk.tree).toOption.map (·.candidates) =
      some [⟨[lit "a.json"], lit "a.json"⟩, ⟨[lit "b.json"], lit "b.json"⟩] := by decide +kernel
  have hstatus : run.2.toOption.map (fun summary => summary.outcomes.map (·.status)) =
      some [.formatted, .error] := by decide +kernel
  refine ⟨hproper, by decide +kernel, by decide +kernel, fun place hplace => ?_⟩
  cases hrun : run.2 with
  | error e => rw [hrun] at hstatus; cases hstatus
  | ok summary =>
    obtain ⟨found, hfound, -, hchanged⟩ := hreturns summary hrun
    rw [hfound] at hcandidates
    rw [hrun] at hstatus
    have hfiles : found.candidates = [⟨[lit "a.json"], lit "a.json"⟩, ⟨[lit "b.json"], lit "b.json"⟩] :=
      Option.some.inj hcandidates
    obtain ⟨o, o', houtcomes, -, herror⟩ : ∃ o o', summary.outcomes = [o, o'] ∧
        o.status = .formatted ∧ o'.status = .error := by
      simpa [List.map_eq_cons_iff] using Option.some.inj hstatus
    by_contra hne
    obtain ⟨told, htold, hhere, hformatted⟩ := (hchanged place).1 hne
    rw [hfiles, houtcomes] at htold
    simp only [List.zip_cons_cons, List.zip_nil_right, List.mem_cons, List.not_mem_nil,
      or_false] at htold
    rcases htold with rfl | rfl
    · exact hplace hhere.symm
    · rw [herror] at hformatted
      cases hformatted

end Project

end ConfigCare
