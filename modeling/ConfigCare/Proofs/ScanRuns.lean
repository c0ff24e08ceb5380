import ConfigCare.Proofs.PooledRuns
import ConfigCare.Proofs.WalkedFiles

/-! A search of a whole project against the search of single files. A run reads the files that its walk
has found by their places and shares out the results; a single file is read by its path and shown by the
path it is given. Both tell the same of a file, whether it can be read or not, and so a run comes to what
its files come to one by one, in the order of the walk and with any number of workers. -/

namespace ConfigCare

namespace Files

variable {tree : Entry} {place : List Text} {found : Collected} {s : Selection} {names : List Text}

theorem joinWith_ne_nil (hne : names ≠ []) (h : ∀ n ∈ names, n ≠ []) :
    Text.joinWith ['/'] names ≠ [] := by
  obtain ⟨n, ns, rfl⟩ := List.exists_cons_of_ne_nil hne
  have hn : n ≠ [] := h n List.mem_cons_self
  by_cases hns : ns = []
  · subst hns
    exact hn
  · rw [Text.joinWith_cons _ _ hns]
    simp [hn]

/-- The path by which a file that was found is shown is never empty. -/
theorem relative_ne_nil (hfolder : tree.isFile = false) (hproper : tree.Proper) (hnamed : tree.Named)
    (hfound : collect s place tree = .ok found) : ∀ c ∈ found.candidates, c.relative ≠ [] := by
  intro c hc
  obtain ⟨content, hread⟩ := (sound_collect hproper hfound).there c hc
  have hnames := hnamed.isEntryName (Entry.read_eq_ok_iff.1 hread)
  obtain ⟨n, rfl⟩ | ⟨content, hfind, rfl⟩ | ⟨es, hfind, rfl⟩ := collect_eq_ok hfound
  · cases hc
  · obtain rfl := List.mem_singleton.1 hc
    have hne : place ≠ [] := by
      rintro rfl
      cases hfind
      cases hfolder
    rw [List.getLast?_eq_some_getLast hne]
    exact (hnames _ (List.getLast_mem hne)).ne_nil
  · obtain ⟨names, -, rfl⟩ := List.mem_map.1 hc
    refine joinWith_ne_nil ?_ fun n hn => (hnames n (List.mem_append_right _ hn)).ne_nil
    rintro rfl
    rw [Entry.read_append hfind] at hread
    cases hread

/-- No more files are looked into than were seen. -/
theorem candidates_le_visited (hproper : tree.Proper) (hfound : collect s place tree = .ok found) :
    found.candidates.length ≤ found.visited := by
  obtain ⟨n, rfl⟩ | ⟨content, -, rfl⟩ | ⟨es, hfind, rfl⟩ := collect_eq_ok hfound
  · exact Nat.zero_le n
  · exact le_refl 1
  · obtain ⟨seen, hfiles, hvisited, -⟩ := lists_walkFolder (s := s) (proper_find hproper hfind)
    rw [Walked.below, List.length_map, hfiles, hvisited]
    exact List.length_filter_le _ seen

namespace Candidate

variable {c : Candidate} {disk : Disk} {content : Bytes}

/-- A file is read by its path as it is by its place. -/
theorem readUnless_path (hnamed : disk.tree.Named) (hread : disk.tree.read c.place = .ok content)
    (refused : Refused) : disk.readUnless refused c.path = c.read refused disk.tree := by
  have hplace : Path.parentName ∉ c.place := fun hmem =>
    (hnamed.isEntryName (Entry.read_eq_ok_iff.1 hread) _ hmem).notAbove rfl
  have hfollow : disk.follow c.path = .ok c.place := Entry.follow_eq hplace disk.tree []
  rw [Disk.readUnless, hfollow]
  rfl

/-- A file that is there can be read unless it may not be. -/
theorem read_of_there (hread : tree.read c.place = .ok content) (refused : Refused) :
    c.read refused tree =
      if c.place ∈ refused then .error ⟨.denied, c.path.text⟩ else .ok content := by
  rw [read, hread]
  simp only [List.contains_iff_mem]
  rfl

end Candidate

end Files

namespace Project

open Files Secret
open Text (lit)

variable {p : Project} {disk : Disk} {refused : Refused} {rules : List CompiledRule} {c : Candidate}
  {found : Collected} {r : ScanResult} {content : Bytes}

/-! ## Single files -/

theorem shownPath_of_ne_nil {display : Text} (h : display ≠ []) (path : Path) :
    shownPath path (some display) = display := by
  obtain ⟨c, cs, rfl⟩ := List.exists_cons_of_ne_nil h
  rfl

/-- Searched by itself, a file gives what it gives in a run. -/
theorem scanFileSafe_eq (hread : disk.readUnless refused c.path = c.read refused disk.tree)
    (hshown : c.relative ≠ []) :
    scanFileSafe rules disk refused c.path (some c.relative) =
      scanContent rules c.relative (c.read refused disk.tree) := by
  rw [scanFileSafe, scanFile, hread, shownPath_of_ne_nil hshown]
  cases c.read refused disk.tree <;> rfl

/-- What a file that is there gives in a run: no finding and one error if it may not be read, and the
findings in its content otherwise. -/
theorem scanContent_of_there (hread : disk.tree.read c.place = .ok content) (refused : Refused) :
    scanContent rules c.relative (c.read refused disk.tree) =
      if c.place ∈ refused then
        ([], some (lit "Could not read file " ++ c.relative ++ lit ": denied"))
      else (Secret.scan rules (textOf content) c.relative, none) := by
  rw [Candidate.read_of_there hread]
  split
  · rw [scanContent, List.append_assoc]
    rfl
  · rfl

/-! ## Runs -/

/-- What a search knows before it reads a file: the rules of its registry, and what its walk has found. -/
theorem scanPlan_eq_ok_iff : p.scanPlan disk = .ok (rules, found) ↔ ∃ registry s,
    Registry.load disk (some (p.patternsPath disk.tree)) = .ok registry ∧
      Secret.compile registry.rules = .ok rules ∧
      Selection.ofGlobs registry.ignoreGlobs registry.extensions true = .ok s ∧
      collect s p.place disk.tree = .ok found := by
  unfold scanPlan
  cases Registry.load disk (some (p.patternsPath disk.tree)) with
  | error e => simp
  | ok registry =>
    simp only [Except.ok.injEq, exists_and_left, exists_eq_left']
    cases Secret.compile registry.rules with
    | error e => simp
    | ok compiled =>
      simp only [scanFiles]
      cases Selection.ofGlobs registry.ignoreGlobs registry.extensions true with
      | error e => simp [Except.map]
      | ok s =>
        cases hcollect : collect s p.place disk.tree <;>
          simp [Except.map, Except.mapError, hcollect]

theorem collect_of_scanPlan (hplan : p.scanPlan disk = .ok (rules, found)) :
    ∃ s, collect s p.place disk.tree = .ok found := by
  obtain ⟨-, s, -, -, -, hcollect⟩ := scanPlan_eq_ok_iff.1 hplan
  exact ⟨s, hcollect⟩

/-- However a search goes, it comes to the result of its files in turn. -/
theorem ScansTo.eq_scanCandidates (hproper : disk.tree.Proper)
    (hplan : p.scanPlan disk = .ok (rules, found)) (hrun : p.ScansTo disk refused r) :
    r = scanCandidates rules refused disk.tree (Path.ofPlace (p.base disk.tree)).text found := by
  cases hrun with
  | inTurn _ hrun =>
    rw [scan, hplan] at hrun
    exact (Except.ok.inj hrun).symm
  | pooled _ hplan' hrun hresult =>
    cases hplan.symm.trans hplan'
    obtain ⟨s, hcollect⟩ := collect_of_scanPlan hplan
    obtain ⟨scanned, hscanned, rfl⟩ := Option.map_eq_some_iff.1 hresult
    obtain ⟨-, -, hresults⟩ := Pool.run_start (sound_collect hproper hcollect).distinct
      (exists_endsIn_scanTask rules ⟨refused, []⟩) hrun
    obtain ⟨tree', hturns, -⟩ := hresults scanned hscanned
    rw [carryOutInTurn_scanTask] at hturns
    cases hturns
    rfl

/-- A search that knows its rules and its files comes to a result. -/
theorem exists_scansTo (hproper : disk.tree.Proper) (hplan : p.scanPlan disk = .ok (rules, found))
    (refused : Refused) : ∃ r, p.ScansTo disk refused r := by
  by_cases hturns : p.settings.concurrency ≤ 1
  · exact ⟨_, .inTurn hturns (by rw [scan, hplan])⟩
  · obtain ⟨s, hcollect⟩ := collect_of_scanPlan hplan
    have hends (c : Candidate) (held : Except AccessFault Bytes) :
        ∃ n ≤ 2, ∃ a left, (scanTask rules c).EndsIn c ⟨refused, []⟩ held n (.ok a) left := by
      obtain ⟨n, hn, h⟩ := endsIn_scanTask rules c ⟨refused, []⟩ held
      exact ⟨n, hn, _, _, h⟩
    have hlimit : 1 ≤ p.settings.concurrency.toNat := by omega
    obtain ⟨order, pool, scanned, hrun, hscanned⟩ := Pool.exists_run_results
      (sound_collect hproper hcollect).distinct hends hlimit disk.tree
    exact ⟨_, .pooled (by omega) hplan hrun (by rw [Pool.scanResult?, hscanned]; rfl)⟩

/-- Without rules or files to search, no result is come to. -/
theorem not_scansTo {e : ScanError} (hplan : p.scanPlan disk = .error e) :
    ¬ p.ScansTo disk refused r := by
  intro hrun
  cases hrun with
  | inTurn _ hrun =>
    rw [scan, hplan] at hrun
    cases hrun
  | pooled _ hplan' =>
    rw [hplan] at hplan'
    cases hplan'

/-- A file that is found is there, and searched by itself it gives what it gives in a run. -/
theorem exists_content_of_found (h : disk.Proper) (hplan : p.scanPlan disk = .ok (rules, found))
    (hc : c ∈ found.candidates) :
    ∃ content, disk.tree.read c.place = .ok content ∧ ∀ refused,
      scanFileSafe rules disk refused c.path (some c.relative) =
        scanContent rules c.relative (c.read refused disk.tree) := by
  obtain ⟨s, hcollect⟩ := collect_of_scanPlan hplan
  obtain ⟨content, hread⟩ := (sound_collect h.distinct hcollect).there c hc
  have hshown := relative_ne_nil h.folder h.distinct h.named hcollect c hc
  exact ⟨content, hread, fun refused => scanFileSafe_eq (c.readUnless_path h.named hread refused) hshown⟩

/-- However a search goes, it comes to the result of its files searched one by one. -/
theorem ScansTo.eq_alone (h : disk.Proper) (hplan : p.scanPlan disk = .ok (rules, found))
    (hrun : p.ScansTo disk refused r) :
    r = { root := (Path.ofPlace (p.base disk.tree)).text
          candidates := found.candidates.length
          visited := found.visited
          findings := found.candidates.flatMap fun c =>
            (scanFileSafe rules disk refused c.path (some c.relative)).1
          errors := found.candidates.filterMap fun c =>
            (scanFileSafe rules disk refused c.path (some c.relative)).2 } := by
  have hmap : (found.candidates.map fun c => scanContent rules c.relative (c.read refused disk.tree)) =
      found.candidates.map fun c => scanFileSafe rules disk refused c.path (some c.relative) :=
    List.map_congr_left fun c hc => by
      obtain ⟨-, -, halone⟩ := exists_content_of_found h hplan hc
      exact (halone refused).symm
  rw [hrun.eq_scanCandidates h.distinct hplan, scanCandidates, hmap, List.map_map, List.filterMap_map,
    ScanResult.ofFiles, ← List.flatMap_def]
  rfl

/-- A search comes to the result of its files searched one by one, and always does once its rules and
its files are known: the findings and the errors in the order of the walk, with the number of the files
and of those that the walk has seen. Each file that may not be read gives one error and no finding, each
other one the findings in it; so where more files may not be read, the findings and errors of all others
stay as they are. -/
theorem scan_comes_file_by_file (p : Project) {disk : Disk} (h : disk.Proper) (refused : Refused) :
    (∀ e, p.scanPlan disk = .error e →
      p.scan disk refused = .error e ∧ ∀ r, ¬ p.ScansTo disk refused r) ∧
    ∀ rules found, p.scanPlan disk = .ok (rules, found) →
      let alone (c : Candidate) := scanFileSafe rules disk refused c.path (some c.relative)
      let unread (c : Candidate) := lit "Could not read file " ++ c.relative ++ lit ": denied"
      (∃ r, p.ScansTo disk refused r) ∧
      ∀ r, p.ScansTo disk refused r →
        r = { root := (Path.ofPlace (p.base disk.tree)).text
              candidates := found.candidates.length
              visited := found.visited
              findings := found.candidates.flatMap fun c => (alone c).1
              errors := found.candidates.filterMap fun c => (alone c).2 } ∧
        r.candidates ≤ r.visited ∧
        r.errors.length = found.candidates.countP (fun c => c.place ∈ refused) ∧
        (∀ c ∈ found.candidates, ∃ content, disk.tree.read c.place = .ok content ∧
          alone c = if c.place ∈ refused then ([], some (unread c))
            else (Secret.scan rules (textOf content) c.relative, none)) ∧
        ∀ more r', p.ScansTo disk (more ++ refused) r' →
          r' = { r with
            findings := found.candidates.flatMap fun c =>
              if c.place ∈ more then [] else (alone c).1
            errors := found.candidates.filterMap fun c =>
              if c.place ∈ more then some (unread c) else (alone c).2 } := by
  refine ⟨fun e hplan => ⟨by rw [scan, hplan], fun r => not_scansTo hplan⟩, fun rules found hplan => ?_⟩
  intro alone unread
  refine ⟨exists_scansTo h.distinct hplan refused, fun r hrun => ?_⟩
  have hresult := hrun.eq_alone h hplan
  obtain ⟨s, hcollect⟩ := collect_of_scanPlan hplan
  have hgives (c : Candidate) (hc : c ∈ found.candidates) :
      ∃ content, disk.tree.read c.place = .ok content ∧ ∀ refused,
        scanFileSafe rules disk refused c.path (some c.relative) =
          if c.place ∈ refused then ([], some (unread c))
          else (Secret.scan rules (textOf content) c.relative, none) := by
    obtain ⟨content, hread, halone⟩ := exists_content_of_found h hplan hc
    exact ⟨content, hread, fun refused => (halone refused).trans (scanContent_of_there hread refused)⟩
  refine ⟨hresult, ?_, ?_, fun c hc => ?_, fun more r' hrun' => ?_⟩
  · rw [hresult]
    exact candidates_le_visited h.distinct hcollect
  · rw [hresult, List.length_filterMap_eq_countP]
    refine List.countP_congr fun c hc => ?_
    obtain ⟨content, -, halone⟩ := hgives c hc
    rw [halone]
    split <;> simp_all
  · obtain ⟨content, hread, halone⟩ := hgives c hc
    exact ⟨content, hread, halone refused⟩
  · have hmore (c : Candidate) (hc : c ∈ found.candidates) :
        scanFileSafe rules disk (more ++ refused) c.path (some c.relative) =
          if c.place ∈ more then ([], some (unread c)) else alone c := by
      obtain ⟨content, -, halone⟩ := hgives c hc
      simp only [alone, halone, List.mem_append]
      split_ifs <;> simp_all
    rw [hrun'.eq_alone h hplan, hresult]
    congr 1
    · refine List.flatMap_congr fun c hc => ?_
      rw [hmore c hc]
      split <;> rfl
    · refine List.filterMap_congr fun c hc => ?_
      rw [hmore c hc]
      split <;> rfl

/-- Two workers search a folder of four files: the text file is seen and not looked into, and one of the
others may not be read. Where another one may not be read either, the first keeps its finding. -/
theorem scan_comes_file_by_file_of_two_workers :
    let secret := Entry.file (Utf8.encode (lit "password = \"hunter22\""))
    let disk : Disk := ⟨.folder [(lit "d.toml", secret), (lit "a.toml", secret), (lit "b.toml", secret),
      (lit "c.txt", secret)], []⟩
    let p : Project := ⟨[], ⟨2, .default, .default, .default⟩, none⟩
    disk.Proper ∧ ∃ r, p.ScansTo disk [[lit "b.toml"]] r ∧ r.candidates = 3 ∧ r.visited = 4 ∧
      r.findings.map (·.file) = [lit "a.toml", lit "d.toml"] ∧
      r.errors = [lit "Could not read file b.toml: denied"] ∧
      ∀ r', p.ScansTo disk ([[lit "d.toml"]] ++ [[lit "b.toml"]]) r' →
        r'.findings.map (·.file) = [lit "a.toml"] ∧ r'.errors.length = 2 := by
  intro secret disk p
  have hproper : disk.Proper := by
    refine ⟨rfl, .folder (by decide) fun e he => ?_, .folder (fun e he => ?_) fun e he => ?_⟩ <;>
      simp only [List.mem_cons, List.not_mem_nil, or_false] at he <;>
      rcases he with rfl | rfl | rfl | rfl
    all_goals first
      | exact .file _
      | exact ⟨by decide, by decide, by decide, by decide⟩
  let a : Candidate := ⟨[lit "a.toml"], lit "a.toml"⟩
  let b : Candidate := ⟨[lit "b.toml"], lit "b.toml"⟩
  let d : Candidate := ⟨[lit "d.toml"], lit "d.toml"⟩
  have hplanned : (p.scanPlan disk).toOption.map (fun plan => (plan.2, plan.2.candidates.map fun c =>
      (scanFileSafe plan.1 disk [[lit "b.toml"]] c.path (some c.relative)).1.map (·.file))) =
      some (⟨[a, b, d], 4⟩, [[lit "a.toml"], [], [lit "d.toml"]]) := by
    decide +kernel
  cases hplan : p.scanPlan disk with
  | error e =>
    rw [hplan] at hplanned
    cases hplanned
  | ok plan =>
    obtain ⟨rules, found⟩ := plan
    rw [hplan] at hplanned
    obtain ⟨rfl, hfiles⟩ := Prod.mk.inj (Option.some.inj hplanned)
    simp only [List.map_cons, List.map_nil, List.cons.injEq, and_true] at hfiles
    obtain ⟨ha, hb, hd⟩ := hfiles
    obtain ⟨⟨r, hrun⟩, hruns⟩ :=
      (scan_comes_file_by_file p hproper [[lit "b.toml"]]).2 rules _ hplan
    obtain ⟨hr, -, -, halone, hmore⟩ := hruns r hrun
    obtain ⟨_, -, ha'⟩ := halone a (by simp)
    obtain ⟨_, -, hb'⟩ := halone b (by simp)
    obtain ⟨_, -, hd'⟩ := halone d (by simp)
    rw [if_neg (by decide)] at ha' hd'
    rw [if_pos (by decide)] at hb'
    refine ⟨hproper, r, hrun, by rw [hr]; rfl, by rw [hr], ?_, ?_, fun r' hrun' => ?_⟩
    · rw [hr]
      simp only [List.flatMap_cons, List.flatMap_nil, List.map_append, List.map_nil, ha, hb, hd]
      rfl
    · rw [hr]
      simp only [List.filterMap_cons, List.filterMap_nil, ha', hb', hd']
      rfl
    · have hafree : a.place ∉ [[lit "d.toml"]] := by decide
      have hbfree : b.place ∉ [[lit "d.toml"]] := by decide
      have hdmore : d.place ∈ [[lit "d.toml"]] := by decide
      rw [hmore _ r' hrun']
      constructor
      · simp only [List.flatMap_cons, List.flatMap_nil, List.map_append, List.map_nil, if_neg hafree,
          if_neg hbfree, if_pos hdmore, ha, hb]
        rfl
      · simp only [List.filterMap_cons, List.filterMap_nil, if_neg hafree, if_neg hbfree, if_pos hdmore,
          ha', hb']
        rfl

end Project

end ConfigCare
