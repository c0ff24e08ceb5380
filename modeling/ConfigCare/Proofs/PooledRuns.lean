import ConfigCare.Proofs.Pools

/-! Searches and format runs by a pool of workers. However many of them are at work, and in whatever
order they take their steps, the results and the files come out as they do one file after another, on
a disk without links. -/

namespace ConfigCare.Project

open Files Format Secret
open Text (lit)

theorem carryOut_scanTask (rules : List CompiledRule) (c : Candidate) (locks : Locks) (tree : Entry) :
    (scanTask rules c).carryOut c locks tree =
      (tree, .ok (scanContent rules c.relative (c.read locks.reading tree))) := by
  rw [scanTask, Task.carryOut]
  cases hread : c.read locks.reading tree with
  | error e => rfl
  | ok bytes =>
    cases hdecode : Utf8.decode bytes with
    | ok s => simp only [hdecode, Task.carryOut, scanContent, textOf]
    | error e => simp only [hdecode, Task.carryOut, hread, scanContent, textOf]

theorem carryOutInTurn_scanTask (rules : List CompiledRule) (locks : Locks) (tree : Entry)
    (cs : List Candidate) :
    carryOutInTurn (scanTask rules) locks tree cs =
      (tree, .ok (cs.map fun c => scanContent rules c.relative (c.read locks.reading tree))) := by
  induction cs with
  | nil => rfl
  | cons c cs ih =>
    rw [carryOutInTurn, carryOut_scanTask]
    simp only [ih]
    rfl

theorem exists_endsIn_scanTask (rules : List CompiledRule) (locks : Locks) (c : Candidate)
    (held : Except AccessFault Bytes) :
    ∃ n ≤ 2, ∃ r left, (scanTask rules c).EndsIn c locks held n r left := by
  obtain ⟨n, hn, h⟩ := endsIn_scanTask rules c locks held
  exact ⟨n, hn, _, _, h⟩

/-- A pool that has come to its end with no worker that has raised has all results. -/
theorem Pool.AtEnd.exists_results {ε α : Type} {pool : Pool ε α} {locks : Locks} {limit : Nat}
    (hend : pool.AtEnd locks limit) (hlimit : 1 ≤ limit)
    (hraised : ∀ v ∈ pool.workers, v.2.isRaised = false) : ∃ as, pool.results? = some as := by
  refine exists_mapM_result fun v hv => ?_
  obtain hreturned | ⟨e, he⟩ := hend.isReturned_or_isRaised hlimit v hv
  · exact hreturned
  · have hfalse := hraised v hv
    rw [he] at hfalse
    cases hfalse

/-- A pool comes to what comes out file after file, whatever order its workers take their steps in. No
order goes on for ever, nor are there ever more workers at work than the pool lets in. When no worker can
take a step, a search has the same results in the order of the files; so has a format run in which none
has raised, and the files hold the same. -/
theorem pool_comes_to_turns (found : Collected)
    (hdistinct : (found.candidates.map Candidate.place).Nodup) {limit : Nat} (hlimit : 1 ≤ limit)
    (locks : Locks) (tree : Entry) :
    (∀ rules root order pool,
      (Pool.start (scanTask rules) tree found.candidates).run? locks limit order = some pool →
        order.length ≤ 4 * found.candidates.length ∧ pool.active ≤ limit ∧
        (pool.AtEnd locks limit →
          pool.results? = some (found.candidates.map fun c =>
            scanContent rules c.relative (c.read locks.reading tree)) ∧
          pool.scanResult? root found =
            some (scanCandidates rules locks.reading tree root found) ∧
          ∀ place, pool.tree.read place = tree.read place)) ∧
    ∀ strict check order pool,
      (Pool.start (formatTask strict check) tree found.candidates).run? locks limit order = some pool →
        order.length ≤ 4 * found.candidates.length ∧ pool.active ≤ limit ∧
        (pool.AtEnd locks limit → (∀ v ∈ pool.workers, v.2.isRaised = false) → ∃ tree' os,
          formatCandidates strict check locks tree found.candidates = (tree', .ok os) ∧
          pool.results? = some os ∧ pool.summary? = some (.ofOutcomes os) ∧
          ∀ place, pool.tree.read place = tree'.read place) := by
  constructor
  · intro rules root order pool hrun
    obtain ⟨hlength, hactive, hresults⟩ :=
      Pool.run_start hdistinct (exists_endsIn_scanTask rules locks) hrun
    refine ⟨hlength, hactive, fun hend => ?_⟩
    have hraised : ∀ v ∈ pool.workers, v.2.isRaised = false := by
      rintro ⟨c, w⟩ -
      cases w with
      | raised e => exact e.elim
      | _ => rfl
    obtain ⟨scanned, hscanned⟩ := hend.exists_results hlimit hraised
    obtain ⟨tree', hturns, htree⟩ := hresults scanned hscanned
    rw [carryOutInTurn_scanTask] at hturns
    cases hturns
    refine ⟨hscanned, ?_, htree⟩
    rw [Pool.scanResult?, hscanned]
    rfl
  · intro strict check order pool hrun
    obtain ⟨hlength, hactive, hresults⟩ :=
      Pool.run_start hdistinct (fun c held => exists_endsIn_formatTask strict check c locks held) hrun
    refine ⟨hlength, hactive, fun hend hraised => ?_⟩
    obtain ⟨os, hos⟩ := hend.exists_results hlimit hraised
    obtain ⟨tree', hturns, htree⟩ := hresults os hos
    refine ⟨tree', os, (formatCandidates_eq ..).trans hturns, hos, ?_, htree⟩
    rw [Pool.summary?, hos]
    rfl

/-- Two files are formatted by two workers that take their steps in turn. -/
theorem pool_comes_to_turns_of_two :
    let tree : Entry := .folder [(lit "a.json", .file (Utf8.encode (lit "[1]"))),
      (lit "b.json", .file (Utf8.encode (lit "[2]")))]
    let found : Collected := ⟨[⟨[lit "a.json"], lit "a.json"⟩, ⟨[lit "b.json"], lit "b.json"⟩], 2⟩
    (found.candidates.map Candidate.place).Nodup ∧
    ∃ pool tree', (Pool.start (formatTask false false) tree found.candidates).run? ⟨[], []⟩ 2
        [0, 1, 0, 1, 1, 0, 1, 0] = some pool ∧
      formatCandidates false false ⟨[], []⟩ tree found.candidates =
        (tree', .ok [⟨lit "a.json", .formatted, none⟩, ⟨lit "b.json", .formatted, none⟩]) ∧
      ∀ place, pool.tree.read place = tree'.read place := by
  intro tree found
  have hdistinct : (found.candidates.map Candidate.place).Nodup := by decide
  have hresults : ((Pool.start (formatTask false false) tree found.candidates).run? ⟨[], []⟩ 2
      [0, 1, 0, 1, 1, 0, 1, 0]).bind Pool.results? =
        some [⟨lit "a.json", .formatted, none⟩, ⟨lit "b.json", .formatted, none⟩] := by
    decide +kernel
  obtain ⟨pool, hrun, hos⟩ := Option.bind_eq_some_iff.1 hresults
  obtain ⟨-, hformat⟩ := pool_comes_to_turns found hdistinct (by decide : 1 ≤ 2) ⟨[], []⟩ tree
  obtain ⟨-, -, hcomes⟩ := hformat false false _ pool hrun
  have hraised : ∀ v ∈ pool.workers, v.2.isRaised = false := by
    intro v hv
    obtain ⟨a, ha⟩ := returned_of_mapM_result hos v hv
    rw [ha]
    rfl
  obtain ⟨tree', os, hturns, hos', -, htree⟩ := hcomes (Pool.atEnd_of_results hos _ _) hraised
  rw [hos] at hos'
  cases hos'
  exact ⟨hdistinct, pool, tree', hrun, hturns, htree⟩

end ConfigCare.Project
