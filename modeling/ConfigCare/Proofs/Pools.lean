import ConfigCare.Project.Pool
import ConfigCare.Proofs.FormatRuns

/-! Pools of workers. A worker reads and writes its own file only, and no two have the same one, as a
tree holds no links. So what a task comes to is decided by what its file holds: `Task.EndsIn`. Every
step of a pool keeps this for all workers, whichever takes it, and so a pool whose workers have all
returned has come to what they come to one after another. -/

namespace ConfigCare

namespace Files.Candidate

variable {c : Candidate} {refused : Refused} {tree : Entry} {content : Bytes}

/-- What reading a file gives that holds a content. -/
def seen (c : Candidate) (refused : Refused) (held : Except AccessFault Bytes) :
    Except AccessError Bytes :=
  if refused.contains c.place then .error ⟨.denied, c.path.text⟩
  else held.mapError fun fault => ⟨fault, c.path.text⟩

theorem write_of_mem (h : c.place ∈ refused) (b : Bytes) (tree : Entry) :
    c.write refused b tree = .error ⟨.denied, c.path.text⟩ :=
  if_pos (List.contains_iff_mem.2 h)

theorem exists_write (h : tree.read c.place = .ok content) (hfree : c.place ∉ refused) (b : Bytes) :
    ∃ tree', c.write refused b tree = .ok tree' ∧
      ∀ place, tree'.read place = if place = c.place then .ok b else tree.read place := by
  obtain ⟨hlocked, -⟩ | ⟨-, hwritten⟩ := write_eq h refused b
  · exact absurd hlocked hfree
  · exact hwritten

end Files.Candidate

namespace Project

open Files Format Secret

variable {ε α : Type} {c : Candidate} {cs : List Candidate} {locks : Locks} {tree tree' : Entry}
  {t : Task ε α} {w w' : Worker ε α} {ws : List (Candidate × Worker ε α)} {pool pool' : Pool ε α}
  {held left : Except AccessFault Bytes} {n limit i : Nat} {r : Except ε α} {order : List Nat}

/-! ## Tasks -/

/-- How a task ends on a file by what the file holds: the number of reads and writes, the result, and
what the file holds then. Only a file that is there is written. -/
inductive Task.EndsIn (c : Candidate) (locks : Locks) : Task ε α → Except AccessFault Bytes → Nat →
    Except ε α → Except AccessFault Bytes → Prop where
  | returns {a : α} {held : Except AccessFault Bytes} : EndsIn c locks (.returns a) held 0 (.ok a) held
  | raises {e : ε} {held : Except AccessFault Bytes} :
    EndsIn c locks (.raises e) held 0 (.error e) held
  | reads {next : Except AccessError Bytes → Task ε α} {held left : Except AccessFault Bytes} {n : Nat}
    {r : Except ε α} (h : EndsIn c locks (next (c.seen locks.reading held)) held n r left) :
    EndsIn c locks (.reads next) held (n + 1) r left
  | denied {bytes : Bytes} {next : Except AccessError Unit → Task ε α}
    {held left : Except AccessFault Bytes} {n : Nat} {r : Except ε α}
    (hlocked : c.place ∈ locks.writing)
    (h : EndsIn c locks (next (.error ⟨.denied, c.path.text⟩)) held n r left) :
    EndsIn c locks (.writes bytes next) held (n + 1) r left
  | rewrites {bytes content : Bytes} {next : Except AccessError Unit → Task ε α}
    {left : Except AccessFault Bytes} {n : Nat} {r : Except ε α} (hfree : c.place ∉ locks.writing)
    (h : EndsIn c locks (next (.ok ())) (.ok bytes) n r left) :
    EndsIn c locks (.writes bytes next) (.ok content) (n + 1) r left

/-- Whatever a file holds, its scan ends with what its content gives, and leaves it as it is. -/
theorem endsIn_scanTask (rules : List CompiledRule) (c : Candidate) (locks : Locks)
    (held : Except AccessFault Bytes) :
    ∃ n ≤ 2, (scanTask rules c).EndsIn c locks held n
      (.ok (scanContent rules c.relative (c.seen locks.reading held))) held := by
  cases hseen : c.seen locks.reading held with
  | error e => exact ⟨1, by omega, .reads (by rw [hseen]; exact .returns)⟩
  | ok bytes =>
    cases hdecode : Utf8.decode bytes with
    | ok s =>
      refine ⟨1, by omega, .reads ?_⟩
      simp only [hseen, hdecode, scanContent, textOf]
      exact .returns
    | error e =>
      refine ⟨2, by omega, .reads ?_⟩
      simp only [hseen, hdecode, scanContent, textOf]
      refine .reads ?_
      rw [hseen]
      exact .returns

/-- A file that is decided on is written only if it is there, and has an outcome. -/
theorem exists_endsIn_task {strict check : Bool} {d : Decision}
    (hd : decide strict check c.extension (c.seen locks.reading held) = .ok d) :
    ∃ n ≤ 1, ∃ o left, (d.task c).EndsIn c locks held n (.ok o) left := by
  unfold Decision.task
  cases hbytes : d.bytes with
  | none => exact ⟨0, by omega, _, _, .returns⟩
  | some bytes =>
    by_cases hlocked : c.place ∈ locks.writing
    · exact ⟨1, by omega, _, _, .denied hlocked .returns⟩
    · cases held with
      | ok content => exact ⟨1, by omega, _, _, .rewrites hlocked .returns⟩
      | error fault =>
        have hunread : ∃ e, c.seen locks.reading (.error fault) = .error e := by
          unfold Candidate.seen
          split <;> exact ⟨_, rfl⟩
        obtain ⟨e, he⟩ := hunread
        rw [he] at hd
        cases hd
        cases hbytes

/-- Whatever a file holds, its formatting ends. -/
theorem exists_endsIn_formatTask (strict check : Bool) (c : Candidate) (locks : Locks)
    (held : Except AccessFault Bytes) :
    ∃ n ≤ 2, ∃ r left, (formatTask strict check c).EndsIn c locks held n r left := by
  cases hd : decide strict check c.extension (c.seen locks.reading held) with
  | error e => exact ⟨1, by omega, _, _, .reads (by rw [hd]; exact .raises)⟩
  | ok d =>
    obtain ⟨n, hn, o, left, h⟩ := exists_endsIn_task hd
    exact ⟨n + 1, by omega, _, left, .reads (by rw [hd]; exact h)⟩

/-- The check of a file ends with an outcome. -/
theorem exists_endsIn_checkTask (strict : Bool) (c : Candidate) (locks : Locks)
    (held : Except AccessFault Bytes) :
    ∃ n ≤ 2, ∃ o left, (formatTask strict true c).EndsIn c locks held n (.ok o) left := by
  have hdecided : ∃ d, decide strict true c.extension (c.seen locks.reading held) = .ok d := by
    unfold decide
    split
    · exact ⟨_, rfl⟩
    · split
      · exact ⟨_, rfl⟩
      · split
        · split <;> exact ⟨_, rfl⟩
        · exact ⟨_, rfl⟩
  obtain ⟨d, hd⟩ := hdecided
  obtain ⟨n, hn, o, left, h⟩ := exists_endsIn_task hd
  exact ⟨n + 1, by omega, o, left, .reads (by rw [hd]; exact h)⟩

/-- A task carried out at once ends as what its file holds tells, and no other file is changed. -/
theorem Task.EndsIn.carryOut (h : t.EndsIn c locks held n r left) (hheld : tree.read c.place = held) :
    ∃ tree', t.carryOut c locks tree = (tree', r) ∧ tree'.read c.place = left ∧
      ∀ place, place ≠ c.place → tree'.read place = tree.read place := by
  induction h generalizing tree with
  | returns => exact ⟨tree, rfl, hheld, fun _ _ => rfl⟩
  | raises => exact ⟨tree, rfl, hheld, fun _ _ => rfl⟩
  | reads _ ih =>
    obtain ⟨tree', hrun, hleft, hframe⟩ := ih hheld
    rw [← hheld] at hrun
    exact ⟨tree', hrun, hleft, hframe⟩
  | denied hlocked _ ih =>
    obtain ⟨tree', hrun, hleft, hframe⟩ := ih hheld
    exact ⟨tree', by rw [Task.carryOut, Candidate.write_of_mem hlocked]; exact hrun, hleft, hframe⟩
  | rewrites hfree _ ih =>
    obtain ⟨tree₁, hwrite, hwritten⟩ := Candidate.exists_write hheld hfree _
    obtain ⟨tree', hrun, hleft, hframe⟩ := ih ((hwritten _).trans (if_pos rfl))
    refine ⟨tree', by rw [Task.carryOut, hwrite]; exact hrun, hleft, fun place hne => ?_⟩
    rw [hframe place hne, hwritten, if_neg hne]

/-! ## File after file -/

variable {task : Candidate → Task ε α} {ends : Candidate → Except ε α}
  {leaves : Candidate → Except AccessFault Bytes} {as : List α}

/-- What a run leaves of a tree: the files it is about hold what their tasks leave, and all others what
they held. -/
structure Leaves (leaves : Candidate → Except AccessFault Bytes) (cs : List Candidate)
    (tree tree' : Entry) : Prop where
  left : ∀ c ∈ cs, tree'.read c.place = leaves c
  frame : ∀ place, (∀ c ∈ cs, c.place ≠ place) → tree'.read place = tree.read place

theorem Leaves.read_eq {tree₁ tree₂ : Entry} (h₁ : Leaves leaves cs tree tree₁)
    (h₂ : Leaves leaves cs tree tree₂) (place : List Text) : tree₁.read place = tree₂.read place := by
  by_cases hplace : ∃ c ∈ cs, c.place = place
  · obtain ⟨c, hc, rfl⟩ := hplace
    rw [h₁.left c hc, h₂.left c hc]
  · have hother : ∀ c ∈ cs, c.place ≠ place := fun c hc heq => hplace ⟨c, hc, heq⟩
    rw [h₁.frame place hother, h₂.frame place hother]

/-- Tasks on different files come one after another to what each comes to by itself. -/
theorem exists_carryOutInTurn (hdistinct : (cs.map Candidate.place).Nodup)
    (hends : ∀ c ∈ cs, ∃ n, (task c).EndsIn c locks (tree.read c.place) n (ends c) (leaves c))
    (has : cs.map ends = as.map .ok) :
    ∃ tree', carryOutInTurn task locks tree cs = (tree', .ok as) ∧ Leaves leaves cs tree tree' := by
  induction cs generalizing tree as with
  | nil =>
    obtain rfl : as = [] := by simpa using has.symm
    exact ⟨tree, rfl, by simp, fun _ _ => rfl⟩
  | cons c cs ih =>
    obtain ⟨a, as, rfl⟩ : ∃ a as', as = a :: as' := by
      cases as with
      | nil => cases has
      | cons a as => exact ⟨a, as, rfl⟩
    simp only [List.map_cons, List.cons.injEq] at has
    rw [List.map_cons, List.nodup_cons] at hdistinct
    rw [List.forall_mem_cons] at hends
    obtain ⟨⟨n, hc⟩, hends⟩ := hends
    obtain ⟨tree₁, hrun, hleft, hframe⟩ := hc.carryOut rfl
    have hne : ∀ d ∈ cs, d.place ≠ c.place := fun d hd heq =>
      hdistinct.1 (heq ▸ List.mem_map_of_mem hd)
    have hends₁ : ∀ d ∈ cs, ∃ n, (task d).EndsIn d locks (tree₁.read d.place) n (ends d) (leaves d) :=
      fun d hd => hframe d.place (hne d hd) ▸ hends d hd
    obtain ⟨tree', hrest, hleaves⟩ := ih hdistinct.2 hends₁ has.2
    refine ⟨tree', ?_, ?_, fun place hplace => ?_⟩
    · rw [carryOutInTurn, hrun, has.1]
      simp only [hrest]
      rfl
    · rw [List.forall_mem_cons]
      exact ⟨(hleaves.frame _ hne).trans hleft, hleaves.left⟩
    · rw [List.forall_mem_cons] at hplace
      rw [hleaves.frame place hplace.2, hframe place hplace.1.symm]

theorem formatCandidates_eq (strict check : Bool) (locks : Locks) (tree : Entry)
    (cs : List Candidate) :
    formatCandidates strict check locks tree cs =
      carryOutInTurn (formatTask strict check) locks tree cs := by
  induction cs generalizing tree with
  | nil => rfl
  | cons c cs ih =>
    rw [formatCandidates, carryOutInTurn, formatTask, Task.carryOut]
    cases decide strict check c.extension (c.read locks.reading tree) with
    | error e => rfl
    | ok d =>
      simp only [Decision.apply, Decision.task]
      cases d.bytes with
      | none => simp only [Task.carryOut, ih]
      | some bytes =>
        simp only [Task.carryOut]
        cases c.write locks.writing bytes tree with
        | ok tree' => simp only [ih]
        | error e => simp only [ih]

/-! ## The steps of a pool -/

/-- How a worker ends, by what its file holds: the number of steps it still takes, the result, and what
the file holds then. -/
inductive Worker.EndsIn (c : Candidate) (locks : Locks) : Worker ε α → Except AccessFault Bytes → Nat →
    Except ε α → Except AccessFault Bytes → Prop where
  | waiting {t : Task ε α} {held left : Except AccessFault Bytes} {n : Nat} {r : Except ε α}
    (h : t.EndsIn c locks held n r left) : EndsIn c locks (.waiting t) held (n + 2) r left
  | active {t : Task ε α} {held left : Except AccessFault Bytes} {n : Nat} {r : Except ε α}
    (h : t.EndsIn c locks held n r left) : EndsIn c locks (.active t) held (n + 1) r left
  | returned {a : α} {held : Except AccessFault Bytes} :
    EndsIn c locks (.returned a) held 0 (.ok a) held
  | raised {e : ε} {held : Except AccessFault Bytes} : EndsIn c locks (.raised e) held 0 (.error e) held

/-- The step of a worker changes its own file at most, and is one of those it has to take. -/
theorem Worker.EndsIn.step (h : w.EndsIn c locks held n r left) (hheld : tree.read c.place = held)
    {free : Bool} (hstep : w.step? c locks free tree = some (w', tree')) :
    ∃ m, n = m + 1 ∧ w'.EndsIn c locks (tree'.read c.place) m r left ∧
      ∀ place, place ≠ c.place → tree'.read place = tree.read place := by
  cases h with
  | waiting h =>
    cases free with
    | false => cases hstep
    | true =>
      cases hstep
      exact ⟨_, rfl, hheld ▸ .active h, fun _ _ => rfl⟩
  | active h =>
    cases h with
    | returns =>
      cases hstep
      exact ⟨_, rfl, hheld ▸ .returned, fun _ _ => rfl⟩
    | raises =>
      cases hstep
      exact ⟨_, rfl, hheld ▸ .raised, fun _ _ => rfl⟩
    | reads h =>
      cases hstep
      subst hheld
      exact ⟨_, rfl, .active h, fun _ _ => rfl⟩
    | denied hlocked h =>
      rw [Worker.step?, Candidate.write_of_mem hlocked] at hstep
      cases hstep
      exact ⟨_, rfl, hheld ▸ .active h, fun _ _ => rfl⟩
    | rewrites hfree h =>
      obtain ⟨tree₁, hwrite, hwritten⟩ := Candidate.exists_write hheld hfree _
      rw [Worker.step?, hwrite] at hstep
      cases hstep
      refine ⟨_, rfl, ?_, fun place hne => (hwritten place).trans (if_neg hne)⟩
      rw [hwritten, if_pos rfl]
      exact .active h
  | returned => cases hstep
  | raised => cases hstep

/-- How the workers of a pool end, and the number of steps that they still take together. -/
inductive EndIn (locks : Locks) (ends : Candidate → Except ε α)
    (leaves : Candidate → Except AccessFault Bytes) (tree : Entry) :
    List (Candidate × Worker ε α) → Nat → Prop where
  | nil : EndIn locks ends leaves tree [] 0
  | cons {c : Candidate} {w : Worker ε α} {ws : List (Candidate × Worker ε α)} {m n : Nat}
    (h : w.EndsIn c locks (tree.read c.place) m (ends c) (leaves c))
    (hs : EndIn locks ends leaves tree ws n) : EndIn locks ends leaves tree ((c, w) :: ws) (m + n)

theorem EndIn.congr (h : EndIn locks ends leaves tree ws n)
    (htree : ∀ w ∈ ws, tree'.read w.1.place = tree.read w.1.place) :
    EndIn locks ends leaves tree' ws n := by
  induction h with
  | nil => exact .nil
  | cons h _ ih =>
    rw [List.forall_mem_cons] at htree
    exact .cons (htree.1 ▸ h) (ih htree.2)

/-- A worker's step leaves the others on their way. -/
theorem EndIn.set (h : EndIn locks ends leaves tree ws n)
    (hdistinct : (ws.map fun w => w.1.place).Nodup) (hi : ws[i]? = some (c, w)) {free : Bool}
    (hstep : w.step? c locks free tree = some (w', tree')) :
    (∃ m, n = m + 1 ∧ EndIn locks ends leaves tree' (ws.set i (c, w')) m) ∧
      ∀ place, place ≠ c.place → tree'.read place = tree.read place := by
  induction h generalizing i with
  | nil => simp at hi
  | @cons d v ws k n h hs ih =>
    rw [List.map_cons, List.nodup_cons] at hdistinct
    cases i with
    | zero =>
      obtain ⟨rfl, rfl⟩ : d = c ∧ v = w := by simpa using hi
      obtain ⟨m, rfl, h', hframe⟩ := h.step rfl hstep
      have hother : ∀ v ∈ ws, v.1.place ≠ d.place := fun v hv heq =>
        hdistinct.1 (heq ▸ List.mem_map_of_mem hv)
      have hs' := hs.congr fun v hv => hframe _ (hother v hv)
      exact ⟨⟨m + n, by omega, .cons h' hs'⟩, hframe⟩
    | succ i =>
      have hi' : ws[i]? = some (c, w) := by simpa using hi
      have hmem : c.place ∈ ws.map fun w => w.1.place :=
        List.mem_map_of_mem (List.mem_of_getElem? hi')
      have hne : d.place ≠ c.place := fun heq => hdistinct.1 (heq ▸ hmem)
      obtain ⟨⟨m, rfl, hs'⟩, hframe⟩ := ih hdistinct.2 hi'
      exact ⟨⟨k + m, by omega, .cons ((hframe _ hne).symm ▸ h) hs'⟩, hframe⟩

/-- Where a run of a pool has come to. -/
structure Pool.Underway (locks : Locks) (ends : Candidate → Except ε α)
    (leaves : Candidate → Except AccessFault Bytes) (cs : List Candidate) (tree : Entry)
    (pool : Pool ε α) (n : Nat) : Prop where
  files : pool.workers.map Prod.fst = cs
  ends : EndIn locks ends leaves pool.tree pool.workers n
  frame : ∀ place, (∀ c ∈ cs, c.place ≠ place) → pool.tree.read place = tree.read place

/-- No worker of a pool can take a step. -/
def Pool.AtEnd (locks : Locks) (limit : Nat) (pool : Pool ε α) : Prop :=
  ∀ i, pool.step? locks limit i = none

theorem Pool.step?_eq_some (h : pool.step? locks limit i = some pool') :
    ∃ c w w', pool.workers[i]? = some (c, w) ∧
      w.step? c locks (pool.active < limit) pool.tree = some (w', pool'.tree) ∧
      pool'.workers = pool.workers.set i (c, w') := by
  unfold Pool.step? at h
  split at h
  · cases h
  · next c w hi =>
    obtain ⟨⟨w', tree'⟩, hstep, rfl⟩ := Option.map_eq_some_iff.1 h
    exact ⟨c, w, w', hi, hstep, rfl⟩

/-- The tasks that workers wait with take at most two steps more than they read and write. -/
theorem exists_endIn {bound : Nat}
    (hends : ∀ c ∈ cs, ∃ n ≤ bound,
      (task c).EndsIn c locks (tree.read c.place) n (ends c) (leaves c)) :
    ∃ n ≤ (bound + 2) * cs.length,
      EndIn locks ends leaves tree (cs.map fun c => (c, .waiting (task c))) n := by
  induction cs with
  | nil => exact ⟨0, le_rfl, .nil⟩
  | cons c cs ih =>
    rw [List.forall_mem_cons] at hends
    obtain ⟨⟨m, hm, hc⟩, hends⟩ := hends
    obtain ⟨n, hn, hcs⟩ := ih hends
    refine ⟨m + 2 + n, ?_, .cons (.waiting hc) hcs⟩
    rw [List.length_cons, Nat.mul_succ]
    omega

namespace Pool.Underway

theorem start {bound : Nat} (hends : ∀ c ∈ cs, ∃ n ≤ bound,
      (task c).EndsIn c locks (tree.read c.place) n (ends c) (leaves c)) :
    ∃ n ≤ (bound + 2) * cs.length,
      Underway locks ends leaves cs tree (Pool.start task tree cs) n := by
  obtain ⟨n, hn, hcs⟩ := exists_endIn hends
  have hfiles : (Pool.start task tree cs).workers.map Prod.fst = cs := by
    rw [Pool.start, List.map_map]
    exact List.map_id cs
  exact ⟨n, hn, hfiles, hcs, fun _ _ => rfl⟩

theorem step (h : Underway locks ends leaves cs tree pool n)
    (hdistinct : (cs.map Candidate.place).Nodup) (hstep : pool.step? locks limit i = some pool') :
    ∃ m, n = m + 1 ∧ Underway locks ends leaves cs tree pool' m := by
  obtain ⟨c, w, w', hi, hworker, hworkers⟩ := step?_eq_some hstep
  have hplaces : (pool.workers.map fun w => w.1.place).Nodup := by
    rw [← h.files, List.map_map] at hdistinct
    exact hdistinct
  obtain ⟨⟨m, rfl, hends⟩, hframe⟩ := h.ends.set hplaces hi hworker
  have hc : c ∈ cs := by
    rw [← h.files]
    exact List.mem_map_of_mem (List.mem_of_getElem? hi)
  refine ⟨m, rfl, ?_, hworkers ▸ hends, fun place hplace => ?_⟩
  · have hfile : (pool.workers.map Prod.fst)[i]? = some c := by
      rw [List.getElem?_map, hi]
      rfl
    have hsame : (pool.workers.map Prod.fst).set i c = pool.workers.map Prod.fst := by
      obtain ⟨hlt, hget⟩ := List.getElem?_eq_some_iff.1 hfile
      rw [← hget]
      exact List.set_getElem_self hlt
    rw [hworkers, List.map_set, hsame, h.files]
  · rw [hframe place (hplace c hc).symm, h.frame place hplace]

/-- A run keeps all workers on their way, and takes one of their steps after another. -/
theorem run (h : Underway locks ends leaves cs tree pool n)
    (hdistinct : (cs.map Candidate.place).Nodup) (hrun : pool.run? locks limit order = some pool') :
    ∃ m, n = order.length + m ∧ Underway locks ends leaves cs tree pool' m := by
  induction order generalizing pool n with
  | nil =>
    cases hrun
    exact ⟨n, by simp, h⟩
  | cons i order ih =>
    obtain ⟨pool₁, hstep, hrest⟩ := Option.bind_eq_some_iff.1 hrun
    obtain ⟨m, rfl, h₁⟩ := h.step hdistinct hstep
    obtain ⟨k, rfl, h'⟩ := ih h₁ hrest
    exact ⟨k, by rw [List.length_cons]; omega, h'⟩

/-- From wherever it has come to, a pool can go on until no worker can take a step. -/
theorem exists_run (h : Underway locks ends leaves cs tree pool n)
    (hdistinct : (cs.map Candidate.place).Nodup) (limit : Nat) :
    ∃ order pool', pool.run? locks limit order = some pool' ∧ pool'.AtEnd locks limit := by
  induction n generalizing pool with
  | zero =>
    refine ⟨[], pool, rfl, fun i => ?_⟩
    cases hstep : pool.step? locks limit i with
    | none => rfl
    | some pool' =>
      obtain ⟨m, hm, -⟩ := h.step hdistinct hstep
      cases hm
  | succ n ih =>
    by_cases hend : pool.AtEnd locks limit
    · exact ⟨[], pool, rfl, hend⟩
    · obtain ⟨i, hi⟩ := not_forall.1 hend
      obtain ⟨pool₁, hstep⟩ := Option.ne_none_iff_exists'.1 hi
      obtain ⟨m, hm, h₁⟩ := h.step hdistinct hstep
      obtain ⟨order, pool', hrun, hend'⟩ := ih (Nat.succ.inj hm ▸ h₁)
      refine ⟨i :: order, pool', ?_, hend'⟩
      rw [run?, hstep]
      exact hrun

end Pool.Underway

/-! ## The end of a run -/

theorem Worker.exists_step_active (t : Task ε α) (c : Candidate) (locks : Locks) (free : Bool)
    (tree : Entry) : ∃ next, (Worker.active t).step? c locks free tree = some next := by
  cases t with
  | writes content next =>
    cases hwrite : c.write locks.writing content tree with
    | ok tree' => exact ⟨_, by rw [Worker.step?, hwrite]⟩
    | error e => exact ⟨_, by rw [Worker.step?, hwrite]⟩
  | _ => exact ⟨_, rfl⟩

/-- A pool that lets in at least one worker comes to an end only when all have returned or raised. -/
theorem Pool.AtEnd.isReturned_or_isRaised (hend : pool.AtEnd locks limit) (hlimit : 1 ≤ limit) :
    ∀ v ∈ pool.workers, (∃ a, v.2 = .returned a) ∨ ∃ e, v.2 = .raised e := by
  have hstuck : ∀ v ∈ pool.workers,
      v.2.step? v.1 locks (pool.active < limit) pool.tree = none := by
    intro v hv
    obtain ⟨i, hi⟩ := List.getElem?_of_mem hv
    have hnone := hend i
    simp only [Pool.step?, hi] at hnone
    exact Option.map_eq_none_iff.1 hnone
  have hactive : pool.active = 0 := by
    refine List.countP_eq_zero.2 fun v hv hactive => ?_
    obtain ⟨c, w⟩ := v
    cases w with
    | active t =>
      obtain ⟨next, hnext⟩ := Worker.exists_step_active t c locks (pool.active < limit) pool.tree
      rw [hstuck _ hv] at hnext
      cases hnext
    | _ => cases hactive
  intro v hv
  obtain ⟨c, w⟩ := v
  have hnone := hstuck _ hv
  cases w with
  | waiting t => simp [Worker.step?, hactive, Nat.lt_of_lt_of_le Nat.zero_lt_one hlimit] at hnone
  | active t =>
    obtain ⟨next, hnext⟩ := Worker.exists_step_active t c locks (pool.active < limit) pool.tree
    rw [hnone] at hnext
    cases hnext
  | returned a => exact .inl ⟨a, rfl⟩
  | raised e => exact .inr ⟨e, rfl⟩

theorem exists_mapM_result (h : ∀ v ∈ ws, ∃ a, v.2 = .returned a) :
    ∃ as, ws.mapM (fun v => v.2.result?) = some as := by
  induction ws with
  | nil => exact ⟨[], rfl⟩
  | cons v ws ih =>
    rw [List.forall_mem_cons] at h
    obtain ⟨⟨a, ha⟩, hws⟩ := h
    obtain ⟨as, has⟩ := ih hws
    exact ⟨a :: as, by rw [List.mapM_cons, ha, has]; rfl⟩

/-- A worker that has raised had a task that raises. -/
theorem EndIn.error_of_raised (h : EndIn locks ends leaves tree ws n) {e : ε}
    (hraised : (c, .raised e) ∈ ws) : ends c = .error e := by
  induction h with
  | nil => cases hraised
  | @cons d w ws m n h hs ih =>
    rcases List.mem_cons.1 hraised with heq | hmem
    · cases heq
      generalize tree.read c.place = held at h
      generalize ends c = r at h ⊢
      cases h
      rfl
    · exact ih hmem

/-- The results of workers that have all returned, and what their files hold then. -/
theorem EndIn.results (h : EndIn locks ends leaves tree ws n)
    (hresults : ws.mapM (fun v => v.2.result?) = some as) :
    (ws.map Prod.fst).map ends = as.map .ok ∧ ∀ v ∈ ws, tree.read v.1.place = leaves v.1 := by
  induction h generalizing as with
  | nil =>
    cases hresults
    exact ⟨rfl, by simp⟩
  | @cons c w ws m n h hs ih =>
    rw [List.mapM_cons] at hresults
    obtain ⟨a, ha, hrest⟩ := Option.bind_eq_some_iff.1 hresults
    obtain ⟨as, has, heq⟩ := Option.bind_eq_some_iff.1 hrest
    cases heq
    obtain ⟨hends, hleaves⟩ := ih has
    cases w with
    | returned a' =>
      cases ha
      generalize hheld : tree.read c.place = held at h
      generalize hr : ends c = r at h
      generalize hleft : leaves c = left at h
      cases h
      refine ⟨by rw [List.map_cons, List.map_cons, List.map_cons, hends, hr], ?_⟩
      rw [List.forall_mem_cons]
      exact ⟨hheld.trans hleft.symm, hleaves⟩
    | _ => cases ha

/-- A pool whose workers have all returned has come to what their tasks come to by themselves. -/
theorem Pool.Underway.results (h : Underway locks ends leaves cs tree pool n)
    (hresults : pool.results? = some as) :
    cs.map ends = as.map .ok ∧ Leaves leaves cs tree pool.tree := by
  obtain ⟨hends, hleaves⟩ := h.ends.results hresults
  rw [h.files] at hends
  refine ⟨hends, fun c hc => ?_, h.frame⟩
  rw [← h.files] at hc
  obtain ⟨v, hv, rfl⟩ := List.mem_map.1 hc
  exact hleaves v hv

theorem returned_of_mapM_result (h : ws.mapM (fun v => v.2.result?) = some as) :
    ∀ v ∈ ws, ∃ a, v.2 = .returned a := by
  induction ws generalizing as with
  | nil => simp
  | cons v ws ih =>
    rw [List.mapM_cons] at h
    obtain ⟨a, ha, hrest⟩ := Option.bind_eq_some_iff.1 h
    obtain ⟨as, has, -⟩ := Option.bind_eq_some_iff.1 hrest
    rw [List.forall_mem_cons]
    refine ⟨?_, ih has⟩
    obtain ⟨c, w⟩ := v
    cases w with
    | returned a' => exact ⟨a', rfl⟩
    | _ => cases ha

/-- A pool that has all results is at its end. -/
theorem Pool.atEnd_of_results (h : pool.results? = some as) (locks : Locks) (limit : Nat) :
    pool.AtEnd locks limit := by
  intro i
  cases hstep : pool.step? locks limit i with
  | none => rfl
  | some pool' =>
    obtain ⟨c, w, w', hi, hworker, -⟩ := step?_eq_some hstep
    obtain ⟨a, rfl⟩ : ∃ a, w = .returned a :=
      returned_of_mapM_result h _ (List.mem_of_getElem? hi)
    cases hworker

/-- A run never has more workers at work than the pool lets in. -/
theorem Pool.active_le_of_run (hrun : pool.run? locks limit order = some pool')
    (hactive : pool.active ≤ limit) : pool'.active ≤ limit := by
  induction order generalizing pool with
  | nil =>
    cases hrun
    exact hactive
  | cons i order ih =>
    obtain ⟨pool₁, hstep, hrest⟩ := Option.bind_eq_some_iff.1 hrun
    refine ih hrest ?_
    obtain ⟨c, w, w', hi, hworker, hworkers⟩ := step?_eq_some hstep
    obtain ⟨hlt, hget⟩ := List.getElem?_eq_some_iff.1 hi
    have hone : (if w'.isActive = true then 1 else 0) ≤ 1 := by split <;> omega
    have hcount : pool₁.active = pool.active - (if w.isActive = true then 1 else 0) +
        if w'.isActive = true then 1 else 0 := by
      rw [active, hworkers, List.countP_set hlt, hget]
      rfl
    rw [hcount]
    cases w with
    | waiting t =>
      by_cases hfree : pool.active < limit
      · rw [if_neg (by simp [Worker.isActive])]
        omega
      · simp [Worker.step?, hfree] at hworker
    | active t =>
      have hpos : 0 < pool.active := List.countP_pos_iff.2 ⟨_, List.mem_of_getElem? hi, rfl⟩
      rw [if_pos (by rfl)]
      omega
    | returned a => cases hworker
    | raised e => cases hworker

/-- A run of a pool, in whatever order its workers take their steps. It is bounded, comes to an end when
all have returned or one has raised, and then has come to the same as the tasks file after file. -/
theorem Pool.run_start {bound : Nat} (hdistinct : (cs.map Candidate.place).Nodup)
    (hends : ∀ c held, ∃ n ≤ bound, ∃ r left, (task c).EndsIn c locks held n r left)
    (hrun : (Pool.start task tree cs).run? locks limit order = some pool) :
    order.length ≤ (bound + 2) * cs.length ∧ pool.active ≤ limit ∧
      ∀ as, pool.results? = some as → ∃ tree',
        carryOutInTurn task locks tree cs = (tree', .ok as) ∧
          ∀ place, pool.tree.read place = tree'.read place := by
  choose n hn ends leaves h using fun c => hends c (tree.read c.place)
  obtain ⟨total, htotal, hstart⟩ := Underway.start fun c _ => ⟨n c, hn c, h c⟩
  obtain ⟨rest, hrest, hunderway⟩ := hstart.run hdistinct hrun
  have hactive : (Pool.start task tree cs).active ≤ limit := by
    have hzero : (Pool.start task tree cs).active = 0 :=
      List.countP_eq_zero.2 fun v hv => by
        obtain ⟨c, -, rfl⟩ := List.mem_map.1 hv
        simp [Worker.isActive]
    omega
  refine ⟨by omega, active_le_of_run hrun hactive, fun as has => ?_⟩
  obtain ⟨hall, hleaves⟩ := hunderway.results has
  obtain ⟨tree', hturns, hleaves'⟩ :=
    exists_carryOutInTurn hdistinct (fun c _ => ⟨n c, h c⟩) hall
  exact ⟨tree', hturns, hleaves.read_eq hleaves'⟩

/-- Where no task raises, a pool can come to all results. -/
theorem Pool.exists_run_results {bound : Nat} (hdistinct : (cs.map Candidate.place).Nodup)
    (hends : ∀ c held, ∃ n ≤ bound, ∃ a left, (task c).EndsIn c locks held n (.ok a) left)
    (hlimit : 1 ≤ limit) (tree : Entry) :
    ∃ order pool as, (Pool.start task tree cs).run? locks limit order = some pool ∧
      pool.results? = some as := by
  choose n hn result leaves h using fun c => hends c (tree.read c.place)
  obtain ⟨total, -, hstart⟩ : ∃ total ≤ (bound + 2) * cs.length, Underway locks
      (fun c => .ok (result c)) leaves cs tree (Pool.start task tree cs) total :=
    Underway.start fun c _ => ⟨n c, hn c, h c⟩
  obtain ⟨order, pool, hrun, hend⟩ := hstart.exists_run hdistinct limit
  obtain ⟨rest, -, hunderway⟩ := hstart.run hdistinct hrun
  obtain ⟨as, has⟩ := exists_mapM_result fun v hv => by
    rcases hend.isReturned_or_isRaised hlimit v hv with hreturned | ⟨e, he⟩
    · exact hreturned
    · obtain ⟨c, w⟩ := v
      cases he
      cases hunderway.ends.error_of_raised hv
  exact ⟨order, pool, as, hrun, has⟩

end Project

end ConfigCare
