import Mathlib
import ConfigCare.Proofs.Printing

/-! A combined run against the commands that search and format by themselves. Of all that was done
before it a task goes by the disk alone, and a search leaves the disk as it is. So every task comes to
what its command comes to where the run starts, and the run ends with the greatest of their codes, as
long as nothing stops it where it catches nothing: when it makes the console for its summary, and when
it prints the summary, which has a character that not every encoding has.

A run is timed by any computation that always tells a time. Of a log the disk has the file, which all
commands make alike, but no records: these could only matter if the log lay among the files of the
root. -/

namespace ConfigCare.Command

open Files Report Std.Do

/-! ## What a computation returns -/

section

variable {m : Type → Type} {ps : PostShape} [Monad m] [WPMonad m ps] {α β : Type}

/-- A computation comes to its end, and what it returns is so. -/
def Returns (x : m α) (P : α → Prop) : Prop := ⦃⌜True⌝⦄ x ⦃⇓ a => ⌜P a⌝⦄

theorem returns_pure {P : α → Prop} {a : α} (h : P a) : Returns (pure a : m α) P :=
  Triple.pure a (SPred.pure_mono fun _ => h)

theorem Returns.bind {x : m α} {f : α → m β} {P : α → Prop} {Q : β → Prop} (hx : Returns x P)
    (hf : ∀ a, P a → Returns (f a) Q) : Returns (x >>= f) Q := by
  refine Triple.bind x f hx fun a => ?_
  mintro ha
  mpure ha
  exact hf a ha

theorem Returns.mono {x : m α} {P Q : α → Prop} (hx : Returns x P) (h : ∀ a, P a → Q a) :
    Returns x Q := by
  simpa using hx.bind fun a ha => returns_pure (h a ha)

/-- Whatever time a timer tells, it always tells one, and with it what the step comes to. -/
def Truthful (timed : Timer m) : Prop := ∀ f, Returns (timed f) fun r => r.1 = f ()

end

/-! ## Tasks alone -/

/-- A task of a combined run. There is a command for it alone as well. -/
inductive Chore where
  | search
  | layout (check : Bool)

/-- The tasks that a combined run is asked for: both if none is. -/
def chores (secrets layout check : Bool) : List Chore :=
  let all := !(secrets || layout)
  (if all || secrets then [.search] else []) ++ if all || layout then [.layout check] else []

namespace Chore

/-- The command that carries out the task alone. -/
def command (root : Text) (settings : Option Text) (verbose : Bool) : Chore → Command
  | .search => .scan root settings none none false verbose
  | .layout check => .format root settings check false verbose

def action (w : World) (p : Project) (verbose : Bool) : Chore → Action Bool
  | .search => Command.search w p verbose none
  | .layout check => reformat w p check

def name : Chore → Text
  | .search => Text.lit "Secrets Detection"
  | .layout _ => Text.lit "Format Configuration Files"

def task (w : World) (p : Project) (verbose : Bool) (c : Chore) : Task :=
  ⟨c.name, Action.andThen (c.action w p verbose) fun issues => pure !issues⟩

/-- Whether a search of a project finds secrets, or formatting it fails its check. An error on the way
stops it: there is no console, the project is not read, or what is to be told cannot be printed. -/
def issues (w : World) (p : Project) (verbose : Bool) (d : Disk) : Chore → Except Text Bool
  | .search => do
    openConsole w.environment
    printAll w.encoding (Console.info verbose (Text.lit "Starting secrets detection..."))
    let r ← (p.scan d []).mapError Project.ScanError.message
    printAll w.encoding (Console.scanResult w.encoding.frames verbose r)
    return r.hasSecrets
  | .layout check => do
    openConsole w.environment
    let s ← (p.format d [] check).2.mapError Project.FormatError.message
    printAll w.encoding (Console.formatSummary w.encoding.frames s check)
    return s.needsAttention check

variable (w : World) (p : Project)

/-- A search leaves the disk as it is. -/
theorem reads_search (verbose : Bool) :
    Reads (Chore.search.action w p verbose) fun d => Chore.search.issues w p verbose d :=
  (Reads.makeConsole w).bind fun _ => (Reads.say _ _).bind fun _ => Reads.theDisk.bind fun d =>
    (Reads.succeed Project.ScanError.message (p.scan d [])).bind fun r =>
      (Reads.say w.encoding _).bind fun _ => Reads.pure r.hasSecrets

theorem snd_action (verbose : Bool) (c : Chore) (q : Progress) :
    (c.action w p verbose q).2 = c.issues w p verbose q.disk := by
  cases c with
  | search => exact (reads_search w p verbose).result q
  | layout check =>
    -- what follows the formatting reads nothing of the disk that it leaves
    have htold := (Reads.succeed Project.FormatError.message (p.format q.disk [] check).2).bind
      fun s => (Reads.say w.encoding (Console.formatSummary w.encoding.frames s check)).bind
        fun _ => Reads.pure (s.needsAttention check)
    have htold := htold.result { q with disk := (p.format q.disk [] check).1 }
    cases hopen : openConsole w.environment with
    | error e => simp [action, reformat, issues, bind, Action.andThen, makeConsole, succeed, hopen,
        Except.mapError, Except.bind]
    | ok =>
      simp only [issues, hopen]
      refine Eq.trans ?_ htold
      simp [action, reformat, bind, Action.andThen, makeConsole, succeed, hopen, Except.mapError,
        Command.theDisk, setDisk]

theorem task_action (verbose : Bool) (c : Chore) (q : Progress) :
    (c.task w p verbose).action q =
      ((c.action w p verbose q).1, (c.issues w p verbose q.disk).map (!·)) := by
  rw [← c.snd_action w p verbose q, task]
  cases h : c.action w p verbose q with
  | mk q' r => cases r <;> simp [Action.andThen, h, Except.map, pure, Action.return]

/-- If everything can be printed, it does not matter how much is. -/
theorem issues_of_forall_has {w : World} (hw : ∀ c, w.encoding.has c = true) (verbose loud : Bool)
    (d : Disk) (c : Chore) : c.issues w p verbose d = c.issues w p loud d := by
  cases c <;> simp [issues, printAll_of_forall_has hw]

end Chore

theorem tasks_eq (w : World) (p : Project) (secrets layout check verbose : Bool) :
    tasks w p secrets layout check verbose =
      (chores secrets layout check).map (Chore.task w p verbose) := by
  cases secrets <;> cases layout <;> rfl

/-- Only a search has another task behind it. -/
theorem pairwise_chores (secrets layout check : Bool) :
    (chores secrets layout check).Pairwise fun c _ => c = .search := by
  cases secrets <;> cases layout <;> simp [chores]

theorem chores_ne_nil (secrets layout check : Bool) : chores secrets layout check ≠ [] := by
  cases secrets <;> cases layout <;> simp [chores]

/-! ## Codes -/

/-- The code of what tells whether there are issues, unless an error stops it. -/
def codeOf : Except Text Bool → Nat
  | .ok false => 0
  | .ok true => 1
  | .error _ => 2

theorem codeOf_le (r : Except Text Bool) : codeOf r ≤ 2 := by
  rcases r with e | _ | _
  · exact le_refl 2
  · exact Nat.zero_le 2
  · exact Nat.le_succ 1

/-- The greatest of some codes. -/
def worst (codes : List Nat) : Nat := codes.foldr max 0

theorem codeOf_eq_zero_iff (r : Except Text Bool) : codeOf r = 0 ↔ r = .ok false := by
  rcases r with e | _ | _ <;> simp [codeOf]

theorem worst_eq_zero_iff (codes : List Nat) : worst codes = 0 ↔ ∀ n ∈ codes, n = 0 := by
  induction codes with
  | nil => simp [worst]
  | cons n codes ih => simpa [worst] using fun _ => ih

/-- There is always a task. -/
theorem worst_chores (secrets layout check : Bool) (code : Nat) :
    worst ((chores secrets layout check).map fun _ => code) = code := by
  cases secrets <;> cases layout <;> simp [chores, worst]

/-- The code of the results of tasks, each of which has passed or not. -/
def resultsCode (r : Except Text (List (Text × Bool × Nat))) : Nat :=
  codeOf (r.map fun rs => !rs.all (·.2.1))

theorem resultsCode_cons (name : Text) (issues : Bool) (time : Nat)
    (r : Except Text (List (Text × Bool × Nat))) :
    resultsCode (r.map ((name, !issues, time) :: ·)) = max (codeOf (.ok issues)) (resultsCode r) := by
  cases r with
  | error e => cases issues <;> rfl
  | ok rs =>
    simp only [resultsCode, Except.map, List.all_cons]
    cases issues <;> cases rs.all (·.2.1) <;> rfl

variable {m : Type → Type} {ps : PostShape} [Monad m] [WPMonad m ps] {timed : Timer m}

/-- Tasks carried out one after another come to the worst that any of them comes to at the start, and
there is a result of each if nothing stops them. -/
theorem perform_code (htimed : Truthful timed) (w : World) (p : Project) (verbose : Bool)
    {cs : List Chore} (hcs : cs.Pairwise fun c _ => c = .search) (q : Progress) :
    Returns (perform timed q (cs.map (Chore.task w p verbose))) fun r =>
      resultsCode r.2 = worst (cs.map fun c => codeOf (c.issues w p verbose q.disk)) ∧
        ∀ rs, r.2 = .ok rs → rs.map (·.1) = cs.map Chore.name := by
  induction cs generalizing q with
  | nil =>
    rw [List.map_nil, perform]
    exact returns_pure ⟨rfl, fun rs hrs => by cases hrs; rfl⟩
  | cons c cs ih =>
    obtain ⟨hsearch, hcs⟩ := List.pairwise_cons.1 hcs
    rw [List.map_cons, perform]
    refine (htimed _).bind ?_
    rintro ⟨⟨q', r⟩, time⟩ hr
    rw [Chore.task_action] at hr
    obtain ⟨rfl, rfl⟩ := Prod.mk.inj hr
    cases hissues : c.issues w p verbose q.disk with
    | error e =>
      refine returns_pure ⟨?_, fun rs hrs => nomatch hrs⟩
      have hrest : worst (cs.map fun c => codeOf (c.issues w p verbose q.disk)) ≤ 2 :=
        List.max_le_of_forall_le _ 2 (List.forall_mem_map.2 fun c _ => codeOf_le _)
      rw [List.map_cons, hissues]
      exact (max_eq_left hrest).symm
    | ok issues =>
      -- the tasks behind this one find the disk as it was, since this one is a search
      have hdisk : ∀ d ∈ cs,
          d.issues w p verbose (c.action w p verbose q).1.disk = d.issues w p verbose q.disk := by
        intro d hd
        rw [hsearch d hd, (Chore.reads_search w p verbose).disk]
      refine (ih hcs _).bind ?_
      rintro ⟨q', rest⟩ ⟨hrest, hnames⟩
      refine returns_pure ⟨?_, fun rs hrs => ?_⟩
      · rw [resultsCode_cons, hrest, List.map_cons, hissues,
          List.map_congr_left fun d hd => congrArg codeOf (hdisk d hd)]
        rfl
      · cases rest with
        | error e => cases hrs
        | ok rs' =>
          cases hrs
          rw [List.map_cons, List.map_cons, hnames rs' rfl]
          rfl

theorem names_isAscii {cs : List Chore} {rs : List (Text × Bool × Nat)}
    (h : rs.map (·.1) = cs.map Chore.name) : ∀ r ∈ rs, r.1.all Encoding.isAscii = true := by
  intro r hr
  obtain ⟨c, -, hc⟩ := List.mem_map.1 (h ▸ List.mem_map_of_mem hr)
  rw [← hc]
  cases c <;> rfl

/-! ## Commands -/

/-- The code that a command ends with, if no time is told. -/
def exitCode (w : World) (c : Command) : Nat := (Id.run (execute instant w c)).exit

/-- What a task comes to in the project at a root: whether there are issues, or the message of what
stops it. -/
def Chore.verdict (w : World) (root : Text) (settings : Option Text) (verbose : Bool) (c : Chore) :
    Except Text Bool :=
  match prepare w root settings none false none ⟨w.disk, []⟩ with
  | (_, .error e) => .error e
  | (q, .ok p) => c.issues w p verbose q.disk

theorem Chore.verdict_of_forall_has {w : World} (hw : ∀ c, w.encoding.has c = true) (root : Text)
    (settings : Option Text) (verbose loud : Bool) (c : Chore) :
    c.verdict w root settings verbose = c.verdict w root settings loud := by
  rw [verdict, verdict]
  rcases prepare w root settings none false none ⟨w.disk, []⟩ with ⟨q, e | p⟩
  · rfl
  · exact issues_of_forall_has p hw verbose loud q.disk c

theorem exitCode_command (w : World) (root : Text) (settings : Option Text) (verbose : Bool)
    (c : Chore) :
    exitCode w (c.command root settings verbose) =
      if rootExists w.disk root then codeOf (c.verdict w root settings verbose) else 2 := by
  cases hroot : rootExists w.disk root with
  | false => cases c <;> simp [exitCode, execute, Chore.command, root?, hroot, Ended.plain]
  | true =>
    have hrun : Id.run (execute instant w (c.command root settings verbose)) =
        ended (Action.andThen (prepare w root settings none false none)
          (fun p => c.action w p verbose) ⟨w.disk, []⟩) := by
      cases c <;> simp [execute, Chore.command, root?, hroot] <;> rfl
    rw [exitCode, hrun, if_pos rfl, Chore.verdict, Action.andThen]
    rcases prepare w root settings none false none ⟨w.disk, []⟩ with ⟨q, e | p⟩
    · rfl
    · simp only [← c.snd_action w p verbose q]
      rcases c.action w p verbose q with ⟨q', e | _ | _⟩ <;> rfl

/-- A run comes to a place where it catches nothing, and is stopped there: once its project is
prepared it makes a console for its summary, and when no task has issues it prints a check mark. -/
def Uncaught (w : World) (root : Text) (settings : Option Text) (verbose : Bool) (cs : List Chore) :
    Prop :=
  rootExists w.disk root = true ∧
    (∃ q p, prepare w root settings none false none ⟨w.disk, []⟩ = (q, .ok p)) ∧
    (openConsole w.environment ≠ .ok () ∨
      w.encoding.has '✓' = false ∧ ∀ c ∈ cs, c.verdict w root settings verbose = .ok false)

/-- Where a run is stopped and catches nothing, either an error stops each of its tasks alone, or none
of them has issues. -/
theorem Uncaught.worst_ne_one {w : World} {root : Text} {settings : Option Text} {verbose : Bool}
    {secrets layout check : Bool}
    (h : Uncaught w root settings verbose (chores secrets layout check)) :
    worst ((chores secrets layout check).map fun c =>
      if rootExists w.disk root then codeOf (c.verdict w root settings verbose) else 2) ≠ 1 := by
  obtain ⟨hroot, ⟨q, p, hprepare⟩, hconsole | ⟨-, hpassed⟩⟩ := h
  · have hstopped (c : Chore) : codeOf (c.verdict w root settings verbose) = 2 := by
      obtain ⟨e, he⟩ : ∃ e, openConsole w.environment = .error e := by
        cases hopen : openConsole w.environment with
        | error e => exact ⟨e, rfl⟩
        | ok => exact absurd hopen hconsole
      rw [Chore.verdict, hprepare]
      cases c <;> simp [Chore.issues, he, bind, Except.bind, codeOf]
    simp only [hroot, if_true, hstopped, worst_chores]
    decide
  · rw [List.map_congr_left (g := fun _ => 0) fun c hc => by simp [hroot, hpassed c hc, codeOf],
      worst_chores]
    decide

theorem uncaught_exit (exit : Nat) (r : Progress × Except Text Unit) :
    (uncaught exit r).exit = match r.2 with
      | .ok () => exit
      | .error _ => 1 := by
  rcases r with ⟨p, e | _⟩ <;> rfl

/-- The code of tasks that are carried out once the project is prepared and there is a console. -/
theorem executeTasks_code (htimed : Truthful timed) {w : World}
    (hopen : openConsole w.environment = .ok ()) (p : Project) (verbose : Bool) {cs : List Chore}
    (hcs : cs.Pairwise fun c _ => c = .search) (hne : cs ≠ []) (q : Progress) :
    Returns (executeTasks timed w (q, .ok (cs.map (Chore.task w p verbose)))) fun r =>
      r.exit =
        if w.encoding.has '✓' = false ∧ ∀ c ∈ cs, c.issues w p verbose q.disk = .ok false then 1
        else worst (cs.map fun c => codeOf (c.issues w p verbose q.disk)) := by
  have hzero : (∀ c ∈ cs, c.issues w p verbose q.disk = .ok false) ↔
      worst (cs.map fun c => codeOf (c.issues w p verbose q.disk)) = 0 := by
    simp [worst_eq_zero_iff, codeOf_eq_zero_iff]
  simp only [hzero, executeTasks, makeConsole, succeed, hopen, Except.mapError]
  refine (perform_code htimed w p verbose hcs q).bind ?_
  rintro ⟨q', e | rs⟩ ⟨hcode, hnames⟩
  · refine returns_pure ?_
    rw [← hcode]
    exact (if_neg fun h => absurd (h.2 : (2 : Nat) = 0) (by decide)).symm
  · refine returns_pure ?_
    have hnames := hnames rs rfl
    rw [← hcode, uncaught_exit, (Reads.say _ _).result]
    cases hpassed : rs.all (·.2.1) with
    | false =>
      have hfailed : resultsCode (.ok rs) = 1 := by simp [resultsCode, Except.map, hpassed, codeOf]
      rw [hfailed]
      cases printAll w.encoding (taskSummary w.encoding.frames rs) <;> simp
    | true =>
      have hpassed' : resultsCode (.ok rs) = 0 := by simp [resultsCode, Except.map, hpassed, codeOf]
      have hmark := printAll_taskSummary w.encoding (names_isAscii hnames) hpassed
        fun h => hne (by simpa [h] using hnames.symm)
      rw [hpassed']
      cases hprint : printAll w.encoding (taskSummary w.encoding.frames rs) with
      | ok => simp [hmark.1 hprint]
      | error e =>
        have hlacks : w.encoding.has '✓' = false := by rw [← Bool.not_eq_true, ← hmark, hprint]; nofun
        simp [hlacks]

/-- The code of a combined run. -/
theorem execute_run_code (htimed : Truthful timed) (w : World) (root : Text) (settings : Option Text)
    (secrets layout check verbose : Bool) :
    Returns (execute timed w (.run root settings secrets layout check verbose)) fun r =>
      (Uncaught w root settings verbose (chores secrets layout check) → r.exit = 1) ∧
      (¬Uncaught w root settings verbose (chores secrets layout check) →
        r.exit = worst ((chores secrets layout check).map fun c =>
          if rootExists w.disk root then codeOf (c.verdict w root settings verbose) else 2)) := by
  cases hroot : rootExists w.disk root with
  | false =>
    have hrun : execute timed w (.run root settings secrets layout check verbose) =
        pure (.plain 2 [] w.disk) := by
      simp [execute, root?, hroot]
    have hcaught : ¬Uncaught w root settings verbose (chores secrets layout check) := by
      simp [Uncaught, hroot]
    rw [hrun]
    exact returns_pure ⟨fun h => (hcaught h).elim, fun _ => (worst_chores secrets layout check 2).symm⟩
  | true =>
    have hrun : execute timed w (.run root settings secrets layout check verbose) =
        executeTasks timed w (Action.andThen (prepare w root settings none false none)
          (fun p => pure ((chores secrets layout check).map (Chore.task w p verbose)))
            ⟨w.disk, []⟩) := by
      simp [execute, root?, hroot, ← tasks_eq]
      rfl
    rw [hrun, Action.andThen]
    simp only [Uncaught, Chore.verdict, hroot, true_and, if_true]
    rcases prepare w root settings none false none ⟨w.disk, []⟩ with ⟨q, e | p⟩
    · refine returns_pure ⟨?_, fun _ => (worst_chores secrets layout check 2).symm⟩
      rintro ⟨⟨_, _, h⟩, -⟩
      cases h
    · cases hopen : openConsole w.environment with
      | error e =>
        simp only [executeTasks, pure, Action.return, makeConsole, succeed, hopen, Except.mapError]
        exact returns_pure (by simp [uncaught])
      | ok =>
        refine (executeTasks_code htimed hopen p verbose (pairwise_chores secrets layout check)
          (chores_ne_nil secrets layout check) q).mono fun r hr => ?_
        have hprepared : ∃ q' p', (q, (Except.ok p : Except Text Project)) = (q', .ok p') := ⟨q, p, rfl⟩
        rw [hr]
        simp only [hprepared, ne_eq, not_true, false_or, true_and]
        exact ⟨fun h => if_pos h, fun h => if_neg h⟩

/-- A combined run ends with the greatest of the codes that the commands for its tasks end with, unless
it is stopped where it catches nothing, and then it ends with 1. A command for a task ends with 0 if
there are no issues, with 1 if there are, and with 2 if the root is missing or an error stops it. How
much a command prints matters only if there are characters that cannot be printed. -/
theorem run_agrees_unless_uncaught (htimed : Truthful timed) (w : World) (root : Text)
    (settings : Option Text) (secrets layout check verbose loud : Bool)
    (hloud : loud = verbose ∨ ∀ c, w.encoding.has c = true) :
    Returns (execute timed w (.run root settings secrets layout check verbose)) (fun r =>
        (r.exit = worst ((chores secrets layout check).map fun c =>
            exitCode w (c.command root settings loud)) ↔
          ¬Uncaught w root settings verbose (chores secrets layout check)) ∧
        (Uncaught w root settings verbose (chores secrets layout check) → r.exit = 1)) ∧
      ∀ c, exitCode w (Chore.command root settings loud c) =
        if rootExists w.disk root then codeOf (c.verdict w root settings loud) else 2 := by
  refine ⟨?_, exitCode_command w root settings loud⟩
  have hverdict (c : Chore) : c.verdict w root settings loud = c.verdict w root settings verbose := by
    rcases hloud with rfl | hw
    · rfl
    · exact c.verdict_of_forall_has hw root settings loud verbose
  simp only [exitCode_command, hverdict]
  refine (execute_run_code htimed w root settings secrets layout check verbose).mono ?_
  rintro r ⟨hone, hworst⟩
  refine ⟨⟨fun h huncaught => ?_, hworst⟩, hone⟩
  exact huncaught.worst_ne_one (h.symm.trans (hone huncaught))

/-- A clock that goes on by one whenever it is read. -/
def ticking : Timer (StateM Nat) := fun f => do
  let start ← getModify (· + 1)
  let r := f ()
  let stop ← getModify (· + 1)
  return (r, stop - start)

theorem truthful_ticking : Truthful ticking := fun _ _ _ => rfl

/-- A search that finds a secret, and a file that cannot be written when it is formatted. -/
theorem run_agrees_of_fatal_format :
    let w : World := ⟨⟨.folder
      [(Text.lit "a.toml", .file (Utf8.encode (Text.lit "password = \"hunter22\"\n"))),
        (Text.lit "b.json", .file (Utf8.encode (Text.lit "\"\\ud800\"")))], []⟩, [], .utf,
      .day ⟨2025, 1, 1⟩⟩
    Truthful ticking ∧ (∀ c, w.encoding.has c = true) ∧
      exitCode w (.scan ['.'] none none none false false) = 1 ∧
      exitCode w (.format ['.'] none false false false) = 2 ∧
      Returns (execute ticking w (.run ['.'] none false false false true)) fun r => r.exit = 2 := by
  intro w
  have hutf : ∀ c, w.encoding.has c = true := fun _ => rfl
  have hscan : exitCode w (.scan ['.'] none none none false false) = 1 := by decide +kernel
  have hformat : exitCode w (.format ['.'] none false false false) = 2 := by decide +kernel
  obtain ⟨hrun, -⟩ :=
    run_agrees_unless_uncaught truthful_ticking w ['.'] none false false false true false (.inr hutf)
  have hworst : worst ((chores false false false).map fun c =>
      exitCode w (c.command ['.'] none false)) = 2 := by
    simp only [chores, Chore.command, Bool.or_false, Bool.not_false, if_true,
      List.singleton_append, List.map_cons, List.map_nil, hscan, hformat]
    rfl
  have hcaught : ¬Uncaught w ['.'] none true (chores false false false) := by
    rintro ⟨-, -, hconsole | ⟨hmark, -⟩⟩
    · exact hconsole rfl
    · exact absurd (hutf '✓') (by rw [hmark]; decide)
  exact ⟨truthful_ticking, hutf, hscan, hformat, hrun.mono fun r hr => (hr.1.2 hcaught).trans hworst⟩

/-- In an environment that gives the lines of the screen by a superscript, formatting alone ends with
the error that the console cannot be made, which a run does not catch. And where standard output is in
ASCII, formatting alone ends well, while a run cannot print its check mark. -/
theorem run_disagrees_with_format :
    let disk : Disk := ⟨.folder [(Text.lit "a.json", .file (Utf8.encode (Text.lit "[1]\n")))], []⟩
    let sized : World := ⟨disk, [(Text.lit "LINES", ['²']),
      (Text.lit "CFGW_LOGGING_FORMAT", Text.lit "json")], .utf, .day ⟨2025, 1, 1⟩⟩
    let plain : World := ⟨disk, [], .ascii, .day ⟨2025, 1, 1⟩⟩
    (exitCode sized (.format ['.'] none false false false) = 2 ∧
      exitCode sized (.run ['.'] none false true false false) = 1) ∧
      exitCode plain (.format ['.'] none false false false) = 0 ∧
      exitCode plain (.run ['.'] none false true false false) = 1 := by
  refine ⟨⟨?_, ?_⟩, ?_, ?_⟩ <;> decide +kernel

end ConfigCare.Command
