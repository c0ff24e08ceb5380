import ConfigCare.Project.Format
import ConfigCare.Project.Scan
/-!
The files of a run, one after another or by a pool of workers. Every file has a worker of its own, and
no more of them are at work at a time than the pool lets in. A worker reads and writes its file in
steps, between which other workers take theirs.
-/

namespace ConfigCare.Project

open Files Format Secret

/-- What is left to do with a file. It is read and written, and in the end there is a result, or
something that stops the run. -/
inductive Task (ε α : Type) where
  | returns (result : α)
  | raises (e : ε)
  | reads (next : Except AccessError Bytes → Task ε α)
  | writes (content : Bytes) (next : Except AccessError Unit → Task ε α)

/-- The search of a file for secrets. A file that is no UTF-8 is read once more, as Latin-1. -/
def scanTask (rules : List CompiledRule) (c : Candidate) : Task Empty (List Finding × Option Text) :=
  .reads fun
    | .error e => .returns (scanContent rules c.relative (.error e))
    | .ok bytes =>
      match Utf8.decode bytes with
      | .ok s => .returns (Secret.scan rules (Text.unifyBreaks s) c.relative, none)
      | .error _ => .reads fun
        | .error e => .returns (scanContent rules c.relative (.error e))
        | .ok bytes =>
          .returns (Secret.scan rules (Text.unifyBreaks (Latin1.decode bytes)) c.relative, none)

/-- What is left to do with a file once it is decided on. -/
def Decision.task (d : Decision) (c : Candidate) : Task LoneSurrogates Outcome :=
  match d.bytes with
  | none => .returns ⟨c.relative, d.status, d.message⟩
  | some bytes => .writes bytes fun
    | .ok () => .returns ⟨c.relative, d.status, d.message⟩
    | .error e => .returns ⟨c.relative, .error, some e.message⟩

/-- The formatting of a file, or the check whether it needs any. -/
def formatTask (strict check : Bool) (c : Candidate) : Task LoneSurrogates Outcome :=
  .reads fun content =>
    match decide strict check c.extension content with
    | .error e => .raises e
    | .ok d => d.task c

variable {ε α : Type}

/-- Carries out all of a task. -/
def Task.carryOut (c : Candidate) (locks : Locks) : Task ε α → Entry → Entry × Except ε α
  | .returns a, tree => (tree, .ok a)
  | .raises e, tree => (tree, .error e)
  | .reads next, tree => (next (c.read locks.reading tree)).carryOut c locks tree
  | .writes content next, tree =>
    match c.write locks.writing content tree with
    | .ok tree => (next (.ok ())).carryOut c locks tree
    | .error e => (next (.error e)).carryOut c locks tree

/-- Carries out tasks on files one after another. One that raises ends the run. -/
def carryOutInTurn (task : Candidate → Task ε α) (locks : Locks) (tree : Entry) :
    List Candidate → Entry × Except ε (List α)
  | [] => (tree, .ok [])
  | c :: cs =>
    match (task c).carryOut c locks tree with
    | (tree, .error e) => (tree, .error e)
    | (tree, .ok a) =>
      let (tree, rest) := carryOutInTurn task locks tree cs
      (tree, rest.map (a :: ·))

/-- A worker waits until the pool lets it in, and is at work until it returns or raises. -/
inductive Worker (ε α : Type) where
  | waiting (t : Task ε α)
  | active (t : Task ε α)
  | returned (result : α)
  | raised (e : ε)

namespace Worker

def isActive : Worker ε α → Bool
  | .active _ => true
  | _ => false

def isRaised : Worker ε α → Bool
  | .raised _ => true
  | _ => false

def result? : Worker ε α → Option α
  | .returned a => some a
  | _ => none

/-- The next step of the worker on a file, if it can take one. It is let in if the pool is `free`. -/
def step? (c : Candidate) (locks : Locks) (free : Bool) (tree : Entry) :
    Worker ε α → Option (Worker ε α × Entry)
  | .waiting t => if free then some (.active t, tree) else none
  | .active (.returns a) => some (.returned a, tree)
  | .active (.raises e) => some (.raised e, tree)
  | .active (.reads next) => some (.active (next (c.read locks.reading tree)), tree)
  | .active (.writes content next) =>
    match c.write locks.writing content tree with
    | .ok tree => some (.active (next (.ok ())), tree)
    | .error e => some (.active (next (.error e)), tree)
  | .returned _ => none
  | .raised _ => none

end Worker

/-- The workers in the order of their files, and the tree on which all of them are at work. -/
structure Pool (ε α : Type) where
  tree : Entry
  workers : List (Candidate × Worker ε α)

namespace Pool

def start (task : Candidate → Task ε α) (tree : Entry) (cs : List Candidate) : Pool ε α :=
  ⟨tree, cs.map fun c => (c, .waiting (task c))⟩

/-- How many workers are at work. -/
def active (p : Pool ε α) : Nat := p.workers.countP fun w => w.2.isActive

/-- Lets a worker take its next step. Another worker is let in while fewer than `limit` are at work. -/
def step? (locks : Locks) (limit i : Nat) (p : Pool ε α) : Option (Pool ε α) :=
  match p.workers[i]? with
  | none => none
  | some (c, w) =>
    (w.step? c locks (p.active < limit) p.tree).map fun r => ⟨r.2, p.workers.set i (c, r.1)⟩

/-- Lets the workers take steps in a given order; there is none if one of them cannot be taken. -/
def run? (locks : Locks) (limit : Nat) : List Nat → Pool ε α → Option (Pool ε α)
  | [], p => some p
  | i :: order, p => (p.step? locks limit i).bind (run? locks limit order)

/-- The results in the order of the files, once all workers have returned. -/
def results? (p : Pool ε α) : Option (List α) := p.workers.mapM fun w => w.2.result?

/-- What a search for secrets comes to. -/
def scanResult? (root : Text) (found : Collected)
    (p : Pool Empty (List Finding × Option Text)) : Option ScanResult :=
  p.results?.map fun scanned => ScanResult.ofFiles root found.candidates.length found.visited
    (scanned.map (·.1)) (scanned.filterMap (·.2))

/-- What a format run comes to. -/
def summary? (p : Pool LoneSurrogates Outcome) : Option Summary := p.results?.map Summary.ofOutcomes

end Pool

/-- How a search can come to its result: file after file, or in a pool of as many workers as the settings
allow, in whatever order these take their steps. -/
inductive ScansTo (p : Project) (disk : Disk) (refused : Refused) : ScanResult → Prop where
  | inTurn {result : ScanResult} (h : p.settings.concurrency ≤ 1)
    (hrun : p.scan disk refused = .ok result) : ScansTo p disk refused result
  | pooled {rules : List CompiledRule} {found : Collected} {order : List Nat}
    {pool : Pool Empty (List Finding × Option Text)} {result : ScanResult}
    (h : 1 < p.settings.concurrency) (hplan : p.scanPlan disk = .ok (rules, found))
    (hrun : (Pool.start (scanTask rules) disk.tree found.candidates).run? ⟨refused, []⟩
      p.settings.concurrency.toNat order = some pool)
    (hresult : pool.scanResult? (Path.ofPlace (p.base disk.tree)).text found = some result) :
    ScansTo p disk refused result

/-- How a format run can come to its summary: file after file, or in a pool of as many workers as the
settings allow, in whatever order these take their steps. -/
inductive FormatsTo (p : Project) (disk : Disk) (locks : Locks) (check : Bool) :
    Disk → Summary → Prop where
  | inTurn {disk' : Disk} {summary : Summary} (h : p.settings.concurrency ≤ 1)
    (hrun : p.formatLocked disk locks check = (disk', .ok summary)) :
    FormatsTo p disk locks check disk' summary
  | pooled {found : Collected} {order : List Nat} {pool : Pool LoneSurrogates Outcome}
    {summary : Summary} (h : 1 < p.settings.concurrency)
    (hfound : p.formatFiles disk.tree = .ok found)
    (hrun : (Pool.start (formatTask p.settings.formatter.strict check) disk.tree
      found.candidates).run? locks p.settings.concurrency.toNat order = some pool)
    (hsummary : pool.summary? = some summary) :
    FormatsTo p disk locks check { disk with tree := pool.tree } summary

end ConfigCare.Project
