import ConfigCare.Command.Execute
import Std.Time.DateTime.Timestamp
/-!
The program. What a command may look at is read into a tree of files, the command is executed on it,
and the files that have changed are written back.
-/

namespace ConfigCare.Main

open Files Command

def pathText (place : List Text) : String := String.ofList (Path.ofPlace place).text

/-- Whether something is there, and if so, whether it is a folder. -/
def kind? (place : List Text) : IO (Option Bool) := do
  try
    let path ← IO.FS.realPath (pathText place)
    if ← path.pathExists then return some (← path.isDir)
    return none
  catch _ => return none

/-- Reads a file into a tree. One that cannot be read is left out. -/
def addFile (tree : Entry) (place : List Text) : IO Entry := do
  try
    let content ← IO.FS.readBinFile (pathText place)
    match tree.makeFolder place.dropLast with
    | .error _ => return tree
    | .ok tree => return (tree.write content.toList place).toOption.getD tree
  catch _ => return tree

def addFolder (tree : Entry) (place : List Text) : Entry :=
  (tree.makeFolder place).toOption.getD tree

/-- Reads what lies at a place into a tree, with all that is below it if asked for. -/
partial def add (deep : Bool) (tree : Entry) (place : List Text) : IO Entry := do
  match ← kind? place with
  | none => return tree
  | some false => addFile tree place
  | some true =>
    let tree := addFolder tree place
    if !deep then return tree
    let path ← IO.FS.realPath (pathText place)
    (← path.readDir).foldlM (fun tree e => add true tree (place ++ [e.fileName.toList])) tree

/-- Reads what a path leads to, and the folder it lies in. -/
def addPath (disk : Disk) (p : Path) : IO Disk := do
  let place := p.resolve disk.here
  let tree ← add false disk.tree place.dropLast
  return { disk with tree := ← add false tree place }

/-- The variables of the environment, where the system shows them. -/
def environment : IO (List (Text × Text)) := do
  try
    let bytes ← IO.FS.readBinFile "/proc/self/environ"
    let entries := Text.splitOn (Char.ofNat 0) (textOf bytes.toList)
    return entries.filterMap fun e =>
      let name := e.takeWhile (· ≠ '=')
      if name.length < e.length then some (name, e.drop (name.length + 1)) else none
  catch _ => return []

def now : IO Moment := do
  let t ← Std.Time.Timestamp.now
  let nanoseconds := t.toNanosecondsSinceUnixEpoch.val
  let micros := (nanoseconds.fdiv 1000).fmod 1000000
  match Log.momentOf (Binary64.ofFraction false (nanoseconds.fdiv 1000000000).toNat 1) with
  | .fixed d time offset => return .fixed d { time with microsecond := micros.toNat } offset
  | m => return m

/-- Measures the time that a step takes. -/
def timed : Timer IO := fun f => do
  let start ← IO.monoNanosNow
  let r ← IO.lazyPure f
  let stop ← IO.monoNanosNow
  return (r, stop - start)

/-- The project that a command works on, as far as its settings can be read. -/
def project? (w : World) (c : Command) : Option Project :=
  let prepared : Option (Action Project) := match c with
    | .scan root settings config _ _ verbose =>
      some (prepare w root settings config verbose none)
    | .format root settings _ _ verbose =>
      some (prepare w root settings none verbose none)
    | .run root settings _ _ _ verbose =>
      some (prepare w root settings none verbose none)
    | .patterns root settings config =>
      some (prepare w root settings config false none)
    | _ => none
  prepared.bind fun a => (a ⟨w.disk, []⟩).2.toOption

/-- All that a command may look at. -/
def worldOf (c : Command) : IO World := do
  let here := (Path.ofText (← IO.currentDir).toString.toList).names
  let env ← environment
  let disk : Disk := ⟨addFolder .empty here, here⟩
  let tree ← match c.root? with
    | some root => add true disk.tree ((Path.ofText root).resolve here)
    | none => pure disk.tree
  let disk ← c.givenPaths.foldlM addPath { disk with tree }
  let w : World := ⟨disk, env, .utf, ← now⟩
  match project? w c with
  | some p => return { w with disk := ← (settingsPaths p disk.tree).foldlM addPath disk }
  | none => return w

/-- Writes the files that have changed. -/
def writeBack (old new : Entry) : IO Unit := do
  for (place, content) in new.contents [] do
    match old.read place with
    | .ok before => if before ≠ content then write place content
    | .error _ => write place content
where
  write (place : List Text) (content : Bytes) : IO Unit :=
    IO.FS.writeBinFile (pathText place) ⟨content.toArray⟩

def usage : String := "Usage: version | scan | format | run | patterns"

/-- Carries out a command and gives the code to exit with. -/
def carryOut (c : Command) : IO UInt32 := do
  let w ← worldOf c
  let r ← execute timed w c
  writeBack w.disk.tree r.disk.tree
  for line in r.printed do
    IO.println (String.ofList line)
  if c = .help then IO.println usage
  match r.fatal with
  | some e => IO.eprintln ("Error: " ++ String.ofList e)
  | none => if r.exit = 2 then IO.eprintln usage
  return r.exit.toUInt32

end ConfigCare.Main

def main (args : List String) : IO UInt32 :=
  match ConfigCare.Command.ofArguments? (args.map String.toList) with
  | some c => ConfigCare.Main.carryOut c
  | none => do
    IO.eprintln ConfigCare.Main.usage
    return 2
