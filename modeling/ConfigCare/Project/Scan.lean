import ConfigCare.Project.Basic
import ConfigCare.Secret.Scan
import ConfigCare.Secret.ScanResult
/-!
The search for secrets in all files of a project, or in a single file. A file that cannot be read is
told as an error and stops nothing.
-/

namespace ConfigCare.Project

open Files Secret

/-- What stops a search as a whole. -/
inductive ScanError where
  | registry (e : Registry.LoadError)
  | rule (e : Regex.Refusal)
  | glob (e : Glob.GlobError)
  | walk (e : WalkError)

def ScanError.message : ScanError → Text
  | .registry e => e.message
  | .rule e => e.message
  | .glob e => e.message
  | .walk e => e.message

/-- Scans the content of a file, or tells why there is none. -/
def scanContent (rules : List CompiledRule) (display : Text) (content : Except AccessError Bytes) :
    List Finding × Option Text :=
  match content with
  | .ok bytes => (Secret.scan rules (textOf bytes) display, none)
  | .error e =>
    ([], some (Text.lit "Could not read file " ++ display ++ Text.lit ": " ++ e.message))

/-- The result of scanning files. -/
def scanCandidates (rules : List CompiledRule) (refused : Refused) (tree : Entry) (root : Text)
    (found : Collected) : ScanResult :=
  let scanned := found.candidates.map fun c =>
    scanContent rules c.relative (c.read refused tree)
  ScanResult.ofFiles root found.candidates.length found.visited (scanned.map (·.1))
    (scanned.filterMap (·.2))

/-- The files that a search looks into. -/
def scanFiles (p : Project) (tree : Entry) (registry : Registry) : Except ScanError Collected :=
  match Selection.ofGlobs registry.ignoreGlobs registry.extensions true with
  | .error e => .error (.glob e)
  | .ok s => (collect s p.place tree).mapError .walk

/-- The rules that a search of the project goes by, and the files that it looks into. -/
def scanPlan (p : Project) (disk : Disk) : Except ScanError (List CompiledRule × Collected) :=
  match Registry.load disk (some (p.patternsPath disk.tree)) with
  | .error e => .error (.registry e)
  | .ok registry =>
    match compile registry.rules with
    | .error e => .error (.rule e)
    | .ok rules => (p.scanFiles disk.tree registry).map fun found => (rules, found)

/-- Searches a project for secrets. -/
def scan (p : Project) (disk : Disk) (refused : Refused) : Except ScanError ScanResult :=
  match p.scanPlan disk with
  | .error e => .error e
  | .ok (rules, found) =>
    .ok (scanCandidates rules refused disk.tree (Path.ofPlace (p.base disk.tree)).text found)

/-- The path that a file is shown by: the one given for it, unless that is empty. -/
def shownPath (path : Path) (display : Option Text) : Text :=
  match display with
  | some (c :: cs) => c :: cs
  | _ => path.text

/-- Searches a single file for secrets. -/
def scanFile (rules : List CompiledRule) (disk : Disk) (refused : Refused) (path : Path)
    (display : Option Text) : Except AccessError (List Finding) :=
  match disk.readUnless refused path with
  | .ok bytes => .ok (Secret.scan rules (textOf bytes) (shownPath path display))
  | .error e => .error e

/-- Searches a single file for secrets, or tells why it cannot be read. -/
def scanFileSafe (rules : List CompiledRule) (disk : Disk) (refused : Refused) (path : Path)
    (display : Option Text) : List Finding × Option Text :=
  match scanFile rules disk refused path display with
  | .ok findings => (findings, none)
  | .error e =>
    ([], some (Text.lit "Could not read file " ++ shownPath path display ++ Text.lit ": " ++ e.message))

end ConfigCare.Project
