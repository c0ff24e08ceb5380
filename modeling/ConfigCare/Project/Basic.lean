import ConfigCare.Files.Walk
import ConfigCare.Secret.Registry
import ConfigCare.Settings.Basic
/-!
A project: the folder or single file that is looked into, with the settings that hold for it. Its
rules and its report have their places in its base folder.
-/

namespace ConfigCare

structure Project where
  /-- The names that lead to the folder or file. -/
  place : List Text
  settings : Settings
  /-- A file of rules that is given explicitly. -/
  patternsFile : Option Files.Path

namespace Project

open Files

/-- A project with some of its settings replaced, unchecked. -/
def create (place : List Text) (settings : Settings) (patternsFile : Option Path)
    (concurrency : Option Int) (strict : Option Bool) : Project where
  place := place
  settings :=
    { settings with
      concurrency := concurrency.getD settings.concurrency
      formatter := { settings.formatter with strict := strict.getD settings.formatter.strict } }
  patternsFile := patternsFile

/-- The folder that paths start from: that of the project, or the one its single file lies in. -/
def base (p : Project) (tree : Entry) : List Text :=
  match tree.find p.place with
  | .ok (.folder _) => p.place
  | _ => p.place.dropLast

/-- Where the rules are read from. -/
def patternsPath (p : Project) (tree : Entry) : Path :=
  p.patternsFile.getD
    ((Path.ofPlace (p.base tree)).below (.ofText p.settings.scanner.patternsFile))

/-- Where the report is written to if no other place is asked for. -/
def reportPath (p : Project) (tree : Entry) : Path :=
  (Path.ofPlace (p.base tree)).below (.ofText p.settings.scanner.reportFile)

end Project

namespace Secret.Registry

/-- Why no registry is loaded, not even the one that is built in. -/
inductive LoadError where
  | limit (e : Json.ReadError)
  | nullInPath

def LoadError.message : LoadError → Text
  | .limit e => e.message
  | .nullInPath => Text.lit "embedded null byte"

/-- Reads a registry from bytes; those that hold none give the one that is built in. -/
def ofBytes (content : Bytes) : Except LoadError Registry :=
  match Utf8.decode content with
  | .error _ => .ok builtIn
  | .ok s =>
    match parse (Text.unifyBreaks s) with
    | .ok r => .ok r
    | .error (.limit e) => .error (.limit e)
    | .error _ => .ok builtIn

/-- Loads a registry from a file. Without a file, or with one that cannot be read, it is the one
that is built in. -/
def load (disk : Files.Disk) (path : Option Files.Path) : Except LoadError Registry :=
  match path with
  | none => .ok builtIn
  | some p =>
    if p.hasNull then .error .nullInPath
    else
      match disk.read p with
      | .error _ => .ok builtIn
      | .ok content => ofBytes content

end Secret.Registry

namespace Files

/-- Files that may not be read, by their places. -/
abbrev Refused := List (List Text)

/-- Reads a file that a walk has found. -/
def Candidate.read (c : Candidate) (refused : Refused) (tree : Entry) : Except AccessError Bytes :=
  if refused.contains c.place then .error ⟨.denied, c.path.text⟩
  else (tree.read c.place).mapError fun fault => ⟨fault, c.path.text⟩

/-- Writes a file that a walk has found, all of it or nothing. -/
def Candidate.write (c : Candidate) (refused : Refused) (content : Bytes) (tree : Entry) :
    Except AccessError Entry :=
  if refused.contains c.place then .error ⟨.denied, c.path.text⟩
  else (tree.write content c.place).mapError fun fault => ⟨fault, c.path.text⟩

/-- Reads a file by a path, unless it may not be read. -/
def Disk.readUnless (d : Disk) (refused : Refused) (p : Path) : Except AccessError Bytes :=
  match d.follow p with
  | .error fault => .error ⟨fault, p.text⟩
  | .ok place =>
    if refused.contains place then .error ⟨.denied, p.text⟩
    else (d.tree.read place).mapError fun fault => ⟨fault, p.text⟩

/-- The files that may not be read, and those that may not be written. -/
structure Locks where
  reading : Refused
  writing : Refused

end Files

end ConfigCare
