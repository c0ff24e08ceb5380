import ConfigCare.Files.Tree
import ConfigCare.Log.Setup
/-!
The logger of the program over time. To set it up puts new handlers in the place of those it had, and a
record goes to the handlers that are there when it is made.
-/

namespace ConfigCare.Log

open Files

/-- The place of the file of a log. -/
def placeOf (d : Disk) (file : Text) : List Text := (Path.ofText file).resolve d.here

/-- Makes the file of a log, unless it is there. -/
def openLog (d : Disk) (file : Text) : Except AccessError Disk :=
  let place := placeOf d file
  let failed (fault : AccessFault) : AccessError := ⟨fault, (Path.ofPlace place).text⟩
  match d.tree.find place with
  | .ok (.file _) => .ok d
  | .ok (.folder _) => .error (failed .isFolder)
  | .error _ =>
    match d.tree.write [] place with
    | .ok tree => .ok { d with tree }
    | .error fault => .error (failed fault)

/-- What shows records on the terminal, or appends them to the file at a place. -/
inductive Handler where
  | terminal (display : Display)
  | file (place : List Text)
deriving DecidableEq

/-- Appends the line of a record to a file. A record whose arguments do not fit has no line. -/
def Handler.emit (r : Record) (d : Disk) : Handler → Disk
  | .terminal _ => d
  | .file place =>
    match r.line, d.tree.read place with
    | .ok line, .ok content =>
      match d.tree.write (content ++ Utf8.encode (line ++ ['\n'])) place with
      | .ok tree => { d with tree }
      | .error _ => d
    | _, _ => d

/-- The logger of the program, and the disk with the files that it writes. -/
structure Journal where
  level : Int
  handlers : List Handler
  disk : Disk

namespace Journal

/-- The logger before it is set up. -/
def fresh (disk : Disk) : Journal := ⟨0, [], disk⟩

/-- Sets up the logger. If its file cannot be opened, it has the level and the terminal already. -/
def setUp (settings : Settings.Logging) (verbose : Bool) (j : Journal) :
    Journal × Except AccessError Unit :=
  let s := Setup.ofSettings settings verbose
  let left := j.handlers.foldl List.erase j.handlers
  let j := { j with level := s.level, handlers := left ++ [.terminal s.display] }
  match s.file with
  | none => (j, .ok ())
  | some file =>
    match openLog j.disk file with
    | .error e => (j, .error e)
    | .ok disk => ({ j with handlers := j.handlers ++ [.file (placeOf disk file)], disk }, .ok ())

/-- Whether the logger keeps a record. -/
def keeps (j : Journal) (r : Record) : Bool :=
  isBelowRoot r.logger && 0 < r.level && effectiveLevel j.level ≤ r.level

/-- Gives a record to every handler, if it is kept. -/
def log (r : Record) (j : Journal) : Journal :=
  if j.keeps r then { j with disk := j.handlers.foldl (fun d h => h.emit r d) j.disk } else j

end Journal

/-- What happens to the logger. -/
inductive Event where
  | setUp (settings : Settings.Logging) (verbose : Bool)
  | log (r : Record)

namespace Journal

def step (j : Journal) : Event → Journal
  | .setUp settings verbose => (j.setUp settings verbose).1
  | .log r => j.log r

def run (j : Journal) (events : List Event) : Journal := events.foldl step j

end Journal

end ConfigCare.Log
