import ConfigCare.Data
import ConfigCare.Files.Path
import ConfigCare.Text.Utf8
/-!
A tree of files and folders: looking up, reading, writing and removing what lies at a place in it.
-/

namespace ConfigCare.Files

/-- A file with its content, or a folder with what it holds by name. There are no links, so files at
two places are two files. -/
inductive Entry where
  | file (content : Bytes)
  | folder (entries : List (Text × Entry))

inductive AccessFault where
  | missing
  | isFolder
  | notFolder
  | exists
  | denied
deriving DecidableEq

/-- Why something could not be done with a path. -/
structure AccessError where
  fault : AccessFault
  path : Text
deriving DecidableEq

def AccessFault.withPath (path : Text) (what : String) : Text :=
  Text.lit what ++ Text.lit ": " ++ Text.quoted path

/-- The text of a fault. Access is denied by whoever stands in for the system, and that one says no
more; the system itself says `[Errno 13] Permission denied` and the path. -/
def AccessError.message (e : AccessError) : Text :=
  match e.fault with
  | .missing => AccessFault.withPath e.path "[Errno 2] No such file or directory"
  | .isFolder => AccessFault.withPath e.path "[Errno 21] Is a directory"
  | .notFolder => AccessFault.withPath e.path "[Errno 20] Not a directory"
  | .exists => AccessFault.withPath e.path "[Errno 17] File exists"
  | .denied => Text.lit "denied"

namespace Entry

def isFile : Entry → Bool
  | .file _ => true
  | .folder _ => false

def empty : Entry := .folder []

/-- What lies at a place. -/
def find : List Text → Entry → Except AccessFault Entry
  | [], e => .ok e
  | _ :: _, .file _ => .error .notFolder
  | n :: ns, .folder es =>
    match Data.lookup? n es with
    | none => .error .missing
    | some e => find ns e

def find? (place : List Text) (e : Entry) : Option Entry := (find place e).toOption

/-- Reads the file at a place. -/
def read (place : List Text) (e : Entry) : Except AccessFault Bytes :=
  match find place e with
  | .ok (.file content) => .ok content
  | .ok (.folder _) => .error .isFolder
  | .error fault => .error fault

/-- Writes the file at a place; its folder has to be there. -/
def write (content : Bytes) : List Text → Entry → Except AccessFault Entry
  | [], .file _ => .ok (.file content)
  | [], .folder _ => .error .isFolder
  | _ :: _, .file _ => .error .notFolder
  | n :: ns, .folder es =>
    match Data.lookup? n es with
    | some e => (write content ns e).map fun e => .folder (Data.setKey n e es)
    | none => if ns.isEmpty then .ok (.folder (Data.setKey n (.file content) es)) else .error .missing

/-- Makes the folder at a place, and those it lies in. -/
def makeFolder : List Text → Entry → Except AccessFault Entry
  | [], .file _ => .error .exists
  | [], .folder es => .ok (.folder es)
  | _ :: _, .file _ => .error .notFolder
  | n :: ns, .folder es =>
    (makeFolder ns ((Data.lookup? n es).getD empty)).map fun e => .folder (Data.setKey n e es)

/-- Removes the file at a place. -/
def remove : List Text → Entry → Except AccessFault Entry
  | [], _ => .error .isFolder
  | _ :: _, .file _ => .error .notFolder
  | n :: ns, .folder es =>
    match Data.lookup? n es with
    | none => .error .missing
    | some e =>
      match e, ns with
      | .file _, [] => .ok (.folder (es.filter fun m => m.1 ≠ n))
      | e, ns => (remove ns e).map fun e => .folder (Data.setKey n e es)

mutual

/-- All files with their places, below the names that lead to an entry. -/
def contents (above : List Text) : Entry → List (List Text × Bytes)
  | .file content => [(above, content)]
  | .folder es => contentsOf above es

def contentsOf (above : List Text) : List (Text × Entry) → List (List Text × Bytes)
  | [] => []
  | (n, e) :: es => contents (above ++ [n]) e ++ contentsOf above es

end

/-- Follows a path name by name, where a double dot has to come after a folder. -/
def follow (e : Entry) : List Text → List Text → Except AccessFault (List Text)
  | done, [] => .ok done
  | done, n :: ns =>
    if n = Path.parentName then
      match find done e with
      | .ok (.folder _) => follow e done.dropLast ns
      | .ok (.file _) => .error .notFolder
      | .error fault => .error fault
    else follow e (done ++ [n]) ns

end Entry

/-- All files, and the folder where one stands. -/
structure Disk where
  tree : Entry
  here : List Text

namespace Disk

/-- The place that a path leads to, as far as folders let it. -/
def follow (d : Disk) (p : Path) : Except AccessFault (List Text) :=
  d.tree.follow [] ((Path.ofPlace d.here).below p).names

/-- What a path leads to. -/
def find? (d : Disk) (p : Path) : Option Entry :=
  match d.follow p with
  | .ok place => d.tree.find? place
  | .error _ => none

def read (d : Disk) (p : Path) : Except AccessError Bytes :=
  match d.follow p with
  | .error fault => .error ⟨fault, p.text⟩
  | .ok place =>
    match d.tree.read place with
    | .error fault => .error ⟨fault, p.text⟩
    | .ok content => .ok content

def write (d : Disk) (p : Path) (content : Bytes) : Except AccessError Disk :=
  match d.follow p with
  | .error fault => .error ⟨fault, p.text⟩
  | .ok place =>
    match d.tree.write content place with
    | .error fault => .error ⟨fault, p.text⟩
    | .ok tree => .ok { d with tree }

end Disk

/-- The text in a file, in UTF-8 or else in Latin-1, with its line breaks made uniform. -/
def textOf (content : Bytes) : Text :=
  Text.unifyBreaks (match Utf8.decode content with
    | .ok s => s
    | .error _ => Latin1.decode content)

end ConfigCare.Files
