import ConfigCare.Files.Selection
import ConfigCare.Files.Tree
/-!
Walking a folder: the files in it that a selection takes, in the order of their names at every
level, and the number of files that were seen.
-/

namespace ConfigCare.Files

/-- A file that was found, by its place and by its path from the root of the walk. -/
structure Candidate where
  place : List Text
  relative : Text
deriving DecidableEq

namespace Candidate

def name (c : Candidate) : Text := c.place.getLast?.getD []

def extension (c : Candidate) : Text := Files.extension c.name

def path (c : Candidate) : Path := .ofPlace c.place

end Candidate

/-- What a walk found: the files it takes by the names below its root, and how many it saw. -/
structure Walked where
  files : List (List Text)
  visited : Nat
deriving DecidableEq

namespace Walked

def empty : Walked := ⟨[], 0⟩

def append (v w : Walked) : Walked := ⟨v.files ++ w.files, v.visited + w.visited⟩

end Walked

/-- Whether a text comes before another by the codes of their characters. -/
def textBefore : Text → Text → Bool
  | [], [] => false
  | [], _ :: _ => true
  | _ :: _, [] => false
  | c :: cs, d :: ds => c.toNat < d.toNat || (c = d && textBefore cs ds)

variable {α : Type}

/-- Puts an entry behind those of names that come before its own. -/
def insertByName (e : Text × α) : List (Text × α) → List (Text × α)
  | [] => [e]
  | f :: rest => if textBefore f.1 e.1 then f :: insertByName e rest else e :: f :: rest

def sortByName : List (Text × α) → List (Text × α)
  | [] => []
  | e :: es => insertByName e (sortByName es)

mutual

/-- Walks what lies under a name; `above` are the names from the root of the walk down to it. -/
def walkEntry (s : Selection) (above : List Text) (name : Text) : Entry → Walked
  | .file _ =>
    let names := above ++ [name]
    if s.ignores (Text.joinWith ['/'] names) false then .empty
    else ⟨if s.accepts name then [names] else [], 1⟩
  | .folder es =>
    let names := above ++ [name]
    if s.descends name (Text.joinWith ['/'] names) then
      (sortByName (walkEntries s names es)).foldr (fun w rest => w.2.append rest) .empty
    else .empty

/-- Walks the entries of a folder. -/
def walkEntries (s : Selection) (above : List Text) : List (Text × Entry) → List (Text × Walked)
  | [] => []
  | (name, e) :: es => (name, walkEntry s above name e) :: walkEntries s above es

end

/-- Walks the entries of the folder that is the root, however deep the folders in it are: the stack of
an interpreter, which some 990 of them use up, is no part of this. -/
def walkFolder (s : Selection) (es : List (Text × Entry)) : Walked :=
  (sortByName (walkEntries s [] es)).foldr (fun w rest => w.2.append rest) .empty

inductive WalkError where
  | missing (path : Text)
  | notFolder (path : Text)
deriving DecidableEq

def WalkError.message : WalkError → Text
  | .missing path => Text.lit "Directory not found: " ++ path
  | .notFolder path => Text.lit "Not a directory: " ++ path

/-- The files found below a place, and the number of files seen. -/
structure Collected where
  candidates : List Candidate
  visited : Nat
deriving DecidableEq

def Walked.below (place : List Text) (w : Walked) : Collected :=
  ⟨w.files.map fun names => ⟨place ++ names, Text.joinWith ['/'] names⟩, w.visited⟩

/-- Walks the folder at a place. -/
def walk (s : Selection) (place : List Text) (tree : Entry) : Except WalkError Collected :=
  match tree.find place with
  | .ok (.folder es) => .ok ((walkFolder s es).below place)
  | .ok (.file _) => .error (.notFolder (Path.ofPlace place).text)
  | .error _ => .error (.missing (Path.ofPlace place).text)

/-- The files to look into at a place, which may be a file itself. Globs see all of the path of such
a file. -/
def collect (s : Selection) (place : List Text) (tree : Entry) : Except WalkError Collected :=
  match tree.find place with
  | .ok (.file _) =>
    let name := place.getLast?.getD []
    if s.ignores (Text.joinWith ['/'] place) false then .ok ⟨[], 0⟩
    else if s.accepts name then .ok ⟨[⟨place, name⟩], 1⟩
    else .ok ⟨[], 1⟩
  | _ => walk s place tree

end ConfigCare.Files
