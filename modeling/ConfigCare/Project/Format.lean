import ConfigCare.Format.Document
import ConfigCare.Format.Outcome
import ConfigCare.Project.Basic
/-!
Formatting all files of a project, or checking which of them need it. What becomes of a file is
decided from its content alone; only then is it written.
-/

namespace ConfigCare.Project

open Files Format

/-- What stops a run as a whole. -/
inductive FormatError where
  | glob (e : Glob.GlobError)
  | walk (e : WalkError)
  | encoding (e : LoneSurrogates)

def FormatError.message : FormatError → Text
  | .glob e => e.message
  | .walk e => e.message
  | .encoding e => e.message

def needsFormatting : Text := Text.lit "File needs formatting"

/-- The status of a file, what there is to tell of it, and the bytes to write, if any. -/
structure Decision where
  status : Status
  message : Option Text
  bytes : Option Bytes
deriving DecidableEq

def Decision.failed (message : Text) : Decision := ⟨.error, some message, none⟩

/-- Decides what becomes of a file, from its content. A result that cannot be encoded is only
noticed when it is to be written. -/
def decide (strict check : Bool) (extension : Text) (content : Except AccessError Bytes) :
    Except LoneSurrogates Decision :=
  match content with
  | .error e => .ok (.failed e.message)
  | .ok bytes =>
    match Utf8.decode bytes with
    | .error e => .ok (.failed e.message)
    | .ok s =>
      match Format.document s extension strict with
      | .ok t =>
        if t = s then .ok ⟨.unchanged, none, none⟩
        else if check then .ok (.failed needsFormatting)
        else .ok ⟨.formatted, none, some (Utf8.encode t)⟩
      | .error e => if check then .ok (.failed needsFormatting) else .error e

/-- Carries out a decision: the outcome, and the tree with what was written. -/
def Decision.apply (d : Decision) (c : Candidate) (refused : Refused) (tree : Entry) :
    Outcome × Entry :=
  match d.bytes with
  | none => (⟨c.relative, d.status, d.message⟩, tree)
  | some bytes =>
    match c.write refused bytes tree with
    | .ok tree => (⟨c.relative, d.status, d.message⟩, tree)
    | .error e => (⟨c.relative, .error, some e.message⟩, tree)

/-- Formats files one after another. A file whose result cannot be encoded ends the run; what was
written before stays. -/
def formatCandidates (strict check : Bool) (locks : Locks) (tree : Entry) :
    List Candidate → Entry × Except LoneSurrogates (List Outcome)
  | [] => (tree, .ok [])
  | c :: cs =>
    match decide strict check c.extension (c.read locks.reading tree) with
    | .error e => (tree, .error e)
    | .ok d =>
      let (outcome, tree) := d.apply c locks.writing tree
      let (tree, rest) := formatCandidates strict check locks tree cs
      (tree, rest.map (outcome :: ·))

/-- The files that a run formats. -/
def formatFiles (p : Project) (tree : Entry) : Except FormatError Collected :=
  match Selection.ofGlobs p.settings.formatter.ignoreGlobs p.settings.formatter.extensions false with
  | .error e => .error (.glob e)
  | .ok s => (collect s p.place tree).mapError .walk

/-- Formats the files of a project, or checks them. A file that is locked is told as an error. -/
def formatLocked (p : Project) (disk : Disk) (locks : Locks) (check : Bool) :
    Disk × Except FormatError Summary :=
  match p.formatFiles disk.tree with
  | .error e => (disk, .error e)
  | .ok found =>
    let (tree, outcomes) :=
      formatCandidates p.settings.formatter.strict check locks disk.tree found.candidates
    ({ disk with tree }, (outcomes.map Summary.ofOutcomes).mapError .encoding)

/-- Formats the files of a project, or checks them, where no file is locked against writing. -/
def format (p : Project) (disk : Disk) (refused : Refused) (check : Bool) :
    Disk × Except FormatError Summary :=
  p.formatLocked disk ⟨refused, []⟩ check

end ConfigCare.Project
