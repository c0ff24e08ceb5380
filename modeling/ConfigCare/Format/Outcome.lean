import ConfigCare.Schema.Check
/-!
What became of the files of a format run, and how many there are of each kind.
-/

namespace ConfigCare.Format

inductive Status where
  | formatted
  | unchanged
  | error
deriving DecidableEq

def Status.name : Status → Text
  | .formatted => Text.lit "formatted"
  | .unchanged => Text.lit "unchanged"
  | .error => Text.lit "error"

/-- What became of a file, with a message if there is something to tell. -/
structure Outcome where
  file : Text
  status : Status
  message : Option Text
deriving DecidableEq

open Schema in
def Status.check : Data → Checked Status
  | .text s =>
    match [formatted, unchanged, error].find? fun t => WideText.ofText t.name = s with
    | some t => .ok t
    | none => .fail .notListed
  | _ => .fail .notListed

open Schema in
/-- Checks an outcome. -/
def Outcome.check : Data → Checked Outcome :=
  record fun es =>
    ((Checked.apply (.ok Outcome.mk) (required es "file" text)).apply
      (required es "status" Status.check)).apply
      (withDefault es "message" (optional text) none)

structure Summary where
  outcomes : List Outcome
  formatted : Nat
  unchanged : Nat
  errors : Nat
deriving DecidableEq

namespace Summary

open Schema in
/-- Checks a summary; its counts are taken as they are given. -/
def check : Data → Checked Summary :=
  record fun es =>
    (((Checked.apply (.ok Summary.mk) (withDefault es "outcomes" (list 0 Outcome.check) [])).apply
      (withDefault es "formatted" (atLeast 0) 0)).apply
      (withDefault es "unchanged" (atLeast 0) 0)).apply
      (withDefault es "errors" (atLeast 0) 0)

/-- The outcomes of a status. -/
def count (s : Status) (os : List Outcome) : Nat := os.countP fun o => o.status = s

def ofOutcomes (os : List Outcome) : Summary :=
  ⟨os, count .formatted os, count .unchanged os, count .error os⟩

/-- Whether a run should be noticed: only one that checks, and finds files that are not as they
should be. -/
def needsAttention (s : Summary) (check : Bool) : Bool :=
  check && (0 < s.formatted || 0 < s.errors)

end Summary

end ConfigCare.Format
