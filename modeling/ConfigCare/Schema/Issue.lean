import ConfigCare.Text.Basic
/-!
What is wrong with a value that should have a certain shape: every fault with the place in the
value where it lies. A check goes on behind a fault, so that all faults are told at once.
-/

namespace ConfigCare.Schema

/-- A step into a value. -/
inductive Step where
  | key (name : Text)
  | item (n : Nat)
deriving DecidableEq

inductive Fault where
  | missing
  | notRecord
  | notText
  | loneSurrogate
  | textTooShort
  | notList
  | notTuple
  | tooShort
  | notWhole
  | wholeSyntax
  | wholeSize
  | fraction
  | notFinite
  | tooSmall
  | notTruth
  | truthSyntax
  | notListed
  | unknownKey
  | unreadable
deriving DecidableEq

/-- The name under which a fault is reported. -/
def Fault.name : Fault → Text
  | .missing => Text.lit "missing"
  | .notRecord => Text.lit "model_type"
  | .notText => Text.lit "string_type"
  | .loneSurrogate => Text.lit "string_unicode"
  | .textTooShort => Text.lit "string_too_short"
  | .notList => Text.lit "list_type"
  | .notTuple => Text.lit "tuple_type"
  | .tooShort => Text.lit "too_short"
  | .notWhole => Text.lit "int_type"
  | .wholeSyntax => Text.lit "int_parsing"
  | .wholeSize => Text.lit "int_parsing_size"
  | .fraction => Text.lit "int_from_float"
  | .notFinite => Text.lit "finite_number"
  | .tooSmall => Text.lit "greater_than_equal"
  | .notTruth => Text.lit "bool_type"
  | .truthSyntax => Text.lit "bool_parsing"
  | .notListed => Text.lit "enum"
  | .unknownKey => Text.lit "extra_forbidden"
  | .unreadable => Text.lit "value_error"

structure Issue where
  place : List Step
  fault : Fault
deriving DecidableEq

/-- A value of the right shape, or all that is wrong. -/
abbrev Checked (α : Type) := Except (List Issue) α

namespace Checked

variable {α β : Type}

def fail (fault : Fault) : Checked α := .error [⟨[], fault⟩]

/-- The same faults, seen from one step outside. -/
def within (s : Step) : Checked α → Checked α
  | .ok a => .ok a
  | .error issues => .error (issues.map fun i => { i with place := s :: i.place })

/-- Applies a checked function; the faults of both sides are kept in order. -/
def apply (f : Checked (α → β)) (x : Checked α) : Checked β :=
  match f, x with
  | .ok f, .ok a => .ok (f a)
  | .ok _, .error issues => .error issues
  | .error issues, .ok _ => .error issues
  | .error issues, .error more => .error (issues ++ more)

end Checked

end ConfigCare.Schema
