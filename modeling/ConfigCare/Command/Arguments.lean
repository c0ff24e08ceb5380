import ConfigCare.Text.Basic
/-!
Arguments of a command: switches by a long name or a letter, some with a value, and the other
arguments between them. Two dashes by themselves end the switches.
-/

namespace ConfigCare.Command

structure Switch where
  name : Text
  letter : Option Char
  takesValue : Bool

/-- The switches that are set, with their values, and all other arguments, each in order. -/
structure Arguments where
  switches : List (Text × Text)
  others : List Text
deriving DecidableEq

namespace Arguments

def empty : Arguments := ⟨[], []⟩

def set (a : Arguments) (s : Switch) (value : Text) : Arguments :=
  { a with switches := a.switches ++ [(s.name, value)] }

def has (a : Arguments) (name : String) : Bool := a.switches.any fun s => s.1 = name.toList

/-- The value of a switch; the last one counts. -/
def value? (a : Arguments) (name : String) : Option Text :=
  (a.switches.reverse.find? fun s => s.1 = name.toList).map (·.2)

end Arguments

/-- Switches given by their letters behind one dash. A value takes the rest of the argument; without
a rest the switch that wants one is told. -/
def letters (known : List Switch) (a : Arguments) : Text → Option (Arguments × Option Switch)
  | [] => some (a, none)
  | c :: cs =>
    match known.find? fun s => s.letter = some c with
    | none => none
    | some s =>
      if s.takesValue then
        if cs.isEmpty then some (a, some s) else some (a.set s cs, none)
      else letters known (a.set s []) cs

/-- A switch given by its name behind two dashes. -/
def named (known : List Switch) (a : Arguments) (s : Text) : Option (Arguments × Option Switch) :=
  let name := s.takeWhile (· ≠ '=')
  let value := if name.length < s.length then some (s.drop (name.length + 1)) else none
  match known.find? fun s => s.name = name with
  | none => none
  | some s =>
    match s.takesValue, value with
    | true, some v => some (a.set s v, none)
    | true, none => some (a, some s)
    | false, some _ => none
    | false, none => some (a.set s [], none)

/-- Reads one argument; a switch that wants a value is told. -/
def argument (known : List Switch) (a : Arguments) : Text → Option (Arguments × Option Switch)
  | '-' :: '-' :: cs => named known a cs
  | '-' :: c :: cs => letters known a (c :: cs)
  | s => some ({ a with others := a.others ++ [s] }, none)

/-- Reads arguments in order, if all of them can be. -/
def parseFrom (known : List Switch) (a : Arguments) : List Text → Option Arguments
  | [] => some a
  | s :: rest =>
    if s = ['-', '-'] then some { a with others := a.others ++ rest }
    else
      match argument known a s with
      | none => none
      | some (a, none) => parseFrom known a rest
      | some (a, some w) =>
        match rest with
        | [] => none
        | v :: rest => parseFrom known (a.set w v) rest

def parse (known : List Switch) (args : List Text) : Option Arguments :=
  parseFrom known .empty args

end ConfigCare.Command
