import ConfigCare.Command.Arguments
/-!
The commands of the program and the arguments that each one takes.
-/

namespace ConfigCare

inductive Command where
  /-- Only tells how the program is used. -/
  | help
  | version
  | scan (root : Text) (settings config report : Option Text) (json verbose : Bool)
  | format (root : Text) (settings : Option Text) (check strict verbose : Bool)
  | run (root : Text) (settings : Option Text) (secrets format check verbose : Bool)
  | patterns (root : Text) (settings config : Option Text)
deriving DecidableEq

namespace Command

def flag (name : String) (letter : Option Char) : Switch := ⟨name.toList, letter, false⟩

def valued (name : String) (letter : Option Char) : Switch := ⟨name.toList, letter, true⟩

/-- The switches that most commands share. -/
def sharedSwitches : List Switch := [flag "help" none, valued "settings" none]

def verboseSwitch : Switch := flag "verbose" (some 'v')

def configSwitch : Switch := valued "config" (some 'c')

/-- Reads the arguments of a command that works on a root, of which at most one is given. -/
def rooted (known : List Switch) (args : List Text) (make : Arguments → Text → Command) :
    Option Command :=
  match parse known args with
  | none => none
  | some a =>
    if a.has "help" then some .help
    else
      match a.others with
      | [] => some (make a ['.'])
      | [root] => some (make a root)
      | _ => none

def version? (args : List Text) : Option Command :=
  match parse [flag "help" none] args with
  | none => none
  | some a => if a.has "help" then some .help else if a.others.isEmpty then some .version else none

/-- The command that a name and the arguments behind it stand for. -/
def ofName? (name : Text) (args : List Text) : Option Command :=
  match String.ofList name with
  | "version" => version? args
  | "scan" =>
    rooted (sharedSwitches ++ [verboseSwitch, configSwitch, flag "json" (some 'j'), valued "report" none])
      args fun a root =>
        .scan root (a.value? "settings") (a.value? "config") (a.value? "report") (a.has "json")
          (a.has "verbose")
  | "format" =>
    rooted (sharedSwitches ++ [verboseSwitch, flag "check" none, flag "strict-jsonc" none])
      args fun a root =>
        .format root (a.value? "settings") (a.has "check") (a.has "strict-jsonc") (a.has "verbose")
  | "run" =>
    rooted (sharedSwitches ++
        [verboseSwitch, flag "secrets" (some 's'), flag "format" (some 'f'), flag "check" none])
      args fun a root =>
        .run root (a.value? "settings") (a.has "secrets") (a.has "format") (a.has "check")
          (a.has "verbose")
  | "patterns" =>
    rooted (sharedSwitches ++ [configSwitch]) args fun a root =>
      .patterns root (a.value? "settings") (a.value? "config")
  | _ => none

/-- The command that arguments stand for, if they can be read. Before the name only the switch for
help is known; with it the name does not count. -/
def ofArgumentsFrom? (helped : Bool) : List Text → Option Command
  | [] => if helped then some .help else none
  | a :: rest =>
    if a = Text.lit "--help" then ofArgumentsFrom? true rest
    else if a = ['-', '-'] then
      match helped, rest with
      | true, _ => some .help
      | false, [] => none
      | false, name :: rest => ofName? name rest
    else if a.head? = some '-' && 1 < a.length then none
    else if helped then some .help
    else ofName? a rest

def ofArguments? : List Text → Option Command := ofArgumentsFrom? false

end Command

end ConfigCare
