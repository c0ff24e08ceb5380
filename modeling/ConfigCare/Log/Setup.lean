import ConfigCare.Log.Record
import ConfigCare.Settings.Basic
/-!
How the logger of the program is set up: from which level on it keeps records, how the terminal shows
them, and the file they are written to if one is set.
-/

namespace ConfigCare.Log

/-- How records are shown on the terminal. -/
inductive Display where
  | people
  | lines
deriving DecidableEq

/-- A setup by the level of the program's logger. -/
structure Setup where
  level : Int
  display : Display
  file : Option Text
deriving DecidableEq

/-- The names that a level can be set by, in upper case. -/
def levelOfName? (name : Text) : Option Int :=
  if name = Text.lit "FATAL" then some 50
  else if name = Text.lit "WARN" then some 30
  else (levelNames.find? fun l => l.2 = name).map (·.1)

/-- The upper case of a text as far as names of levels go: two small letters beyond ASCII have a
capital in it. -/
def upper (s : Text) : Text :=
  s.map fun c =>
    if 'a' ≤ c && c ≤ 'z' then Char.ofNat (c.toNat - 32)
    else if c.toNat = 0x131 then 'I'
    else if c.toNat = 0x17F then 'S'
    else c

def defaultLevel : Int := 30

/-- The setup for some settings. Talkative runs show everything. -/
def Setup.ofSettings (s : Settings.Logging) (verbose : Bool) : Setup where
  level := if verbose then 10 else (levelOfName? (upper s.level)).getD defaultLevel
  display := if s.format = Text.lit "json" then .lines else .people
  file := s.file.filter fun f => !f.isEmpty

/-- The name of the program's logger; those below it have it and a dot before their own name. -/
def rootLogger : Text := Text.lit "config_warden"

def isBelowRoot (logger : Text) : Bool :=
  logger = rootLogger || Text.startsWith (rootLogger ++ ['.']) logger

/-- The level from which on a logger keeps records. One that has none takes that of all others. -/
def effectiveLevel (level : Int) : Int := if level = 0 then defaultLevel else level

end ConfigCare.Log
