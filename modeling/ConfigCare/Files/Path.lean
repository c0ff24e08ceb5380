import ConfigCare.Text.Case
/-!
Paths: the names that lead to a file or folder, from the root of all files or from wherever one
stands. Empty names and single dots mean nothing and are dropped; double dots stay until the path
is resolved.
-/

namespace ConfigCare.Files

structure Path where
  absolute : Bool
  names : List Text
deriving DecidableEq

namespace Path

def ofText (s : Text) : Path :=
  ⟨s.head? = some '/', (Text.splitOn '/' s).filter fun n => !n.isEmpty && n ≠ ['.']⟩

/-- The path of the names below the root of all files. -/
def ofPlace (names : List Text) : Path := ⟨true, names⟩

def text (p : Path) : Text :=
  let below := Text.joinWith ['/'] p.names
  if p.absolute then '/' :: below
  else if p.names.isEmpty then ['.'] else below

/-- The path as seen from another one. -/
def below (base p : Path) : Path :=
  if p.absolute then p else ⟨base.absolute, base.names ++ p.names⟩

def parentName : Text := ['.', '.']

/-- Drops every name that a double dot follows. `done` are the names that stay, last first. -/
def resolveFrom (done : List Text) : List Text → List Text
  | [] => done.reverse
  | n :: ns => if n = parentName then resolveFrom (done.drop 1) ns else resolveFrom (n :: done) ns

/-- The place that a path leads to, from the folder where one stands. -/
def resolve (here : List Text) (p : Path) : List Text :=
  resolveFrom [] ((Path.ofPlace here).below p).names

/-- Whether the system takes the path for none at all, since a NUL ends a path there. -/
def hasNull (p : Path) : Bool := p.names.any (·.contains '\x00')

/-- The name of what the path leads to. -/
def name (p : Path) : Text := p.names.getLast?.getD []

end Path

/-- What a name ends in from its last dot on. A dot at the start or the end begins no extension. -/
def nameSuffix (name : Text) : Text :=
  let tail := (name.reverse.takeWhile (· ≠ '.')).reverse
  let stem := name.length - tail.length - 1
  if tail.length < name.length && !tail.isEmpty && 0 < stem then '.' :: tail else []

/-- The extension of a name, in lower case. -/
def extension (name : Text) : Text := Text.lower (nameSuffix name)

end ConfigCare.Files
