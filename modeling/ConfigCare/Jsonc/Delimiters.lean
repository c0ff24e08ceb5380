import ConfigCare.Jsonc.Reindent
/-!
The delimiters of a line: what it opens and closes outside of string literals and comments.
-/

namespace ConfigCare.Jsonc

structure LineScan where
  /-- Closers before anything but white space, commas and block comments. -/
  leadingClosers : Nat
  opened : Nat
  closed : Nat
  /-- The offset of a `//` comment. -/
  commentStart : Option Nat
  /-- Whether a block comment goes on with the next line. -/
  inBlockComment : Bool
deriving DecidableEq

/-- The delimiters counted so far, and whether any code has been seen. -/
structure Tally where
  leadingClosers : Nat
  opened : Nat
  closed : Nat
  seenCode : Bool
deriving DecidableEq

def Tally.none : Tally := ⟨0, 0, 0, false⟩

/-- Counts a character of code. -/
def Tally.add (t : Tally) (c : Char) : Tally :=
  if isOpener c then { t with opened := t.opened + 1, seenCode := true }
  else if isCloser c then
    { t with closed := t.closed + 1,
             leadingClosers := if t.seenCode then t.leadingClosers else t.leadingClosers + 1 }
  else if Text.isBlank c || c = ',' then t
  else { t with seenCode := true }

def Tally.finish (t : Tally) (commentStart : Option Nat) (inBlockComment : Bool) : LineScan :=
  ⟨t.leadingClosers, t.opened, t.closed, commentStart, inBlockComment⟩

/-- The region of a line that a scan is in. -/
inductive Region where
  | code
  | string
  | comment
deriving DecidableEq

/-- Scans a line from an offset on. -/
def scanFrom (offset : Nat) (t : Tally) : Region → Text → LineScan
  | region, [] => t.finish Option.none (region = .comment)
  | .comment, '*' :: '/' :: cs => scanFrom (offset + 2) t .code cs
  | .comment, _ :: cs => scanFrom (offset + 1) t .comment cs
  | .string, '\\' :: _ :: cs => scanFrom (offset + 2) t .string cs
  | .string, c :: cs => scanFrom (offset + 1) t (if c = '"' then .code else .string) cs
  | .code, '/' :: '/' :: _ => t.finish (some offset) false
  | .code, '/' :: '*' :: cs => scanFrom (offset + 2) t .comment cs
  | .code, c :: cs => scanFrom (offset + 1) (t.add c) (if c = '"' then .string else .code) cs

def scanLine (line : Text) (inBlockComment : Bool) : LineScan :=
  scanFrom 0 .none (if inBlockComment then .comment else .code) line

end ConfigCare.Jsonc
