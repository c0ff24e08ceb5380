import ConfigCare.Text.Lines
/-!
Comments in JSON: `//` to the end of the line and `/*` to `*/`. A comment starts outside of string
literals only, and a literal runs to the next quote that no backslash escapes.
-/

namespace ConfigCare.Jsonc

def lineComment : Text := ['/', '/']

def blockComment : Text := ['/', '*']

/-- Whether a trimmed line is a comment or goes on with one. -/
def isCommentLine (l : Text) : Bool :=
  Text.startsWith lineComment l || Text.startsWith blockComment l || Text.startsWith ['*'] l

/-- Where a character of a line stands. -/
inductive Place where
  | code
  | string
  | escaped
deriving DecidableEq

/-- Where the character after one stands, as long as no comment starts. -/
def Place.next (c : Char) : Place → Place
  | .code => if c = '"' then .string else .code
  | .string => if c = '\\' then .escaped else if c = '"' then .code else .string
  | .escaped => .string

/-- The offset of the `//` that starts a comment; counting starts at `offset`. -/
def commentFrom (place : Place) (offset : Nat) : Text → Option Nat
  | [] => none
  | c :: cs =>
    if place = .code && Text.startsWith lineComment (c :: cs) then some offset
    else commentFrom (place.next c) (offset + 1) cs

/-- Splits a line into its code and the comment behind it, if there is one. -/
def splitComment (l : Text) : Text × Option Text :=
  match commentFrom .code 0 l with
  | none => (l, none)
  | some n => (l.take n, some (l.drop n))

/-- Code and the comment behind it, one space apart. Without a comment the code stays as it is. -/
def spaced (code : Text) : Option Text → Text
  | none => code
  | some comment =>
    match Text.trim code with
    | [] => comment
    | c :: cs => c :: cs ++ ' ' :: comment

/-- Whether `//` occurs behind a character other than a colon or a quote. -/
def hasInlineMark : Text → Bool
  | [] => false
  | c :: cs => (c ≠ ':' && c ≠ '"' && Text.startsWith lineComment cs) || hasInlineMark cs

/-- Whether a text looks as if it had comments. The guess is loose: a mark in a string literal
counts, unless it is the one of a web address. -/
def looksCommented (s : Text) : Bool :=
  (Text.splitOn '\n' s).any (fun l => Text.startsWith lineComment (Text.trimStart l)) ||
    Text.occursIn blockComment s || hasInlineMark s

end ConfigCare.Jsonc
