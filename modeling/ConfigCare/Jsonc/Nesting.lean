import ConfigCare.Jsonc.Delimiters
/-!
Indenting JSON with comments by its real nesting: every delimiter outside of string literals and
comments counts.
-/

namespace ConfigCare.Jsonc

/-- What the lines above leave to the next one. -/
structure Nesting where
  depth : Nat
  inBlockComment : Bool
deriving DecidableEq

def Nesting.outermost : Nesting := ⟨0, false⟩

/-- A line with one space before its comment. -/
def spacedAt (l : Text) : Option Nat → Text
  | some (n + 1) => spaced (l.take (n + 1)) (some (l.drop (n + 1)))
  | _ => l

/-- Indents a line; leading closers take it out by a level each. -/
def nestLine (s : Nesting) (line : Text) : Nesting × Text :=
  match Text.trim line with
  | [] => (s, [])
  | l =>
    let scan := scanLine l s.inBlockComment
    (⟨s.depth + scan.opened - scan.closed, scan.inBlockComment⟩,
      indent (s.depth - scan.leadingClosers) ++ spacedAt l scan.commentStart)

def reindentNested (s : Text) : Text :=
  Text.unlines (Text.threaded nestLine .outermost (Text.lines s))

end ConfigCare.Jsonc
