import ConfigCare.Text.Blank
/-!
Places in a text. Lines and columns count from one, and only a line feed ends a line. An offset
beyond the end lies on the last line.
-/

namespace ConfigCare

structure Position where
  line : Nat
  column : Nat
deriving DecidableEq

namespace Text

/-- The offset at which the line begins that holds the end of `before`, when counting starts
at `offset` with a line that began at `start`. -/
def lastStart (start offset : Nat) : Text → Nat
  | [] => start
  | c :: cs => lastStart (if c = '\n' then offset + 1 else start) (offset + 1) cs

/-- The offset of the first character on the line of an offset. -/
def lineStart (s : Text) (offset : Nat) : Nat := lastStart 0 0 (s.take offset)

def position (s : Text) (offset : Nat) : Position where
  line := (s.take offset).count '\n' + 1
  column := offset + 1 - lineStart s offset

/-- The line that holds an offset, trimmed. -/
def lineAt (s : Text) (offset : Nat) : Text :=
  let start := lineStart s offset
  let rest := (s.drop offset).takeWhile (· ≠ '\n')
  trim (((s.take offset).drop start) ++ rest)

end Text

end ConfigCare
