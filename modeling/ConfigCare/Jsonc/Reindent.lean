import ConfigCare.Jsonc.Comment
/-!
Indenting JSON with comments line by line. A line moves the depth by one level at most: its first
character may close a block and its last one may open one.
-/

namespace ConfigCare.Jsonc

/-- Two spaces for every level. -/
def indent (depth : Nat) : Text := List.replicate (2 * depth) ' '

def isOpener (c : Char) : Bool := c = '\x7b' || c = '['

def isCloser (c : Char) : Bool := c = '\x7d' || c = ']'

/-- Whether an opening character is followed by a closing one before the next line feed; `seen`
tells that the opening one has been passed. -/
def holdsPair (opening closing : Char) (seen : Bool) : Text → Bool
  | [] => false
  | c :: cs =>
    if c = '\n' then holdsPair opening closing false cs
    else (seen && c = closing) || holdsPair opening closing (seen || c = opening) cs

/-- Whether a block that goes on with the next line begins at the end of this one. -/
def opensBlock (l : Text) : Bool :=
  Text.endsWithAny ['\x7b', '['] l && !holdsPair '[' ']' false l && !holdsPair '\x7b' '\x7d' false l

/-- Indents a line at a depth; the depth of the next line comes with it. -/
def reindentLine (depth : Nat) (line : Text) : Nat × Text :=
  match Text.trim line with
  | [] => (depth, [])
  | c :: cs =>
    let l := c :: cs
    if isCommentLine l then (depth, indent depth ++ l)
    else
      let depth := if isCloser c then depth - 1 else depth
      let (code, comment) := splitComment l
      (if opensBlock l then depth + 1 else depth, indent depth ++ spaced code comment)

def reindent (s : Text) : Text := Text.unlines (Text.threaded reindentLine 0 (Text.lines s))

end ConfigCare.Jsonc
