import ConfigCare.Text.Basic
/-!
The part of a glob between two slashes, as a regular expression. A star stands for any characters
but the slash, a question mark for one, brackets for one of a set, and a backslash takes the next
character as it is.
-/

namespace ConfigCare.Glob

/-- The characters that mean something in a regular expression. -/
def special : Text :=
  Text.lit "()[]\x7b\x7d?*+-|^$\\.&~# " ++ [9, 10, 13, 11, 12].map Char.ofNat

/-- A character by itself. -/
def plain (c : Char) : Text := if special.contains c then ['\\', c] else [c]

/-- The inside of brackets and the text behind them. A closing bracket that comes first is a member
of the set. -/
def bracketEnd? : Text → Option (Text × Text)
  | ']' :: cs => (upToBracket cs).map fun r => (']' :: r.1, r.2)
  | cs => upToBracket cs
where
  upToBracket (s : Text) : Option (Text × Text) :=
    match s.dropWhile (· ≠ ']') with
    | [] => none
    | _ :: rest => some (s.takeWhile (· ≠ ']'), rest)

/-- A set in brackets, whose backslashes stand for themselves. -/
def bracketSet (negated : Bool) (inside : Text) : Text :=
  '[' :: (if negated then ['^'] else []) ++
    inside.flatMap (fun c => if c = '\\' then ['\\', '\\'] else [c]) ++ [']']

/-- The set that follows an opening bracket, and the number of characters it takes; none if the
bracket is never closed. -/
def bracket? (s : Text) : Option (Text × Nat) :=
  let negated := s.head? = some '!' || s.head? = some '^'
  match bracketEnd? (if negated then s.drop 1 else s) with
  | none => none
  | some (inside, rest) => some (bracketSet negated inside, s.length - rest.length)

/-- The expression of a segment; `skip` counts the characters that a set has taken already. There is
none if a backslash is last. -/
def segmentFrom : Nat → Text → Option Text
  | _, [] => some []
  | skip + 1, _ :: cs => segmentFrom skip cs
  | 0, '\\' :: [] => none
  | 0, '\\' :: c :: cs => (segmentFrom 0 cs).map (plain c ++ ·)
  | 0, c :: cs =>
    if c = '*' then (segmentFrom 0 cs).map (Text.lit "[^/]*" ++ ·)
    else if c = '?' then (segmentFrom 0 cs).map (Text.lit "[^/]" ++ ·)
    else if c = '[' then
      match bracket? cs with
      | some (set, n) => (segmentFrom n cs).map (set ++ ·)
      | none => (segmentFrom 0 cs).map (plain '[' ++ ·)
    else (segmentFrom 0 cs).map (plain c ++ ·)

def segment? (s : Text) : Option Text := segmentFrom 0 s

end ConfigCare.Glob
