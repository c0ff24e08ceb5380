import ConfigCare.Regex.Matcher
import ConfigCare.Regex.Parser
/-!
Finding all matches of a pattern in a text, from left to right and without overlap. After an empty
match the search goes on at the same place, where only a match that is not empty counts.
-/

namespace ConfigCare.Regex

/-- A match: its offset and its text. -/
structure Span where
  offset : Nat
  text : Text
deriving DecidableEq

def Span.finish (s : Span) : Nat := s.offset + s.text.length

namespace Pattern

/-- The end of the match that begins at a place; `advance` asks for one that is not empty. -/
def matchAt? (p : Pattern) (length : Nat) (advance : Bool) (c : Cursor) : Option Cursor :=
  (p.root.run length (fun d caps =>
    if advance && d.offset = c.offset then none else some (d, caps)) c []).map (·.1)

/-- The matches from a place on. Every step passes a character, or follows an empty match. -/
def spansFrom (p : Pattern) (length : Nat) : Nat → Bool → Cursor → List Span
  | 0, _, _ => []
  | fuel + 1, advance, c =>
    match p.matchAt? length advance c with
    | some d => ⟨c.offset, c.textTo d⟩ :: spansFrom p length fuel (d.offset = c.offset) d
    | none =>
      match c.forward? with
      | none => []
      | some d => spansFrom p length fuel false d

/-- All matches in a text. -/
def spans (p : Pattern) (s : Text) : List Span :=
  p.spansFrom s.length (2 * s.length + 2) false (.start s)

/-- Whether a match begins at the start of a text. -/
def matchesStart (p : Pattern) (s : Text) : Bool :=
  (p.matchAt? s.length false (.start s)).isSome

end Pattern

end ConfigCare.Regex
