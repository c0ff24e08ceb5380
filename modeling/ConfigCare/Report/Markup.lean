import ConfigCare.Text.Case
import ConfigCare.Text.Blank
/-!
Text for the terminal in which tags between brackets set a style. A text from outside is put in with
its own tags escaped. Styles are not shown; only what is left of the text counts.
-/

namespace ConfigCare.Report.Markup

def isTagStart (c : Char) : Bool := ('a' ≤ c && c ≤ 'z') || c = '#' || c = '/' || c = '@'

/-- The inside of a tag, from the text behind its opening bracket. -/
def tagInside? (s : Text) : Option Text :=
  let inside := s.takeWhile fun c => c ≠ ']' && c ≠ '['
  match inside with
  | [] => none
  | c :: _ => if isTagStart c && (s.drop inside.length).head? = some ']' then some inside else none

def backslashes (n : Nat) : Text := List.replicate n '\\'

/-- Doubles the backslashes before every tag and puts one more there. `skip` counts the characters
of a tag still to be passed over, and `slashes` the backslashes just before. -/
def escapeTags (skip slashes : Nat) : Text → Text
  | [] => backslashes slashes
  | c :: cs =>
    match skip with
    | k + 1 => c :: escapeTags k 0 cs
    | 0 =>
      if c = '\\' then escapeTags 0 (slashes + 1) cs
      else if c = '[' then
        match tagInside? cs with
        | some inside => backslashes (2 * slashes + 1) ++ '[' :: escapeTags (inside.length + 1) 0 cs
        | none => backslashes slashes ++ '[' :: escapeTags 0 0 cs
      else backslashes slashes ++ c :: escapeTags 0 0 cs

/-- The number of backslashes that a text ends in. -/
def lastBackslashes (s : Text) : Nat := (s.reverse.takeWhile (· = '\\')).length

/-- A text as markup that shows it. A single backslash at its end is doubled, so that it cannot
escape a tag that follows. -/
def escape (s : Text) : Text :=
  let t := escapeTags 0 0 s
  if lastBackslashes t = 1 then t ++ ['\\'] else t

inductive Piece where
  | plain (s : Text)
  /-- A tag by its inside and its offset. -/
  | tag (inside : Text) (offset : Nat)
deriving DecidableEq

/-- A bracket that begins no tag loses the backslash before it. -/
def unescaped (s : Text) : Text := Text.replace ['\\', '['] ['['] s

def plainPiece (reversed : Text) : List Piece :=
  if reversed.isEmpty then [] else [.plain (unescaped reversed.reverse)]

/-- Cuts markup into plain text and tags. A tag counts only behind an even number of backslashes,
half of which stay. `done` is the plain text before, last character first. -/
def piecesFrom (skip slashes offset : Nat) (done : Text) : Text → List Piece
  | [] => plainPiece (backslashes slashes ++ done)
  | c :: cs =>
    match skip with
    | k + 1 => piecesFrom k 0 (offset + 1) done cs
    | 0 =>
      if c = '\\' then piecesFrom 0 (slashes + 1) (offset + 1) done cs
      else if c = '[' then
        match tagInside? cs with
        | some inside =>
          let half := if slashes / 2 = 0 then [] else [.plain (backslashes (slashes / 2))]
          let piece : Piece :=
            if slashes % 2 = 1 then .plain ('[' :: inside ++ [']']) else .tag inside offset
          plainPiece done ++ half ++ piece :: piecesFrom (inside.length + 1) 0 (offset + 1) [] cs
        | none => piecesFrom 0 0 (offset + 1) ('[' :: backslashes slashes ++ done) cs
      else piecesFrom 0 0 (offset + 1) (c :: backslashes slashes ++ done) cs

def pieces (markup : Text) : List Piece := piecesFrom 0 0 0 [] markup

/-- What markup shows. -/
def shown (markup : Text) : Text :=
  (pieces markup).flatMap fun p => match p with
    | .plain s => s
    | .tag .. => []

/-- A closing tag that closes nothing. -/
structure Unmatched where
  inside : Text
  offset : Nat
deriving DecidableEq

/-- The name of a style in a tag, in the form in which names are compared. -/
def styleName (inside : Text) : Text := Text.lower (Text.trim (inside.takeWhile (· ≠ '=')))

def Unmatched.message (u : Unmatched) : Text :=
  Text.lit "closing tag '[" ++ u.inside ++ Text.lit s!"]' at position {u.offset} " ++
    (if styleName (u.inside.drop 1) = [] then Text.lit "has nothing to close"
      else Text.lit "doesn't match any open tag")

/-- The first closing tag that closes nothing; `styles` are open, the last one first. -/
def unmatchedFrom (styles : List Text) : List Piece → Option Unmatched
  | [] => none
  | .plain _ :: ps => unmatchedFrom styles ps
  | .tag inside offset :: ps =>
    if inside.head? = some '/' then
      let name := styleName (inside.drop 1)
      if name = [] then
        match styles with
        | [] => some ⟨inside, offset⟩
        | _ :: styles => unmatchedFrom styles ps
      else if styles.contains name then unmatchedFrom (styles.erase name) ps
      else some ⟨inside, offset⟩
    else unmatchedFrom (styleName inside :: styles) ps

def unmatched? (markup : Text) : Option Unmatched := unmatchedFrom [] (pieces markup)

end ConfigCare.Report.Markup
