import ConfigCare.Glob.Segment
import ConfigCare.Regex.Search
import ConfigCare.Text.Position
import ConfigCare.Text.Quoted
/-!
Lists of globs for paths to leave out. A glob with a slash before its end is anchored at the root,
any other matches at every depth; what it matches is ignored with all below it. An exclamation mark
takes paths back in, and of the globs that match a path the last decides. They are read as the
gitwildmatch patterns of pathspec 0.12.1.
-/

namespace ConfigCare.Glob

inductive GlobError where
  /-- A glob that means nothing, by its text. -/
  | invalid (glob : Text)
  /-- A glob with a range that ends before it begins, told as it stands in the expression of the
  glob, with its place there. -/
  | badRange (range expression : Text) (offset : Nat)
  | badExpression
deriving DecidableEq

/-- A place in an expression, which is told by line and column if there are several lines. -/
def placeText (expression : Text) (offset : Nat) : Text :=
  let p := Text.position expression offset
  Text.lit s!" at position {offset}" ++
    if expression.contains '\n' then Text.lit s!" (line {p.line}, column {p.column})" else []

def GlobError.message : GlobError → Text
  | .invalid glob => Text.lit "Invalid git pattern: " ++ Text.quoted glob
  | .badRange range expression offset =>
    Text.lit "bad character range " ++ range ++ placeText expression offset
  | .badExpression => Text.lit "bad expression"

def doubleStar : Text := ['*', '*']

/-- Of double stars in a row only one stays. -/
def collapseStars : List Text → List Text
  | s :: t :: rest =>
    if s = doubleStar && t = doubleStar then collapseStars (t :: rest)
    else s :: collapseStars (t :: rest)
  | ss => ss

/-- The segments of a glob: anchored at the root by a double star, unless a slash does it. -/
def anchored : List Text → List Text
  | [] :: rest => rest
  | [s] => if s = doubleStar then [s] else [doubleStar, s]
  | [s, []] => if s = doubleStar then [s, []] else [doubleStar, s, []]
  | ss => ss

/-- A slash at the end stands for all that is below. -/
def closed (ss : List Text) : List Text :=
  match ss.reverse with
  | [] :: s :: rest => (doubleStar :: s :: rest).reverse
  | _ => ss

/-- The expression of the segments from one on. `first` tells that it is the first of the glob, and
`slash` that a slash has to come before it. -/
def expressionFrom (first slash : Bool) : List Text → Option Text
  | [] => some []
  | s :: rest =>
    let last := rest.isEmpty
    if s = doubleStar then
      if first && last then some (Text.lit "[^/]+(?:/.*)?")
      else if first then (expressionFrom false false rest).map (Text.lit "(?:.+/)?" ++ ·)
      else if last then some (Text.lit "/.*")
      else (expressionFrom false true rest).map (Text.lit "(?:/.+)?" ++ ·)
    else
      match if s = ['*'] then some (Text.lit "[^/]+") else segment? s with
      | none => none
      | some e =>
        let below := if last then Text.lit "(?:/.*)?" else []
        (expressionFrom false true rest).map fun r =>
          (if slash then ['/'] else []) ++ e ++ below ++ r

/-- A glob that can be matched: whether it takes paths back in, and what it matches. -/
structure Rule where
  negated : Bool
  pattern : Regex.Pattern

namespace Rule

/-- White space around a glob does not count, unless a backslash keeps the space at the end. -/
def trimmed (s : Text) : Text :=
  match s.reverse with
  | ' ' :: '\\' :: _ => Text.trimStart s
  | _ => Text.trim s

/-- The expression of a glob without its exclamation mark. -/
def expression? (s : Text) : Option Text :=
  let ss := collapseStars (Text.splitOn '/' s)
  if ss = [doubleStar, []] then some (Text.lit "^.+/.*$")
  else
    match closed (anchored ss) with
    | [] => none
    | ss => (expressionFrom true false ss).map fun e => '^' :: e ++ ['$']

/-- Compiles a glob. A comment, a slash alone and a blank one match nothing. -/
def compile? (s : Text) : Except GlobError (Option Rule) :=
  let t := trimmed s
  if t.isEmpty || t.head? = some '#' || t = ['/'] then .ok none
  else
    let negated := t.head? = some '!'
    match expression? (if negated then t.drop 1 else t) with
    | none => .error (.invalid s)
    | some e =>
      match Regex.Pattern.parse e with
      | .ok p => .ok (some ⟨negated, p⟩)
      | .error (.badRange range left) => .error (.badRange range e (e.length - left))
      | .error _ => .error .badExpression

end Rule

/-- Globs in order, of which later ones count more. -/
abbrev IgnoreList := List Rule

namespace IgnoreList

/-- Compiles globs; empty ones are passed over. -/
def compile : List Text → Except GlobError IgnoreList
  | [] => .ok []
  | s :: ss =>
    if s.isEmpty then compile ss
    else
      match Rule.compile? s with
      | .error e => .error e
      | .ok g =>
        match compile ss with
        | .error e => .error e
        | .ok gs => .ok (g.toList ++ gs)

/-- A path as globs see it, without what stands for the root. -/
def relative (path : Text) : Text :=
  match path with
  | '/' :: cs => cs
  | '.' :: '/' :: cs => cs
  | cs => cs

/-- What the last glob that matches says; `decided` is what those before have said. -/
def decide (path : Text) (decided : Bool) : IgnoreList → Bool
  | [] => decided
  | g :: gs => decide path (if g.pattern.matchesStart path then !g.negated else decided) gs

/-- Whether a path is to be left out. -/
def ignores (gs : IgnoreList) (path : Text) : Bool := decide (relative path) false gs

end IgnoreList

end ConfigCare.Glob
