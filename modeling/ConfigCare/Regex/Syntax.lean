import ConfigCare.Text.Case
import ConfigCare.Text.Letter
import ConfigCare.Text.Blank
/-!
Regular expressions as trees. Every leaf carries the options that are in force where it stands.
-/

namespace ConfigCare.Regex

/-- The options that leaves depend on. -/
structure Mode where
  ignoreCase : Bool
  ascii : Bool
  multiline : Bool
  dotAll : Bool
deriving DecidableEq

inductive CharClass where
  | digit
  | space
  | word
deriving DecidableEq

/-- Whether a character is of a class, in ASCII alone or in all of Unicode. -/
def CharClass.has (ascii : Bool) (c : Char) : CharClass → Bool
  | .digit => if ascii then Text.isAsciiDigit c else Text.isDecimal c
  | .space =>
    if ascii then (9 ≤ c.toNat && c.toNat ≤ 13) || c.toNat = 32 else Text.isBlank c
  | .word =>
    if ascii then Text.isAsciiDigit c || Text.isAsciiLetter c || c = '_'
    else Text.isAlphanumeric c || c = '_'

/-- A member of a character set. Codes are numbers because a surrogate is no character. -/
inductive Member where
  | code (n : Nat)
  | range (low high : Nat)
  | kind (k : CharClass) (negated : Bool)
deriving DecidableEq

inductive Anchor where
  | lineStart
  | lineEnd
  | textStart
  | textEnd
  | boundary
  | noBoundary
deriving DecidableEq

inductive Greed where
  | greedy
  | reluctant
  | possessive
deriving DecidableEq

/-- The fewest and the most characters that an expression takes. -/
structure Width where
  least : Nat
  most : Nat
deriving DecidableEq

inductive Node where
  | empty
  | literal (mode : Mode) (negated : Bool) (code : Nat)
  | set (mode : Mode) (negated : Bool) (members : List Member)
  | any (dotAll : Bool)
  | anchor (mode : Mode) (a : Anchor)
  | concat (first second : Node)
  | branch (first second : Node)
  /-- A group; one without a number captures nothing. -/
  | group (number : Option Nat) (body : Node)
  | backreference (mode : Mode) (number : Nat)
  /-- A repetition, without an upper bound if `most` is `none`. -/
  | repetition (greed : Greed) (least : Nat) (most : Option Nat) (body : Node)
  /-- What has to follow, or to come before if the width of the body is given. -/
  | look (behind : Option Width) (negated : Bool) (body : Node)
  | atomic (body : Node)
  /-- One of two bodies, by whether a group has matched. -/
  | conditional (number : Nat) (yes no : Node)

namespace Node

def ofList : List Node → Node
  | [] => .empty
  | [n] => n
  | n :: m :: ns => .concat n (ofList (m :: ns))

def anyOf : List Node → Node
  | [] => .empty
  | [n] => n
  | n :: m :: ns => .branch n (anyOf (m :: ns))

end Node

/-- A character's code where upper and lower case are one. -/
def Mode.folded (m : Mode) (c : Char) : Char :=
  if !m.ignoreCase then c else if m.ascii then Text.asciiLowerChar c else Text.lowerChar c

/-- The code of a literal where upper and lower case are one. -/
def Mode.foldedCode (m : Mode) (code : Nat) : Nat :=
  if 0xD800 ≤ code && code < 0xE000 then code else (m.folded (Char.ofNat code)).toNat

/-- Whether a literal stands for a character that is folded already. -/
def Mode.same (m : Mode) (code : Nat) (c : Char) : Bool :=
  if m.ignoreCase && !m.ascii then Text.sameLetter (m.foldedCode code) c.toNat
  else m.foldedCode code == c.toNat

/-- The codes that fold to a character. -/
def Mode.variants (m : Mode) (c : Char) : List Nat :=
  if !m.ignoreCase then [c.toNat]
  else if m.ascii then
    if 'a' ≤ c && c ≤ 'z' then [c.toNat, c.toNat - 32] else [c.toNat]
  else Text.variants c.toNat

/-- Whether a member of a set stands for a character that is folded already. A code beyond the
basic plane is compared as it is. -/
def Member.has (m : Mode) (c : Char) : Member → Bool
  | .code n => if 0x10000 ≤ n then n == c.toNat else m.same n c
  | .range low high => (m.variants c).any fun n => low ≤ n && n ≤ high
  | .kind k negated => k.has m.ascii c != negated

namespace Node

/-- The test that a leaf for a single character makes. -/
def test? : Node → Option (Char → Bool)
  | .literal m negated code => some fun c => m.same code (m.folded c) != negated
  | .set m negated members =>
    some fun c =>
      let c := m.folded c
      members.any (Member.has m c) != negated
  | .any dotAll => some fun c => dotAll || c != '\n'
  | _ => none

/-- No width counts beyond this one. -/
def widthLimit : Nat := Nat.pow 2 64

/-- How many characters an expression takes, given the widths of the groups it refers to. -/
def width (groups : List (Option Width)) : Node → Width
  | .empty => ⟨0, 0⟩
  | .literal .. => ⟨1, 1⟩
  | .set .. => ⟨1, 1⟩
  | .any _ => ⟨1, 1⟩
  | .anchor .. => ⟨0, 0⟩
  | .concat a b =>
    let v := a.width groups
    let w := b.width groups
    ⟨min (v.least + w.least) widthLimit, min (v.most + w.most) widthLimit⟩
  | .branch a b =>
    let v := a.width groups
    let w := b.width groups
    ⟨min v.least w.least, max v.most w.most⟩
  | .group _ a => a.width groups
  | .backreference _ n => (groups[n]?.bind id).getD ⟨0, 0⟩
  | .repetition _ least most a =>
    let v := a.width groups
    ⟨min (v.least * least) widthLimit,
      match most with
      | some n => min (v.most * n) widthLimit
      | none => if v.most = 0 then 0 else widthLimit⟩
  | .look .. => ⟨0, 0⟩
  | .atomic a => a.width groups
  | .conditional _ a b =>
    let v := a.width groups
    let w := b.width groups
    ⟨min v.least w.least, max v.most w.most⟩

/-- The widest expression that can be looked for behind. -/
def behindLimit : Nat := Nat.pow 2 32 - 1

/-- Whether all that is looked for behind has one width. -/
def looksBehindFixed : Node → Bool
  | .concat a b => a.looksBehindFixed && b.looksBehindFixed
  | .branch a b => a.looksBehindFixed && b.looksBehindFixed
  | .group _ a => a.looksBehindFixed
  | .repetition _ _ _ a => a.looksBehindFixed
  | .look (some w) _ a => w.least = w.most && w.least ≤ behindLimit && a.looksBehindFixed
  | .look none _ a => a.looksBehindFixed
  | .atomic a => a.looksBehindFixed
  | .conditional _ a b => a.looksBehindFixed && b.looksBehindFixed
  | _ => true

def hasRepetition : Node → Bool
  | .concat a b => a.hasRepetition || b.hasRepetition
  | .branch a b => a.hasRepetition || b.hasRepetition
  | .group _ a => a.hasRepetition
  | .repetition .. => true
  | .look _ _ a => a.hasRepetition
  | .atomic a => a.hasRepetition
  | .conditional _ a b => a.hasRepetition || b.hasRepetition
  | _ => false

end Node

end ConfigCare.Regex
