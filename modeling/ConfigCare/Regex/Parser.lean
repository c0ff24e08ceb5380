import ConfigCare.Json.Error
import ConfigCare.Number.Numeral
import ConfigCare.Regex.CharacterName
import ConfigCare.Regex.Syntax
/-!
Reading regular expressions. A text is read by tokens, a character or a backslash with the
character behind it, and a backslash that ends the text is a fault as soon as it comes up.
-/

namespace ConfigCare.Regex

/-- What goes wrong with an expression that is not just malformed. -/
inductive Refusal where
  | repetition
  | flags
  | digits (count : Nat)
  | code
  | depth
deriving DecidableEq

def Refusal.message : Refusal → Text
  | .repetition => Text.lit "the repetition number is too large"
  | .flags => Text.lit "ASCII and UNICODE flags are incompatible"
  | .digits count => Json.tooManyDigits count
  | .code => Text.lit "Python int too large to convert to C int"
  | .depth => Text.lit "maximum recursion depth exceeded"

inductive ParseError where
  /-- The text is no regular expression. -/
  | malformed
  /-- A range in a set that ends before it begins, or with a class for one of its ends. It is told
  as it is written, with the number of characters from there to the end of the text. -/
  | badRange (range : Text) (left : Nat)
  | refused (cause : Refusal)
deriving DecidableEq

/-- The letters of `(?aimstux)`. -/
structure Flags where
  ignoreCase : Bool
  multiline : Bool
  dotAll : Bool
  verbose : Bool
  ascii : Bool
  unicode : Bool
  template : Bool
deriving DecidableEq

namespace Flags

def none : Flags := ⟨false, false, false, false, false, false, false⟩

def ofLetter? : Char → Option Flags
  | 'i' => some { none with ignoreCase := true }
  | 'm' => some { none with multiline := true }
  | 's' => some { none with dotAll := true }
  | 'x' => some { none with verbose := true }
  | 'a' => some { none with ascii := true }
  | 'u' => some { none with unicode := true }
  | 't' => some { none with template := true }
  | _ => Option.none

def zip (f : Bool → Bool → Bool) (a b : Flags) : Flags :=
  ⟨f a.ignoreCase b.ignoreCase, f a.multiline b.multiline, f a.dotAll b.dotAll,
    f a.verbose b.verbose, f a.ascii b.ascii, f a.unicode b.unicode, f a.template b.template⟩

def union (a b : Flags) : Flags := zip (· || ·) a b

def without (a b : Flags) : Flags := zip (fun x y => x && !y) a b

/-- Whether no flag is in both. -/
def disjoint (a b : Flags) : Bool := zip (· && ·) a b = none

/-- Whether a flag chooses between ASCII and Unicode. -/
def choosesType (f : Flags) : Bool := f.ascii || f.unicode

/-- The flags inside a group that turns some on and some off. Of ASCII and Unicode the group's
choice wins. -/
def within (f add del : Flags) : Flags :=
  let f := if add.choosesType then { f with ascii := false, unicode := false } else f
  (f.union add).without del

def mode (f : Flags) : Mode := ⟨f.ignoreCase, f.ascii, f.multiline, f.dotAll⟩

end Flags

inductive Token where
  | char (c : Char)
  | escape (c : Char)
deriving DecidableEq

/-- What is left to read and what has been learned of the groups so far. -/
structure Reading where
  rest : Text
  /-- The flags that hold for the whole expression. -/
  flags : Flags
  /-- The widths of the groups by number, of the closed ones only; number zero is the whole. -/
  widths : List (Option Width)
  names : List (Text × Nat)
  /-- Inside of what is looked for behind: the number of groups there were before it. -/
  groupsBefore : Option Nat
  /-- The groups that conditions have asked for by number. -/
  asked : List Nat

abbrev Parser := StateT Reading (Except ParseError)

def malformed {α : Type} : Parser α := throw .malformed

def refuse {α : Type} (cause : Refusal) : Parser α := throw (.refused cause)

namespace Reading

/-- The token at the start of a text. -/
def token? : Text → Option Token
  | [] => none
  | '\\' :: c :: _ => some (.escape c)
  | c :: _ => some (.char c)

def afterToken : Text → Text
  | '\\' :: _ :: cs => cs
  | _ :: cs => cs
  | [] => []

end Reading

/-- Goes on with a text, which must not be a backslash alone. -/
def goOn (rest : Text) : Parser Unit := do
  if rest = ['\\'] then malformed
  modify fun s => { s with rest := rest }

def peek : Parser (Option Token) := return Reading.token? (← get).rest

def next : Parser (Option Token) := do
  let s ← get
  goOn (Reading.afterToken s.rest)
  return Reading.token? s.rest

/-- Passes over a character if it comes next. -/
def accept (c : Char) : Parser Bool := do
  if (← peek) = some (.char c) then
    let _ ← next
    return true
  else return false

def expect (c : Char) : Parser Unit := do
  if !(← accept c) then malformed

/-- Reads as many characters that pass a test as there are, up to a limit. -/
def takeUpTo (test : Char → Bool) (limit : Nat) : Parser Text := do
  let s ← get
  let taken := (s.rest.take limit).takeWhile test
  goOn (s.rest.drop taken.length)
  return taken

/-- Reads digits, as many as there are. -/
def takeDigits : Parser Text := do
  let s ← get
  let taken := s.rest.takeWhile Text.isAsciiDigit
  goOn (s.rest.drop taken.length)
  return taken

/-- A text up to a token and the text behind that; `done` is what comes before, in reverse. -/
def splitAtToken (stop : Char) (done : Text) : Text → Option (Text × Text)
  | [] => none
  | '\\' :: c :: cs => splitAtToken stop (c :: '\\' :: done) cs
  | c :: cs => if c = stop then some (done.reverse, cs) else splitAtToken stop (c :: done) cs

/-- Reads a name that is not empty and the character that ends it. -/
def takeName (stop : Char) : Parser Text := do
  match splitAtToken stop [] (← get).rest with
  | some (c :: cs, rest) =>
    goOn rest
    return c :: cs
  | _ => malformed

/-- Whether a group has been closed. -/
def isClosed (s : Reading) (n : Nat) : Bool := (s.widths[n]?.bind id).isSome

/-- Inside of what is looked for behind, only closed groups from before it can be referred to. -/
def checkBehind (n : Nat) : Parser Unit := do
  let s ← get
  match s.groupsBefore with
  | none => return
  | some groups => if !isClosed s n || groups ≤ n then malformed

/-- Reads a row of hexadecimal digits of a fixed length. -/
def hexCode (length : Nat) : Parser Nat := do
  let digits ← takeUpTo Text.isHexDigit length
  if digits.length ≠ length then malformed
  return Text.numberOf 16 digits

/-- Reads the code of a character that is given by name. -/
def namedCode : Parser Nat := do
  expect '\x7b'
  let name := String.ofList ((← takeName '\x7d').map fun c =>
    if 'a' ≤ c && c ≤ 'z' then Char.ofNat (c.toNat - 32) else c)
  match characterNames.find? fun e => e.1 == name with
  | some e => return e.2
  | none => malformed

def isOctalDigit (c : Char) : Bool := '0' ≤ c && c ≤ '7'

/-- The escapes that stand for a control character or a backslash. -/
def controlCode? : Char → Option Nat
  | 'a' => some 7
  | 'b' => some 8
  | 'f' => some 12
  | 'n' => some 10
  | 'r' => some 13
  | 't' => some 9
  | 'v' => some 11
  | '\\' => some 92
  | _ => none

/-- The escapes that stand for a class of characters. -/
def classMember? : Char → Option Member
  | 'd' => some (.kind .digit false)
  | 'D' => some (.kind .digit true)
  | 's' => some (.kind .space false)
  | 'S' => some (.kind .space true)
  | 'w' => some (.kind .word false)
  | 'W' => some (.kind .word true)
  | _ => none

def anchor? : Char → Option Anchor
  | 'A' => some .textStart
  | 'Z' => some .textEnd
  | 'b' => some .boundary
  | 'B' => some .noBoundary
  | _ => none

/-- Reads what follows `\x`, `\u`, `\U` and `\N`; other letters have no meaning. -/
def letterCode (c : Char) : Parser Nat :=
  match c with
  | 'x' => hexCode 2
  | 'u' => hexCode 4
  | 'U' => do
    let n ← hexCode 8
    if 0x80000000 ≤ n then refuse .code
    if 0x110000 ≤ n then malformed
    return n
  | 'N' => namedCode
  | c => if Text.isAsciiLetter c then malformed else return c.toNat

/-- Reads an octal escape whose first digits are given. -/
def octalCode (digits : Text) : Parser Nat := do
  let n := Text.numberOf 8 digits
  if 0o377 < n then malformed
  return n

/-- Reads the escape of a member of a set. -/
def memberEscape (c : Char) : Parser Member :=
  match controlCode? c, classMember? c with
  | some n, _ => return .code n
  | none, some m => return m
  | none, none => do
    if isOctalDigit c then
      return .code (← octalCode (c :: (← takeUpTo isOctalDigit 2)))
    else if Text.isAsciiDigit c then malformed
    else return .code (← letterCode c)

/-- Reads an octal escape or a reference to a group, which has one digit or two. -/
def numberEscape (mode : Mode) (c : Char) : Parser Node := do
  match (← get).rest with
  | d :: e :: _ =>
    if isOctalDigit c && isOctalDigit d && isOctalDigit e then
      let _ ← next
      let _ ← next
      return .literal mode false (← octalCode [c, d, e])
    else reference
  | _ => reference
where
  reference : Parser Node := do
    let more ← takeUpTo Text.isAsciiDigit 1
    let n := Text.numberOf 10 (c :: more)
    if !isClosed (← get) n then malformed
    checkBehind n
    return .backreference mode n

/-- Reads an escape outside of sets. -/
def escapeNode (mode : Mode) (c : Char) : Parser Node :=
  match anchor? c, classMember? c, controlCode? c with
  | some a, _, _ => return .anchor mode a
  | none, some m, _ => return .set mode false [m]
  | none, none, some n => return .literal mode false n
  | none, none, none => do
    if c = '0' then
      return .literal mode false (Text.numberOf 8 (c :: (← takeUpTo isOctalDigit 2)))
    else if Text.isAsciiDigit c then numberEscape mode c
    else return .literal mode false (← letterCode c)

/-- Reads a member of a set that begins with a token. -/
def member (t : Token) : Parser Member :=
  match t with
  | .char c => return .code c.toNat
  | .escape c => memberEscape c

/-- A range between two members, if it is one. -/
def range? : Member → Member → Option Member
  | .code m, .code n => if n < m then none else some (.range m n)
  | _, _ => none

/-- Reads the members of a set to its closing bracket; a bracket that comes first is a member. -/
def members : Nat → List Member → Parser (List Member)
  | 0, _ => malformed
  | fuel + 1, done => do
    let start := (← get).rest
    match ← next with
    | none => malformed
    | some t =>
      if t = .char ']' && !done.isEmpty then return done.reverse
      else
        let low ← member t
        if ← accept '-' then
          match ← next with
          | none => malformed
          | some (.char ']') => return (.code '-'.toNat :: low :: done).reverse
          | some u =>
            let high ← member u
            match range? low high with
            | some m => members fuel (m :: done)
            | none =>
              let taken := start.length - (← get).rest.length
              throw (.badRange (start.take taken) start.length)
        else members fuel (low :: done)

/-- A set; one of a single character is that character. -/
def setNode (mode : Mode) (negated : Bool) (ms : List Member) : Node :=
  match ms.eraseDups with
  | [.code n] => .literal mode negated n
  | ms => .set mode negated ms

/-- Reads the number of a repetition. -/
def repetitionNumber (digits : Text) : Parser Nat := do
  if Json.digitLimit < digits.length then refuse (.digits digits.length)
  let n := Text.numberOf 10 digits
  if 4294967295 ≤ n then refuse .repetition
  return n

/-- Reads bounds in braces after the opening one. What is no bounds is left for later, and the
brace stands for itself. -/
def braces : Parser (Option (Nat × Option Nat)) := do
  let start ← get
  if start.rest.head? = some '\x7d' then return none
  let low ← takeDigits
  let high ← if ← accept ',' then takeDigits else pure low
  if ← accept '\x7d' then
    let least ← if low.isEmpty then pure 0 else repetitionNumber low
    if high.isEmpty then return some (least, none)
    let most ← repetitionNumber high
    if most < least then malformed
    return some (least, some most)
  else
    set start
    return none

/-- A part of a sequence. A bare group keeps its parts, to be set into the sequence around it. -/
inductive Part where
  | node (n : Node)
  | bare (ns : List Node)

def Part.nodes : Part → List Node
  | .node n => [n]
  | .bare ns => ns

/-- The nodes of parts that are given in reverse. -/
def sequenceOf (parts : List Part) : List Node := (parts.reverse.map Part.nodes).flatten

/-- Reads what follows the bounds of a repetition and applies it to the last part. -/
def repeatLast (least : Nat) (most : Option Nat) : List Part → Parser (List Part)
  | [] => malformed
  | .node (.anchor ..) :: _ => malformed
  | .node (.repetition ..) :: _ => malformed
  | p :: parts => do
    let greed ←
      if ← accept '?' then pure Greed.reluctant
      else do
        if ← accept '+' then pure Greed.possessive else pure Greed.greedy
    return .node (.repetition greed least most (.ofList p.nodes)) :: parts

/-- The members that a sequence of one positive set or character stands for. -/
def members? : List Node → Option (Mode × List Member)
  | [.literal mode false n] => some (mode, [.code n])
  | [.set mode false ms] => some (mode, ms)
  | _ => none

/-- Alternatives; if each is a single character, they are one set. -/
def alternativesOf (alternatives : List (List Node)) : List Node :=
  match alternatives with
  | [ns] => ns
  | _ =>
    match alternatives.mapM members? with
    | some ((mode, ms) :: rest) => [setNode mode false (ms ++ (rest.map (·.2)).flatten)]
    | _ => [.anyOf (alternatives.map .ofList)]

/-- Reads flags from a letter on, to the character that ends them. -/
def flagLetters (turnOn : Bool) : Nat → Flags → Char → Parser (Flags × Char)
  | 0, _, _ => malformed
  | fuel + 1, done, c => do
    match Flags.ofLetter? c with
    | none => malformed
    | some f =>
      if f.choosesType && (!turnOn || (done.without f).choosesType) then malformed
      else
        match ← next with
        | some (.char d) =>
          if d = ':' || (turnOn && (d = ')' || d = '-')) then return (done.union f, d)
          else flagLetters turnOn fuel (done.union f) d
        | _ => malformed

/-- Reads flags after `(?`: those turned on and off for a group, or nothing for flags of the whole
expression. -/
def flagGroup (fuel : Nat) (c : Char) : Parser (Option (Flags × Flags)) := do
  let (add, stop) ← if c = '-' then pure (Flags.none, '-') else flagLetters true fuel .none c
  if stop = ')' then
    modify fun s => { s with flags := s.flags.union add }
    return none
  if add.template then malformed
  if stop = ':' then return some (add, .none)
  match ← next with
  | some (.char d) =>
    let (del, _) ← flagLetters false fuel .none d
    if del.template || !add.disjoint del then malformed
    return some (add, del)
  | _ => malformed

/-- Opens a group and gives its number. -/
def openGroup (name : Option Text) : Parser Nat := do
  let s ← get
  let n := s.widths.length
  let names ← match name with
    | none => pure s.names
    | some name =>
      if (s.names.find? fun e => e.1 = name).isSome then malformed
      pure ((name, n) :: s.names)
  set { s with widths := s.widths ++ [none], names := names }
  return n

def closeGroup (n : Nat) (body : List Node) : Parser Unit :=
  modify fun s => { s with widths := s.widths.set n (some ((Node.ofList body).width s.widths)) }

def groupNamed (name : Text) : Parser Nat := do
  if !Text.isName name then malformed
  match (← get).names.find? fun e => e.1 = name with
  | some e => return e.2
  | none => malformed

/-- No group has a number beyond this one. -/
def groupLimit : Nat := 1073741823

/-- Reads the group that a condition asks for, by name or number. -/
def conditionGroup : Parser Nat := do
  let name ← takeName ')'
  if Text.isName name then groupNamed name
  else
    match Numeral.int? name with
    | some (.ofNat n) =>
      if n = 0 || groupLimit ≤ n then malformed
      modify fun s => { s with asked := n :: s.asked }
      return n
    | _ => malformed

/-- The white space that verbose expressions pass over. -/
def isPadding (t : Token) : Bool :=
  match t with
  | .char c => c = ' ' || (9 ≤ c.toNat && c.toNat ≤ 13)
  | .escape _ => false

/-- The deepest nesting of groups that is read. It stands for the stack that is left, as
`Json.depthLimit` does; where little of it is used before, some 494 groups use it up. -/
def nestingLimit : Nat := 480

mutual

/-- Reads alternatives; those before are given in reverse. `depth` counts the groups around. -/
def alternatives : Nat → Flags → Nat → List (List Node) → Parser (List Node)
  | 0, _, _, _ => malformed
  | fuel + 1, flags, depth, done => do
    let s ← get
    let flags := if depth = 0 then s.flags else flags
    let ns ← parts fuel flags depth (depth = 0 && done.isEmpty) []
    if ← accept '|' then alternatives fuel flags depth (ns :: done)
    else return alternativesOf (ns :: done).reverse

/-- Reads the parts of a sequence; those before are given in reverse. Flags for the whole
expression can stand only at its very `first` place. -/
def parts : Nat → Flags → Nat → Bool → List Part → Parser (List Node)
  | 0, _, _, _, _ => malformed
  | fuel + 1, flags, depth, first, done => do
    match ← peek with
    | none => return sequenceOf done
    | some (.char '|') => return sequenceOf done
    | some (.char ')') => return sequenceOf done
    | some t =>
      let _ ← next
      if flags.verbose && isPadding t then parts fuel flags depth first done
      else if flags.verbose && t = .char '#' then
        match splitAtToken '\n' [] (← get).rest with
        | some (_, rest) => goOn rest
        | none => goOn []
        parts fuel flags depth first done
      else
        match t with
        | .escape c =>
          let n ← escapeNode flags.mode c
          parts fuel flags depth first (.node n :: done)
        | .char '[' =>
          let negated ← accept '^'
          let ms ← members fuel []
          parts fuel flags depth first (.node (setNode flags.mode negated ms) :: done)
        | .char '?' => parts fuel flags depth first (← repeatLast 0 (some 1) done)
        | .char '*' => parts fuel flags depth first (← repeatLast 0 none done)
        | .char '+' => parts fuel flags depth first (← repeatLast 1 none done)
        | .char '\x7b' =>
          match ← braces with
          | none =>
            parts fuel flags depth first (.node (.literal flags.mode false '\x7b'.toNat) :: done)
          | some (least, most) => parts fuel flags depth first (← repeatLast least most done)
        | .char '.' => parts fuel flags depth first (.node (.any flags.dotAll) :: done)
        | .char '^' => parts fuel flags depth first (.node (.anchor flags.mode .lineStart) :: done)
        | .char '$' => parts fuel flags depth first (.node (.anchor flags.mode .lineEnd) :: done)
        | .char '(' =>
          if nestingLimit ≤ depth then refuse .depth
          if ← accept '?' then
            match ← next with
            | some (.char '#') =>
              match splitAtToken ')' [] (← get).rest with
              | some (_, rest) => goOn rest
              | none => malformed
              parts fuel flags depth first done
            | some (.char c) =>
              if c = '-' || (Flags.ofLetter? c).isSome then
                match ← flagGroup fuel c with
                | none =>
                  if !first || !done.isEmpty then malformed
                  parts fuel (← get).flags depth first done
                | some (add, del) =>
                  let ns ← alternatives fuel (flags.within add del) (depth + 1) []
                  expect ')'
                  let p := if add = .none && del = .none then Part.bare ns
                    else Part.node (.group none (.ofList ns))
                  parts fuel flags depth first (p :: done)
              else
                let p ← special fuel flags depth c
                parts fuel flags depth first (p :: done)
            | _ => malformed
          else
            let n ← openGroup none
            let ns ← alternatives fuel flags (depth + 1) []
            expect ')'
            closeGroup n ns
            parts fuel flags depth first (.node (.group (some n) (.ofList ns)) :: done)
        | .char c => parts fuel flags depth first (.node (.literal flags.mode false c.toNat) :: done)

/-- Reads a group that begins with `(?` and the character given. -/
def special : Nat → Flags → Nat → Char → Parser Part
  | 0, _, _, _ => malformed
  | fuel + 1, flags, depth, c => do
    match c with
    | ':' =>
      let ns ← alternatives fuel flags (depth + 1) []
      expect ')'
      return .bare ns
    | '>' =>
      let ns ← alternatives fuel flags (depth + 1) []
      expect ')'
      return .node (.atomic (.ofList ns))
    | 'P' =>
      if ← accept '<' then
        let name ← takeName '>'
        if !Text.isName name then malformed
        let n ← openGroup (some name)
        let ns ← alternatives fuel flags (depth + 1) []
        expect ')'
        closeGroup n ns
        return .node (.group (some n) (.ofList ns))
      else
        expect '='
        let n ← groupNamed (← takeName ')')
        if !isClosed (← get) n then malformed
        checkBehind n
        return .node (.backreference flags.mode n)
    | '=' => return .node (← ahead fuel flags depth false)
    | '!' => return .node (← ahead fuel flags depth true)
    | '<' =>
      let negated ← if ← accept '!' then pure true else do expect '='; pure false
      let outer := (← get).groupsBefore
      modify fun s => { s with groupsBefore := some (outer.getD s.widths.length) }
      let ns ← alternatives fuel flags (depth + 1) []
      modify fun s => { s with groupsBefore := outer }
      expect ')'
      let body := Node.ofList ns
      return .node (.look (some (body.width (← get).widths)) negated body)
    | '(' =>
      let n ← conditionGroup
      checkBehind n
      let yes ← parts fuel flags (depth + 1) false []
      let no ← if ← accept '|' then parts fuel flags (depth + 1) false [] else pure []
      expect ')'
      return .node (.conditional n (.ofList yes) (.ofList no))
    | _ => malformed

/-- Reads what has to follow or must not. -/
def ahead : Nat → Flags → Nat → Bool → Parser Node
  | 0, _, _, _ => malformed
  | fuel + 1, flags, depth, negated => do
    let ns ← alternatives fuel flags (depth + 1) []
    expect ')'
    return .look none negated (.ofList ns)

end

/-- A regular expression that can be searched for. -/
structure Pattern where
  root : Node

/-- Reads a whole text as a regular expression. No part of it takes more than four steps. -/
def Pattern.parse (s : Text) : Except ParseError Pattern := do
  if s = ['\\'] then throw .malformed
  let start : Reading := ⟨s, .none, [none], [], none, []⟩
  let (ns, r) ← (alternatives (4 * s.length + 8) .none 0 []).run start
  if r.flags.ascii && r.flags.unicode then throw (.refused .flags)
  if !r.rest.isEmpty then throw .malformed
  if r.asked.any (r.widths.length ≤ ·) then throw .malformed
  let root := Node.ofList ns
  if r.flags.template && root.hasRepetition then throw .malformed
  if !root.looksBehindFixed then throw .malformed
  return ⟨root⟩

end ConfigCare.Regex
