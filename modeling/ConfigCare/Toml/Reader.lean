import ConfigCare.Toml.Scalar
/-!
Reading TOML. Statements are read one after another into a table. Beside it goes a list of marks
that tell which tables have been declared and which values cannot be added to.
-/

namespace ConfigCare.Toml

def isBareKeyChar (c : Char) : Bool :=
  Text.isAsciiLetter c || Text.isAsciiDigit c || c = '-' || c = '_'

def keyPart : Step Text := fun c =>
  match c.rest with
  | [] => fail .keyStart c.offset
  | x :: _ =>
    if isBareKeyChar x then
      let s := c.rest.takeWhile isBareKeyChar
      .ok (s, c.drop s.length)
    else if x = '\'' then literal c
    else if x = '"' then basic c
    else fail .keyStart c.offset

/-- Reads the parts of a key; those before are given in reverse. -/
def keyFrom (done : Key) : Nat → Step Key
  | 0, c => fail .keyStart c.offset
  | fuel + 1, c =>
    match keyPart c with
    | .error e => .error e
    | .ok (part, c) =>
      match c.skipWhile isSpace with
      | ⟨n, '.' :: cs⟩ => keyFrom (part :: done) fuel (Cursor.skipWhile isSpace ⟨n + 1, cs⟩)
      | c => .ok ((part :: done).reverse, c)

def key (fuel : Nat) : Step Key := keyFrom [] fuel

/-- Passes over a comment. -/
def skipComment (c : Cursor) : Except Failure Cursor :=
  match c.rest with
  | '#' :: cs =>
    let s := cs.takeWhile (· ≠ '\n')
    match forbiddenFrom false (c.offset + 1) s with
    | some (x, offset) => fail (.invalid x) offset
    | none => .ok (c.drop (s.length + 1))
  | _ => .ok c

/-- Passes over white space, line feeds and comments. -/
def skipGaps : Nat → Cursor → Except Failure Cursor
  | 0, c => .ok c
  | fuel + 1, c =>
    match skipComment (c.skipWhile isSpaceOrBreak) with
    | .error e => .error e
    | .ok d => if d.offset = c.offset then .ok d else skipGaps fuel d

/-- Changes the entries of the table behind a key, and makes the tables on the way that are not
there. Of an array of tables the last is meant, if arrays may be gone into. -/
def updateNest (intoArrays : Bool) (f : Entries → Option Entries) : Key → Entries → Option Entries
  | [], es => f es
  | k :: ks, es =>
    let name := WideText.ofText k
    match Data.lookup? name es with
    | none => (updateNest intoArrays f ks []).map fun inner => Data.setKey name (.table inner) es
    | some (.table inner) =>
      (updateNest intoArrays f ks inner).map fun inner => Data.setKey name (.table inner) es
    | some (.list items) =>
      match intoArrays, items.getLast? with
      | true, some (.table inner) =>
        (updateNest intoArrays f ks inner).map fun inner =>
          Data.setKey name (.list (items.dropLast ++ [.table inner])) es
      | _, _ => none
    | some _ => none

def hasKey (name : Text) (es : Entries) : Bool :=
  (Data.lookup? (WideText.ofText name) es).isSome

/-- Adds an empty table to the array of tables behind a name. -/
def appendTable (name : Text) (es : Entries) : Option Entries :=
  let name := WideText.ofText name
  match Data.lookup? name es with
  | none => some (Data.setKey name (.list [.table []]) es)
  | some (.list items) => some (Data.setKey name (.list (items ++ [.table []])) es)
  | some _ => none

inductive MarkKind where
  /-- A table that cannot be declared again. -/
  | declared
  /-- A value that nothing can be added to, with all that is in it. -/
  | frozen
deriving DecidableEq

structure Mark where
  kind : MarkKind
  key : Key
deriving DecidableEq

/-- Whether a mark of a kind lies on a key. A frozen value has it on all keys inside. -/
def isMarked (marks : List Mark) (kind : MarkKind) (k : Key) : Bool :=
  marks.any fun m => m.kind = kind &&
    (if kind = .frozen then m.key.isPrefixOf k else m.key = k)

/-- Takes all marks off a key and the keys inside. -/
def unmark (marks : List Mark) (k : Key) : List Mark := marks.filter fun m => !k.isPrefixOf m.key

def isCollection : Data → Bool
  | .list _ => true
  | .table _ => true
  | _ => false

/-- Splits a key into the part before the last and the last. -/
def splitKey (k : Key) : Key × Text := (k.dropLast, k.getLast?.getD [])

/-- Reads a key, the equals sign and a value. -/
def pair (fuel : Nat) (value : Step Data) : Step (Key × Data) := fun c =>
  match key fuel c with
  | .error e => .error e
  | .ok (k, c) =>
    match c.rest with
    | '=' :: cs =>
      (value (Cursor.skipWhile isSpace ⟨c.offset + 1, cs⟩)).map fun r => ((k, r.1), r.2)
    | _ => fail .equals c.offset

/-- Reads the items of an array to its closing bracket. -/
def arrayFrom (fuel : Nat) (value : Step Data) : Nat → List Data → Step (List Data)
  | 0, _, c => fail .arrayClose c.offset
  | n + 1, done, c =>
    match value c with
    | .error e => .error e
    | .ok (v, c) =>
      match skipGaps fuel c with
      | .error e => .error e
      | .ok ⟨o, ']' :: cs⟩ => .ok ((v :: done).reverse, ⟨o + 1, cs⟩)
      | .ok ⟨o, ',' :: cs⟩ =>
        match skipGaps fuel ⟨o + 1, cs⟩ with
        | .error e => .error e
        | .ok ⟨o, ']' :: cs⟩ => .ok ((v :: done).reverse, ⟨o + 1, cs⟩)
        | .ok c => arrayFrom fuel value n (v :: done) c
      | .ok c => fail .arrayClose c.offset

def array (fuel : Nat) (value : Step Data) : Step Data := fun c =>
  match skipGaps fuel (c.drop 1) with
  | .error e => .error e
  | .ok ⟨o, ']' :: cs⟩ => .ok (.list [], ⟨o + 1, cs⟩)
  | .ok c => (arrayFrom fuel value fuel [] c).map fun r => (.list r.1, r.2)

/-- Adds a pair to an inline table. -/
def addInline (marks : List Mark) (es : Entries) (k : Key) (v : Data) : Except Fault Entries :=
  if isMarked marks .frozen k then .error (.immutable k)
  else
    let (parent, stem) := splitKey k
    match updateNest false some parent es with
    | none => .error .overwritten
    | some _ =>
      match updateNest false (fun nest =>
          if hasKey stem nest then none else some (Data.setKey (WideText.ofText stem) v nest))
          parent es with
      | none => .error (.duplicate stem)
      | some es => .ok es

/-- Reads the pairs of an inline table to its closing brace. -/
def inlineFrom (fuel : Nat) (value : Step Data) : Nat → List Mark → Entries → Step Entries
  | 0, _, _, c => fail .inlineClose c.offset
  | n + 1, marks, es, c =>
    match pair fuel value c with
    | .error e => .error e
    | .ok ((k, v), c) =>
      match addInline marks es k v with
      | .error fault => fail fault c.offset
      | .ok es =>
        match c.skipWhile isSpace with
        | ⟨o, '\x7d' :: cs⟩ => .ok (es, ⟨o + 1, cs⟩)
        | ⟨o, ',' :: cs⟩ =>
          let marks := if isCollection v then ⟨.frozen, k⟩ :: marks else marks
          inlineFrom fuel value n marks es (Cursor.skipWhile isSpace ⟨o + 1, cs⟩)
        | c => fail .inlineClose c.offset

def inline (fuel : Nat) (value : Step Data) : Step Data := fun c =>
  match (c.drop 1).skipWhile isSpace with
  | ⟨o, '\x7d' :: cs⟩ => .ok (.table [], ⟨o + 1, cs⟩)
  | c => (inlineFrom fuel value fuel [] [] c).map fun r => (.table r.1, r.2)

/-- Reads one value, with a reader for what it holds. -/
def valueWith (fuel : Nat) (inner : Option (Step Data)) : Step Data := fun c =>
  match c.rest, inner with
  | '"' :: _, _ => (string c).map fun r => (.text (WideText.ofText r.1), r.2)
  | '\'' :: _, _ => (string c).map fun r => (.text (WideText.ofText r.1), r.2)
  | '[' :: _, some value => array fuel value c
  | '\x7b' :: _, some value => inline fuel value c
  | '[' :: _, none => .error .depth
  | '\x7b' :: _, none => .error .depth
  | _, _ => plainValue c

/-- Reads one value of at most as many levels. -/
def value (fuel : Nat) : Nat → Step Data
  | 0 => valueWith fuel none
  | depth + 1 => valueWith fuel (some (value fuel depth))

/-- The deepest nesting that is read. It stands for the stack that is left, as `Json.depthLimit`
does, and is no more exact. -/
def depthLimit : Nat := 480

/-- What the statements so far have made. Pending marks take effect with the next table. -/
structure Document where
  entries : Entries
  marks : List Mark
  pending : List Mark
  header : Key

/-- The proper beginnings of a key below a header, the shortest first. -/
def containers (header k : Key) : List Key :=
  (List.range (k.length - 1)).map fun i => header ++ k.take (i + 1)

/-- Adds a pair to the table that is open. -/
def Document.add (d : Document) (k : Key) (v : Data) : Except Fault Document :=
  let inside := containers d.header k
  match inside.find? (isMarked d.marks .declared) with
  | some c => .error (.redefined c)
  | none =>
    let (parent, stem) := splitKey k
    let parent := d.header ++ parent
    if isMarked d.marks .frozen parent then .error (.immutable parent)
    else
      match updateNest true (fun nest =>
          if hasKey stem nest then none else some (Data.setKey (WideText.ofText stem) v nest))
          parent d.entries with
      | none => .error .overwritten
      | some es =>
        .ok { d with
          entries := es
          pending := inside.map (Mark.mk .declared) ++ d.pending
          marks := if isCollection v then ⟨.frozen, d.header ++ k⟩ :: d.marks else d.marks }

/-- Opens a table. -/
def Document.openTable (d : Document) (k : Key) : Except Fault Document :=
  let marks := d.pending ++ d.marks
  if isMarked marks .declared k || isMarked marks .frozen k then .error (.declaredTwice k)
  else
    match updateNest true some k d.entries with
    | none => .error .overwritten
    | some es => .ok ⟨es, ⟨.declared, k⟩ :: marks, [], k⟩

/-- Opens a new table at the end of an array of tables. -/
def Document.openItem (d : Document) (k : Key) : Except Fault Document :=
  let marks := d.pending ++ d.marks
  if isMarked marks .frozen k then .error (.immutable k)
  else
    let (parent, stem) := splitKey k
    match updateNest true (appendTable stem) parent d.entries with
    | none => .error .overwritten
    | some es => .ok ⟨es, ⟨.declared, k⟩ :: unmark marks k, [], k⟩

/-- Reads what stands between brackets and opens the table. -/
def header (fuel : Nat) (d : Document) (c : Cursor) : Except Failure (Document × Cursor) :=
  let item := Text.startsWith ['[', '['] c.rest
  let width := if item then 2 else 1
  match key fuel ((c.drop width).skipWhile isSpace) with
  | .error e => .error e
  | .ok (k, c) =>
    match if item then d.openItem k else d.openTable k with
    | .error fault => fail fault c.offset
    | .ok d =>
      if Text.startsWith (List.replicate width ']') c.rest then .ok (d, c.drop width)
      else fail (if item then .arrayEnd else .tableEnd) c.offset

/-- Reads a statement that is not empty. -/
def statement (fuel : Nat) (d : Document) (c : Cursor) : Except Failure (Document × Cursor) :=
  match c.rest with
  | '#' :: _ => .ok (d, c)
  | '[' :: _ => header fuel d c
  | x :: _ =>
    if isBareKeyChar x || x = '"' || x = '\'' then
      match pair fuel (value fuel depthLimit) c with
      | .error e => .error e
      | .ok ((k, v), c) =>
        match d.add k v with
        | .error fault => fail fault c.offset
        | .ok d => .ok (d, c)
    else fail .statement c.offset
  | [] => .ok (d, c)

/-- Reads statements, one on a line, to the end of the text. -/
def statements (fuel : Nat) : Nat → Document → Cursor → Except Failure Document
  | 0, d, _ => .ok d
  | n + 1, d, c =>
    match c.skipWhile isSpace with
    | ⟨_, []⟩ => .ok d
    | ⟨o, '\n' :: cs⟩ => statements fuel n d ⟨o + 1, cs⟩
    | c =>
      match statement fuel d c with
      | .error e => .error e
      | .ok (d, c) =>
        match skipComment (c.skipWhile isSpace) with
        | .error e => .error e
        | .ok ⟨_, []⟩ => .ok d
        | .ok ⟨o, '\n' :: cs⟩ => statements fuel n d ⟨o + 1, cs⟩
        | .ok c => fail .statementEnd c.offset

/-- A carriage return before a line feed does not count. -/
def unifyBreaks (s : Text) : Text := Text.replace ['\r', '\n'] ['\n'] s

def Failure.toError (s : Text) : Failure → ReadError
  | .syntaxAt fault offset =>
    .malformed ⟨fault, if s.length ≤ offset then none else some (Text.position s offset)⟩
  | .digits count => .digits count
  | .depth => .depth

/-- Reads a TOML text. -/
def read (s : Text) : Except ReadError Entries :=
  let s := unifyBreaks s
  let fuel := s.length + 1
  match statements fuel fuel ⟨[], [], [], []⟩ ⟨0, s⟩ with
  | .error e => .error (e.toError s)
  | .ok d => .ok d.entries

end ConfigCare.Toml
