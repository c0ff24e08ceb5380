import ConfigCare.Data
import ConfigCare.Json.Error
import ConfigCare.Text.Cursor
import ConfigCare.Text.Letter
/-!
Reading JSON. A reader of values is built level by level: the reader of `d + 1` levels reads the
items of a list and the members of a table with the reader of `d` levels, so the limit on nesting
is what the recursion runs on.
-/

namespace ConfigCare.Json

/-- A cause of failure before its line and column are worked out. -/
inductive Failure where
  | syntaxAt (fault : Fault) (offset : Nat)
  | constant (name : Text)
  | digits (count : Nat)
  | depth

abbrev Step (α : Type) := Cursor → Except Failure (α × Cursor)

def isSpace (c : Char) : Bool := c = ' ' || c = '\t' || c = '\n' || c = '\r'

/-- Passes over white space. -/
def skip (c : Cursor) : Cursor := c.skipWhile isSpace

def fail {α : Type} (fault : Fault) (offset : Nat) : Except Failure α :=
  .error (.syntaxAt fault offset)

/-- The character that a backslash and a letter stand for. -/
def escaped? (c : Char) : Option Char :=
  match c with
  | '"' => some '"'
  | '\\' => some '\\'
  | '/' => some '/'
  | 'b' => some (Char.ofNat 8)
  | 'f' => some (Char.ofNat 12)
  | 'n' => some '\n'
  | 'r' => some '\r'
  | 't' => some '\t'
  | _ => none

/-- Adds a code unit to glyphs in reverse: the second half of a pair joins the first. -/
def addUnit (code : Nat) : WideText → WideText
  | [] => [unit]
  | .half high :: done =>
    if high < 0xDC00 && 0xDC00 ≤ code && code < 0xE000 then
      .char (Char.ofNat (0x10000 + (high - 0xD800) * 0x400 + (code - 0xDC00))) :: done
    else unit :: .half high :: done
  | done => unit :: done
where
  unit : Glyph := if 0xD800 ≤ code && code < 0xE000 then .half code else .char (Char.ofNat code)

/-- Reads a string after its opening quote, which stands at `start`. The text has to go on behind
the digits of an escape. -/
def stringFrom (start : Nat) (done : WideText) (offset : Nat) :
    Text → Except Failure (WideText × Cursor)
  | [] => fail .unterminated start
  | '"' :: cs => .ok (done.reverse, ⟨offset + 1, cs⟩)
  | '\\' :: [] => fail .unterminated start
  | '\\' :: 'u' :: a :: b :: c :: d :: e :: cs =>
    if [a, b, c, d].all Text.isHexDigit then
      stringFrom start (addUnit (Text.numberOf 16 [a, b, c, d]) done) (offset + 6) (e :: cs)
    else fail .unicodeEscape (offset + 1)
  | '\\' :: e :: cs =>
    if e = 'u' then fail .unicodeEscape (offset + 1)
    else match escaped? e with
      | some c => stringFrom start (.char c :: done) (offset + 2) cs
      | none => fail .escape offset
  | c :: cs =>
    if c.toNat < 32 then fail .control offset
    else stringFrom start (.char c :: done) (offset + 1) cs

/-- The parts of a number as written. -/
structure Numeral where
  negative : Bool
  whole : Text
  /-- The digits after the point; none without a point. -/
  fraction : Text
  /-- The letter, the sign if there is one, and the digits of an exponent. -/
  exponent : Option (Char × Option Char × Text)

namespace Numeral

/-- The exponent that follows a number. Without a digit it is no exponent. -/
def exponent? : Text → Option (Char × Option Char × Text)
  | e :: cs =>
    if e = 'e' || e = 'E' then
      let sign := match cs with
        | '+' :: _ => some '+'
        | '-' :: _ => some '-'
        | _ => none
      let digits := ((if sign.isSome then cs.drop 1 else cs).takeWhile Text.isAsciiDigit)
      if digits.isEmpty then none else some (e, sign, digits)
    else none
  | [] => none

/-- The whole part: a zero by itself, or digits that start with another. -/
def whole? : Text → Option Text
  | '0' :: _ => some ['0']
  | c :: cs => if Text.isAsciiDigit c then some (c :: cs.takeWhile Text.isAsciiDigit) else none
  | [] => none

def read? (s : Text) : Option Numeral :=
  let (negative, s) := match s with
    | '-' :: cs => (true, cs)
    | cs => (false, cs)
  match whole? s with
  | none => none
  | some whole =>
    let s := s.drop whole.length
    let fraction := match s with
      | '.' :: cs => cs.takeWhile Text.isAsciiDigit
      | _ => []
    let s := if fraction.isEmpty then s else s.drop (fraction.length + 1)
    some ⟨negative, whole, fraction, exponent? s⟩

/-- The number of characters that a numeral takes. -/
def length (n : Numeral) : Nat :=
  (if n.negative then 1 else 0) + n.whole.length +
    (if n.fraction.isEmpty then 0 else n.fraction.length + 1) +
    match n.exponent with
    | none => 0
    | some (_, sign, digits) => digits.length + if sign.isSome then 2 else 1

def value (n : Numeral) : Except Failure Data :=
  if n.fraction.isEmpty && n.exponent.isNone then
    if n.whole.length > digitLimit then .error (.digits n.whole.length)
    else
      let m : Int := Text.numberOf 10 n.whole
      .ok (.int (if n.negative then -m else m))
  else
    let power : Int := match n.exponent with
      | none => 0
      | some (_, sign, digits) =>
        let p : Int := Text.numberOf 10 digits
        if sign = some '-' then -p else p
    .ok (.float (.ofDecimal n.negative (Text.numberOf 10 (n.whole ++ n.fraction))
      (power - n.fraction.length)))

end Numeral

/-- The words that stand for values. The last three are no JSON, yet they are read unless they
are refused. -/
def words (refuse : Bool) : List (Text × Except Failure Data) :=
  [(Text.lit "null", .ok .null), (Text.lit "true", .ok (.bool true)),
   (Text.lit "false", .ok (.bool false)),
   constant (Text.lit "NaN") .notANumber,
   constant (Text.lit "Infinity") (.infinite false),
   constant (Text.lit "-Infinity") (.infinite true)]
where
  constant (name : Text) (x : Binary64) : Text × Except Failure Data :=
    (name, if refuse then .error (.constant name) else .ok (.float x))

/-- Reads a word or a number. -/
def scalar (refuse : Bool) : Step Data := fun c =>
  match (words refuse).find? fun w => Text.startsWith w.1 c.rest with
  | some (w, .ok v) => .ok (v, ⟨c.offset + w.length, c.rest.drop w.length⟩)
  | some (_, .error e) => .error e
  | none =>
    match Numeral.read? c.rest with
    | none => fail .value c.offset
    | some n =>
      match n.value with
      | .error e => .error e
      | .ok v => .ok (v, ⟨c.offset + n.length, c.rest.drop n.length⟩)

/-- Reads the items of a list, at least one, to its closing bracket. -/
def items (read : Step Data) : Nat → List Data → Step (List Data)
  | 0, _, c => fail .value c.offset
  | fuel + 1, done, c =>
    match read c with
    | .error e => .error e
    | .ok (v, c) =>
      match skip c with
      | ⟨n, ']' :: cs⟩ => .ok ((v :: done).reverse, ⟨n + 1, cs⟩)
      | ⟨n, ',' :: cs⟩ => items read fuel (v :: done) (skip ⟨n + 1, cs⟩)
      | c => fail .comma c.offset

/-- Reads a key, the colon and the white space around it. -/
def key : Step WideText := fun c =>
  match c.rest with
  | '"' :: cs =>
    match stringFrom c.offset [] (c.offset + 1) cs with
    | .error e => .error e
    | .ok (k, c) =>
      match skip c with
      | ⟨n, ':' :: cs⟩ => .ok (k, skip ⟨n + 1, cs⟩)
      | c => fail .colon c.offset
  | _ => fail .name c.offset

/-- Reads the members of a table, at least one, to its closing brace. -/
def members (read : Step Data) : Nat → List (WideText × Data) → Step (List (WideText × Data))
  | 0, _, c => fail .name c.offset
  | fuel + 1, done, c =>
    match key c with
    | .error e => .error e
    | .ok (k, c) =>
      match read c with
      | .error e => .error e
      | .ok (v, c) =>
        match skip c with
        | ⟨n, '\x7d' :: cs⟩ => .ok (((k, v) :: done).reverse, ⟨n + 1, cs⟩)
        | ⟨n, ',' :: cs⟩ => members read fuel ((k, v) :: done) (skip ⟨n + 1, cs⟩)
        | c => fail .comma c.offset

/-- Reads a list after its opening bracket. -/
def list (read : Step Data) (fuel : Nat) : Step Data := fun c =>
  match skip c with
  | ⟨n, ']' :: cs⟩ => .ok (.list [], ⟨n + 1, cs⟩)
  | c => (items read fuel [] c).map fun r => (.list r.1, r.2)

/-- Reads a table after its opening brace. -/
def table (read : Step Data) (fuel : Nat) : Step Data := fun c =>
  match skip c with
  | ⟨n, '\x7d' :: cs⟩ => .ok (.table [], ⟨n + 1, cs⟩)
  | c => (members read fuel [] c).map fun r => (.table (Data.ofMembers r.1), r.2)

/-- Reads one value, with a reader for what it holds if it is a list or a table. -/
def valueWith (refuse : Bool) (fuel : Nat) (inner : Option (Step Data)) : Step Data := fun c =>
  match c.rest, inner with
  | '"' :: cs, _ => (stringFrom c.offset [] (c.offset + 1) cs).map fun r => (.text r.1, r.2)
  | '[' :: cs, some read => list read fuel ⟨c.offset + 1, cs⟩
  | '\x7b' :: cs, some read => table read fuel ⟨c.offset + 1, cs⟩
  | '[' :: _, none => .error .depth
  | '\x7b' :: _, none => .error .depth
  | _, _ => scalar refuse c

/-- Reads one value of at most as many levels. No list has more items than `fuel`, the length of
the text. -/
def value (refuse : Bool) (fuel : Nat) : Nat → Step Data
  | 0 => valueWith refuse fuel none
  | depth + 1 => valueWith refuse fuel (some (value refuse fuel depth))

/-- The deepest nesting that is read. It stands for the stack that is left to the reader, which hangs
on what calls it: between 983 and 993 levels use it up. -/
def depthLimit : Nat := 990

/-- Reads a text that holds one value and white space around it. -/
def document (refuse : Bool) (s : Text) : Except Failure Data :=
  match s with
  | '\uFEFF' :: _ => fail .byteOrderMark 0
  | _ =>
    match value refuse (s.length + 1) depthLimit (skip ⟨0, s⟩) with
    | .error e => .error e
    | .ok (v, c) =>
      match skip c with
      | ⟨_, []⟩ => .ok v
      | c => fail .extra c.offset

def Failure.toError (s : Text) : Failure → ReadError
  | .syntaxAt fault offset => .malformed ⟨fault, offset, Text.position s offset⟩
  | .constant name => .constant name
  | .digits count => .digits count
  | .depth => .depth

/-- Reads a JSON text; `refuse` refuses `NaN` and the infinities. -/
def read (refuse : Bool) (s : Text) : Except ReadError Data :=
  match document refuse s with
  | .error e => .error (e.toError s)
  | .ok v => .ok v

end ConfigCare.Json
