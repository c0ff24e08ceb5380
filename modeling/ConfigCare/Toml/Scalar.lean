import ConfigCare.Data
import ConfigCare.Json.Error
import ConfigCare.Text.Cursor
import ConfigCare.Text.Letter
import ConfigCare.Toml.Error
/-!
Reading the parts of TOML that hold no others: strings, numbers, dates and times.
-/

namespace ConfigCare.Toml

/-- A cause of failure before its line and column are worked out. -/
inductive Failure where
  | syntaxAt (fault : Fault) (offset : Nat)
  | digits (count : Nat)
  | depth

abbrev Step (α : Type) := Cursor → Except Failure (α × Cursor)

def fail {α : Type} (fault : Fault) (offset : Nat) : Except Failure α :=
  .error (.syntaxAt fault offset)

def isSpace (c : Char) : Bool := c = ' ' || c = '\t'

def isSpaceOrBreak (c : Char) : Bool := isSpace c || c = '\n'

/-- The control characters that are not allowed; a tab is, and in some places a line feed. -/
def isForbidden (allowBreak : Bool) (c : Char) : Bool :=
  (c.toNat < 32 || c.toNat = 127) && c ≠ '\t' && !(allowBreak && c = '\n')

/-- What is passed over in a string after a backslash at the end of a line. -/
inductive Trim where
  | nothing
  | toBreak
  | all
deriving DecidableEq

/-- The character that a backslash and a letter stand for. -/
def escaped? (c : Char) : Option Char :=
  match c with
  | 'b' => some (Char.ofNat 8)
  | 't' => some '\t'
  | 'n' => some '\n'
  | 'f' => some (Char.ofNat 12)
  | 'r' => some '\r'
  | '"' => some '"'
  | '\\' => some '\\'
  | _ => none

/-- The character with a code in hexadecimal digits, which begin at an offset. -/
def hexChar (digits : Text) (offset : Nat) : Except Failure Char :=
  if !digits.all Text.isHexDigit then fail .hex offset
  else
    let n := Text.numberOf 16 digits
    if 0xD800 ≤ n && n < 0xE000 || 0x110000 ≤ n then fail .notScalar (offset + digits.length)
    else .ok (Char.ofNat n)

/-- Reads a basic string after its opening quotes; `done` is what has been read, in reverse. -/
def basicFrom (multiline : Bool) (trim : Trim) (done : Text) (offset : Nat) :
    Text → Except Failure (Text × Cursor)
  | [] => fail .unterminated offset
  | c :: cs =>
    if trim = .toBreak then
      if isSpace c then basicFrom multiline .toBreak done (offset + 1) cs
      else if c = '\n' then basicFrom multiline .all done (offset + 1) cs
      else fail .escape offset
    else if trim = .all && isSpaceOrBreak c then basicFrom multiline .all done (offset + 1) cs
    else if c = '"' then
      if !multiline then .ok (done.reverse, ⟨offset + 1, cs⟩)
      else
        match cs with
        | '"' :: '"' :: rest => .ok (done.reverse, ⟨offset + 3, rest⟩)
        | _ => basicFrom multiline .nothing (c :: done) (offset + 1) cs
    else if c = '\\' then
      match cs with
      | [] => fail .escape (offset + 2)
      | 'u' :: x₁ :: x₂ :: x₃ :: x₄ :: rest =>
        match hexChar [x₁, x₂, x₃, x₄] (offset + 2) with
        | .error e => .error e
        | .ok x => basicFrom multiline .nothing (x :: done) (offset + 6) rest
      | 'U' :: x₁ :: x₂ :: x₃ :: x₄ :: x₅ :: x₆ :: x₇ :: x₈ :: rest =>
        match hexChar [x₁, x₂, x₃, x₄, x₅, x₆, x₇, x₈] (offset + 2) with
        | .error e => .error e
        | .ok x => basicFrom multiline .nothing (x :: done) (offset + 10) rest
      | e :: rest =>
        if multiline && isSpace e then basicFrom multiline .toBreak done (offset + 2) rest
        else if multiline && e = '\n' then basicFrom multiline .all done (offset + 2) rest
        else if e = 'u' || e = 'U' then fail .hex (offset + 2)
        else
          match escaped? e with
          | some x => basicFrom multiline .nothing (x :: done) (offset + 2) rest
          | none => fail .escape (offset + 2)
    else if isForbidden multiline c then fail (.illegal c) offset
    else basicFrom multiline .nothing (c :: done) (offset + 1) cs

/-- The place of the first forbidden character. -/
def forbiddenFrom (allowBreak : Bool) (offset : Nat) : Text → Option (Char × Nat)
  | [] => none
  | c :: cs =>
    if isForbidden allowBreak c then some (c, offset) else forbiddenFrom allowBreak (offset + 1) cs

/-- Reads up to a delimiter and passes over it. -/
def upTo (delimiter : Text) (allowBreak : Bool) : Step Text := fun c =>
  match Text.indexOf? delimiter c.rest with
  | none => fail (.expected delimiter) (c.offset + c.rest.length)
  | some n =>
    let s := c.rest.take n
    match forbiddenFrom allowBreak c.offset s with
    | some (x, offset) => fail (.invalid x) offset
    | none => .ok (s, c.drop (n + delimiter.length))

/-- One or two more quotes behind the three that end a string belong to it. -/
def moreQuotes (quote : Char) (r : Text × Cursor) : Text × Cursor :=
  match r.2.rest with
  | a :: b :: _ =>
    if a = quote && b = quote then (r.1 ++ [quote, quote], r.2.drop 2)
    else if a = quote then (r.1 ++ [quote], r.2.drop 1)
    else r
  | [a] => if a = quote then (r.1 ++ [quote], r.2.drop 1) else r
  | [] => r

/-- Passes over a line feed right behind the opening quotes. -/
def skipBreak (c : Cursor) : Cursor := if c.rest.head? = some '\n' then c.drop 1 else c

def basic : Step Text := fun c =>
  basicFrom false .nothing [] (c.offset + 1) (c.rest.drop 1)

def literal : Step Text := fun c => upTo ['\''] false (c.drop 1)

def threeQuotes (quote : Char) : Text := [quote, quote, quote]

/-- Reads a string, which may have three quotes and then go over lines. -/
def string : Step Text := fun c =>
  if Text.startsWith (threeQuotes '"') c.rest then
    let c := skipBreak (c.drop 3)
    (basicFrom true .nothing [] c.offset c.rest).map (moreQuotes '"')
  else if Text.startsWith (threeQuotes '\'') c.rest then
    (upTo (threeQuotes '\'') true (skipBreak (c.drop 3))).map (moreQuotes '\'')
  else if c.rest.head? = some '"' then basic c
  else literal c

/-- A number of fixed length at the start of a text. -/
def fixed? (length : Nat) (s : Text) : Option (Nat × Text) :=
  let digits := s.take length
  if digits.length = length && digits.all Text.isAsciiDigit then
    some (Text.numberOf 10 digits, s.drop length)
  else none

def after? (c : Char) : Text → Option Text
  | x :: xs => if x = c then some xs else none
  | [] => none

/-- A number of fixed length in a range. -/
def bounded? (length low high : Nat) (s : Text) : Option (Nat × Text) :=
  match fixed? length s with
  | some (n, rest) => if low ≤ n && n ≤ high then some (n, rest) else none
  | none => none

/-- The microseconds that digits after a point stand for; those after the sixth do not count. -/
def microseconds (digits : Text) : Nat :=
  let kept := digits.take 6
  Text.numberOf 10 (kept ++ List.replicate (6 - kept.length) '0')

def time? (s : Text) : Option (TimeOfDay × Text) := do
  let (hour, s) ← bounded? 2 0 23 s
  let s ← after? ':' s
  let (minute, s) ← bounded? 2 0 59 s
  let s ← after? ':' s
  let (second, s) ← bounded? 2 0 59 s
  match s with
  | '.' :: cs =>
    let digits := cs.takeWhile Text.isAsciiDigit
    if digits.isEmpty then return (⟨hour, minute, second, 0⟩, s)
    else return (⟨hour, minute, second, microseconds digits⟩, cs.drop digits.length)
  | _ => return (⟨hour, minute, second, 0⟩, s)

def date? (s : Text) : Option (Date × Text) := do
  let (year, s) ← fixed? 4 s
  let s ← after? '-' s
  let (month, s) ← bounded? 2 1 12 s
  let s ← after? '-' s
  let (day, s) ← bounded? 2 1 31 s
  return (⟨year, month, day⟩, s)

/-- The distance from UTC in minutes. -/
def offset? (s : Text) : Option (Int × Text) := do
  match s with
  | 'Z' :: cs => return (0, cs)
  | 'z' :: cs => return (0, cs)
  | sign :: cs =>
    if sign ≠ '+' && sign ≠ '-' then none
    let (hour, s) ← bounded? 2 0 23 cs
    let s ← after? ':' s
    let (minute, s) ← bounded? 2 0 59 s
    let n : Int := hour * 60 + minute
    return (if sign = '-' then -n else n, s)
  | [] => none

def daysInMonth (year month : Nat) : Nat :=
  if month = 2 then
    if year % 4 = 0 && (year % 100 ≠ 0 || year % 400 = 0) then 29 else 28
  else if [4, 6, 9, 11].contains month then 30
  else 31

def isDay (d : Date) : Bool := 1 ≤ d.year && d.day ≤ daysInMonth d.year d.month

/-- A time behind a date and what sets it apart. -/
def timeAfterDate? : Text → Option (TimeOfDay × Text)
  | c :: cs => if c = 'T' || c = 't' || c = ' ' then time? cs else none
  | [] => none

/-- A date with or without a time, and whether there is such a day. -/
def moment? (s : Text) : Option (Moment × Bool × Text) := do
  let (d, s) ← date? s
  match timeAfterDate? s with
  | none => return (.day d, isDay d, s)
  | some (t, s) =>
    match offset? s with
    | none => return (.floating d t, isDay d, s)
    | some (offset, s) => return (.fixed d t offset, isDay d, s)

/-- The length of a row of digits, with single underscores between them. -/
def digitRun (isDigit : Char → Bool) : Text → Nat
  | '_' :: c :: cs => if isDigit c then digitRun isDigit cs + 2 else 0
  | c :: cs => if isDigit c then digitRun isDigit cs + 1 else 0
  | [] => 0

/-- The length of a row of digits that starts with a digit. -/
def digits (isDigit : Char → Bool) (s : Text) : Nat :=
  match s with
  | c :: cs => if isDigit c then digitRun isDigit cs + 1 else 0
  | [] => 0

def withoutUnderscores (s : Text) : Text := s.filter (· ≠ '_')

/-- The number in a base whose digits begin a text. -/
def inBase? (base : Nat) (isDigit : Char → Bool) (s : Text) : Option (Data × Nat) :=
  match digits isDigit s with
  | 0 => none
  | n + 1 =>
    some (.int (Text.numberOf base (withoutUnderscores (s.take (n + 1))) : Nat), n + 3)

/-- A number in another base than ten, and its length. -/
def prefixed? : Text → Option (Data × Nat)
  | '0' :: 'x' :: cs => inBase? 16 Text.isHexDigit cs
  | '0' :: 'b' :: cs => inBase? 2 (fun c => c = '0' || c = '1') cs
  | '0' :: 'o' :: cs => inBase? 8 (fun c => '0' ≤ c && c ≤ '7') cs
  | _ => none

/-- The digits of an exponent, and the length of all of it. -/
def exponent? : Text → Option (Int × Nat)
  | e :: cs =>
    if e = 'e' || e = 'E' then
      let sign := cs.head? = some '-' || cs.head? = some '+'
      let ds := if sign then cs.drop 1 else cs
      match digits Text.isAsciiDigit ds with
      | 0 => none
      | n + 1 =>
        let p : Int := Text.numberOf 10 (withoutUnderscores (ds.take (n + 1)))
        some (if cs.head? = some '-' then -p else p, n + 2 + if sign then 1 else 0)
    else none
  | [] => none

/-- A decimal number and its length. -/
def decimal? (s : Text) : Option (Except Failure Data × Nat) :=
  let sign := s.head? = some '-' || s.head? = some '+'
  let negative := s.head? = some '-'
  let s := if sign then s.drop 1 else s
  let whole := if s.head? = some '0' then 1 else digits Text.isAsciiDigit s
  if whole = 0 then none
  else
    let rest := s.drop whole
    let fraction := match rest with
      | '.' :: cs => digits Text.isAsciiDigit cs
      | _ => 0
    let power := exponent? (if fraction = 0 then rest else rest.drop (fraction + 1))
    let length := (if sign then 1 else 0) + whole + (if fraction = 0 then 0 else fraction + 1) +
      (match power with | some (_, n) => n | none => 0)
    let wholeDigits := withoutUnderscores (s.take whole)
    if fraction = 0 && power.isNone then
      if Json.digitLimit < wholeDigits.length then some (.error (.digits wholeDigits.length), length)
      else
        let n : Int := Text.numberOf 10 wholeDigits
        some (.ok (.int (if negative then -n else n)), length)
    else
      let fractionDigits := withoutUnderscores ((rest.drop 1).take fraction)
      let p := match power with | some (p, _) => p | none => 0
      some (.ok (.float (.ofDecimal negative (Text.numberOf 10 (wholeDigits ++ fractionDigits))
        (p - fractionDigits.length))), length)

/-- The words for infinity and for what is no number. -/
def specialFloats : List (String × Binary64) :=
  [("inf", .infinite false), ("nan", .notANumber), ("-inf", .infinite true),
   ("+inf", .infinite false), ("-nan", .notANumber), ("+nan", .notANumber)]

/-- Reads a value that is no string and holds no others. -/
def plainValue : Step Data := fun c =>
  if Text.startsWith (Text.lit "true") c.rest then .ok (.bool true, c.drop 4)
  else if Text.startsWith (Text.lit "false") c.rest then .ok (.bool false, c.drop 5)
  else
    match moment? c.rest with
    | some (m, valid, rest) =>
      if valid then .ok (.moment m, c.drop (c.rest.length - rest.length))
      else fail .moment c.offset
    | none =>
      match time? c.rest with
      | some (t, rest) => .ok (.moment (.time t), c.drop (c.rest.length - rest.length))
      | none =>
        match prefixed? c.rest with
        | some (v, n) => .ok (v, c.drop n)
        | none =>
          match decimal? c.rest with
          | some (v, n) => v.map fun v => (v, c.drop n)
          | none =>
            match specialFloats.find? fun f => Text.startsWith f.1.toList c.rest with
            | some f => .ok (.float f.2, c.drop f.1.length)
            | none => fail .value c.offset

end ConfigCare.Toml
