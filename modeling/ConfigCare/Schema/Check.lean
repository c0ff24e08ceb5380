import ConfigCare.Data
import ConfigCare.Schema.Issue
import ConfigCare.Text.Letter
import ConfigCare.Text.Blank
/-!
Checks of values against shapes. A number or a truth value may also be given in another form that
clearly means it, such as digits in a text. Which forms those are, and the order and the kinds of the
faults, is as in pydantic 2.14.
-/

namespace ConfigCare.Schema

variable {α : Type}

def text : Data → Checked Text
  | .text s =>
    match WideText.encode s with
    | .ok t => .ok t
    | .error _ => .fail .loneSurrogate
  | _ => .fail .notText

def nonEmptyText (d : Data) : Checked Text :=
  match text d with
  | .ok [] => .fail .textTooShort
  | r => r

/-- A value that may be left out by giving nothing. -/
def optional (check : Data → Checked α) : Data → Checked (Option α)
  | .null => .ok none
  | d => (check d).map some

/-- Digits with single underscores between them; `expected` tells that a digit has to come. -/
def digits? (expected : Bool) (value : Nat) : Text → Option Nat
  | [] => if expected then none else some value
  | c :: cs =>
    if Text.isAsciiDigit c then digits? false (value * 10 + Text.digitValue c) cs
    else if c = '_' && !expected then digits? true value cs
    else none

/-- Takes off the zeros in front of a number, with underscores between them. Of nothing but zeros
the last one stays. -/
def dropLeadingZeros? : Text → Option Text
  | [] => none
  | c :: cs =>
    if c = '0' then go c cs else if Text.isAsciiDigit c then some (c :: cs) else none
where
  go (last : Char) : Text → Option Text
    | [] => some [last]
    | c :: cs =>
      if c = '0' || c = '_' then go c cs
      else if Text.isAsciiDigit c then some (c :: cs)
      else if c = '.' then some (last :: c :: cs)
      else none

/-- Takes off a point and the zeros behind it. -/
def dropZeroFraction (s : Text) : Text :=
  let whole := s.takeWhile (· ≠ '.')
  if (s.drop (whole.length + 1)).all (· = '0') then whole else s

/-- White space that may stand around a number; the separators U+001C to U+001F may not. -/
def isPadding (c : Char) : Bool := Text.isBlank c && !(28 ≤ c.toNat && c.toNat ≤ 31)

def trimPadding (s : Text) : Text := ((s.dropWhile isPadding).reverse.dropWhile isPadding).reverse

/-- The digits of a number, of which there is a greatest count. -/
def wholeDigits (s : Text) : Checked Nat :=
  match ((dropLeadingZeros? s).map dropZeroFraction).bind (digits? true 0) with
  | some n => if n < Nat.pow 10 4300 then .ok n else .fail .wholeSize
  | none => .fail .wholeSyntax

/-- The number written in a text: white space around it, a sign, zeros in front, and a fraction of
zeros are allowed. -/
def wholeText (s : Text) : Checked Int :=
  match trimPadding s with
  | '-' :: cs => (wholeDigits cs).map fun n => -(n : Int)
  | '+' :: cs => (wholeDigits cs).map fun n => (n : Int)
  | cs => (wholeDigits cs).map fun n => (n : Int)

/-- Whether an integer given as a floating-point number is small enough to be taken. -/
def fitsWord (n : Int) : Bool := n.natAbs < Nat.pow 2 63

def whole : Data → Checked Int
  | .int n => .ok n
  | .bool b => .ok (if b then 1 else 0)
  | .float x =>
    if !x.isFinite then .fail .notFinite
    else match x.toInt? with
      | some n => if fitsWord n then .ok n else .fail .wholeSize
      | none => .fail .fraction
  | .text s =>
    match WideText.encode s with
    | .ok t => wholeText t
    | .error _ => .fail .wholeSyntax
  | _ => .fail .notWhole

/-- A whole number that is not below another. -/
def atLeast (least : Nat) (d : Data) : Checked Nat :=
  match whole d with
  | .error e => .error e
  | .ok n => if (least : Int) ≤ n then .ok n.toNat else .fail .tooSmall

/-- The words for truth and falsehood, in lower case. -/
def truthWords : List (String × Bool) :=
  [("0", false), ("off", false), ("f", false), ("false", false), ("n", false), ("no", false),
   ("1", true), ("on", true), ("t", true), ("true", true), ("y", true), ("yes", true)]

def asciiLower (s : Text) : Text :=
  s.map fun c => if 'A' ≤ c && c ≤ 'Z' then Char.ofNat (c.toNat + 32) else c

def truth : Data → Checked Bool
  | .bool b => .ok b
  | .int n => number n
  | .float x =>
    match x.toInt? with
    | some n => number n
    | none => .fail .notTruth
  | .text s =>
    match WideText.encode s with
    | .ok t =>
      match truthWords.find? fun w => w.1.toList = asciiLower t with
      | some w => .ok w.2
      | none => .fail .truthSyntax
    | .error _ => .fail .truthSyntax
  | _ => .fail .notTruth
where
  number (n : Int) : Checked Bool :=
    if n = 0 then .ok false
    else if n = 1 then .ok true
    else if fitsWord n then .fail .truthSyntax
    else .fail .notTruth

/-- Checks items by number: those that pass and the faults of the others, both in reverse. -/
def itemsFrom (check : Data → Checked α) : Nat → List α → List Issue → List Data →
    List α × List Issue
  | _, good, bad, [] => (good.reverse, bad.reverse)
  | n, good, bad, d :: ds =>
    match (check d).within (.item n) with
    | .ok a => itemsFrom check (n + 1) (a :: good) bad ds
    | .error issues => itemsFrom check (n + 1) good (issues.reverse ++ bad) ds

/-- A list of some length at least. -/
def list (least : Nat) (check : Data → Checked α) : Data → Checked (List α)
  | .list ds =>
    match itemsFrom check 0 [] [] ds with
    | (good, []) => if good.length < least then .fail .tooShort else .ok good
    | (_, bad) => .error bad
  | _ => .fail .notList

/-- A list that is to be fixed. Its length counts only the items that pass. -/
def tuple (least : Nat) (check : Data → Checked α) : Data → Checked (List α)
  | .list ds =>
    let (good, bad) := itemsFrom check 0 [] [] ds
    let short : List Issue := if good.length < least then [⟨[], .tooShort⟩] else []
    match bad ++ short with
    | [] => .ok good
    | issues => .error issues
  | _ => .fail .notTuple

def entry? (es : Entries) (name : String) : Option Data :=
  Data.lookup? (WideText.ofText name.toList) es

def record (check : Entries → Checked α) : Data → Checked α
  | .table es => check es
  | _ => .fail .notRecord

/-- A member that has to be there. -/
def required (es : Entries) (name : String) (check : Data → Checked α) : Checked α :=
  (match entry? es name with
    | some d => check d
    | none => .fail .missing).within (.key name.toList)

/-- A member with a value to take when it is absent. -/
def withDefault (es : Entries) (name : String) (check : Data → Checked α) (default : α) :
    Checked α :=
  match entry? es name with
  | some d => (check d).within (.key name.toList)
  | none => .ok default

/-- A member that goes by two names, of which the first is preferred. -/
def renamed (es : Entries) (name other : String) (check : Data → Checked α) (default : α) :
    Checked α :=
  match entry? es name with
  | some d => (check d).within (.key name.toList)
  | none => withDefault es other check default

end ConfigCare.Schema
