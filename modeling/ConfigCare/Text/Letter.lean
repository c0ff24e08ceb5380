import ConfigCare.Text.Ranges
import ConfigCare.Text.LetterTable
import ConfigCare.Text.NameTable
/-!
Letters, digits and names, in ASCII and beyond.
-/

namespace ConfigCare.Text

def isAsciiDigit (c : Char) : Bool := '0' ≤ c && c ≤ '9'

def isAsciiLetter (c : Char) : Bool := ('a' ≤ c && c ≤ 'z') || ('A' ≤ c && c ≤ 'Z')

def isHexDigit (c : Char) : Bool :=
  isAsciiDigit c || ('a' ≤ c && c ≤ 'f') || ('A' ≤ c && c ≤ 'F')

/-- The value of a digit of any base up to sixteen. -/
def digitValue (c : Char) : Nat :=
  if 'a' ≤ c then c.toNat - 87 else if 'A' ≤ c then c.toNat - 55 else c.toNat - 48

/-- The number that a row of digits denotes, most significant first. -/
def numberOf (base : Nat) (digits : List Char) : Nat :=
  digits.foldl (fun n c => n * base + digitValue c) 0

/-- A decimal digit of any script. -/
def isDecimal (c : Char) : Bool :=
  if c.toNat < 128 then isAsciiDigit c else inRanges decimalRanges c.toNat

/-- The value of a decimal digit of any script: the digits of a script stand in order, so the place
in its row gives it. -/
def decimalValue (c : Char) : Nat :=
  if c.toNat < 128 then c.toNat - 48
  else match decimalRanges.find? fun r => r.1 ≤ c.toNat && c.toNat ≤ r.2 with
    | some r => (c.toNat - r.1) % 10
    | none => 0

/-- The digits that no number is written with: superscripts, digits in circles and the like. -/
def ornateDigitRanges : List (Nat × Nat) :=
  [(0xB2, 0xB3), (0xB9, 0xB9), (0x1369, 0x1371), (0x19DA, 0x19DA), (0x2070, 0x2070),
    (0x2074, 0x2079), (0x2080, 0x2089), (0x2460, 0x2468), (0x2474, 0x247C), (0x2488, 0x2490),
    (0x24EA, 0x24EA), (0x24F5, 0x24FD), (0x24FF, 0x24FF), (0x2776, 0x277E), (0x2780, 0x2788),
    (0x278A, 0x2792), (0x10A40, 0x10A43), (0x10E60, 0x10E68), (0x11052, 0x1105A),
    (0x1F100, 0x1F10A)]

/-- A digit in any use. -/
def isDigit (c : Char) : Bool := isDecimal c || inRanges ornateDigitRanges c.toNat

def isAlphanumeric (c : Char) : Bool :=
  if c.toNat < 128 then isAsciiDigit c || isAsciiLetter c else inRanges letterRanges c.toNat

/-- Whether a text is a name: a letter or underscore, then letters, digits and underscores. -/
def isName : List Char → Bool
  | [] => false
  | c :: cs => starts c && cs.all continues
where
  starts (c : Char) : Bool :=
    if c.toNat < 128 then isAsciiLetter c || c == '_' else inRanges nameStartRanges c.toNat
  continues (c : Char) : Bool :=
    if c.toNat < 128 then isAsciiLetter c || isAsciiDigit c || c == '_'
    else inRanges nameRestRanges c.toNat

end ConfigCare.Text
