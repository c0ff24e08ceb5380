import ConfigCare.Text.Basic
import ConfigCare.Text.Ranges
import ConfigCare.Text.CaseTable
/-!
Lower case, of a character by itself and of a text, where a capital sigma takes its final form at
the end of a word; and the characters that differ from a letter in case only.
-/

namespace ConfigCare.Text

/-- The lower case of a code point beyond ASCII, from the run it lies in. -/
def lowerOfRuns : List (Nat × Nat × Nat × Nat) → Nat → Nat
  | [], n => n
  | (lo, hi, step, low) :: rest, n =>
    if lo ≤ n && n ≤ hi && (n - lo) % step == 0 then low + (n - lo) else lowerOfRuns rest n

def asciiLowerChar (c : Char) : Char :=
  if 'A' ≤ c && c ≤ 'Z' then Char.ofNat (c.toNat + 32) else c

/-- The single character that is the lower case of another. -/
def lowerChar (c : Char) : Char :=
  if c.toNat < 128 then asciiLowerChar c else Char.ofNat (lowerOfRuns lowerRuns c.toNat)

/-- The capitals of a small letter, by the runs it can come from. -/
def capitalsOfRuns (low : Nat) : List (Nat × Nat × Nat × Nat) → List Nat
  | [] => []
  | (lo, hi, step, first) :: rest =>
    let n := low + lo - first
    if first ≤ low + lo && lo ≤ n && n ≤ hi && (n - lo) % step == 0 then n :: capitalsOfRuns low rest
    else capitalsOfRuns low rest

/-- The code points whose lower case is the given one, itself among them when it is small. -/
def withLower (low : Nat) : List Nat :=
  let ascii := if 97 ≤ low && low ≤ 122 then [low - 32] else []
  let self := if (lowerChar (Char.ofNat low)).toNat == low then [low] else []
  self ++ ascii ++ capitalsOfRuns low lowerRuns

/-- The small letters that share their capital with the given one. -/
def sameUpper (low : Nat) : List Nat :=
  (sameUpperPairs.filter fun p => p.1 == low).map (·.2)

/-- The code points that become the given small letter, or a small letter with the same capital,
in lower case. -/
def variants (low : Nat) : List Nat :=
  if low < 128 then
    let capital := if 97 ≤ low && low ≤ 122 then [low - 32] else []
    let others :=
      if low = 105 then [0x130, 0x131] else if low = 107 then [0x212A]
      else if low = 115 then [0x17F] else []
    low :: (capital ++ others)
  else (low :: sameUpper low).flatMap withLower

/-- Whether two small letters are one letter: the same, or with one capital. Of two that are both in
ASCII only the same are. -/
def sameLetter (low other : Nat) : Bool :=
  low == other || ((128 ≤ low || 128 ≤ other) && (sameUpper low).contains other)

def isCased (c : Char) : Bool :=
  if c.toNat < 128 then ('a' ≤ c && c ≤ 'z') || ('A' ≤ c && c ≤ 'Z')
  else inRanges casedRanges c.toNat

def isPassedOver (c : Char) : Bool :=
  if c.toNat < 128 then c == '\'' || c == '.' || c == ':' || c == '^' || c == '`'
  else inRanges passedOverRanges c.toNat

/-- Whether the nearest neighbour that counts has a case. -/
def nextIsCased (s : Text) : Bool :=
  match s.dropWhile isPassedOver with
  | [] => false
  | c :: _ => isCased c

/-- The lower case of a character between the text before it, read backwards, and the text after. -/
def lowerBetween (before : Text) (c : Char) (after : Text) : Text :=
  if c.toNat = 0x3A3 then
    [if nextIsCased before && !nextIsCased after then Char.ofNat 0x3C2 else Char.ofNat 0x3C3]
  else if c.toNat = 0x130 then ['i', Char.ofNat 0x307]
  else [lowerChar c]

def lowerFrom (before : Text) : Text → Text
  | [] => []
  | c :: cs => lowerBetween before c cs ++ lowerFrom (c :: before) cs

/-- The lower case of a text. -/
def lower (s : Text) : Text := lowerFrom [] s

end ConfigCare.Text
