import ConfigCare.Text.Basic
import ConfigCare.Number.Binary64
/-!
The shortest decimal that reads back as a given binary number, and its text.
-/

namespace ConfigCare.Binary64

/-- The reals that round to `mantissa · 2 ^ exponent`, and the number itself, in quarters of a unit
in its last place. A power of two has a lower half of half the width. -/
structure Neighbourhood where
  low : Nat
  value : Nat
  high : Nat
  closed : Bool

def neighbourhood (m : Nat) (e : Int) : Neighbourhood where
  low := if m = Nat.pow 2 52 && e > -1074 then 4 * m - 1 else 4 * m - 2
  value := 4 * m
  high := 4 * m + 2
  closed := m % 2 = 0

/-- The number of digits before the point of `num / den`, negative for leading zeros after it. -/
def wholeDigits (num den : Nat) : Int :=
  let guess : Int := (((num.log2 : Int) - den.log2) * 30103) / 100000
  let reaches (d : Int) : Bool :=
    if 0 ≤ d then Nat.pow 10 d.toNat * den ≤ num else den ≤ num * Nat.pow 10 (-d).toNat
  if reaches (guess + 1) then guess + 2
  else if reaches guess then guess + 1
  else if reaches (guess - 1) then guess
  else guess - 1

/-- The decimal with `count` digits nearest to the value, if one of the two around it lies in the
neighbourhood; `unit` is the size of a quarter as a fraction. -/
def decimalWith (h : Neighbourhood) (unit : Nat × Nat) (whole : Int) (count : Nat) :
    Option (Nat × Int) :=
  let k := whole - count
  -- a quarter in units of `10 ^ k`
  let (num, den) := if 0 ≤ k then (unit.1, unit.2 * Nat.pow 10 k.toNat) else (unit.1 * Nat.pow 10 (-k).toNat, unit.2)
  let q := h.value * num / den
  let inside (d : Nat) : Bool :=
    if h.closed then h.low * num ≤ d * den && d * den ≤ h.high * num
    else h.low * num < d * den && d * den < h.high * num
  let below := h.value * num - q * den
  match inside q, inside (q + 1) with
  | false, false => none
  | true, false => some (q, k)
  | false, true => some (q + 1, k)
  | true, true => some (if 2 * below < den || (2 * below = den && q % 2 = 0) then q else q + 1, k)

/-- The fewest digits that read back, the nearest such decimal: digits and power of ten. -/
def shortest (m : Nat) (e : Int) : Nat × Int :=
  let h := neighbourhood m e
  let unit := scaled 1 1 (e - 2)
  let whole := wholeDigits (h.value * unit.1) unit.2
  ((List.range 17).findSome? fun i => decimalWith h unit whole (i + 1)).getD (0, 0)

/-- How a decimal is laid out. -/
structure Layout where
  /-- Places of the point, counted from the first digit, at which no exponent is written. -/
  leastPoint : Int
  greatestPoint : Int
  exponentDigits : Nat

/-- The point stands in the digits from `1e-4` up to below `1e16`; an exponent has a sign and two
digits at least. -/
def plain : Layout := ⟨-3, 16, 2⟩

def Layout.exponentText (l : Layout) (x : Int) : Text :=
  let digits := Nat.toDigits 10 x.natAbs
  ['e', if x < 0 then '-' else '+'] ++ List.replicate (l.exponentDigits - digits.length) '0' ++ digits

/-- The text of `digits · 10 ^ (point - number of digits)`. -/
def Layout.text (l : Layout) (digits : Text) (point : Int) : Text :=
  let n : Int := digits.length
  if point < l.leastPoint || l.greatestPoint < point then
    match digits with
    | [] => []
    | [d] => d :: l.exponentText (point - 1)
    | d :: ds => d :: '.' :: ds ++ l.exponentText (point - 1)
  else if point ≤ 0 then Text.lit "0." ++ List.replicate (-point).toNat '0' ++ digits
  else if n ≤ point then digits ++ List.replicate (point - n).toNat '0' ++ Text.lit ".0"
  else digits.take point.toNat ++ '.' :: digits.drop point.toNat

/-- Drops the zeros at the end of a row of digits. -/
def dropLastZeros (digits : Text) : Text := (digits.reverse.dropWhile (· == '0')).reverse

def text : Binary64 → Text
  | .notANumber => Text.lit "NaN"
  | .infinite negative => (if negative then ['-'] else []) ++ Text.lit "Infinity"
  | .finite negative m e =>
    let sign := if negative then ['-'] else []
    if m = 0 then sign ++ Text.lit "0.0"
    else
      let (digits, k) := shortest m e
      let row := Nat.toDigits 10 digits
      sign ++ plain.text (dropLastZeros row) (row.length + k)

end ConfigCare.Binary64
