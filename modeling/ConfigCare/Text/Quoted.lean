import ConfigCare.Text.Basic
import ConfigCare.Text.Ranges
import ConfigCare.Text.PrintableTable
/-!
A text quoted for a message: between single quotes, or double ones if it holds a single quote and
no double one; backslashes and characters without a visible form are escaped.
-/

namespace ConfigCare.Text

def hexDigit (n : Nat) : Char := if n < 10 then Char.ofNat (48 + n) else Char.ofNat (87 + n)

/-- The `width` lowest hexadecimal digits of a number, most significant first. -/
def hexDigits : Nat → Nat → Text
  | 0, _ => []
  | width + 1, n => hexDigits width (n / 16) ++ [hexDigit (n % 16)]

def isPrintable (c : Char) : Bool :=
  if c.toNat < 128 then 32 ≤ c.toNat && c.toNat < 127 else inRanges printableRanges c.toNat

def escapedCode (n : Nat) : Text :=
  if n < 0x100 then lit "\\x" ++ hexDigits 2 n
  else if n < 0x10000 then lit "\\u" ++ hexDigits 4 n
  else lit "\\U" ++ hexDigits 8 n

def quotedChar (quote c : Char) : Text :=
  if c = quote || c = '\\' then ['\\', c]
  else if c = '\n' then lit "\\n"
  else if c = '\r' then lit "\\r"
  else if c = '\t' then lit "\\t"
  else if isPrintable c then [c]
  else escapedCode c.toNat

def quoted (s : Text) : Text :=
  let quote := if s.contains '\'' && !s.contains '"' then '"' else '\''
  quote :: (s.flatMap (quotedChar quote) ++ [quote])

/-- What a codec says of characters in a row, given by their codes, that it cannot encode. -/
def encodeRefusal (codec : String) (position : Nat) (codes : List Nat) (reason : String) : Text :=
  let last := position + codes.length - 1
  let place :=
    match codes with
    | [code] => lit "character '" ++ escapedCode code ++ lit s!"' in position {position}"
    | _ => lit s!"characters in position {position}-{last}"
  lit s!"'{codec}' codec can't encode " ++ place ++ lit s!": {reason}"

end ConfigCare.Text
