import ConfigCare.Text.Position
/-!
Why a text is not read as JSON. A syntax error has a place; the other causes have none.
-/

namespace ConfigCare.Json

inductive Fault where
  | byteOrderMark
  | value
  | name
  | colon
  | comma
  | extra
  | unterminated
  | control
  | escape
  | unicodeEscape
deriving DecidableEq

def Fault.text : Fault → Text
  | .byteOrderMark => Text.lit "Unexpected UTF-8 BOM (decode using utf-8-sig)"
  | .value => Text.lit "Expecting value"
  | .name => Text.lit "Expecting property name enclosed in double quotes"
  | .colon => Text.lit "Expecting ':' delimiter"
  | .comma => Text.lit "Expecting ',' delimiter"
  | .extra => Text.lit "Extra data"
  | .unterminated => Text.lit "Unterminated string starting at"
  | .control => Text.lit "Invalid control character at"
  | .escape => Text.lit "Invalid \\escape"
  | .unicodeEscape => Text.lit "Invalid \\uXXXX escape"

/-- A fault and where it was found. -/
structure SyntaxError where
  fault : Fault
  offset : Nat
  position : Position
deriving DecidableEq

def SyntaxError.message (e : SyntaxError) : Text :=
  e.fault.text ++ Text.lit s!": line {e.position.line} column {e.position.column} (char {e.offset})"

/-- Why reading failed. Only what a text breaks by its form is a syntax error: integers of too many
digits and too many levels are limits, and the constants for what is not a number can be refused. -/
inductive ReadError where
  | malformed (e : SyntaxError)
  | constant (name : Text)
  | digits (count : Nat)
  | depth
deriving DecidableEq

/-- The most digits that an integer may have. -/
def digitLimit : Nat := 4300

def tooManyDigits (count : Nat) : Text :=
  Text.lit s!"Exceeds the limit ({digitLimit} digits) for integer string conversion: value has {count} digits; use sys.set_int_max_str_digits() to increase the limit"

def ReadError.message : ReadError → Text
  | .malformed e => e.message
  | .constant name => Text.lit "Non-standard JSON constant: " ++ name
  | .digits count => tooManyDigits count
  | .depth => Text.lit "maximum recursion depth exceeded"

end ConfigCare.Json
