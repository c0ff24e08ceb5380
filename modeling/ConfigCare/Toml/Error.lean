import ConfigCare.Text.Position
import ConfigCare.Text.Quoted
/-!
Why a text is not read as TOML.
-/

namespace ConfigCare.Toml

/-- A key with its parts between dots. -/
abbrev Key := List Text

inductive Fault where
  | statement
  | statementEnd
  | declaredTwice (key : Key)
  | overwritten
  | immutable (key : Key)
  | redefined (key : Key)
  | tableEnd
  | arrayEnd
  | equals
  | keyStart
  | arrayClose
  | inlineClose
  | duplicate (name : Text)
  | escape
  | hex
  | notScalar
  | unterminated
  | illegal (c : Char)
  | expected (delimiter : Text)
  | invalid (c : Char)
  | moment
  | value
deriving DecidableEq

/-- The parts of a key, quoted and in parentheses; a single part is followed by a comma. -/
def keyText (key : Key) : Text :=
  match key with
  | [part] => '(' :: Text.quoted part ++ [',', ')']
  | parts => '(' :: Text.joinWith [',', ' '] (parts.map Text.quoted) ++ [')']

def Fault.text : Fault → Text
  | .statement => Text.lit "Invalid statement"
  | .statementEnd => Text.lit "Expected newline or end of document after a statement"
  | .declaredTwice key => Text.lit "Cannot declare " ++ keyText key ++ Text.lit " twice"
  | .overwritten => Text.lit "Cannot overwrite a value"
  | .immutable key => Text.lit "Cannot mutate immutable namespace " ++ keyText key
  | .redefined key => Text.lit "Cannot redefine namespace " ++ keyText key
  | .tableEnd => Text.lit "Expected ']' at the end of a table declaration"
  | .arrayEnd => Text.lit "Expected ']]' at the end of an array declaration"
  | .equals => Text.lit "Expected '=' after a key in a key/value pair"
  | .keyStart => Text.lit "Invalid initial character for a key part"
  | .arrayClose => Text.lit "Unclosed array"
  | .inlineClose => Text.lit "Unclosed inline table"
  | .duplicate name => Text.lit "Duplicate inline table key " ++ Text.quoted name
  | .escape => Text.lit "Unescaped '\\' in a string"
  | .hex => Text.lit "Invalid hex value"
  | .notScalar => Text.lit "Escaped character is not a Unicode scalar value"
  | .unterminated => Text.lit "Unterminated string"
  | .illegal c => Text.lit "Illegal character " ++ Text.quoted [c]
  | .expected delimiter => Text.lit "Expected " ++ Text.quoted delimiter
  | .invalid c => Text.lit "Found invalid character " ++ Text.quoted [c]
  | .moment => Text.lit "Invalid date or datetime"
  | .value => Text.lit "Invalid value"

/-- A fault and where it was found, or nothing for the end of the text. -/
structure SyntaxError where
  fault : Fault
  position : Option Position
deriving DecidableEq

def SyntaxError.message (e : SyntaxError) : Text :=
  e.fault.text ++
    match e.position with
    | none => Text.lit " (at end of document)"
    | some p => Text.lit s!" (at line {p.line}, column {p.column})"

inductive ReadError where
  | malformed (e : SyntaxError)
  /-- An integer of too many digits. -/
  | digits (count : Nat)
  /-- Arrays or tables that are nested too deeply. -/
  | depth
deriving DecidableEq

end ConfigCare.Toml
