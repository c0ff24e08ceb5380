import ConfigCare.Data
import ConfigCare.Json.Error
import ConfigCare.Report.Screen
import ConfigCare.Text.Letter
import ConfigCare.Text.Quoted
/-!
What a program prints on: the encoding of its standard output, and a screen whose size the
environment can tell. A console cannot be made of every environment, and an encoding does not have
every character.
-/

namespace ConfigCare.Report

open Text (lit)

/-- The encoding of standard output. -/
inductive Encoding where
  /-- One that has every character and whose name says so. -/
  | utf
  | ascii
  /-- Another one: the characters that it has beyond those of ASCII, and what it says of a text with
  characters that it does not have. -/
  | other (has : Char → Bool) (refusal : Text → Text)

namespace Encoding

def isAscii (c : Char) : Bool := c.toNat < 128

def has : Encoding → Char → Bool
  | .utf, _ => true
  | .ascii, c => isAscii c
  | .other has _, c => isAscii c || has c

/-- What is said of a text that cannot be encoded. -/
def refusal : Encoding → Text → Text
  | .utf, _ => []
  | .ascii, s =>
    let before := s.takeWhile isAscii
    let refused := (s.drop before.length).takeWhile fun c => !isAscii c
    Text.encodeRefusal "ascii" before.length (refused.map Char.toNat) "ordinal not in range(128)"
  | .other _ refusal, s => refusal s

/-- Frames are drawn only where the name of the encoding tells that it has their characters. -/
def frames : Encoding → Screen.Frames
  | .utf => .drawn
  | _ => .ascii

/-- Plain lines are printed in another encoding if it is ASCII, which is taken for a mistake. -/
def forLines : Encoding → Encoding
  | .ascii => .utf
  | e => e

/-- A console adds a line to what is said of a text. -/
def hint : Text :=
  lit "\n*** You may need to add PYTHONIOENCODING=utf-8 to your environment ***"

/-- Prints a text, if all of it can be encoded. -/
def print (e : Encoding) (p : Screen.Print) : Except Text Unit :=
  if p.text.all e.has then .ok () else .error (e.refusal p.text ++ hint)

end Encoding

/-- Why the number of columns or lines in the environment is not read. It is read if it consists of
digits; but not all of these stand in a number. -/
def sizeFault? (size : Text) : Option Text :=
  let count := (size.takeWhile Text.isDecimal).length
  if size.isEmpty || !size.all Text.isDigit then none
  else if Json.digitLimit < count then some (Json.tooManyDigits count)
  else if size.all Text.isDecimal then none
  else some (lit "invalid literal for int() with base 10: " ++ (Text.quoted size).take 200)

/-- Makes a console in an environment. -/
def openConsole (environment : List (Text × Text)) : Except Text Unit :=
  let fault? (name : String) := (Data.lookup? (lit name) environment).bind sizeFault?
  match (fault? "COLUMNS").or (fault? "LINES") with
  | none => .ok ()
  | some e => .error e

end ConfigCare.Report
