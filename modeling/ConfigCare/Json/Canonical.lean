import ConfigCare.Json.Reader
import ConfigCare.Json.Writer
/-!
The canonical form of a JSON document: what is read, written again with two spaces for every
level and one line feed at the end.
-/

namespace ConfigCare.Json

/-- The canonical form of a value. -/
def canonicalText (v : Data) : WideText := write .indented v ++ [.char '\n']

/-- The canonical form of a strict JSON text. -/
def canonical (s : Text) : Except ReadError WideText := (read true s).map canonicalText

end ConfigCare.Json
