import ConfigCare.Format.Spacing
import ConfigCare.Json.Canonical
import ConfigCare.Jsonc.Nesting
import ConfigCare.Text.Case
/-!
Formatting a document by the extension of its file. JSON without comments takes its canonical
form; JSON that looks commented, or is not strict JSON, is only indented, so that no comment is
lost.
-/

namespace ConfigCare.Format

/-- The formats that a document can be laid out in. -/
inductive Kind where
  | json
  | jsonc
  | yaml
  | toml
deriving DecidableEq

/-- The extensions with a formatter, in the order in which they are listed. -/
def extensions : List (Text × Kind) :=
  [(Text.lit ".json", .json), (Text.lit ".jsonc", .jsonc), (Text.lit ".yaml", .yaml),
   (Text.lit ".yml", .yaml), (Text.lit ".toml", .toml)]

/-- The format of an extension in any case. -/
def Kind.ofExtension? (extension : Text) : Option Kind :=
  (extensions.find? fun e => e.1 = Text.lower extension).map (·.2)

/-- Indents JSON with comments, by the real nesting if `strict`. -/
def indented (strict : Bool) (s : Text) : Text :=
  if strict then Jsonc.reindentNested s else Jsonc.reindent s

/-- Formats JSON. A string with half a surrogate pair has no text to be written as. -/
def formatJson (strict : Bool) (s : Text) : Except LoneSurrogates Text :=
  if Jsonc.looksCommented s then .ok (indented strict s)
  else
    match Json.canonical s with
    | .ok t => WideText.encode t
    | .error _ => .ok (indented strict s)

def Kind.format (strict : Bool) (s : Text) : Kind → Except LoneSurrogates Text
  | .json => formatJson strict s
  | .jsonc => .ok (indented strict s)
  | .yaml => .ok (normalizeYaml s)
  | .toml => .ok (normalizeToml s)

/-- Formats a document; one with another extension stays as it is. -/
def document (s extension : Text) (strict : Bool) : Except LoneSurrogates Text :=
  match Kind.ofExtension? extension with
  | some kind => kind.format strict s
  | none => .ok s

end ConfigCare.Format
