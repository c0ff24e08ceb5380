import ConfigCare.Json.Reader
import ConfigCare.Regex.Search
import ConfigCare.Schema.Check
/-!
The rules that secrets are found by, the globs of files to leave out, and the extensions of files to
look into. A registry is read from JSON, and there is one that is built in.
-/

namespace ConfigCare.Secret

/-- A rule by its name and the text of its pattern. With keywords, one of them has to be near. -/
structure Rule where
  name : Text
  pattern : Text
  keywords : Option (List Text)
  description : Text
deriving DecidableEq

structure Registry where
  rules : List Rule
  ignoreGlobs : List Text
  extensions : List Text
deriving DecidableEq

namespace Registry

def defaultGlobs : List Text :=
  [Text.lit "**/node_modules/**", Text.lit "**/.git/**", Text.lit "**/dist/**"]

def defaultExtensions : List Text :=
  [Text.lit ".json", Text.lit ".yaml", Text.lit ".yml", Text.lit ".toml", Text.lit ".env"]

def defaultRules : List Rule :=
  [⟨Text.lit "Generic API Key",
    Text.lit "(?i)api[-_]?key[\"']?\\s*[:=]\\s*[\"'][A-Za-z0-9_-]\x7b16,\x7d[\"']",
    none, Text.lit "Generic API Key pattern"⟩,
   ⟨Text.lit "Generic Secret",
    Text.lit "(?i)secret[\"']?\\s*[:=]\\s*[\"'][A-Za-z0-9_-]\x7b8,\x7d[\"']",
    none, Text.lit "Generic Secret pattern"⟩,
   ⟨Text.lit "Generic Password",
    Text.lit "(?i)password[\"']?\\s*[:=]\\s*[\"'][^\"']\x7b4,\x7d[\"']",
    none, Text.lit "Generic Password pattern"⟩]

/-- The registry that is built in. -/
def builtIn : Registry := ⟨defaultRules, defaultGlobs, defaultExtensions⟩

end Registry

open Schema in
/-- Checks a rule. -/
def Rule.check : Data → Checked Rule :=
  record fun es =>
    (((Checked.apply (.ok Rule.mk) (required es "name" nonEmptyText)).apply
      (required es "pattern" nonEmptyText)).apply
      (withDefault es "context" (optional (tuple 0 text)) none)).apply
      (withDefault es "description" text [])

namespace Registry

open Schema in
/-- Checks a registry given by its own parts. -/
def check : Data → Checked Registry :=
  record fun es =>
    ((Checked.apply (.ok Registry.mk) (required es "patterns" (tuple 1 Rule.check))).apply
      (withDefault es "ignore_globs" (tuple 0 text) [])).apply
      (withDefault es "file_extensions" (tuple 0 text) [])

open Schema in
/-- Checks a registry as it is written in a file, where absent parts are those of the built-in
one. -/
def checkFile : Data → Checked Registry :=
  record fun es =>
    ((Checked.apply (.ok Registry.mk) (required es "patterns" (list 1 Rule.check))).apply
      (renamed es "ignorePatterns" "ignore_patterns" (list 0 text) defaultGlobs)).apply
      (renamed es "fileExtensions" "file_extensions" (list 0 text) defaultExtensions)

end Registry

/-- Why a text is no registry. Only the first two are faults of the text; the others are limits of
reading. -/
inductive RegistryError where
  | malformed (e : Json.SyntaxError)
  | invalid (issues : List Schema.Issue)
  | limit (e : Json.ReadError)

namespace Registry

/-- Reads a registry; extensions are kept in lower case. -/
def parse (s : Text) : Except RegistryError Registry :=
  match Json.read false s with
  | .error (.malformed e) => .error (.malformed e)
  | .error e => .error (.limit e)
  | .ok d =>
    match checkFile d with
    | .error issues => .error (.invalid issues)
    | .ok r => .ok { r with extensions := r.extensions.map Text.lower }

end Registry

/-- A rule that can be searched for; its keywords are in lower case. -/
structure CompiledRule where
  rule : Rule
  pattern : Regex.Pattern
  keywords : List Text

namespace CompiledRule

/-- Compiles a rule, if its pattern is a regular expression. -/
def ofRule? (r : Rule) : Except Regex.Refusal (Option CompiledRule) :=
  match Regex.Pattern.parse r.pattern with
  | .ok p => .ok (some ⟨r, p, (r.keywords.getD []).map Text.lower⟩)
  | .error (.refused cause) => .error cause
  | .error _ => .ok none

end CompiledRule

/-- The rules that can be searched for, in order. One that is malformed is left out; one that is
refused leaves none. -/
def compile : List Rule → Except Regex.Refusal (List CompiledRule)
  | [] => .ok []
  | r :: rs =>
    match CompiledRule.ofRule? r with
    | .error e => .error e
    | .ok c =>
      match compile rs with
      | .error e => .error e
      | .ok cs => .ok (c.toList ++ cs)

end ConfigCare.Secret
