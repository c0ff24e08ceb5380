import ConfigCare.Schema.Check
import ConfigCare.Settings.Basic
import ConfigCare.Settings.Environment
/-!
The sections of the settings: their fields and how the values given for them are checked. A section
takes what is given for it first and then what its own variables say, and knows no other keys than
its fields.
-/

namespace ConfigCare.Settings

/-- A section by its name, its fields and the check of their values. -/
structure Section (α : Type) where
  name : Text
  fields : List Field
  check : Entries → Schema.Checked α

/-- Why a section is not read. -/
inductive SectionError where
  | variable (e : VariableError)
  | invalid (issues : List Schema.Issue)
deriving DecidableEq

open Schema (required withDefault optional list truth text)

def scannerSection : Section Scanner where
  name := Text.lit "scanner"
  fields := [⟨Text.lit "patterns_file", false⟩, ⟨Text.lit "report_file", false⟩]
  check es :=
    (Schema.Checked.apply (.ok Scanner.mk)
      (withDefault es "patterns_file" text Scanner.default.patternsFile)).apply
      (withDefault es "report_file" text Scanner.default.reportFile)

def formatterSection : Section Formatter where
  name := Text.lit "formatter"
  fields := [⟨Text.lit "extensions", true⟩, ⟨Text.lit "ignore_globs", true⟩,
    ⟨Text.lit "strict_jsonc", false⟩]
  check es :=
    ((Schema.Checked.apply (.ok Formatter.mk)
      (withDefault es "extensions" (list 0 text) Formatter.default.extensions)).apply
      (withDefault es "ignore_globs" (list 0 text) Formatter.default.ignoreGlobs)).apply
      (withDefault es "strict_jsonc" truth Formatter.default.strict)

def loggingSection : Section Logging where
  name := Text.lit "logging"
  fields := [⟨Text.lit "level", false⟩, ⟨Text.lit "format", false⟩, ⟨Text.lit "file", false⟩]
  check es :=
    ((Schema.Checked.apply (.ok Logging.mk)
      (withDefault es "level" text Logging.default.level)).apply
      (withDefault es "format" text Logging.default.format)).apply
      (withDefault es "file" (optional text) Logging.default.file)

/-- The prefix of every variable. -/
def variablePrefix : Text := Text.lit "cfgw_"

/-- Given entries under the names of fields. Of keys for one field its own name counts first, then
the first of those that differ in case. -/
def given (fields : List Field) (es : Entries) : Entries :=
  fields.filterMap (fun f =>
    let name := WideText.ofText f.name
    match Data.lookup? name es with
    | some d => some (name, d)
    | none => (es.find? fun e => f.isNamed e.1).map fun e => (name, e.2)) ++
  es.filter fun e => !fields.any fun f => f.isNamed e.1

namespace Section

variable {α : Type}

/-- Faults of the keys that are no fields. A key with half a surrogate pair cannot be told. -/
def unknownKeys (s : Section α) (es : Entries) : List Schema.Issue :=
  (es.filter fun e => !s.fields.any fun f => WideText.ofText f.name = e.1).map fun e =>
    ⟨[.key ((WideText.text? e.1).getD [])], .unknownKey⟩

/-- Reads a section from what is given for it and from its own variables. -/
def read (s : Section α) (env : Environment) (es : Entries) : Except SectionError α :=
  match ownValues (variablePrefix ++ s.name ++ ['_']) env s.fields with
  | .error e => .error (.variable e)
  | .ok own =>
    let values := Data.mergeInto own (given s.fields es)
    match s.check values, s.unknownKeys values with
    | .ok a, [] => .ok a
    | .ok _, unknown => .error (.invalid unknown)
    | .error issues, unknown => .error (.invalid (issues ++ unknown))

end Section

end ConfigCare.Settings
