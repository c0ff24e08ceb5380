import ConfigCare.Files.Tree
import ConfigCare.Settings.Section
import ConfigCare.Toml.Reader
/-!
Reading the settings: what a TOML file gives goes over what the variables say, and these go over
the defaults.
-/

namespace ConfigCare.Settings

/-- Why settings are not read. A section that nothing is given for fails by itself, under its own
name; else all faults are told together. -/
inductive ReadError where
  | variable (e : VariableError)
  | invalid (subject : Text) (issues : List Schema.Issue)
deriving DecidableEq

/-- The first line of what is told of faults. -/
def invalidMessage (subject : Text) (issues : List Schema.Issue) : Text :=
  let n := issues.length
  Text.lit (toString n) ++ Text.lit (if n = 1 then " validation error for " else " validation errors for ") ++ subject

def ReadError.message : ReadError → Text
  | .variable e => e.message
  | .invalid subject issues => invalidMessage subject issues

variable {α : Type}

/-- Reads a section from its value. A value that fails by the variables behind it is a fault at the
place of the section. -/
def sectionOf (s : Section α) (subject : Text) (env : Environment) (value : Option Data) :
    Except ReadError (Schema.Checked α) :=
  match value with
  | none =>
    match s.read env [] with
    | .ok a => .ok (.ok a)
    | .error (.variable e) => .error (.variable e)
    | .error (.invalid issues) => .error (.invalid subject issues)
  | some (.table es) =>
    match s.read env es with
    | .ok a => .ok (.ok a)
    | .error (.variable .depth) => .error (.variable .depth)
    | .error (.variable _) => .ok (.error [⟨[.key s.name], .unreadable⟩])
    | .error (.invalid issues) =>
      .ok (Schema.Checked.within (.key s.name) (.error issues))
  | some _ => .ok (.error [⟨[.key s.name], .notRecord⟩])

/-- The fields outside all sections, and the sections as fields. -/
def topFields : List Field :=
  [⟨Text.lit "concurrency", false⟩, ⟨scannerSection.name, false⟩, ⟨formatterSection.name, false⟩,
    ⟨loggingSection.name, false⟩]

/-- What the variables say about all fields. -/
def variableValues (env : Environment) : Except VariableError Entries := do
  let concurrency := (env.get? (variablePrefix ++ Text.lit "concurrency")).map fun value =>
    Data.text (WideText.ofText value)
  let scanner ← sectionValue variablePrefix scannerSection.name scannerSection.fields env
  let formatter ← sectionValue variablePrefix formatterSection.name formatterSection.fields env
  let logging ← sectionValue variablePrefix loggingSection.name loggingSection.fields env
  return [(Text.lit "concurrency", concurrency), (scannerSection.name, scanner),
    (formatterSection.name, formatter), (loggingSection.name, logging)].filterMap fun e =>
      e.2.map fun d => (WideText.ofText e.1, d)

/-- Reads the settings from given entries and variables. -/
def read (env : Environment) (es : Entries) : Except ReadError Settings :=
  match variableValues env with
  | .error e => .error (.variable e)
  | .ok fromVariables => do
    let values := Data.mergeInto fromVariables (given topFields es)
    let value (name : Text) : Option Data := Data.lookup? (WideText.ofText name) values
    let concurrency := Schema.withDefault values "concurrency" (Schema.atLeast 1) 1
    let scanner ← sectionOf scannerSection (Text.lit "ScannerSettings") env (value scannerSection.name)
    let formatter ←
      sectionOf formatterSection (Text.lit "FormatterSettings") env (value formatterSection.name)
    let logging ← sectionOf loggingSection (Text.lit "LoggingSettings") env (value loggingSection.name)
    match (((Schema.Checked.apply
        (.ok fun (c : Nat) s f l => (⟨c, s, f, l⟩ : Settings)) concurrency).apply scanner).apply
        formatter).apply logging with
    | .ok settings => .ok settings
    | .error issues => .error (.invalid (Text.lit "Settings") issues)

/-- Why settings are not loaded from a file. -/
inductive LoadError where
  | access (e : Files.AccessError)
  | encoding (e : Utf8.DecodeError)
  | toml (e : Toml.ReadError)
  | settings (e : ReadError)

def LoadError.message : LoadError → Text
  | .access e => e.message
  | .encoding e => e.message
  | .toml (.malformed e) => e.message
  | .toml (.digits count) => Json.tooManyDigits count
  | .toml .depth => Text.lit "maximum recursion depth exceeded"
  | .settings e => e.message

/-- Reads the settings from the content of a TOML file. -/
def ofToml (env : Environment) (content : Text) : Except LoadError Settings :=
  match Toml.read content with
  | .error e => .error (.toml e)
  | .ok es => (read env es).mapError .settings

/-- Loads the settings from a file, if one is given and exists. -/
def load (env : Environment) (disk : Files.Disk) (file : Option Files.Path) :
    Except LoadError Settings :=
  match file.bind fun p => (disk.find? p).map fun _ => p with
  | none => (read env []).mapError .settings
  | some p =>
    match disk.read p with
    | .error e => .error (.access e)
    | .ok content =>
      match Utf8.decode content with
      | .error e => .error (.encoding e)
      | .ok s => ofToml env s

end ConfigCare.Settings
