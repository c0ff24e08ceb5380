import ConfigCare.Data
import ConfigCare.Json.Reader
import ConfigCare.Text.Case
/-!
Settings that are taken from environment variables. A variable sets a field by itself, a section
as a JSON table, or one field of a section behind two underscores. Which variable counts, and what is
made of a value, is as in pydantic-settings, by the version that is installed beside pydantic 2.14.
-/

namespace ConfigCare.Settings

/-- Variables by their names in lower case. -/
abbrev Environment := List (Text × Text)

namespace Environment

/-- Of variables whose names differ in case only, the last one counts. -/
def ofVariables (vars : List (Text × Text)) : Environment :=
  Data.ofMembers (vars.map fun v => (Text.lower v.1, v.2))

def get? (env : Environment) (name : Text) : Option Text := Data.lookup? name env

end Environment

/-- A field of a section: its name, and whether it holds a list. Lists are given as JSON. -/
structure Field where
  name : Text
  isList : Bool

/-- Whether a key means a field. -/
def Field.isNamed (f : Field) (key : WideText) : Bool :=
  match WideText.text? key with
  | some t => Text.lower t = f.name
  | none => false

/-- Why variables are not read: JSON that is none, for a field or section, or JSON nested too
deeply. -/
inductive VariableError where
  | notJson (field : Text)
  | depth
deriving DecidableEq

def VariableError.message : VariableError → Text
  | .notJson field =>
    Text.lit "error parsing value for field \"" ++ field ++
      Text.lit "\" from source \"EnvSettingsSource\""
  | .depth => Text.lit "maximum recursion depth exceeded"

/-- Reads the value of a variable as JSON, for a field that is told in the error. -/
def decoded (field value : Text) : Except VariableError Data :=
  match Json.read false value with
  | .ok d => .ok d
  | .error .depth => .error .depth
  | .error _ => .error (.notJson field)

/-- The values of single variables for the fields of a section, by its own prefix. -/
def ownValues (start : Text) (env : Environment) : List Field → Except VariableError Entries
  | [] => .ok []
  | f :: fs =>
    match env.get? (start ++ f.name) with
    | none => ownValues start env fs
    | some value =>
      match if f.isList then decoded f.name value else .ok (.text (WideText.ofText value)) with
      | .error e => .error e
      | .ok .null => ownValues start env fs
      | .ok d => (ownValues start env fs).map ((WideText.ofText f.name, d) :: ·)

/-- The pieces of a name between pairs of underscores. -/
def nameParts (s : Text) : List Text :=
  go [] s
where
  go (piece : Text) : Text → List Text
    | '_' :: '_' :: cs => piece.reverse :: go [] cs
    | c :: cs => go (c :: piece) cs
    | [] => [piece.reverse]

/-- Sets what lies at a path of keys. A value that is no table stays as it is. -/
def setPath (value : Data) : List Text → Entries → Entries
  | [], es => es
  | [k], es => Data.setKey (WideText.ofText k) value es
  | k :: ks, es =>
    let key := WideText.ofText k
    match Data.lookup? key es with
    | none => Data.setKey key (.table (setPath value ks [])) es
    | some (.table inner) => Data.setKey key (.table (setPath value ks inner)) es
    | some _ => es

/-- The value that a variable gives to a field of a section, which is JSON if the field is a list
and the variable is not empty. -/
def nestedValue (owner : Text) (fields : List Field) (path : List Text) (value : Text) :
    Except VariableError Data :=
  let isList := match path with
    | [k] => fields.any fun f => f.name = k && f.isList
    | _ => false
  if isList && !value.isEmpty then decoded owner value else .ok (.text (WideText.ofText value))

/-- What the variables behind the prefix of a section set in it. -/
def nestedValues (owner start : Text) (fields : List Field) (es : Entries) :
    Environment → Except VariableError Entries
  | [] => .ok es
  | (name, value) :: env =>
    match Text.dropStart? start name with
    | none => nestedValues owner start fields es env
    | some rest =>
      let path := nameParts rest
      match nestedValue owner fields path value with
      | .error e => .error e
      | .ok d => nestedValues owner start fields (setPath d path es) env

/-- The entries of a section under the names of its fields. -/
def fieldNames (fields : List Field) (es : Entries) : Entries :=
  Data.ofMembers (es.map fun e =>
    match fields.find? fun f => f.isNamed e.1 with
    | some f => (WideText.ofText f.name, e.2)
    | none => e)

/-- What all the variables say about a section, if anything. -/
def sectionValue (start owner : Text) (fields : List Field) (env : Environment) :
    Except VariableError (Option Data) :=
  let nested := nestedValues owner (start ++ owner ++ ['_', '_']) fields [] env
  match env.get? (start ++ owner) with
  | none =>
    match nested with
    | .error e => .error e
    | .ok [] => .ok none
    | .ok es => .ok (some (.table (fieldNames fields es)))
  | some value =>
    match decoded owner value with
    | .error e => .error e
    | .ok (.table es) =>
      nested.map fun more => some (.table (fieldNames fields (Data.mergeInto es more)))
    | .ok .null => .ok none
    | .ok d => .ok (some d)

end ConfigCare.Settings
