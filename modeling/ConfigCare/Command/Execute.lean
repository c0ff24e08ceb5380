import ConfigCare.Command.Basic
import ConfigCare.Log.Journal
import ConfigCare.Project.Format
import ConfigCare.Project.Scan
import ConfigCare.Report.Console
import ConfigCare.Report.Document
import ConfigCare.Report.Terminal
import ConfigCare.Settings.Load
/-!
Executing a command: what it prints, how it ends, and which files it leaves behind. It ends with 0
if all is well, with 1 if secrets were found or a check failed, and with 2 if it could not be done.
-/

namespace ConfigCare.Command

open Files

/-- What is there when a command starts. The screen is 120 columns wide, whatever number the
environment gives. -/
structure World where
  disk : Disk
  /-- The environment, each name once. -/
  environment : List (Text × Text)
  /-- The encoding of standard output. -/
  encoding : Report.Encoding
  /-- The time that a report carries. -/
  now : Moment

/-- What a command has done so far. -/
structure Progress where
  disk : Disk
  printed : List Text

/-- How a command ended. What stopped it is told if it could be started at all and the command caught
it. -/
structure Ended where
  exit : Nat
  printed : List Text
  fatal : Option Text
  disk : Disk

/-- A part of a command, which a message can stop. -/
abbrev Action (α : Type) := Progress → Progress × Except Text α

def Action.andThen {α β : Type} (a : Action α) (f : α → Action β) : Action β := fun p =>
  match a p with
  | (p, .ok x) => f x p
  | (p, .error e) => (p, .error e)

def Action.return {α : Type} (x : α) : Action α := fun p => (p, .ok x)

instance : Monad Action where
  pure := Action.return
  bind := Action.andThen

/-- Goes on with a value, or stops with the message of an error. -/
def succeed {ε α : Type} (message : ε → Text) (r : Except ε α) : Action α := fun p =>
  (p, r.mapError message)

/-- Prints one text after another. The first that cannot be encoded stops it, and nothing of that one
is printed. -/
def say (e : Report.Encoding) : List Report.Screen.Print → Action Unit
  | [] => pure ()
  | t :: ts => do
    succeed id (e.print t)
    fun p => say e ts { p with printed := p.printed ++ t }

def theDisk : Action Disk := fun p => (p, .ok p.disk)

def setDisk (d : Disk) : Action Unit := fun p => ({ p with disk := d }, .ok ())

/-- Makes a console to print on. -/
def makeConsole (w : World) : Action Unit := succeed id (Report.openConsole w.environment)

/-- Loads the settings, opens the log and sets up the project. A log that people read is shown on a
console of its own. -/
def prepare (w : World) (root : Text) (settingsFile patternsFile : Option Text) (verbose : Bool)
    (strict : Option Bool) : Action Project := do
  let disk ← theDisk
  let settings ← succeed Settings.LoadError.message
    (Settings.load (.ofVariables w.environment) disk (settingsFile.map Path.ofText))
  let log := Log.Setup.ofSettings settings.logging verbose
  if log.display = .people then makeConsole w
  match log.file with
  | none => pure ()
  | some file => setDisk (← succeed AccessError.message (Log.openLog disk file))
  return Project.create ((Path.ofText root).resolve disk.here) settings
    (patternsFile.map Path.ofText) none strict

/-- The paths, besides the root, that a command reads or writes before its settings are known. -/
def givenPaths : Command → List Path
  | .scan _ settings config report _ _ =>
    (settings.toList ++ config.toList ++ report.toList).map Path.ofText
  | .format _ settings _ _ _ => settings.toList.map Path.ofText
  | .run _ settings _ _ _ _ => settings.toList.map Path.ofText
  | .patterns _ settings config => (settings.toList ++ config.toList).map Path.ofText
  | _ => []

/-- The paths that the settings name. -/
def settingsPaths (p : Project) (tree : Entry) : List Path :=
  p.patternsPath tree :: p.reportPath tree :: p.settings.logging.file.toList.map Path.ofText

/-- Writes a report and tells where. -/
def writeReport (w : World) (r : Secret.ScanResult) (path : Path) : Action Unit := do
  let report ← succeed Json.WriteError.message (Report.Document.render w.now r true)
  setDisk (← succeed AccessError.message ((← theDisk).write path (Utf8.encode report)))
  let told ← succeed Report.Markup.Unmatched.message (Report.Console.reportSaved path.text)
  say w.encoding [told]

/-- Searches for secrets and tells whether there are any. -/
def search (w : World) (p : Project) (verbose : Bool) (report : Option Path) : Action Bool := do
  makeConsole w
  say w.encoding (Report.Console.info verbose (Text.lit "Starting secrets detection..."))
  let r ← succeed Project.ScanError.message (p.scan (← theDisk) [])
  say w.encoding (Report.Console.scanResult w.encoding.frames verbose r)
  match report with
  | none => pure ()
  | some path => writeReport w r path
  return r.hasSecrets

/-- Formats files and tells whether a check failed. -/
def reformat (w : World) (p : Project) (check : Bool) : Action Bool := do
  makeConsole w
  let (disk, r) := p.format (← theDisk) [] check
  setDisk disk
  let s ← succeed Project.FormatError.message r
  say w.encoding (Report.Console.formatSummary w.encoding.frames s check)
  return s.needsAttention check

/-- A task of a combined run: whether it passed is what its action tells. -/
structure Task where
  name : Text
  action : Action Bool

/-- The tasks of a combined run: both if none is asked for. -/
def tasks (w : World) (p : Project) (secrets layout check verbose : Bool) : List Task :=
  let all := !(secrets || layout)
  (if all || secrets then
      [⟨Text.lit "Secrets Detection", fun s =>
        Action.andThen (search w p verbose none) (fun found => pure !found) s⟩] else []) ++
    if all || layout then
      [⟨Text.lit "Format Configuration Files", fun s =>
        Action.andThen (reformat w p check) (fun failed => pure !failed) s⟩] else []

/-- Carries out a step and tells how long it took in nanoseconds. -/
abbrev Timer (m : Type → Type) :=
  (Unit → Progress × Except Text Bool) → m ((Progress × Except Text Bool) × Nat)

/-- A timer that takes no time. -/
def instant : Timer Id := fun f => (f (), 0)

variable {m : Type → Type} [Monad m]

/-- Carries out tasks one after another; the first that is stopped stops all. -/
def perform (timed : Timer m) (p : Progress) :
    List Task → m (Progress × Except Text (List (Text × Bool × Nat)))
  | [] => pure (p, .ok [])
  | t :: ts => do
    match ← timed fun _ => t.action p with
    | ((p, .error e), _) => return (p, .error e)
    | ((p, .ok passed), time) =>
      let (p, rest) ← perform timed p ts
      return (p, rest.map ((t.name, passed, time) :: ·))

def milliseconds (nanoseconds : Nat) : Binary64 := Binary64.ofFraction false nanoseconds 1000000

/-- What is printed of the tasks of a combined run. -/
def taskSummary (frames : Report.Screen.Frames) (results : List (Text × Bool × Nat)) :
    List Report.Screen.Print :=
  Report.Console.taskSummary frames
    (results.map fun r =>
      ⟨r.1, r.2.1, milliseconds r.2.2, if r.2.1 then none else some (Text.lit "issues found")⟩)
    (milliseconds (results.foldl (fun t r => t + r.2.2) 0))

/-- What lists the rules of a registry. -/
def registryLines (source : Path) (r : Secret.Registry) : List Report.Screen.Print :=
  let joined := Text.joinWith [',', ' ']
  let line (rule : Secret.Rule) : Text :=
    Text.lit "  • " ++ rule.name ++ Text.lit " - " ++ rule.description ++
      match rule.keywords with
      | none => []
      | some [] => []
      | some ks => Text.lit " [context: " ++ joined ks ++ [']']
  let text := [Text.lit "Pattern source: " ++ source.text, []] ++ r.rules.map line ++
    [[], Text.lit "Extensions: " ++ joined r.extensions,
      Text.lit "Ignored: " ++ joined r.ignoreGlobs,
      Text.lit "Total: " ++ Text.lit (toString r.rules.length) ++ Text.lit " patterns"]
  text.map (Text.splitOn '\n')

/-- Loads the rules of a project and gives what lists them. -/
def listRules (p : Project) : Action (List Report.Screen.Print) := do
  let disk ← theDisk
  let path := p.patternsPath disk.tree
  let r ← succeed Secret.Registry.LoadError.message (Secret.Registry.load disk (some path))
  return registryLines path r

/-- How an action ends that tells whether there is something to look at. -/
def ended (r : Progress × Except Text Bool) : Ended :=
  match r with
  | (p, .ok issues) => ⟨if issues then 1 else 0, p.printed, none, p.disk⟩
  | (p, .error e) => ⟨2, p.printed, some e, p.disk⟩

/-- How a command ends behind the part that catches what stops it: an error there ends it with 1, and
is not told as others are. -/
def uncaught (exit : Nat) (r : Progress × Except Text Unit) : Ended :=
  match r with
  | (p, .ok ()) => ⟨exit, p.printed, none, p.disk⟩
  | (p, .error _) => ⟨1, p.printed, none, p.disk⟩

/-- Whether a root is there. One that ends in a slash has to be a folder. -/
def rootExists (d : Disk) (root : Text) : Bool :=
  let last := ((Text.splitOn '/' root).getLast?).getD []
  match root, d.find? (.ofText root) with
  | [], _ => false
  | _, none => false
  | _, some (.folder _) => true
  | _, some (.file _) => !(last = [] || last = ['.'])

/-- An end without anything done. -/
def Ended.plain (exit : Nat) (printed : List Text) (d : Disk) : Ended := ⟨exit, printed, none, d⟩

def versionLine : Text := Text.lit "Config Warden v0.1.0"

/-- The root of a command that has one. -/
def root? : Command → Option Text
  | .scan root .. | .format root .. | .run root .. | .patterns root .. => some root
  | _ => none

/-- Executes the tasks of a combined run once the project is prepared. What stops a task is caught,
but not what stops the making of the console for the summary, nor what stops the summary. -/
def executeTasks (timed : Timer m) (w : World) (prepared : Progress × Except Text (List Task)) :
    m Ended := do
  match prepared with
  | (p, .error e) => return ⟨2, p.printed, some e, p.disk⟩
  | (p, .ok ts) =>
    match makeConsole w p with
    | (p, .error e) => return uncaught 1 (p, .error e)
    | (p, .ok ()) =>
      match ← perform timed p ts with
      | (p, .error e) => return ⟨2, p.printed, some e, p.disk⟩
      | (p, .ok results) =>
        return uncaught (if results.all (·.2.1) then 0 else 1)
          (say w.encoding (taskSummary w.encoding.frames results) p)

/-- Executes a command. -/
def execute (timed : Timer m) (w : World) (c : Command) : m Ended :=
  let start : Progress := ⟨w.disk, []⟩
  if !(c.root?.all (rootExists w.disk)) then return .plain 2 [] w.disk
  else
    match c with
    | .help => return .plain 0 [] w.disk
    | .version => return .plain 0 [versionLine] w.disk
    | .scan root settings config report json verbose =>
      let action : Action Bool := do
        let p ← prepare w root settings config verbose none
        let disk ← theDisk
        let path := match report with
          | some r => some (Path.ofText r)
          | none => if json then some (p.reportPath disk.tree) else none
        search w p verbose path
      return ended (action start)
    | .format root settings check strict verbose =>
      let action : Action Bool := do
        let p ← prepare w root settings none verbose (if strict then some true else none)
        reformat w p check
      return ended (action start)
    | .run root settings secrets layout check verbose =>
      let prepared : Action (List Task) := do
        let p ← prepare w root settings none verbose none
        return tasks w p secrets layout check verbose
      executeTasks timed w (prepared start)
    | .patterns root settings config =>
      let listed : Action (List Report.Screen.Print) := do
        listRules (← prepare w root settings config false none)
      match listed start with
      | (p, .error e) => return ⟨2, p.printed, some e, p.disk⟩
      | (p, .ok ts) => return uncaught 0 (say w.encoding.forLines ts p)

/-- Executes the command that arguments stand for. Those that stand for none end with 2. -/
def executeArguments (timed : Timer m) (w : World) (args : List Text) : m Ended :=
  match ofArguments? args with
  | none => return .plain 2 [] w.disk
  | some c => execute timed w c

end ConfigCare.Command
