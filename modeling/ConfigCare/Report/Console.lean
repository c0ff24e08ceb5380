import ConfigCare.Format.Outcome
import ConfigCare.Number.Shortest
import ConfigCare.Report.Markup
import ConfigCare.Report.Screen
import ConfigCare.Secret.ScanResult
/-!
What is printed of a scan, of a format run and of several tasks together, print by print. Of secrets
only the masked form is printed.
-/

namespace ConfigCare.Report.Console

open Text (lit)
open Screen (Print Frames)

/-- The lines that markup is printed as. -/
def printed (markup : Text) : Print := Screen.lines (Markup.shown markup)

def emptyLine : Print := [[]]

def styled (style : String) (s : Text) : Text :=
  '[' :: lit style ++ ']' :: s ++ '[' :: '/' :: lit style ++ [']']

def number (n : Nat) : Text := lit (toString n)

/-- A label and a text behind it. -/
def labelled (indent : Nat) (style : String) (label s : Text) : Print :=
  printed (List.replicate indent ' ' ++ styled style (label ++ [':']) ++ ' ' :: s)

def header (fs : Frames) (title : Text) : List Print :=
  [emptyLine, Screen.panel fs.panel none (Markup.shown (styled "bold blue" (Markup.escape title))),
    emptyLine]

def warning (message : Text) : Print :=
  labelled 0 "bold yellow" (lit "Warning") (Markup.escape message)

/-- A message that is printed only if asked for. -/
def info (verbose : Bool) (message : Text) : List Print :=
  if verbose then [printed (styled "dim" (Markup.escape message))] else []

/-- Where a finding lies in its file. -/
def location (verbose : Bool) (f : Secret.Finding) : Text :=
  lit "Line " ++ number f.line ++ if verbose then lit ", column " ++ number f.column else []

def finding (verbose : Bool) (f : Secret.Finding) : List Print :=
  [labelled 3 "yellow" (location verbose f) (Markup.escape f.rule),
    labelled 3 "dim" (lit "Matched") (Markup.escape f.masked),
    labelled 3 "dim" (lit "Context") (Markup.escape (f.preview Secret.Finding.previewLimit))]

def fileFindings (verbose : Bool) (file : Text) (fs : List Secret.Finding) : List Print :=
  [emptyLine, printed (styled "bold blue" (lit "📄 " ++ Markup.escape file))] ++
    fs.flatMap (finding verbose)

def ruleCounts (frames : Frames) (fs : List Secret.Finding) : List Print :=
  [emptyLine,
    Screen.table frames.table (lit "Findings by Pattern")
      [⟨lit "Pattern", false⟩, ⟨lit "Count", true⟩]
      ((Secret.countByRule fs).map fun c => [printed (Markup.escape c.1), [number c.2]])]

def recommendations : Text :=
  lit "1. Move secrets to environment variables\n2. Use a secrets manager (e.g., 1Password, HashiCorp Vault)\n3. Add sensitive files to .gitignore\n4. Use placeholder values in committed configs"

/-- What is printed of the findings of a scan that has some. -/
def findings (frames : Frames) (verbose : Bool) (fs : List Secret.Finding) : List Print :=
  [emptyLine,
    printed (styled "bold red" (lit "Found " ++ number fs.length ++ lit " potential secret(s):"))] ++
    (Secret.groupByFile fs).flatMap (fun g => fileFindings verbose g.1 g.2) ++
    (if verbose then ruleCounts frames fs else []) ++
    [emptyLine, Screen.panel frames.panel (some (lit "Recommendations")) recommendations]

def scanResult (frames : Frames) (verbose : Bool) (r : Secret.ScanResult) : List Print :=
  header frames (lit "Secrets Detection Report") ++
    [labelled 0 "cyan" (lit "Files scanned") (number r.visited),
      labelled 0 "cyan" (lit "Config files checked") (number r.candidates)] ++
    r.errors.map warning ++
    if r.hasSecrets then findings frames verbose r.findings
    else [emptyLine,
      Screen.panel frames.panel (some (lit "Scan Complete")) (lit "✓ No secrets detected!")]

def statusLabel : Format.Status → Text
  | .formatted => lit "Formatted"
  | .unchanged => lit "Unchanged"
  | .error => lit "Error"

def outcomeCells (o : Format.Outcome) : List Screen.Cell :=
  [printed (Markup.escape o.file), [statusLabel o.status],
    printed (Markup.escape (o.message.getD []))]

def formatSummary (frames : Frames) (s : Format.Summary) (check : Bool) : List Print :=
  header frames (lit "Configuration File Formatter (" ++
      lit (if check then "Check" else "Format") ++ lit " mode)") ++
    if s.outcomes.isEmpty then [printed (styled "dim" (lit "No configuration files found."))]
    else
      [Screen.table frames.table (lit "Results")
          [⟨lit "File", false⟩, ⟨lit "Status", false⟩, ⟨lit "Message", false⟩]
          (s.outcomes.map outcomeCells),
        emptyLine, labelled 2 "green" (lit "Formatted") (number s.formatted),
        labelled 2 "dim" (lit "Unchanged") (number s.unchanged),
        labelled 2 "red" (lit "Errors") (number s.errors)]

/-- A task of a run: whether it passed, how long it took, and what there is to tell. -/
structure Task where
  name : Text
  passed : Bool
  milliseconds : Binary64
  message : Option Text
deriving DecidableEq

/-- A duration in whole milliseconds, a half to the even one. -/
def duration (ms : Binary64) : Text :=
  match ms with
  | .finite negative m e =>
    (if negative then ['-'] else []) ++ number (Binary64.roundMagnitude m e) ++ lit "ms"
  | .infinite negative => (if negative then ['-'] else []) ++ lit "infms"
  | .notANumber => lit "nanms"

def task (t : Task) : Print :=
  let message := match t.message with
    | none => []
    | some [] => []
    | some s => ' ' :: '(' :: s ++ [')']
  Screen.lines (lit "  " ++ lit (if t.passed then "✓ " else "✗ ") ++ t.name ++ ':' :: ' ' ::
    duration t.milliseconds ++ message)

def taskSummary (frames : Frames) (ts : List Task) (total : Binary64) : List Print :=
  header frames (lit "Summary") ++ ts.map task ++
    [emptyLine, [lit "Total time: " ++ duration total],
      [lit "Success: " ++ number (ts.countP (·.passed)) ++ '/' :: number ts.length]]

/-- Tells where a report was written. The path is taken for markup. -/
def reportSaved (path : Text) : Except Markup.Unmatched Print :=
  let markup := styled "dim" (lit "Report saved to: " ++ path)
  match Markup.unmatched? markup with
  | some u => .error u
  | none => .ok (printed markup)

end ConfigCare.Report.Console
