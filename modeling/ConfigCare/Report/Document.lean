import ConfigCare.Json.Writer
import ConfigCare.Secret.ScanResult
/-!
The report of a scan as a JSON document. It holds masked secrets only, and neither the patterns nor
the lines in which secrets were found.
-/

namespace ConfigCare.Report.Document

def key (name : String) : WideText := WideText.ofText name.toList

def text (s : Text) : Data := .text (WideText.ofText s)

def finding (f : Secret.Finding) : Data :=
  .table [(key "file", text f.file), (key "line", .int f.line), (key "column", .int f.column),
    (key "patternName", text f.rule), (key "maskedMatch", text f.masked)]

def summary (r : Secret.ScanResult) : Data :=
  .table [(key "totalFiles", .int r.candidates), (key "scannedFiles", .int r.visited),
    (key "secretsFound", .int r.findings.length), (key "hasSecrets", .bool r.hasSecrets)]

/-- The report as a value. -/
def value (time : Moment) (r : Secret.ScanResult) : Data :=
  .table [(key "timestamp", text time.text), (key "summary", summary r),
    (key "secrets", .list (r.findings.map finding))]

/-- The report as it is written, with a line for every member if it is to be read by people. -/
def write (time : Moment) (r : Secret.ScanResult) (pretty : Bool) : WideText :=
  Json.write (if pretty then .indented else .compact) (value time r)

/-- The text of a report, if all of it can be written. -/
def render (time : Moment) (r : Secret.ScanResult) (pretty : Bool) : Except Json.WriteError Text :=
  Json.text (if pretty then .indented else .compact) (value time r)

end ConfigCare.Report.Document
