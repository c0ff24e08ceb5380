import ConfigCare.Secret.Finding
/-!
The result of scanning many files.
-/

namespace ConfigCare.Secret

structure ScanResult where
  root : Text
  /-- The files that were looked into. -/
  candidates : Nat
  /-- The files that were seen and not ignored. -/
  visited : Nat
  findings : List Finding
  /-- What went wrong with single files. -/
  errors : List Text
deriving DecidableEq

namespace ScanResult

def hasSecrets (r : ScanResult) : Bool := !r.findings.isEmpty

open Schema in
/-- Checks a result; absent parts are empty. -/
def check : Data → Checked ScanResult :=
  record fun es =>
    ((((Checked.apply (.ok ScanResult.mk) (withDefault es "root" text [])).apply
      (withDefault es "total_files" (atLeast 0) 0)).apply
      (withDefault es "scanned_files" (atLeast 0) 0)).apply
      (withDefault es "matches" (list 0 Finding.check) [])).apply
      (withDefault es "errors" (list 0 text) [])

/-- The result made of the findings of every file, in order. -/
def ofFiles (root : Text) (candidates visited : Nat) (perFile : List (List Finding))
    (errors : List Text) : ScanResult :=
  ⟨root, candidates, visited, perFile.flatten, errors⟩

end ScanResult

end ConfigCare.Secret
