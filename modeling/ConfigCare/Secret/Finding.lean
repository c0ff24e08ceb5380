import ConfigCare.Schema.Check
import ConfigCare.Secret.Mask
/-!
Findings, and the ways to look at a list of them. What is shown of the line of a finding has the
secret masked.
-/

namespace ConfigCare.Secret

structure Finding where
  file : Text
  line : Nat
  column : Nat
  rule : Text
  pattern : Text
  secret : Text
  masked : Text
  context : Text
deriving DecidableEq

namespace Finding

open Schema in
/-- Checks a finding. -/
def check : Data → Checked Finding :=
  record fun es =>
    (((((((Checked.apply (.ok Finding.mk) (required es "file" text)).apply
      (required es "line" (atLeast 1))).apply
      (required es "column" (atLeast 1))).apply
      (required es "pattern_name" text)).apply
      (withDefault es "pattern" text [])).apply
      (required es "raw_match" text)).apply
      (required es "masked_match" text)).apply
      (withDefault es "context_line" text [])

/-- The most characters of a line that are shown, if no other number is asked for. -/
def previewLimit : Int := 80

/-- The line of a finding as it is shown: masked, and cut if it is too long. A negative limit leaves
so many characters off the end. -/
def preview (limit : Int) (f : Finding) : Text :=
  let shown := redact f.context f.secret (some f.masked)
  let n : Int := shown.length
  if limit < n then shown.take (if limit < 0 then n + limit else limit).toNat ++ Text.lit "..."
  else shown

end Finding

/-- The findings of each file, the files in the order in which they first occur. -/
def groupByFile (fs : List Finding) : List (Text × List Finding) :=
  fs.foldl add []
where
  add (groups : List (Text × List Finding)) (f : Finding) : List (Text × List Finding) :=
    match groups with
    | [] => [(f.file, [f])]
    | (file, fs) :: rest =>
      if file = f.file then (file, fs ++ [f]) :: rest else (file, fs) :: add rest f

/-- How often each rule occurs, in the order of first occurrence. -/
def tally (fs : List Finding) : List (Text × Nat) :=
  fs.foldl (fun counts f => add f.rule counts) []
where
  add (name : Text) : List (Text × Nat) → List (Text × Nat)
    | [] => [(name, 1)]
    | (rule, n) :: rest => if rule = name then (rule, n + 1) :: rest else (rule, n) :: add name rest

/-- Puts an entry before all those of a smaller count. -/
def insertByCount (e : Text × Nat) : List (Text × Nat) → List (Text × Nat)
  | [] => [e]
  | f :: rest => if e.2 ≤ f.2 then f :: insertByCount e rest else e :: f :: rest

/-- How often each rule occurs, the most frequent first, and of equals the one that occurs first. -/
def countByRule (fs : List Finding) : List (Text × Nat) :=
  (tally fs).foldl (fun sorted e => insertByCount e sorted) []

end ConfigCare.Secret
