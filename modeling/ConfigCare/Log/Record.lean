import ConfigCare.Json.Writer
/-!
Records of a log: their levels, the time they carry and the line of JSON that each one is written
as.
-/

namespace ConfigCare.Log

/-- The levels that have a name. -/
def levelNames : List (Int × Text) :=
  [(50, Text.lit "CRITICAL"), (40, Text.lit "ERROR"), (30, Text.lit "WARNING"),
   (20, Text.lit "INFO"), (10, Text.lit "DEBUG"), (0, Text.lit "NOTSET")]

def levelName (level : Int) : Text :=
  match levelNames.find? fun l => l.1 = level with
  | some l => l.2
  | none => Text.lit "Level " ++ Text.lit (toString level)

/-- The days before the first of March of a year, which counts from March on. -/
def daysBefore (year : Int) : Int :=
  365 * year + year.fdiv 4 - year.fdiv 100 + year.fdiv 400

/-- The year, counted from March on, in which a day lies: a guess that is never too late by more
than one year is put right. -/
def yearOf (day : Int) : Int :=
  let guess := (400 * day).fdiv 146097
  if day < daysBefore guess then guess - 1
  else if daysBefore (guess + 1) ≤ day then guess + 1
  else guess

/-- The date of a day counted from the first of January 1970. -/
def dateOf (days : Int) : Date :=
  let day := days + 719468
  let year := yearOf day
  let rest := (day - daysBefore year).toNat
  let month := (5 * rest + 2) / 153
  let first := (153 * month + 2) / 5
  if month < 10 then ⟨year.toNat, month + 3, rest - first + 1⟩
  else ⟨(year + 1).toNat, month - 9, rest - first + 1⟩

/-- Whole seconds and microseconds of a time in seconds; the microseconds are those nearest to the
fraction, and they are never negative. -/
def secondsOf (t : Binary64) : Int × Nat :=
  match t with
  | .finite negative m e =>
    let (n, d) := Binary64.scaled m 1 e
    let micros := match Binary64.ofFraction false (n % d * 1000000) d with
      | .finite _ m e => Binary64.roundMagnitude m e
      | _ => 0
    let whole : Int := (n / d : Nat)
    if negative then
      if micros = 0 then (-whole, 0)
      else (-whole - 1, 1000000 - micros)
    else if micros = 1000000 then (whole + 1, 0) else (whole, micros)
  | _ => (0, 0)

/-- The moment in UTC of a time counted in seconds from the start of 1970. -/
def momentOf (t : Binary64) : Moment :=
  let (seconds, micros) := secondsOf t
  let rest := (seconds.fmod 86400).toNat
  .fixed (dateOf (seconds.fdiv 86400)) ⟨rest / 3600, rest / 60 % 60, rest % 60, micros⟩ 0

/-- Something to put into a message. -/
inductive Argument where
  | text (s : Text)
  | int (n : Int)
deriving DecidableEq

/-- Why arguments do not fit a message. Ways to show them other than `%s` and `%d` are not known. -/
inductive FillFault where
  | tooFew
  | tooMany
  | notNumber
  | incomplete
  | unknown (c : Char)
deriving DecidableEq

def FillFault.message : FillFault → Text
  | .tooFew => Text.lit "not enough arguments for format string"
  | .tooMany => Text.lit "not all arguments converted during string formatting"
  | .notNumber => Text.lit "%d format: a real number is required, not str"
  | .incomplete => Text.lit "incomplete format"
  | .unknown c => Text.lit "unsupported format character '" ++ [c, '\'']

def Argument.render : Argument → Text
  | .text s => s
  | .int n => Text.lit (toString n)

/-- Puts arguments one after another into the places of a message. -/
def fillFrom : List Argument → Text → Except FillFault Text
  | args, '%' :: c :: cs =>
    if c = '%' then (fillFrom args cs).map ('%' :: ·)
    else
      match args with
      | [] => .error .tooFew
      | a :: args =>
        match c, a with
        | 'd', .text _ => .error .notNumber
        | 'd', a | 's', a => (fillFrom args cs).map (a.render ++ ·)
        | c, _ => .error (.unknown c)
  | _, ['%'] => .error .incomplete
  | args, c :: cs => (fillFrom args cs).map (c :: ·)
  | [], [] => .ok []
  | _ :: _, [] => .error .tooMany

/-- A message with its arguments. Without any it stays as it is. -/
def fill (message : Text) (args : List Argument) : Except FillFault Text :=
  if args.isEmpty then .ok message else fillFrom args message

/-- A record, whose message has its arguments still apart. -/
structure Record where
  level : Int
  logger : Text
  message : Text
  args : List Argument
  /-- The time it was made at, in seconds from the start of 1970. -/
  created : Binary64
  /-- The trace of what was raised, if it tells of that. -/
  exception : Option Text
deriving DecidableEq

namespace Record

/-- The message with its arguments. -/
def text (r : Record) : Except FillFault Text := fill r.message r.args

/-- What the line of a record says. -/
def members (r : Record) (text : Text) : List (String × Text) :=
  [("timestamp", (momentOf r.created).text), ("level", levelName r.level), ("logger", r.logger),
    ("message", text)] ++ r.exception.toList.map ("exception", ·)

def object (r : Record) (text : Text) : Data :=
  .table ((r.members text).map fun m => (WideText.ofText m.1.toList, .text (WideText.ofText m.2)))

/-- The line of a record, unless its arguments do not fit. -/
def line (r : Record) : Except FillFault Text :=
  r.text.map fun text => WideText.chars (Json.write .compact (r.object text))

end Record

end ConfigCare.Log
