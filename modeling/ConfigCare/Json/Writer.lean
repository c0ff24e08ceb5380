import ConfigCare.Data
import ConfigCare.Json.Error
import ConfigCare.Number.Shortest
import ConfigCare.Text.Quoted
/-!
Writing JSON, on one line or with two spaces for every level. Strings keep all characters but the
quote, the backslash and the control characters, which are escaped. An integer of too many digits is
not written, as none is read.
-/

namespace ConfigCare

namespace Moment

/-- A number with leading zeros. -/
def padded (width n : Nat) : Text :=
  let digits := Nat.toDigits 10 n
  List.replicate (width - digits.length) '0' ++ digits

def dateText (d : Date) : Text :=
  padded 4 d.year ++ '-' :: padded 2 d.month ++ '-' :: padded 2 d.day

/-- The time of day; microseconds are written if there are any. -/
def timeText (t : TimeOfDay) : Text :=
  padded 2 t.hour ++ ':' :: padded 2 t.minute ++ ':' :: padded 2 t.second ++
    if t.microsecond = 0 then [] else '.' :: padded 6 t.microsecond

def offsetText (offset : Int) : Text :=
  (if offset < 0 then '-' else '+') :: padded 2 (offset.natAbs / 60) ++ ':' ::
    padded 2 (offset.natAbs % 60)

def text : Moment → Text
  | .day d => dateText d
  | .time t => timeText t
  | .floating d t => dateText d ++ 'T' :: timeText t
  | .fixed d t offset => dateText d ++ 'T' :: timeText t ++ offsetText offset

end Moment

namespace Data

mutual

/-- Whether an integer in a value has more digits than are written. -/
def exceedsDigits : Data → Bool
  | .int n => Nat.pow 10 Json.digitLimit ≤ n.natAbs
  | .list vs => itemsExceedDigits vs
  | .table es => membersExceedDigits es
  | _ => false

def itemsExceedDigits : List Data → Bool
  | [] => false
  | v :: vs => exceedsDigits v || itemsExceedDigits vs

def membersExceedDigits : Entries → Bool
  | [] => false
  | (_, v) :: es => exceedsDigits v || membersExceedDigits es

end

end Data

namespace Json

open WideText (ofText)

def escapedChar (c : Char) : Text :=
  match c with
  | '"' => ['\\', '"']
  | '\\' => ['\\', '\\']
  | '\n' => ['\\', 'n']
  | '\r' => ['\\', 'r']
  | '\t' => ['\\', 't']
  | c =>
    if c.toNat = 8 then ['\\', 'b']
    else if c.toNat = 12 then ['\\', 'f']
    else if c.toNat < 32 then '\\' :: 'u' :: Text.hexDigits 4 c.toNat
    else [c]

def escapedGlyph : Glyph → WideText
  | .char c => ofText (escapedChar c)
  | .half code => [.half code]

def quote : Glyph := .char '"'

def string (s : WideText) : WideText := quote :: (s.flatMap escapedGlyph ++ [quote])

/-- How the parts of a list or table are set apart. -/
inductive Layout where
  | compact
  | indented
deriving DecidableEq

/-- What stands before the first item at a depth, and after the last at the depth outside. -/
def Layout.lineBreak (l : Layout) (depth : Nat) : Text :=
  match l with
  | .compact => []
  | .indented => '\n' :: List.replicate (2 * depth) ' '

/-- What stands between two items at a depth. -/
def Layout.separator (l : Layout) (depth : Nat) : Text :=
  match l with
  | .compact => [',', ' ']
  | .indented => ',' :: l.lineBreak depth

/-- Items between two delimiters, whose inside lies at a depth. -/
def enclosed (l : Layout) (depth : Nat) (opening closing : Char) (items : List WideText) :
    WideText :=
  ofText (opening :: l.lineBreak depth) ++
    List.intercalate (ofText (l.separator depth)) items ++
    ofText (l.lineBreak (depth - 1) ++ [closing])

mutual

/-- The text of a value that stands at a depth. -/
def render (l : Layout) (depth : Nat) : Data → WideText
  | .null => ofText (Text.lit "null")
  | .bool b => ofText (if b then Text.lit "true" else Text.lit "false")
  | .int n => ofText (Text.lit (toString n))
  | .float x => ofText x.text
  | .text s => string s
  | .moment m => string (ofText m.text)
  | .list [] => ofText ['[', ']']
  | .list (v :: vs) => enclosed l (depth + 1) '[' ']' (renderItems l (depth + 1) (v :: vs))
  | .table [] => ofText ['\x7b', '\x7d']
  | .table (e :: es) =>
    enclosed l (depth + 1) '\x7b' '\x7d' (renderMembers l (depth + 1) (e :: es))

def renderItems (l : Layout) (depth : Nat) : List Data → List WideText
  | [] => []
  | v :: vs => render l depth v :: renderItems l depth vs

def renderMembers (l : Layout) (depth : Nat) : List (WideText × Data) → List WideText
  | [] => []
  | (k, v) :: es =>
    (string k ++ ofText [':', ' '] ++ render l depth v) :: renderMembers l depth es

end

/-- Writes a value. -/
def write (l : Layout) (v : Data) : WideText := render l 0 v

/-- Why a value has no text. -/
inductive WriteError where
  | digits
  | surrogates (e : LoneSurrogates)
deriving DecidableEq

def WriteError.message : WriteError → Text
  | .digits =>
    Text.lit s!"Exceeds the limit ({digitLimit} digits) for integer string conversion; use sys.set_int_max_str_digits() to increase the limit"
  | .surrogates e => e.message

/-- The text of a value, if all of it can be written. -/
def text (l : Layout) (v : Data) : Except WriteError Text :=
  if v.exceedsDigits then .error .digits else (WideText.encode (write l v)).mapError .surrogates

end Json

end ConfigCare
