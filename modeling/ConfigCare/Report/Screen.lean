import ConfigCare.Text.Width
/-!
Lines for a plain screen of 120 columns: text, panels across the whole width and tables as wide as
their cells.
-/

namespace ConfigCare.Report.Screen

def columns : Nat := 120

/-- What is printed at once, by its lines. -/
abbrev Print := List Text

/-- The text that is printed, with a line feed behind every line. -/
def Print.text (p : Print) : Text := p.flatMap fun l => l ++ ['\n']

/-- Characters that a terminal would act on and that are never printed. -/
def isDropped (c : Char) : Bool := [7, 8, 11, 12, 13].contains c.toNat

/-- Replaces tabs by spaces up to the next column that is a multiple of eight. -/
def expandTabs (column : Nat) : Text → Text
  | [] => []
  | c :: cs =>
    if c = '\t' then
      let n := 8 - column % 8
      List.replicate n ' ' ++ expandTabs (column + n) cs
    else c :: expandTabs (column + Text.charWidth c) cs

/-- The lines of a text as they are printed. -/
def lines (s : Text) : List Text :=
  (Text.splitOn '\n' (s.filter fun c => !isDropped c)).map (expandTabs 0)

/-- The characters of a border: its ends, the line between them, and where columns meet it. -/
structure Border where
  left : Char
  line : Char
  joint : Char
  right : Char

/-- The characters of a frame, around a text or a table with a head. -/
structure Frame where
  top : Border
  headSide : Char
  headEnd : Border
  side : Char
  bottom : Border

/-- The frames of panels and of tables. -/
structure Frames where
  panel : Frame
  table : Frame

/-- Round corners for panels, and a heavy head for tables. -/
def Frames.drawn : Frames where
  panel := ⟨⟨'╭', '─', '┬', '╮'⟩, '│', ⟨'├', '─', '┼', '┤'⟩, '│', ⟨'╰', '─', '┴', '╯'⟩⟩
  table := ⟨⟨'┏', '━', '┳', '┓'⟩, '┃', ⟨'┡', '━', '╇', '┩'⟩, '│', ⟨'└', '─', '┴', '┘'⟩⟩

def Frame.ascii : Frame where
  top := ⟨'+', '-', '-', '+'⟩
  headSide := '|'
  headEnd := ⟨'|', '-', '+', '|'⟩
  side := '|'
  bottom := ⟨'+', '-', '-', '+'⟩

def Frames.ascii : Frames := ⟨.ascii, .ascii⟩

def row (left right : Char) (inside : Text) : Text := left :: inside ++ [right]

/-- A frame around a text, with a title in its upper border if there is one. -/
def panel (f : Frame) (title : Option Text) (body : Text) : List Text :=
  let inner := columns - 2
  let top := match title with
    | none => List.replicate inner f.top.line
    | some t => Text.centred f.top.line inner (' ' :: t ++ [' '])
  row f.top.left f.top.right top ::
    (lines body).map (fun l => row f.side f.side (' ' :: Text.padEnd (inner - 2) l ++ [' '])) ++
    [row f.bottom.left f.bottom.right (List.replicate inner f.bottom.line)]

structure Column where
  header : Text
  rightAligned : Bool

/-- The lines of a cell. -/
abbrev Cell := List Text

def widest (ls : List Text) : Nat := ls.foldl (fun w l => max w (Text.width l)) 0

/-- The cells of every column have room for the widest of them. -/
def columnWidths (cs : List Column) (rows : List (List Cell)) : List Nat :=
  (cs.zipIdx).map fun c =>
    max (Text.width c.1.header) (widest (rows.flatMap fun r => (r[c.2]?).getD []))

/-- A border of a table. -/
def border (b : Border) (widths : List Nat) : Text :=
  row b.left b.right (Text.joinWith [b.joint] (widths.map fun w => List.replicate (w + 2) b.line))

/-- One line of a row of cells. -/
def tableLine (side : Char) (cs : List Column) (widths : List Nat) (texts : List Text) : Text :=
  row side side (Text.joinWith [side] (((cs.zip widths).zip texts).map fun c =>
    ' ' :: (if c.1.1.rightAligned then Text.padStart c.1.2 c.2 else Text.padEnd c.1.2 c.2) ++ [' ']))

/-- A row of cells, as high as the highest of them. -/
def tableRow (side : Char) (cs : List Column) (widths : List Nat) (cells : List Cell) : List Text :=
  let height := cells.foldl (fun h c => max h c.length) 1
  (List.range height).map fun i => tableLine side cs widths (cells.map fun cell => cell.getD i [])

def table (f : Frame) (title : Text) (cs : List Column) (rows : List (List Cell)) : List Text :=
  let widths := columnWidths cs rows
  let total := widths.foldl (fun w column => w + column + 3) 1
  [Text.centred ' ' total title, border f.top widths,
    tableLine f.headSide cs widths (cs.map (·.header)), border f.headEnd widths] ++
    rows.flatMap (tableRow f.side cs widths) ++ [border f.bottom widths]

end ConfigCare.Report.Screen
