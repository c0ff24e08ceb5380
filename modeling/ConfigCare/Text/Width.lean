import ConfigCare.Text.Basic
import ConfigCare.Text.Ranges
import ConfigCare.Text.WidthTable
/-!
The number of columns that a text takes on a terminal.
-/

namespace ConfigCare.Text

def charWidth (c : Char) : Nat :=
  let n := c.toNat
  if n < 32 then 0
  else if n < 127 then 1
  else if n < 160 then 0
  else if inRanges flatRanges n then 0
  else if inRanges wideRanges n then 2
  else 1

def width (s : Text) : Nat := s.foldl (fun w c => w + charWidth c) 0

/-- Fills a text with spaces up to a width. -/
def padEnd (w : Nat) (s : Text) : Text := s ++ List.replicate (w - width s) ' '

def padStart (w : Nat) (s : Text) : Text := List.replicate (w - width s) ' ' ++ s

/-- Sets a text in the middle of a width; of an odd rest the larger part goes to the right. -/
def centred (fill : Char) (w : Nat) (s : Text) : Text :=
  let rest := w - width s
  List.replicate (rest / 2) fill ++ s ++ List.replicate (rest - rest / 2) fill

end ConfigCare.Text
