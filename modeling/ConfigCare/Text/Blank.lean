import ConfigCare.Text.Basic
/-!
White space, and trimming a text of it. Trimming keeps everything else: a trimmed text starts
and ends with a visible character or is empty.
-/

namespace ConfigCare.Text

/-- White space as Unicode knows it, the separators U+001C to U+001F included. -/
def isBlank (c : Char) : Bool :=
  let n := c.toNat
  (9 ≤ n && n ≤ 13) || (28 ≤ n && n ≤ 32) || n == 0x85 || n == 0xA0 || n == 0x1680 ||
    (0x2000 ≤ n && n ≤ 0x200A) || n == 0x2028 || n == 0x2029 || n == 0x202F || n == 0x205F ||
    n == 0x3000

def trimStart (s : Text) : Text := s.dropWhile isBlank

def trimEnd (s : Text) : Text := (s.reverse.dropWhile isBlank).reverse

def trim (s : Text) : Text := trimEnd (trimStart s)

/-- Nothing but white space, if anything. -/
def isBlankLine (s : Text) : Bool := s.all isBlank

/-- The visible characters, in order. -/
def visible (s : Text) : Text := s.filter fun c => !isBlank c

@[simp] theorem visible_append (s t : Text) : visible (s ++ t) = visible s ++ visible t := by
  simp [visible]

theorem visible_dropWhile (s : Text) : visible (s.dropWhile isBlank) = visible s := by
  induction s with
  | nil => rfl
  | cons c cs ih =>
    by_cases h : isBlank c
    · simpa [List.dropWhile, visible, h] using ih
    · simp [List.dropWhile, h]

theorem visible_reverse (s : Text) : visible s.reverse = (visible s).reverse := by
  simp [visible]

@[simp] theorem visible_trimStart (s : Text) : visible (trimStart s) = visible s :=
  visible_dropWhile s

@[simp] theorem visible_trimEnd (s : Text) : visible (trimEnd s) = visible s := by
  rw [trimEnd, visible_reverse, visible_dropWhile, visible_reverse, List.reverse_reverse]

@[simp] theorem visible_trim (s : Text) : visible (trim s) = visible s := by simp [trim]

end ConfigCare.Text
