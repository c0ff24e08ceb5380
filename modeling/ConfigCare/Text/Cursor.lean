import ConfigCare.Text.Basic
/-!
A place in a text that is being read: the offset, and the text from there on.
-/

namespace ConfigCare

structure Cursor where
  offset : Nat
  rest : Text

namespace Cursor

/-- Passes over the characters that satisfy a test, from an offset on. -/
def skipFrom (test : Char → Bool) (offset : Nat) : Text → Cursor
  | [] => ⟨offset, []⟩
  | c :: cs => if test c then skipFrom test (offset + 1) cs else ⟨offset, c :: cs⟩

def skipWhile (test : Char → Bool) (c : Cursor) : Cursor := skipFrom test c.offset c.rest

/-- Passes over a number of characters. -/
def drop (n : Nat) (c : Cursor) : Cursor := ⟨c.offset + n, c.rest.drop n⟩

theorem skipFrom_rest (test : Char → Bool) (offset : Nat) (s : Text) :
    (skipFrom test offset s).rest = s.dropWhile test := by
  induction s generalizing offset with
  | nil => rfl
  | cons c cs ih =>
    by_cases h : test c
    · simp [skipFrom, h, ih]
    · simp [skipFrom, h]

end Cursor

end ConfigCare
