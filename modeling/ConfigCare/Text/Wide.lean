import ConfigCare.Text.Quoted
/-!
Text that may hold halves of surrogate pairs. Only the escapes of a JSON string can bring one in,
and no encoding can write it out again.
-/

namespace ConfigCare

/-- A character, or the code of a surrogate that is not part of a pair. -/
inductive Glyph where
  | char (c : Char)
  | half (code : Nat)
deriving DecidableEq

abbrev WideText := List Glyph

/-- A run of surrogates in a text, by its offset. -/
structure LoneSurrogates where
  position : Nat
  codes : List Nat
deriving DecidableEq

namespace LoneSurrogates

def message (e : LoneSurrogates) : Text :=
  Text.encodeRefusal "utf-8" e.position e.codes "surrogates not allowed"

end LoneSurrogates

namespace WideText

def ofText (s : Text) : WideText := s.map .char

/-- The codes of the surrogates that a wide text starts with. -/
def leadingHalves : WideText → List Nat
  | .half code :: rest => code :: leadingHalves rest
  | _ => []

def encodeFrom (position : Nat) : WideText → Except LoneSurrogates Text
  | [] => .ok []
  | .half code :: rest => .error ⟨position, code :: leadingHalves rest⟩
  | .char c :: rest => (encodeFrom (position + 1) rest).map (c :: ·)

/-- The text, or the first run of surrogates in it. -/
def encode (s : WideText) : Except LoneSurrogates Text := encodeFrom 0 s

def text? (s : WideText) : Option Text := (encode s).toOption

/-- The characters, without the halves. -/
def chars : WideText → Text
  | [] => []
  | .char c :: rest => c :: chars rest
  | .half _ :: rest => chars rest

@[simp] theorem chars_ofText (s : Text) : chars (ofText s) = s := by
  induction s with
  | nil => rfl
  | cons c cs ih => simpa [ofText, chars] using ih

theorem encodeFrom_ofText (s : Text) (n : Nat) : encodeFrom n (ofText s) = .ok s := by
  induction s generalizing n with
  | nil => rfl
  | cons c cs ih =>
    have h := ih (n + 1)
    simp only [ofText, List.map_cons, encodeFrom] at h ⊢
    rw [h]
    rfl

@[simp] theorem encode_ofText (s : Text) : encode (ofText s) = .ok s := encodeFrom_ofText s 0

end WideText

end ConfigCare
