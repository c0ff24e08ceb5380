import Mathlib.Tactic
import ConfigCare.Text.Utf8

/-! UTF-8 loses nothing: the bytes of a text are read as that text. Each character is read from its own
bytes, whatever follows them. -/

namespace ConfigCare.Utf8

theorem toNat_ofNat_byte {n : Nat} (h : n < 256) : (UInt8.ofNat n).toNat = n := by
  rw [UInt8.toNat_ofNat', Nat.mod_eq_of_lt h]

/-- A byte of a character behind its first adds six bits. -/
theorem continuation_succ {k low high bits x : Nat} (seen rest : Bytes)
    (h : low ≤ x + 128 ∧ x + 128 ≤ high) (hx : x < 64) :
    continuation (k + 1) low high bits seen (UInt8.ofNat (x + 128) :: rest) =
      continuation k 0x80 0xBF (bits * 64 + x) (seen ++ [UInt8.ofNat (x + 128)]) rest := by
  rw [continuation, toNat_ofNat_byte (by omega), if_pos (by simpa using h), Nat.add_sub_cancel]

/-- The first byte of a character announces how many follow, and the next one then is in the range
that leaves out longer forms and surrogates. -/
theorem lead?_two {x : Nat} (h : 2 ≤ x ∧ x < 32) :
    lead? (x + 192) = some ⟨1, 0x80, 0xBF, x⟩ := by
  rw [lead?, if_neg (by omega), if_neg (by omega), if_pos (by omega), Nat.add_sub_cancel]

theorem lead?_three {x : Nat} (h : x < 16) :
    lead? (x + 224) = some ⟨2, if x = 0 then 0xA0 else 0x80, if x = 13 then 0x9F else 0xBF, x⟩ := by
  rw [lead?, if_neg (by omega), if_neg (by omega), if_neg (by omega), if_pos (by omega),
    Nat.add_sub_cancel]
  simp only [Nat.add_eq_right, show x + 224 = 0xED ↔ x = 13 by omega]

theorem lead?_four {x : Nat} (h : x < 5) :
    lead? (x + 240) = some ⟨3, if x = 0 then 0x90 else 0x80, if x = 4 then 0x8F else 0xBF, x⟩ := by
  rw [lead?, if_neg (by omega), if_neg (by omega), if_neg (by omega), if_neg (by omega),
    if_pos (by omega), Nat.add_sub_cancel]
  simp only [Nat.add_eq_right, show x + 240 = 0xF4 ↔ x = 4 by omega]

theorem readChar_encodeChar (c : Char) (rest : Bytes) :
    ∃ b bs, String.utf8EncodeChar c = b :: bs ∧ readChar b (bs ++ rest) = .ok (c, bs.length) := by
  have hvalid : c.val.toNat.isValidChar := c.valid
  have hc : Char.ofNat c.val.toNat = c := Char.ofNat_toNat c
  unfold String.utf8EncodeChar
  generalize c.val.toNat = v at hvalid hc
  subst hc
  unfold Nat.isValidChar at hvalid
  -- by the number of bytes; the six bits of each byte add up to the code again
  simp only
  split_ifs with h1 h2 h3
  · refine ⟨_, _, rfl, ?_⟩
    rw [readChar, toNat_ofNat_byte (by omega), lead?, if_pos (by omega)]
    rfl
  · refine ⟨_, _, rfl, ?_⟩
    rw [readChar, toNat_ofNat_byte (by omega), lead?_two (by omega)]
    simp only [List.cons_append, List.nil_append]
    rw [continuation_succ _ _ (by omega) (by omega), continuation,
      show v / 64 % 32 * 64 + v % 64 = v by omega]
    rfl
  · refine ⟨_, _, rfl, ?_⟩
    rw [readChar, toNat_ofNat_byte (by omega), lead?_three (by omega)]
    simp only [List.cons_append, List.nil_append]
    rw [continuation_succ _ _ (by split_ifs <;> omega) (by omega),
      continuation_succ _ _ (by omega) (by omega), continuation,
      show (v / 4096 % 16 * 64 + v / 64 % 64) * 64 + v % 64 = v by omega]
    rfl
  · refine ⟨_, _, rfl, ?_⟩
    rw [readChar, toNat_ofNat_byte (by omega), lead?_four (by omega)]
    simp only [List.cons_append, List.nil_append]
    rw [continuation_succ _ _ (by split_ifs <;> omega) (by omega),
      continuation_succ _ _ (by omega) (by omega), continuation_succ _ _ (by omega) (by omega),
      continuation,
      show ((v / 262144 % 8 * 64 + v / 4096 % 64) * 64 + v / 64 % 64) * 64 + v % 64 = v by omega]
    rfl

/-- The bytes of a character that is read already are passed over. -/
theorem decodeFrom_skip (position : Nat) (done : Text) (bs rest : Bytes) :
    decodeFrom position bs.length done (bs ++ rest) =
      decodeFrom (position + bs.length) 0 done rest := by
  induction bs generalizing position with
  | nil => rfl
  | cons b bs ih =>
    rw [List.length_cons, List.cons_append, decodeFrom, ih]
    congr 1
    omega

theorem decodeFrom_encode (position : Nat) (done s : Text) :
    decodeFrom position 0 done (encode s) = .ok (done.reverse ++ s) := by
  induction s generalizing position done with
  | nil => simp [encode, decodeFrom]
  | cons c cs ih =>
    obtain ⟨b, bs, hbytes, hread⟩ := readChar_encodeChar c (encode cs)
    have hencode : encode (c :: cs) = b :: (bs ++ encode cs) := by
      rw [encode, List.flatMap_cons, hbytes]
      rfl
    rw [hencode, decodeFrom, hread]
    simp only
    rw [decodeFrom_skip, ih, List.reverse_cons, List.append_assoc]
    rfl

theorem decode_encode (s : Text) : decode (encode s) = .ok s := decodeFrom_encode 0 [] s

end ConfigCare.Utf8
