import ConfigCare.Text.Quoted
/-!
Bytes as text: UTF-8, where the first fault ends the reading and is told by its place and cause,
and Latin-1, which has none.
-/

namespace ConfigCare

abbrev Bytes := List UInt8

namespace Utf8

inductive Fault where
  | start
  | continuation
  | endOfData
deriving DecidableEq

/-- A fault and the bytes it concerns, by the offset of the first. -/
structure DecodeError where
  position : Nat
  bytes : Bytes
  fault : Fault
deriving DecidableEq

def Fault.text : Fault → Text
  | .start => Text.lit "invalid start byte"
  | .continuation => Text.lit "invalid continuation byte"
  | .endOfData => Text.lit "unexpected end of data"

def DecodeError.message (e : DecodeError) : Text :=
  let last := e.position + e.bytes.length - 1
  let place :=
    match e.bytes with
    | [b] => Text.lit "byte 0x" ++ Text.hexDigits 2 b.toNat ++ Text.lit s!" in position {e.position}"
    | _ => Text.lit s!"bytes in position {e.position}-{last}"
  Text.lit "'utf-8' codec can't decode " ++ place ++ Text.lit ": " ++ e.fault.text

/-- What a first byte announces: how many bytes follow, the range that the next one has to be in,
and its share of the code. -/
structure Lead where
  following : Nat
  low : Nat
  high : Nat
  bits : Nat

def lead? (b : Nat) : Option Lead :=
  if b < 0x80 then some ⟨0, 0, 0, b⟩
  else if b < 0xC2 then none
  else if b < 0xE0 then some ⟨1, 0x80, 0xBF, b - 0xC0⟩
  else if b < 0xF0 then
    some ⟨2, if b = 0xE0 then 0xA0 else 0x80, if b = 0xED then 0x9F else 0xBF, b - 0xE0⟩
  else if b < 0xF5 then
    some ⟨3, if b = 0xF0 then 0x90 else 0x80, if b = 0xF4 then 0x8F else 0xBF, b - 0xF0⟩
  else none

/-- Reads the continuation bytes of a character; `seen` are the bytes of it read so far. -/
def continuation : Nat → Nat → Nat → Nat → Bytes → Bytes → Except (Fault × Bytes) Nat
  | 0, _, _, bits, _, _ => .ok bits
  | _ + 1, _, _, _, seen, [] => .error (.endOfData, seen)
  | k + 1, low, high, bits, seen, b :: bs =>
    if low ≤ b.toNat && b.toNat ≤ high then
      continuation k 0x80 0xBF (bits * 64 + (b.toNat - 0x80)) (seen ++ [b]) bs
    else .error (.continuation, seen)

/-- The first character of some bytes and the number of bytes that follow its first. -/
def readChar (b : UInt8) (bs : Bytes) : Except (Fault × Bytes) (Char × Nat) :=
  match lead? b.toNat with
  | none => .error (.start, [b])
  | some l =>
    match continuation l.following l.low l.high l.bits [b] bs with
    | .error e => .error e
    | .ok code => .ok (Char.ofNat code, l.following)

/-- `skip` counts the bytes of the last character still to be passed over. -/
def decodeFrom (position skip : Nat) (done : Text) : Bytes → Except DecodeError Text
  | [] => .ok done.reverse
  | b :: bs =>
    match skip with
    | k + 1 => decodeFrom (position + 1) k done bs
    | 0 =>
      match readChar b bs with
      | .error (fault, bytes) => .error ⟨position, bytes, fault⟩
      | .ok (c, following) => decodeFrom (position + 1) following (c :: done) bs

def decode (bs : Bytes) : Except DecodeError Text := decodeFrom 0 0 [] bs

def encode (s : Text) : Bytes := s.flatMap String.utf8EncodeChar

end Utf8

namespace Latin1

/-- Every byte is the code of a character. -/
def decode (bs : Bytes) : Text := bs.map fun b => Char.ofNat b.toNat

end Latin1

namespace Text

/-- Every line break, a carriage return by itself included, becomes a line feed. `afterReturn` tells
that the last character was a carriage return, whose line feed is then not counted again. -/
def unifyBreaksFrom (afterReturn : Bool) : Text → Text
  | [] => []
  | c :: cs =>
    if c = '\r' then '\n' :: unifyBreaksFrom true cs
    else if c = '\n' && afterReturn then unifyBreaksFrom false cs
    else c :: unifyBreaksFrom false cs

def unifyBreaks (s : Text) : Text := unifyBreaksFrom false s

end Text

end ConfigCare
