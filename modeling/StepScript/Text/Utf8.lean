/-!
# Utf8 — text from bytes that may be broken

Bytes are read as characters as far as they go.  The longest run of bytes that could have begun a
character but does not go on as one is replaced by one replacement character.
-/

namespace StepScript

namespace Utf8

def encode (s : String) : List UInt8 :=
  s.toList.flatMap String.utf8EncodeChar

/-- What the first byte of a character announces: the number of bytes that follow, the bits it
contributes, and the range of the byte after it. -/
def lead? (b : Nat) : Option (Nat × Nat × Nat × Nat) :=
  if 0xC2 ≤ b && b ≤ 0xDF then some (1, b % 32, 0x80, 0xBF)
  else if b = 0xE0 then some (2, 0, 0xA0, 0xBF)
  else if b = 0xED then some (2, 13, 0x80, 0x9F)
  else if 0xE1 ≤ b && b ≤ 0xEF then some (2, b % 16, 0x80, 0xBF)
  else if b = 0xF0 then some (3, 0, 0x90, 0xBF)
  else if 0xF1 ≤ b && b ≤ 0xF3 then some (3, b % 8, 0x80, 0xBF)
  else if b = 0xF4 then some (3, 4, 0x80, 0x8F)
  else none

/-- Read the bytes that follow a first byte; `none` in place of the character if they are not there,
with the number of bytes that were. -/
def following : Nat → Nat → Nat → Nat → List UInt8 → Nat → Option Char × Nat
  | 0, value, _, _, _, taken => (some (Char.ofNat value), taken)
  | count + 1, value, low, high, bytes, taken =>
    match bytes with
    | b :: rest =>
      if low ≤ b.toNat && b.toNat ≤ high then
        following count (value * 64 + b.toNat % 64) 0x80 0xBF rest (taken + 1)
      else (none, taken)
    | [] => (none, taken)

/-- Read characters.  Every round takes a byte, so the number of bytes bounds `fuel`. -/
def decodeFrom : Nat → List UInt8 → List Char
  | 0, _ => []
  | _, [] => []
  | fuel + 1, b :: rest =>
    if b < 128 then Char.ofNat b.toNat :: decodeFrom fuel rest
    else
      match lead? b.toNat with
      | none => '\ufffd' :: decodeFrom fuel rest
      | some (count, bits, low, high) =>
        match following count bits low high rest 0 with
        | (some c, taken) => c :: decodeFrom fuel (rest.drop taken)
        | (none, taken) => '\ufffd' :: decodeFrom fuel (rest.drop taken)

def decode (bytes : List UInt8) : String :=
  String.ofList (decodeFrom bytes.length bytes)

def isValid (bytes : List UInt8) : Bool :=
  encode (decode bytes) == bytes

/-- The text whose encoding the bytes are, if there is one. -/
def decode? (bytes : List UInt8) : Option String :=
  if isValid bytes then some (decode bytes) else none

end Utf8

end StepScript
