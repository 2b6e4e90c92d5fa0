/-!
# Text as bytes

A string is its UTF-8 bytes. `Text.ofBytes?` refuses bytes that are no text; `Text.ofBytesLossy`
puts the replacement character in place of each longest run of bytes that opens a character but
does not finish it, and of each byte that opens none.
-/

namespace Stencil.Text

/-- The bytes of a string. -/
def bytes (s : String) : List UInt8 := s.toByteArray.data.toList

/-- The string with these bytes. -/
def ofBytes? (bs : List UInt8) : Option String := String.fromUTF8? ⟨bs.toArray⟩

/-- The byte continues a character, between two bounds. -/
def continues (low high : UInt8) (b : UInt8) : Bool := low ≤ b && b ≤ high

/-- The replacement character. -/
def replacement : Char := '\uFFFD'

/-- What may follow the first byte of a character: the bounds of the second byte, how many bytes
follow in all, and the bits of the first byte that count. None for a byte that opens no longer
character. -/
def openers (b : UInt8) : Option (UInt8 × UInt8 × Nat × Nat) :=
  if 0xC2 ≤ b && b ≤ 0xDF then some (0x80, 0xBF, 1, b.toNat - 0xC0)
  else if b = 0xE0 then some (0xA0, 0xBF, 2, 0)
  else if b = 0xED then some (0x80, 0x9F, 2, 0xD)
  else if 0xE1 ≤ b && b ≤ 0xEF then some (0x80, 0xBF, 2, b.toNat - 0xE0)
  else if b = 0xF0 then some (0x90, 0xBF, 3, 0)
  else if b = 0xF4 then some (0x80, 0x8F, 3, 4)
  else if 0xF1 ≤ b && b ≤ 0xF3 then some (0x80, 0xBF, 3, b.toNat - 0xF0)
  else none

/-- A character that is being decoded: the bounds of its next byte, how many bytes are missing, and
its bits so far. -/
structure Pending where
  low : UInt8
  high : UInt8
  missing : Nat
  bits : Nat

/-- Decodes from a state; `taken` holds the characters so far, the last first. -/
def decodeFrom (taken : List Char) : Option Pending → List UInt8 → List Char
  | none, [] => taken.reverse
  | some _, [] => (replacement :: taken).reverse
  | none, b :: rest =>
    if b < 0x80 then decodeFrom (Char.ofNat b.toNat :: taken) none rest
    else
      match openers b with
      | some (low, high, missing, bits) => decodeFrom taken (some ⟨low, high, missing, bits⟩) rest
      | none => decodeFrom (replacement :: taken) none rest
  | some p, b :: rest =>
    if continues p.low p.high b then
      let bits := p.bits * 64 + (b.toNat - 0x80)
      if p.missing = 1 then decodeFrom (Char.ofNat bits :: taken) none rest
      else decodeFrom taken (some ⟨0x80, 0xBF, p.missing - 1, bits⟩) rest
    else
      -- the run ends before this byte, which is then looked at on its own
      let taken := replacement :: taken
      if b < 0x80 then decodeFrom (Char.ofNat b.toNat :: taken) none rest
      else
        match openers b with
        | some (low, high, missing, bits) => decodeFrom taken (some ⟨low, high, missing, bits⟩) rest
        | none => decodeFrom (replacement :: taken) none rest

/-- The text of bytes, with the replacement character where they are none. -/
def ofBytesLossy (bs : List UInt8) : String := String.ofList (decodeFrom [] none bs)

end Stencil.Text
