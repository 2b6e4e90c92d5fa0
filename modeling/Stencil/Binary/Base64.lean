/-!
# Base64

Three bytes are written as four characters of a 64-letter alphabet; one or two bytes at the end are
filled up with `=`. Reading is strict: `Base64.decode` accepts what `Base64.encode` writes and
nothing else, and says where another text goes wrong.
-/

namespace Stencil

/-- The stretches of `n` items that a list consists of; the last one may be shorter. -/
def chunksFrom {α : Type} (n : Nat) : Nat → List (List α) → List α → List (List α)
  | 0, done, _ => done.reverse
  | _ + 1, done, [] => done.reverse
  | fuel + 1, done, l => chunksFrom n fuel (l.take n :: done) (l.drop n)

/-- Cuts a list into stretches of `n` items. -/
def chunks {α : Type} (n : Nat) (l : List α) : List (List α) := chunksFrom n l.length [] l

namespace Base64

/-- The character of a value below 64. -/
def symbol (v : Nat) : Char :=
  if v < 26 then Char.ofNat (v + 65)
  else if v < 52 then Char.ofNat (v - 26 + 97)
  else if v < 62 then Char.ofNat (v - 52 + 48)
  else if v = 62 then '+' else '/'

/-- The value of a character of the alphabet, given as a byte. -/
def value? (b : UInt8) : Option Nat :=
  if 65 ≤ b ∧ b ≤ 90 then some (b.toNat - 65)
  else if 97 ≤ b ∧ b ≤ 122 then some (b.toNat - 97 + 26)
  else if 48 ≤ b ∧ b ≤ 57 then some (b.toNat - 48 + 52)
  else if b = 43 then some 62
  else if b = 47 then some 63
  else none

/-- The four characters of up to three bytes. -/
def encodeGroup : List UInt8 → List Char
  | [a] => [symbol (a.toNat / 4), symbol (a.toNat % 4 * 16), '=', '=']
  | [a, b] => [symbol (a.toNat / 4), symbol (a.toNat % 4 * 16 + b.toNat / 16),
      symbol (b.toNat % 16 * 4), '=']
  | [a, b, c] => [symbol (a.toNat / 4), symbol (a.toNat % 4 * 16 + b.toNat / 16),
      symbol (b.toNat % 16 * 4 + c.toNat / 64), symbol (c.toNat % 64)]
  | _ => []

/-- The text of bytes. -/
def encode (bytes : List UInt8) : List Char := (chunks 3 bytes).flatMap encodeGroup

/-- Why a text is not Base64. -/
inductive Fault where
  | badSymbol (byte : UInt8) (offset : Nat)
  | badLength (length : Nat)
  | badPadding
  /-- The last character has bits that belong to no byte. -/
  | badLastSymbol (byte : UInt8) (offset : Nat)
deriving DecidableEq, Repr

/-- The wording of a fault. -/
def Fault.message : Fault → String
  | .badSymbol byte offset => "Invalid symbol " ++ toString byte.toNat ++ ", offset " ++ toString offset ++ "."
  | .badLength length => "Invalid input length: " ++ toString length
  | .badPadding => "Invalid padding"
  | .badLastSymbol byte offset =>
    "Invalid last symbol " ++ toString byte.toNat ++ ", offset " ++ toString offset ++ "."

/-- The padding character, as a byte. -/
def pad : UInt8 := 61

/-- The value of a byte at an offset. -/
def valueAt (offset : Nat) (b : UInt8) : Except Fault Nat :=
  match value? b with
  | some v => .ok v
  | none => .error (.badSymbol b offset)

/-- The three bytes of four values. -/
def group (a b c d : Nat) : List UInt8 :=
  [UInt8.ofNat (a * 4 + b / 16), UInt8.ofNat (b % 16 * 16 + c / 4), UInt8.ofNat (c % 4 * 64 + d)]

/-- What the last four characters hold: the values read, the last first, how many padding characters
stand behind them, and the offset of the first one. -/
structure Tail where
  values : List Nat
  last : UInt8
  pads : Nat
  firstPad : Nat

/-- Reads the characters of the last group one by one; `i` counts them. -/
def readTail (start : Nat) : Nat → Tail → List UInt8 → Except Fault Tail
  | _, t, [] => .ok t
  | i, t, b :: rest =>
    if b = pad then
      if i < 2 then .error (.badSymbol b (start + i))
      else readTail start (i + 1)
        { t with pads := t.pads + 1, firstPad := if t.pads = 0 then start + i else t.firstPad } rest
    else if 0 < t.pads then .error (.badSymbol pad t.firstPad)
    else
      match valueAt (start + i) b with
      | .error e => .error e
      | .ok v => readTail start (i + 1) { t with values := v :: t.values, last := b } rest

/-- The bytes of the last group. -/
def closeTail (start : Nat) (t : Tail) : Except Fault (List UInt8) :=
  if t.values.length < 2 then .error (.badLength (start + t.values.length))
  else if (t.pads + t.values.length) % 4 ≠ 0 then .error .badPadding
  else
    match t.values with
    | [b, a] =>
      if b % 16 = 0 then .ok [UInt8.ofNat (a * 4 + b / 16)]
      else .error (.badLastSymbol t.last (start + 1))
    | [c, b, a] =>
      if c % 4 = 0 then .ok [UInt8.ofNat (a * 4 + b / 16), UInt8.ofNat (b % 16 * 16 + c / 4)]
      else .error (.badLastSymbol t.last (start + 2))
    | [d, c, b, a] => .ok (group a b c d)
    | _ => .error .badPadding

/-- Reads groups from an offset on; `done` holds the bytes so far, the last first. -/
def decodeFrom : Nat → List UInt8 → List UInt8 → Except Fault (List UInt8)
  | _, done, [] => .ok done.reverse
  | start, done, a :: b :: c :: d :: e :: rest => do
    let a ← valueAt start a
    let b ← valueAt (start + 1) b
    let c ← valueAt (start + 2) c
    let d ← valueAt (start + 3) d
    decodeFrom (start + 4) ((group a b c d).reverse ++ done) (e :: rest)
  | start, done, last => do
    let t ← readTail start 0 ⟨[], 0, 0, 0⟩ last
    let bytes ← closeTail start t
    .ok (done.reverse ++ bytes)

/-- A single character too many is looked at before anything else. -/
def checkEnd (text : List UInt8) : Except Fault Unit :=
  match text.getLast? with
  | some b =>
    if text.length % 4 = 1 ∧ b ≠ pad ∧ (value? b).isNone then .error (.badSymbol b (text.length - 1))
    else .ok ()
  | none => .ok ()

/-- The bytes of a text. -/
def decode (text : List UInt8) : Except Fault (List UInt8) := do
  checkEnd text
  decodeFrom 0 [] text

end Base64

end Stencil
