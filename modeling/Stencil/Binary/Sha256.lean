/-!
# SHA-256

The message is padded to blocks of 64 bytes; each block is expanded to 64 words, which are mixed one
after another into a state of eight words. The digest is the final state, high bytes first.
-/

namespace Stencil.Sha256

/-- The eight words of the state. -/
structure State where
  a : UInt32
  b : UInt32
  c : UInt32
  d : UInt32
  e : UInt32
  f : UInt32
  g : UInt32
  h : UInt32

/-- The state before the first block. -/
def start : State :=
  ⟨0x6a09e667, 0xbb67ae85, 0x3c6ef372, 0xa54ff53a, 0x510e527f, 0x9b05688c, 0x1f83d9ab, 0x5be0cd19⟩

/-- The round constants. -/
def constants : List UInt32 :=
  [0x428a2f98, 0x71374491, 0xb5c0fbcf, 0xe9b5dba5, 0x3956c25b, 0x59f111f1, 0x923f82a4, 0xab1c5ed5,
   0xd807aa98, 0x12835b01, 0x243185be, 0x550c7dc3, 0x72be5d74, 0x80deb1fe, 0x9bdc06a7, 0xc19bf174,
   0xe49b69c1, 0xefbe4786, 0x0fc19dc6, 0x240ca1cc, 0x2de92c6f, 0x4a7484aa, 0x5cb0a9dc, 0x76f988da,
   0x983e5152, 0xa831c66d, 0xb00327c8, 0xbf597fc7, 0xc6e00bf3, 0xd5a79147, 0x06ca6351, 0x14292967,
   0x27b70a85, 0x2e1b2138, 0x4d2c6dfc, 0x53380d13, 0x650a7354, 0x766a0abb, 0x81c2c92e, 0x92722c85,
   0xa2bfe8a1, 0xa81a664b, 0xc24b8b70, 0xc76c51a3, 0xd192e819, 0xd6990624, 0xf40e3585, 0x106aa070,
   0x19a4c116, 0x1e376c08, 0x2748774c, 0x34b0bcb5, 0x391c0cb3, 0x4ed8aa4a, 0x5b9cca4f, 0x682e6ff3,
   0x748f82ee, 0x78a5636f, 0x84c87814, 0x8cc70208, 0x90befffa, 0xa4506ceb, 0xbef9a3f7, 0xc67178f2]

/-- Turns a word to the right. -/
def rotate (x : UInt32) (n : UInt32) : UInt32 := (x >>> n) ||| (x <<< (32 - n))

/-- A word from four bytes, the high one first. -/
def word (a b c d : UInt8) : UInt32 :=
  (a.toUInt32 <<< 24) ||| (b.toUInt32 <<< 16) ||| (c.toUInt32 <<< 8) ||| d.toUInt32

/-- The words of a list of bytes. -/
def words : List UInt8 → List UInt32
  | a :: b :: c :: d :: rest => word a b c d :: words rest
  | _ => []

/-- The next word of the schedule after those in the array. -/
def nextWord (w : Array UInt32) : UInt32 :=
  let at' (back : Nat) : UInt32 := w.getD (w.size - back) 0
  let x := at' 15
  let y := at' 2
  let s0 := rotate x 7 ^^^ rotate x 18 ^^^ (x >>> 3)
  let s1 := rotate y 17 ^^^ rotate y 19 ^^^ (y >>> 10)
  at' 16 + s0 + at' 7 + s1

/-- The 64 words of a block. -/
def schedule (block : List UInt32) : Array UInt32 :=
  (List.range 48).foldl (fun w _ => w.push (nextWord w)) block.toArray

/-- Mixes one word into the state. -/
def round (s : State) (kw : UInt32 × UInt32) : State :=
  let s1 := rotate s.e 6 ^^^ rotate s.e 11 ^^^ rotate s.e 25
  let choice := (s.e &&& s.f) ^^^ (~~~ s.e &&& s.g)
  let t1 := s.h + s1 + choice + kw.1 + kw.2
  let s0 := rotate s.a 2 ^^^ rotate s.a 13 ^^^ rotate s.a 22
  let majority := (s.a &&& s.b) ^^^ (s.a &&& s.c) ^^^ (s.b &&& s.c)
  ⟨t1 + (s0 + majority), s.a, s.b, s.c, s.d + t1, s.e, s.f, s.g⟩

/-- Mixes a block into the state. -/
def compress (s : State) (block : List UInt32) : State :=
  let t := (constants.zip (schedule block).toList).foldl round s
  ⟨s.a + t.a, s.b + t.b, s.c + t.c, s.d + t.d, s.e + t.e, s.f + t.f, s.g + t.g, s.h + t.h⟩

/-- The bytes of a number, the high one first. -/
def bigEndian (count n : Nat) : List UInt8 :=
  (List.range count).map fun i => UInt8.ofNat (n >>> (8 * (count - 1 - i)))

/-- The message with its padding: a one bit, zeros, and the length in bits. -/
def padded (message : List UInt8) : List UInt8 :=
  let length := message.length
  message ++ 0x80 :: (List.replicate ((119 - length % 64) % 64) 0 ++ bigEndian 8 (8 * length))

/-- Mixes in all blocks. -/
def absorb : Nat → State → List UInt32 → State
  | 0, s, _ => s
  | blocks + 1, s, ws => absorb blocks (compress s (ws.take 16)) (ws.drop 16)

/-- The digest of a message. -/
def digest (message : List UInt8) : List UInt8 :=
  let ws := words (padded message)
  let s := absorb (ws.length / 16) start ws
  [s.a, s.b, s.c, s.d, s.e, s.f, s.g, s.h].flatMap fun w => bigEndian 4 w.toNat

/-- Bytes as lower-case hexadecimal digits. -/
def hex (bytes : List UInt8) : List Char :=
  bytes.flatMap fun b => [Nat.digitChar (b.toNat / 16), Nat.digitChar (b.toNat % 16)]

end Stencil.Sha256
