/-!
# Decompression

Reads one zlib stream: a header of two bytes, blocks of stored, fixed or dynamic codes, and a
checksum. Bytes behind the stream are not looked at. A copy from before the start of the output
reads zeros, as from an empty window.
-/

namespace Stencil.Inflate

/-- Why a stream does not decompress. -/
inductive Fault where
  | corrupt
  /-- The stream ends too early. -/
  | incomplete
deriving DecidableEq, Repr

/-- The wording of a fault. -/
def Fault.message : Fault → String
  | .corrupt => "corrupt deflate stream"
  | .incomplete => "incomplete deflate stream"

/-- The bit at a place; the low bit of a byte comes first. -/
def bitAt (input : ByteArray) (i : Nat) : Option Nat :=
  if h : i / 8 < input.size then some ((input[i / 8].toNat >>> (i % 8)) % 2) else none

/-- A number of `count` bits, the low bit first, and the place behind it. -/
def bits (input : ByteArray) : Nat → Nat → Nat → Nat → Except Fault (Nat × Nat)
  | 0, _, value, i => .ok (value, i)
  | count + 1, weight, value, i =>
    match bitAt input i with
    | some b => bits input count (2 * weight) (value + b * weight) (i + 1)
    | none => .error .incomplete

/-- Reads a number of `count` bits. -/
def number (input : ByteArray) (count i : Nat) : Except Fault (Nat × Nat) := bits input count 1 0 i

/-! ### Codes -/

/-- A canonical code: how many symbols there are of each length, and the symbols in the order of
their codes. -/
structure Code where
  counts : Array Nat
  symbols : Array Nat

/-- The longest length of a code. -/
def maxLength : Nat := 15

/-- The code of a list of lengths, one for each symbol. -/
def Code.ofLengths (lengths : List Nat) : Code :=
  let indexed := lengths.zipIdx
  ⟨((List.range (maxLength + 1)).map fun l => if l = 0 then 0 else lengths.count l).toArray,
   ((List.range (maxLength + 1)).flatMap fun l =>
      if l = 0 then [] else (indexed.filter fun p => p.1 == l).map (·.2)).toArray⟩

/-- How much of the code space the symbols take up, in units of the longest length. -/
def Code.weight (c : Code) : Nat :=
  (c.counts.toList.zipIdx.map fun p => if p.2 = 0 then 0 else p.1 * Nat.pow 2 (maxLength - p.2)).foldl (· + ·) 0

/-- The code space is full, or there is at most one symbol. -/
def Code.sound (c : Code) : Bool := c.weight == Nat.pow 2 maxLength || c.symbols.size ≤ 1

/-- Reads a symbol: `code` holds the bits so far, `first` the first code of the next length and
`index` the number of shorter symbols. -/
def symbolFrom (input : ByteArray) (c : Code) (start : Nat) :
    Nat → Nat → Nat → Nat → Nat → Except Fault (Nat × Nat)
  | 0, _, _, _, _ => .error .corrupt
  | fuel + 1, code, first, index, i =>
    match bitAt input i with
    | none => .error .incomplete
    | some b =>
      let code := 2 * code + b
      let count := c.counts.getD (i - start + 1) 0
      if code < first + count then
        match c.symbols[index + (code - first)]? with
        | some s => .ok (s, i + 1)
        | none => .error .corrupt
      else symbolFrom input c start fuel code (2 * (first + count)) (index + count) (i + 1)

/-- Reads a symbol. -/
def symbol (input : ByteArray) (c : Code) (i : Nat) : Except Fault (Nat × Nat) :=
  symbolFrom input c i maxLength 0 0 0 i

/-- The least length of a copy and its further bits, by symbols from 257 on. -/
def lengthBases : Array (Nat × Nat) :=
  #[(3, 0), (4, 0), (5, 0), (6, 0), (7, 0), (8, 0), (9, 0), (10, 0), (11, 1), (13, 1), (15, 1), (17, 1),
    (19, 2), (23, 2), (27, 2), (31, 2), (35, 3), (43, 3), (51, 3), (59, 3), (67, 4), (83, 4), (99, 4),
    (115, 4), (131, 5), (163, 5), (195, 5), (227, 5), (258, 0)]

/-- The least distance of a copy and its further bits. -/
def distanceBases : Array (Nat × Nat) :=
  #[(1, 0), (2, 0), (3, 0), (4, 0), (5, 1), (7, 1), (9, 2), (13, 2), (17, 3), (25, 3), (33, 4), (49, 4),
    (65, 5), (97, 5), (129, 6), (193, 6), (257, 7), (385, 7), (513, 8), (769, 8), (1025, 9), (1537, 9),
    (2049, 10), (3073, 10), (4097, 11), (6145, 11), (8193, 12), (12289, 12), (16385, 13), (24577, 13)]

/-- Appends a copy of earlier output. -/
def copy : Nat → Nat → ByteArray → ByteArray
  | 0, _, out => out
  | n + 1, distance, out =>
    let b := if h : out.size - distance < out.size then
        (if distance ≤ out.size then out[out.size - distance] else 0) else 0
    copy n distance (out.push b)

/-- Reads a number that an entry of a table gives with further bits: the least one and the width of the
bits. -/
def based (input : ByteArray) (bases : Array (Nat × Nat)) (index i : Nat) : Except Fault (Nat × Nat) :=
  match bases[index]? with
  | none => .error .corrupt
  | some (base, width) =>
    match number input width i with
    | .error e => .error e
    | .ok (more, i) => .ok (base + more, i)

/-- Reads the length of a copy, which begins with the symbol `s`, and its distance. -/
def copyFrom (input : ByteArray) (distances : Code) (s i : Nat) : Except Fault ((Nat × Nat) × Nat) := do
  let (length, i) ← based input lengthBases (s - 257) i
  let (d, i) ← symbol input distances i
  let (distance, i) ← based input distanceBases d i
  .ok ((length, distance), i)

/-! ### Blocks -/

/-- Decodes symbols up to the end of the block. -/
def codedBlock (input : ByteArray) (literals distances : Code) :
    Nat → Nat → ByteArray → Except Fault (Nat × ByteArray)
  | 0, _, _ => .error .corrupt
  | fuel + 1, i, out => do
    let (s, i) ← symbol input literals i
    if s < 256 then codedBlock input literals distances fuel i (out.push (UInt8.ofNat s))
    else if s = 256 then .ok (i, out)
    else
      let ((length, distance), i) ← copyFrom input distances s i
      codedBlock input literals distances fuel i (copy length distance out)

/-- Appends bytes of the input as they are. -/
def storedBytes (input : ByteArray) : Nat → Nat → ByteArray → Except Fault (Nat × ByteArray)
  | 0, place, out => .ok (8 * place, out)
  | n + 1, place, out =>
    if h : place < input.size then storedBytes input n (place + 1) (out.push input[place])
    else .error .incomplete

/-- A block that is not coded. -/
def storedBlock (input : ByteArray) (i : Nat) (out : ByteArray) : Except Fault (Nat × ByteArray) := do
  let i := (i + 7) / 8 * 8
  let (length, i) ← number input 16 i
  let (complement, i) ← number input 16 i
  if length + complement = 65535 then storedBytes input length (i / 8) out else .error .corrupt

/-- The fixed code of literals and lengths. -/
def fixedLiterals : Code := Code.ofLengths
  (List.replicate 144 8 ++ List.replicate 112 9 ++ List.replicate 24 7 ++ List.replicate 8 8)

/-- The fixed code of distances. -/
def fixedDistances : Code := Code.ofLengths (List.replicate 32 5)

/-- The order in which the lengths of the code of lengths are given. -/
def lengthOrder : List Nat := [16, 17, 18, 0, 8, 7, 9, 6, 10, 5, 11, 4, 12, 3, 13, 2, 14, 1, 15]

/-- Reads the lengths of the code of lengths, given with their symbols, the last one first. -/
def codeLengths (input : ByteArray) :
    List Nat → List (Nat × Nat) → Nat → Except Fault (List (Nat × Nat) × Nat)
  | [], done, i => .ok (done, i)
  | s :: rest, done, i =>
    match number input 3 i with
    | .error e => .error e
    | .ok (l, i) => codeLengths input rest ((s, l) :: done) i

/-- Reads the lengths of the other two codes; `done` holds those read, the last first. -/
def expandLengths (input : ByteArray) (c : Code) (wanted : Nat) :
    Nat → List Nat → Nat → Except Fault (List Nat × Nat)
  | 0, _, _ => .error .corrupt
  | fuel + 1, done, i =>
    if wanted ≤ done.length then
      if done.length = wanted then .ok (done.reverse, i) else .error .corrupt
    else
      match symbol input c i with
      | .error e => .error e
      | .ok (s, i) =>
        if s < 16 then expandLengths input c wanted fuel (s :: done) i
        else
          let (width, least) := if s = 16 then (2, 3) else if s = 17 then (3, 3) else (7, 11)
          match s, done with
          | 16, [] => .error .corrupt
          | _, _ =>
            match number input width i with
            | .error e => .error e
            | .ok (more, i) =>
              let repeated := if s = 16 then done.headD 0 else 0
              expandLengths input c wanted fuel (List.replicate (least + more) repeated ++ done) i

/-- A block with codes of its own. -/
def dynamicBlock (input : ByteArray) (fuel i : Nat) (out : ByteArray) : Except Fault (Nat × ByteArray) := do
  let (hlit, i) ← number input 5 i
  let (hdist, i) ← number input 5 i
  let (hclen, i) ← number input 4 i
  if 29 < hlit || 29 < hdist then .error .corrupt else
  let (pairs, i) ← codeLengths input (lengthOrder.take (hclen + 4)) [] i
  let c := Code.ofLengths ((List.range 19).map fun s => (pairs.lookup s).getD 0)
  if c.weight ≠ Nat.pow 2 maxLength then .error .corrupt else
  let (lengths, i) ← expandLengths input c (hlit + hdist + 258) 400 [] i
  let literals := Code.ofLengths (lengths.take (hlit + 257))
  let distances := Code.ofLengths (lengths.drop (hlit + 257))
  if !literals.sound || !distances.sound then .error .corrupt
  else codedBlock input literals distances fuel i out

/-- Decodes blocks up to the last one. -/
def blocks (input : ByteArray) (fuel : Nat) : Nat → Nat → ByteArray → Except Fault (Nat × ByteArray)
  | 0, _, _ => .error .corrupt
  | more + 1, i, out => do
    let (final, i) ← number input 1 i
    let (kind, i) ← number input 2 i
    let (i, out) ←
      if kind = 0 then storedBlock input i out
      else if kind = 1 then codedBlock input fixedLiterals fixedDistances fuel i out
      else if kind = 2 then dynamicBlock input fuel i out
      else .error .corrupt
    if final = 1 then .ok (i, out) else blocks input fuel more i out

/-- The checksum of bytes. -/
def adler32 (bytes : ByteArray) : Nat :=
  let (a, b) := bytes.data.foldl (fun (a, b) x =>
    let a := (a + x.toNat) % 65521
    (a, (b + a) % 65521)) (1, 0)
  b * 65536 + a

/-- The header of a stream. -/
def header (input : ByteArray) : Except Fault Unit :=
  if h : 1 < input.size then
    let cmf := input[0].toNat
    let flags := input[1].toNat
    if (cmf * 256 + flags) % 31 ≠ 0 ∨ flags / 32 % 2 = 1 ∨ cmf % 16 ≠ 8 ∨ 7 < cmf / 16 then .error .corrupt
    else .ok ()
  else .error .incomplete

/-- Decompresses a stream. -/
def run (input : ByteArray) : Except Fault ByteArray := do
  header input
  let fuel := 8 * input.size + 8
  let (i, out) ← blocks input fuel fuel 16 .empty
  let place := (i + 7) / 8
  let (a, i) ← number input 8 (8 * place)
  let (b, i) ← number input 8 i
  let (c, i) ← number input 8 i
  let (d, _) ← number input 8 i
  if ((a * 256 + b) * 256 + c) * 256 + d = adler32 out then .ok out else .error .corrupt

/-- The bytes that a stream holds. -/
def decompress (stream : List UInt8) : Except Fault (List UInt8) :=
  (run ⟨stream.toArray⟩).map fun out => out.data.toList

end Stencil.Inflate
