import Stencil.Binary.Inflate

/-!
# Compression

Writes a zlib stream of one dynamic block. Repetitions are found through a table of the last place
of each run of three bytes; the codes are built from the frequencies of the symbols, the two rarest
trees being joined again and again.
-/

namespace Stencil.Deflate

/-- A symbol of the stream before it is coded. -/
inductive Item where
  | literal (b : UInt8)
  | copy (length distance : Nat)

/-! ### Finding repetitions -/

def tableSize : Nat := 32768

/-- The entry of the table for the three bytes at a place. -/
def hashAt (input : ByteArray) (i : Nat) : Nat :=
  if h : i + 2 < input.size then
    ((input[i].toNat * 2654435761 + input[i + 1].toNat * 40503 + input[i + 2].toNat * 65599) >>> 3) % tableSize
  else 0

/-- How far two places go on alike, at most `n` bytes. -/
def common (input : ByteArray) (i j : Nat) : Nat → Nat → Nat
  | 0, n => n
  | fuel + 1, n =>
    if h : i + n < input.size ∧ j + n < input.size then
      if input[i + n] = input[j + n] then common input i j fuel (n + 1) else n
    else n

/-- Enters `n` places into the table. -/
def enter (input : ByteArray) : Nat → Nat → Array Nat → Array Nat
  | 0, _, table => table
  | n + 1, i, table => enter input n (i + 1) (table.setIfInBounds (hashAt input i) (i + 1))

/-- The items from a place on; the table holds places counted from one. -/
def itemsFrom (input : ByteArray) : Nat → Nat → Array Nat → Array Item → Array Item
  | 0, _, _, done => done
  | fuel + 1, i, table, done =>
    if h : i < input.size then
      let seen := table.getD (hashAt input i) 0
      let length := if seen = 0 ∨ 32768 < i + 1 - seen ∨ input.size < i + 3 then 0
        else common input (seen - 1) i 258 0
      if 3 ≤ length then
        itemsFrom input fuel (i + length) (enter input length i table)
          (done.push (.copy length (i + 1 - seen)))
      else itemsFrom input fuel (i + 1) (enter input 1 i table) (done.push (.literal input[i]))
    else done

/-- The items of the input. -/
def items (input : ByteArray) : Array Item :=
  itemsFrom input input.size 0 (Array.replicate tableSize 0) #[]

/-- The last entry of a table of bases that is not above a number: its index, the difference, and the
width of the difference. -/
def baseOf (table : Array (Nat × Nat)) (n : Nat) : Nat × Nat × Nat :=
  let index := (table.toList.takeWhile fun p => p.1 ≤ n).length - 1
  let (base, width) := table.getD index (0, 0)
  (index, n - base, width)

/-- The symbol of a length of a copy, with its further bits. -/
def lengthCode (n : Nat) : Nat × Nat × Nat :=
  let (index, more, width) := baseOf Inflate.lengthBases n
  (index + 257, more, width)

/-! ### Building codes -/

/-- A tree over symbols, with its frequency. -/
inductive Tree where
  | leaf (symbol : Nat)
  | node (left right : Tree)

/-- Puts a tree in its place among trees of rising frequency. -/
def insertTree (t : Nat × Tree) : List (Nat × Tree) → List (Nat × Tree)
  | [] => [t]
  | u :: us => if t.1 ≤ u.1 then t :: u :: us else u :: insertTree t us

/-- Joins the two rarest trees until one is left. -/
def join : Nat → List (Nat × Tree) → List (Nat × Tree)
  | 0, ts => ts
  | fuel + 1, ts =>
    match ts with
    | a :: b :: rest => join fuel (insertTree (a.1 + b.1, .node a.2 b.2) rest)
    | ts => ts

/-- The depths of the symbols. -/
def depths : Tree → Nat → List (Nat × Nat)
  | .leaf s, d => [(s, d)]
  | .node l r, d => depths l (d + 1) ++ depths r (d + 1)

/-- The lengths of the codes for frequencies, none above a limit: as long as one is, the
frequencies are halved. -/
def lengthsWithin (limit : Nat) : Nat → List Nat → List Nat
  | 0, freqs => freqs.map fun _ => 0
  | fuel + 1, freqs =>
    let leaves := (freqs.zipIdx.filter fun p => p.1 ≠ 0).foldl
      (fun ts p => insertTree (p.1, .leaf p.2) ts) []
    let pairs := match join leaves.length leaves with
      | [(_, .leaf s)] => [(s, 1)]
      | [(_, t)] => depths t 0
      | _ => []
    if pairs.all fun p => p.2 ≤ limit then
      freqs.zipIdx.map fun p => (pairs.lookup p.2).getD 0
    else lengthsWithin limit fuel (freqs.map fun f => (f + 1) / 2)

/-- The codes of lengths: for each symbol its bits, the first one lowest, and how many they are. -/
def codesOf (lengths : List Nat) : Array (Nat × Nat) :=
  let counts := (List.range 16).map fun l => if l = 0 then 0 else lengths.count l
  let firsts := ((List.range 16).foldl (fun (acc : List Nat × Nat × Nat) l =>
    let (done, code, below) := acc
    let code := if l = 0 then 0 else 2 * (code + below)
    (code :: done, code, counts.getD l 0)) ([], 0, 0)).1.reverse.toArray
  let reversed (code width : Nat) : Nat :=
    (List.range width).foldl (fun r i => 2 * r + (code >>> i) % 2) 0
  (lengths.foldl (fun (acc : Array (Nat × Nat) × Array Nat) l =>
    let (done, next) := acc
    if l = 0 then (done.push (0, 0), next)
    else
      let code := next.getD l 0
      (done.push (reversed code l, l), next.setIfInBounds l (code + 1))) (#[], firsts)).1

/-! ### Writing -/

/-- Bytes that are written, with the bits of the last one. -/
structure Writer where
  out : ByteArray
  pending : Nat
  width : Nat

/-- Writes out the bytes that are complete. -/
def flushBytes : Nat → ByteArray → Nat → Nat → Writer
  | 0, out, pending, width => ⟨out, pending, width⟩
  | fuel + 1, out, pending, width =>
    if 8 ≤ width then flushBytes fuel (out.push (UInt8.ofNat (pending % 256))) (pending / 256) (width - 8)
    else ⟨out, pending, width⟩

/-- Writes bits, the low one first. -/
def Writer.bits (w : Writer) (value width : Nat) : Writer :=
  match w with
  | ⟨out, pending, held⟩ => flushBytes 4 out (pending + value <<< held) (held + width)

/-- Writes the code of a symbol. -/
def Writer.code (w : Writer) (codes : Array (Nat × Nat)) (s : Nat) : Writer :=
  let (value, width) := codes.getD s (0, 0)
  w.bits value width

/-- Writes an item. -/
def Writer.item (literals distances : Array (Nat × Nat)) (w : Writer) : Item → Writer
  | .literal b => w.code literals b.toNat
  | .copy length distance =>
    let (s, more, width) := lengthCode length
    let (d, further, widthD) := baseOf Inflate.distanceBases distance
    (((w.code literals s).bits more width).code distances d).bits further widthD

/-- How often each symbol of literals and lengths, and each of distances, occurs. -/
def frequencies (is : Array Item) : List Nat × List Nat :=
  let bump (a : Array Nat) (i : Nat) : Array Nat := a.modify i (· + 1)
  let (l, d) := is.foldl (fun (acc : Array Nat × Array Nat) item =>
    let (l, d) := acc
    match item with
    | .literal b => (bump l b.toNat, d)
    | .copy length distance =>
      (bump l (lengthCode length).1, bump d (baseOf Inflate.distanceBases distance).1))
    (Array.replicate 286 0, Array.replicate 30 0)
  ((bump l 256).toList, d.toList)

/-- The bytes of a number, the high one first. -/
def bigEndian (n : Nat) : List UInt8 :=
  [UInt8.ofNat (n >>> 24), UInt8.ofNat (n >>> 16), UInt8.ofNat (n >>> 8), UInt8.ofNat n]

/-- Compresses bytes into a stream. The lengths of the codes are written as they are, each in a code
of its own. -/
def run (input : ByteArray) : ByteArray :=
  let is := items input
  let (lf, df) := frequencies is
  let ll := lengthsWithin 15 40 lf
  let dl := lengthsWithin 15 40 df
  let all := ll ++ dl
  let cl := lengthsWithin 7 40 ((List.range 19).map fun s => all.count s)
  let codes := codesOf cl
  let w : Writer := ⟨⟨#[0x78, 0xDA]⟩, 0, 0⟩
  let w := ((((w.bits 1 1).bits 2 2).bits (ll.length - 257) 5).bits (dl.length - 1) 5).bits 15 4
  let w := Inflate.lengthOrder.foldl (fun w s => w.bits (cl.getD s 0) 3) w
  let w := all.foldl (fun w l => w.code codes l) w
  let literals := codesOf ll
  let distances := codesOf dl
  let w := is.foldl (fun w i => w.item literals distances i) w
  let w := w.code literals 256
  let w := w.bits 0 ((8 - w.width) % 8)
  (bigEndian (Inflate.adler32 input)).foldl ByteArray.push w.out

/-- The stream that holds these bytes. -/
def compress (bytes : List UInt8) : List UInt8 := (run ⟨bytes.toArray⟩).data.toList

end Stencil.Deflate
