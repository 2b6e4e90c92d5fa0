import Stencil.Binary.Base64
import Stencil.Binary.Deflate
import Stencil.Fault
import Stencil.Text.Utf8

/-!
# Values in records

An appliance stores short named texts only. A value is written as JSON, compressed, spelled in
Base64 and cut into stretches; each stretch is a record, named by the key with a number behind it.
`Record.pack` writes the records of a value, `Record.unpack` collects them from any list of records
by counting up until a name is missing. The program ends if the count comes to the last number there
is: `Record.load` is `Record.unpack` with that end.
-/

namespace Stencil

/-- A named stretch of text. -/
structure Record where
  /-- The key with the number of the stretch. -/
  name : String
  data : String
deriving DecidableEq, Repr, Inhabited

/-- A way to make bytes shorter, and back. -/
structure Compression where
  compress : List UInt8 → List UInt8
  /-- The bytes, or what is wrong with the stream. -/
  decompress : List UInt8 → Except String (List UInt8)

/-- Compression as zlib streams. -/
def zlib : Compression := ⟨Deflate.compress, fun s => (Inflate.decompress s).mapError Inflate.Fault.message⟩

namespace Record

/-- How many bytes of text a record holds at most. -/
def maxData : Nat := 64512

/-- How many numbers there are. The program ends where it would count on behind the last one. -/
def indexLimit : Nat := Nat.pow 2 64

/-- The decimal digits of a number. -/
def digits (n : Nat) : List Char := Nat.toDigits 10 n

/-- The name of the record with a number. -/
def nameAt (key : String) (n : Nat) : String := String.ofList (key.toList ++ digits n)

/-- The records of stretches of text, numbered from `i` on. -/
def number (key : String) (offset : Nat) : Nat → List String → List Record
  | _, [] => []
  | i, d :: ds => ⟨nameAt key (offset + i), d⟩ :: number key offset (i + 1) ds

/-- The stretches of a text, as long as a record holds. -/
def stretches (payload : String) : List String :=
  (chunks maxData (Text.bytes payload)).map Text.ofBytesLossy

/-- Cuts a text into records. -/
def split (key : String) (payload : String) (offset : Nat) : List Record :=
  number key offset 0 (stretches payload)

/-- The text that stands for a value. -/
def encode (c : Compression) (value : Json) : String :=
  String.ofList (Base64.encode (c.compress (Text.bytes value.toText)))

/-- The records of a value. -/
def pack (c : Compression) (key : String) (value : Json) (offset : Nat) : List Record :=
  split key (encode c value) offset

/-- The value that a text stands for, or what is wrong with it. -/
def decode (c : Compression) (payload : String) : Except String Json := do
  let bytes ← (Base64.decode (Text.bytes payload)).mapError fun e => "invalid base64: " ++ e.message
  let plain ← (c.decompress bytes).mapError fun e => "inflate failed: " ++ e
  match Text.ofBytes? plain with
  | none => .error ("inflate failed: " ++ IoFault.notText.message)
  | some text => (Json.ofText text).mapError fun e => "invalid JSON: " ++ e.message

/-- The data of the last record of a name. -/
def dataOf (records : List Record) (name : String) : Option String :=
  (records.reverse.find? fun r => r.name == name).map (·.data)

/-- The data of the records numbered from `i` on, up to the first number that is missing. There are
no more of them than records. -/
def collect (records : List Record) (key : String) (offset : Nat) : Nat → Nat → List String
  | 0, _ => []
  | fuel + 1, i =>
    match dataOf records (nameAt key (offset + i)) with
    | some d => d :: collect records key offset fuel (i + 1)
    | none => []

/-- The value of the records of a key. -/
def unpack (c : Compression) (records : List Record) (key : String) (offset : Nat) : Except Problem Json :=
  match collect records key offset records.length 0 with
  | [] => .error (.corruptValue key "no records found")
  | parts => (decode c (String.join parts)).mapError (.corruptValue key)

/-- The value of the records of a key, unless the record with the last number is among them. -/
def load (c : Compression) (records : List Record) (key : String) (offset : Nat) : Except Fault Json :=
  if indexLimit ≤ offset + (collect records key offset records.length 0).length then .error .overflow
  else (unpack c records key offset).mapError .problem

end Record

end Stencil
