import Purgo.Lib.Threaded
import Purgo.Png

/-!
# The wire format of the sandbox

`encode_result` and `decode_result`: how the guest hands the result of a filter to the host, as a
status, length-prefixed byte strings and a counted list. The encoder runs in the guest and the
decoder on the host, so the width of `usize` is a parameter of the decoder. Lengths, counts and
sizes are cut to 32 bits where the code casts them.
-/

namespace Purgo

open Rust

namespace Wire

/-- A clean file follows, with the records. -/
def statusOk : UInt8 := 0
/-- A reason follows. -/
def statusMalformed : UInt8 := 1
/-- The only format the guest knows. -/
def formatPng : UInt32 := 0
/-- The only option. -/
def flagStripMetadata : UInt32 := 1

/-- What the guest answers. -/
inductive DecodedResult where
  | ok : List UInt8 → List RemovedChunk → DecodedResult
  | malformed : String → DecodedResult
  deriving DecidableEq, Repr

/-- Why an answer cannot be decoded. -/
inductive WireError where
  | truncated : WireError
  | lengthOutOfRange : WireError
  | unknownStatus : UInt8 → WireError
  | invalidUtf8 : WireError
  deriving DecidableEq, Repr

/-! ## Encoding -/

/-- `put_u32` of a value cast to `u32`. -/
def putU32 (value : Nat) : List UInt8 := toLe 4 value

/-- `put_bytes`: the length goes before the bytes. -/
def putBytes (bytes : List UInt8) : List UInt8 := putU32 bytes.length ++ bytes

/-- What is put for one removed chunk. -/
def putChunk (chunk : RemovedChunk) : List UInt8 :=
  putBytes (asBytes chunk.name) ++ putU32 chunk.bytesRemoved

/-- `encode_result`. -/
def encodeResult : Except FilterError (List UInt8 × List RemovedChunk) → List UInt8
  | .ok (bytes, removed) =>
    statusOk :: (putBytes bytes ++ (putU32 removed.length ++ removed.flatMap putChunk))
  | .error (.malformed reason) => statusMalformed :: putBytes (asBytes reason)

/-! ## Decoding -/

/-- `Reader`: the buffer, and how much of it has been read. -/
structure Reader where
  buf : List UInt8
  pos : Nat

/-- A run that moves the reader on. -/
abbrev Reading (α : Type) : Type := Threaded.Run Reader WireError α

namespace Reader

variable (w : Width)

/-- `Reader::take`. The end is computed with a checked addition, since the length comes from the
guest. -/
def take (n : Nat) : Reading (List UInt8) := do
  let r ← get
  match checkedAdd w r.pos n with
  | none => throw .lengthOutOfRange
  | some stop =>
    -- nothing is consumed unless all of it is there
    if stop ≤ r.buf.length then
      set { r with pos := stop }
      return (r.buf.drop r.pos).take n
    else
      throw .truncated

/-- `Reader::u8`. -/
def u8 : Reading UInt8 := do
  return (← take w 1).getD 0 0

/-- `Reader::u32`, in little-endian order. -/
def u32 : Reading Nat := do
  return fromLe (← take w 4)

/-- `Reader::bytes`, after their length. -/
def bytes : Reading (List UInt8) := do
  let len ← u32 w
  take w len

/-- `Reader::string`, which must be UTF-8. -/
def string : Reading String := do
  match fromUtf8 (← bytes w) with
  | some s => return s
  | none => throw .invalidUtf8

/-- One round of the loop of `decode_result`. -/
def chunk : Reading RemovedChunk := do
  let name ← string w
  let bytesRemoved ← u32 w
  return { name := name, bytesRemoved := bytesRemoved }

/-- The loop of `decode_result`. -/
def chunks : Nat → Reading (List RemovedChunk)
  | 0 => return []
  | count + 1 => do
    let first ← chunk w
    let others ← chunks count
    return first :: others

/-- The body of `decode_result`, on a reader. -/
def result : Reading DecodedResult := do
  let status ← u8 w
  if status = statusOk then
    let bytes ← bytes w
    let count ← u32 w
    let removed ← chunks w count
    return .ok bytes removed
  else if status = statusMalformed then
    return .malformed (← string w)
  else
    throw (.unknownStatus status)

end Reader

/-- `decode_result`, on machine words of width `w`. What follows the result is not looked at. -/
def decodeResult (w : Width) (buf : List UInt8) : Except WireError DecodedResult :=
  ((Reader.result w).run { buf := buf, pos := 0 }).map Prod.fst

end Wire

end Purgo
