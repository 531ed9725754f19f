import Purgo.Domain
import Purgo.Lib.Bytes
import Purgo.Lib.Exec
import Purgo.Lib.Text

/-!
# The PNG filter and its disarmer

`disarmPng` of `purgo-filters`: walk the chunks after the signature, copy the ones on the
allow-list, record the others. The filter runs in two places, on the 64-bit host and in the 32-bit
sandbox guest, so the width of `usize` is a parameter. `PngDisarmer.disarm` runs it in the process
and says in the domain's words what was removed or what is wrong.
-/

namespace Purgo

open Rust

/-- The error of the filters. -/
inductive FilterError where
  | malformed : String → FilterError
  deriving DecidableEq, Repr

/-- What the filter is asked for. -/
structure PngOptions where
  stripMetadata : Bool
  deriving DecidableEq, Repr

/-- A chunk the filter left out. -/
structure RemovedChunk where
  name : String
  bytesRemoved : Nat
  deriving DecidableEq, Repr

namespace Png

/-- What every PNG file begins with. -/
def signature : List UInt8 := [0x89, 0x50, 0x4E, 0x47, 0x0D, 0x0A, 0x1A, 0x0A]

/-- The kind of the last chunk. -/
def iend : List UInt8 := ascii "IEND"

/-- The chunk types that are copied. -/
def keep : List (List UInt8) :=
  [ascii "IHDR", ascii "PLTE", ascii "IDAT", iend, ascii "tRNS", ascii "gAMA", ascii "cHRM",
    ascii "sRGB", ascii "pHYs"]

/-- The variables of the loop. -/
structure State where
  i : Nat
  out : List UInt8
  removed : List RemovedChunk

/-- A chunk of this type is copied under these options. -/
def keeps (options : PngOptions) (kind : List UInt8) : Bool :=
  !options.stripMetadata || keep.any (kind == ·)

/-- Where a chunk whose type is at `typeStart` ends, when that is a `usize`. -/
def crcEnd (w : Width) (typeStart length : Nat) : Option Nat :=
  ((checkedAdd w typeStart 4).bind fun n => checkedAdd w n length).bind fun n => checkedAdd w n 4

/-- One round of the loop: the chunk at `i`. -/
def round (w : Width) (data : List UInt8) (options : PngOptions) (st : State) :
    Exec FilterError (LoopFlow State (List UInt8 × List RemovedChunk)) := do
  if st.i = data.length then
    return .done (st.out, st.removed)
  if (← add w st.i 8) > data.length then
    Exec.fail (.malformed "truncated chunk header")
  else
    let b₀ ← index data st.i
    let b₁ ← index data (← add w st.i 1)
    let b₂ ← index data (← add w st.i 2)
    let b₃ ← index data (← add w st.i 3)
    let length := fromBe [b₀, b₁, b₂, b₃]
    let typeStart ← add w st.i 4
    let kind ← slice data typeStart (← add w typeStart 4)
    -- the length is the file's own claim: only here are the additions checked
    match (crcEnd w typeStart length).filter (· ≤ data.length) with
    | none => Exec.fail (.malformed "chunk runs past end of file")
    | some stop =>
      let whole ← slice data st.i stop
      let st' : State :=
        if keeps options kind then
          { i := stop, out := st.out ++ whole, removed := st.removed }
        else
          { i := stop, out := st.out,
            removed := st.removed ++ [⟨fromUtf8Lossy kind, whole.length⟩] }
      -- whatever follows is left out, and not reported
      if kind = iend then
        return .done (st'.out, st'.removed)
      else
        return .next st'

end Png

open Png in
/-- `disarm_png`. Every round advances, so the length of the file bounds their number. -/
def disarmPng (w : Width) (data : List UInt8) (options : PngOptions) :
    Exec FilterError (List UInt8 × List RemovedChunk) :=
  if signature <+: data then
    loop (round w data options) (data.length + 1)
      { i := signature.length, out := signature, removed := [] }
  else Exec.fail (.malformed "missing PNG signature")

/-! ## The disarmer -/

/-- `png_malformed`. -/
def pngMalformed (reason : String) : DomainError := .malformedInput .png reason

/-- `to_domain_error`. -/
def toDomainError : FilterError → DomainError
  | .malformed reason => pngMalformed reason

/-- `png_removed_item`: what is reported of a dropped chunk. -/
def pngRemovedItem : RemovedChunk → RemovedItem
  | { name, bytesRemoved } =>
    { location := s!"chunk {name}", threat := .metadata,
      detail := s!"ancillary PNG chunk '{name}'", bytesRemoved := bytesRemoved }

/-- `PngDisarmer::disarm`. -/
def PngDisarmer.disarm (w : Width) (artifact : Artifact) (policy : Policy) :
    Exec DomainError DisarmOutput := do
  let options : PngOptions := { stripMetadata := policy.stripMetadata }
  let (bytes, removed) ← (disarmPng w artifact.bytes options).mapErr toDomainError
  return { bytes := bytes, removed := removed.map pngRemovedItem }

end Purgo
