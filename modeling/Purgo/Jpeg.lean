import Purgo.Domain
import Purgo.Lib.Bytes
import Purgo.Lib.Exec

/-!
# The JPEG disarmer

`JpegDisarmer::disarm`: walk the marker segments, copy a scan with the entropy-coded bytes after
it, leave out `APPn` and `COM` segments, stop at `EOI`. As for the PNG filter, the width of
`usize` is a parameter.
-/

namespace Purgo

open Rust

namespace Jpeg

/-- Start of image. -/
def soi : UInt8 := 0xD8
/-- End of image. -/
def eoi : UInt8 := 0xD9
/-- Start of scan: a header follows, then the entropy-coded data. -/
def sos : UInt8 := 0xDA
/-- A marker for temporary use in arithmetic coding, without a payload. -/
def tem : UInt8 := 0x01
/-- The first application segment, which is that of JFIF. -/
def app0 : UInt8 := 0xE0
/-- The last application segment. -/
def app15 : UInt8 := 0xEF
/-- A comment. -/
def com : UInt8 := 0xFE

/-- `malformed`. -/
def malformed (reason : String) : DomainError := .malformedInput .jpeg reason

/-- A restart marker `RSTn`. -/
def isRestart (marker : UInt8) : Bool := 0xD0 ≤ marker && marker ≤ 0xD7

/-- `is_standalone`: no length follows the marker. -/
def isStandalone (marker : UInt8) : Bool :=
  isRestart marker || marker == soi || marker == eoi || marker == tem

/-- After a run of `FF` inside a scan, the byte makes the run entropy-coded data. -/
def isStuffing (b : UInt8) : Bool := b == 0x00 || isRestart b

section Loops

variable {ε : Type}

/-- One round of the inner loop of both functions below,
`while m < data.len() && data[m] == 0xFF { m += 1; }`. -/
def fillRound (w : Width) (data : List UInt8) (m : Nat) : Exec ε (LoopFlow Nat Nat) := do
  if m < data.length then
    if (← index data m) = 0xFF then
      return .next (← add w m 1)
    else
      return .done m
  else
    return .done m

/-- The first position from `m` on that is not an `FF`. -/
def fillEnd (w : Width) (data : List UInt8) (m : Nat) : Exec ε Nat :=
  loop (fillRound w data) (data.length + 1) m

/-- One round of `scan_data_end`. -/
def scanRound (w : Width) (data : List UInt8) (k : Nat) : Exec ε (LoopFlow Nat Nat) := do
  if k < data.length then
    if (← index data k) ≠ 0xFF then
      return .next (← add w k 1)
    let m ← fillEnd w data k
    -- the data ends before the whole run, not inside it
    if m ≥ data.length then
      return .done k
    let next ← index data m
    if isStuffing next then
      return .next (← add w m 1)
    return .done k
  else
    return .done data.length

/-- `scan_data_end`. -/
def scanDataEnd (w : Width) (data : List UInt8) (start : Nat) : Exec ε Nat :=
  loop (scanRound w data) (data.length + 1) start

end Loops

/-- The variables of the loop. -/
structure State where
  i : Nat
  out : List UInt8
  removed : List RemovedItem
  seenScan : Bool

/-- The length field after a marker and the end of what it measures. Scan headers and segments
are checked alike, under texts of their own. -/
def lengthField (w : Width) (data : List UInt8) (afterMarker : Nat)
    (truncated invalid pastEnd : String) : Exec DomainError (Nat × Nat) := do
  if (← add w afterMarker 2) > data.length then
    Exec.fail (malformed truncated)
  else
    let hi ← index data afterMarker
    let lo ← index data (← add w afterMarker 1)
    let len := fromBe [hi, lo]
    if len < 2 then
      Exec.fail (malformed invalid)
    else
      let stop ← add w afterMarker len
      if stop > data.length then
        Exec.fail (malformed pastEnd)
      else
        return (len, stop)

/-- The segment is left out under the policy. -/
def dropIt (policy : Policy) (marker : UInt8) : Bool :=
  let isApp := app0 ≤ marker && marker ≤ app15
  let isCom := marker == com
  let keepThisApp := marker == app0 && policy.keepJfif
  policy.stripMetadata && (isCom || (isApp && !keepThisApp))

/-- The record of a segment that is left out. -/
def removedSegment (marker : UInt8) (bytesRemoved : Nat) : RemovedItem :=
  if marker == com then
    { location := "segment COM", threat := .metadata, detail := "comment segment",
      bytesRemoved := bytesRemoved }
  else
    let n := (marker - app0).toNat
    { location := s!"segment APP{n}", threat := .metadata,
      detail := s!"application segment APP{n} (EXIF/XMP/ICC/thumbnail)",
      bytesRemoved := bytesRemoved }

/-- One round of the loop: the marker at `i` and what belongs to it. -/
def round (w : Width) (data : List UInt8) (policy : Policy) (st : State) :
    Exec DomainError (LoopFlow State DisarmOutput) := do
  if st.i ≥ data.length then
    if st.seenScan then
      return .done { bytes := st.out, removed := st.removed }
    else
      Exec.fail (malformed "truncated before start of scan")
  else if (← index data st.i) ≠ 0xFF then
    Exec.fail (malformed "expected a marker")
  else
    let j ← fillEnd w data st.i
    if j ≥ data.length then
      Exec.fail (malformed "dangling marker prefix")
    else
      let marker ← index data j
      let afterMarker ← add w j 1
      if marker = eoi then
        -- whatever follows is left out, and not reported
        return .done { bytes := st.out ++ [0xFF, eoi], removed := st.removed }
      else if marker = sos then
        let (_, headerEnd) ← lengthField w data afterMarker "truncated scan header length"
          "invalid scan header length" "scan header runs past end of file"
        let dataEnd ← scanDataEnd w data headerEnd
        -- header and entropy-coded data are copied in one piece
        let copied ← slice data afterMarker dataEnd
        return .next
          { st with i := dataEnd, out := st.out ++ [0xFF, sos] ++ copied, seenScan := true }
      else if isStandalone marker then
        return .next { st with i := afterMarker, out := st.out ++ [0xFF, marker] }
      else
        let (len, segEnd) ← lengthField w data afterMarker "truncated segment length"
          "invalid segment length" "segment runs past end of file"
        if dropIt policy marker then
          -- the marker counts too, but not the fill bytes before it
          let bytesRemoved ← add w len 2
          return .next
            { st with i := segEnd, removed := st.removed ++ [removedSegment marker bytesRemoved] }
        else
          let copied ← slice data afterMarker segEnd
          return .next { st with i := segEnd, out := st.out ++ [0xFF, marker] ++ copied }

end Jpeg

open Jpeg in
/-- `JpegDisarmer::disarm`. Every round advances, so the length of the file bounds their number. -/
def JpegDisarmer.disarm (w : Width) (artifact : Artifact) (policy : Policy) :
    Exec DomainError DisarmOutput :=
  if [0xFF, soi] <+: artifact.bytes then
    loop (round w artifact.bytes policy) (artifact.bytes.length + 1)
      { i := 2, out := [0xFF, soi], removed := [], seenScan := false }
  else Exec.fail (malformed "missing SOI marker")

end Purgo
