import Mathlib.Data.List.AList
import Purgo.Lib.Memory
import Purgo.Wire

/-!
# The sandbox guest

The three functions the guest exports. They share a registry of buffers, keyed by address, through
which the host hands a file in and takes the result out: the bytes of a buffer lie in the guest's
linear memory, where the host reads and writes them.

What is not the guest's own code is the runtime under it, mostly the allocator. It comes as a
`Runtime`, which decides where buffers go, what the memory no buffer lies in holds, and when memory
runs out. A call that panics traps.
-/

namespace Purgo

open Rust Threaded Wire

/-- The runtime under the guest. Its own state, `η`, lies in memory no buffer lies in. -/
structure Runtime (η : Type) where
  /-- the state of a fresh instance -/
  start : η
  /-- room for a buffer of this many bytes and its entry in the registry -/
  allocate : η → Nat → Option (UInt32 × η)
  /-- give back a buffer at this address, of this many bytes, and its entry -/
  free : η → UInt32 → Nat → η
  /-- room for the temporaries of a call of `disarm` with this input, format and options -/
  enter : η → Option (List UInt8) → UInt32 → UInt32 → Option η
  /-- give back the temporaries of the call -/
  leave : η → η
  /-- how large the linear memory is -/
  size : η → Nat
  /-- the bytes of linear memory no buffer lies in -/
  byteAt : η → Nat → UInt8
  /-- what the host is told of a trap -/
  trap : String
  /-- what the host is told of an access out of range -/
  accessError : String

/-- The state of the guest: its memory, and the length of each buffer in it. -/
structure Guest (η : Type) where
  heap : η
  memory : Memory
  buffers : AList fun _ : UInt32 => Nat

namespace Guest

variable {η : Type}

/-- A call of an export. -/
abbrev Call (η α : Type) : Type := Run (Guest η) String α

/-- The bytes of the buffer at an address. -/
def content (g : Guest η) (ptr : UInt32) : Option (List UInt8) :=
  (g.buffers.lookup ptr).map fun size => g.memory.range ptr.toNat size

/-- Some buffer lies over the address. -/
def covers (g : Guest η) (a : Nat) : Bool :=
  g.buffers.entries.any fun e => e.1.toNat ≤ a && a < e.1.toNat + e.2

variable (R : Runtime η)

/-- The runtime goes on to another state, and with it the memory no buffer lies in. -/
def settle (heap : η) (g : Guest η) : Guest η where
  heap := heap
  memory :=
    { bytes := fun a => if g.covers a then g.memory.bytes a else R.byteAt heap a,
      size := R.size heap }
  buffers := g.buffers

/-- A fresh instance. -/
def start : Guest η :=
  { heap := R.start, memory := { bytes := R.byteAt R.start, size := R.size R.start }, buffers := ∅ }

/-- `BUFFERS.insert`: a buffer that was there is dropped. -/
def insertBuffer (ptr : UInt32) (size : Nat) (g : Guest η) : Guest η :=
  let g' := { g with buffers := g.buffers.insert ptr size }
  match g.buffers.lookup ptr with
  | none => g'
  | some old => g'.settle R (R.free g.heap ptr old)

/-- `BUFFERS.remove`: the buffer is dropped. -/
def removeBuffer (ptr : UInt32) (g : Guest η) : Guest η :=
  match g.buffers.lookup ptr with
  | none => g
  | some old => { g with buffers := g.buffers.erase ptr }.settle R (R.free g.heap ptr old)

/-- `vec![0u8; size]`. -/
def zeroed (size : Nat) : Call η UInt32 := do
  let g ← get
  match R.allocate g.heap size with
  | none => throw R.trap
  | some (ptr, heap) =>
    let g' := g.settle R heap
    set { g' with memory := g'.memory.patch ptr.toNat (List.replicate size 0) }
    return ptr

/-- `alloc`: a buffer of zeros for the host to write into, entered in the registry. -/
def alloc (len : UInt32) : Call η UInt32 := do
  let ptr ← zeroed R len.toNat
  modify (insertBuffer R ptr len.toNat)
  return ptr

/-- `dealloc`: the length the host gives is ignored, the registry knows it. -/
def dealloc (ptr _len : UInt32) : Call η Unit :=
  modify (removeBuffer R ptr)

/-- `run`, on the 32-bit words of the guest. -/
def run (format : UInt32) (input : List UInt8) (options : UInt32) :
    Exec FilterError (List UInt8 × List RemovedChunk) :=
  if format = formatPng then
    disarmPng .w32 input { stripMetadata := options &&& flagStripMetadata != 0 }
  else Exec.fail (.malformed "unsupported sandbox format")

/-- What a call of `disarm` works on. -/
def answer (format options : UInt32) :
    Option (List UInt8) → Exec FilterError (List UInt8 × List RemovedChunk)
  | some input => run format input options
  | none => Exec.fail (.malformed "unknown input buffer")

/-- A panic traps. -/
def orTrap {α : Type} : Exec FilterError α → Call η (Except FilterError α)
  | .ok a => return .ok a
  | .error (.error e) => return .error e
  | .error _ => throw R.trap

/-- The runtime goes on, or has no memory left. -/
def proceed (next : η → Option η) : Call η Unit := do
  let g ← get
  match next g.heap with
  | none => throw R.trap
  | some heap => set (g.settle R heap)

/-- `slot.copy_from_slice`, when there is such a slot. -/
def fill (ptr : UInt32) (bytes : List UInt8) : Call η Unit := do
  let g ← get
  match g.buffers.lookup ptr with
  | none => return ()
  | some size =>
    -- slices of different lengths panic
    if size = bytes.length then
      set { g with memory := g.memory.patch ptr.toNat bytes }
    else throw R.trap

/-- A pointer and a length in one word. -/
def pack (ptr len : UInt32) : UInt64 := (ptr.toUInt64 <<< 32) ||| len.toUInt64

/-- `disarm`: what the host wrote is disarmed, and the encoded result lies in a new buffer, whose
address and length are returned in one word. -/
def disarm (ptr len format options : UInt32) : Call η UInt64 := do
  let g ← get
  let input := (g.content ptr).map fun buf => buf.take (min len.toNat buf.length)
  -- the copy of the input, the result and its encoding are vectors outside the registry
  proceed R fun heap => R.enter heap input format options
  let result ← orTrap R (answer format options input)
  let encoded := encodeResult result
  let resultLen := UInt32.ofNat encoded.length
  -- the host has to give this buffer back
  let resultPtr ← alloc R resultLen
  fill R resultPtr encoded
  proceed R fun heap => some (R.leave heap)
  return pack resultPtr resultLen

end Guest

end Purgo
