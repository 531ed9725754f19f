import Purgo.Guest

/-!
# The sandbox host

`WasmtimeSandbox::run_disarm`: instantiate the guest, write the file into its memory, let it disarm
the file, read the result back and decode it. The guest is any module, known only by what its
exports do to the state of an instance; each of them may trap, and what it returns need not make
sense. `Guest.module` is the module of this repository.
-/

namespace Purgo

open Rust Threaded Wire

/-- A linear memory that is exported. -/
structure MemoryExport (σ : Type) where
  get : σ → Memory
  set : σ → Memory → σ

/-- A compiled module under the engine, with instances of states `σ`: what `get_memory`, `get_func`
and `typed` find. Errors are given by what is displayed of them. -/
structure WasmModule (σ : Type) where
  setFuel : Nat → Except String Unit
  /-- instantiation, under a limit on the memory -/
  instantiate : Nat → Except String σ
  memory : Option (MemoryExport σ)
  alloc : Option (Except String (UInt32 → Run σ String UInt32))
  dealloc : Option (Except String (UInt32 → UInt32 → Run σ String Unit))
  disarm : Option (Except String (UInt32 → UInt32 → UInt32 → UInt32 → Run σ String UInt64))
  /-- what is displayed of an access out of range -/
  accessError : String

/-- `FUEL_BUDGET`. -/
def fuelBudget : Nat := 10_000_000_000
/-- `MAX_GUEST_MEMORY`: half a gibibyte. -/
def maxGuestMemory : Nat := 512 * 1024 * 1024
/-- `RESULT_LEN_SLACK`, for the records of a short input. -/
def resultLenSlack : Nat := 64 * 1024

/-- `usize::MAX` of the host. -/
def usizeMax : Nat := 2 ^ 64 - 1

/-- The multiplication and the addition saturate. -/
def resultLenCap (inputLen : Nat) : Nat :=
  min (min (inputLen * 2) usizeMax + resultLenSlack) usizeMax

/-- `sandbox_failure`. -/
def sandboxFailure (reason : String) : DomainError := .sandboxFailure reason

/-- `{:?}` of an error of the decoder. -/
def Wire.WireError.debug : WireError → String
  | .truncated => "Truncated"
  | .lengthOutOfRange => "LengthOutOfRange"
  | .unknownStatus status => s!"UnknownStatus({status})"
  | .invalidUtf8 => "InvalidUtf8"

variable {σ α : Type}

/-- A run on the store of an instance. -/
abbrev HostRun (σ α : Type) : Type := Run σ DomainError α

/-- Call an export; a trap is reported with what was attempted. -/
def orFailure (attempt : String) (call : Run σ String α) : HostRun σ α := fun store =>
  match call store with
  | .ok r => .ok r
  | .error e => .error (sandboxFailure s!"{attempt}: {e}")

/-- A call that succeeds is not touched by what its trap would be reported as. -/
theorem orFailure_eq_ok {attempt : String} {call : Run σ String α} {s t : σ} {a : α} :
    (orFailure attempt call).run s = .ok (a, t) ↔ call.run s = .ok (a, t) := by
  change orFailure attempt call s = _ ↔ call s = _
  rw [orFailure]
  rcases call s with e | r
  · simp
  · simp

/-- The exports that `GuestAbi::from_instance` has found. -/
structure GuestAbi (σ : Type) where
  memory : MemoryExport σ
  alloc : UInt32 → Run σ String UInt32
  dealloc : UInt32 → UInt32 → Run σ String Unit
  disarm : UInt32 → UInt32 → UInt32 → UInt32 → Run σ String UInt64
  /-- what is displayed of an access out of range -/
  accessError : String

namespace GuestAbi

/-- `getf`, and the check of the type. -/
def getf (name : String) : Option (Except String α) → Except DomainError α
  | none => .error (sandboxFailure s!"guest exports no `{name}`")
  | some (.error e) => .error (sandboxFailure s!"`{name}` has the wrong signature: {e}")
  | some (.ok func) => .ok func

/-- `GuestAbi::from_instance`: every export must be there, with the type it should have. -/
def fromInstance (M : WasmModule σ) : Except DomainError (GuestAbi σ) := do
  match M.memory with
  | none => throw (sandboxFailure "guest exports no `memory`")
  | some memory =>
    let alloc ← getf "alloc" M.alloc
    let dealloc ← getf "dealloc" M.dealloc
    let disarm ← getf "disarm" M.disarm
    return { memory, alloc, dealloc, disarm, accessError := M.accessError }

variable (abi : GuestAbi σ)

/-- `GuestAbi::write_input`: the address is the guest's choice, and it is checked before the write.
-/
def writeInput (data : List UInt8) : HostRun σ UInt32 := do
  if data.length < 2 ^ 32 then
    let len := UInt32.ofNat data.length
    let ptr ← orFailure "guest `alloc` trapped" (abi.alloc len)
    let store ← get
    match (abi.memory.get store).write ptr.toNat data with
    | none =>
      let e := abi.accessError
      throw (sandboxFailure s!"cannot write input into guest memory: {e}")
    | some memory =>
      set (abi.memory.set store memory)
      return ptr
  else
    throw (sandboxFailure "input too large for the 32-bit sandbox")

/-- `GuestAbi::read`: a range that the guest names, which must lie in its memory. -/
def read (ptr len : UInt32) : HostRun σ (List UInt8) := do
  let store ← get
  match (abi.memory.get store).read ptr.toNat len.toNat with
  | none =>
    let e := abi.accessError
    throw (sandboxFailure s!"cannot read result from guest memory: {e}")
  | some buf => return buf

end GuestAbi

namespace WasmtimeSandbox

/-- `format_code`: the sandbox takes PNG files only. -/
def formatCode : FileFormat → Except DomainError UInt32
  | .png => .ok formatPng
  | other => .error (.unsupportedFormat other)

/-- `options_bits`: what of the policy the guest gets to know. -/
def options (policy : Policy) : UInt32 :=
  if policy.stripMetadata then 0 ||| flagStripMetadata else 0

/-- A decoded result as that of a disarmer. Neither kind is the sandbox's failure. -/
def toOutput : DecodedResult → Except DomainError DisarmOutput
  | .ok bytes removed => .ok { bytes := bytes, removed := removed.map pngRemovedItem }
  | .malformed reason => .error (pngMalformed reason)

/-- The calls of the exports, and what is made of the result. -/
def exchange (abi : GuestAbi σ) (input : List UInt8) (formatCode options : UInt32) :
    HostRun σ DisarmOutput := do
  let len := UInt32.ofNat input.length
  let inputPtr ← abi.writeInput input
  let packed ←
    orFailure "guest `disarm` trapped" (abi.disarm inputPtr len formatCode options)
  -- the file goes back before the result is read
  orFailure "guest `dealloc` trapped" (abi.dealloc inputPtr len)
  let resultPtr := (packed >>> 32).toUInt32
  let resultLen := (packed &&& 0xFFFFFFFF).toUInt32
  -- checked before the host allocates
  let cap := resultLenCap input.length
  if resultLen.toNat > cap then
    throw (sandboxFailure s!"guest result length {resultLen} exceeds the {cap}-byte cap")
  else
    let encoded ← abi.read resultPtr resultLen
    orFailure "guest `dealloc` trapped" (abi.dealloc resultPtr resultLen)
    match decodeResult .w64 encoded with
    | .error e =>
      let e := e.debug
      throw (sandboxFailure s!"guest returned an undecodable result: {e}")
    | .ok decoded => liftM (toOutput decoded)

/-- `WasmtimeSandbox::run_disarm`, on a fresh instance every time. -/
def runDisarm (M : WasmModule σ) (format : FileFormat) (input : List UInt8) (policy : Policy) :
    Except DomainError DisarmOutput := do
  let formatCode ← formatCode format
  let options := options policy
  (M.setFuel fuelBudget).mapError fun e => sandboxFailure s!"cannot set fuel budget: {e}"
  let store ← (M.instantiate maxGuestMemory).mapError
    fun e => sandboxFailure s!"cannot instantiate guest: {e}"
  let abi ← GuestAbi.fromInstance M
  let (output, _) ← (exchange abi input formatCode options).run store
  return output

end WasmtimeSandbox

namespace Guest

variable {η : Type} (R : Runtime η)

/-- The exports of the guest. -/
def abi : GuestAbi (Guest η) where
  memory := { get := Guest.memory, set := fun g memory => { g with memory := memory } }
  alloc := alloc R
  dealloc := dealloc R
  disarm := disarm R
  accessError := R.accessError

/-- The module of the guest; its memory is within the limit. -/
def module : WasmModule (Guest η) where
  setFuel _ := .ok ()
  instantiate _ := .ok (start R)
  memory := some (abi R).memory
  alloc := some (.ok (abi R).alloc)
  dealloc := some (.ok (abi R).dealloc)
  disarm := some (.ok (abi R).disarm)
  accessError := R.accessError

end Guest

end Purgo
