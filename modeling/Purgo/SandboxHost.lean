import Purgo.Sandbox
import Purgo.WireSound

/-!
# The host against any guest

The guest is an adversary here: its exports do whatever they like to the state of the instance and
answer what they like, its memory holds what it likes, and each call may trap. A `Session` is the
one way through all of it, from the instantiation to the bytes of a result that was short enough,
in range and given back. `Session.runDisarm_eq` says what the host makes of one, and
`session_or_failure`, by going through the calls, that whatever else happens is reported as a
failure of the sandbox. How much the host reads is told by a second host, which has an allowance
for it and does the same (`runMetered_eq`).
-/

namespace Purgo

open Rust Threaded Wire

namespace WasmtimeSandbox

variable {σ : Type}

/-- The address in a packed result. -/
def resultPtr (packed : UInt64) : UInt32 := (packed >>> 32).toUInt32

/-- The length in a packed result. -/
def resultLen (packed : UInt64) : UInt32 := (packed &&& 0xFFFFFFFF).toUInt32

/-- A run on the instance in which every call returns and every check passes, as far as the bytes
of the result. -/
structure Session (M : WasmModule σ) (input : List UInt8) (policy : Policy) where
  abi : GuestAbi σ
  /-- the instance: fresh, after `alloc`, after `disarm`, and after each `dealloc` -/
  (fresh allocated disarmed freed done : σ)
  /-- the memory once the file is in it -/
  memory : Memory
  ptr : UInt32
  packed : UInt64
  encoded : List UInt8
  setFuel : M.setFuel fuelBudget = .ok ()
  instantiate : M.instantiate maxGuestMemory = .ok fresh
  fromInstance : GuestAbi.fromInstance M = .ok abi
  input_lt : input.length < 2 ^ 32
  alloc : (abi.alloc (UInt32.ofNat input.length)).run fresh = .ok (ptr, allocated)
  write : (abi.memory.get allocated).write ptr.toNat input = some memory
  disarm : (abi.disarm ptr (UInt32.ofNat input.length) formatPng (options policy)).run
    (abi.memory.set allocated memory) = .ok (packed, disarmed)
  dealloc_input : (abi.dealloc ptr (UInt32.ofNat input.length)).run disarmed = .ok ((), freed)
  len_le : (resultLen packed).toNat ≤ resultLenCap input.length
  read : (abi.memory.get freed).read (resultPtr packed).toNat (resultLen packed).toNat =
    some encoded
  dealloc_result : (abi.dealloc (resultPtr packed) (resultLen packed)).run freed = .ok ((), done)

/-- What the host makes of the bytes of a result. -/
def outcome (encoded : List UInt8) : Except DomainError DisarmOutput :=
  match decodeResult .w64 encoded with
  | .error e =>
    let e := e.debug
    .error (sandboxFailure s!"guest returned an undecodable result: {e}")
  | .ok decoded => toOutput decoded

/-- The error is a failure of the sandbox. -/
def IsFailure (e : DomainError) : Prop := ∃ reason, e = sandboxFailure reason

end WasmtimeSandbox

open WasmtimeSandbox

variable {σ α : Type}

/-! ## The parts of a run -/

/-- A trap is a failure of the sandbox. -/
theorem orFailure_ensures (attempt : String) (call : Run σ String α) (s : σ) :
    Ensures (orFailure attempt call) s (fun a t => call.run s = .ok (a, t)) IsFailure := by
  refine ⟨fun a t h => orFailure_eq_ok.mp h, ?_⟩
  intro e h
  change orFailure attempt call s = _ at h
  rw [orFailure] at h
  split at h
  · cases h
  · exact ⟨_, (Except.error.inj h).symm⟩

namespace GuestAbi

variable {abi : GuestAbi σ}

/-- A guest that gives room in its memory gets the input. -/
theorem writeInput_run {data : List UInt8} {s s₁ : σ} {ptr : UInt32} {memory : Memory}
    (hlen : data.length < 2 ^ 32)
    (halloc : (abi.alloc (UInt32.ofNat data.length)).run s = .ok (ptr, s₁))
    (hwrite : (abi.memory.get s₁).write ptr.toNat data = some memory) :
    (abi.writeInput data).run s = .ok (ptr, abi.memory.set s₁ memory) := by
  rw [writeInput, if_pos hlen]
  dsimp only
  rw [bind_run_of_ok (orFailure_eq_ok.mpr halloc), get_bind_run, hwrite]
  rfl

/-- Writing the input either succeeds, as described, or is a failure of the sandbox. -/
theorem writeInput_ensures (abi : GuestAbi σ) (data : List UInt8) (s : σ) :
    Ensures (abi.writeInput data) s
      (fun ptr t => data.length < 2 ^ 32 ∧ ∃ s₁ memory,
        (abi.alloc (UInt32.ofNat data.length)).run s = .ok (ptr, s₁) ∧
        (abi.memory.get s₁).write ptr.toNat data = some memory ∧
        t = abi.memory.set s₁ memory) IsFailure := by
  rw [writeInput]
  split_ifs with hlen
  · refine ensures_bind (orFailure_ensures _ _ s) ?_
    intro ptr s₁ halloc
    refine ensures_get_bind ?_
    rcases hwrite : (abi.memory.get s₁).write ptr.toNat data with _ | memory
    · exact ensures_throw ⟨_, rfl⟩
    · refine ensures_bind (P := fun _ t => t = abi.memory.set s₁ memory) (ensures_set rfl) ?_
      rintro - t rfl
      exact ensures_pure ⟨hlen, s₁, memory, halloc, hwrite, rfl⟩
  · exact ensures_throw ⟨_, rfl⟩

theorem read_run {ptr len : UInt32} {s : σ} {buf : List UInt8}
    (h : (abi.memory.get s).read ptr.toNat len.toNat = some buf) :
    (abi.read ptr len).run s = .ok (buf, s) := by
  rw [read, get_bind_run, h]
  rfl

/-- Reading either succeeds, as described, or is a failure of the sandbox. -/
theorem read_ensures (abi : GuestAbi σ) (ptr len : UInt32) (s : σ) :
    Ensures (abi.read ptr len) s
      (fun buf t => (abi.memory.get s).read ptr.toNat len.toNat = some buf ∧ t = s) IsFailure := by
  rw [read]
  refine ensures_get_bind ?_
  rcases hread : (abi.memory.get s).read ptr.toNat len.toNat with _ | buf
  · exact ensures_throw ⟨_, rfl⟩
  · exact ensures_pure ⟨rfl, rfl⟩

/-- An export that is missing is a failure of the sandbox. -/
theorem getf_eq_error {name : String} {f : Option (Except String α)} {e : DomainError}
    (h : getf name f = .error e) : IsFailure e := by
  rcases f with _ | _ | func
  · exact ⟨_, (Except.error.inj h).symm⟩
  · exact ⟨_, (Except.error.inj h).symm⟩
  · cases h

/-- So is any other that `GuestAbi::from_instance` looks for. -/
theorem fromInstance_eq_error {M : WasmModule σ} {e : DomainError}
    (h : fromInstance M = .error e) : IsFailure e := by
  rw [fromInstance] at h
  rcases hmemory : M.memory with _ | memory
  · rw [hmemory] at h
    exact ⟨_, (Except.error.inj h).symm⟩
  rcases halloc : getf "alloc" M.alloc with e' | alloc
  · rw [hmemory, halloc] at h
    exact Except.error.inj h ▸ getf_eq_error halloc
  rcases hdealloc : getf "dealloc" M.dealloc with e' | dealloc
  · rw [hmemory, halloc, hdealloc] at h
    exact Except.error.inj h ▸ getf_eq_error hdealloc
  rcases hdisarm : getf "disarm" M.disarm with e' | disarm
  · rw [hmemory, halloc, hdealloc, hdisarm] at h
    exact Except.error.inj h ▸ getf_eq_error hdisarm
  · rw [hmemory, halloc, hdealloc, hdisarm] at h
    cases h

end GuestAbi

/-! ## The exchange -/

namespace WasmtimeSandbox

variable {M : WasmModule σ} {input : List UInt8} {policy : Policy}

/-- Once the host has an instance and its exports, the exchange decides. -/
theorem runDisarm_of_instance {fresh : σ} {abi : GuestAbi σ} (hfuel : M.setFuel fuelBudget = .ok ())
    (hinst : M.instantiate maxGuestMemory = .ok fresh)
    (habi : GuestAbi.fromInstance M = .ok abi) :
    runDisarm M .png input policy =
      ((exchange abi input formatPng (options policy)).run fresh).map Prod.fst := by
  rw [runDisarm, hfuel, hinst, habi]
  rfl

/-- A session decides what the host returns. -/
theorem Session.runDisarm_eq (S : Session M input policy) :
    runDisarm M .png input policy = outcome S.encoded := by
  have hwrite := GuestAbi.writeInput_run S.input_lt S.alloc S.write
  have hcap : ¬ (resultLen S.packed).toNat > resultLenCap input.length := Nat.not_lt.mpr S.len_le
  rw [runDisarm_of_instance S.setFuel S.instantiate S.fromInstance, exchange]
  dsimp only
  rw [bind_run_of_ok hwrite, bind_run_of_ok (orFailure_eq_ok.mpr S.disarm),
    bind_run_of_ok (orFailure_eq_ok.mpr S.dealloc_input)]
  rw [← resultLen, ← resultPtr, if_neg hcap, bind_run_of_ok (GuestAbi.read_run S.read),
    bind_run_of_ok (orFailure_eq_ok.mpr S.dealloc_result), outcome]
  rcases decodeResult .w64 S.encoded with e | bytes | reason
  · rfl
  · rfl
  · rfl

/-- **Fail closed**: without a session some call traps or some check fails, and that is a failure
of the sandbox. -/
theorem session_or_failure (M : WasmModule σ) (input : List UInt8) (policy : Policy) :
    Nonempty (Session M input policy) ∨
      ∃ e, IsFailure e ∧ runDisarm M .png input policy = .error e := by
  by_cases hsession : Nonempty (Session M input policy)
  · exact .inl hsession
  right
  rcases hfuel : M.setFuel fuelBudget with e | ⟨⟩
  · rw [runDisarm, hfuel]
    exact ⟨_, ⟨_, rfl⟩, rfl⟩
  rcases hinst : M.instantiate maxGuestMemory with e | fresh
  · rw [runDisarm, hfuel, hinst]
    exact ⟨_, ⟨_, rfl⟩, rfl⟩
  rcases habi : GuestAbi.fromInstance M with e | abi
  · rw [runDisarm, hfuel, hinst, habi]
    exact ⟨e, GuestAbi.fromInstance_eq_error habi, rfl⟩
  have hexchange : Ensures (exchange abi input formatPng (options policy)) fresh
      (fun _ _ => False) IsFailure := by
    rw [exchange]
    refine ensures_bind (abi.writeInput_ensures input fresh) ?_
    rintro ptr - ⟨hlen, allocated, memory, halloc, hwrite, rfl⟩
    refine ensures_bind (orFailure_ensures _ _ _) ?_
    intro packed disarmed hdisarm
    refine ensures_bind (orFailure_ensures _ _ _) ?_
    intro _ freed hdealloc
    dsimp only
    split_ifs with hcap
    · exact ensures_throw ⟨_, rfl⟩
    · refine ensures_bind (abi.read_ensures _ _ freed) ?_
      rintro encoded t ⟨hread, ht⟩
      rw [ht]
      refine ensures_bind (orFailure_ensures _ _ _) ?_
      intro _ done hdealloc'
      -- this far every call has returned, which makes a session
      refine absurd ?_ hsession
      exact ⟨{ abi, fresh, allocated, disarmed, freed, done, memory, ptr, packed, encoded,
               setFuel := hfuel, instantiate := hinst, fromInstance := habi, input_lt := hlen,
               alloc := halloc, write := hwrite, disarm := hdisarm, dealloc_input := hdealloc,
               len_le := Nat.not_lt.mp hcap, read := hread, dealloc_result := hdealloc' }⟩
  rw [runDisarm_of_instance hfuel hinst habi]
  rcases hrun : (exchange abi input formatPng (options policy)).run fresh with e | ⟨output, t⟩
  · exact ⟨e, hexchange.2 e hrun, rfl⟩
  · exact absurd (hexchange.1 output t hrun) id

/-- The cap, in numbers. -/
theorem resultLenCap_le (n : Nat) : resultLenCap n ≤ 2 * n + 64 * 1024 := by
  rw [resultLenCap, resultLenSlack]
  omega

/-- The bytes of a result lie in the memory of the guest and are within the cap. -/
theorem Session.length_encoded (S : Session M input policy) :
    (resultPtr S.packed).toNat + (resultLen S.packed).toNat ≤ (S.abi.memory.get S.freed).size ∧
      S.encoded.length ≤ 2 * input.length + 64 * 1024 := by
  have hread := S.read
  rw [Memory.read] at hread
  split_ifs at hread with hroom
  have hle := S.len_le
  have hcap := resultLenCap_le input.length
  rw [← Option.some.inj hread, Memory.length_range]
  exact ⟨hroom, by omega⟩

/-! ## What the host reads -/

/-- The exchange, its reads of the memory made through `read`. -/
def exchangeWith (abi : GuestAbi σ) (read : UInt32 → UInt32 → HostRun σ (List UInt8))
    (input : List UInt8) (formatCode options : UInt32) : HostRun σ DisarmOutput := do
  let len := UInt32.ofNat input.length
  let inputPtr ← abi.writeInput input
  let packed ←
    orFailure "guest `disarm` trapped" (abi.disarm inputPtr len formatCode options)
  orFailure "guest `dealloc` trapped" (abi.dealloc inputPtr len)
  let resultPtr := (packed >>> 32).toUInt32
  let resultLen := (packed &&& 0xFFFFFFFF).toUInt32
  let cap := resultLenCap input.length
  if resultLen.toNat > cap then
    throw (sandboxFailure s!"guest result length {resultLen} exceeds the {cap}-byte cap")
  else
    let encoded ← read resultPtr resultLen
    orFailure "guest `dealloc` trapped" (abi.dealloc resultPtr resultLen)
    match decodeResult .w64 encoded with
    | .error e =>
      let e := e.debug
      throw (sandboxFailure s!"guest returned an undecodable result: {e}")
    | .ok decoded => liftM (toOutput decoded)

/-- The exchange of the source is the one that reads with `GuestAbi::read`. -/
theorem exchange_eq_exchangeWith (abi : GuestAbi σ) (input : List UInt8)
    (formatCode options : UInt32) :
    exchange abi input formatCode options =
      exchangeWith abi abi.read input formatCode options := rfl

/-- The exports of an instance with a number of bytes beside it. -/
def metered (abi : GuestAbi σ) : GuestAbi (σ × Nat) where
  memory :=
    { get := fun p => abi.memory.get p.1, set := fun p memory => (abi.memory.set p.1 memory, p.2) }
  alloc len := beside (abi.alloc len)
  dealloc ptr len := beside (abi.dealloc ptr len)
  disarm ptr len formatCode options := beside (abi.disarm ptr len formatCode options)
  accessError := abi.accessError

/-- Read so many bytes of those that may still be read, or fail with the fault. -/
def spend (abi : GuestAbi σ) (fault : DomainError) (ptr len : UInt32) :
    HostRun (σ × Nat) (List UInt8) := do
  let p ← get
  if len.toNat ≤ p.2 then
    set (p.1, p.2 - len.toNat)
    (metered abi).read ptr len
  else throw fault

/-- The host on an allowance: it fails with the fault when it reads more bytes of the memory of the
guest than it may. -/
def runMetered (allowance : Nat) (fault : DomainError) (M : WasmModule σ) (format : FileFormat)
    (input : List UInt8) (policy : Policy) : Except DomainError DisarmOutput := do
  let formatCode ← formatCode format
  let options := options policy
  (M.setFuel fuelBudget).mapError fun e => sandboxFailure s!"cannot set fuel budget: {e}"
  let store ← (M.instantiate maxGuestMemory).mapError
    fun e => sandboxFailure s!"cannot instantiate guest: {e}"
  let abi ← GuestAbi.fromInstance M
  let (output, _) ←
    (exchangeWith (metered abi) (spend abi fault) input formatCode options).run (store, allowance)
  return output

/-- Reporting a trap does not concern what is counted beside. -/
theorem orFailure_beside (attempt : String) (call : Run σ String α) :
    orFailure attempt (beside call) = beside (orFailure attempt call) := by
  funext ⟨s, n⟩
  simp only [orFailure, beside, StateT.run]
  rcases call s with e | r
  · rfl
  · rfl

/-- Writing the file reads nothing. -/
theorem writeInput_metered (abi : GuestAbi σ) (data : List UInt8) :
    (metered abi).writeInput data = beside (abi.writeInput data) := by
  rw [GuestAbi.writeInput, GuestAbi.writeInput]
  split_ifs with hlen
  · dsimp only [metered]
    rw [orFailure_beside]
    funext ⟨s, n⟩
    rcases hrun : (orFailure "guest `alloc` trapped"
        (abi.alloc (UInt32.ofNat data.length))).run s with e | ⟨ptr, s₁⟩
    · refine (bind_run_of_error (beside_run_of_error hrun n) _).trans ?_
      exact (beside_run_of_error (bind_run_of_error hrun _) n).symm
    · refine (bind_run_of_ok (beside_run_of_ok hrun n) _).trans ?_
      refine Eq.trans ?_ (congrArg (Except.map fun r => (r.1, r.2, n))
        (bind_run_of_ok hrun _).symm)
      rw [get_bind_run, get_bind_run]
      dsimp only
      rcases (abi.memory.get s₁).write ptr.toNat data with _ | memory
      · rfl
      · rfl
  · rfl

/-- A metered guest is read as it would be unmetered, and nothing is counted. -/
theorem read_metered (abi : GuestAbi σ) (ptr len : UInt32) :
    (metered abi).read ptr len = beside (abi.read ptr len) := by
  funext ⟨s, n⟩
  change ((metered abi).read ptr len).run (s, n) = ((abi.read ptr len).run s).map _
  rw [GuestAbi.read, GuestAbi.read, get_bind_run, get_bind_run]
  dsimp only [metered]
  rcases (abi.memory.get s).read ptr.toNat len.toNat with _ | buf
  · rfl
  · rfl

/-- Within the allowance a read is a read, and the allowance shrinks by its length. -/
theorem spend_run (abi : GuestAbi σ) (fault : DomainError) {ptr len : UInt32} {s : σ} {n : Nat}
    (h : len.toNat ≤ n) :
    (spend abi fault ptr len).run (s, n) =
      (beside (abi.read ptr len)).run (s, n - len.toNat) := by
  rw [spend, get_bind_run, if_pos h, read_metered]
  exact bind_run_of_ok (a := ⟨⟩) rfl _

/-- Going through the calls: up to the read the allowance is whole, and the read is checked against
the cap before it is made. -/
theorem follows_exchange (abi : GuestAbi σ) (fault : DomainError) (input : List UInt8)
    (formatCode options : UInt32) (fresh : σ) :
    Follows (exchangeWith (metered abi) (spend abi fault) input formatCode options)
      (2 * input.length + 64 * 1024) (exchange abi input formatCode options) fresh := by
  have hbudget := resultLenCap_le input.length
  rw [exchange_eq_exchangeWith, exchangeWith, exchangeWith]
  refine follows_bind (by rw [writeInput_metered]) ?_
  intro ptr s₁ _
  refine follows_bind (congrArg (StateT.run · _) (orFailure_beside _ _)) ?_
  intro packed s₂ _
  refine follows_bind (congrArg (StateT.run · _) (orFailure_beside _ _)) ?_
  intro _ s₃ _
  dsimp only
  split_ifs with hcap
  · rfl
  · refine follows_bind (spend_run abi fault (by omega)) ?_
    intro encoded s₄ _
    refine follows_bind (congrArg (StateT.run · _) (orFailure_beside _ _)) ?_
    intro _ s₅ _
    rcases decodeResult .w64 encoded with e | bytes | reason
    · rfl
    · rfl
    · rfl

/-- At the cap that the source has, metering changes nothing: the guest is read no further than
that. -/
theorem runMetered_eq (fault : DomainError) (M : WasmModule σ) (format : FileFormat)
    (input : List UInt8) (policy : Policy) :
    runMetered (2 * input.length + 64 * 1024) fault M format input policy =
      runDisarm M format input policy := by
  rw [runMetered, runDisarm]
  rcases formatCode format with e | code
  · rfl
  rcases M.setFuel fuelBudget with e | ⟨⟩
  · rfl
  rcases M.instantiate maxGuestMemory with e | fresh
  · rfl
  rcases GuestAbi.fromInstance M with e | abi
  · rfl
  · have hfollows := follows_exchange abi fault input code (options policy) fresh
    rw [Follows] at hfollows
    change ((exchangeWith (metered abi) (spend abi fault) input code (options policy)).run
        (fresh, 2 * input.length + 64 * 1024) >>= fun r => pure r.1) =
      ((exchange abi input code (options policy)).run fresh >>= fun r => pure r.1)
    rw [← hfollows]
    rcases (exchangeWith (metered abi) (spend abi fault) input code (options policy)).run
        (fresh, 2 * input.length + 64 * 1024) with e | r
    · rfl
    · rfl

/-! ## The host fails closed -/

/-- What the host makes of a session, told by what its bytes decode to. -/
theorem outcome_eq_ok {encoded : List UInt8} {output : DisarmOutput} :
    outcome encoded = .ok output ↔
      ∃ bytes removed, decodeResult .w64 encoded = .ok (.ok bytes removed) ∧
        output = { bytes := bytes, removed := removed.map pngRemovedItem } := by
  rw [outcome]
  rcases decodeResult .w64 encoded with e | bytes | reason
  · simp
  · simp [toOutput, eq_comm]
  · simp [toOutput]

/-- The file is blamed when the guest says so, and only then. -/
theorem outcome_eq_malformed {encoded : List UInt8} {reason : String} :
    outcome encoded = .error (pngMalformed reason) ↔
      decodeResult .w64 encoded = .ok (.malformed reason) := by
  rw [outcome]
  rcases decodeResult .w64 encoded with e | bytes | reason
  · simp [sandboxFailure, pngMalformed]
  · simp [toOutput]
  · simp [toOutput, pngMalformed]

/-- What the guest returns is an error of the sandbox or one about the file. -/
theorem outcome_eq_error {encoded : List UInt8} {e : DomainError}
    (h : outcome encoded = .error e) : IsFailure e ∨ ∃ reason, e = pngMalformed reason := by
  rcases hdecode : decodeResult .w64 encoded with e' | bytes | reason
  · rw [outcome, hdecode] at h
    exact .inl ⟨_, (Except.error.inj h).symm⟩
  · rw [outcome, hdecode] at h
    cases h
  · rw [outcome, hdecode] at h
    exact .inr ⟨reason, (Except.error.inj h).symm⟩

/-- **The host fails closed**: against every guest it returns a file only at the end of a session
whose bytes decode to it, and blames the file only when they decode to that reason; everything else
is a failure of the sandbox. In a session the result is in the memory of the guest and within the
cap, and so is what it decodes to. The host that may read no more than the cap from the memory of
the guest, and fails in any way beyond it, is the host. -/
theorem runDisarm_fail_closed (M : WasmModule σ) (input : List UInt8) (policy : Policy) :
    (∀ output, runDisarm M .png input policy = .ok output ↔
      ∃ (S : Session M input policy) (bytes : List UInt8) (removed : List RemovedChunk),
        decodeResult .w64 S.encoded = .ok (.ok bytes removed) ∧
        output = { bytes := bytes, removed := removed.map pngRemovedItem }) ∧
    (∀ reason, runDisarm M .png input policy = .error (.malformedInput .png reason) ↔
      ∃ S : Session M input policy, decodeResult .w64 S.encoded = .ok (.malformed reason)) ∧
    (∀ e, runDisarm M .png input policy = .error e →
      (∃ reason, e = .sandboxFailure reason) ∨ ∃ reason, e = .malformedInput .png reason) ∧
    (∀ S : Session M input policy,
      (resultPtr S.packed).toNat + (resultLen S.packed).toNat ≤
        (S.abi.memory.get S.freed).size ∧
      (resultLen S.packed).toNat ≤ 2 * input.length + 64 * 1024 ∧
      ∀ bytes removed, decodeResult .w64 S.encoded = .ok (.ok bytes removed) →
        bytes.length + (removed.map fun chunk => 8 + chunk.name.utf8ByteSize).sum <
          2 * input.length + 64 * 1024) ∧
    ∀ fault, runMetered (2 * input.length + 64 * 1024) fault M .png input policy =
      runDisarm M .png input policy := by
  refine ⟨?_, ?_, ?_, ?_, fun fault => runMetered_eq fault M .png input policy⟩
  · intro output
    refine ⟨?_, ?_⟩
    · intro h
      rcases session_or_failure M input policy with ⟨⟨S⟩⟩ | ⟨e, -, herr⟩
      · rw [S.runDisarm_eq] at h
        exact ⟨S, outcome_eq_ok.mp h⟩
      · rw [herr] at h
        cases h
    · rintro ⟨S, hout⟩
      rw [S.runDisarm_eq]
      exact outcome_eq_ok.mpr hout
  · intro reason
    refine ⟨?_, ?_⟩
    · intro h
      rcases session_or_failure M input policy with ⟨⟨S⟩⟩ | ⟨e, ⟨reason', rfl⟩, herr⟩
      · rw [S.runDisarm_eq] at h
        exact ⟨S, outcome_eq_malformed.mp h⟩
      · rw [herr] at h
        cases h
    · rintro ⟨S, hmalformed⟩
      rw [S.runDisarm_eq]
      exact outcome_eq_malformed.mpr hmalformed
  · intro e h
    rcases session_or_failure M input policy with ⟨⟨S⟩⟩ | ⟨e', hfailure, herr⟩
    · rw [S.runDisarm_eq] at h
      exact outcome_eq_error h
    · rw [herr] at h
      exact .inl (Except.error.inj h ▸ hfailure)
  · intro S
    obtain ⟨hrange, hlen⟩ := S.length_encoded
    have hle := S.len_le
    have hcap := resultLenCap_le input.length
    refine ⟨hrange, by omega, ?_⟩
    intro bytes removed hdecode
    obtain ⟨-, ⟨rest, hbuf⟩, -⟩ := decodeResult_eq_ok hdecode
    have hsize := length_encodeResult_ok bytes removed
    have htotal := congrArg List.length hbuf
    rw [List.length_append] at htotal
    change S.encoded.length = (encodeResult (.ok (bytes, removed))).length + _ at htotal
    omega

end WasmtimeSandbox

end Purgo
