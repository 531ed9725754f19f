import Purgo.Contract
import Purgo.GuestRuns

/-!
# A service over the sandbox

`SandboxDisarmer` puts the sandbox in the place of a disarmer. Whatever the module does, a service
over it comes back, and either refuses the file or returns one that is not much longer
(`sandboxed_contained`). Over the guest, a PNG file is disarmed as it is without the sandbox, unless
the sandbox fails (`sandboxed_agrees`): out of memory or out of fuel, it never returns another file,
and never blames a file that is well formed.
-/

namespace Purgo

open Rust Threaded Wire

/-- The port to a sandbox. -/
structure Sandbox where
  runDisarm : FileFormat → List UInt8 → Policy → Except DomainError DisarmOutput

namespace SandboxDisarmer

/-- `SandboxDisarmer::disarm`: only the bytes go in, and no panic comes out. -/
def disarm (format : FileFormat) (sandbox : Sandbox) (artifact : Artifact) (policy : Policy) :
    Exec DomainError DisarmOutput :=
  Exec.lift (sandbox.runDisarm format artifact.bytes policy)

/-- `SandboxDisarmer::new`. -/
def new (format : FileFormat) (sandbox : Sandbox) : Disarmer :=
  { format := format, disarm := disarm format sandbox }

end SandboxDisarmer

/-- The sandbox over a module. -/
def WasmtimeSandbox.sandbox {σ : Type} (M : WasmModule σ) : Sandbox :=
  { runDisarm := WasmtimeSandbox.runDisarm M }

/-- A service that disarms PNG files in the sandbox. -/
def sandboxedService {σ : Type} (C : Crates) (M : WasmModule σ) : DisarmService where
  detector := { detect := MagicFormatDetector.detect C }
  disarmers := [SandboxDisarmer.new .png (WasmtimeSandbox.sandbox M)]
  distinct := List.pairwise_singleton _ _

variable {σ η : Type} {C : Crates} {M : WasmModule σ} {R : Runtime η}
  {live : η → UInt32 → Nat → Prop}

/-! ## Any module -/

/-- What the sandbox returns is not much longer than the file. -/
theorem WasmtimeSandbox.length_runDisarm_lt {input : List UInt8} {policy : Policy}
    {output : DisarmOutput} (h : runDisarm M .png input policy = .ok output) :
    output.bytes.length < 2 * input.length + 64 * 1024 := by
  rcases session_or_failure M input policy with ⟨⟨S⟩⟩ | ⟨e, -, herr⟩
  · rw [S.runDisarm_eq] at h
    obtain ⟨bytes, removed, hdecode, rfl⟩ := outcome_eq_ok.mp h
    obtain ⟨-, hencoded⟩ := S.length_encoded
    obtain ⟨-, ⟨rest, hbuf⟩, -⟩ := decodeResult_eq_ok hdecode
    have hsize := length_encodeResult_ok bytes removed
    have htotal := congrArg List.length hbuf
    rw [List.length_append] at htotal
    change S.encoded.length = (encodeResult (.ok (bytes, removed))).length + _ at htotal
    dsimp only
    omega
  · rw [herr] at h
    cases h

/-- The errors of the sandbox. -/
theorem WasmtimeSandbox.runDisarm_error {input : List UInt8} {policy : Policy} {e : DomainError}
    (h : runDisarm M .png input policy = .error e) :
    IsFailure e ∨ ∃ reason, e = pngMalformed reason := by
  rcases session_or_failure M input policy with ⟨⟨S⟩⟩ | ⟨e', hfailure, herr⟩
  · rw [S.runDisarm_eq] at h
    exact outcome_eq_error h
  · obtain rfl := Except.error.inj (herr.symm.trans h)
    exact .inl hfailure

/-- The sandboxed service has one disarmer, for PNG files. -/
theorem sandboxed_select {format : FileFormat} :
    (sandboxedService C M).select format =
      if format = .png then some (SandboxDisarmer.new .png (WasmtimeSandbox.sandbox M))
      else none := by
  cases format <;> rfl

/-- What the service makes of a PNG file is what the sandbox makes of it. -/
theorem sandboxed_execute {request : DisarmRequest}
    (hdetect : MagicFormatDetector.detect C request.artifact = .ok .png) :
    (sandboxedService C M).execute request =
      (Exec.lift (WasmtimeSandbox.runDisarm M .png request.artifact.bytes request.policy) >>=
        fun output => .ok
          { clean := { format := .png, bytes := output.bytes },
            report :=
              { format := .png, originalSize := request.artifact.bytes.length,
                sanitizedSize := output.bytes.length, removed := output.removed } }) := by
  have hselect : (sandboxedService C M).select .png =
      some (SandboxDisarmer.new .png (WasmtimeSandbox.sandbox M)) := sandboxed_select
  exact execute_of_select hdetect hselect

/-- **The sandbox contains its module**: whatever the module does with its memory and answers to the
calls, the service comes back. It returns a file only for a PNG file, and one that is less than
twice as long and 64 KiB; it blames the file only for being no PNG, and otherwise the sandbox. -/
theorem sandboxed_contained (C : Crates) (M : WasmModule σ) (request : DisarmRequest)
    (format : FileFormat)
    (hdetect : MagicFormatDetector.detect C request.artifact = .ok format) :
    ∃ r, (sandboxedService C M).execute request = Exec.lift r ∧
      (format ≠ .png → r = .error (.unsupportedFormat format)) ∧
      (format = .png → ∀ e, r = .error e →
        (∃ reason, e = .sandboxFailure reason) ∨ ∃ reason, e = .malformedInput .png reason) ∧
      ∀ receipt, r = .ok receipt → format = .png ∧ receipt.clean.format = .png ∧
        receipt.clean.bytes.length < 2 * request.artifact.bytes.length + 64 * 1024 ∧
        receipt.report.originalSize = request.artifact.bytes.length ∧
        receipt.report.sanitizedSize = receipt.clean.bytes.length := by
  by_cases hpng : format = .png
  · subst hpng
    have hrun := @sandboxed_execute _ C M request hdetect
    rcases hresult : WasmtimeSandbox.runDisarm M .png request.artifact.bytes request.policy with
      e | output
    · rw [hresult] at hrun
      refine ⟨.error e, hrun, fun hne => absurd rfl hne, ?_, nofun⟩
      rintro - e' ⟨⟩
      exact WasmtimeSandbox.runDisarm_error hresult
    · rw [hresult] at hrun
      refine ⟨.ok _, hrun, fun hne => absurd rfl hne, nofun, ?_⟩
      rintro receipt ⟨⟩
      exact ⟨rfl, rfl, WasmtimeSandbox.length_runDisarm_lt hresult, rfl, rfl⟩
  · have hselect : (sandboxedService C M).select format = none :=
      sandboxed_select.trans (if_neg hpng)
    exact ⟨.error (.unsupportedFormat format), execute_of_select_none hdetect hselect,
      fun _ => rfl, fun h => absurd h hpng, nofun⟩

/-- The guest takes the text chunk out of the sample. -/
theorem sandboxed_textPng : ∃ receipt, (sandboxedService sampleCrates
      (Guest.module Runtime.bump)).execute (.strict (.new textPng)) = .ok receipt ∧
    receipt.clean = { format := .png, bytes := Png.signature } := by
  obtain ⟨S, hencoded⟩ := exists_session Runtime.bump_lawful (by decide) .strict noTrap_textPng
  have hprocess : ∃ item, PngDisarmer.disarm .w64 (.new textPng) .strict =
      .ok { bytes := Png.signature, removed := [item] } := ⟨_, rfl⟩
  obtain ⟨item, hprocess⟩ := hprocess
  have houtcome := @outcome_disarmChunks textPng (by decide) .strict
  rw [← hencoded, ← S.runDisarm_eq, hprocess, Exec.lift_eq_ok] at houtcome
  have hrun : _ = (Exec.lift (WasmtimeSandbox.runDisarm _ .png textPng .strict) >>= _) :=
    @sandboxed_execute _ sampleCrates (Guest.module Runtime.bump) (.strict (.new textPng)) rfl
  rw [houtcome] at hrun
  exact ⟨_, hrun, rfl⟩

/-- What the guest returns is within the bound. -/
theorem sandboxed_contained_sample :
    ∃ receipt, (sandboxedService sampleCrates (Guest.module Runtime.bump)).execute
        (.strict (.new textPng)) = .ok receipt ∧
      receipt.clean = { format := .png, bytes := Png.signature } ∧
      receipt.clean.bytes.length < 2 * textPng.length + 64 * 1024 ∧
      receipt.report.originalSize = textPng.length := by
  obtain ⟨receipt, hrun, hclean⟩ := sandboxed_textPng
  obtain ⟨r, hr, -, -, hreceipt⟩ :=
    sandboxed_contained sampleCrates (Guest.module Runtime.bump) (.strict (.new textPng)) .png rfl
  obtain rfl := Exec.lift_eq_ok.mp (hr.symm.trans hrun)
  obtain ⟨-, -, hlength, horiginal, -⟩ := hreceipt _ rfl
  exact ⟨receipt, hrun, hclean, hlength, horiginal⟩

/-! ## The guest -/

/-- In a session with the guest no call has trapped, and the file was not too long for it. -/
theorem noTrap_of_session (hb : R.Bounded) {input : List UInt8} {policy : Policy}
    (S : WasmtimeSandbox.Session (Guest.module R) input policy) :
    Width.w32.Fits input.length ∧ NoTrap R input policy := by
  obtain ⟨abi, fresh, allocated, disarmed, -, -, memory, ptr, packed, -, -, hinst, habi, hlt,
    halloc, hwrite, hdisarm, -⟩ := S
  obtain rfl : Guest.start R = fresh := Except.ok.inj hinst
  obtain rfl : Guest.abi R = abi := Except.ok.inj habi
  obtain rfl : allocated.memory.patch ptr.toNat input = memory := by
    change allocated.memory.write ptr.toNat input = some memory at hwrite
    rw [Memory.write] at hwrite
    split_ifs at hwrite
    exact Option.some.inj hwrite
  refine ⟨?_, ⟨_, halloc⟩, ?_⟩
  · have hshort := Guest.alloc_lt hb halloc
    rwa [UInt32.toNat_ofNat_of_lt' hlt] at hshort
  · intro ptr' g h
    obtain ⟨rfl, rfl⟩ := Prod.mk.inj (Except.ok.inj (halloc.symm.trans h))
    exact ⟨_, hdisarm⟩

/-- The guest disarms as the filter does in the process, or the sandbox fails. -/
theorem runDisarm_guest (hR : R.Lawful live) (hb : R.Bounded) (input : List UInt8)
    (policy : Policy) :
    Exec.lift (WasmtimeSandbox.runDisarm (Guest.module R) .png input policy) =
        PngDisarmer.disarm .w64 (Artifact.new input) policy ∨
      ∃ reason, WasmtimeSandbox.runDisarm (Guest.module R) .png input policy =
        .error (.sandboxFailure reason) := by
  rcases WasmtimeSandbox.session_or_failure (Guest.module R) input policy with
    ⟨⟨S⟩⟩ | ⟨e, ⟨reason, rfl⟩, herr⟩
  · obtain ⟨hfit, hno⟩ := noTrap_of_session hb S
    obtain ⟨S', hencoded⟩ := exists_session hR hfit policy hno
    rw [S'.runDisarm_eq, hencoded]
    exact .inl (outcome_disarmChunks hfit policy)
  · exact .inr ⟨reason, herr⟩

/-- **The sandbox makes no difference but to fail**: over the guest, with every allocator that hands
out blocks apart from the live ones, the service does to a PNG file of any size what the service
without a sandbox does, or reports a failure of the sandbox. -/
theorem sandboxed_agrees (hR : R.Lawful live) (hb : R.Bounded) (C : Crates)
    (request : DisarmRequest)
    (hdetect : MagicFormatDetector.detect C request.artifact = .ok .png) :
    (sandboxedService C (Guest.module R)).execute request = (service .w64 C).execute request ∨
      ∃ reason, (sandboxedService C (Guest.module R)).execute request =
        Exec.fail (.sandboxFailure reason) := by
  have hsandboxed := @sandboxed_execute _ C (Guest.module R) request hdetect
  have hselect : (service .w64 C).select .png = some (PngDisarmer.new .w64) := rfl
  have hprocess := execute_of_select hdetect hselect
  rcases runDisarm_guest hR hb request.artifact.bytes request.policy with hagree | ⟨reason, herr⟩
  · left
    rw [hsandboxed, hprocess, hagree]
    rfl
  · right
    rw [hsandboxed, herr]
    exact ⟨reason, rfl⟩

/-- The text chunk, disarmed both ways: here the sandbox does not fail. -/
theorem sandboxed_agrees_sample :
    (sandboxedService sampleCrates (Guest.module Runtime.bump)).execute (.strict (.new textPng)) =
      (service .w64 sampleCrates).execute (.strict (.new textPng)) := by
  rcases sandboxed_agrees Runtime.bump_lawful Runtime.bump_bounded sampleCrates
    (.strict (.new textPng)) rfl with hagree | ⟨reason, hfail⟩
  · exact hagree
  · obtain ⟨receipt, hrun, -⟩ := sandboxed_textPng
    rw [hrun] at hfail
    cases hfail

end Purgo
