import Purgo.GuestBuffers
import Purgo.PngWire
import Purgo.SandboxHost

/-!
# Disarming a PNG in the sandbox and in the process

The guest's run, seen from the host, followed through the buffers it leaves: the file goes in, the
encoded result comes out under a pointer of its own, stays there when the file is given back, and
is short enough to be read. Decoded, it is what the filter returns in the process
(`runDisarm_png_eq_disarm`), as the filter is the same on 32-bit and 64-bit words.
-/

namespace Purgo

open Rust Threaded Wire

/-! ## Pointer and length in one word -/

namespace Guest

/-- A packed word as a number. -/
theorem toNat_pack (ptr len : UInt32) : (pack ptr len).toNat = ptr.toNat * 2 ^ 32 + len.toNat := by
  have hptr := ptr.toNat_lt
  have hlen := len.toNat_lt
  have hshift : ptr.toNat <<< 32 % 2 ^ 64 = ptr.toNat <<< 32 := by
    rw [Nat.shiftLeft_eq]
    omega
  rw [← Nat.shiftLeft_eq, Nat.shiftLeft_add_eq_or_of_lt hlen, ← hshift]
  simp [pack]

/-- The address is read back. -/
theorem pack_ptr (ptr len : UInt32) : (pack ptr len >>> 32).toUInt32 = ptr := by
  apply UInt32.toNat_inj.mp
  have hptr := ptr.toNat_lt
  have hlen := len.toNat_lt
  rw [UInt64.toNat_toUInt32, UInt64.toNat_shiftRight, toNat_pack, Nat.shiftRight_eq_div_pow]
  change (ptr.toNat * 2 ^ 32 + len.toNat) / 2 ^ 32 % 2 ^ 32 = _
  omega

theorem pack_len (ptr len : UInt32) : (pack ptr len &&& 0xFFFFFFFF).toUInt32 = len := by
  apply UInt32.toNat_inj.mp
  have hptr := ptr.toNat_lt
  have hlen := len.toNat_lt
  rw [UInt64.toNat_toUInt32, UInt64.toNat_and, toNat_pack]
  change ((ptr.toNat * 2 ^ 32 + len.toNat) &&& (2 ^ 32 - 1)) % 2 ^ 32 = _
  rw [Nat.and_two_pow_sub_one_eq_mod]
  omega

end Guest

/-! ## The two paths -/

/-- What the filter returns, in the words of the domain. -/
theorem disarm_eq_toOutput {input : List UInt8} (hfit : Width.w64.Fits input.length)
    (policy : Policy) :
    PngDisarmer.disarm .w64 (Artifact.new input) policy =
      Exec.lift
        (WasmtimeSandbox.toOutput (decoded (disarmChunks input ⟨policy.stripMetadata⟩))) := by
  rw [PngDisarmer.disarm]
  dsimp only [Artifact.new]
  rw [disarmPng_eq_lift hfit]
  rcases disarmChunks input ⟨policy.stripMetadata⟩ with ⟨⟨reason⟩⟩ | ⟨bytes, removed⟩
  · rfl
  · rfl

/-- What the guest works on is the filter's result on the bytes of the buffer. -/
theorem answer_png {input : List UInt8} (hfit : Width.w32.Fits input.length) (policy : Policy) :
    Guest.answer formatPng (WasmtimeSandbox.options policy) (some input) =
      Exec.lift (disarmChunks input ⟨policy.stripMetadata⟩) := by
  have hflag : (WasmtimeSandbox.options policy &&& flagStripMetadata != 0) =
      policy.stripMetadata := by
    rw [WasmtimeSandbox.options]
    cases policy.stripMetadata with
    | false => decide
    | true => decide
  rw [Guest.answer, Guest.run, if_pos rfl, hflag, disarmPng_eq_lift hfit]

/-! ## The cap -/

/-- Below half the address space the cap saturates late enough. -/
theorem le_resultLenCap {n m : Nat} (hn : n < 2 ^ 63) (hm : m ≤ max (2 * n + 1) 32) :
    m ≤ resultLenCap n := by
  rw [resultLenCap, usizeMax, resultLenSlack]
  omega

/-- **The cap rejects no honest result**: whatever the file and the options, and whether the filter
ran in 32-bit or in 64-bit words, its result is encoded in no more bytes than the host allows. -/
theorem encodeResult_le_cap (w : Width) (input : List UInt8) (options : PngOptions)
    (hguest : w.Fits input.length) (hhost : Width.w64.Fits input.length) :
    ∃ r, disarmPng w input options = Exec.lift r ∧
      (encodeResult r).length ≤ resultLenCap input.length :=
  ⟨_, disarmPng_eq_lift hguest options,
    le_resultLenCap hhost (length_encodeResult_disarmChunks input options)⟩

/-- A removed chunk without data whose type is not UTF-8. -/
theorem encodeResult_le_cap_sample :
    ∃ r, disarmPng .w32 (Png.signature ++ [0, 0, 0, 0, 0xFF, 0xFF, 0xFF, 0xFF, 1, 2, 3, 4]) ⟨true⟩ =
        Exec.lift r ∧ (encodeResult r).length ≤ resultLenCap 20 :=
  encodeResult_le_cap .w32 _ ⟨true⟩ (by decide) (by decide)

/-! ## The run of the guest, from the host -/

section Exchange

variable {η : Type} {R : Runtime η} {live : η → UInt32 → Nat → Prop}

/-- Neither of the calls that may trap does: the one that makes room for the file, and the one that
disarms it. -/
structure NoTrap (R : Runtime η) (input : List UInt8) (policy : Policy) : Prop where
  alloc : ∃ r, (Guest.alloc R (UInt32.ofNat input.length)).run (Guest.start R) = .ok r
  disarm : ∀ {ptr g}, (Guest.alloc R (UInt32.ofNat input.length)).run (Guest.start R) =
      .ok (ptr, g) →
    ∃ r, (Guest.disarm R ptr (UInt32.ofNat input.length) formatPng
      (WasmtimeSandbox.options policy)).run
        { g with memory := g.memory.patch ptr.toNat input } = .ok r

/-- The host writes the file into a buffer the guest has made for it. -/
theorem write_eq_some (hR : R.Lawful live) {input : List UInt8} (hlen : input.length < 2 ^ 32)
    {g g' : Guest η} {ptr : UInt32} (hg : Guest.Sound R live g)
    (halloc : (Guest.alloc R (UInt32.ofNat input.length)).run g = .ok (ptr, g')) :
    g'.memory.write ptr.toNat input = some (g'.memory.patch ptr.toNat input) ∧
      Guest.Sound R live { g' with memory := g'.memory.patch ptr.toNat input } ∧
      ({ g' with memory := g'.memory.patch ptr.toNat input } : Guest η).content =
        Function.update g.content ptr (some input) := by
  obtain ⟨hg', hcontent, -⟩ := hg.alloc hR halloc
  have hzeros : g'.content ptr = some (List.replicate input.length 0) := by
    rw [hcontent, Function.update_self, UInt32.toNat_ofNat_of_lt' hlen]
  obtain ⟨hwrite, hwritten⟩ := hg'.overwrite hR hzeros List.length_replicate
  refine ⟨hwrite, hg'.patch, ?_⟩
  rw [hwritten, hcontent, Function.update_idem]

/-- The guest's answer on the file, packed: where it is and how long. -/
theorem disarm_png_eq_ok (hR : R.Lawful live) {input : List UInt8}
    (hfit : Width.w32.Fits input.length) (policy : Policy) {g g' : Guest η} {ptr : UInt32}
    {packed : UInt64} (hg : Guest.Sound R live g) (hinput : g.content ptr = some input)
    (h : (Guest.disarm R ptr (UInt32.ofNat input.length) formatPng
      (WasmtimeSandbox.options policy)).run g = .ok (packed, g')) :
    ∃ q, packed = Guest.pack q
        (UInt32.ofNat (encodeResult (disarmChunks input ⟨policy.stripMetadata⟩)).length) ∧
      (encodeResult (disarmChunks input ⟨policy.stripMetadata⟩)).length < 2 ^ 32 ∧
      g.content q = none ∧ Guest.Sound R live g' ∧ g'.content = Function.update g.content q
        (some (encodeResult (disarmChunks input ⟨policy.stripMetadata⟩))) := by
  obtain ⟨r, q, hanswer, hpacked, hlen, -, hfree, hg', hcontent⟩ := hg.disarm hR h
  have hlt : input.length < 2 ^ 32 := Nat.lt_trans hfit (by decide)
  rw [Guest.given_of_whole hinput hlt, answer_png hfit policy] at hanswer
  obtain rfl := Exec.lift_injective hanswer
  exact ⟨q, hpacked, hlen, hfree, hg', hcontent⟩

/-- **The session with the guest**: between an empty registry and an empty registry, the host gets
the bytes of what the filter returns. -/
theorem exists_session (hR : R.Lawful live) {input : List UInt8}
    (hfit : Width.w32.Fits input.length) (policy : Policy) (hno : NoTrap R input policy) :
    ∃ S : WasmtimeSandbox.Session (Guest.module R) input policy,
      S.encoded = encodeResult (disarmChunks input ⟨policy.stripMetadata⟩) := by
  have hlt : input.length < 2 ^ 32 := Nat.lt_trans hfit (by decide)
  obtain ⟨⟨p, g₁⟩, halloc⟩ := hno.alloc
  obtain ⟨⟨packed, g₃⟩, hdisarm⟩ := hno.disarm halloc
  obtain ⟨hwrite, hg₂, hcontent₂⟩ := write_eq_some hR hlt .start halloc
  have hinput := congrFun hcontent₂ p
  rw [Function.update_self] at hinput
  obtain ⟨q, rfl, hlen, hfree, hg₃, hcontent₃⟩ :=
    disarm_png_eq_ok hR hfit policy hg₂ hinput hdisarm
  have hbound := length_encodeResult_disarmChunks input ⟨policy.stripMetadata⟩
  generalize disarmChunks input ⟨policy.stripMetadata⟩ = r at *
  have hptr : WasmtimeSandbox.resultPtr
      (Guest.pack q (UInt32.ofNat (encodeResult r).length)) = q := Guest.pack_ptr q _
  have hlenNat : (WasmtimeSandbox.resultLen
      (Guest.pack q (UInt32.ofNat (encodeResult r).length))).toNat = (encodeResult r).length := by
    rw [WasmtimeSandbox.resultLen, Guest.pack_len, UInt32.toNat_ofNat_of_lt' hlen]
  obtain ⟨g₄, hdealloc, hg₄, hcontent₄⟩ :=
    hg₃.dealloc (p := p) hR (UInt32.ofNat input.length)
  have hne : q ≠ p := by
    rintro rfl
    rw [hinput] at hfree
    cases hfree
  have hresult : g₄.content q = some (encodeResult r) := by
    rw [hcontent₄, Function.update_of_ne hne, hcontent₃, Function.update_self]
  obtain ⟨g₅, hdealloc', -⟩ := hg₄.dealloc (p := q) hR
    (WasmtimeSandbox.resultLen (Guest.pack q (UInt32.ofNat (encodeResult r).length)))
  refine ⟨{ abi := Guest.abi R, fresh := Guest.start R, allocated := g₁, disarmed := g₃,
            freed := g₄, done := g₅, memory := g₁.memory.patch p.toNat input, ptr := p,
            packed := Guest.pack q (UInt32.ofNat (encodeResult r).length),
            encoded := encodeResult r, setFuel := rfl, instantiate := rfl, fromInstance := rfl,
            input_lt := hlt, alloc := halloc, write := hwrite, disarm := hdisarm,
            dealloc_input := hdealloc, len_le := ?_, read := ?_, dealloc_result := ?_ }, rfl⟩
  · rw [hlenNat]
    exact le_resultLenCap (Nat.lt_trans hfit (by decide)) hbound
  · rw [hptr, hlenNat]
    exact hg₄.read hR hresult
  · rw [hptr]
    exact hdealloc'

/-- The host reads the filter's result back. -/
theorem outcome_disarmChunks {input : List UInt8} (hfit : Width.w32.Fits input.length)
    (policy : Policy) :
    Exec.lift (WasmtimeSandbox.outcome
        (encodeResult (disarmChunks input ⟨policy.stripMetadata⟩))) =
      PngDisarmer.disarm .w64 (Artifact.new input) policy := by
  have hfits := resultFits_disarmChunks hfit ⟨policy.stripMetadata⟩
  have hbound := length_encodeResult_disarmChunks input ⟨policy.stripMetadata⟩
  have hdecode := decodeResult_encodeResult (w := .w64) hfits []
  rw [List.append_nil] at hdecode
  have hlt : input.length < 2 ^ 31 := hfit
  have hshort : Width.w64.Fits
      (encodeResult (disarmChunks input ⟨policy.stripMetadata⟩)).length := by
    change _ < 2 ^ 63
    omega
  rw [WasmtimeSandbox.outcome, hdecode hshort,
    disarm_eq_toOutput (Nat.lt_trans hfit (by decide)) policy]

/-- **Sandboxed and in-process disarming agree**: for every file of the 32-bit guest and every
policy, and over every allocator that hands out blocks apart from the live ones, the run of the
guest's module that does not trap returns exactly what the disarmer returns in the process. -/
theorem runDisarm_png_eq_disarm (hR : R.Lawful live) (input : List UInt8)
    (hfit : Width.w32.Fits input.length) (policy : Policy) (hno : NoTrap R input policy) :
    Exec.lift (WasmtimeSandbox.runDisarm (Guest.module R) .png input policy) =
      PngDisarmer.disarm .w64 (Artifact.new input) policy := by
  obtain ⟨S, hencoded⟩ := exists_session hR hfit policy hno
  rw [S.runDisarm_eq, hencoded, outcome_disarmChunks hfit policy]

end Exchange

/-- A file of one text chunk. -/
def textPng : List UInt8 := Png.signature ++ ([0, 0, 0, 1] ++ ascii "tEXt" ++ [7, 1, 2, 3, 4])

/-- The sample run traps nowhere. -/
theorem noTrap_textPng : NoTrap Runtime.bump textPng Policy.strict where
  alloc := ⟨_, rfl⟩
  disarm := by
    intro ptr g halloc
    obtain ⟨rfl, rfl⟩ := Prod.mk.inj (Except.ok.inj halloc)
    exact ⟨_, rfl⟩

/-- The text chunk is dropped by the sandbox as it is in the process. -/
theorem runDisarm_png_eq_disarm_sample :
    Exec.lift (WasmtimeSandbox.runDisarm (Guest.module Runtime.bump) .png textPng .strict) =
      PngDisarmer.disarm .w64 (Artifact.new textPng) .strict :=
  runDisarm_png_eq_disarm Runtime.bump_lawful textPng (by decide) .strict noTrap_textPng

end Purgo
