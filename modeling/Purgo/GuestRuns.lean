import Purgo.Lib.Simulation
import Purgo.SandboxPng

/-!
# The registry over whole runs

What the host may do to an instance, in any order and with any arguments, is an `Op`: call one of
the three exports, or write inside a live buffer. Seen through `content` the registry is a machine
of its own, which knows of byte strings under pointers and of nothing else: `Effect` is that
machine, and a step of the guest is one of its steps (`Step.refines`), under the invariant `Valid`.
That an operation leaves a buffer alone is then a fact about the abstract machine
(`Effect.keeps`).
-/

namespace Purgo

open Rust Threaded Wire Simulation WasmtimeSandbox

namespace Guest

variable {η : Type} {R : Runtime η} {live : η → UInt32 → Nat → Prop} {g g' : Guest η}

/-- What the host does to an instance. -/
inductive Op where
  | alloc (len : UInt32) : Op
  /-- write inside the buffer at the pointer -/
  | write (ptr : UInt32) (off : Nat) (data : List UInt8) : Op
  | disarm (ptr len format options : UInt32) : Op
  | dealloc (ptr len : UInt32) : Op

/-- The operation is meant to change the buffer at the pointer. -/
def Op.Touches (p : UInt32) : Op → Prop
  | .write ptr _ _ => ptr = p
  | .dealloc ptr _ => ptr = p
  | _ => False

/-- The host does one thing. A call that traps ends the instance: it is no step. -/
inductive Step (R : Runtime η) : Op → Guest η → Guest η → Prop where
  | alloc {len p : UInt32} {g g' : Guest η} : (alloc R len).run g = .ok (p, g') →
      Step R (.alloc len) g g'
  | write {ptr : UInt32} {off : Nat} {data buf : List UInt8} {g : Guest η} {memory : Memory} :
      g.content ptr = some buf → off + data.length ≤ buf.length →
      g.memory.write (ptr.toNat + off) data = some memory →
      Step R (.write ptr off data) g { g with memory := memory }
  | disarm {ptr len format options : UInt32} {packed : UInt64} {g g' : Guest η} :
      (disarm R ptr len format options).run g = .ok (packed, g') →
      Step R (.disarm ptr len format options) g g'
  | dealloc {ptr len : UInt32} {g g' : Guest η} : (dealloc R ptr len).run g = .ok ((), g') →
      Step R (.dealloc ptr len) g g'

/-! ## What the registry is for -/

/-- Byte strings under pointers. -/
abbrev Contents : Type := UInt32 → Option (List UInt8)

/-- What the operations do to them. A new string gets a pointer that is free; the empty string may
get one that has the empty string already. -/
inductive Effect : Op → Contents → Contents → Prop where
  | alloc {len p : UInt32} {c : Contents} : c p = none ∨ (len.toNat = 0 ∧ c p = some []) →
      Effect (.alloc len) c (Function.update c p (some (List.replicate len.toNat 0)))
  | write {ptr : UInt32} {off : Nat} {data buf : List UInt8} {c : Contents} :
      c ptr = some buf → off + data.length ≤ buf.length →
      Effect (.write ptr off data) c (Function.update c ptr
        (some (buf.take off ++ data ++ buf.drop (off + data.length))))
  | disarm {ptr len format options q : UInt32} {c : Contents}
      {r : Except FilterError (List UInt8 × List RemovedChunk)} :
      answer format options ((c ptr).map fun buf => buf.take (min len.toNat buf.length)) =
        Exec.lift r →
      c q = none →
      Effect (.disarm ptr len format options) c (Function.update c q (some (encodeResult r)))
  | dealloc {ptr len : UInt32} {c : Contents} :
      Effect (.dealloc ptr len) c (Function.update c ptr none)

/-- Only a write into a buffer and its `dealloc` change it. -/
theorem Effect.keeps {op : Op} {c c' : Contents} (h : Effect op c c') {p : UInt32}
    {bs : List UInt8} (hp : c p = some bs) (hop : ¬ op.Touches p) : c' p = some bs := by
  cases h with
  | @alloc len q _ hq =>
    by_cases hqp : q = p
    · subst hqp
      rcases hq with hnone | ⟨hlen, hempty⟩
      · rw [hnone] at hp
        cases hp
      · obtain rfl := Option.some.inj (hempty.symm.trans hp)
        rw [Function.update_self, hlen, List.replicate_zero]
    · rw [Function.update_of_ne (Ne.symm hqp), hp]
  | write => rw [Function.update_of_ne (Ne.symm hop), hp]
  | @disarm _ _ _ _ q _ _ _ hq =>
    have hne : p ≠ q := by
      rintro rfl
      rw [hq] at hp
      cases hp
    rw [Function.update_of_ne hne, hp]
  | dealloc => rw [Function.update_of_ne (Ne.symm hop), hp]

/-! ## The refinement -/

/-- The invariant of a run: the registry is sound, and its buffers are vectors. -/
structure Valid (R : Runtime η) (live : η → UInt32 → Nat → Prop) (g : Guest η) : Prop where
  sound : Sound R live g
  small : ∀ {p bs}, g.content p = some bs → bs.length < 2 ^ 31

/-- A fresh instance has handed out nothing. -/
theorem Valid.start : Valid R live (start R) := ⟨.start, fun h => by cases h⟩

/-- At the dangling pointer only the empty string is. -/
theorem Sound.content_dangling (hR : R.Lawful live) (hg : Sound R live g) {bs : List UInt8}
    (h : g.content dangling = some bs) : bs = [] := by
  obtain ⟨n, hlookup, rfl⟩ := content_eq_some.mp h
  by_cases hn : n = 0
  · subst hn
    rfl
  · exact absurd (hR.inside (hg.block hlookup hn)).1 (Nat.lt_irrefl _)

/-- Room for a vector is room for one that is not too long. -/
theorem alloc_lt (hb : R.Bounded) {len p : UInt32} (h : (alloc R len).run g = .ok (p, g')) :
    len.toNat < 2 ^ 31 := by
  obtain ⟨g₁, hzeroed, -⟩ := alloc_eq_ok.mp h
  obtain ⟨heap, hroom, -⟩ := zeroed_eq_ok.mp hzeroed
  exact hb hroom

/-- A result that has been returned fits into half of the address space, as every vector does. -/
theorem encodeResult_lt (hb : R.Bounded) {p len format options : UInt32} {packed : UInt64}
    {r : Except FilterError (List UInt8 × List RemovedChunk)}
    (h : (disarm R p len format options).run g = .ok (packed, g'))
    (hr : answer format options (g.given p len) = Exec.lift r)
    (hlen : (encodeResult r).length < 2 ^ 32) : (encodeResult r).length < 2 ^ 31 := by
  obtain ⟨heap, r', q, g₃, g₄, -, hr', halloc, -⟩ := disarm_eq_ok.mp h
  obtain rfl := Exec.lift_injective (hr.symm.trans hr')
  have hlt := alloc_lt hb halloc
  rwa [UInt32.toNat_ofNat_of_lt' hlen] at hlt

/-- The invariant is kept where one string is set to something short. -/
theorem Valid.of_update (hg : Valid R live g) (hs : Sound R live g') {p : UInt32}
    {o : Option (List UInt8)} (hcontent : g'.content = Function.update g.content p o)
    (ho : ∀ bs, o = some bs → bs.length < 2 ^ 31) : Valid R live g' := by
  refine ⟨hs, ?_⟩
  intro q bs hq
  rw [hcontent] at hq
  by_cases hqp : q = p
  · subst hqp
    rw [Function.update_self] at hq
    exact ho bs hq
  · rw [Function.update_of_ne hqp] at hq
    exact hg.small hq

/-- **The guest refines the machine of byte strings**: a step keeps the invariant and does to the
strings what the operation is for. -/
theorem Step.refines (hR : R.Lawful live) (hb : R.Bounded) {op : Op} (hg : Valid R live g)
    (h : Step R op g g') : Valid R live g' ∧ Effect op g.content g'.content := by
  cases h with
  | @alloc len p _ _ hrun =>
    obtain ⟨hs, hcontent, hempty, hfree⟩ := hg.sound.alloc hR hrun
    refine ⟨hg.of_update hs hcontent ?_, ?_⟩
    · rintro bs ⟨rfl⟩
      rw [List.length_replicate]
      exact alloc_lt hb hrun
    · rw [hcontent]
      refine .alloc ?_
      by_cases hlen : len.toNat = 0
      · obtain rfl := hempty hlen
        rcases h : g.content dangling with _ | bs
        · exact .inl rfl
        · obtain rfl := hg.sound.content_dangling hR h
          exact .inr ⟨hlen, rfl⟩
      · exact .inl (hfree hlen).2
  | @write ptr off data buf _ memory hbuf hoff hwrite =>
    obtain ⟨hwrite', hcontent⟩ := hg.sound.write hR hbuf hoff
    obtain rfl := Option.some.inj (hwrite.symm.trans hwrite')
    refine ⟨hg.of_update hg.sound.patch hcontent ?_, ?_⟩
    · rintro bs ⟨rfl⟩
      have hlt := hg.small hbuf
      simp only [List.length_append, List.length_take, List.length_drop]
      omega
    · rw [hcontent]
      exact .write hbuf hoff
  | @disarm ptr len format options packed _ _ hrun =>
    obtain ⟨r, q, hr, -, hlen, -, hfree, hs, hcontent⟩ := hg.sound.disarm hR hrun
    refine ⟨hg.of_update hs hcontent ?_, ?_⟩
    · rintro bs ⟨rfl⟩
      exact encodeResult_lt hb hrun hr hlen
    · rw [hcontent]
      exact .disarm hr hfree
  | @dealloc ptr len _ _ hrun =>
    obtain ⟨g₁, hrun', hs, hcontent⟩ := hg.sound.dealloc (p := ptr) hR len
    obtain ⟨-, rfl⟩ := Prod.mk.inj (Except.ok.inj (hrun.symm.trans hrun'))
    refine ⟨hg.of_update hs hcontent ?_, ?_⟩
    · rintro bs ⟨⟩
    · rw [hcontent]
      exact .dealloc

/-- Over a run: the invariant, and a run of the machine of byte strings. -/
theorem trace_refines (hR : R.Lawful live) (hb : R.Bounded) {ops : List Op} (hg : Valid R live g)
    (h : Trace (Step R) ops g g') : Valid R live g' ∧ Trace Effect ops g.content g'.content :=
  h.refines (fun _ _ _ hg hstep => hstep.refines hR hb hg) hg

/-- Over a run a string that no operation touches stays. -/
theorem content_of_trace (hR : R.Lawful live) (hb : R.Bounded) {ops : List Op}
    (hg : Valid R live g) (h : Trace (Step R) ops g g') {p : UInt32} {bs : List UInt8}
    (hp : g.content p = some bs) (hops : ∀ op ∈ ops, ¬ op.Touches p) : g'.content p = some bs :=
  (trace_refines hR hb hg h).2.invariant
    (fun op hop _ _ hc heffect => heffect.keeps hc (hops op hop)) hp

/-! ## When `disarm` returns -/

/-- The answer is never a panic, and its encoding is not too long for the wire. -/
theorem answer_eq_lift (format options : UInt32) {input : Option (List UInt8)}
    (hinput : ∀ bs, input = some bs → bs.length < 2 ^ 31) :
    ∃ r, answer format options input = Exec.lift r ∧ (encodeResult r).length < 2 ^ 32 := by
  rcases input with _ | bs
  · exact ⟨.error (.malformed "unknown input buffer"), rfl, by decide⟩
  · rw [answer, run]
    split_ifs with hformat
    · have hlt : bs.length < 2 ^ 31 := hinput bs rfl
      refine ⟨_, disarmPng_eq_lift (w := .w32) hlt _, ?_⟩
      have hle := length_encodeResult_disarmChunks bs ⟨options &&& flagStripMetadata != 0⟩
      omega
    · exact ⟨.error (.malformed "unsupported sandbox format"), rfl, by decide⟩

theorem Valid.given_lt (hg : Valid R live g) (p len : UInt32) (bs : List UInt8)
    (h : g.given p len = some bs) : bs.length < 2 ^ 31 := by
  obtain ⟨buf, hbuf, rfl⟩ := Option.map_eq_some_iff.mp h
  have hlt := hg.small hbuf
  rw [List.length_take]
  omega

/-- A call of `disarm` returns exactly when the runtime has room for its temporaries and for the
result: no length overflows and nothing in it panics. -/
theorem disarm_returns_iff (hR : R.Lawful live) (hg : Valid R live g)
    {p len format options : UInt32} {r : Except FilterError (List UInt8 × List RemovedChunk)}
    (hr : answer format options (g.given p len) = Exec.lift r)
    (hlen : (encodeResult r).length < 2 ^ 32) :
    (∃ a, (disarm R p len format options).run g = .ok a) ↔
      ∃ heap, R.enter g.heap (g.given p len) format options = some heap ∧
        ∃ room, R.allocate heap (encodeResult r).length = some room := by
  have hcast := UInt32.toNat_ofNat_of_lt' hlen
  refine ⟨?_, ?_⟩
  · rintro ⟨⟨packed, g'⟩, hrun⟩
    obtain ⟨heap, r', q, g₃, g₄, henter, hr', halloc, -⟩ := disarm_eq_ok.mp hrun
    obtain rfl := Exec.lift_injective (hr.symm.trans hr')
    obtain ⟨g₂, hzeroed, -⟩ := alloc_eq_ok.mp halloc
    obtain ⟨heap', hroom, -⟩ := zeroed_eq_ok.mp hzeroed
    rw [hcast] at hroom
    exact ⟨heap, henter, _, hroom⟩
  · rintro ⟨heap, henter, ⟨q, heap'⟩, hroom⟩
    rw [← hcast] at hroom
    have halloc := alloc_eq_ok.mpr ⟨_, zeroed_eq_ok.mpr
      ⟨heap', show R.allocate (g.settle R heap).heap _ = _ from hroom, rfl⟩, rfl⟩
    have hg₁ : Sound R live (g.settle R heap) :=
      hg.sound.settle fun hq hm => hR.enter_keeps henter (hg.sound.block hq hm)
    obtain ⟨-, hcontent, -⟩ := hg₁.alloc hR halloc
    have hslot := congrFun hcontent q
    rw [Function.update_self] at hslot
    have hfill := (fill_eq_ok (R := R) hslot (u := ())).mpr
      ⟨List.length_replicate.trans hcast, rfl⟩
    exact ⟨_, disarm_eq_ok.mpr ⟨heap, r, q, _, _, henter, hr, halloc, hfill, rfl, rfl⟩⟩

/-! ## The calls of the host -/

/-- A registry without strings is empty. -/
theorem buffers_eq_empty (h : ∀ p, g.content p = none) : g.buffers = ∅ := by
  apply AList.ext
  rcases hentries : g.buffers.entries with _ | ⟨e, es⟩
  · rfl
  · have hlookup : g.buffers.lookup e.1 = some e.2 := by
      refine AList.mem_lookup_iff.mpr ?_
      rw [hentries]
      exact List.mem_cons_self
    have hsome := h e.1
    rw [content_of_lookup hlookup] at hsome
    cases hsome

/-- An empty registry has no contents. -/
theorem content_of_empty (h : g.buffers = ∅) : g.content = fun _ => none := by
  funext p
  rw [content, h]
  rfl

/-- **`disarm`, seen from the host**: the word it returns names a buffer that holds the encoded
answer and was not there before, and every other buffer is as it was. -/
theorem Sound.disarm_packed (hR : R.Lawful live) (hg : Sound R live g)
    {ptr len format options : UInt32} {packed : UInt64}
    {r : Except FilterError (List UInt8 × List RemovedChunk)}
    (hr : answer format options (g.given ptr len) = Exec.lift r)
    (h : (Guest.disarm R ptr len format options).run g = .ok (packed, g')) :
    Sound R live g' ∧ g.content (resultPtr packed) = none ∧
      (resultLen packed).toNat = (encodeResult r).length ∧
      g'.content = Function.update g.content (resultPtr packed) (some (encodeResult r)) := by
  obtain ⟨r', q, hr', rfl, hlen, -, hfree, hs, hcontent⟩ := hg.disarm hR h
  obtain rfl := Exec.lift_injective (hr.symm.trans hr')
  have hq : resultPtr (pack q (UInt32.ofNat (encodeResult r).length)) = q := pack_ptr q _
  have hn : resultLen (pack q (UInt32.ofNat (encodeResult r).length)) = _ := pack_len q _
  rw [hq, hn, UInt32.toNat_ofNat_of_lt' hlen]
  exact ⟨hs, hfree, rfl, hcontent⟩

/-- What the host goes through from an empty registry: the file goes in, the answer on the whole
file comes out, outlives the file, and is the only buffer until it is given back. -/
theorem host_sequence (hR : R.Lawful live) (hb : R.Bounded) (hg : Valid R live g)
    (hempty : g.buffers = ∅) {input : List UInt8} (hlt : input.length < 2 ^ 32)
    {format options ptr : UInt32} {g₀ : Guest η}
    (halloc : (Guest.alloc R (UInt32.ofNat input.length)).run g = .ok (ptr, g₀)) :
    ∃ g₁ r, ((abi R).writeInput input).run g = .ok (ptr, g₁) ∧
      Guest.run format input options = Exec.lift r ∧
      ((∃ a, (Guest.disarm R ptr (UInt32.ofNat input.length) format options).run g₁ = .ok a) ↔
        ∃ heap, R.enter g₁.heap (some input) format options = some heap ∧
          ∃ room, R.allocate heap (encodeResult r).length = some room) ∧
      ∀ packed g₂,
        (Guest.disarm R ptr (UInt32.ofNat input.length) format options).run g₁ =
            .ok (packed, g₂) →
        ∃ g₃ g₄, (Guest.dealloc R ptr (UInt32.ofNat input.length)).run g₂ = .ok ((), g₃) ∧
          g₃.content =
            Function.update (fun _ => none) (resultPtr packed) (some (encodeResult r)) ∧
          ((abi R).read (resultPtr packed) (resultLen packed)).run g₃ =
            .ok (encodeResult r, g₃) ∧
          (Guest.dealloc R (resultPtr packed) (resultLen packed)).run g₃ = .ok ((), g₄) ∧
          g₄.buffers = ∅ := by
  obtain ⟨hpatch, hs₁, hcontent₁⟩ := write_eq_some hR hlt hg.sound halloc
  have hwrite : ((abi R).writeInput input).run g =
      .ok (ptr, { g₀ with memory := g₀.memory.patch ptr.toNat input }) :=
    GuestAbi.writeInput_run hlt halloc hpatch
  generalize ({ g₀ with memory := g₀.memory.patch ptr.toNat input } : Guest η) = g₁
    at hwrite hs₁ hcontent₁
  have hsmall : input.length < 2 ^ 31 := by
    have h := alloc_lt hb halloc
    rwa [UInt32.toNat_ofNat_of_lt' hlt] at h
  have hvalid : Valid R live g₁ := by
    refine hg.of_update hs₁ hcontent₁ ?_
    rintro bs ⟨rfl⟩
    exact hsmall
  have hinput := congrFun hcontent₁ ptr
  rw [Function.update_self] at hinput
  have hgiven := given_of_whole hinput hlt
  obtain ⟨r, hr, hlenr⟩ := answer_eq_lift format options
    (hvalid.given_lt ptr (UInt32.ofNat input.length))
  have hreturns := disarm_returns_iff hR hvalid hr hlenr
  rw [hgiven] at hreturns
  refine ⟨g₁, r, hwrite, ?_, hreturns, ?_⟩
  · rw [hgiven] at hr
    exact hr
  intro packed g₂ hdisarm
  obtain ⟨hs₂, hfree, hlen, hcontent₂⟩ := hs₁.disarm_packed hR hr hdisarm
  have hne : resultPtr packed ≠ ptr := by
    intro heq
    rw [heq, hinput] at hfree
    cases hfree
  obtain ⟨g₃, hdealloc, hs₃, hcontent₃⟩ :=
    hs₂.dealloc (p := ptr) hR (UInt32.ofNat input.length)
  obtain ⟨g₄, hdealloc', -, hcontent₄⟩ :=
    hs₃.dealloc (p := resultPtr packed) hR (resultLen packed)
  have honly : g₃.content =
      Function.update (fun _ => none) (resultPtr packed) (some (encodeResult r)) := by
    have hgone : Function.update (fun _ => none) ptr none = (fun _ => none : Contents) :=
      Function.update_eq_self_iff.mpr rfl
    rw [hcontent₃, hcontent₂, hcontent₁, content_of_empty hempty, Function.update_comm hne,
      Function.update_idem, hgone]
  have hresult := congrFun honly (resultPtr packed)
  rw [Function.update_self] at hresult
  have hread : ((abi R).read (resultPtr packed) (resultLen packed)).run g₃ =
      .ok (encodeResult r, g₃) := by
    refine GuestAbi.read_run ?_
    rw [hlen]
    exact hs₃.read hR hresult
  refine ⟨g₃, g₄, hdealloc, honly, hread, hdealloc', ?_⟩
  apply buffers_eq_empty
  intro p
  rw [hcontent₄, honly, Function.update_idem, Function.update_eq_self]

end Guest

open Guest

/-- **The registry is sound over every run**: after whatever the host has done to a fresh instance,
in any order and with any arguments, a call of `disarm` returns whenever the runtime has room for
it. What it returns names a buffer that was not live before and holds the encoded answer: of the
filter on the start of the buffer it was given, or of the error for a buffer that is not live. No
live buffer changes, and the new one stays until it is written to or given back. From an empty
registry the calls the host makes for a file lead to an empty registry, by way of one in which the
result is the only buffer. -/
theorem registry_sound {η : Type} (R : Runtime η) (live : η → UInt32 → Nat → Prop)
    (hR : R.Lawful live) (hb : R.Bounded) (ops : List Op) (g : Guest η)
    (hrun : Trace (Step R) ops (Guest.start R) g) :
    (∀ ptr len format options, ∃ r,
      (g.content ptr = none → r = .error (.malformed "unknown input buffer")) ∧
      (∀ buf, g.content ptr = some buf →
        Guest.run format (buf.take (min len.toNat buf.length)) options = Exec.lift r) ∧
      ((∃ a, (Guest.disarm R ptr len format options).run g = .ok a) ↔
        ∃ heap, R.enter g.heap (g.given ptr len) format options = some heap ∧
          ∃ room, R.allocate heap (encodeResult r).length = some room) ∧
      ∀ packed g', (Guest.disarm R ptr len format options).run g = .ok (packed, g') →
        g.content (resultPtr packed) = none ∧
        g'.content (resultPtr packed) = some (encodeResult r) ∧
        (resultLen packed).toNat = (encodeResult r).length ∧
        (∀ p buf, g.content p = some buf → g'.content p = some buf) ∧
        ∀ ops' g'', Trace (Step R) ops' g' g'' →
          (∀ op ∈ ops', ¬ op.Touches (resultPtr packed)) →
          g''.content (resultPtr packed) = some (encodeResult r)) ∧
    (g.buffers = ∅ → ∀ input format options ptr g₀, input.length < 2 ^ 32 →
      (Guest.alloc R (UInt32.ofNat input.length)).run g = .ok (ptr, g₀) →
      ∃ g₁ r, ((abi R).writeInput input).run g = .ok (ptr, g₁) ∧
        Guest.run format input options = Exec.lift r ∧
        ((∃ a, (Guest.disarm R ptr (UInt32.ofNat input.length) format options).run g₁ =
            .ok a) ↔
          ∃ heap, R.enter g₁.heap (some input) format options = some heap ∧
            ∃ room, R.allocate heap (encodeResult r).length = some room) ∧
        ∀ packed g₂,
          (Guest.disarm R ptr (UInt32.ofNat input.length) format options).run g₁ =
              .ok (packed, g₂) →
          ∃ g₃ g₄, (Guest.dealloc R ptr (UInt32.ofNat input.length)).run g₂ = .ok ((), g₃) ∧
            g₃.content =
              Function.update (fun _ => none) (resultPtr packed) (some (encodeResult r)) ∧
            ((abi R).read (resultPtr packed) (resultLen packed)).run g₃ =
              .ok (encodeResult r, g₃) ∧
            (Guest.dealloc R (resultPtr packed) (resultLen packed)).run g₃ = .ok ((), g₄) ∧
            g₄.buffers = ∅) := by
  have hg : Valid R live g := (trace_refines hR hb .start hrun).1
  refine ⟨?_, ?_⟩
  · intro ptr len format options
    obtain ⟨r, hr, hlen⟩ := answer_eq_lift format options (hg.given_lt ptr len)
    refine ⟨r, ?_, ?_, disarm_returns_iff hR hg hr hlen, ?_⟩
    · intro hnone
      rw [given, hnone] at hr
      have hlift : Exec.lift (.error (FilterError.malformed "unknown input buffer")) =
          Exec.lift r := hr
      exact (Exec.lift_injective hlift).symm
    · intro buf hbuf
      rw [given, hbuf] at hr
      exact hr
    · intro packed g' hdisarm
      obtain ⟨hs, hfree, hlen, hcontent⟩ := hg.sound.disarm_packed hR hr hdisarm
      have hself : g'.content (resultPtr packed) = some (encodeResult r) := by
        rw [hcontent, Function.update_self]
      obtain ⟨hg', heffect⟩ := (Step.disarm hdisarm).refines hR hb hg
      refine ⟨hfree, hself, hlen, fun p buf hp => heffect.keeps hp id, ?_⟩
      exact fun ops' g'' htrace hops => content_of_trace hR hb hg' htrace hself hops
  · intro hempty input format options ptr g₀ hlt halloc
    exact host_sequence hR hb hg hempty hlt halloc

namespace Guest

/-- The host puts the file into a fresh instance. -/
def filling : List Op := [.alloc 21, .write 16 0 textPng]

/-- The file goes in, it is disarmed, and both buffers are given back. -/
def session : List Op :=
  filling ++ [.disarm 16 21 formatPng flagStripMetadata, .dealloc 16 21, .dealloc 37 29]

/-- With the file in it the instance disarms it. -/
theorem filling_runs : ∃ g a, Trace (Step Runtime.bump) filling (start Runtime.bump) g ∧
    g.content 16 = some textPng ∧
    (Guest.disarm Runtime.bump 16 21 formatPng flagStripMetadata).run g = .ok a :=
  ⟨_, _, .cons (.alloc rfl) (.cons (.write rfl (by decide) rfl) .nil), rfl, rfl⟩

/-- After a session the registry is empty, and the file can be disarmed once more. -/
theorem session_runs : ∃ g ptr g₀ g₁ a, Trace (Step Runtime.bump) session (start Runtime.bump) g ∧
    g.buffers = ∅ ∧
    (Guest.alloc Runtime.bump (UInt32.ofNat textPng.length)).run g = .ok (ptr, g₀) ∧
    ((abi Runtime.bump).writeInput textPng).run g = .ok (ptr, g₁) ∧
    (Guest.disarm Runtime.bump ptr (UInt32.ofNat textPng.length) formatPng flagStripMetadata).run
      g₁ = .ok a :=
  ⟨_, _, _, _, _, .cons (.alloc rfl) (.cons (.write rfl (by decide) rfl) (.cons (.disarm rfl)
    (.cons (.dealloc rfl) (.cons (.dealloc rfl) .nil)))), rfl, rfl, rfl, rfl⟩

end Guest

/-- The answer on the file stays when the file is given back, and the calls for one file can follow
those for another. -/
theorem registry_sound_sample :
    (∃ g packed g', Trace (Step Runtime.bump) filling (Guest.start Runtime.bump) g ∧
      (Guest.disarm Runtime.bump 16 21 formatPng flagStripMetadata).run g = .ok (packed, g') ∧
      g'.content (resultPtr packed) = some (encodeResult (disarmChunks textPng ⟨true⟩)) ∧
      g'.content 16 = some textPng ∧
      ∀ g'', Trace (Step Runtime.bump) [.dealloc 16 21] g' g'' →
        g''.content (resultPtr packed) = some (encodeResult (disarmChunks textPng ⟨true⟩))) ∧
    ∃ g g₁ g₂ g₃ g₄ ptr packed, Trace (Step Runtime.bump) session (Guest.start Runtime.bump) g ∧
      ((abi Runtime.bump).writeInput textPng).run g = .ok (ptr, g₁) ∧
      (Guest.disarm Runtime.bump ptr 21 formatPng flagStripMetadata).run g₁ = .ok (packed, g₂) ∧
      (Guest.dealloc Runtime.bump ptr 21).run g₂ = .ok ((), g₃) ∧
      ((abi Runtime.bump).read (resultPtr packed) (resultLen packed)).run g₃ =
        .ok (encodeResult (disarmChunks textPng ⟨true⟩), g₃) ∧
      (Guest.dealloc Runtime.bump (resultPtr packed) (resultLen packed)).run g₃ = .ok ((), g₄) ∧
      g₄.buffers = ∅ := by
  have hanswer : Guest.run formatPng textPng flagStripMetadata =
      Exec.lift (disarmChunks textPng ⟨true⟩) := @disarmPng_eq_lift .w32 textPng (by decide) ⟨true⟩
  refine ⟨?_, ?_⟩
  · obtain ⟨g, ⟨packed, g'⟩, htrace, hfile, hdisarm⟩ := filling_runs
    obtain ⟨r, -, hknown, -, hresult⟩ := (registry_sound Runtime.bump Runtime.BumpLive
      Runtime.bump_lawful Runtime.bump_bounded filling g htrace).1 16 21 formatPng
        flagStripMetadata
    obtain rfl := Exec.lift_injective (hanswer.symm.trans (hknown _ hfile))
    obtain ⟨hfresh, hheld, -, hkept, hstays⟩ := hresult packed g' hdisarm
    refine ⟨g, packed, g', htrace, hdisarm, hheld, hkept 16 textPng hfile, fun g'' hlater => ?_⟩
    refine hstays _ g'' hlater fun op hop htouches => ?_
    -- the file is given back, and the result is not the file
    obtain rfl := List.mem_singleton.mp hop
    have hsame : 16 = resultPtr packed := htouches
    rw [← hsame, hfile] at hfresh
    cases hfresh
  · obtain ⟨g, ptr, g₀, g₁, ⟨packed, g₂⟩, htrace, hempty, halloc, hwrite, hdisarm⟩ := session_runs
    obtain ⟨g₁', r, hwrite', hr, -, hrest⟩ := (registry_sound Runtime.bump Runtime.BumpLive
      Runtime.bump_lawful Runtime.bump_bounded session g htrace).2 hempty textPng formatPng
        flagStripMetadata ptr g₀ (by decide) halloc
    obtain ⟨-, rfl⟩ := Prod.mk.inj (Except.ok.inj (hwrite.symm.trans hwrite'))
    obtain rfl := Exec.lift_injective (hanswer.symm.trans hr)
    obtain ⟨g₃, g₄, hback, -, hread, hfree, hend⟩ := hrest packed g₂ hdisarm
    exact ⟨g, g₁, g₂, g₃, g₄, ptr, packed, htrace, hwrite, hdisarm, hback, hread, hfree, hend⟩

end Purgo
