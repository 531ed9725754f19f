import Mathlib.Logic.Function.Basic
import Purgo.Guest

/-!
# The buffers of the guest

What the registry is for: byte strings under pointers, `Guest.content`. Over an allocator that
keeps its blocks apart, every operation of the guest does to these what its name says. An
allocation adds a string, an empty one possibly again, `dealloc` takes one away, a write inside a
buffer changes that buffer, `disarm` adds the encoded result under a pointer that was free, and no
other string ever changes.

The invariant is `Sound`: the buffers with bytes in them are blocks of the allocator. Each
operation has one lemma, which gives the invariant and the strings after it.
-/

namespace Purgo

open Rust Threaded Wire

/-- The pointer of a vector without memory of its own. -/
def dangling : UInt32 := 1

/-- What the guest relies on: `live h p n` says that at the state `h` of the runtime the `n` bytes
from `p` are a block that has been handed out. -/
structure Runtime.Lawful {η : Type} (R : Runtime η) (live : η → UInt32 → Nat → Prop) :
    Prop where
  /-- there is memory -/
  size_pos : ∀ h, 0 < R.size h
  /-- blocks lie in memory, above the dangling pointer -/
  inside : ∀ {h p n}, live h p n → dangling < p ∧ p.toNat + n ≤ R.size h
  /-- blocks at different addresses do not overlap -/
  apart : ∀ {h p n q m}, live h p n → live h q m → p ≠ q →
    p.toNat + n ≤ q.toNat ∨ q.toNat + m ≤ p.toNat
  /-- nothing is handed out for an empty vector -/
  allocate_empty : ∀ {h p h'}, R.allocate h 0 = some (p, h') → p = dangling
  /-- what is handed out is a block, and was none -/
  allocate_fresh : ∀ {h n p h'}, R.allocate h n = some (p, h') → n ≠ 0 →
    live h' p n ∧ ∀ m, ¬ live h p m
  allocate_keeps : ∀ {h n p h' q m}, R.allocate h n = some (p, h') → live h q m → live h' q m
  free_keeps : ∀ {h p n q m}, q ≠ p → live h q m → live (R.free h p n) q m
  enter_keeps : ∀ {h input format options h' q m},
    R.enter h input format options = some h' → live h q m → live h' q m
  leave_keeps : ∀ {h q m}, live h q m → live (R.leave h) q m

/-- No vector is longer than half the address space. -/
def Runtime.Bounded {η : Type} (R : Runtime η) : Prop :=
  ∀ {h n p h'}, R.allocate h n = some (p, h') → n < 2 ^ 31

namespace Guest

variable {η : Type} {R : Runtime η} {live : η → UInt32 → Nat → Prop} {g : Guest η}
  {p q : UInt32} {n m : Nat} {bs : List UInt8}

/-- What a buffer holds is what lies at its address, as far as it reaches. -/
theorem content_eq_some : g.content p = some bs ↔
    ∃ n, g.buffers.lookup p = some n ∧ g.memory.range p.toNat n = bs := Option.map_eq_some_iff

theorem content_of_lookup (h : g.buffers.lookup p = some n) :
    g.content p = some (g.memory.range p.toNat n) := content_eq_some.mpr ⟨n, h, rfl⟩

/-! ## The invariant -/

/-- The empty buffers are at the dangling pointer, the others are blocks. -/
structure Sound (R : Runtime η) (live : η → UInt32 → Nat → Prop) (g : Guest η) : Prop where
  size_eq : g.memory.size = R.size g.heap
  empty : ∀ {p}, g.buffers.lookup p = some 0 → p = dangling
  block : ∀ {p n}, g.buffers.lookup p = some n → n ≠ 0 → live g.heap p n

/-- A fresh instance has no buffers to get wrong. -/
theorem Sound.start : Sound R live (Guest.start R) where
  size_eq := rfl
  empty h := by cases h
  block h := by cases h

/-- Buffers lie in memory. -/
theorem Sound.inside (hR : R.Lawful live) (hg : Sound R live g)
    (h : g.buffers.lookup p = some n) : p.toNat + n ≤ g.memory.size := by
  rw [hg.size_eq]
  by_cases hn : n = 0
  · subst hn
    obtain rfl := hg.empty h
    exact hR.size_pos g.heap
  · exact (hR.inside (hg.block h hn)).2

/-- A buffer is at the dangling pointer or above it. -/
theorem Sound.above (hR : R.Lawful live) (hg : Sound R live g)
    (h : g.buffers.lookup p = some n) (hne : p ≠ dangling) : dangling < p := by
  by_cases hn : n = 0
  · subst hn
    exact absurd (hg.empty h) hne
  · exact (hR.inside (hg.block h hn)).1

/-- A buffer lies beside every block at another address. -/
theorem Sound.beside (hR : R.Lawful live) (hg : Sound R live g) {heap : η}
    (hkeep : ∀ {q m}, live g.heap q m → live heap q m) (hp : live heap p n)
    (hq : g.buffers.lookup q = some m) (hne : q ≠ p) :
    q.toNat + m ≤ p.toNat ∨ p.toNat + n ≤ q.toNat := by
  by_cases hm : m = 0
  · subst hm
    obtain rfl := hg.empty hq
    exact .inl (Nat.le_of_lt (hR.inside hp).1)
  · exact hR.apart (hkeep (hg.block hq hm)) hp hne

/-- The bytes of a buffer are read from the memory. -/
theorem Sound.read (hR : R.Lawful live) (hg : Sound R live g) (h : g.content p = some bs) :
    g.memory.read p.toNat bs.length = some bs := by
  obtain ⟨n, hlookup, rfl⟩ := content_eq_some.mp h
  rw [Memory.length_range]
  exact Memory.read_eq_some (hg.inside hR hlookup)

/-! ## The runtime at work -/

/-- The addresses of a buffer are covered. -/
theorem covers_of_lookup (h : g.buffers.lookup p = some n) {a : Nat} (hp : p.toNat ≤ a)
    (hn : a < p.toNat + n) : g.covers a = true := by
  refine List.any_eq_true.mpr ⟨⟨p, n⟩, ?_, by simp [hp, hn]⟩
  exact AList.mem_lookup_iff.mp h

/-- The runtime does not touch the buffers. -/
@[simp] theorem content_settle (heap : η) : (g.settle R heap).content = g.content := by
  funext p
  rcases h : g.buffers.lookup p with _ | n
  · simp [content, settle, h]
  · rw [content_of_lookup h, content_of_lookup (g := g.settle R heap) h]
    refine congrArg some (Memory.range_congr fun a hp hn => ?_)
    exact if_pos (covers_of_lookup h hp hn)

/-- The runtime may go on as long as it keeps the buffers live, since it writes around them. -/
theorem Sound.settle (hg : Sound R live g) {heap : η}
    (hkeep : ∀ {p n}, g.buffers.lookup p = some n → n ≠ 0 → live heap p n) :
    Sound R live (g.settle R heap) where
  size_eq := rfl
  empty := hg.empty
  block := hkeep

/-- When the runtime goes on, all that changes is its own part of the memory. -/
theorem proceed_eq_ok {next : η → Option η} {g' : Guest η} {u : Unit} :
    (proceed R next).run g = .ok (u, g') ↔
      ∃ heap, next g.heap = some heap ∧ g' = g.settle R heap := by
  rw [Guest.proceed, get_bind_run]
  cases next g.heap with
  | none => exact iff_of_false throw_ne_ok (by simp)
  | some heap =>
    refine set_eq_ok.trans ?_
    simp

/-! ## The registry -/

/-- Registering a buffer adds the bytes that lie there. -/
theorem content_insertBuffer :
    (g.insertBuffer R p n).content =
      Function.update g.content p (some (g.memory.range p.toNat n)) := by
  have hinsert : ({ g with buffers := g.buffers.insert p n } : Guest η).content =
      Function.update g.content p (some (g.memory.range p.toNat n)) := by
    funext q
    by_cases hq : q = p
    · subst hq
      rw [Function.update_self]
      exact content_of_lookup (AList.lookup_insert g.buffers)
    · rw [Function.update_of_ne hq]
      exact congrArg (Option.map _) (AList.lookup_insert_ne hq)
  rw [insertBuffer]
  cases g.buffers.lookup p with
  | none => exact hinsert
  | some old => exact (content_settle _).trans hinsert

/-- Removing a buffer takes its bytes away. -/
theorem content_removeBuffer :
    (g.removeBuffer R p).content = Function.update g.content p none := by
  have herase : ({ g with buffers := g.buffers.erase p } : Guest η).content =
      Function.update g.content p none := by
    funext q
    by_cases hq : q = p
    · subst hq
      rw [Function.update_self]
      exact congrArg (Option.map _) (AList.lookup_erase q g.buffers)
    · rw [Function.update_of_ne hq]
      exact congrArg (Option.map _) (AList.lookup_erase_ne hq)
  rw [removeBuffer]
  cases h : g.buffers.lookup p with
  | none =>
    have hnone : g.content p = none := congrArg (Option.map _) h
    exact (Function.update_eq_self_iff.mpr hnone.symm).symm
  | some old => exact (content_settle _).trans herase

/-- A buffer may be registered where there is none, or an empty one at the dangling pointer. -/
theorem Sound.insertBuffer (hR : R.Lawful live) (hg : Sound R live g)
    (hempty : n = 0 → p = dangling) (hblock : n ≠ 0 → live g.heap p n)
    (hnew : n ≠ 0 → g.buffers.lookup p = none) : Sound R live (g.insertBuffer R p n) := by
  have hentry : ∀ {q m}, (g.buffers.insert p n).lookup q = some m →
      (q = p ∧ m = n) ∨ (q ≠ p ∧ g.buffers.lookup q = some m) := by
    intro q m h
    by_cases hq : q = p
    · subst hq
      rw [AList.lookup_insert] at h
      exact .inl ⟨rfl, (Option.some.inj h).symm⟩
    · rw [AList.lookup_insert_ne hq] at h
      exact .inr ⟨hq, h⟩
  rw [Guest.insertBuffer]
  cases h : g.buffers.lookup p with
  | none =>
    refine ⟨hg.size_eq, fun hq => ?_, fun hq hm => ?_⟩
    · rcases hentry hq with ⟨rfl, hn⟩ | ⟨-, hq⟩
      · exact hempty hn.symm
      · exact hg.empty hq
    · rcases hentry hq with ⟨rfl, rfl⟩ | ⟨-, hq⟩
      · exact hblock hm
      · exact hg.block hq hm
  | some old =>
    have hn : n = 0 := by
      by_contra hn
      rw [hnew hn] at h
      cases h
    refine ⟨rfl, fun hq => ?_, fun hq hm => ?_⟩
    · rcases hentry hq with ⟨rfl, -⟩ | ⟨-, hq⟩
      · exact hempty hn
      · exact hg.empty hq
    · rcases hentry hq with ⟨rfl, hmn⟩ | ⟨hne, hq⟩
      · exact absurd (hmn.trans hn) hm
      · exact hR.free_keeps hne (hg.block hq hm)

/-- A buffer may be given back at any time, also an unknown one. -/
theorem Sound.removeBuffer (hR : R.Lawful live) (hg : Sound R live g) :
    Sound R live (g.removeBuffer R p) := by
  have hentry : ∀ {q m}, (g.buffers.erase p).lookup q = some m →
      q ≠ p ∧ g.buffers.lookup q = some m := by
    intro q m h
    have hq : q ≠ p := by
      rintro rfl
      rw [AList.lookup_erase] at h
      cases h
    rw [AList.lookup_erase_ne hq] at h
    exact ⟨hq, h⟩
  rw [Guest.removeBuffer]
  cases h : g.buffers.lookup p with
  | none => exact hg
  | some old =>
    refine ⟨rfl, fun hq => ?_, fun hq hm => ?_⟩
    · exact hg.empty (hentry hq).2
    · exact hR.free_keeps (hentry hq).1 (hg.block (hentry hq).2 hm)

/-! ## Writing -/

/-- Two buffers never overlap. -/
theorem Sound.apart (hR : R.Lawful live) (hg : Sound R live g) (hp : g.buffers.lookup p = some n)
    (hq : g.buffers.lookup q = some m) (hne : q ≠ p) :
    q.toNat + m ≤ p.toNat ∨ p.toNat + n ≤ q.toNat := by
  by_cases hn : n = 0
  · subst hn
    obtain rfl := hg.empty hp
    exact .inr (Nat.le_of_lt (hg.above hR hq hne))
  · exact hg.beside hR id (hg.block hp hn) hq hne

/-- A write beside a buffer is not seen in it. -/
theorem content_patch_of_beside {a : Nat} {data : List UInt8}
    (hbeside : ∀ {m}, g.buffers.lookup q = some m →
      q.toNat + m ≤ a ∨ a + data.length ≤ q.toNat) :
    ({ g with memory := g.memory.patch a data } : Guest η).content q = g.content q := by
  cases h : g.buffers.lookup q with
  | none => simp [content, h]
  | some m =>
    rw [content_of_lookup h, content_of_lookup (g := { g with memory := g.memory.patch a data }) h,
      Memory.range_patch_of_disjoint (hbeside h)]

/-- Writing into memory does not move the buffers. -/
theorem Sound.patch (hg : Sound R live g) {a : Nat} {data : List UInt8} :
    Sound R live { g with memory := g.memory.patch a data } :=
  ⟨hg.size_eq, hg.empty, hg.block⟩

/-- A write inside a buffer succeeds, and replaces its part of that buffer. -/
theorem Sound.write (hR : R.Lawful live) (hg : Sound R live g) (hp : g.content p = some bs)
    {off : Nat} {data : List UInt8} (hoff : off + data.length ≤ bs.length) :
    g.memory.write (p.toNat + off) data = some (g.memory.patch (p.toNat + off) data) ∧
    ({ g with memory := g.memory.patch (p.toNat + off) data } : Guest η).content =
      Function.update g.content p (some (bs.take off ++ data ++ bs.drop (off + data.length))) := by
  obtain ⟨n, hlookup, rfl⟩ := content_eq_some.mp hp
  rw [Memory.length_range] at hoff
  have hinside := hg.inside hR hlookup
  refine ⟨Memory.write_eq_some (by omega), ?_⟩
  funext q
  by_cases hq : q = p
  · subst hq
    rw [Function.update_self, ← Memory.range_patch_within hoff]
    exact content_of_lookup hlookup
  · rw [Function.update_of_ne hq]
    refine content_patch_of_beside fun hm => ?_
    have hapart := hg.apart hR hlookup hm hq
    omega

/-- A write over a whole buffer. -/
theorem Sound.overwrite (hR : R.Lawful live) (hg : Sound R live g) (hp : g.content p = some bs)
    {data : List UInt8} (hlen : bs.length = data.length) :
    g.memory.write p.toNat data = some (g.memory.patch p.toNat data) ∧
    ({ g with memory := g.memory.patch p.toNat data } : Guest η).content =
      Function.update g.content p (some data) := by
  have hoff : 0 + data.length ≤ bs.length := by omega
  obtain ⟨hwrite, hcontent⟩ := hg.write hR hp hoff
  have hnil : bs.drop (0 + data.length) = [] := List.drop_eq_nil_of_le (by omega)
  rw [hnil, List.take_zero, List.nil_append, List.append_nil] at hcontent
  exact ⟨hwrite, hcontent⟩

/-! ## The exports -/

/-- Fresh room, filled with zeros. -/
theorem zeroed_eq_ok {len : Nat} {g' : Guest η} :
    (zeroed R len).run g = .ok (p, g') ↔
      ∃ heap, R.allocate g.heap len = some (p, heap) ∧
        g' = { g.settle R heap with
          memory := (g.settle R heap).memory.patch p.toNat (List.replicate len 0) } := by
  rw [Guest.zeroed, get_bind_run]
  rcases R.allocate g.heap len with _ | ⟨q, heap⟩
  · exact iff_of_false throw_ne_ok (by simp)
  · refine ⟨?_, ?_⟩
    · intro h
      obtain ⟨_, t, hset, h⟩ := bind_eq_ok.mp h
      obtain rfl := set_eq_ok.mp hset
      obtain ⟨rfl, rfl⟩ := pure_eq_ok.mp h
      exact ⟨heap, rfl, rfl⟩
    · rintro ⟨heap', hroom, rfl⟩
      obtain ⟨rfl, rfl⟩ := Prod.mk.inj (Option.some.inj hroom)
      rfl

/-- A fresh vector: the runtime found room that no other buffer is in. -/
theorem Sound.zeroed (hR : R.Lawful live) (hg : Sound R live g) {len : Nat} {g' : Guest η}
    (h : (zeroed R len).run g = .ok (p, g')) :
    Sound R live g' ∧ (len = 0 → p = dangling) ∧
    (len ≠ 0 → live g'.heap p len ∧ g.buffers.lookup p = none) ∧
    g'.buffers = g.buffers ∧ (∀ q, q ≠ p → g'.content q = g.content q) ∧
    g'.memory.range p.toNat len = List.replicate len 0 := by
  obtain ⟨heap, hroom, rfl⟩ := zeroed_eq_ok.mp h
  have hsettle : Sound R live (g.settle R heap) :=
    hg.settle fun hq hm => hR.allocate_keeps hroom (hg.block hq hm)
  have hzeros : (List.replicate len (0 : UInt8)).length = len := List.length_replicate
  have hself : ((g.settle R heap).memory.patch p.toNat (List.replicate len 0)).range p.toNat
      (List.replicate len (0 : UInt8)).length = List.replicate len 0 := Memory.range_patch_self
  rw [hzeros] at hself
  refine ⟨hsettle.patch, ?_, fun hlen => ?_, rfl, fun q hq => ?_, hself⟩
  · rintro rfl
    exact hR.allocate_empty hroom
  · obtain ⟨hlive, hnew⟩ := hR.allocate_fresh hroom hlen
    refine ⟨hlive, Option.eq_none_iff_forall_ne_some.mpr fun m hm => ?_⟩
    by_cases hm0 : m = 0
    · subst hm0
      obtain rfl := hg.empty hm
      exact absurd (hR.inside hlive).1 (Nat.lt_irrefl _)
    · exact hnew m (hg.block hm hm0)
  · refine (content_patch_of_beside fun hm => ?_).trans (congrFun (content_settle heap) q)
    rw [hzeros]
    by_cases hlen : len = 0
    · subst hlen
      obtain rfl := hR.allocate_empty hroom
      exact .inr (Nat.le_of_lt (hg.above hR hm hq))
    · exact hg.beside hR (hR.allocate_keeps hroom) (hR.allocate_fresh hroom hlen).1 hm hq

/-- `alloc` is fresh room that is entered in the registry. -/
theorem alloc_eq_ok {len : UInt32} {g' : Guest η} :
    (alloc R len).run g = .ok (p, g') ↔
      ∃ g₁, (zeroed R len.toNat).run g = .ok (p, g₁) ∧
        g' = g₁.insertBuffer R p len.toNat := by
  rw [Guest.alloc, bind_eq_ok]
  refine ⟨?_, ?_⟩
  · rintro ⟨q, g₁, hzeroed, h⟩
    obtain ⟨_, g₂, hinsert, h⟩ := bind_eq_ok.mp h
    obtain ⟨rfl, rfl⟩ := pure_eq_ok.mp h
    exact ⟨g₁, hzeroed, modify_eq_ok.mp hinsert⟩
  · rintro ⟨g₁, hzeroed, rfl⟩
    exact ⟨p, g₁, hzeroed, rfl⟩

/-- **`alloc`** adds a buffer of zeros, under the dangling pointer when it is empty and under a
free one otherwise. -/
theorem Sound.alloc (hR : R.Lawful live) (hg : Sound R live g) {len : UInt32} {g' : Guest η}
    (h : (alloc R len).run g = .ok (p, g')) :
    Sound R live g' ∧ g'.content =
      Function.update g.content p (some (List.replicate len.toNat 0)) ∧
    (len.toNat = 0 → p = dangling) ∧ (len.toNat ≠ 0 → dangling < p ∧ g.content p = none) := by
  obtain ⟨g₁, hzeroed, rfl⟩ := alloc_eq_ok.mp h
  obtain ⟨hg₁, hempty, hfresh, hbuffers, hothers, hzeros⟩ := hg.zeroed hR hzeroed
  refine ⟨hg₁.insertBuffer hR hempty (fun hn => (hfresh hn).1) ?_, ?_, hempty, fun hn => ?_⟩
  · rw [hbuffers]
    exact fun hn => (hfresh hn).2
  · rw [content_insertBuffer, hzeros]
    funext q
    by_cases hq : q = p
    · subst hq
      rw [Function.update_self, Function.update_self]
    · rw [Function.update_of_ne hq, Function.update_of_ne hq, hothers q hq]
  · exact ⟨(hR.inside (hfresh hn).1).1, congrArg (Option.map _) (hfresh hn).2⟩

/-- **`dealloc`** takes a buffer away, if there is one. -/
theorem Sound.dealloc (hR : R.Lawful live) (hg : Sound R live g) (len : UInt32) :
    ∃ g', (dealloc R p len).run g = .ok ((), g') ∧ Sound R live g' ∧
      g'.content = Function.update g.content p none :=
  ⟨_, rfl, hg.removeBuffer hR, content_removeBuffer⟩

/-- A buffer is filled by as many bytes as it has. -/
theorem fill_eq_ok (hp : g.content p = some bs) {bytes : List UInt8} {g' : Guest η} {u : Unit} :
    (fill R p bytes).run g = .ok (u, g') ↔
      bs.length = bytes.length ∧ g' = { g with memory := g.memory.patch p.toNat bytes } := by
  obtain ⟨n, hlookup, rfl⟩ := content_eq_some.mp hp
  rw [Guest.fill, get_bind_run, hlookup, Memory.length_range]
  dsimp only
  split_ifs with hn
  · rw [set_eq_ok, and_iff_right hn]
  · exact iff_of_false throw_ne_ok fun h => hn h.1

/-- A slot of the right length is filled. -/
theorem Sound.fill (hR : R.Lawful live) (hg : Sound R live g) (hp : g.content p = some bs)
    {bytes : List UInt8} {g' : Guest η} {u : Unit}
    (h : (fill R p bytes).run g = .ok (u, g')) :
    bs.length = bytes.length ∧ Sound R live g' ∧
      g'.content = Function.update g.content p (some bytes) := by
  obtain ⟨hlen, rfl⟩ := (fill_eq_ok hp).mp h
  exact ⟨hlen, hg.patch, (hg.overwrite hR hp hlen).2⟩

/-- A run that does not trap returned or failed. -/
theorem orTrap_eq_ok {α : Type} {x : Exec FilterError α} {r : Except FilterError α}
    {g' : Guest η} : (orTrap R x).run g = .ok (r, g') ↔ x = Exec.lift r ∧ g' = g := by
  refine ⟨?_, ?_⟩
  · intro h
    rcases x with (e | _ | _) | a
    · obtain ⟨rfl, rfl⟩ := pure_eq_ok.mp h
      exact ⟨rfl, rfl⟩
    · exact absurd h throw_ne_ok
    · exact absurd h throw_ne_ok
    · obtain ⟨rfl, rfl⟩ := pure_eq_ok.mp h
      exact ⟨rfl, rfl⟩
  · rintro ⟨rfl, rfl⟩
    rcases r with e | a
    · rfl
    · rfl

/-- A result is never empty, so its buffer is a place of its own. -/
theorem length_encodeResult_pos (r : Except FilterError (List UInt8 × List RemovedChunk)) :
    0 < (encodeResult r).length := by
  rcases r with ⟨⟨reason⟩⟩ | ⟨bytes, removed⟩
  · exact Nat.succ_pos _
  · exact Nat.succ_pos _

/-- What `disarm` works on: the start of the buffer, as far as the length goes. -/
def given (g : Guest η) (ptr len : UInt32) : Option (List UInt8) :=
  (g.content ptr).map fun buf => buf.take (min len.toNat buf.length)

/-- A host that gives the true length of a buffer hands in all of it. -/
theorem given_of_whole (h : g.content p = some bs) (hlen : bs.length < 2 ^ 32) :
    g.given p (UInt32.ofNat bs.length) = some bs := by
  rw [given, h, UInt32.toNat_ofNat_of_lt' hlen, Option.map_some, Nat.min_self, List.take_length]

/-- The parts of a call of `disarm` that does not trap. -/
theorem disarm_eq_ok {len format options : UInt32} {packed : UInt64} {g' : Guest η} :
    (disarm R p len format options).run g = .ok (packed, g') ↔
      ∃ heap r q g₃ g₄, R.enter g.heap (g.given p len) format options = some heap ∧
        answer format options (g.given p len) = Exec.lift r ∧
        (alloc R (UInt32.ofNat (encodeResult r).length)).run (g.settle R heap) = .ok (q, g₃) ∧
        (fill R q (encodeResult r)).run g₃ = .ok ((), g₄) ∧
        packed = pack q (UInt32.ofNat (encodeResult r).length) ∧
        g' = g₄.settle R (R.leave g₄.heap) := by
  rw [Guest.disarm, get_bind_run]
  refine ⟨?_, ?_⟩
  · intro h
    obtain ⟨_, g₁, hproceed, h⟩ := bind_eq_ok.mp h
    obtain ⟨heap, henter, rfl⟩ := proceed_eq_ok.mp hproceed
    obtain ⟨r, g₂, htrap, h⟩ := bind_eq_ok.mp h
    obtain ⟨hanswer, rfl⟩ := orTrap_eq_ok.mp htrap
    obtain ⟨q, g₃, halloc, h⟩ := bind_eq_ok.mp h
    obtain ⟨_, g₄, hfill, h⟩ := bind_eq_ok.mp h
    obtain ⟨_, g₅, hproceed', h⟩ := bind_eq_ok.mp h
    obtain ⟨heap', hleave, rfl⟩ := proceed_eq_ok.mp hproceed'
    obtain rfl := Option.some.inj hleave
    obtain ⟨rfl, rfl⟩ := pure_eq_ok.mp h
    exact ⟨heap, r, q, g₃, g₄, henter, hanswer, halloc, hfill, rfl, rfl⟩
  · rintro ⟨heap, r, q, g₃, g₄, henter, hanswer, halloc, hfill, rfl, rfl⟩
    refine bind_eq_ok.mpr ⟨(), g.settle R heap, proceed_eq_ok.mpr ⟨heap, henter, rfl⟩, ?_⟩
    refine bind_eq_ok.mpr ⟨r, g.settle R heap, orTrap_eq_ok.mpr ⟨hanswer, rfl⟩, ?_⟩
    refine bind_eq_ok.mpr ⟨q, g₃, halloc, bind_eq_ok.mpr ⟨(), g₄, hfill, ?_⟩⟩
    exact bind_eq_ok.mpr ⟨(), _, proceed_eq_ok.mpr ⟨_, rfl, rfl⟩, rfl⟩

/-- **`disarm`** adds the encoded answer under a free pointer and changes no other buffer. -/
theorem Sound.disarm (hR : R.Lawful live) (hg : Sound R live g) {len format options : UInt32}
    {packed : UInt64} {g' : Guest η}
    (h : (disarm R p len format options).run g = .ok (packed, g')) :
    ∃ r q, answer format options (g.given p len) = Exec.lift r ∧
      packed = pack q (UInt32.ofNat (encodeResult r).length) ∧ (encodeResult r).length < 2 ^ 32 ∧
      dangling < q ∧ g.content q = none ∧ Sound R live g' ∧
      g'.content = Function.update g.content q (some (encodeResult r)) := by
  obtain ⟨heap, r, q, g₃, g₄, henter, hr, halloc, hfill, hpacked, rfl⟩ := disarm_eq_ok.mp h
  have hg₁ : Sound R live (g.settle R heap) :=
    hg.settle fun hq hm => hR.enter_keeps henter (hg.block hq hm)
  obtain ⟨hg₃, hcontent₃, -, hfree⟩ := hg₁.alloc hR halloc
  rw [content_settle] at hcontent₃ hfree
  have hslot : g₃.content q =
      some (List.replicate (UInt32.ofNat (encodeResult r).length).toNat 0) := by
    rw [hcontent₃, Function.update_self]
  obtain ⟨hlen, hg₄, hcontent₄⟩ := hg₃.fill hR hslot hfill
  rw [List.length_replicate] at hlen
  have hpos := length_encodeResult_pos r
  obtain ⟨hq, hnone⟩ := hfree (by omega)
  refine ⟨r, q, hr, hpacked, ?_, hq, hnone, ?_, ?_⟩
  · rw [← hlen]
    exact UInt32.toNat_lt _
  · exact hg₄.settle fun hq hm => hR.leave_keeps (hg₄.block hq hm)
  · rw [content_settle, hcontent₄, hcontent₃, Function.update_idem]

end Guest

/-! ## A runtime

The laws are those of an allocator: here is the simplest one that has them. -/

/-- The runtime that never gives anything back: each block starts where the one before ends. -/
def Runtime.bump : Runtime (List Nat) where
  start := []
  allocate blocks n :=
    if n = 0 then some (dangling, blocks)
    else if 16 + blocks.sum + n < 2 ^ 31 then
      some (UInt32.ofNat (16 + blocks.sum), blocks ++ [n])
    else none
  free blocks _ _ := blocks
  enter blocks _ _ _ := some blocks
  leave blocks := blocks
  size blocks := 16 + blocks.sum
  byteAt _ _ := 0
  trap := "unreachable"
  accessError := "out of bounds memory access"

/-- The blocks, at the addresses they have been handed out at. -/
def Runtime.BumpLive (blocks : List Nat) (p : UInt32) (n : Nat) : Prop :=
  n ≠ 0 ∧ ∃ before after, blocks = before ++ n :: after ∧ p.toNat = 16 + before.sum

/-- The sample allocator never hands out what it has handed out before. -/
theorem Runtime.bump_lawful : Runtime.bump.Lawful Runtime.BumpLive where
  size_pos blocks := Nat.lt_of_lt_of_le (by decide) (Nat.le_add_right 16 blocks.sum)
  inside := by
    rintro h p n ⟨-, before, after, rfl, hp⟩
    refine ⟨?_, ?_⟩
    · change 1 < p.toNat
      omega
    · change p.toNat + n ≤ 16 + (before ++ n :: after).sum
      rw [List.sum_append, List.sum_cons]
      omega
  apart := by
    rintro h p n q m ⟨-, before, after, rfl, hp⟩ ⟨-, before', after', heq, hq⟩ hne
    rcases List.append_eq_append_iff.mp heq with ⟨a, rfl, ha⟩ | ⟨a, rfl, ha⟩
    · cases a with
      | nil => exact absurd (UInt32.toNat_inj.mp (by rw [hp, hq, List.append_nil])) hne
      | cons b a =>
        obtain ⟨rfl, -⟩ := List.cons.inj ha
        rw [List.sum_append, List.sum_cons] at hq
        exact .inl (by omega)
    · cases a with
      | nil => exact absurd (UInt32.toNat_inj.mp (by rw [hp, hq, List.append_nil])) hne
      | cons b a =>
        obtain ⟨rfl, -⟩ := List.cons.inj ha
        rw [List.sum_append, List.sum_cons] at hp
        exact .inr (by omega)
  allocate_empty hroom := (Prod.mk.inj (Option.some.inj hroom)).1.symm
  allocate_fresh := by
    intro h n p h' hroom hn
    rw [Runtime.bump] at hroom
    dsimp only at hroom
    rw [if_neg hn] at hroom
    split_ifs at hroom with hlt
    obtain ⟨rfl, rfl⟩ := Prod.mk.inj (Option.some.inj hroom)
    have hp : (UInt32.ofNat (16 + h.sum)).toNat = 16 + h.sum :=
      UInt32.toNat_ofNat_of_lt' (Nat.lt_trans (Nat.lt_of_le_of_lt (Nat.le_add_right _ n) hlt)
        (by decide))
    refine ⟨⟨hn, h, [], rfl, hp⟩, ?_⟩
    rintro m ⟨hm, before, after, rfl, hq⟩
    rw [hp, List.sum_append, List.sum_cons] at hq
    omega
  allocate_keeps := by
    intro h n p h' q m hroom hlive
    rw [Runtime.bump] at hroom
    dsimp only at hroom
    split_ifs at hroom with hn hlt
    · obtain ⟨-, rfl⟩ := Prod.mk.inj (Option.some.inj hroom)
      exact hlive
    · obtain ⟨-, rfl⟩ := Prod.mk.inj (Option.some.inj hroom)
      obtain ⟨hm, before, after, rfl, hq⟩ := hlive
      exact ⟨hm, before, after ++ [n], by simp, hq⟩
  free_keeps _ hlive := hlive
  enter_keeps henter hlive := by
    obtain rfl := Option.some.inj henter
    exact hlive
  leave_keeps hlive := hlive

/-- The sample allocator has 2 GiB to give. -/
theorem Runtime.bump_bounded : Runtime.bump.Bounded := by
  intro h n p h' hroom
  rw [Runtime.bump] at hroom
  dsimp only at hroom
  split_ifs at hroom with hn hlt
  · omega
  · omega

end Purgo
