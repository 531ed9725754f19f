import Purgo.WireCodec

/-!
# What the decoder accepts

The converse of `WireCodec`. `Accepts m R` says of every successful run of the decoder `m`, on
whatever buffer, that it has read bytes `x` that stand in the relation `R` to its value, that it
has moved exactly past them, and that nothing after them mattered. The decoders of the fields accept
exactly what the encoder puts for them, and `Accepts.bind` puts them together, through the loop
over a count that the other side chose.
-/

namespace Purgo

open Rust Threaded

namespace Wire

variable {w : Width} {α β : Type}

/-- A run of the decoder that succeeds has read bytes that are related to its value, and it would
have read them whatever came next. -/
def Accepts (m : Reading α) (R : List UInt8 → α → Prop) : Prop :=
  ∀ (pre s : List UInt8) (a : α) (r : Reader),
    m.run { buf := pre ++ s, pos := pre.length } = .ok (a, r) →
      ∃ x rest, s = x ++ rest ∧ R x a ∧ r = { buf := pre ++ s, pos := pre.length + x.length } ∧
        ∀ rest', m.run { buf := pre ++ (x ++ rest'), pos := pre.length } =
          .ok (a, { buf := pre ++ (x ++ rest'), pos := pre.length + x.length })

/-- What is accepted may be described more loosely. -/
theorem Accepts.imp {m : Reading α} {R S : List UInt8 → α → Prop} (hm : Accepts m R)
    (h : ∀ x a, R x a → S x a) : Accepts m S := by
  intro pre s a r hrun
  obtain ⟨x, rest, hs, hR, hrest⟩ := hm pre s a r hrun
  exact ⟨x, rest, hs, h x a hR, hrest⟩

/-- Returning accepts nothing but the empty prefix. -/
theorem accepts_pure (a : α) : Accepts (pure a) fun x b => x = [] ∧ b = a := by
  intro pre s b r hrun
  obtain ⟨rfl, rfl⟩ := pure_eq_ok.mp hrun
  exact ⟨[], s, rfl, ⟨rfl, rfl⟩, rfl, fun _ => rfl⟩

/-- Throwing accepts nothing. -/
theorem accepts_throw (e : WireError) (R : List UInt8 → α → Prop) :
    Accepts (throw e : Reading α) R :=
  fun _ _ _ _ hrun => absurd hrun throw_ne_ok

/-- Two decoders in a row accept the one's bytes followed by the other's. -/
theorem Accepts.bind {m : Reading α} {f : α → Reading β} {R : List UInt8 → α → Prop}
    {S : α → List UInt8 → β → Prop} (hm : Accepts m R) (hf : ∀ a, Accepts (f a) (S a)) :
    Accepts (m >>= f) fun z b => ∃ x y a, z = x ++ y ∧ R x a ∧ S a y b := by
  intro pre s b r hrun
  obtain ⟨a, r₁, hfirst, hsecond⟩ := bind_eq_ok.mp hrun
  obtain ⟨x, rest, rfl, hR, rfl, hfirst'⟩ := hm pre s a r₁ hfirst
  have hpos : pre.length + x.length = (pre ++ x).length := List.length_append.symm
  rw [hpos, ← List.append_assoc] at hsecond
  obtain ⟨y, rest, rfl, hS, rfl, hsecond'⟩ := hf a (pre ++ x) rest b r hsecond
  have hend : (pre ++ x).length + y.length = pre.length + (x ++ y).length := by
    simp only [List.length_append]
    omega
  refine ⟨x ++ y, rest, (List.append_assoc x y rest).symm, ⟨x, y, a, rfl, hR, hS⟩, ?_, ?_⟩
  · rw [hend, List.append_assoc pre]
  · intro rest'
    have hnext := hsecond' rest'
    rw [hend, List.append_assoc pre, ← hpos] at hnext
    rw [List.append_assoc x]
    exact bind_eq_ok.mpr ⟨a, _, hfirst' (y ++ rest'), hnext⟩

/-- The value made last is a function of the one read last. -/
theorem Accepts.map {m : Reading α} {R : List UInt8 → α → Prop} (hm : Accepts m R) (f : α → β) :
    Accepts (m >>= fun a => pure (f a)) fun x b => ∃ a, R x a ∧ b = f a := by
  refine (hm.bind fun a => accepts_pure (f a)).imp ?_
  rintro - b ⟨x, -, a, rfl, hR, rfl, rfl⟩
  exact ⟨a, by rwa [List.append_nil], rfl⟩

/-! ## Fields -/

theorem accepts_take (n : Nat) : Accepts (Reader.take w n) fun x a => x = a ∧ x.length = n := by
  intro pre s a r hrun
  rw [Reader.take, get_bind_run] at hrun
  rcases hadd : checkedAdd w pre.length n with _ | stop
  · simp only [hadd] at hrun
    exact absurd hrun throw_ne_ok
  obtain rfl := checkedAdd_some hadd
  simp only [hadd] at hrun
  split_ifs at hrun with hroom
  · obtain ⟨_, r₁, hset, hpure⟩ := bind_eq_ok.mp hrun
    obtain rfl := set_eq_ok.mp hset
    obtain ⟨rfl, rfl⟩ := pure_eq_ok.mp hpure
    have hn : n ≤ s.length := by
      rw [List.length_append] at hroom
      omega
    have hlen : (s.take n).length = n := List.length_take_of_le hn
    rw [List.drop_left]
    refine ⟨s.take n, s.drop n, (List.take_append_drop n s).symm, ⟨rfl, hlen⟩, by rw [hlen], ?_⟩
    intro rest'
    refine bind_eq_ok.mpr ⟨_, _, rfl, ?_⟩
    simp only [hadd]
    rw [if_pos (by simp only [List.length_append, hlen]; omega), List.drop_left, hlen,
      List.take_left' hlen]
    rfl
  · exact absurd hrun throw_ne_ok

theorem accepts_u8 : Accepts (Reader.u8 w) fun x b => x = [b] := by
  refine ((accepts_take 1).map fun bytes => bytes.getD 0 0).imp ?_
  rintro x b ⟨a, ⟨rfl, hlen⟩, rfl⟩
  obtain ⟨c, rfl⟩ := List.length_eq_one_iff.mp hlen
  rfl

theorem accepts_u32 : Accepts (Reader.u32 w) fun x n => x = putU32 n ∧ n < 2 ^ 32 := by
  refine ((accepts_take 4).map fromLe).imp ?_
  rintro x n ⟨a, ⟨rfl, hlen⟩, rfl⟩
  have hround := toLe_fromLe x
  have hlt := fromLe_lt x
  rw [hlen] at hround hlt
  exact ⟨hround.symm, hlt⟩

theorem accepts_bytes :
    Accepts (Reader.bytes w) fun x bytes => x = putBytes bytes ∧ bytes.length < 2 ^ 32 := by
  refine (accepts_u32.bind fun n => accepts_take n).imp ?_
  rintro - bytes ⟨x, y, n, rfl, ⟨rfl, hlt⟩, rfl, rfl⟩
  exact ⟨rfl, hlt⟩

theorem accepts_string :
    Accepts (Reader.string w) fun x s => x = putBytes (asBytes s) ∧ s.utf8ByteSize < 2 ^ 32 := by
  refine (accepts_bytes.bind (S := fun bytes x s => x = [] ∧ fromUtf8 bytes = some s)
    fun bytes => ?_).imp ?_
  · split
    · next _ s hs =>
      refine (accepts_pure s).imp ?_
      rintro x t ⟨hx, rfl⟩
      exact ⟨hx, hs⟩
    · exact accepts_throw _ _
  · rintro - s ⟨x, y, bytes, rfl, ⟨rfl, hlt⟩, rfl, hs⟩
    obtain rfl := asBytes_of_fromUtf8 hs
    exact ⟨List.append_nil _, hlt⟩

theorem accepts_chunk :
    Accepts (Reader.chunk w) fun x chunk => x = putChunk chunk ∧ FitsWire chunk := by
  refine (accepts_string.bind fun name => accepts_u32.map (RemovedChunk.mk name)).imp ?_
  rintro - chunk ⟨x, y, name, rfl, ⟨rfl, hname⟩, n, ⟨rfl, hn⟩, rfl⟩
  exact ⟨rfl, hname, hn⟩

/-- The loop: by induction on the count, whatever it is. -/
theorem accepts_chunks (count : Nat) :
    Accepts (Reader.chunks w count) fun x removed =>
      x = removed.flatMap putChunk ∧ removed.length = count ∧ ∀ chunk ∈ removed, FitsWire chunk := by
  induction count with
  | zero =>
    refine (accepts_pure []).imp ?_
    rintro x - ⟨rfl, rfl⟩
    exact ⟨rfl, rfl, by simp⟩
  | succ count ih =>
    refine (accepts_chunk.bind fun first => ih.map fun others => first :: others).imp ?_
    rintro - removed ⟨x, y, first, rfl, ⟨rfl, hfirst⟩, others, ⟨rfl, rfl, hothers⟩, rfl⟩
    exact ⟨rfl, rfl, List.forall_mem_cons.mpr ⟨hfirst, hothers⟩⟩

/-! ## The message -/

/-- The result a decoded value stands for. -/
def DecodedResult.toResult : DecodedResult → Except FilterError (List UInt8 × List RemovedChunk)
  | .ok bytes removed => .ok (bytes, removed)
  | .malformed reason => .error (.malformed reason)

/-- The decoder accepts the encodings of results. -/
theorem accepts_result :
    Accepts (Reader.result w) fun x v => x = encodeResult v.toResult ∧ ResultFits v.toResult := by
  refine (accepts_u8.bind (S := fun status x v =>
    status :: x = encodeResult v.toResult ∧ ResultFits v.toResult) fun status => ?_).imp ?_
  · split_ifs with hok hmalformed
    · refine (accepts_bytes.bind fun bytes => accepts_u32.bind fun count =>
        (accepts_chunks count).map (DecodedResult.ok bytes)).imp ?_
      rintro - v ⟨x, y, bytes, rfl, ⟨rfl, hbytes⟩, x', y', count, rfl, ⟨rfl, hcount⟩, removed,
        ⟨rfl, rfl, hall⟩, rfl⟩
      exact ⟨by rw [hok]; rfl, hbytes, hcount, hall⟩
    · refine (accepts_string.map DecodedResult.malformed).imp ?_
      rintro - v ⟨reason, ⟨rfl, hreason⟩, rfl⟩
      exact ⟨by rw [hmalformed]; rfl, hreason⟩
    · exact accepts_throw _ _
  · rintro - v ⟨x, y, status, rfl, rfl, hv, hfits⟩
    exact ⟨hv, hfits⟩

/-- A buffer that decodes starts with the encoding of what it decodes to, and so does every other
buffer that starts with it decode. -/
theorem decodeResult_eq_ok {buf : List UInt8} {v : DecodedResult}
    (h : decodeResult w buf = .ok v) :
    ResultFits v.toResult ∧ (∃ rest, buf = encodeResult v.toResult ++ rest) ∧
      ∀ rest, decodeResult w (encodeResult v.toResult ++ rest) = .ok v := by
  rw [decodeResult] at h
  rcases hrun : (Reader.result w).run { buf := buf, pos := 0 } with e | ⟨v', r⟩
  · rw [hrun] at h
    cases h
  · rw [hrun] at h
    obtain rfl : v' = v := Except.ok.inj h
    obtain ⟨x, rest, hbuf, ⟨rfl, hfits⟩, -, hagain⟩ := accepts_result [] buf v' r hrun
    refine ⟨hfits, ⟨rest, hbuf⟩, ?_⟩
    intro rest'
    have hrun' := hagain rest'
    rw [List.nil_append, List.length_nil] at hrun'
    rw [decodeResult, hrun']
    rfl

/-- The size of the message for a result: status, length, bytes, count, and for each removed chunk a
length, the name and the size. -/
theorem length_encodeResult_ok (bytes : List UInt8) (removed : List RemovedChunk) :
    (encodeResult (.ok (bytes, removed))).length =
      9 + bytes.length + (removed.map fun chunk => 8 + chunk.name.utf8ByteSize).sum := by
  have hchunks : (removed.flatMap putChunk).length =
      (removed.map fun chunk => 8 + chunk.name.utf8ByteSize).sum := by
    rw [List.length_flatMap]
    simp only [length_putChunk, Nat.add_comm]
  rw [encodeResult, List.length_cons, List.length_append, List.length_append, length_putBytes,
    hchunks, putU32, length_toLe]
  omega

/-- The name of a removed chunk stands in the message. -/
theorem name_mem_encodeResult {bytes : List UInt8} {removed : List RemovedChunk}
    {chunk : RemovedChunk} (h : chunk ∈ removed) :
    asBytes chunk.name <:+: encodeResult (.ok (bytes, removed)) := by
  obtain ⟨before, after, rfl⟩ := List.append_of_mem h
  refine ⟨statusOk :: (putBytes bytes ++ (putU32 (before ++ chunk :: after).length ++
    (before.flatMap putChunk ++ putU32 (asBytes chunk.name).length))),
    putU32 chunk.bytesRemoved ++ after.flatMap putChunk, ?_⟩
  simp only [encodeResult, List.flatMap_append, List.flatMap_cons, putChunk, putBytes,
    List.cons_append, List.append_assoc]

/-- **The decoder accepts only encodings**: a buffer that decodes starts with the encoding of the
value it decodes to, whose lengths and counts are those of the wire, and what comes after does not
matter. So the value is no larger than the buffer, its names are bytes of it that are valid UTF-8,
and values are equal exactly when these encodings are. -/
theorem decodeResult_sound (w : Width) (buf : List UInt8) (v : DecodedResult)
    (h : decodeResult w buf = .ok v) :
    encodeResult v.toResult <+: buf ∧ ResultFits v.toResult ∧
    (∀ rest, decodeResult w (encodeResult v.toResult ++ rest) = .ok v) ∧
    (∀ bytes removed, v = .ok bytes removed →
      9 + bytes.length + (removed.map fun chunk => 8 + chunk.name.utf8ByteSize).sum ≤
        buf.length ∧
      ∀ chunk ∈ removed,
        fromUtf8 (asBytes chunk.name) = some chunk.name ∧ asBytes chunk.name <:+: buf) ∧
    ∀ buf' v', decodeResult w buf' = .ok v' →
      (v = v' ↔ encodeResult v.toResult = encodeResult v'.toResult) := by
  obtain ⟨hfits, ⟨rest, hbuf⟩, hagain⟩ := decodeResult_eq_ok h
  refine ⟨⟨rest, hbuf.symm⟩, hfits, hagain, ?_, ?_⟩
  · rintro bytes removed rfl
    have hlen := length_encodeResult_ok bytes removed
    refine ⟨?_, ?_⟩
    · rw [hbuf, List.length_append]
      change 9 + bytes.length + _ ≤ (encodeResult (.ok (bytes, removed))).length + _
      omega
    · intro chunk hchunk
      refine ⟨fromUtf8_asBytes chunk.name, ?_⟩
      rw [hbuf]
      exact (name_mem_encodeResult hchunk).trans (List.prefix_append _ _).isInfix
  · intro buf' v' h'
    refine ⟨fun hv => by rw [hv], ?_⟩
    intro henc
    obtain ⟨-, -, hagain'⟩ := decodeResult_eq_ok h'
    have hv := hagain []
    rw [henc, hagain' []] at hv
    exact (Except.ok.inj hv).symm

/-- A message for two bytes and one removed chunk, with a byte after it. -/
theorem decodeResult_sound_sample :
    encodeResult (.ok ([1, 2], [⟨"tEXt", 13⟩])) <+:
      [0, 2, 0, 0, 0, 1, 2, 1, 0, 0, 0, 4, 0, 0, 0, 0x74, 0x45, 0x58, 0x74, 13, 0, 0, 0, 7] :=
  (decodeResult_sound .w64 _ (.ok [1, 2] [⟨"tEXt", 13⟩]) (by decide)).1

end Wire

end Purgo
