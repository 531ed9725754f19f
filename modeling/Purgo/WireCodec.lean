import Purgo.Wire

/-!
# Decoding what has been encoded

`Reads m x a` says that the decoder `m`, wherever the bytes `x` stand in a buffer, reads exactly
these and returns `a`. Decoders compose as the bytes do (`Reads.bind`), so that each length-prefixed
field is read back by a lemma of its own and the whole message by putting them together.
-/

namespace Purgo

open Rust Threaded

namespace Wire

variable {w : Width} {α β : Type}

/-- The decoder reads the bytes, wherever they stand, and returns the value. -/
def Reads (w : Width) (m : Reading α) (x : List UInt8) (a : α) : Prop :=
  ∀ pre rest : List UInt8, w.Fits (pre ++ (x ++ rest)).length →
    m.run { buf := pre ++ (x ++ rest), pos := pre.length } =
      .ok (a, { buf := pre ++ (x ++ rest), pos := pre.length + x.length })

/-- Returning reads nothing. -/
theorem Reads.pure (a : α) : Reads w (pure a) [] a := fun _ _ _ => rfl

/-- What is read one after the other stands side by side. -/
theorem Reads.bind {m : Reading α} {f : α → Reading β} {x y : List UInt8} {a : α} {b : β}
    (hm : Reads w m x a) (hf : Reads w (f a) y b) : Reads w (m >>= f) (x ++ y) b := by
  intro pre rest hfit
  rw [List.append_assoc x y rest] at hfit ⊢
  have hsecond := hf (pre ++ x) rest (by rwa [List.append_assoc])
  rw [List.append_assoc pre, List.length_append, Nat.add_assoc] at hsecond
  rw [@List.length_append _ x y]
  exact bind_eq_ok.mpr ⟨a, _, hm pre (y ++ rest) hfit, hsecond⟩

/-- Nothing is read after a value has been made. -/
theorem Reads.map {m : Reading α} {x : List UInt8} {a : α} (hm : Reads w m x a) (f : α → β) :
    Reads w (m >>= fun a => Pure.pure (f a)) x (f a) := by
  have hbind := hm.bind (f := fun a => Pure.pure (f a)) (.pure (f a))
  rwa [List.append_nil] at hbind

/-! ## Fields -/

theorem reads_take (x : List UInt8) : Reads w (Reader.take w x.length) x x := by
  intro pre rest hfit
  have hlen : (pre ++ (x ++ rest)).length = pre.length + x.length + rest.length := by
    rw [List.length_append, List.length_append, Nat.add_assoc]
  have hadd : checkedAdd w pre.length x.length = some (pre.length + x.length) :=
    checkedAdd_eq_some (hfit.holds_add (by omega) (by omega))
  have htake : ((pre ++ (x ++ rest)).drop pre.length).take x.length = x := by
    rw [List.drop_left, List.take_left]
  refine bind_eq_ok.mpr ⟨_, _, rfl, ?_⟩
  simp only [hadd]
  rw [if_pos (by omega), htake]
  rfl

theorem reads_u8 (b : UInt8) : Reads w (Reader.u8 w) [b] b :=
  (reads_take (w := w) [b]).map fun bytes => bytes.getD 0 0

/-- A number that fits into four bytes. -/
theorem reads_u32 {n : Nat} (hn : n < 2 ^ 32) : Reads w (Reader.u32 w) (putU32 n) n := by
  have hread := (reads_take (w := w) (putU32 n)).map fromLe
  have hlow : n % 256 ^ 4 = n := Nat.mod_eq_of_lt hn
  rw [putU32, length_toLe, fromLe_toLe, hlow] at hread
  exact hread

theorem reads_bytes {x : List UInt8} (hx : x.length < 2 ^ 32) :
    Reads w (Reader.bytes w) (putBytes x) x := (reads_u32 hx).bind (reads_take x)

/-- A text after the length of its encoding. -/
theorem reads_string {s : String} (hs : s.utf8ByteSize < 2 ^ 32) :
    Reads w (Reader.string w) (putBytes (asBytes s)) s := by
  have hread : Reads w (Reader.string w) (putBytes (asBytes s) ++ []) s := by
    refine (reads_bytes (x := asBytes s) hs).bind ?_
    rw [fromUtf8_asBytes]
    exact .pure s
  rwa [List.append_nil] at hread

/-- The lengths and sizes of a removed chunk are 32-bit numbers. -/
def FitsWire (chunk : RemovedChunk) : Prop :=
  chunk.name.utf8ByteSize < 2 ^ 32 ∧ chunk.bytesRemoved < 2 ^ 32

theorem reads_chunk {chunk : RemovedChunk} (h : FitsWire chunk) :
    Reads w (Reader.chunk w) (putChunk chunk) chunk :=
  (reads_string h.1).bind ((reads_u32 h.2).map (RemovedChunk.mk chunk.name))

/-- The counted list: by induction on it, each chunk read where the one before ends. -/
theorem reads_chunks {removed : List RemovedChunk} (h : ∀ chunk ∈ removed, FitsWire chunk) :
    Reads w (Reader.chunks w removed.length) (removed.flatMap putChunk) removed := by
  induction removed with
  | nil => exact .pure []
  | cons chunk removed ih =>
    have hfirst := h chunk List.mem_cons_self
    have hothers := ih fun c hc => h c (List.mem_cons_of_mem chunk hc)
    exact (reads_chunk hfirst).bind (hothers.map fun others => chunk :: others)

theorem length_putBytes (bytes : List UInt8) : (putBytes bytes).length = bytes.length + 4 := by
  rw [putBytes, putU32, List.length_append, length_toLe, Nat.add_comm]

/-- A record takes its name and eight bytes. -/
theorem length_putChunk (chunk : RemovedChunk) :
    (putChunk chunk).length = chunk.name.utf8ByteSize + 8 := by
  rw [putChunk, List.length_append, length_putBytes, length_asBytes, putU32, length_toLe]

/-! ## Cut fields

A strict prefix of a message ends inside one of its fields: those before it are read back, and the
one that is cut is found truncated. -/

/-- When only a strict prefix of the bytes is there, the decoder finds the buffer truncated. -/
def Cuts (w : Width) (m : Reading α) (x : List UInt8) : Prop :=
  ∀ pre b : List UInt8, b <+: x → b ≠ x → w.Fits (pre ++ x).length →
    m.run { buf := pre ++ b, pos := pre.length } = .error .truncated

/-- Bytes that are cut are cut whatever was to come after them. -/
theorem Cuts.andThen {m : Reading α} {x : List UInt8} (hm : Cuts w m x) (f : α → Reading β) :
    Cuts w (m >>= f) x :=
  fun pre b hb hne hfit => bind_run_of_error (hm pre b hb hne hfit) f

/-- The first field is cut, or it is read and the second one is cut. -/
theorem Cuts.bind {m : Reading α} {f : α → Reading β} {x y : List UInt8} {a : α}
    (hm : Cuts w m x) (hread : Reads w m x a) (hf : Cuts w (f a) y) :
    Cuts w (m >>= f) (x ++ y) := by
  intro pre b hb hne hfit
  have hlen : (pre ++ (x ++ y)).length = (pre ++ x).length + y.length := by
    rw [← List.append_assoc, List.length_append]
  have hfit' : w.Fits (pre ++ x).length := hfit.mono (by omega)
  rcases Nat.lt_or_ge b.length x.length with hlt | hge
  · have hbx : b <+: x := List.prefix_of_prefix_length_le hb (List.prefix_append x y) hlt.le
    exact hm.andThen f pre b hbx (fun h => absurd (congrArg List.length h) hlt.ne) hfit'
  · obtain ⟨b', rfl⟩ := List.prefix_of_prefix_length_le (List.prefix_append x y) hb hge
    have hb' : b' <+: y := (List.prefix_append_right_inj x).mp hb
    have hsecond := hf (pre ++ x) b' hb' (fun h => hne (by rw [h]))
      (by rwa [List.append_assoc])
    have hshort : (pre ++ (x ++ b')).length ≤ (pre ++ (x ++ y)).length := by
      have := hb'.length_le
      simp only [List.length_append]
      omega
    have hfirst := hread pre b' (hfit.mono hshort)
    rw [List.append_assoc, List.length_append] at hsecond
    rw [bind_run_of_ok hfirst]
    exact hsecond

theorem cuts_take (x : List UInt8) : Cuts w (Reader.take w x.length) x := by
  intro pre b hb hne hfit
  have hlt : b.length < x.length := hb.length_le.lt_of_ne fun h => hne (hb.eq_of_length h)
  have hadd : checkedAdd w pre.length x.length = some (pre.length + x.length) :=
    checkedAdd_eq_some (hfit.holds_add (by simp) (by simp))
  refine (bind_run_of_ok (a := { buf := pre ++ b, pos := pre.length }) rfl _).trans ?_
  simp only [hadd]
  rw [if_neg (by rw [List.length_append]; omega)]
  rfl

theorem cuts_u8 (b : UInt8) : Cuts w (Reader.u8 w) [b] := (cuts_take [b]).andThen _

theorem cuts_u32 (n : Nat) : Cuts w (Reader.u32 w) (putU32 n) := by
  have hcut := (cuts_take (w := w) (putU32 n)).andThen fun bytes => Pure.pure (fromLe bytes)
  rwa [putU32, length_toLe] at hcut

/-- Bytes that end early are truncated, and so is their length. -/
theorem cuts_bytes {x : List UInt8} (hx : x.length < 2 ^ 32) :
    Cuts w (Reader.bytes w) (putBytes x) := (cuts_u32 _).bind (reads_u32 hx) (cuts_take x)

/-- A text that ends early is truncated before its encoding is looked at. -/
theorem cuts_string {s : String} (hs : s.utf8ByteSize < 2 ^ 32) :
    Cuts w (Reader.string w) (putBytes (asBytes s)) := (cuts_bytes (x := asBytes s) hs).andThen _

theorem cuts_chunk {chunk : RemovedChunk} (h : FitsWire chunk) :
    Cuts w (Reader.chunk w) (putChunk chunk) :=
  (cuts_string h.1).bind (reads_string h.1) ((cuts_u32 _).andThen _)

/-- The counted list: the cut is in its first chunk or in the others. -/
theorem cuts_chunks {removed : List RemovedChunk} (h : ∀ chunk ∈ removed, FitsWire chunk) :
    Cuts w (Reader.chunks w removed.length) (removed.flatMap putChunk) := by
  induction removed with
  | nil => exact fun pre b hb hne _ => absurd (List.prefix_nil.mp hb) hne
  | cons chunk removed ih =>
    have hfirst := h chunk List.mem_cons_self
    have hothers := ih fun c hc => h c (List.mem_cons_of_mem chunk hc)
    exact (cuts_chunk hfirst).bind (reads_chunk hfirst) (hothers.andThen _)

/-! ## The message -/

/-- What the decoder is to make of a result. -/
def decoded : Except FilterError (List UInt8 × List RemovedChunk) → DecodedResult
  | .ok (bytes, removed) => .ok bytes removed
  | .error (.malformed reason) => .malformed reason

/-- The lengths, counts and sizes of a result are 32-bit numbers. -/
def ResultFits : Except FilterError (List UInt8 × List RemovedChunk) → Prop
  | .ok (bytes, removed) =>
    bytes.length < 2 ^ 32 ∧ removed.length < 2 ^ 32 ∧ ∀ chunk ∈ removed, FitsWire chunk
  | .error (.malformed reason) => reason.utf8ByteSize < 2 ^ 32

/-- **Round trip**: an encoded result is read as what it stands for, whatever follows. -/
theorem reads_result {r : Except FilterError (List UInt8 × List RemovedChunk)}
    (h : ResultFits r) : Reads w (Reader.result w) (encodeResult r) (decoded r) := by
  rcases r with ⟨⟨reason⟩⟩ | ⟨bytes, removed⟩
  · refine (reads_u8 statusMalformed).bind (y := putBytes (asBytes reason)) ?_
    rw [if_neg (by decide), if_pos rfl]
    exact (reads_string h).map DecodedResult.malformed
  · obtain ⟨hbytes, hcount, hall⟩ := h
    refine (reads_u8 statusOk).bind ?_
    rw [if_pos rfl]
    exact (reads_bytes hbytes).bind ((reads_u32 hcount).bind
      ((reads_chunks hall).map fun removed => DecodedResult.ok bytes removed))

/-- A result that ends early is truncated, wherever it ends. -/
theorem cuts_result {r : Except FilterError (List UInt8 × List RemovedChunk)}
    (h : ResultFits r) : Cuts w (Reader.result w) (encodeResult r) := by
  rcases r with ⟨⟨reason⟩⟩ | ⟨bytes, removed⟩
  · refine (cuts_u8 statusMalformed).bind (y := putBytes (asBytes reason)) (reads_u8 _) ?_
    rw [if_neg (by decide), if_pos rfl]
    exact (cuts_string h).andThen _
  · obtain ⟨hbytes, hcount, hall⟩ := h
    refine (cuts_u8 statusOk).bind (reads_u8 _) ?_
    rw [if_pos rfl]
    exact (cuts_bytes hbytes).bind (reads_bytes hbytes)
      ((cuts_u32 _).bind (reads_u32 hcount) ((cuts_chunks hall).andThen _))

/-- **Decoding undoes encoding**, whatever follows the message. -/
theorem decodeResult_encodeResult {r : Except FilterError (List UInt8 × List RemovedChunk)}
    (h : ResultFits r) (rest : List UInt8) (hfit : w.Fits (encodeResult r ++ rest).length) :
    decodeResult w (encodeResult r ++ rest) = .ok (decoded r) := by
  have hread := reads_result h [] rest hfit
  rw [List.nil_append, List.length_nil] at hread
  rw [decodeResult, hread]
  rfl

/-- **The message and its cuts**: the decoder gives back the result that has been encoded, and of
every strict prefix of the message it says that it is truncated. -/
theorem decodeResult_prefix {r : Except FilterError (List UInt8 × List RemovedChunk)}
    (h : ResultFits r) (hfit : w.Fits (encodeResult r).length) :
    decodeResult w (encodeResult r) = .ok (decoded r) ∧
      ∀ b, b <+: encodeResult r → b ≠ encodeResult r →
        decodeResult w b = .error .truncated := by
  refine ⟨?_, ?_⟩
  · have hwhole := decodeResult_encodeResult (w := w) h []
    rw [List.append_nil] at hwhole
    exact hwhole hfit
  · intro b hb hne
    have hcut := cuts_result h [] b hb hne hfit
    rw [List.nil_append, List.length_nil] at hcut
    rw [decodeResult, hcut]
    rfl

/-- A message of one removed chunk, and what is left of it when its last byte is missing. -/
theorem decodeResult_prefix_sample :
    decodeResult .w64 (encodeResult (.ok ([1, 2], [⟨"tEXt", 13⟩]))) =
        .ok (.ok [1, 2] [⟨"tEXt", 13⟩]) ∧
      decodeResult .w64 (encodeResult (.ok ([1, 2], [⟨"tEXt", 13⟩]))).dropLast =
        .error .truncated := by
  have hfits : ResultFits (.ok ([1, 2], [⟨"tEXt", 13⟩])) := by
    refine ⟨by decide, by decide, fun chunk hchunk => ?_⟩
    rw [List.mem_singleton.mp hchunk]
    exact ⟨by decide, by decide⟩
  obtain ⟨hwhole, hcut⟩ := decodeResult_prefix (w := .w64) hfits (by decide)
  exact ⟨hwhole, hcut _ (List.dropLast_prefix _) (by decide)⟩

end Wire

end Purgo
