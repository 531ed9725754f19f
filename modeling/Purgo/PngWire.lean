import Purgo.PngContainer
import Purgo.WireCodec

/-!
# What the PNG filter puts on the wire

The guest hands the result of the filter over as a message, and the host refuses messages above a
length it computes from the input. Here is why it never has to: a chunk takes twelve bytes of the
file at least, and its record at most twenty of the message, since the name of a chunk is four
bytes decoded. For the same reason every length and count of the message is a 32-bit number when
the file is one of the guest's.
-/

namespace Purgo

open Rust Lexing Wire

namespace Png

variable {options : PngOptions}

/-- The name of a removed chunk is at most three times its type. -/
theorem name_removed (c : Chunk) : c.removed.name.utf8ByteSize ≤ 12 := by
  have h := length_fromUtf8Lossy c.kind
  rwa [c.kind_length] at h

/-- By induction on the chunks: what is copied and what is recorded, against what was there. -/
theorem length_sortChunks (options : PngOptions) (cs : List Chunk) :
    (sortChunks options cs).1.length + ((sortChunks options cs).2.flatMap putChunk).length ≤
      2 * (cs.flatMap Chunk.encode).length := by
  induction cs with
  | nil => simp [sortChunks]
  | cons c cs ih =>
    have hc := c.length_encode
    cases hk : keeps options c.kind with
    | true =>
      simp only [sortChunks_cons_keep cs hk, List.flatMap_cons, List.length_append]
      omega
    | false =>
      have hname := name_removed c
      simp only [sortChunks_cons_drop cs hk, List.flatMap_cons, List.length_append,
        length_putChunk]
      omega

/-- A list is no longer than what is put for its chunks. -/
theorem length_le_length_putChunks (removed : List RemovedChunk) :
    removed.length ≤ (removed.flatMap putChunk).length := by
  induction removed with
  | nil => exact Nat.le_refl 0
  | cons chunk removed ih =>
    rw [List.flatMap_cons, List.length_append, length_putChunk, List.length_cons]
    omega

/-- A chunk is no longer than all chunks together. -/
theorem length_encode_le {c : Chunk} {cs : List Chunk} (hc : c ∈ cs) :
    c.encode.length ≤ (cs.flatMap Chunk.encode).length :=
  (List.sublist_flatten_of_mem (List.mem_map_of_mem hc)).length_le

/-- The record of a chunk has its size and a name of at most twelve bytes. -/
theorem fitsWire_removed {c : Chunk} (hc : c.encode.length < 2 ^ 32) : FitsWire c.removed := by
  have hname := name_removed c
  rw [Chunk.length_encode] at hc
  exact ⟨by omega, hc⟩

/-- The result for a file that fits into the guest can be sent. -/
theorem resultFits_sortChunks {cs : List Chunk}
    (hfit : (signature ++ cs.flatMap Chunk.encode).length < 2 ^ 31) :
    ResultFits (.ok (signature ++ (sortChunks options cs).1, (sortChunks options cs).2)) := by
  have hsum := length_sortChunks options cs
  have hcount := length_le_length_putChunks (sortChunks options cs).2
  have hsig : signature.length = 8 := rfl
  rw [List.length_append] at hfit
  refine ⟨?_, by omega, ?_⟩
  · rw [List.length_append]
    omega
  · intro chunk hchunk
    obtain ⟨c, hc, rfl⟩ := List.mem_map.mp hchunk
    have hle := length_encode_le (List.mem_filter.mp hc).1
    exact fitsWire_removed (by omega)

/-- The reasons for which chunks cannot be read. -/
theorem readAll_reason {s : List UInt8} {e : FilterError} (h : lexer.readAll s = .error e) :
    e = .malformed "truncated chunk header" ∨ e = .malformed "chunk runs past end of file" := by
  refine lexer.readAll_eq_error (P := fun e => e = .malformed "truncated chunk header" ∨
    e = .malformed "chunk runs past end of file") (fun s e hread => ?_) s.length (Nat.le_refl _) h
  change readChunk s = _ at hread
  rw [readChunk] at hread
  split_ifs at hread
  · exact .inl (Except.error.inj hread).symm
  · exact .inr (Except.error.inj hread).symm

end Png

open Png

/-- The filter returns the sorted chunks of a container, or one of three reasons. -/
theorem disarmChunks_cases (data : List UInt8) (options : PngOptions) :
    (∃ cs trailing, Container data cs trailing ∧ disarmChunks data options =
      .ok (signature ++ (sortChunks options cs).1, (sortChunks options cs).2)) ∨
    ∃ reason, disarmChunks data options = .error (.malformed reason) ∧
      reason.utf8ByteSize ≤ 27 := by
  rcases h : disarmChunks data options with e | r
  · right
    rw [disarmChunks] at h
    split_ifs at h
    · rcases hall : lexer.readAll (data.drop 8) with e' | p
      · rw [hall] at h
        obtain rfl := Except.error.inj h
        rcases readAll_reason hall with rfl | rfl
        · exact ⟨_, rfl, by decide⟩
        · exact ⟨_, rfl, by decide⟩
      · rw [hall] at h
        cases h
    · obtain rfl := Except.error.inj h
      exact ⟨_, rfl, by decide⟩
  · obtain ⟨cs, trailing, hcont, rfl⟩ := disarmChunks_eq_ok.mp h
    exact .inl ⟨cs, trailing, hcont, rfl⟩

/-- The message for a result is at most twice as long as the file, but for a byte, or it is the
message of an error. -/
theorem length_encodeResult_disarmChunks (data : List UInt8) (options : PngOptions) :
    (encodeResult (disarmChunks data options)).length ≤ max (2 * data.length + 1) 32 := by
  rcases disarmChunks_cases data options with ⟨cs, trailing, hcont, h⟩ | ⟨reason, h, hreason⟩
  · have hsum := length_sortChunks options cs
    have hlen := congrArg List.length hcont.split
    have hsig : signature.length = 8 := rfl
    rw [List.length_append, List.length_append] at hlen
    rw [h, encodeResult, List.length_cons, List.length_append, List.length_append,
      length_putBytes, List.length_append, putU32, length_toLe]
    omega
  · rw [h, encodeResult, List.length_cons, length_putBytes, length_asBytes]
    omega

/-- The result of the filter on a file of the guest fits the wire. -/
theorem resultFits_disarmChunks {data : List UInt8} (hfit : Width.w32.Fits data.length)
    (options : PngOptions) : ResultFits (disarmChunks data options) := by
  rcases disarmChunks_cases data options with ⟨cs, trailing, hcont, h⟩ | ⟨reason, h, hreason⟩
  · rw [h]
    refine resultFits_sortChunks ?_
    have hlen := congrArg List.length hcont.split
    change data.length < 2 ^ 31 at hfit
    rw [List.length_append] at hlen
    omega
  · rw [h]
    exact Nat.lt_of_le_of_lt hreason (by decide)

end Purgo
