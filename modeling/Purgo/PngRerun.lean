import Mathlib.Data.List.Flatten
import Purgo.PngContainer

/-!
# Filtering a PNG file twice

Unlike a JPEG token, a chunk says how long it is and may stand before anything. So cutting chunks
out of a container leaves a container, whose chunks are the ones that were left
(`filter_container`), and a second run of the filter sees exactly what the first one copied. Two
runs then filter the chunks twice, which is filtering them once by both sets of options.
-/

namespace Purgo

open Rust Lexing

namespace Png

/-! ## Cutting chunks out -/

/-- What stands before the end of a filtered list stood before the end of the list. -/
theorem mem_dropLast_of_filter {α : Type} {p : α → Bool} {l : List α} {a : α}
    (h : a ∈ (l.filter p).dropLast) : a ∈ l.dropLast := by
  rcases List.eq_nil_or_concat l with rfl | ⟨front, b, rfl⟩
  · simp at h
  · rw [List.concat_eq_append] at h ⊢
    rw [List.dropLast_concat]
    cases hb : p b with
    | true =>
      have hfilter : (front ++ [b]).filter p = front.filter p ++ [b] := by simp [hb]
      rw [hfilter, List.dropLast_concat] at h
      exact (List.mem_filter.mp h).1
    | false =>
      have hfilter : (front ++ [b]).filter p = front.filter p := by simp [hb]
      rw [hfilter] at h
      exact (List.mem_filter.mp (List.dropLast_subset _ h)).1

/-- The chunks that are left are a container of their own, with nothing after it. -/
theorem filter_container {data : List UInt8} {cs : List Chunk} {trailing : List UInt8}
    (h : Container data cs trailing) (p : Chunk → Bool) :
    Container (signature ++ (cs.filter p).flatMap Chunk.encode) (cs.filter p) [] where
  split := (List.append_nil _).symm
  iend_last c hc := h.iend_last c (mem_dropLast_of_filter hc)
  trailing_after hne := absurd rfl hne

/-- And it is no longer than the file. -/
theorem length_filter_le {data : List UInt8} {cs : List Chunk} {trailing : List UInt8}
    (h : Container data cs trailing) (p : Chunk → Bool) :
    (signature ++ (cs.filter p).flatMap Chunk.encode).length ≤ data.length := by
  have hsub : ((cs.filter p).flatMap Chunk.encode).length ≤ (cs.flatMap Chunk.encode).length :=
    (List.filter_sublist.flatMap Chunk.encode).length_le
  rw [h.split]
  simp only [List.length_append]
  omega

/-! ## Sorting twice -/

/-- The options that strip what one of the two strips. -/
def both (a b : PngOptions) : PngOptions := ⟨a.stripMetadata || b.stripMetadata⟩

/-- What two filterings keep is what both would keep. -/
theorem keeps_both (a b : PngOptions) (kind : List UInt8) :
    keeps (both a b) kind = (keeps a kind && keeps b kind) := by
  rcases a with ⟨_ | _⟩
  · simp [keeps, both]
  · rcases b with ⟨_ | _⟩
    · simp [keeps, both]
    · simp [keeps, both]

/-- What is copied twice is what both options keep. -/
theorem copied_filter (a b : PngOptions) (cs : List Chunk) :
    (sortChunks b (cs.filter fun c => keeps a c.kind)).1 = (sortChunks (both a b) cs).1 := by
  simp only [sortChunks, List.filter_filter, keeps_both, Bool.and_comm]

/-- One of the two runs records nothing: a run that strips leaves only what the other one keeps,
and a run that does not strip records nothing anyway. -/
theorem recorded_filter (a b : PngOptions) (cs : List Chunk) :
    (sortChunks (both a b) cs).2 =
      (sortChunks a cs).2 ++ (sortChunks b (cs.filter fun c => keeps a c.kind)).2 := by
  cases ha : a.stripMetadata with
  | false =>
    have hboth : both a b = b := by simp [both, ha]
    have hkeeps : ∀ kind, keeps a kind = true := by simp [keeps, ha]
    simp [sortChunks, hboth, hkeeps]
  | true =>
    have hboth : both a b = a := by
      cases a
      simp_all [both]
    have hnone : (cs.filter fun c => keeps a c.kind).filter (fun c => !keeps b c.kind) = [] := by
      apply List.filter_eq_nil_iff.mpr
      intro c hc
      have hkept : keeps a c.kind = true := (List.mem_filter.mp hc).2
      simp_all [keeps]
    simp [sortChunks, hboth, hnone]

variable {w : Width} {x y trailing : List UInt8} {cs : List Chunk}

/-- What a run makes of what another one has left. -/
theorem disarmPng_left (hfit : w.Fits x.length) (hcont : Container x cs trailing)
    (a b : PngOptions) :
    disarmPng w (signature ++ (sortChunks a cs).1) b =
      .ok (signature ++ (sortChunks (both a b) cs).1,
        (sortChunks b (cs.filter fun c => keeps a c.kind)).2) := by
  have hcont' := filter_container hcont fun c => keeps a c.kind
  have hfit' := hfit.mono (length_filter_le hcont fun c => keeps a c.kind)
  refine (disarmPng_eq_ok hfit').mpr ⟨_, _, hcont', ?_⟩
  rw [copied_filter]

/-- Under the same options a second run changes and records nothing. -/
theorem disarmPng_again {r : List RemovedChunk} {a : PngOptions} (hfit : w.Fits x.length)
    (h : disarmPng w x a = .ok (y, r)) : disarmPng w y a = .ok (y, []) := by
  obtain ⟨cs, trailing, hcont, hr⟩ := (disarmPng_eq_ok hfit).mp h
  obtain ⟨rfl, rfl⟩ := Prod.mk.inj hr
  have hself : both a a = a := by simp [both]
  have hnone := recorded_filter a a cs
  rw [hself, List.self_eq_append_right] at hnone
  rw [disarmPng_left hfit hcont, hself, hnone]

end Png

open Png

/-- **Filtering composes**: a run on what a run returned succeeds, and the two return together
what one run returns that strips when either of them does: the bytes of the second, and the records
of the first followed by those of the second. A second run under the same options changes and
records nothing. -/
theorem disarmPng_compose (w : Width) (x y : List UInt8) (r : List RemovedChunk)
    (a b : PngOptions) (hfit : w.Fits x.length) (h : disarmPng w x a = .ok (y, r)) :
    (∃ z s, disarmPng w y b = .ok (z, s) ∧
      disarmPng w x ⟨a.stripMetadata || b.stripMetadata⟩ = .ok (z, r ++ s)) ∧
    disarmPng w y a = .ok (y, []) := by
  refine ⟨?_, disarmPng_again hfit h⟩
  obtain ⟨cs, trailing, hcont, hr⟩ := (disarmPng_eq_ok hfit).mp h
  obtain ⟨rfl, rfl⟩ := Prod.mk.inj hr
  refine ⟨_, _, disarmPng_left hfit hcont a b, ?_⟩
  refine (disarmPng_eq_ok hfit).mpr ⟨cs, trailing, hcont, ?_⟩
  rw [← recorded_filter]
  rfl

/-- A text chunk and a byte after `IEND`: a first run that strips nothing drops the byte, a second
one the chunk, and one run drops both. -/
theorem disarmPng_compose_sample :
    ∃ z s,
      disarmPng .w64
          (signature ++ ([0, 0, 0, 1] ++ ascii "tEXt" ++ [7, 1, 2, 3, 4]) ++
            ([0, 0, 0, 0] ++ iend ++ [5, 6, 7, 8])) ⟨true⟩ = .ok (z, s) ∧
      disarmPng .w64
          (signature ++ ([0, 0, 0, 1] ++ ascii "tEXt" ++ [7, 1, 2, 3, 4]) ++
            ([0, 0, 0, 0] ++ iend ++ [5, 6, 7, 8]) ++ [9]) ⟨true⟩ = .ok (z, [] ++ s) :=
  (disarmPng_compose .w64 _ _ [] ⟨false⟩ ⟨true⟩ (by decide) (by decide)).1

end Purgo
