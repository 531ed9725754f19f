import Purgo.JpegRerun

/-!
# Fill bytes

A run that strips nothing still takes out the fill bytes before the markers, and what follows `EOI`.
These are never read into anything: the tokens of what is left are the tokens of the file without
their fill bytes (`admits_unfilled`). A scan ends where it did, since only the marker after a run of
`FF` says whether the run belongs to it. So no later run can tell the difference
(`disarm_normalised`).
-/

namespace Purgo

open Rust Lexing

namespace Jpeg

/-- A token is its fill bytes, its marker and what follows that. -/
theorem Token.encode_eq (t : Token) : t.encode = ffs (t.fill + 1) ++ t.marker :: t.body := by
  cases t <;> simp [encode, introduce, fill, marker, body]

theorem Token.marker_unfilled (t : Token) : t.unfilled.marker = t.marker := by
  cases t <;> rfl

/-- Where a token follows, a scan ends unless the marker belongs to it. -/
theorem scanLength_encode_append {t : Token} (hm : t.marker ≠ 0xFF) (s : List UInt8) :
    scanLength (t.encode ++ s) = 0 ↔ isStuffing t.marker = false := by
  rw [t.encode_eq, List.append_assoc, List.cons_append]
  cases hstuff : isStuffing t.marker with
  | true =>
    rw [scanLength_run t.fill _ hstuff]
    exact iff_of_false (by omega) nofun
  | false =>
    have hstop : ∀ b ∈ (t.marker :: (t.body ++ s)).head?, isStuffing b = false := by
      simpa using hstuff
    exact iff_of_true (scanLength_stop t.fill (noFill_cons _ hm) hstop) rfl

/-- A scan ends before some tokens when it ends before them without their fill bytes. -/
theorem scanLength_unfilled {ts : List Token} {rest : List UInt8} (h : lexicon.Admits ts rest) :
    scanLength (lexicon.encodeAll (ts.map Token.unfilled)) = 0 ↔
      scanLength (lexicon.encodeAll ts ++ rest) = 0 := by
  cases ts with
  | nil =>
    obtain rfl : rest = [] := h
    exact Iff.rfl
  | cons t ts =>
    have hm : t.marker ≠ 0xFF := Token.Valid.marker_ne_ff ⟨_, h.head⟩
    have hm' : t.unfilled.marker ≠ 0xFF := by rwa [t.marker_unfilled]
    rw [List.map_cons, Lexicon.encodeAll_cons, Lexicon.encodeAll_cons, List.append_assoc]
    rw [show lexicon.encode = Token.encode from rfl, scanLength_encode_append hm,
      scanLength_encode_append hm', t.marker_unfilled]

/-- Without their fill bytes, and without what is left over, the tokens are tokens of a file still:
by induction on the tokens. -/
theorem admits_unfilled {ts : List Token} {rest : List UInt8} (h : lexicon.Admits ts rest) :
    lexicon.Admits (ts.map Token.unfilled) [] := by
  induction ts with
  | nil => rfl
  | cons t ts ih =>
    cases heoi : t.isEoi with
    | true =>
      obtain rfl : ts = [] :=
        Lexicon.Admits.last_eq_nil (show lexicon.Admits ([] ++ t :: ts) rest from h) heoi
      cases t with
      | eoi fill => exact ⟨trivial, rfl⟩
      | _ => cases heoi
    | false =>
      have htail := h.tail heoi
      have hlast : lexicon.last t.unfilled = false := (Token.isEoi_unfilled t).trans heoi
      refine (lexicon.admits_cons hlast).mpr ⟨?_, ih htail⟩
      have hfits := Token.fits_unfilled h.head
      rw [List.append_nil]
      cases t with
      | scan fill header data =>
        obtain ⟨hlt, hdata, hmax⟩ := hfits
        refine ⟨hlt, hdata, (isMaximal_iff hdata).mpr ?_⟩
        exact (scanLength_unfilled htail).mpr ((isMaximal_iff hdata).mp hmax)
      | standalone fill marker => exact hfits
      | segment fill marker payload => exact hfits
      | eoi fill => exact hfits

/-- A rebuilt file is no longer than the file. -/
theorem length_rebuild_le {policy : Policy} {data trailing : List UInt8} {ts : List Token}
    (hm : Marked data ts trailing) :
    (rebuild policy ts).bytes.length ≤ data.length := by
  obtain ⟨hsplit, -, -⟩ := marked_iff.mp hm
  have hle := (length_survivors policy ts).1
  rw [rebuild_bytes, hsplit]
  simp only [List.length_append]
  omega

/-- A policy that strips nothing drops no token. -/
theorem survivors_of_keep {policy : Policy} (h : policy.stripMetadata = false) (ts : List Token) :
    survivors policy ts = ts.map Token.unfilled := by
  have hkept : ∀ t : Token, t.isDropped policy = false := by
    intro t
    cases t with
    | segment fill marker payload => simp [Token.isDropped, dropIt, h]
    | _ => rfl
  have hfilter : (ts.filter fun t => !t.isDropped policy) = ts :=
    List.filter_eq_self.mpr fun t _ => by rw [hkept t]; rfl
  rw [survivors, hfilter]

/-- What is reported of a token does not count its fill bytes. -/
@[simp] theorem Token.removedItem_unfilled (policy : Policy) (t : Token) :
    t.unfilled.removedItem policy = t.removedItem policy := by
  cases t <;> rfl

/-- What a token is rebuilt to does not depend on its fill bytes. -/
theorem rebuild_unfilled (policy : Policy) (ts : List Token) :
    rebuild policy (ts.map Token.unfilled) = rebuild policy ts := by
  rw [rebuild, rebuild]
  congr 1
  · simp [List.filter_map, List.flatMap_map, Function.comp_def]
  · simp [List.filterMap_map]

end Jpeg

open Jpeg in
/-- **Fill bytes make no difference**: a run that strips nothing reports nothing, and every run on
what it returns does what it would have done on the file. -/
theorem JpegDisarmer.disarm_normalised (w : Width) (artifact : Artifact) (keep : Policy)
    (out : DisarmOutput) (hkeep : keep.stripMetadata = false) (hfit : w.Fits artifact.bytes.length)
    (h : JpegDisarmer.disarm w artifact keep = .ok out) :
    out.removed = [] ∧ ∀ name policy,
      JpegDisarmer.disarm w ⟨name, out.bytes⟩ policy = JpegDisarmer.disarm w artifact policy := by
  obtain ⟨ts, trailing, hm, rfl⟩ := (disarm_eq_ok hfit).mp h
  obtain ⟨-, hadm, hany⟩ := marked_iff.mp hm
  have hbytes : (rebuild keep ts).bytes =
      [0xFF, soi] ++ lexicon.encodeAll (ts.map Token.unfilled) := by
    rw [rebuild_bytes, survivors_of_keep hkeep]
  have hagain : Marked (rebuild keep ts).bytes (ts.map Token.unfilled) [] := by
    refine marked_iff.mpr ⟨by rw [hbytes, List.append_nil], admits_unfilled hadm, ?_⟩
    simpa [Function.comp_def] using hany
  refine ⟨?_, fun name policy => ?_⟩
  · refine List.filterMap_eq_nil_iff.mpr fun t _ => Token.removedItem_eq_none.mpr ?_
    cases t with
    | segment fill marker payload => simp [Token.isDropped, dropIt, hkeep]
    | _ => rfl
  · have hfirst : JpegDisarmer.disarm w artifact policy = .ok (rebuild policy ts) :=
      (disarm_eq_ok hfit).mpr ⟨ts, trailing, hm, rfl⟩
    rw [hfirst]
    refine (disarm_eq_ok (hfit.mono (length_rebuild_le hm))).mpr ⟨_, _, hagain, ?_⟩
    exact (rebuild_unfilled policy ts).symm

open Jpeg in
/-- The sample file without its fill bytes and the byte after `EOI`. -/
def sampleNormalised : List UInt8 :=
  [0xFF, soi, 0xFF, 0xE1, 0, 3, 0x45, 0xFF, sos, 0, 2, 0xAA, 0xFF, 0, 0xBB, 0xFF, eoi]

open Jpeg in
/-- A file with fill bytes, and with a byte after the end, against its normal form. -/
theorem JpegDisarmer.disarm_normalised_sample :
    JpegDisarmer.disarm .w64 (.new sampleNormalised) .strict =
      JpegDisarmer.disarm .w64 (.new ([0xFF, soi] ++ sampleTokens.flatMap Token.encode ++ [0x99]))
        .strict := by
  have hrun : JpegDisarmer.disarm .w64
      (.new ([0xFF, soi] ++ sampleTokens.flatMap Token.encode ++ [0x99])) ⟨false, true⟩ =
        .ok { bytes := sampleNormalised, removed := [] } := rfl
  exact (disarm_normalised .w64 _ _ _ rfl (by decide) hrun).2 none .strict

end Purgo
