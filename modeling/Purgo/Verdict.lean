import Purgo.JpegRerun
import Purgo.PngContainer
import Purgo.Service

/-!
# The verdict of the report

`is_modified` looks at the list of removed items and at two lengths, not at the bytes. Fill bytes
and what follows `EOI` or `IEND` are left out without an item. The verdict is right all the same,
since a disarmer of a binary format returns a file of the same length only when it left out
nothing (`Disarmer.Shrinks`).
-/

namespace Purgo

open Rust

/-- The disarmer makes a file shorter, or returns it as it is and reports nothing. -/
def Disarmer.Shrinks (w : Width) (disarmer : Disarmer) : Prop :=
  ∀ artifact policy output, w.Fits artifact.bytes.length →
    disarmer.disarm artifact policy = .ok output → output.bytes.length = artifact.bytes.length →
      output = { bytes := artifact.bytes, removed := [] }

/-! ## JPEG -/

/-- The JPEG disarmer, on machine words of this width. -/
def JpegDisarmer.new (w : Width) : Disarmer :=
  { format := .jpeg, disarm := JpegDisarmer.disarm w }

open Jpeg in
/-- A rebuilt JPEG file is no longer than the file, and of the same length only when nothing is
dropped. -/
theorem JpegDisarmer.shrinks (w : Width) : (JpegDisarmer.new w).Shrinks w := by
  intro artifact policy output hfit h hlen
  obtain ⟨ts, trailing, hm, rfl⟩ := (disarm_eq_ok hfit).mp h
  obtain ⟨rfl, hkept⟩ := kept_of_length hm hlen
  obtain ⟨hsplit, -, -⟩ := marked_iff.mp hm
  rw [rebuild_of_kept hkept, hsplit, List.append_nil]

/-! ## PNG -/

/-- The PNG disarmer, on machine words of this width. -/
def PngDisarmer.new (w : Width) : Disarmer := { format := .png, disarm := PngDisarmer.disarm w }

namespace Png

/-- What is copied and how much is recorded, against what was there: by induction on the chunks. -/
theorem length_sortChunks_add (options : PngOptions) (cs : List Chunk) :
    (sortChunks options cs).1.length + (sortChunks options cs).2.length ≤
      (cs.flatMap Chunk.encode).length := by
  induction cs with
  | nil => simp [sortChunks]
  | cons c cs ih =>
    have hc := c.length_encode
    cases hk : keeps options c.kind with
    | true =>
      simp only [sortChunks_cons_keep cs hk, List.flatMap_cons, List.length_append]
      omega
    | false =>
      simp only [sortChunks_cons_drop cs hk, List.flatMap_cons, List.length_append,
        List.length_cons]
      omega

/-- Where nothing is recorded everything is copied. -/
theorem sortChunks_of_none {options : PngOptions} {cs : List Chunk}
    (h : (sortChunks options cs).2 = []) :
    (sortChunks options cs).1 = cs.flatMap Chunk.encode := by
  have hkeep : ∀ c ∈ cs, keeps options c.kind = true := by
    have hnone := List.filter_eq_nil_iff.mp (List.map_eq_nil_iff.mp h)
    simpa using hnone
  rw [sortChunks, List.filter_eq_self.mpr hkeep]

end Png

open Png in
/-- Likewise for PNG files. -/
theorem PngDisarmer.shrinks (w : Width) : (PngDisarmer.new w).Shrinks w := by
  intro artifact policy output hfit h hlen
  obtain ⟨cs, trailing, hcont, rfl⟩ := pngDisarm_eq_ok hfit h
  have hsum := length_sortChunks_add ⟨policy.stripMetadata⟩ cs
  have hsplit := hcont.split
  change (signature ++ (sortChunks ⟨policy.stripMetadata⟩ cs).1).length = _ at hlen
  rw [hsplit, List.append_assoc] at hlen
  simp only [List.length_append] at hlen
  have hnone : (sortChunks ⟨policy.stripMetadata⟩ cs).2 = [] :=
    List.eq_nil_of_length_eq_zero (by omega)
  have htrailing : trailing = [] := List.eq_nil_of_length_eq_zero (by omega)
  rw [hnone, sortChunks_of_none hnone, hsplit, htrailing, List.append_nil]
  rfl

/-! ## The verdict -/

/-- The verdict on a run of a disarmer that shrinks what it changes. -/
theorem DisarmService.isModified_eq_false {w : Width} {service : DisarmService}
    {request : DisarmRequest} {receipt : DisarmReceipt} {disarmer : Disarmer}
    (hfit : w.Fits request.artifact.bytes.length) (hshrinks : disarmer.Shrinks w)
    (huses : service.Uses request.artifact disarmer)
    (h : service.execute request = .ok receipt) :
    receipt.report.isModified = false ↔ receipt.clean.bytes = request.artifact.bytes := by
  obtain ⟨format, used, output, hdetect, hselect, hrun, hclean, hreport⟩ := execute_eq_ok h
  obtain ⟨format', hdetect', hselect'⟩ := huses
  obtain rfl := Except.ok.inj (hdetect.symm.trans hdetect')
  obtain rfl := Option.some.inj (hselect.symm.trans hselect')
  rw [hclean, hreport, DisarmReport.isModified]
  refine ⟨?_, ?_⟩
  · intro hverdict
    have hlen : request.artifact.bytes.length = output.bytes.length := by
      simpa using (Bool.or_eq_false_iff.mp hverdict).2
    rw [hshrinks _ _ _ hfit hrun hlen.symm]
  · intro hbytes
    change output.bytes = _ at hbytes
    rw [hshrinks _ _ _ hfit hrun (congrArg List.length hbytes)]
    simp

/-- **The verdict is truthful for the binary formats**: a report of the JPEG or the PNG disarmer
says that a file is not modified exactly when the clean bytes are those of the file. -/
theorem isModified_truthful (w : Width) (service : DisarmService) (request : DisarmRequest)
    (receipt : DisarmReceipt) (hfit : w.Fits request.artifact.bytes.length)
    (huses : service.Uses request.artifact (JpegDisarmer.new w) ∨
      service.Uses request.artifact (PngDisarmer.new w))
    (h : service.execute request = .ok receipt) :
    receipt.report.isModified = false ↔ receipt.clean.bytes = request.artifact.bytes := by
  rcases huses with huses | huses
  · exact service.isModified_eq_false hfit (JpegDisarmer.shrinks w) huses h
  · exact service.isModified_eq_false hfit (PngDisarmer.shrinks w) huses h

/-- A service for PNG files alone. -/
def pngService : DisarmService where
  detector := { detect := fun _ => .ok .png }
  disarmers := [PngDisarmer.new .w64]
  distinct := List.pairwise_singleton _ _

/-- A file with bytes after `IEND`: nothing is reported of them, and the verdict is that the file
is modified. -/
theorem isModified_truthful_sample :
    (({ format := .png, originalSize := 22, sanitizedSize := 20, removed := [] } :
      DisarmReport).isModified = false ↔
    Png.signature ++ ([0, 0, 0, 0] ++ Png.iend ++ [5, 6, 7, 8]) =
      Png.signature ++ ([0, 0, 0, 0] ++ Png.iend ++ [5, 6, 7, 8]) ++ [9, 9]) :=
  isModified_truthful .w64 pngService
    (.strict (.new (Png.signature ++ ([0, 0, 0, 0] ++ Png.iend ++ [5, 6, 7, 8]) ++ [9, 9])))
    { clean := { format := .png,
                 bytes := Png.signature ++ ([0, 0, 0, 0] ++ Png.iend ++ [5, 6, 7, 8]) },
      report := { format := .png, originalSize := 22, sanitizedSize := 20, removed := [] } }
    (by decide) (.inr ⟨.png, rfl, rfl⟩) rfl

end Purgo
