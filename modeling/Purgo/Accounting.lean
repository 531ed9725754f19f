import Mathlib.Algebra.BigOperators.Group.List.Basic
import Mathlib.Data.List.Flatten
import Purgo.Verdict

/-!
# What the report accounts for

A binary format is disarmed by cutting: the clean file is what is left of the file, in order. The
sizes in the report and those of its items add up to the size of the file, but for the bytes that
are cut without an item: fill bytes before markers, and whatever follows `EOI` or `IEND`
(`execute_accounted`). So a report never claims more than was cut.
-/

namespace Purgo

open Rust

/-- The sum of the sizes of what was removed. -/
def removedSize (removed : List RemovedItem) : Nat := (removed.map RemovedItem.bytesRemoved).sum

/-- The output is what is left of the bytes, and all but so many of the others are reported. -/
structure Accounted (bytes : List UInt8) (output : DisarmOutput) (unreported : Nat) : Prop where
  sublist : output.bytes.Sublist bytes
  balance : bytes.length = output.bytes.length + removedSize output.removed + unreported

/-! ## JPEG -/

namespace Jpeg

/-- A token is cut down to its last fill byte. -/
theorem Token.unfilled_sublist (t : Token) : t.unfilled.encode.Sublist t.encode := by
  have hintroduce : ∀ fill marker, (introduce 0 marker).Sublist (introduce fill marker) := by
    intro fill marker
    refine List.Sublist.append_right ?_ [marker]
    exact List.replicate_sublist_replicate 0xFF |>.mpr (by omega)
  cases t with
  | standalone fill marker => exact hintroduce fill marker
  | segment fill marker payload => exact (hintroduce fill marker).append_right _
  | scan fill header data =>
    exact ((hintroduce fill sos).append_right (field header)).append_right data
  | eoi fill => exact hintroduce fill Jpeg.eoi

variable (policy : Policy)

/-- What is kept of the tokens is kept in order. -/
theorem sortTokens_sublist (ts : List Token) :
    (sortTokens policy ts).1.Sublist (ts.flatMap Token.encode) := by
  induction ts with
  | nil => exact .slnil
  | cons t ts ih =>
    rw [sortTokens] at ih ⊢
    rw [List.filter_cons]
    split_ifs with hkept
    · exact t.unfilled_sublist.append ih
    · exact ih.trans (List.sublist_append_right _ _)

/-- Token by token, what is copied, what is recorded and the fill bytes are what was there. -/
theorem length_sortTokens (ts : List Token) :
    (ts.flatMap Token.encode).length =
      (sortTokens policy ts).1.length + removedSize (sortTokens policy ts).2 +
        (ts.map Token.fill).sum := by
  induction ts with
  | nil => rfl
  | cons t ts ih =>
    have hlen := t.length_unfilled
    simp only [sortTokens, removedSize] at ih ⊢
    rw [List.flatMap_cons, List.length_append, ih, List.map_cons, List.sum_cons, List.filter_cons,
      List.filterMap_cons]
    cases hdrop : t.isDropped policy with
    | false =>
      have hnone := Token.removedItem_eq_none.mpr hdrop
      rw [hnone, if_pos (by simp), List.flatMap_cons, List.length_append]
      dsimp only
      omega
    | true =>
      obtain ⟨fill, marker, payload, rfl⟩ : ∃ fill marker payload,
          t = .segment fill marker payload := by
        cases t with
        | segment fill marker payload => exact ⟨fill, marker, payload, rfl⟩
        | _ => cases hdrop
      have hitem : (Token.segment fill marker payload).removedItem policy =
          some (removedSegment marker (payload.length + 4)) := if_pos hdrop
      have hsize :
          (removedSegment marker (payload.length + 4)).bytesRemoved = payload.length + 4 := by
        rw [removedSegment]
        split_ifs <;> rfl
      have hencode :
          (Token.segment fill marker payload).encode.length = fill + payload.length + 4 := by
        rw [Token.encode, List.length_append, Token.length_introduce, length_field]
        omega
      rw [hitem, if_neg (by simp), hencode]
      dsimp only
      rw [List.map_cons, List.sum_cons, hsize, Token.fill]
      omega

end Jpeg

open Jpeg in
/-- A rebuilt JPEG file is part of the file, and what is not reported is the fill bytes and what
comes after the end. -/
theorem JpegDisarmer.accounted {w : Width} {artifact : Artifact} {policy : Policy}
    {output : DisarmOutput} (hfit : w.Fits artifact.bytes.length)
    (h : JpegDisarmer.disarm w artifact policy = .ok output) :
    ∃ ts trailing, Marked artifact.bytes ts trailing ∧
      Accounted artifact.bytes output ((ts.map Token.fill).sum + trailing.length) := by
  obtain ⟨ts, trailing, hm, rfl⟩ := (disarm_eq_ok hfit).mp h
  refine ⟨ts, trailing, hm, ?_, ?_⟩
  · rw [hm.split]
    exact ((sortTokens_sublist policy ts).append_left _).trans (List.sublist_append_left _ _)
  · have hlen := length_sortTokens policy ts
    change artifact.bytes.length = ([0xFF, soi] ++ (sortTokens policy ts).1).length +
      removedSize (sortTokens policy ts).2 + _
    rw [hm.split]
    simp only [List.length_append]
    omega

/-! ## PNG -/

namespace Png

variable (options : PngOptions)

theorem sortChunks_sublist (cs : List Chunk) :
    (sortChunks options cs).1.Sublist (cs.flatMap Chunk.encode) :=
  List.filter_sublist.flatMap _

/-- Chunk by chunk, what is copied and what is recorded are what was there. -/
theorem chunks_accounted (cs : List Chunk) :
    (cs.flatMap Chunk.encode).length =
      (sortChunks options cs).1.length +
        removedSize ((sortChunks options cs).2.map pngRemovedItem) := by
  induction cs with
  | nil => rfl
  | cons c cs ih =>
    have hlen := c.length_encode
    simp only [removedSize] at ih ⊢
    cases hk : keeps options c.kind with
    | true =>
      rw [sortChunks_cons_keep cs hk, List.flatMap_cons, List.length_append, ih]
      simp only [List.length_append]
      omega
    | false =>
      have hsize : (pngRemovedItem c.removed).bytesRemoved = c.data.length + 12 := rfl
      rw [sortChunks_cons_drop cs hk, List.flatMap_cons, List.length_append, ih]
      dsimp only
      rw [List.map_cons, List.map_cons, List.sum_cons, hsize]
      omega

end Png

open Png in
/-- A rebuilt PNG file is part of the file, and what is not reported is what comes after `IEND`. -/
theorem PngDisarmer.accounted {w : Width} {artifact : Artifact} {policy : Policy}
    {output : DisarmOutput} (hfit : w.Fits artifact.bytes.length)
    (h : PngDisarmer.disarm w artifact policy = .ok output) :
    ∃ cs trailing, Container artifact.bytes cs trailing ∧
      Accounted artifact.bytes output trailing.length := by
  obtain ⟨cs, trailing, hcont, rfl⟩ := pngDisarm_eq_ok hfit h
  refine ⟨cs, trailing, hcont, ?_, ?_⟩
  · rw [hcont.split]
    exact ((sortChunks_sublist _ cs).append_left _).trans (List.sublist_append_left _ _)
  · have hlen := chunks_accounted ⟨policy.stripMetadata⟩ cs
    change artifact.bytes.length = (signature ++ (sortChunks ⟨policy.stripMetadata⟩ cs).1).length +
      removedSize ((sortChunks ⟨policy.stripMetadata⟩ cs).2.map pngRemovedItem) + _
    rw [hcont.split]
    simp only [List.length_append]
    omega

/-! ## The report -/

/-- **The report adds up**: the clean image is what is left of the file, in order, and the size of
the file is that of the clean image, those of the items, and the bytes cut without an item. These
are the fill bytes and what follows `EOI` in a JPEG file, and what follows `IEND` in a PNG file. -/
theorem execute_accounted (w : Width) (service : DisarmService) (request : DisarmRequest)
    (receipt : DisarmReceipt) (hfit : w.Fits request.artifact.bytes.length)
    (huses : service.Uses request.artifact (JpegDisarmer.new w) ∨
      service.Uses request.artifact (PngDisarmer.new w))
    (h : service.execute request = .ok receipt) :
    ∃ unreported, receipt.clean.bytes.Sublist request.artifact.bytes ∧
      receipt.report.originalSize =
        receipt.report.sanitizedSize + removedSize receipt.report.removed + unreported ∧
      (service.Uses request.artifact (JpegDisarmer.new w) →
        ∃ ts trailing, Jpeg.Marked request.artifact.bytes ts trailing ∧
          unreported = (ts.map Jpeg.Token.fill).sum + trailing.length) ∧
      (service.Uses request.artifact (PngDisarmer.new w) →
        ∃ cs trailing, Container request.artifact.bytes cs trailing ∧
          unreported = trailing.length) := by
  obtain ⟨format, disarmer, output, hdetect, hselect, hdisarm, hclean, hreport⟩ :=
    DisarmService.execute_eq_ok h
  have hused : ∀ {d}, service.Uses request.artifact d → d = disarmer := by
    rintro d ⟨format', hdetect', hselect'⟩
    obtain rfl := Except.ok.inj (hdetect.symm.trans hdetect')
    exact Option.some.inj (hselect'.symm.trans hselect)
  have hne : JpegDisarmer.new w ≠ PngDisarmer.new w := fun heq => by
    have hformat := congrArg Disarmer.format heq
    cases hformat
  rw [hclean, hreport]
  rcases huses with huses | huses
  · obtain rfl := hused huses
    obtain ⟨ts, trailing, hm, hsublist, hbalance⟩ := JpegDisarmer.accounted hfit hdisarm
    refine ⟨_, hsublist, hbalance, fun _ => ⟨ts, trailing, hm, rfl⟩, fun hpng => ?_⟩
    exact absurd (hused hpng).symm hne
  · obtain rfl := hused huses
    obtain ⟨cs, trailing, hcont, hsublist, hbalance⟩ := PngDisarmer.accounted hfit hdisarm
    refine ⟨_, hsublist, hbalance, fun hjpeg => ?_, fun _ => ⟨cs, trailing, hcont, rfl⟩⟩
    exact absurd (hused hjpeg) hne

/-- The text chunk is reported, and the two bytes after `IEND` are cut without an item. -/
theorem execute_accounted_sample :
    ∃ receipt, pngService.execute (.strict (.new commentedPng)) = .ok receipt ∧
      receipt.clean.bytes = samplePng ∧ removedSize receipt.report.removed = 13 ∧
      ∃ unreported, receipt.clean.bytes.Sublist commentedPng ∧
        receipt.report.originalSize =
          receipt.report.sanitizedSize + removedSize receipt.report.removed + unreported ∧
        ∃ cs trailing, Container commentedPng cs trailing ∧ unreported = trailing.length := by
  have hrun : ∃ item, pngService.execute (.strict (.new commentedPng)) =
      .ok { clean := { format := .png, bytes := samplePng },
            report := { format := .png, originalSize := 35, sanitizedSize := 20,
                        removed := [item] } } ∧ item.bytesRemoved = 13 := ⟨_, rfl, rfl⟩
  obtain ⟨item, hrun, hitem⟩ := hrun
  obtain ⟨unreported, hsublist, hbalance, -, htrailing⟩ := execute_accounted .w64 pngService _ _
    (by decide) (.inr ⟨.png, rfl, rfl⟩) hrun
  exact ⟨_, hrun, rfl, hitem, unreported, hsublist, hbalance, htrailing ⟨.png, rfl, rfl⟩⟩

end Purgo
