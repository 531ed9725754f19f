import Purgo.PdfAlike
import Purgo.Rerun

/-!
# What was taken out is not in the answer

Of what a disarmer takes out it looks at the kind and the size, and at nothing else. So two files
that differ in nothing else get the same answer (`execute_alike`): one clean file with one
signature, and one report, but for the size of the file that was sent. Whoever sees the answer
learns no more about an EXIF segment, a text chunk, a script or an embedded document than the report
says of it.
-/

namespace Purgo

open Rust

/-! ## JPEG -/

namespace Jpeg

variable {policy : Policy}

/-- Two tokens that differ in their fill bytes, or in the payload of a segment that is dropped. -/
inductive Token.Alike (policy : Policy) : Token → Token → Prop where
  | kept {t u : Token} : t.unfilled = u.unfilled → Token.Alike policy t u
  | dropped {fill fill' : Nat} {marker : UInt8} {payload payload' : List UInt8} :
      dropIt policy marker = true → payload.length = payload'.length →
      Token.Alike policy (.segment fill marker payload) (.segment fill' marker payload')

/-- The tokens of the two files are sorted the same way. -/
theorem Token.Alike.sorted {t u : Token} (h : t.Alike policy u) :
    t.isDropped policy = u.isDropped policy ∧ t.removedItem policy = u.removedItem policy ∧
      (t.isDropped policy = false → t.unfilled = u.unfilled) := by
  cases h with
  | kept hsame =>
    rw [← t.isDropped_unfilled, ← t.removedItem_unfilled, hsame, u.isDropped_unfilled,
      u.removedItem_unfilled]
    exact ⟨rfl, rfl, fun _ => rfl⟩
  | dropped hdrop hlength =>
    refine ⟨rfl, ?_, fun hkept => ?_⟩
    · rw [removedItem, removedItem, hlength]
    · rw [isDropped, hdrop] at hkept
      cases hkept

/-- Alike tokens are rebuilt to the same bytes: what tells them apart is dropped. -/
theorem rebuild_alike {ts us : List Token} (h : List.Forall₂ (Token.Alike policy) ts us) :
    rebuild policy ts = rebuild policy us := by
  induction h with
  | nil => rfl
  | @cons t u ts us htu _ ih =>
    obtain ⟨hdropped, hitem, hkept⟩ := htu.sorted
    obtain ⟨hbytes, hremoved⟩ := DisarmOutput.mk.inj ih
    have hbytes := List.append_cancel_left hbytes
    rw [rebuild, rebuild, List.filter_cons, List.filter_cons, List.filterMap_cons,
      List.filterMap_cons, ← hdropped, ← hitem, ← hremoved]
    congr 2
    cases hdrop : t.isDropped policy with
    | true => exact hbytes
    | false => exact congrArg₂ (· ++ ·) (congrArg Token.encode (hkept hdrop)) hbytes

end Jpeg

/-! ## PNG -/

/-- Two chunks of one type and of one length that differ when that type is dropped. -/
inductive Chunk.Alike (options : PngOptions) : Chunk → Chunk → Prop where
  | kept (c : Chunk) : Chunk.Alike options c c
  | dropped {c d : Chunk} : c.kind = d.kind → c.data.length = d.data.length →
      Png.keeps options c.kind = false → Chunk.Alike options c d

open Png in
theorem Png.sortChunks_alike {options : PngOptions} {cs ds : List Chunk}
    (h : List.Forall₂ (Chunk.Alike options) cs ds) :
    sortChunks options cs = sortChunks options ds := by
  induction h with
  | nil => rfl
  | @cons c d cs ds hcd _ ih =>
    cases hcd with
    | kept =>
      cases hkeep : keeps options c.kind with
      | true => rw [sortChunks_cons_keep cs hkeep, sortChunks_cons_keep ds hkeep, ih]
      | false => rw [sortChunks_cons_drop cs hkeep, sortChunks_cons_drop ds hkeep, ih]
    | dropped hkind hlength hdrop =>
      have hrecord : c.removed = d.removed := by
        rw [Chunk.removed, Chunk.removed, hkind, hlength]
      rw [sortChunks_cons_drop cs hdrop, sortChunks_cons_drop ds (hkind ▸ hdrop), ih, hrecord]

/-! ## OOXML -/

namespace Ooxml

variable {X : QuickXml} {Z : ZipCrate}

/-- Two entries of one name and of one declared size that differ when that name is dropped. -/
inductive ZipEntry.Alike : Exec String ZipEntry → Exec String ZipEntry → Prop where
  | kept (byIndex : Exec String ZipEntry) : ZipEntry.Alike byIndex byIndex
  | dropped {entry entry' : ZipEntry} {threat : ThreatClass} {detail : String} :
      isDirName entry.name = false → Ooxml.decide entry.name = .drop threat detail →
      entry.name = entry'.name → entry.size = entry'.size →
      ZipEntry.Alike (.ok entry) (.ok entry')

/-- A part that is dropped is not read. -/
theorem disarmEntry_dropped (hZ : Z.Lawful) {entry : ZipEntry} {threat : ThreatClass}
    {detail : String} (hfile : isDirName entry.name = false)
    (hdrop : Ooxml.decide entry.name = .drop threat detail) (i : Nat) (st : State) :
    disarmEntry X Z i (.ok entry) st =
      .ok { st with
        removed := st.removed ++
          [{ location := "part " ++ entry.name, threat := threat, detail := detail,
             bytesRemoved := entry.size }] } := by
  refine Exec.bind_eq_ok.mpr ⟨entry, rfl, ?_⟩
  rw [if_neg (by rw [hZ.isDir_eq, hfile]; simp)]
  dsimp only
  rw [hdrop]
  exact Exec.bind_eq_ok.mpr ⟨entry, rfl, rfl⟩

/-- Alike archives are written alike, by induction on the two lists of entries. -/
theorem disarmEntries_alike (hZ : Z.Lawful) {archive archive' : List (Exec String ZipEntry)}
    (h : List.Forall₂ ZipEntry.Alike archive archive') (i : Nat) (st : State) :
    disarmEntries X Z i archive st = disarmEntries X Z i archive' st := by
  induction h generalizing i st with
  | nil => rfl
  | @cons byIndex byIndex' archive archive' hentry _ ih =>
    have hround : disarmEntry X Z i byIndex st = disarmEntry X Z i byIndex' st := by
      cases hentry with
      | kept => rfl
      | dropped hfile hdrop hname hsize =>
        rw [disarmEntry_dropped hZ hfile hdrop,
          disarmEntry_dropped hZ (hname ▸ hfile) (hname ▸ hdrop), hname, hsize]
    rw [disarmEntries, disarmEntries, hround]
    exact bind_congr fun st' => ih (i + 1) st'

end Ooxml

/-! ## The service -/

/-- Two files of a format that differ in nothing but what the disarmer of the format takes out, and
in that have the same kinds and sizes. -/
inductive Alike (C : Crates) (policy : Policy) (data data' : List UInt8) : FileFormat → Prop where
  | jpeg {ts us : List Jpeg.Token} {left left' : List UInt8} : Jpeg.Marked data ts left →
      Jpeg.Marked data' us left' → List.Forall₂ (Jpeg.Token.Alike policy) ts us →
      Alike C policy data data' .jpeg
  | png {cs ds : List Chunk} {left left' : List UInt8} : Container data cs left →
      Container data' ds left' → List.Forall₂ (Chunk.Alike ⟨policy.stripMetadata⟩) cs ds →
      Alike C policy data data' .png
  | pdf {doc doc' : Pdf.LoadedDocument} : C.lopdf.loadMem data = .ok doc →
      C.lopdf.loadMem data' = .ok doc' → doc.toDocument.Alike doc'.toDocument →
      Alike C policy data data' .pdf
  | ooxml {archive archive' : List (Exec String Ooxml.ZipEntry)} :
      C.zip.openArchive data = .ok archive → C.zip.openArchive data' = .ok archive' →
      List.Forall₂ Ooxml.ZipEntry.Alike archive archive' → Alike C policy data data' .ooxml

section

variable {w : Width} {C : Crates} {policy : Policy} {artifact artifact' : Artifact}

open Png in
/-- Two PNG files that differ only in the data of dropped chunks, and after the end, are disarmed to
one output. -/
theorem PngDisarmer.disarm_alike {cs ds : List Chunk} {left left' : List UInt8}
    (hfit : w.Fits artifact.bytes.length) (hfit' : w.Fits artifact'.bytes.length)
    (hcont : Container artifact.bytes cs left) (hcont' : Container artifact'.bytes ds left')
    (halike : List.Forall₂ (Chunk.Alike ⟨policy.stripMetadata⟩) cs ds) :
    PngDisarmer.disarm w artifact policy = PngDisarmer.disarm w artifact' policy := by
  have hrun : disarmPng w artifact.bytes ⟨policy.stripMetadata⟩ =
      disarmPng w artifact'.bytes ⟨policy.stripMetadata⟩ := by
    rw [(disarmPng_eq_ok hfit).mpr ⟨cs, left, hcont, rfl⟩,
      (disarmPng_eq_ok hfit').mpr ⟨ds, left', hcont', rfl⟩, sortChunks_alike halike]
  rw [PngDisarmer.disarm, PngDisarmer.disarm, hrun]

/-- The disarmer of the format does the same on both files. -/
theorem disarm_alike (hL : C.lopdf.Lawful) (hmoves : C.lopdf.MovesByKey) (hZ : C.zip.Lawful)
    {format : FileFormat} (h : Alike C policy artifact.bytes artifact'.bytes format)
    (hfit : w.Fits artifact.bytes.length) (hfit' : w.Fits artifact'.bytes.length) :
    ∃ disarmer, (service w C).select format = some disarmer ∧
      disarmer.disarm artifact policy = disarmer.disarm artifact' policy := by
  cases h with
  | jpeg hmarked hmarked' halike =>
    refine ⟨JpegDisarmer.new w, rfl, ?_⟩
    have hrun : JpegDisarmer.disarm w artifact policy = _ :=
      (Jpeg.disarm_eq_ok hfit).mpr ⟨_, _, hmarked, rfl⟩
    have hrun' : JpegDisarmer.disarm w artifact' policy = _ :=
      (Jpeg.disarm_eq_ok hfit').mpr ⟨_, _, hmarked', rfl⟩
    rw [Jpeg.rebuild_alike halike] at hrun
    exact hrun.trans hrun'.symm
  | png hcont hcont' halike =>
    exact ⟨PngDisarmer.new w, rfl, PngDisarmer.disarm_alike hfit hfit' hcont hcont' halike⟩
  | pdf hload hload' halike =>
    refine ⟨PdfDisarmer.new C, rfl, ?_⟩
    have hinner := Pdf.disarmInner_alike hL hmoves hload hload' halike
    change PdfDisarmer.disarm _ artifact policy = PdfDisarmer.disarm _ artifact' policy
    rw [PdfDisarmer.disarm, PdfDisarmer.disarm, hinner]
  | ooxml hopen hopen' halike =>
    refine ⟨OoxmlDisarmer.new C, rfl, ?_⟩
    have hinner : Ooxml.disarmInner C.quickXml C.zip artifact.bytes =
        Ooxml.disarmInner C.quickXml C.zip artifact'.bytes := by
      rw [Ooxml.disarmInner, Ooxml.disarmInner, hopen, hopen', Exec.mapErr, Exec.mapErr,
        Exec.ok_bind, Exec.ok_bind, Ooxml.disarmEntries_alike hZ halike]
    change OoxmlDisarmer.disarm _ _ artifact policy = OoxmlDisarmer.disarm _ _ artifact' policy
    rw [OoxmlDisarmer.disarm, OoxmlDisarmer.disarm, hinner]

/-- The receipt with the size of another file in its report. -/
def DisarmReceipt.resized (size : Nat) (receipt : DisarmReceipt) : DisarmReceipt :=
  { receipt with report := { receipt.report with originalSize := size } }

/-- The signed receipt with that size in it. -/
def SignedReceipt.resized (size : Nat) (signed : SignedReceipt) : SignedReceipt :=
  { signed with receipt := signed.receipt.resized size }

/-- A signer signs the clean file alone. -/
theorem executeSigned_resized {service : SigningDisarmService} {request request' : DisarmRequest}
    {size : Nat} (h : service.disarm request' = (service.disarm request).map (.resized size)) :
    service.executeSigned request' = (service.executeSigned request).map (.resized size) := by
  rw [SigningDisarmService.executeSigned, SigningDisarmService.executeSigned, h]
  cases service.disarm request with
  | error e => rfl
  | ok receipt =>
    change (Exec.lift (service.signer.sign receipt.clean.bytes) >>= _) =
      Except.map _ (Exec.lift (service.signer.sign receipt.clean.bytes) >>= _)
    cases service.signer.sign receipt.clean.bytes with
    | error e => rfl
    | ok signature => rfl

end

/-- **What was taken out is not in the answer**: where two files of a format differ only in what the
disarmer takes out, and in that have the same kinds and sizes, the answers differ only in the size
of the file that was sent. The clean files are the same, and so are the removed items and what any
signer makes of them; or both files are refused for the same reason. -/
theorem execute_alike (w : Width) (C : Crates) (hL : C.lopdf.Lawful) (hmoves : C.lopdf.MovesByKey)
    (hZ : C.zip.Lawful) (format : FileFormat) (policy : Policy) (artifact artifact' : Artifact)
    (hfit : w.Fits artifact.bytes.length) (hfit' : w.Fits artifact'.bytes.length)
    (hdetect : MagicFormatDetector.detect C artifact = .ok format)
    (hdetect' : MagicFormatDetector.detect C artifact' = .ok format)
    (h : Alike C policy artifact.bytes artifact'.bytes format) :
    (service w C).execute ⟨artifact', policy⟩ =
      ((service w C).execute ⟨artifact, policy⟩).map (.resized artifact'.bytes.length) ∧
    ∀ signer, SigningDisarmService.executeSigned ⟨(service w C).execute, signer⟩
        ⟨artifact', policy⟩ =
      (SigningDisarmService.executeSigned ⟨(service w C).execute, signer⟩
        ⟨artifact, policy⟩).map (.resized artifact'.bytes.length) := by
  have hrun : (service w C).execute ⟨artifact', policy⟩ =
      ((service w C).execute ⟨artifact, policy⟩).map (.resized artifact'.bytes.length) := by
    obtain ⟨disarmer, hselect, hdisarm⟩ := disarm_alike hL hmoves hZ h hfit hfit'
    rw [@execute_of_select (service w C) ⟨artifact, policy⟩ _ _ hdetect hselect,
      @execute_of_select (service w C) ⟨artifact', policy⟩ _ _ hdetect' hselect, ← hdisarm]
    cases disarmer.disarm artifact policy with
    | error e => rfl
    | ok output => rfl
  exact ⟨hrun, fun signer => executeSigned_resized hrun⟩

/-- A library that knows two documents. -/
noncomputable def payloadCrates : Crates :=
  { sampleCrates with lopdf := .ofDocuments [Pdf.sampleDocument, Pdf.otherDocument] }

theorem payloadCrates_lopdf :
    payloadCrates.lopdf = .ofDocuments [Pdf.sampleDocument, Pdf.otherDocument] := rfl

/-- It opens both. -/
theorem payloadCrates_open :
    payloadCrates.lopdf.loadMem Pdf.sampleDocument.write = .ok Pdf.sampleDocument ∧
      payloadCrates.lopdf.loadMem Pdf.otherDocument.write = .ok Pdf.otherDocument := by
  have hne : Pdf.sampleDocument.write ≠ Pdf.otherDocument.write := by decide +kernel
  rw [payloadCrates_lopdf, Pdf.Lopdf.loadMem_cons hne]
  exact ⟨Pdf.Lopdf.loadMem_head Pdf.sampleDocument _, Pdf.Lopdf.loadMem_head Pdf.otherDocument _⟩

/-- The two files are loaded as documents that differ only in what is removed. -/
theorem payloadCrates_alike :
    Alike payloadCrates .strict Pdf.sampleDocument.write Pdf.otherDocument.write .pdf :=
  .pdf payloadCrates_open.1 payloadCrates_open.2 Pdf.sample_alike

/-- What is left of the first one. -/
theorem sampleDocument_disarm : ∃ removed,
    (PdfDisarmer.new payloadCrates).disarm (.new Pdf.sampleDocument.write) .strict =
      .ok { bytes := Pdf.sampleSanitized.write, removed := removed } := by
  have hrun : ∃ removed, (Pdf.sanitizeDocument payloadCrates.lopdf
      Pdf.sampleDocument.toDocument).run [] = .ok (Pdf.sampleSanitized, removed) := ⟨_, rfl⟩
  obtain ⟨removed, hrun⟩ := hrun
  have hopen := payloadCrates_open.1
  rw [payloadCrates_lopdf] at hrun hopen
  have hinner := Pdf.Lopdf.disarmInner_ofDocuments hopen hrun fun entry hentry => by
    obtain rfl := List.mem_singleton.mp hentry
    exact ⟨ascii "Root", List.mem_cons_of_mem _ List.mem_cons_self⟩
  refine ⟨removed, ?_⟩
  rw [PdfDisarmer.new, payloadCrates_lopdf]
  dsimp only
  rw [PdfDisarmer.disarm, Artifact.new, hinner]

/-- What a document does when it is opened, and the file in it, may be others. -/
theorem execute_alike_sample :
    ∃ receipt, (service .w64 payloadCrates).execute ⟨.new Pdf.sampleDocument.write, .strict⟩ =
        .ok receipt ∧
      receipt.clean = { format := .pdf, bytes := Pdf.sampleSanitized.write } ∧
      (service .w64 payloadCrates).execute ⟨.new Pdf.otherDocument.write, .strict⟩ =
        .ok (receipt.resized Pdf.otherDocument.write.length) := by
  have hdetect : MagicFormatDetector.detect payloadCrates (.new Pdf.sampleDocument.write) =
      .ok .pdf := detect_pdf Pdf.sampleDocument.write_prefix
  have hdetect' : MagicFormatDetector.detect payloadCrates (.new Pdf.otherDocument.write) =
      .ok .pdf := detect_pdf Pdf.otherDocument.write_prefix
  obtain ⟨removed, hdisarm⟩ := sampleDocument_disarm
  have hrun := @execute_of_disarm (service .w64 payloadCrates)
    ⟨.new Pdf.sampleDocument.write, .strict⟩ _ (PdfDisarmer.new payloadCrates) _ hdetect rfl hdisarm
  have halike := (execute_alike .w64 payloadCrates Pdf.Lopdf.ofDocuments_lawful
    Pdf.Lopdf.ofDocuments_movesByKey Ooxml.ZipCrate.ofArchives_lawful .pdf .strict
    (.new Pdf.sampleDocument.write) (.new Pdf.otherDocument.write) (by decide +kernel)
    (by decide +kernel) hdetect hdetect' payloadCrates_alike).1
  rw [hrun] at halike
  exact ⟨_, hrun, rfl, halike⟩

end Purgo
