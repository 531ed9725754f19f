import Purgo.Contract
import Purgo.JpegFill
import Purgo.OoxmlRerun
import Purgo.PngRerun

/-!
# Disarming a clean file

What a service returns is detected as the format it was rebuilt in, and goes through the same
disarmer once more. A second run has nothing to do to an image without scans of its own, or to an
office document (`execute_again`). A JPEG file it leaves alone when the tokens that survived the
first run are settled, and only then.

For a ZIP archive this takes that what the library has written it reads back (`Crates.ReadBack`).
-/

namespace Purgo

open Rust

variable {w : Width} {C : Crates}

/-! ## Detecting what was written -/

/-- What the crates write they read back. -/
structure Crates.ReadBack (C : Crates) : Prop where
  writes : C.quickXml.Writes
  zip : C.zip.Lawful
  reopens : C.zip.Reopens
  /-- the names of an archive are those of its entries -/
  fileNames : ∀ {data : List UInt8} {entries : List Ooxml.ZipEntry},
    C.zip.openArchive data = .ok (entries.map Except.ok) →
      C.fileNames data = .ok (entries.map Ooxml.ZipEntry.name)
  /-- an archive begins with the header of its first entry -/
  header : ∀ {written : List Ooxml.ZipEntry} {out : List UInt8}, C.zip.finish written = .ok out →
    written ≠ [] → [0x50, 0x4B, 0x03, 0x04] <+: out

/-- A file with the first marker of a JPEG file and half of a second is taken for one. -/
theorem detect_jpeg {artifact : Artifact} (h : [0xFF, 0xD8, 0xFF] <+: artifact.bytes) :
    MagicFormatDetector.detect C artifact = .ok .jpeg := if_pos h

theorem detect_png {artifact : Artifact} (h : Png.signature <+: artifact.bytes) :
    MagicFormatDetector.detect C artifact = .ok .png := by
  have hjpeg : ¬ [0xFF, 0xD8, 0xFF] <+: artifact.bytes := by
    obtain ⟨rest, hrest⟩ := h
    rw [← hrest]
    simp [Png.signature]
  rw [MagicFormatDetector.detect]
  exact (if_neg hjpeg).trans (if_pos h)

theorem detect_pdf {artifact : Artifact} (h : ascii "%PDF-" <+: artifact.bytes) :
    MagicFormatDetector.detect C artifact = .ok .pdf := by
  have hbefore : ¬ [0xFF, 0xD8, 0xFF] <+: artifact.bytes ∧ ¬ Png.signature <+: artifact.bytes := by
    obtain ⟨rest, hrest⟩ := h
    rw [← hrest]
    simp [Png.signature, ascii]
  rw [MagicFormatDetector.detect, if_neg hbefore.1, if_neg hbefore.2]
  exact if_pos h

/-- An archive that names the content types is taken for an Office document. -/
theorem detect_ooxml {artifact : Artifact} {names : List String}
    (h : [0x50, 0x4B, 0x03, 0x04] <+: artifact.bytes)
    (hnames : C.fileNames artifact.bytes = .ok names) (hmarker : ooxmlMarker ∈ names) :
    MagicFormatDetector.detect C artifact = .ok .ooxml := by
  have hbefore : ¬ [0xFF, 0xD8, 0xFF] <+: artifact.bytes ∧ ¬ Png.signature <+: artifact.bytes ∧
      ¬ ascii "%PDF-" <+: artifact.bytes := by
    obtain ⟨rest, hrest⟩ := h
    rw [← hrest]
    simp [Png.signature, ascii]
  have hooxml : isOoxml C artifact.bytes = .ok true := by
    rw [isOoxml, hnames]
    simpa using hmarker
  rw [MagicFormatDetector.detect, if_neg hbefore.1, if_neg hbefore.2.1, if_neg hbefore.2.2,
    if_pos h, hooxml]
  rfl

/-- A file that is detected as an office document has the marker among its names. -/
theorem marker_of_detect {artifact : Artifact}
    (h : MagicFormatDetector.detect C artifact = .ok .ooxml) :
    ∃ names, C.fileNames artifact.bytes = .ok names ∧ ooxmlMarker ∈ names := by
  rw [MagicFormatDetector.detect] at h
  split_ifs at h
  · cases h
  · cases h
  · cases h
  · rw [isOoxml] at h
    rcases hnames : C.fileNames artifact.bytes with (e | _ | _) | names
    · rw [hnames] at h
      cases h
    · rw [hnames] at h
      cases h
    · rw [hnames] at h
      cases h
    · refine ⟨names, rfl, ?_⟩
      by_contra hmarker
      have hnot : names.contains ooxmlMarker = false := by simpa using hmarker
      rw [hnames] at h
      simp only [hnot] at h
      cases h
  · cases h

/-! ## JPEG -/

namespace Jpeg

variable {policy : Policy} {data trailing : List UInt8} {ts : List Token}

/-- A rebuilt file has a marker after `SOI`. -/
theorem prefix_rebuild (hm : Marked data ts trailing) :
    [0xFF, 0xD8, 0xFF] <+: (rebuild policy ts).bytes := by
  obtain ⟨-, -, hany⟩ := marked_iff.mp hm
  obtain ⟨t, ht, hkind⟩ := List.any_eq_true.mp hany
  have hkept : t.isDropped policy = false := by
    cases t with
    | segment fill marker payload => cases hkind
    | _ => rfl
  have hsurvives : t.unfilled ∈ survivors policy ts :=
    List.mem_map_of_mem (List.mem_filter.mpr ⟨ht, by rw [hkept]; rfl⟩)
  rw [rebuild_bytes]
  cases hsurvivors : survivors policy ts with
  | nil =>
    rw [hsurvivors] at hsurvives
    cases hsurvives
  | cons u us =>
    have hu : u.Kept policy := kept_of_mem_survivors (hsurvivors ▸ List.mem_cons_self)
    rw [Lexing.Lexicon.encodeAll_cons]
    change _ <+: [0xFF, soi] ++ (u.encode ++ _)
    rw [encode_of_kept hu]
    exact ⟨_, rfl⟩

/-- What a second run does, read off the tokens of the first one. -/
theorem disarm_again_iff (hm : Marked data ts trailing) (hfit : w.Fits data.length)
    (name : Option String) :
    JpegDisarmer.disarm w ⟨name, (rebuild policy ts).bytes⟩ policy =
        .ok { bytes := (rebuild policy ts).bytes, removed := [] } ↔
      Settled policy false (survivors policy ts) := by
  have hfit' : w.Fits (rebuild policy ts).bytes.length := hfit.mono (length_rebuild_le hm)
  have hvalid : ∀ t ∈ survivors policy ts, t.Valid := by
    intro t ht
    obtain ⟨u, hu, rfl⟩ := List.mem_map.mp ht
    obtain ⟨-, hadm, -⟩ := marked_iff.mp hm
    obtain ⟨rest, hfits⟩ := hadm.mem (List.mem_filter.mp hu).1
    exact ⟨rest, Token.fits_unfilled hfits⟩
  obtain ⟨-, hadm, -⟩ := marked_iff.mp hm
  have hclean := (clean_iff_settled hvalid (fun t => kept_of_mem_survivors)
    (eoi_last_survivors hadm)).1
  rw [disarm_eq_lift hfit', Exec.lift_eq_ok, rerun_iff_clean hm, hclean]

end Jpeg

/-! ## PNG -/

open Png in
/-- A filtered file is filtered to itself. -/
theorem PngDisarmer.disarm_again {artifact : Artifact} {policy : Policy} {output : DisarmOutput}
    (hfit : w.Fits artifact.bytes.length)
    (h : PngDisarmer.disarm w artifact policy = .ok output) (name : Option String) :
    signature <+: output.bytes ∧ PngDisarmer.disarm w ⟨name, output.bytes⟩ policy =
      .ok { bytes := output.bytes, removed := [] } := by
  obtain ⟨cs, trailing, hcont, rfl⟩ := pngDisarm_eq_ok hfit h
  refine ⟨⟨_, rfl⟩, ?_⟩
  have hrun := @disarmPng_again w artifact.bytes _ _ ⟨policy.stripMetadata⟩ hfit
    ((disarmPng_eq_ok hfit).mpr ⟨cs, trailing, hcont, rfl⟩)
  exact Exec.bind_eq_ok.mpr ⟨_, Exec.mapErr_eq_ok.mpr hrun, rfl⟩

/-! ## OOXML -/

namespace Ooxml

/-- The part that marks an office document is kept. -/
theorem marker_written {X : QuickXml} {Z : ZipCrate} (hZ : Z.Lawful) {entries : List ZipEntry}
    {st : State}
    (h : disarmEntries X Z 0 (entries.map Except.ok) { written := [], removed := [] } = .ok st)
    (hmarker : ooxmlMarker ∈ entries.map ZipEntry.name) :
    ooxmlMarker ∈ st.written.map ZipEntry.name := by
  obtain ⟨entry, hentry, hname⟩ := List.mem_map.mp hmarker
  obtain ⟨written, removed, hrebuilds, hwritten, -⟩ := (written_of_entry hZ h).2 entry hentry
  have hkeep : Ooxml.decide entry.name = .keep := by
    rw [hname]
    decide
  cases hrebuilds with
  | directory _ => exact List.mem_map.mpr ⟨entry, hwritten entry List.mem_cons_self, hname⟩
  | keep _ _ => exact List.mem_map.mpr ⟨entry, hwritten entry List.mem_cons_self, hname⟩
  | drop _ hdrop =>
    rw [hkeep] at hdrop
    cases hdrop
  | rewrite _ hrewrite _ _ =>
    rw [hkeep] at hrewrite
    cases hrewrite

end Ooxml

/-- The Office disarmer succeeds where its inner part does: a panic that is caught is a refusal. -/
theorem OoxmlDisarmer.disarm_eq_ok {X : Ooxml.QuickXml} {Z : Ooxml.ZipCrate} {artifact : Artifact}
    {policy : Policy} {output : DisarmOutput} :
    OoxmlDisarmer.disarm X Z artifact policy = .ok output ↔
      Ooxml.disarmInner X Z artifact.bytes = .ok output := by
  rw [OoxmlDisarmer.disarm]
  split
  · rename_i hpanic
    rw [hpanic]
    exact iff_of_false (Exec.fail_ne_ok _ _) (by rintro ⟨⟩)
  · exact Iff.rfl

/-- A clean package is detected as one, and is left alone. -/
theorem OoxmlDisarmer.disarm_again (hC : C.ReadBack) {artifact : Artifact} (policy : Policy)
    {output : DisarmOutput} (hdetect : MagicFormatDetector.detect C artifact = .ok .ooxml)
    (h : OoxmlDisarmer.disarm C.quickXml C.zip artifact policy = .ok output)
    (hback : ∀ entries, C.zip.openArchive artifact.bytes = .ok (entries.map Except.ok) →
      C.quickXml.RereadsParts entries) (name : Option String) :
    MagicFormatDetector.detect C ⟨name, output.bytes⟩ = .ok .ooxml ∧
      OoxmlDisarmer.disarm C.quickXml C.zip ⟨name, output.bytes⟩ policy =
        .ok { bytes := output.bytes, removed := [] } := by
  have hinner := OoxmlDisarmer.disarm_eq_ok.mp h
  refine ⟨?_, OoxmlDisarmer.disarm_eq_ok.mpr
    (Ooxml.disarmInner_again hC.writes hC.zip hC.reopens hinner hback)⟩
  obtain ⟨entries, st, hopen, hrun, hfinish, -⟩ := Ooxml.disarmInner_eq_ok hC.zip hinner
  obtain ⟨names, hnames, hmarker⟩ := marker_of_detect hdetect
  obtain rfl := Except.ok.inj (hnames.symm.trans (hC.fileNames hopen))
  have hwritten := Ooxml.marker_written hC.zip hrun hmarker
  have hne : st.written ≠ [] := by
    intro hnil
    rw [hnil] at hwritten
    cases hwritten
  exact detect_ooxml (hC.header hfinish hne) (hC.fileNames (hC.reopens hfinish)) hwritten

/-! ## The service -/

/-- The receipt for a clean file that is left alone. -/
def DisarmReceipt.unmodified (receipt : DisarmReceipt) : DisarmReceipt where
  clean := receipt.clean
  report :=
    { format := receipt.clean.format, originalSize := receipt.clean.bytes.length,
      sanitizedSize := receipt.clean.bytes.length, removed := [] }

/-- A service leaves a clean file alone when the disarmer does. -/
theorem execute_unmodified_iff {service : DisarmService} {request : DisarmRequest}
    {receipt : DisarmReceipt} {disarmer : Disarmer}
    (hdetect : service.detector.detect request.artifact = .ok receipt.clean.format)
    (hselect : service.select receipt.clean.format = some disarmer)
    (hbytes : request.artifact.bytes = receipt.clean.bytes) :
    service.execute request = .ok receipt.unmodified ↔
      disarmer.disarm request.artifact request.policy =
        .ok { bytes := receipt.clean.bytes, removed := [] } := by
  rw [execute_of_select hdetect hselect]
  rcases disarmer.disarm request.artifact request.policy with e | ⟨bytes, removed⟩
  · exact iff_of_false nofun nofun
  · rw [Exec.ok_bind, DisarmReceipt.unmodified, hbytes]
    refine ⟨fun h => ?_, fun h => ?_⟩
    · obtain ⟨hclean, hreport⟩ := DisarmReceipt.mk.inj (Except.ok.inj h)
      obtain rfl : removed = [] := (DisarmReport.mk.inj hreport).2.2.2
      rw [← hclean]
    · obtain ⟨rfl, rfl⟩ := DisarmOutput.mk.inj (Except.ok.inj h)
      rfl

/-- **A clean file goes through unmodified**: whatever the service returns for an image or an office
document, but for a JPEG file whose surviving tokens are not settled, it returns again when it is
asked to disarm that, and it reports that nothing was removed or modified. -/
theorem execute_again (w : Width) (C : Crates) (hC : C.ReadBack) (request : DisarmRequest)
    (receipt : DisarmReceipt) (hfit : w.Fits request.artifact.bytes.length)
    (h : (service w C).execute request = .ok receipt) (hpdf : receipt.clean.format ≠ .pdf)
    (hback : ∀ entries, C.zip.openArchive request.artifact.bytes = .ok (entries.map Except.ok) →
      C.quickXml.RereadsParts entries) (name : Option String) :
    (service w C).execute ⟨⟨name, receipt.clean.bytes⟩, request.policy⟩ = .ok receipt.unmodified ↔
      (receipt.clean.format = .jpeg → ∀ ts trailing,
        Jpeg.Marked request.artifact.bytes ts trailing →
        Jpeg.Settled request.policy false (Jpeg.survivors request.policy ts)) := by
  obtain ⟨format, disarmer, output, hdetect, hselect, hdisarm, hclean, -⟩ :=
    DisarmService.execute_eq_ok h
  obtain ⟨⟨format', bytes⟩, report⟩ := receipt
  obtain ⟨rfl, rfl⟩ := CleanArtifact.mk.inj hclean
  dsimp only at hpdf ⊢
  cases format' with
  | jpeg =>
    obtain rfl : JpegDisarmer.new w = disarmer := Option.some.inj hselect
    obtain ⟨ts, trailing, hm, rfl⟩ := (Jpeg.disarm_eq_ok hfit).mp hdisarm
    rw [execute_unmodified_iff (detect_jpeg (Jpeg.prefix_rebuild hm)) hselect rfl]
    refine (Jpeg.disarm_again_iff hm hfit name).trans ⟨fun hsettled _ us left hm' => ?_, ?_⟩
    · obtain ⟨rfl, -⟩ := hm.unique hm'
      exact hsettled
    · intro hsettled
      exact hsettled rfl ts trailing hm
  | png =>
    refine iff_of_true ?_ nofun
    obtain rfl : PngDisarmer.new w = disarmer := Option.some.inj hselect
    obtain ⟨hsignature, hagain⟩ := PngDisarmer.disarm_again hfit hdisarm name
    exact (execute_unmodified_iff (detect_png hsignature) hselect rfl).mpr hagain
  | pdf => exact absurd rfl hpdf
  | zip =>
    obtain rfl : ZipDisarmer.new = disarmer := Option.some.inj hselect
    cases hdisarm
  | ooxml =>
    refine iff_of_true ?_ nofun
    obtain rfl : OoxmlDisarmer.new C = disarmer := Option.some.inj hselect
    obtain ⟨hdetect', hagain⟩ :=
      OoxmlDisarmer.disarm_again hC request.policy hdetect hdisarm hback name
    exact (execute_unmodified_iff hdetect' hselect rfl).mpr hagain
  | unknown => cases hselect

/-- An office document with a macro project. -/
def macroEntries : List Ooxml.ZipEntry :=
  [{ name := "[Content_Types].xml", size := 1, data := [0x3C], failure := none,
     rest := Ooxml.stored },
    { name := "word/vbaProject.bin", size := 2, data := [0x4D, 0x5A], failure := none,
      rest := Ooxml.stored }]

/-- What is left of it. -/
def markerEntries : List Ooxml.ZipEntry := macroEntries.take 1

/-- The files of the two. -/
def macroFile : List UInt8 := Ooxml.writeArchive macroEntries

/-- What is left of `macroFile`, as it is written. -/
def markerFile : List UInt8 := Ooxml.writeArchive markerEntries

example : markerFile =
    [0x50, 0x4B, 0x03, 0x04] ++ [10, 0, 0, 0, 0, 0, 0, 0, 0x21, 0] ++
      [0x0A, 0x93, 0x6D, 0xFD, 1, 0, 0, 0, 1, 0, 0, 0, 19, 0, 0, 0] ++
      ascii "[Content_Types].xml" ++ ascii "<" ++
    [0x50, 0x4B, 0x01, 0x02] ++ [10, 3, 10, 0, 0, 0, 0, 0, 0, 0, 0x21, 0] ++
      [0x0A, 0x93, 0x6D, 0xFD, 1, 0, 0, 0, 1, 0, 0, 0, 19, 0, 0, 0] ++
      [0, 0, 0, 0, 0, 0, 0, 0, 0xA4, 0x81, 0, 0, 0, 0] ++ ascii "[Content_Types].xml" ++
    [0x50, 0x4B, 0x05, 0x06] ++ [0, 0, 0, 0, 1, 0, 1, 0, 65, 0, 0, 0, 50, 0, 0, 0, 0, 0] := by
  decide +kernel

/-- The two files of the sample differ, so each is read back as itself. -/
theorem writes_inj : ∀ entries ∈ [macroEntries, markerEntries],
    ∀ other ∈ [macroEntries, markerEntries],
      Ooxml.writeArchive other = Ooxml.writeArchive entries → other = entries := by
  decide +kernel

/-- A library that knows the two archives. -/
noncomputable def macroCrates : Crates :=
  { sampleCrates with
    zip := .ofArchives [macroEntries, markerEntries]
    fileNames := fun data =>
      List.map Ooxml.ZipEntry.name <$> Ooxml.readArchive [macroEntries, markerEntries] data }

/-- The ZIP crate of the sample reads back what it has written. -/
theorem macroCrates_readBack : macroCrates.ReadBack where
  writes _ _ := rfl
  zip := @Ooxml.ZipCrate.ofArchives_lawful [macroEntries, markerEntries]
  reopens {written out} h := by
    obtain ⟨hmem, rfl⟩ := Ooxml.ZipCrate.finish_ofArchives h
    exact Ooxml.ZipCrate.open_ofArchives.mpr
      (Ooxml.readArchive_writeArchive hmem (writes_inj written hmem))
  fileNames {data entries} h := by
    have hread := Ooxml.ZipCrate.open_ofArchives.mp h
    change List.map _ <$> Ooxml.readArchive _ _ = _
    rw [hread]
    rfl
  header {written out} h hne := by
    obtain ⟨-, rfl⟩ := Ooxml.ZipCrate.finish_ofArchives h
    exact Ooxml.writeArchive_prefix hne

/-- The macro project is taken out of the file of that document. -/
theorem macroEntries_disarm {data : List UInt8}
    (hopen : macroCrates.zip.openArchive data = .ok (macroEntries.map Except.ok)) :
    ∃ item, (OoxmlDisarmer.new macroCrates).disarm (.new data) .strict =
      .ok { bytes := markerFile, removed := [item] } := by
  have hentries : ∃ item, Ooxml.disarmEntries macroCrates.quickXml macroCrates.zip 0
      (macroEntries.map Except.ok) { written := [], removed := [] } =
        .ok { written := markerEntries, removed := [item] } := ⟨_, rfl⟩
  obtain ⟨item, hentries⟩ := hentries
  refine ⟨item, (@OoxmlDisarmer.disarm_eq_ok macroCrates.quickXml macroCrates.zip (.new data)
    .strict _).mpr ?_⟩
  refine Exec.bind_eq_ok.mpr ⟨_, Exec.mapErr_eq_ok.mpr hopen, ?_⟩
  exact Exec.bind_eq_ok.mpr ⟨_, hentries, rfl⟩

/-- The macro project goes, and then nothing more does. -/
theorem execute_again_sample :
    ∃ receipt, (service .w64 macroCrates).execute (.strict (.new macroFile)) = .ok receipt ∧
      receipt.clean = { format := .ooxml, bytes := markerFile } ∧
      (service .w64 macroCrates).execute (.strict (.new markerFile)) = .ok receipt.unmodified := by
  have hread := Ooxml.readArchive_writeArchive List.mem_cons_self
    (writes_inj macroEntries List.mem_cons_self)
  have hopen := Ooxml.ZipCrate.open_ofArchives.mpr hread
  have hdetect : MagicFormatDetector.detect macroCrates (.new macroFile) = .ok .ooxml :=
    detect_ooxml (Ooxml.writeArchive_prefix (List.cons_ne_nil _ _))
      (macroCrates_readBack.fileNames hopen) List.mem_cons_self
  obtain ⟨item, hdisarm⟩ := macroEntries_disarm hopen
  have hrun := @execute_of_disarm (service .w64 macroCrates) (.strict (.new macroFile)) _
    (OoxmlDisarmer.new macroCrates) _ hdetect rfl hdisarm
  refine ⟨_, hrun, rfl, (execute_again .w64 macroCrates macroCrates_readBack _ _ (by decide +kernel)
    hrun nofun ?_ none).mpr nofun⟩
  intro entries hopen' entry hentry hrewrite
  have hread' : Ooxml.readArchive [macroEntries, markerEntries] macroFile = .ok entries :=
    Ooxml.ZipCrate.open_ofArchives.mp hopen'
  obtain rfl : macroEntries = entries := Except.ok.inj (hread.symm.trans hread')
  simp only [macroEntries, List.mem_cons, List.not_mem_nil, or_false] at hentry
  rcases hentry with rfl | rfl
  · cases hrewrite
  · cases hrewrite

end Purgo
