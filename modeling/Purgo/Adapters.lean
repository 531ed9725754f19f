import Purgo.Lib.Files
import Purgo.Ooxml
import Purgo.PdfActions
import Purgo.Verdict

/-!
# The adapters, composed

The detector, the five disarmers and the signer, as the command line puts them together. The crates
they call are parameters, gathered in `Crates`.
-/

namespace Purgo

open Rust

/-- What the adapters use of `ed25519_dalek`: seeds and public keys are 32 bytes, signatures 64. -/
structure Ed25519 where
  /-- `SigningKey::verifying_key` -/
  verifyingKey : Vector UInt8 32 → Vector UInt8 32
  /-- `SigningKey::sign` -/
  sign : Vector UInt8 32 → List UInt8 → Vector UInt8 64

/-- The crates the adapters call. -/
structure Crates where
  lopdf : Pdf.Lopdf
  quickXml : Ooxml.QuickXml
  zip : Ooxml.ZipCrate
  /-- `ZipArchive::new`, then `file_names` -/
  fileNames : List UInt8 → Exec String (List String)
  ed25519 : Ed25519

/-- What the writers of the crates begin a file with. -/
structure Crates.Headers (C : Crates) : Prop where
  pdf : ∀ {doc : Pdf.Document} {out : List UInt8}, C.lopdf.saveTo doc = .ok out →
    ascii "%PDF-" <+: out
  zip : ∀ {written : List Ooxml.ZipEntry} {out : List UInt8}, C.zip.finish written = .ok out →
    [0x50, 0x4B] <+: out

variable (w : Width) (C : Crates)

/-! ## The detector -/

/-- The entry by which a ZIP archive is told to be an Office document. -/
def ooxmlMarker : String := "[Content_Types].xml"

/-- `is_ooxml`. -/
def isOoxml (bytes : List UInt8) : Exec Empty Bool :=
  match C.fileNames bytes with
  | .ok names => .ok (names.contains ooxmlMarker)
  | .error (.error _) => .ok false
  | .error .panic => .error .panic
  | .error .outOfFuel => .error .outOfFuel

/-- `MagicFormatDetector::detect`. -/
def MagicFormatDetector.detect (artifact : Artifact) : Exec Empty FileFormat := do
  let bytes := artifact.bytes
  if [0xFF, 0xD8, 0xFF] <+: bytes then
    return .jpeg
  else if Png.signature <+: bytes then
    return .png
  else if ascii "%PDF-" <+: bytes then
    return .pdf
  else if [0x50, 0x4B, 0x03, 0x04] <+: bytes then
    if ← isOoxml C bytes then
      return .ooxml
    else
      return .zip
  else
    return .unknown

/-! ## The disarmers -/

/-- The PDF disarmer, over the `lopdf` it is given. -/
def PdfDisarmer.new : Disarmer := { format := .pdf, disarm := PdfDisarmer.disarm C.lopdf }

/-- The Office disarmer, over the XML and the ZIP crate it is given. -/
def OoxmlDisarmer.new : Disarmer :=
  { format := .ooxml, disarm := OoxmlDisarmer.disarm C.quickXml C.zip }

/-- `ZipDisarmer`: an archive that is no office document is refused. -/
def ZipDisarmer.new : Disarmer where
  format := .zip
  disarm _ _ := Exec.fail (.policyViolation ("bare ZIP archives are not disarmable: a generic " ++
    "ZIP can nest arbitrary, non-rebuildable content. Only recognised office documents (OOXML: " ++
    ".docx/.xlsx/.pptx) are accepted."))

/-- The disarmers `build_service` registers, in its order. -/
def disarmers : List Disarmer :=
  [JpegDisarmer.new w, PngDisarmer.new w, PdfDisarmer.new C, OoxmlDisarmer.new C, ZipDisarmer.new]

/-- `build_service`. -/
def buildService : Exec DomainError DisarmService :=
  DisarmService.new { detect := MagicFormatDetector.detect C } (disarmers w C)

/-! ## The signer -/

/-- `SEED_LEN`: the bytes of a key file, neither more nor fewer. -/
def seedLen : Nat := 32

/-- `Ed25519Signer`. -/
def Ed25519Signer.fromSeed (E : Ed25519) (seed : Vector UInt8 32) : Signer where
  sign bytes := .ok { bytes := (E.sign seed bytes).toList }
  publicKey := { bytes := (E.verifyingKey seed).toList }

variable (outcomes : Nat → Outcome)

/-- `Ed25519Signer::from_seed_file`. -/
def Ed25519Signer.fromSeedFile (path : Path) : Session DomainError Signer := do
  let raw ← (readFile w outcomes path).mapErr
    fun e => .signingFailed s!"cannot read key file {path}: {e}"
  if h : raw.length = seedLen then
    return Ed25519Signer.fromSeed C.ed25519 ⟨raw.toArray, h⟩
  else
    let length := raw.length
    Session.lift (Exec.fail (.signingFailed
      s!"key file {path} must be exactly {seedLen} bytes, got {length}"))

/-! ## What the disarmers write -/

variable {w : Width} {C : Crates}

/-- No file that the disarmer writes begins with the byte. -/
def Disarmer.Avoids (w : Width) (disarmer : Disarmer) (b : UInt8) : Prop :=
  ∀ artifact policy output, w.Fits artifact.bytes.length →
    disarmer.disarm artifact policy = .ok output → output.bytes.head? ≠ some b

open Jpeg in
/-- A rebuilt JPEG file begins with `0xFF`, so it cannot be taken for JSON. -/
theorem JpegDisarmer.avoids (w : Width) : (JpegDisarmer.new w).Avoids w 0x7B := by
  intro artifact policy output hfit h
  obtain ⟨ts, trailing, -, rfl⟩ := (disarm_eq_ok hfit).mp h
  simp [rebuild]

open Png in
theorem PngDisarmer.avoids (w : Width) : (PngDisarmer.new w).Avoids w 0x7B := by
  intro artifact policy output hfit h
  obtain ⟨cs, trailing, -, rfl⟩ := pngDisarm_eq_ok hfit h
  simp [signature]

/-- A rebuilt PDF file begins with what `lopdf` writes first. -/
theorem PdfDisarmer.avoids (w : Width) (hC : C.Headers) : (PdfDisarmer.new C).Avoids w 0x7B := by
  intro artifact policy output _ h
  change PdfDisarmer.disarm C.lopdf artifact policy = _ at h
  rw [PdfDisarmer.disarm] at h
  split at h
  · cases h
  obtain ⟨doc, rebuilt, -, -, hsave⟩ := Pdf.disarmInner_eq_ok.mp h
  obtain ⟨rest, hrest⟩ := hC.pdf hsave
  rw [← hrest]
  simp [ascii]

theorem OoxmlDisarmer.avoids (w : Width) (hC : C.Headers) :
    (OoxmlDisarmer.new C).Avoids w 0x7B := by
  intro artifact policy output _ h
  change OoxmlDisarmer.disarm C.quickXml C.zip artifact policy = _ at h
  rw [OoxmlDisarmer.disarm] at h
  split at h
  · cases h
  obtain ⟨archive, -, h⟩ := Exec.bind_eq_ok.mp h
  obtain ⟨st, -, h⟩ := Exec.bind_eq_ok.mp h
  obtain ⟨bytes, hfinish, h⟩ := Exec.bind_eq_ok.mp h
  obtain rfl := (Except.ok.inj h).symm
  obtain ⟨rest, hrest⟩ := hC.zip (Exec.mapErr_eq_ok.mp hfinish)
  rw [← hrest]
  simp

/-- No registered disarmer returns a file that begins like a JSON object, which is what tells the
clean file from the report. -/
theorem disarmers_avoid (hC : C.Headers) : ∀ disarmer ∈ disarmers w C, disarmer.Avoids w 0x7B := by
  intro disarmer hmem
  simp only [disarmers, List.mem_cons, List.not_mem_nil, or_false] at hmem
  rcases hmem with rfl | rfl | rfl | rfl | rfl
  · exact JpegDisarmer.avoids w
  · exact PngDisarmer.avoids w
  · exact PdfDisarmer.avoids w hC
  · exact OoxmlDisarmer.avoids w hC
  · intro artifact policy output _ h
    cases h

end Purgo
