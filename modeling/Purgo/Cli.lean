import Purgo.Adapters
import Purgo.ReportJson

/-!
# The command line

`parse` reads the arguments and `run` does the work: it reads the input, disarms it, and writes up
to four files, the signature and the public key first, then the clean file, then the report.

All of `run` that comes before the first write depends on the files only through what it reads
(`Prepared`). The rest is a list of writes (`plan`).
-/

namespace Purgo

open Rust

/-! ## The arguments -/

/-- What the command line asks for. Paths are compared as they are written. -/
structure Args where
  input : Path
  output : Path
  report : Option Path
  sign : Option Path
  deriving DecidableEq, Repr

/-- What is wrong with the arguments, with the words that are displayed. -/
inductive ArgError where
  | help : ArgError
  | missing : String → ArgError
  | unexpected : String → ArgError
  deriving DecidableEq, Repr

/-- The variables of the loop of `parse`. -/
structure Parsed where
  input : Option Path
  output : Option Path
  report : Option Path
  sign : Option Path

/-- The loop of `parse`. -/
def parseArgs : List String → Parsed → Except ArgError Parsed
  | [], st => .ok st
  | arg :: rest, st =>
    if arg = "-h" ∨ arg = "--help" then
      .error .help
    else if arg = "-o" ∨ arg = "--output" then
      match rest with
      | [] => .error (.missing "--output value")
      | value :: rest => parseArgs rest { st with output := some value }
    else if arg = "-r" ∨ arg = "--report" then
      match rest with
      | [] => .error (.missing "--report value")
      | value :: rest => parseArgs rest { st with report := some value }
    else if arg = "-s" ∨ arg = "--sign" then
      match rest with
      | [] => .error (.missing "--sign value")
      | value :: rest => parseArgs rest { st with sign := some value }
    else if arg.toList.head? = some '-' then
      .error (.unexpected arg)
    else if st.input.isSome then
      .error (.unexpected arg)
    else
      parseArgs rest { st with input := some arg }

/-- `parse`. -/
def parse (args : List String) : Except ArgError Args := do
  let st ← parseArgs args { input := none, output := none, report := none, sign := none }
  match st.input, st.output with
  | none, _ => .error (.missing "input file")
  | some _, none => .error (.missing "--output")
  | some input, some output =>
    return { input := input, output := output, report := st.report, sign := st.sign }

/-- `sibling_path`. -/
def siblingPath (output : Path) (suffix : String) : Path := output ++ suffix

/-! ## The run -/

variable (w : Width) (C : Crates) (outcomes : Nat → Outcome)

/-- A file to be written, under the words its error has for it. -/
def outputFile (what : String) (path : Path) (bytes : List UInt8) : Commit where
  path := path
  bytes := bytes
  context e := s!"cannot write {what}{path}: {e}"

/-- `run_signed`. -/
def runSigned (args : Args) (request : DisarmRequest) (keyPath : Path) :
    Session String DisarmReceipt := do
  let signer ← (Ed25519Signer.fromSeedFile w C outcomes keyPath).mapErr DomainError.display
  let disarm ← (Session.lift (buildService w C)).mapErr DomainError.display
  let useCase : SigningDisarmService := { disarm := disarm.execute, signer := signer }
  let signed ← (Session.lift (useCase.executeSigned request)).mapErr DomainError.display
  let sigPath := siblingPath args.output ".sig"
  commit outcomes (outputFile "signature " sigPath signed.signature.bytes)
  let pubPath := siblingPath args.output ".pub"
  commit outcomes (outputFile "public key " pubPath signed.publicKey.bytes)
  return signed.receipt

/-- `write_outputs`. -/
def writeOutputs (args : Args) (receipt : DisarmReceipt) : Session String Unit := do
  commit outcomes (outputFile "" args.output receipt.clean.bytes)
  match args.report with
  | some reportPath =>
    commit outcomes (outputFile "report " reportPath (asBytes (reportToJson receipt.report)))
  | none => return ()

/-- `run`. What it prints is left out. -/
def run (args : Args) : Session String Unit := do
  let bytes ← (readFile w outcomes args.input).mapErr
    fun e => let input := args.input
      s!"cannot read {input}: {e}"
  let artifact := Artifact.named args.input bytes
  let request := DisarmRequest.strict artifact
  let receipt ← match args.sign with
    | some keyPath => runSigned w C outcomes args request keyPath
    | none => do
      let service ← (Session.lift (buildService w C)).mapErr DomainError.display
      (Session.lift (service.execute request)).mapErr DomainError.display
  writeOutputs outcomes args receipt

/-! ## What it computes and what it writes -/

/-- The service that `buildService` returns. -/
def service : DisarmService where
  detector := { detect := MagicFormatDetector.detect C }
  disarmers := disarmers w C
  distinct := by simp [disarmers, JpegDisarmer.new, PngDisarmer.new, PdfDisarmer.new,
    OoxmlDisarmer.new, ZipDisarmer.new]

/-- No two registered disarmers have one format, so `build_service` does not panic. -/
theorem buildService_eq : buildService w C = .ok (service w C) := by
  have hdistinct : (disarmers w C).Pairwise fun a b => a.format ≠ b.format :=
    (service w C).distinct
  rw [buildService, DisarmService.new, dif_pos hdistinct]
  rfl

/-- The run gets as far as its first write, with this receipt, and with this seed when it signs. -/
structure Prepared (args : Args) (files : FileSystem) (receipt : DisarmReceipt)
    (seed : Option (Vector UInt8 32)) : Prop where
  receipt : ∃ bytes, Reads w outcomes 0 files args.input bytes ∧
    (service w C).execute (.strict (.named args.input bytes)) = .ok receipt
  unsigned : args.sign = none → seed = none
  signed : ∀ keyPath, args.sign = some keyPath →
    ∃ key, seed = some key ∧ Reads w outcomes 1 files keyPath key.toList

/-- The files that hold the signature. -/
def signatureFiles (args : Args) (receipt : DisarmReceipt) (seed : Vector UInt8 32) :
    List Commit :=
  [outputFile "signature " (siblingPath args.output ".sig")
      (C.ed25519.sign seed receipt.clean.bytes).toList,
    outputFile "public key " (siblingPath args.output ".pub") (C.ed25519.verifyingKey seed).toList]

/-- The file that holds the report, if one is asked for. -/
def reportFile (args : Args) (receipt : DisarmReceipt) : List Commit :=
  args.report.toList.map fun path =>
    outputFile "report " path (asBytes (reportToJson receipt.report))

/-- The files that are written, in order. -/
def plan (args : Args) (receipt : DisarmReceipt) (seed : Option (Vector UInt8 32)) : List Commit :=
  seed.toList.flatMap (signatureFiles C args receipt) ++
    outputFile "" args.output receipt.clean.bytes :: reportFile args receipt

end Purgo
