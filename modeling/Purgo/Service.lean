import Purgo.Domain
import Purgo.Lib.Exec

/-!
# The use cases

`DisarmService` finds the disarmer for the format it detects and accounts for what that disarmer
did; `SigningDisarmService` signs the clean bytes afterwards. The detector, the disarmers and the
signer are ports: a service works with any of them, and with at most one disarmer for a format.
-/

namespace Purgo

open Rust

/-! ## Outbound ports -/

/-- A detector names a format for every file. It returns no error, but it may panic. -/
structure FormatDetector where
  detect : Artifact → Exec Empty FileFormat

/-- A disarmer rebuilds files of one format. It returns the rebuilt file with what was taken out, or
an error; the `Exec` is there for the panics of what it calls. -/
structure Disarmer where
  format : FileFormat
  disarm : Artifact → Policy → Exec DomainError DisarmOutput

/-- A signer may fail; its public key is there whether it does or not. -/
structure Signer where
  sign : List UInt8 → Except DomainError Signature
  publicKey : PublicKey

/-! ## Disarming -/

/-- The service, with no two disarmers for one format. -/
structure DisarmService where
  detector : FormatDetector
  disarmers : List Disarmer
  distinct : disarmers.Pairwise fun a b => a.format ≠ b.format

namespace DisarmService

/-- `DisarmService::new`: two disarmers for one format are a panic. -/
def new (detector : FormatDetector) (disarmers : List Disarmer) : Exec DomainError DisarmService :=
  if h : disarmers.Pairwise fun a b => a.format ≠ b.format then
    .ok { detector := detector, disarmers := disarmers, distinct := h }
  else
    .error .panic

variable (service : DisarmService)

/-- `DisarmService::select`: the disarmer for the format, if there is one. -/
def select (format : FileFormat) : Option Disarmer :=
  service.disarmers.find? fun d => d.format == format

/-- `DisarmService::execute`: the file is detected, the disarmer for its format runs, and the report
is made from the two sizes and from what the disarmer says it removed. -/
def execute (request : DisarmRequest) : Exec DomainError DisarmReceipt := do
  let { artifact, policy } := request
  let format ← (service.detector.detect artifact).mapErr Empty.elim
  match service.select format with
  | none => Exec.fail (.unsupportedFormat format)
  | some disarmer =>
    let originalSize := artifact.bytes.length
    let output ← disarmer.disarm artifact policy
    -- the format is the one detected, the sizes are those of the two files
    let report : DisarmReport :=
      { format := format, originalSize := originalSize, sanitizedSize := output.bytes.length,
        removed := output.removed }
    return { clean := { format := format, bytes := output.bytes }, report := report }

/-- The service disarms the file with the disarmer. -/
def Uses (artifact : Artifact) (disarmer : Disarmer) : Prop :=
  ∃ format, service.detector.detect artifact = .ok format ∧ service.select format = some disarmer

variable {service}

/-- What a successful disarming consists of. -/
theorem execute_eq_ok {request : DisarmRequest} {receipt : DisarmReceipt}
    (h : service.execute request = .ok receipt) :
    ∃ format disarmer output, service.detector.detect request.artifact = .ok format ∧
      service.select format = some disarmer ∧
      disarmer.disarm request.artifact request.policy = .ok output ∧
      receipt.clean = { format := format, bytes := output.bytes } ∧
      receipt.report =
        { format := format, originalSize := request.artifact.bytes.length,
          sanitizedSize := output.bytes.length, removed := output.removed } := by
  obtain ⟨format, hformat, h⟩ := Exec.bind_eq_ok.mp h
  cases hselect : service.select format with
  | none =>
    rw [hselect] at h
    cases h
  | some disarmer =>
    rw [hselect] at h
    obtain ⟨output, houtput, h⟩ := Exec.bind_eq_ok.mp h
    obtain rfl := (Except.ok.inj h).symm
    exact ⟨format, disarmer, output, Exec.mapErr_eq_ok.mp hformat, hselect, houtput, rfl, rfl⟩

end DisarmService

/-! ## Disarming and signing -/

/-- The service with a signer behind it. `disarm` is the `execute` of any service. -/
structure SigningDisarmService where
  disarm : DisarmRequest → Exec DomainError DisarmReceipt
  signer : Signer

/-- `SigningDisarmService::execute_signed`: nothing is signed unless it has been disarmed. -/
def SigningDisarmService.executeSigned (service : SigningDisarmService) (request : DisarmRequest) :
    Exec DomainError SignedReceipt := do
  let receipt ← service.disarm request
  let signature ← Exec.lift (service.signer.sign receipt.clean.bytes)
  let publicKey := service.signer.publicKey
  return { receipt, signature, publicKey }

end Purgo
