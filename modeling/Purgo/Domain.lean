/-!
# The domain model

Values the disarmers exchange with the application: formats, policies, what was removed and why,
the errors a disarmer may return, and the receipts of the use cases.
-/

namespace Purgo

/-- The formats a file can be taken for. Nothing is known of an `unknown` file, and no disarmer is
registered for it. -/
inductive FileFormat where
  | jpeg | png | pdf | zip | ooxml | unknown
  deriving DecidableEq, Repr

/-- The name of a format, which is also what is displayed of it. -/
def FileFormat.asStr : FileFormat → String
  | jpeg => "jpeg"
  | png => "png"
  | pdf => "pdf"
  | zip => "zip"
  | ooxml => "ooxml"
  | unknown => "unknown"

/-- Why an item is taken out of a file. -/
inductive ThreatClass where
  | activeContent | metadata | embeddedFile | externalReference
  deriving DecidableEq, Repr

/-- The name of a class of threats, as the report has it. -/
def ThreatClass.asStr : ThreatClass → String
  | activeContent => "active-content"
  | metadata => "metadata"
  | embeddedFile => "embedded-file"
  | externalReference => "external-reference"

/-- What a disarmer took out of a file. -/
structure RemovedItem where
  location : String
  threat : ThreatClass
  detail : String
  bytesRemoved : Nat
  deriving DecidableEq, Repr

/-- The errors of the use cases. Those of a disarmer name the format they are about; the last one is
the answer for every failure inside the sandbox. -/
inductive DomainError where
  | unsupportedFormat : FileFormat → DomainError
  | malformedInput : FileFormat → String → DomainError
  | policyViolation : String → DomainError
  | signingFailed : String → DomainError
  | sandboxFailure : String → DomainError
  deriving DecidableEq, Repr

/-- What is displayed of an error. -/
def DomainError.display : DomainError → String
  | unsupportedFormat format => s!"unsupported format: {format.asStr}"
  | malformedInput format reason => s!"malformed {format.asStr} input: {reason}"
  | policyViolation reason => s!"policy violation: {reason}"
  | signingFailed reason => s!"signing failed: {reason}"
  | sandboxFailure reason => s!"sandbox failure: {reason}"

/-- The error says that the file is not well formed. -/
def FileFormat.Blames (format : FileFormat) (e : DomainError) : Prop :=
  ∃ reason, e = .malformedInput format reason

/-- What the user asks for: whether metadata go, and whether a JPEG file keeps its JFIF header. -/
structure Policy where
  stripMetadata : Bool
  keepJfif : Bool
  deriving DecidableEq, Repr

namespace Policy

/-- The policy of the command line and of the server. -/
def strict : Policy := { stripMetadata := true, keepJfif := true }

end Policy

/-- A file at the trust boundary. -/
structure Artifact where
  name : Option String
  bytes : List UInt8
  deriving DecidableEq, Repr

namespace Artifact

/-- A file without a name, as the server gets it. -/
def new (bytes : List UInt8) : Artifact := { name := none, bytes := bytes }

/-- A file under the name the user gave. -/
def named (name : String) (bytes : List UInt8) : Artifact := { name := some name, bytes := bytes }

end Artifact

/-- What a disarmer returns: the rebuilt file and the items taken out. -/
structure DisarmOutput where
  bytes : List UInt8
  removed : List RemovedItem
  deriving DecidableEq, Repr

/-! ## What the application returns -/

/-- A rebuilt file. -/
structure CleanArtifact where
  format : FileFormat
  bytes : List UInt8
  deriving DecidableEq, Repr

/-- The account of one disarming. -/
structure DisarmReport where
  format : FileFormat
  originalSize : Nat
  sanitizedSize : Nat
  removed : List RemovedItem
  deriving DecidableEq, Repr

namespace DisarmReport

/-- The verdict of the report. -/
def isModified (report : DisarmReport) : Bool :=
  !report.removed.isEmpty || report.originalSize != report.sanitizedSize

end DisarmReport

/-- What `DisarmService` returns: the rebuilt file with its account. -/
structure DisarmReceipt where
  clean : CleanArtifact
  report : DisarmReport
  deriving DecidableEq, Repr

/-- A detached signature, which is over the clean bytes only. -/
structure Signature where
  bytes : List UInt8
  deriving DecidableEq, Repr

/-- The key a signature is checked with. -/
structure PublicKey where
  bytes : List UInt8
  deriving DecidableEq, Repr

/-- A receipt with the signature of its clean bytes and the key to check it. -/
structure SignedReceipt where
  receipt : DisarmReceipt
  signature : Signature
  publicKey : PublicKey
  deriving DecidableEq, Repr

/-- A file and what is to be done with it. -/
structure DisarmRequest where
  artifact : Artifact
  policy : Policy
  deriving DecidableEq, Repr

namespace DisarmRequest

/-- A request under the strict policy. -/
def strict (artifact : Artifact) : DisarmRequest := { artifact := artifact, policy := .strict }

end DisarmRequest

end Purgo
