import Purgo.Contract

/-!
# The HTTP service

One route takes a file and returns the rebuilt file, with the report in its headers. The headers
are built with `header_value`, which leaves a value empty rather than fail; since every value of a
report can be written in a header, none is ever left empty, and the report can be read back from
them (`readSummary_reportHeaders`).

An error is told by its status and its text. `status_for` has a status for a failure of the server,
but no run of the service ends with the error it stands for (`route_answers`).
-/

namespace Purgo

open Rust

namespace Http

/-- The status of a response, as its number. -/
abbrev StatusCode := Nat

namespace StatusCode

/-- The clean file follows. -/
def ok : StatusCode := 200
/-- The body is over the limit. -/
def payloadTooLarge : StatusCode := 413
/-- No disarmer is registered for the format. -/
def unsupportedMediaType : StatusCode := 415
/-- The file is refused. -/
def unprocessableEntity : StatusCode := 422
/-- The server is at fault; this route never answers so. -/
def internalServerError : StatusCode := 500

end StatusCode

/-- The values of the headers, under their names. -/
abbrev HeaderMap := List (String × List UInt8)

/-- `HeaderMap::insert`: a value that is there is replaced. -/
def HeaderMap.insert (headers : HeaderMap) (name : String) (value : List UInt8) : HeaderMap :=
  headers.filter (fun header => header.1 != name) ++ [(name, value)]

/-- What the client gets. -/
structure Response where
  status : StatusCode
  headers : HeaderMap
  body : List UInt8
  deriving DecidableEq, Repr

/-- What the service uses of `axum` and `http`. -/
structure Axum where
  /-- `HeaderValue::from_str` -/
  fromStr : String → Option (List UInt8)
  /-- the headers that `into_response` gives to bytes -/
  bytesHeaders : HeaderMap
  /-- the headers that `into_response` gives to a text -/
  textHeaders : HeaderMap
  /-- what is answered for a body that is longer than the limit -/
  lengthLimit : Response

variable (A : Axum)

/-! ## The handler -/

/-- `MAX_BODY_BYTES`. -/
def maxBodyBytes : Nat := 32 * 1024 * 1024

/-- The format that was detected. -/
def headerFormat : String := "x-purgo-format"
/-- How many items were taken out. What they are is not in the headers. -/
def headerRemovedCount : String := "x-purgo-removed-count"
/-- The size of the file that was sent. -/
def headerOriginalSize : String := "x-purgo-original-size"
/-- The size of the file that is returned. -/
def headerSanitizedSize : String := "x-purgo-sanitized-size"
/-- The verdict of the report. -/
def headerModified : String := "x-purgo-modified"

/-- `header_value`. -/
def headerValue (raw : String) : List UInt8 := (A.fromStr raw).getD []

/-- `report_headers`. -/
def reportHeaders (report : DisarmReport) (clean : List UInt8) : Response where
  status := StatusCode.ok
  headers := HeaderMap.insert (HeaderMap.insert (HeaderMap.insert (HeaderMap.insert
    (HeaderMap.insert A.bytesHeaders
      headerFormat (headerValue A report.format.asStr))
      headerRemovedCount (headerValue A (toString report.removed.length)))
      headerOriginalSize (headerValue A (toString report.originalSize)))
      headerSanitizedSize (headerValue A (toString report.sanitizedSize)))
      headerModified (headerValue A (if report.isModified then "true" else "false"))
  body := clean

/-- `status_for`. -/
def statusFor : DomainError → StatusCode
  | .unsupportedFormat _ => StatusCode.unsupportedMediaType
  | .malformedInput _ _ => StatusCode.unprocessableEntity
  | .policyViolation _ => StatusCode.unprocessableEntity
  | .signingFailed _ => StatusCode.internalServerError
  | _ => StatusCode.unprocessableEntity

/-- `disarm`. A panic of the use case is not caught. -/
def disarm (execute : DisarmRequest → Exec DomainError DisarmReceipt) (body : List UInt8) :
    Exec Empty Response :=
  match execute (.strict (.new body)) with
  | .ok receipt => .ok (reportHeaders A receipt.report receipt.clean.bytes)
  | .error (.error err) =>
    .ok { status := statusFor err, headers := A.textHeaders, body := asBytes err.display }
  | .error .panic => .error .panic
  | .error .outOfFuel => .error .outOfFuel

/-- `POST /disarm`, behind the limit on the body. -/
def route (w : Width) (C : Crates) (body : List UInt8) : Exec Empty Response :=
  if body.length > maxBodyBytes then .ok A.lengthLimit else disarm A (service w C).execute body

/-! ## Reading a response -/

/-- What the headers say of a report. -/
structure Summary where
  format : FileFormat
  removedCount : Nat
  originalSize : Nat
  sanitizedSize : Nat
  isModified : Bool
  deriving DecidableEq, Repr

/-- The part of a report that fits into the headers. -/
def summary (report : DisarmReport) : Summary where
  format := report.format
  removedCount := report.removed.length
  originalSize := report.originalSize
  sanitizedSize := report.sanitizedSize
  isModified := report.isModified

/-- A format by its name. -/
def readFormat (text : String) : Option FileFormat :=
  [.jpeg, .png, .pdf, .zip, .ooxml, .unknown].find? fun format => format.asStr == text

/-- A number, if the text is its decimal digits. -/
def readNumber (text : String) : Option Nat :=
  let n := Nat.ofDigitChars 10 text.toList 0
  if toString n = text then some n else none

/-- A Boolean, as it is displayed. -/
def readBool (text : String) : Option Bool :=
  if text = "true" then some true else if text = "false" then some false else none

/-- The text of a header. -/
def readText (headers : HeaderMap) (name : String) : Option String :=
  (headers.lookup name).bind fromUtf8

/-- What a client reads in the headers. -/
def readSummary (headers : HeaderMap) : Option Summary := do
  let format ← (readText headers headerFormat).bind readFormat
  let removedCount ← (readText headers headerRemovedCount).bind readNumber
  let originalSize ← (readText headers headerOriginalSize).bind readNumber
  let sanitizedSize ← (readText headers headerSanitizedSize).bind readNumber
  let isModified ← (readText headers headerModified).bind readBool
  return { format, removedCount, originalSize, sanitizedSize, isModified }

/-- The ASCII characters a header value may be made of. -/
def isVisible (c : Char) : Bool := 32 ≤ c.toNat && c.toNat < 127

/-- What the service relies on. -/
structure Axum.Lawful (A : Axum) : Prop where
  fromStr : ∀ {raw : String}, raw.toList.all isVisible → A.fromStr raw = some (asBytes raw)
  textHeaders : A.textHeaders.lookup headerFormat = none
  lengthLimit_status : A.lengthLimit.status = StatusCode.payloadTooLarge
  lengthLimit_headers : A.lengthLimit.headers.lookup headerFormat = none

/-! ## The headers -/

theorem HeaderMap.lookup_insert_self (headers : HeaderMap) (name : String) (value : List UInt8) :
    (headers.insert name value).lookup name = some value := by
  rw [HeaderMap.insert, List.lookup_append]
  have hnone : (headers.filter fun header => header.1 != name).lookup name = none := by
    rw [List.lookup_eq_none_iff]
    intro header hheader
    rw [List.mem_filter, bne_iff_ne] at hheader
    exact bne_iff_ne.mpr hheader.2.symm
  rw [hnone, Option.none_or]
  simp

/-- Inserting a header leaves those of other names as they were. -/
theorem HeaderMap.lookup_insert_of_ne (headers : HeaderMap) {name name' : String}
    (h : name ≠ name') (value : List UInt8) :
    (headers.insert name' value).lookup name = headers.lookup name := by
  have hlast : List.lookup name [(name', value)] = none := by simp [h]
  rw [HeaderMap.insert, List.lookup_append, hlast, Option.or_none]
  induction headers with
  | nil => rfl
  | cons header headers ih =>
    obtain ⟨name₀, value₀⟩ := header
    rw [List.filter_cons]
    split_ifs with hkept
    · rw [List.lookup_cons, List.lookup_cons, ih]
    · have hsame : name₀ = name' := by simpa using hkept
      rw [ih, List.lookup_cons, hsame, beq_eq_false_iff_ne.mpr h]

variable {A}

/-- Formats have names of their own, so a name is read back. -/
theorem readFormat_asStr (format : FileFormat) : readFormat format.asStr = some format := by
  cases format <;> decide

theorem readNumber_toString (n : Nat) : readNumber (toString n) = some n := by
  have hdigits : (toString n).toList = Nat.toDigits 10 n := Nat.toList_repr
  rw [readNumber, hdigits, Nat.ofDigitChars_ten_toDigits]
  exact if_pos rfl

/-- Digits may stand in a header. -/
theorem visible_toString (n : Nat) : (toString n).toList.all isVisible := by
  refine List.all_eq_true.mpr fun c hc => ?_
  have hdigits : (toString n).toList = Nat.toDigits 10 n := Nat.toList_repr
  rw [hdigits] at hc
  have hdigit := Nat.isDigit_of_mem_toDigits (b := 10) (by decide) (by decide) hc
  rw [Char.isDigit, Bool.and_eq_true, decide_eq_true_iff, decide_eq_true_iff] at hdigit
  have hlow : 48 ≤ c.toNat := hdigit.1
  have hhigh : c.toNat ≤ 57 := hdigit.2
  rw [isVisible, Bool.and_eq_true, decide_eq_true_iff, decide_eq_true_iff]
  exact ⟨by omega, by omega⟩

theorem visible_asStr (format : FileFormat) : format.asStr.toList.all isVisible := by
  cases format <;> decide

/-- The text of a header that has been inserted last. -/
theorem readText_insert_self (hA : A.Lawful) (headers : HeaderMap) (name : String) {raw : String}
    (hraw : raw.toList.all isVisible) :
    readText (headers.insert name (headerValue A raw)) name = some raw := by
  rw [readText, HeaderMap.lookup_insert_self, headerValue, hA.fromStr hraw]
  exact fromUtf8_asBytes raw

/-- Inserting a header leaves the text of the others as it was. -/
theorem readText_insert_of_ne (headers : HeaderMap) {name name' : String} (h : name ≠ name')
    (value : List UInt8) : readText (headers.insert name' value) name = readText headers name := by
  rw [readText, HeaderMap.lookup_insert_of_ne headers h, readText]

/-- **The headers tell the report.** -/
theorem readSummary_reportHeaders (hA : A.Lawful) (report : DisarmReport) (clean : List UInt8) :
    readSummary (reportHeaders A report clean).headers = some (summary report) := by
  have hbool : ∀ b : Bool, (if b then "true" else "false").toList.all isVisible ∧
      readBool (if b then "true" else "false") = some b := by decide
  have hmodified : readText (reportHeaders A report clean).headers headerModified =
      some (if report.isModified then "true" else "false") :=
    readText_insert_self hA _ _ (hbool _).1
  have hsanitized : readText (reportHeaders A report clean).headers headerSanitizedSize =
      some (toString report.sanitizedSize) :=
    (readText_insert_of_ne _ (by decide) _).trans
      (readText_insert_self hA _ _ (visible_toString _))
  have horiginal : readText (reportHeaders A report clean).headers headerOriginalSize =
      some (toString report.originalSize) :=
    (readText_insert_of_ne _ (by decide) _).trans ((readText_insert_of_ne _ (by decide) _).trans
      (readText_insert_self hA _ _ (visible_toString _)))
  have hcount : readText (reportHeaders A report clean).headers headerRemovedCount =
      some (toString report.removed.length) :=
    (readText_insert_of_ne _ (by decide) _).trans ((readText_insert_of_ne _ (by decide) _).trans
      ((readText_insert_of_ne _ (by decide) _).trans
        (readText_insert_self hA _ _ (visible_toString _))))
  have hformat : readText (reportHeaders A report clean).headers headerFormat =
      some report.format.asStr :=
    (readText_insert_of_ne _ (by decide) _).trans ((readText_insert_of_ne _ (by decide) _).trans
      ((readText_insert_of_ne _ (by decide) _).trans ((readText_insert_of_ne _ (by decide) _).trans
        (readText_insert_self hA _ _ (visible_asStr _)))))
  rw [readSummary, hmodified, hsanitized, horiginal, hcount, hformat]
  simp only [Option.bind_some, readFormat_asStr, readNumber_toString, (hbool _).2]
  rfl

/-- A body within the limit fits into memory. -/
theorem fits_of_le (w : Width) {body : List UInt8} (h : body.length ≤ maxBodyBytes) :
    w.Fits body.length := by
  have hmax : maxBodyBytes = 33554432 := rfl
  cases w with
  | unbounded => trivial
  | w32 =>
    change body.length < 2 ^ 31
    omega
  | w64 =>
    change body.length < 2 ^ 63
    omega

/-- A file that its disarmer refuses is answered with 422. -/
theorem statusFor_refusal {format : FileFormat} {e : DomainError} (h : format.Refusal e) :
    statusFor e = StatusCode.unprocessableEntity := by
  cases format with
  | zip =>
    obtain ⟨reason, rfl⟩ := h
    rfl
  | _ =>
    obtain ⟨reason, rfl⟩ := h
    rfl

/-- A response without the format has no summary, so an error is not taken for a clean file. -/
theorem readSummary_of_lookup {headers : HeaderMap} (h : headers.lookup headerFormat = none) :
    readSummary headers = none := by
  rw [readSummary, readText, h]
  rfl

/-! ## The route -/

/-- What the route answers, with the status for each way in which the service ends. -/
inductive Answer (A : Axum) (w : Width) (C : Crates) (body : List UInt8) : Response → Prop where
  /-- the body is not read -/
  | tooLarge : maxBodyBytes < body.length → Answer A w C body A.lengthLimit
  /-- the service knows no disarmer for the file -/
  | unsupported : body.length ≤ maxBodyBytes →
      MagicFormatDetector.detect C (.new body) = .ok .unknown →
      Answer A w C body
        { status := StatusCode.unsupportedMediaType, headers := A.textHeaders,
          body := asBytes (DomainError.unsupportedFormat .unknown).display }
  /-- a disarmer refuses the file -/
  | refused {format : FileFormat} {e : DomainError} : body.length ≤ maxBodyBytes →
      MagicFormatDetector.detect C (.new body) = .ok format → format ≠ .unknown →
      format.Refusal e → (service w C).execute (.strict (.new body)) = Exec.fail e →
      Answer A w C body
        { status := StatusCode.unprocessableEntity, headers := A.textHeaders,
          body := asBytes e.display }
  /-- the file has been rebuilt -/
  | clean {receipt : DisarmReceipt} {response : Response} : body.length ≤ maxBodyBytes →
      (service w C).execute (.strict (.new body)) = .ok receipt →
      response.status = StatusCode.ok → response.body = receipt.clean.bytes →
      readSummary response.headers = some (summary receipt.report) →
      Answer A w C body response

/-- **What the route answers**: a body over the limit, a file of no known format, a file that is
refused and a file that is rebuilt each have a status of their own, and a failure of the server is
not among them. Only the rebuilt file is returned, with headers that tell the report. When there is
no answer the detector has panicked with the library. -/
theorem route_answers (w : Width) (C : Crates) (A : Axum) (hL : C.lopdf.Lawful) (hC : C.Answer)
    (hA : A.Lawful) (body : List UInt8) :
    (∃ response, route A w C body = .ok response ∧ Answer A w C body response ∧
      (response.status = StatusCode.ok ↔ (readSummary response.headers).isSome) ∧
      response.status ≠ StatusCode.internalServerError) ∨
    (route A w C body = .error .panic ∧ [0x50, 0x4B, 0x03, 0x04] <+: body ∧
      C.fileNames body = .error .panic) := by
  rw [route]
  split_ifs with hlong
  · refine .inl ⟨A.lengthLimit, rfl, .tooLarge hlong, ?_, ?_⟩
    · rw [readSummary_of_lookup hA.lengthLimit_headers, hA.lengthLimit_status]
      decide
    · rw [hA.lengthLimit_status]
      decide
  have hle : body.length ≤ maxBodyBytes := Nat.le_of_not_lt hlong
  have hdistinct : StatusCode.unsupportedMediaType ≠ StatusCode.ok ∧
      StatusCode.unsupportedMediaType ≠ StatusCode.internalServerError ∧
      StatusCode.unprocessableEntity ≠ StatusCode.ok ∧
      StatusCode.unprocessableEntity ≠ StatusCode.internalServerError ∧
      StatusCode.ok ≠ StatusCode.internalServerError := by decide
  obtain ⟨hmedia, hmedia', hentity, hentity', hok⟩ := hdistinct
  have herror : ∀ status : StatusCode, ∀ text, status ≠ StatusCode.ok →
      let response : Response := { status := status, headers := A.textHeaders, body := text }
      (status = StatusCode.ok ↔ (readSummary response.headers).isSome) := by
    intro status text hstatus response
    rw [readSummary_of_lookup hA.textHeaders]
    exact iff_of_false hstatus (by simp)
  rw [disarm]
  have hfit : w.Fits (DisarmRequest.strict (.new body)).artifact.bytes.length := fits_of_le w hle
  rcases execute_cases hL hC hfit with
    ⟨hdetect, hrun⟩ | ⟨format, hdetect, hknown, ⟨e, hrun, hrefusal⟩ | ⟨receipt, hrun⟩⟩ |
      ⟨hrun, hzip, hpanic⟩
  · rw [hrun]
    exact .inl ⟨_, rfl, .unsupported hle hdetect, herror _ _ hmedia, hmedia'⟩
  · have hstatus := statusFor_refusal hrefusal
    rw [hrun]
    refine .inl ⟨_, rfl, ?_, ?_, ?_⟩
    · rw [hstatus]
      exact .refused hle hdetect hknown hrefusal hrun
    · rw [hstatus]
      exact herror _ _ hentity
    · rw [hstatus]
      exact hentity'
  · have hsummary := readSummary_reportHeaders hA receipt.report receipt.clean.bytes
    rw [hrun]
    refine .inl ⟨_, rfl, .clean hle hrun rfl rfl hsummary, ?_, hok⟩
    rw [hsummary]
    exact iff_of_true rfl rfl
  · rw [hrun]
    exact .inr ⟨rfl, hzip, hpanic⟩

/-- An `axum` that takes a header value as it is when it may. -/
def sampleAxum : Axum where
  fromStr raw := if raw.toList.all isVisible then some (asBytes raw) else none
  bytesHeaders := [("content-type", asBytes "application/octet-stream")]
  textHeaders := [("content-type", asBytes "text/plain; charset=utf-8")]
  lengthLimit :=
    { status := StatusCode.payloadTooLarge
      headers := [("content-type", asBytes "text/plain; charset=utf-8")]
      body := asBytes "length limit exceeded" }

/-- Headers made of visible characters are what the sample framework accepts. -/
theorem sampleAxum_lawful : sampleAxum.Lawful where
  fromStr hvisible := if_pos hvisible
  textHeaders := rfl
  lengthLimit_status := rfl
  lengthLimit_headers := rfl

/-- A PNG file is answered with the clean file, and with the report in the headers. -/
theorem route_answers_sample :
    ∃ response, route sampleAxum .w64 sampleCrates commentedPng = .ok response ∧
      Answer sampleAxum .w64 sampleCrates commentedPng response ∧
      response.status = StatusCode.ok ∧ response.body = samplePng ∧
      (readSummary response.headers).isSome := by
  have hrun : ∃ response, route sampleAxum .w64 sampleCrates commentedPng = .ok response ∧
      response.status = StatusCode.ok ∧ response.body = samplePng := ⟨_, rfl, rfl, rfl⟩
  obtain ⟨response, hrun, hstatus, hbody⟩ := hrun
  rcases route_answers .w64 sampleCrates sampleAxum sampleCrates_lawful
    sampleCrates_answer sampleAxum_lawful commentedPng with ⟨response', hroute, hanswer, hok, -⟩ |
      ⟨-, hzip, -⟩
  · obtain rfl := Except.ok.inj (hrun.symm.trans hroute)
    exact ⟨response, hrun, hanswer, hstatus, hbody, hok.mp hstatus⟩
  · exact absurd hzip (by decide)

end Http

end Purgo
