import Purgo.CliWrites
import Purgo.JpegProgress
import Purgo.OoxmlRels
import Purgo.PdfDepth

/-!
# The contract of the disarmers

A disarmer returns a file, or it refuses the input with an error that names its format. Nothing a
library does gets out of it: the two disarmers that call libraries catch their panics, the other
two do not panic. So a service composed of them comes back whatever the file is, with one exception
(`execute_failClosed`): the detector opens a ZIP archive outside of any `catch_unwind`.

That the libraries come back at all is assumed of them (`Crates.Answer`).
-/

namespace Purgo

open Rust Threaded

/-! ## Libraries that come back -/

/-- Every call of the library comes back. -/
structure Pdf.Lopdf.Answer (L : Pdf.Lopdf) : Prop where
  loadMem : ∀ data, Answers (L.loadMem data)
  saveTo : ∀ doc, Answers (L.saveTo doc)

/-- Every call of the library comes back. -/
structure Ooxml.QuickXml.Answer (X : Ooxml.QuickXml) : Prop where
  readEvents : ∀ text, ∀ event ∈ X.readEvents text, Answers event
  writeEvent : ∀ written event, Answers (X.writeEvent written event)

/-- Every call of the library comes back, reading an entry included. -/
structure Ooxml.ZipCrate.Answer (Z : Ooxml.ZipCrate) : Prop where
  openArchive : ∀ data, Answers (Z.openArchive data)
  byIndex : ∀ {data archive}, Z.openArchive data = .ok archive → ∀ entry ∈ archive, Answers entry
  read : ∀ {data archive entry}, Z.openArchive data = .ok archive → .ok entry ∈ archive →
    entry.failure ≠ some .outOfFuel
  rawCopyFileRename : ∀ written entry name, Answers (Z.rawCopyFileRename written entry name)
  startFile : ∀ written name, Answers (Z.startFile written name)
  writeAll : ∀ written bytes, Answers (Z.writeAll written bytes)
  finish : ∀ written, Answers (Z.finish written)

/-- The libraries come back. -/
structure Crates.Answer (C : Crates) : Prop where
  lopdf : C.lopdf.Answer
  quickXml : C.quickXml.Answer
  zip : C.zip.Answer
  fileNames : ∀ bytes, Answers (C.fileNames bytes)

/-! ## Refusals -/

/-- The error is one of those a disarmer of the format refuses a file with. -/
def FileFormat.Refusal : FileFormat → DomainError → Prop
  | zip, e => ∃ reason, e = .policyViolation reason
  | format, e => format.Blames e

/-- A format without a disarmer is no refusal by one. -/
theorem FileFormat.not_refusal (format format' : FileFormat) :
    ¬ format.Refusal (.unsupportedFormat format') := by
  cases format <;> exact nofun

/-- The disarmer returns a file or refuses the input, and nothing else. -/
def Disarmer.FailsClosed (w : Width) (disarmer : Disarmer) : Prop :=
  ∀ artifact policy, w.Fits artifact.bytes.length →
    EndsIn (Fault.Errors disarmer.format.Refusal) (disarmer.disarm artifact policy)

variable {w : Width} {C : Crates}

open Jpeg in
/-- The JPEG disarmer only ever blames the file: the loops go on and their slices are in range. -/
theorem JpegDisarmer.failsClosed (w : Width) : (JpegDisarmer.new w).FailsClosed w := by
  intro artifact policy hfit
  change EndsIn _ (JpegDisarmer.disarm w artifact policy)
  rw [disarm_eq_lift hfit]
  exact .lift fun e he => disarmTokens_error he

theorem PngDisarmer.failsClosed (w : Width) : (PngDisarmer.new w).FailsClosed w := by
  intro artifact policy hfit
  change EndsIn _ (PngDisarmer.disarm w artifact policy)
  rw [PngDisarmer.disarm]
  dsimp only
  rw [disarmPng_eq_lift hfit]
  rcases disarmChunks artifact.bytes ⟨policy.stripMetadata⟩ with ⟨⟨reason⟩⟩ | r
  · exact .fail ⟨reason, rfl⟩
  · exact .ok _

/-! ## PDF -/

namespace Pdf

variable {L : Lopdf}

/-- An error of the rebuild is one of saving, which is put on the file. -/
theorem rebuild_error (hL : L.Lawful) (doc : LoadedDocument) {e : DomainError}
    (h : rebuild L doc.toDocument = .error e) : FileFormat.pdf.Blames e := by
  have hfails := sanitizeDocument_failsWhen hL doc.wellFormed
  rw [rebuild] at h
  by_cases hbad : ∃ visit ∈ doc.walk L, within visit = false
  · rw [hfails.1 hbad []] at h
    cases h
    exact ⟨_, rfl⟩
  · obtain ⟨sanitized, removed, hrun⟩ := hfails.2 hbad []
    rw [hrun] at h
    cases h

/-- All that happens inside the `catch_unwind` of the PDF disarmer: a file, an error that blames the
input, or a panic. -/
theorem disarmInner_endsIn (hL : L.Lawful) (hA : L.Answer) (data : List UInt8) :
    EndsIn (Fault.ErrorsOrPanic FileFormat.pdf.Blames) (disarmInner L data) := by
  refine ((hA.loadMem data).mapErr fun e _ => ⟨_, rfl⟩).bind fun doc _ => ?_
  refine (EndsIn.lift fun e he => rebuild_error hL doc he).bind fun ⟨rebuilt, removed⟩ _ => ?_
  exact ((hA.saveTo rebuilt).mapErr fun e _ => ⟨_, rfl⟩).bind fun out _ => .ok _

end Pdf

/-! ## OOXML -/

namespace Ooxml

variable {X : QuickXml} {Z : ZipCrate}

/-- An attribute that cannot be read is put on the document. -/
theorem seeAttribute_error {seen : Seen} {attr : Except String Attribute} {e : DomainError}
    (h : seeAttribute seen attr = .error e) : FileFormat.ooxml.Blames e := by
  rcases attr with reason | ⟨key, reason | value⟩
  · cases h
    exact ⟨_, rfl⟩
  · cases h
    exact ⟨_, rfl⟩
  · simp only [seeAttribute] at h
    split_ifs at h <;> cases h

/-- So is one among many, by induction on the attributes. -/
theorem seeAttributes_error {attributes : List (Except String Attribute)} {seen : Seen}
    {e : DomainError} (h : attributes.foldlM seeAttribute seen = .error e) :
    FileFormat.ooxml.Blames e := by
  induction attributes generalizing seen with
  | nil => cases h
  | cons attr attributes ih =>
    rw [List.foldlM_cons] at h
    cases hattr : seeAttribute seen attr with
    | error e' =>
      rw [hattr] at h
      cases h
      exact seeAttribute_error hattr
    | ok seen' =>
      rw [hattr] at h
      exact ih h

/-- A relationship is refused only for an attribute that cannot be read. -/
theorem classifyRelationship_error {tag : Tag} {e : DomainError}
    (h : classifyRelationship tag = .error e) : FileFormat.ooxml.Blames e := by
  rw [classifyRelationship] at h
  cases hseen : tag.attributes.foldlM seeAttribute ⟨false, "", ""⟩ with
  | error e' =>
    rw [hseen] at h
    cases h
    exact seeAttributes_error hseen
  | ok seen =>
    rw [hseen] at h
    simp only [bind, Except.bind] at h
    split_ifs at h <;> cases h

/-- Every event still to be read comes back. -/
def Readable (results : List (Exec String Event)) : Prop := ∀ event ∈ results, Answers event

/-- Skipping a dropped element ends as reading does. -/
theorem skipToEnd_endsIn (part : String) {results : List (Exec String Event)} (h : Readable results)
    (depth : Nat) :
    EndsIn (Fault.ErrorsOrPanic FileFormat.ooxml.Blames) (skipToEnd part depth results) := by
  induction results generalizing depth with
  | nil => exact .fail ⟨_, rfl⟩
  | cons event results ih =>
    have hrest : Readable results := fun e he => h e (List.mem_cons_of_mem _ he)
    refine ((h event List.mem_cons_self).mapErr fun e _ => ⟨_, rfl⟩).bind fun event _ => ?_
    cases event with
    | start tag => exact ih hrest _
    | empty tag => exact ih hrest _
    | other markup text => exact ih hrest _
    | stop name =>
      dsimp only
      split_ifs
      · exact .ok _
      · exact ih hrest _
      · exact ih hrest _

theorem reEmit_endsIn (hX : X.Answer) (part : String) (rest : List (Exec String Event))
    (event : Event) (st : RelsState) :
    EndsIn (Fault.ErrorsOrPanic FileFormat.ooxml.Blames) (reEmit X part rest event st) :=
  ((hX.writeEvent st.written event).mapErr fun _ _ => ⟨_, rfl⟩).bind fun _ _ => .ok _

/-- One round of the loop of `sanitize_rels` keeps to the errors of the format, or panics. -/
theorem relsRound_endsIn (hX : X.Answer) (part : String) {st : RelsState} (h : Readable st.rest) :
    EndsIn (Fault.ErrorsOrPanic FileFormat.ooxml.Blames) (relsRound X part st) := by
  rw [relsRound]
  cases hrest : st.rest with
  | nil => exact .ok _
  | cons event rest =>
    rw [hrest] at h
    refine ((h event List.mem_cons_self).mapErr fun e _ => ⟨_, rfl⟩).bind fun event _ => ?_
    cases event.relationship? with
    | none => exact reEmit_endsIn hX part rest event st
    | some tag =>
      refine (EndsIn.lift fun _ he => classifyRelationship_error he).bind fun verdict _ => ?_
      cases verdict with
      | none => exact reEmit_endsIn hX part rest event st
      | some found =>
        refine EndsIn.bind ?_ fun rest' _ => .ok _
        split_ifs
        · exact skipToEnd_endsIn part (fun e he => h e (List.mem_cons_of_mem _ he)) 1
        · exact .ok _

/-- A round that goes on has read an event. -/
theorem relsRound_next {part : String} {st st' : RelsState} (h : Readable st.rest)
    (hround : relsRound X part st = .ok (.next st')) :
    Readable st'.rest ∧ st'.rest.length < st.rest.length := by
  have htail : ∀ {event rest}, st.rest = event :: rest → Readable rest := by
    intro event rest hrest e he
    exact h e (by rw [hrest]; exact List.mem_cons_of_mem _ he)
  rcases relsRound_cases hround with ⟨-, hdone⟩ | ⟨event, rest, hrest, hcase⟩
  · cases hdone
  have hlen : st.rest.length = rest.length + 1 := by rw [hrest, List.length_cons]
  rcases hcase with ⟨-, hnext⟩ | ⟨tag, -, ⟨-, hnext⟩ | ⟨item, rest', -, -, -, hskip, hnext⟩⟩
  · cases hnext
    exact ⟨htail hrest, by dsimp only; omega⟩
  · cases hnext
    exact ⟨htail hrest, by dsimp only; omega⟩
  · obtain ⟨inner, rfl⟩ : ∃ inner : List Event, rest = inner.map Except.ok ++ rest' := by
      split_ifs at hskip
      · obtain ⟨inner, hinner, -⟩ := skipToEnd_eq_ok hskip
        exact ⟨inner, hinner⟩
      · exact ⟨[], Except.ok.inj hskip⟩
    cases hnext
    rw [List.length_append] at hlen
    exact ⟨fun e he => htail hrest e (List.mem_append_right _ he), by dsimp only; omega⟩

/-- The loop keeps to them as well, by the rule for loops that shrink what is left to read. -/
theorem sanitizeRels_endsIn (hX : X.Answer) (raw : List UInt8) (part : String) :
    EndsIn (Fault.ErrorsOrPanic FileFormat.ooxml.Blames) (sanitizeRels X raw part) := by
  rw [sanitizeRels]
  cases fromUtf8 raw with
  | none => exact .fail ⟨_, rfl⟩
  | some text =>
    refine EndsIn.bind ?_ fun st _ => .ok _
    exact endsIn_loop (fun st hst => relsRound_endsIn hX part hst)
      (fun st st' hst hround => relsRound_next hst hround) _ _ (hX.readEvents text)
      (Nat.lt_succ_self _)

/-! ### The archive -/

theorem readEntry_endsIn {byIndex : Exec String ZipEntry} (h : Answers byIndex)
    (hread : ∀ entry, byIndex = .ok entry → entry.failure ≠ some .outOfFuel) (name : String) :
    EndsIn (Fault.ErrorsOrPanic FileFormat.ooxml.Blames) (readEntry byIndex name) := by
  refine (h.mapErr fun e _ => ⟨_, rfl⟩).bind fun entry hentry => ?_
  have hdata : Answers (entry.readToEnd (maxRelsSize + 1)) := by
    rw [ZipEntry.readToEnd]
    split_ifs
    · exact .ok _
    · split
      · exact .ok _
      · rename_i fault hfault
        rintro f ⟨⟩
        rcases fault with e | _ | _
        · trivial
        · trivial
        · exact hread entry (Exec.mapErr_eq_ok.mp hentry) hfault
  refine (hdata.mapErr fun e _ => ⟨_, rfl⟩).bind fun buf _ => ?_
  split_ifs
  · exact .fail ⟨_, rfl⟩
  · exact .ok _

theorem disarmEntry_endsIn (hX : X.Answer) (hZ : Z.Answer) (i : Nat)
    {byIndex : Exec String ZipEntry} (h : Answers byIndex)
    (hread : ∀ entry, byIndex = .ok entry → entry.failure ≠ some .outOfFuel) (st : State) :
    EndsIn (Fault.ErrorsOrPanic FileFormat.ooxml.Blames) (disarmEntry X Z i byIndex st) := by
  have hopen : ∀ f : String → DomainError, (∀ e, FileFormat.ooxml.Blames (f e)) →
      EndsIn (Fault.ErrorsOrPanic FileFormat.ooxml.Blames) (byIndex.mapErr f) :=
    fun f hf => h.mapErr fun e _ => hf e
  have hcopy : ∀ entry name (f : String → DomainError), (∀ e, FileFormat.ooxml.Blames (f e)) →
      EndsIn (Fault.ErrorsOrPanic FileFormat.ooxml.Blames)
        ((Z.rawCopyFileRename st.written entry name).mapErr f) :=
    fun entry name f hf => (hZ.rawCopyFileRename _ entry name).mapErr fun e _ => hf e
  refine (hopen _ fun e => ⟨_, rfl⟩).bind fun entry _ => ?_
  split_ifs
  · refine (hopen _ fun e => ⟨_, rfl⟩).bind fun entry' _ => ?_
    exact (hcopy _ _ _ fun e => ⟨_, rfl⟩).bind fun _ _ => .ok _
  · dsimp only
    cases Ooxml.decide entry.name with
    | keep =>
      refine (hopen _ fun e => ⟨_, rfl⟩).bind fun entry' _ => ?_
      exact (hcopy _ _ _ fun e => ⟨_, rfl⟩).bind fun _ _ => .ok _
    | drop threat detail => exact (hopen _ fun e => ⟨_, rfl⟩).bind fun _ _ => .ok _
    | rewrite =>
      refine (readEntry_endsIn h hread entry.name).bind fun raw _ => ?_
      refine (sanitizeRels_endsIn hX raw entry.name).bind fun ⟨cleaned, dropped⟩ _ => ?_
      refine ((hZ.startFile _ _).mapErr fun e _ => ⟨_, rfl⟩).bind fun _ _ => ?_
      exact ((hZ.writeAll _ _).mapErr fun e _ => ⟨_, rfl⟩).bind fun _ _ => .ok _

theorem disarmEntries_endsIn (hX : X.Answer) (hZ : Z.Answer) {archive : List (Exec String ZipEntry)}
    (h : ∀ byIndex ∈ archive, Answers byIndex ∧
      ∀ entry, byIndex = .ok entry → entry.failure ≠ some .outOfFuel) (i : Nat) (st : State) :
    EndsIn (Fault.ErrorsOrPanic FileFormat.ooxml.Blames) (disarmEntries X Z i archive st) := by
  induction archive generalizing i st with
  | nil => exact .ok _
  | cons byIndex archive ih =>
    obtain ⟨hopen, hread⟩ := h byIndex List.mem_cons_self
    refine (disarmEntry_endsIn hX hZ i hopen hread st).bind fun st' _ => ?_
    exact ih (fun entry hentry => h entry (List.mem_cons_of_mem _ hentry)) (i + 1) st'

/-- All that happens inside the `catch_unwind` of the Office disarmer. -/
theorem disarmInner_endsIn (hX : X.Answer) (hZ : Z.Answer) (data : List UInt8) :
    EndsIn (Fault.ErrorsOrPanic FileFormat.ooxml.Blames) (disarmInner X Z data) := by
  refine ((hZ.openArchive data).mapErr fun e _ => ⟨_, rfl⟩).bind fun archive harchive => ?_
  have hopen := Exec.mapErr_eq_ok.mp harchive
  refine (disarmEntries_endsIn hX hZ (fun byIndex hmem => ?_) 0 _).bind fun st _ => ?_
  · refine ⟨hZ.byIndex hopen byIndex hmem, fun entry hentry => ?_⟩
    exact hZ.read hopen (hentry ▸ hmem)
  · exact ((hZ.finish _).mapErr fun e _ => ⟨_, rfl⟩).bind fun _ _ => .ok _

end Ooxml

/-- A panic that is caught is reported. -/
theorem endsIn_of_caught {E : DomainError → Prop} {x : Exec DomainError DisarmOutput}
    (hx : EndsIn (Fault.ErrorsOrPanic E) x) {e : DomainError} (he : E e) :
    EndsIn (Fault.Errors E) (match x with
      | .error .panic => Exec.fail e
      | inner => inner) := by
  rcases x with (e' | _ | _) | out
  · exact .fail (hx _ rfl)
  · exact .fail he
  · exact absurd (hx _ rfl) id
  · exact .ok out

/-- The PDF disarmer turns the panics of `lopdf` into errors that blame the file. -/
theorem PdfDisarmer.failsClosed (hL : C.lopdf.Lawful) (hA : C.lopdf.Answer) (w : Width) :
    (PdfDisarmer.new C).FailsClosed w := fun artifact _ _ =>
  endsIn_of_caught (Pdf.disarmInner_endsIn hL hA artifact.bytes) ⟨_, rfl⟩

/-- The Office disarmer turns the panics of its crates into errors that blame the document. -/
theorem OoxmlDisarmer.failsClosed (hX : C.quickXml.Answer) (hZ : C.zip.Answer) (w : Width) :
    (OoxmlDisarmer.new C).FailsClosed w := fun artifact _ _ =>
  endsIn_of_caught (Ooxml.disarmInner_endsIn hX hZ artifact.bytes) ⟨_, rfl⟩

/-- The ZIP disarmer refuses all archives, as policy has it. -/
theorem ZipDisarmer.failsClosed (w : Width) : ZipDisarmer.new.FailsClosed w :=
  fun _ _ _ => .fail ⟨_, rfl⟩

/-- The contract for every registered disarmer. -/
theorem disarmers_failClosed (hL : C.lopdf.Lawful) (hC : C.Answer) :
    ∀ disarmer ∈ disarmers w C, disarmer.FailsClosed w := by
  intro disarmer hmem
  simp only [disarmers, List.mem_cons, List.not_mem_nil, or_false] at hmem
  rcases hmem with rfl | rfl | rfl | rfl | rfl
  · exact JpegDisarmer.failsClosed w
  · exact PngDisarmer.failsClosed w
  · exact PdfDisarmer.failsClosed hL hC.lopdf w
  · exact OoxmlDisarmer.failsClosed hC.quickXml hC.zip w
  · exact ZipDisarmer.failsClosed w

/-! ## The service -/

/-- What the detector answers: a format, or it panics with the library it asks about a ZIP file. -/
theorem detect_cases (hC : C.Answer) (artifact : Artifact) :
    (∃ format, MagicFormatDetector.detect C artifact = .ok format) ∨
      (MagicFormatDetector.detect C artifact = .error .panic ∧
        [0x50, 0x4B, 0x03, 0x04] <+: artifact.bytes ∧
        C.fileNames artifact.bytes = .error .panic) := by
  rw [MagicFormatDetector.detect]
  split_ifs with _ _ _ hzip
  · exact .inl ⟨_, rfl⟩
  · exact .inl ⟨_, rfl⟩
  · exact .inl ⟨_, rfl⟩
  · rw [isOoxml]
    rcases hnames : C.fileNames artifact.bytes with (e | _ | _) | names
    · exact .inl ⟨_, rfl⟩
    · exact .inr ⟨rfl, hzip, rfl⟩
    · exact absurd (hC.fileNames _ _ hnames) id
    · cases hooxml : names.contains ooxmlMarker with
      | true => exact .inl ⟨.ooxml, by simp only [hooxml]; rfl⟩
      | false => exact .inl ⟨.zip, by simp only [hooxml]; rfl⟩
  · exact .inl ⟨_, rfl⟩

/-- There is a disarmer for every format the detector knows. -/
theorem select_eq_none {format : FileFormat} :
    (service w C).select format = none ↔ format = .unknown := by
  cases format with
  | unknown => exact iff_of_true rfl rfl
  | _ => exact iff_of_false (by simp [DisarmService.select, service, disarmers,
      JpegDisarmer.new, PngDisarmer.new, PdfDisarmer.new, OoxmlDisarmer.new, ZipDisarmer.new]) nofun

/-- What a service makes of what its disarmer does. -/
theorem execute_of_select {service : DisarmService} {request : DisarmRequest} {format : FileFormat}
    {disarmer : Disarmer} (hdetect : service.detector.detect request.artifact = .ok format)
    (hselect : service.select format = some disarmer) :
    service.execute request =
      (disarmer.disarm request.artifact request.policy >>= fun output => .ok
        { clean := { format := format, bytes := output.bytes },
          report :=
            { format := format, originalSize := request.artifact.bytes.length,
              sanitizedSize := output.bytes.length, removed := output.removed } }) := by
  rw [DisarmService.execute]
  dsimp only
  rw [hdetect, Exec.mapErr, Exec.ok_bind, hselect]
  rfl

/-- What the service makes of a file that is rebuilt. -/
theorem execute_of_disarm {service : DisarmService} {request : DisarmRequest} {format : FileFormat}
    {disarmer : Disarmer} {output : DisarmOutput}
    (hdetect : service.detector.detect request.artifact = .ok format)
    (hselect : service.select format = some disarmer)
    (hdisarm : disarmer.disarm request.artifact request.policy = .ok output) :
    service.execute request = .ok
      { clean := { format := format, bytes := output.bytes },
        report :=
          { format := format, originalSize := request.artifact.bytes.length,
            sanitizedSize := output.bytes.length, removed := output.removed } } := by
  rw [execute_of_select hdetect hselect, hdisarm]
  rfl

/-- A service without a disarmer for the format refuses it. -/
theorem execute_of_select_none {service : DisarmService} {request : DisarmRequest}
    {format : FileFormat} (hdetect : service.detector.detect request.artifact = .ok format)
    (hselect : service.select format = none) :
    service.execute request = Exec.fail (.unsupportedFormat format) := by
  rw [DisarmService.execute]
  dsimp only
  rw [hdetect, Exec.mapErr, Exec.ok_bind, hselect]

/-- **How a run of the service ends**: it knows no disarmer for the file, or the disarmer of the
format refuses it or returns a file, or the detector panics with the library it asks about a ZIP
file. -/
theorem execute_cases (hL : C.lopdf.Lawful) (hC : C.Answer) {request : DisarmRequest}
    (hfit : w.Fits request.artifact.bytes.length) :
    (MagicFormatDetector.detect C request.artifact = .ok .unknown ∧
      (service w C).execute request = Exec.fail (.unsupportedFormat .unknown)) ∨
    (∃ format, MagicFormatDetector.detect C request.artifact = .ok format ∧ format ≠ .unknown ∧
      ((∃ e, (service w C).execute request = Exec.fail e ∧ format.Refusal e) ∨
        ∃ receipt, (service w C).execute request = .ok receipt)) ∨
    ((service w C).execute request = .error .panic ∧
      [0x50, 0x4B, 0x03, 0x04] <+: request.artifact.bytes ∧
      C.fileNames request.artifact.bytes = .error .panic) := by
  rcases detect_cases hC request.artifact with ⟨format, hdetect⟩ | ⟨hdetect, hzip, hpanic⟩
  · have hdetect' : (service w C).detector.detect request.artifact = .ok format := hdetect
    cases hselect : (service w C).select format with
    | none =>
      obtain rfl := select_eq_none.mp hselect
      exact .inl ⟨hdetect, execute_of_select_none hdetect' hselect⟩
    | some disarmer =>
      refine .inr (.inl ⟨format, hdetect, ?_, ?_⟩)
      · rintro rfl
        rw [select_eq_none.mpr rfl] at hselect
        cases hselect
      have hformat : disarmer.format = format := by simpa using List.find?_some hselect
      have hcloses := disarmers_failClosed hL hC disarmer (List.mem_of_find?_eq_some hselect)
      obtain ⟨r, hr, herror⟩ := (hcloses request.artifact request.policy hfit).exists_lift
      rw [execute_of_select hdetect' hselect, hr]
      rw [hformat] at herror
      cases r with
      | error e => exact .inl ⟨e, rfl, herror e rfl⟩
      | ok output => exact .inr ⟨_, rfl⟩
  · refine .inr (.inr ⟨?_, hzip, hpanic⟩)
    have hdetect' : (service w C).detector.detect request.artifact = .error .panic := hdetect
    rw [DisarmService.execute]
    dsimp only
    rw [hdetect']
    rfl

/-- **The service fails closed**: whatever the file is, the service returns a receipt for it or
refuses it, unless the detector panics with the library. It knows no disarmer for exactly the files
of no known format. Otherwise an error is a refusal of the format detected, an archive that is no
office document is never returned, and a receipt is one for the format detected and gives the sizes
of the two files. -/
theorem execute_failClosed (w : Width) (C : Crates) (hL : C.lopdf.Lawful) (hC : C.Answer)
    (request : DisarmRequest) (hfit : w.Fits request.artifact.bytes.length) :
    (∃ format r, MagicFormatDetector.detect C request.artifact = .ok format ∧
      (service w C).execute request = Exec.lift r ∧
      (format = .unknown ↔ r = .error (.unsupportedFormat .unknown)) ∧
      (format ≠ .unknown → ∀ e, r = .error e → format.Refusal e) ∧
      ∀ receipt, r = .ok receipt → format ≠ .zip ∧ receipt.clean.format = format ∧
        receipt.report.format = format ∧
        receipt.report.originalSize = request.artifact.bytes.length ∧
        receipt.report.sanitizedSize = receipt.clean.bytes.length) ∨
    ((service w C).execute request = .error .panic ∧
      [0x50, 0x4B, 0x03, 0x04] <+: request.artifact.bytes ∧
      C.fileNames request.artifact.bytes = .error .panic) := by
  rcases execute_cases hL hC hfit with ⟨hdetect, hrun⟩ | ⟨format, hdetect, hknown, hends⟩ | hpanic
  · exact .inl ⟨.unknown, .error (.unsupportedFormat .unknown), hdetect, hrun, by simp, by simp,
      nofun⟩
  · refine .inl ⟨format, ?_⟩
    rcases hends with ⟨e, hrun, hrefusal⟩ | ⟨receipt, hrun⟩
    · refine ⟨.error e, hdetect, hrun, iff_of_false hknown ?_, ?_, nofun⟩
      · rintro ⟨⟩
        exact FileFormat.not_refusal _ _ hrefusal
      · rintro - e' ⟨⟩
        exact hrefusal
    · refine ⟨.ok receipt, hdetect, hrun, iff_of_false hknown nofun, nofun, ?_⟩
      rintro receipt' ⟨⟩
      obtain ⟨format', disarmer, output, hdetect', hselect, hdisarm, hclean, hreport⟩ :=
        DisarmService.execute_eq_ok hrun
      obtain rfl := Except.ok.inj (hdetect.symm.trans hdetect')
      rw [hclean, hreport]
      refine ⟨?_, rfl, rfl, rfl, rfl⟩
      rintro rfl
      obtain rfl : ZipDisarmer.new = disarmer := Option.some.inj hselect
      cases hdisarm
  · exact .inr hpanic

/-- The crates of the sample runs keep the laws of `lopdf`. -/
theorem sampleCrates_lawful : sampleCrates.lopdf.Lawful := @Pdf.Lopdf.ofDocuments_lawful []

/-- The libraries of the sample return, whatever they are asked. -/
theorem sampleCrates_answer : sampleCrates.Answer where
  lopdf := { loadMem := fun _ => .fail trivial, saveTo := fun _ => .ok _ }
  quickXml := {
    readEvents := fun text event hevent => by
      change event ∈ ite _ _ _ at hevent
      split_ifs at hevent
      · cases hevent
      · rw [List.mem_singleton.mp hevent]
        exact .fail trivial
    writeEvent := fun _ _ => .ok _ }
  zip := {
    openArchive := fun _ => .fail trivial
    byIndex := nofun
    read := nofun
    rawCopyFileRename := fun _ _ _ => .ok _
    startFile := fun _ _ => .ok _
    writeAll := fun written bytes => by
      simp only [sampleCrates, Ooxml.ZipCrate.ofArchives]
      split
      · exact .fail trivial
      · exact .ok _
    finish := fun written => by
      simp only [sampleCrates, Ooxml.ZipCrate.ofArchives, if_neg List.not_mem_nil]
      exact .fail trivial }
  fileNames := fun _ => .fail trivial

/-- A PNG file is rebuilt, and answered with a receipt for that format and of those sizes. -/
theorem execute_failClosed_sample :
    ∃ receipt, (service .w64 sampleCrates).execute (.strict (.new commentedPng)) = .ok receipt ∧
      receipt.clean = { format := .png, bytes := samplePng } ∧ receipt.report.format = .png ∧
      receipt.report.originalSize = commentedPng.length ∧
      receipt.report.sanitizedSize = samplePng.length := by
  have hrun : (service .w64 sampleCrates).execute (.strict (.new commentedPng)) =
      .ok { clean := { format := .png, bytes := samplePng }, report := _ } := rfl
  rcases execute_failClosed .w64 sampleCrates sampleCrates_lawful sampleCrates_answer
    (.strict (.new commentedPng)) (by decide) with ⟨format, r, hdetect, hr, -, -, hreceipt⟩ |
      ⟨-, hzip, -⟩
  · obtain rfl : FileFormat.png = format := Except.ok.inj hdetect
    obtain rfl := Exec.lift_eq_ok.mp (hr.symm.trans hrun)
    obtain ⟨-, -, hformat, horiginal, hsanitized⟩ := hreceipt _ rfl
    exact ⟨_, hrun, rfl, hformat, horiginal, hsanitized⟩
  · exact absurd hzip (by decide)

end Purgo
