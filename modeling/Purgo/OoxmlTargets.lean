import Purgo.OoxmlRebuild

/-!
# Where the relationships of a rebuilt package point

Parts are dropped by their own name and relationships by their type and mode; the target of a
relationship is never read. A kept relationship may so point at a part that has been dropped. It
does so only where the part has been dropped by its name, and reported: no other part that a
relationship points at is missing from the output.
-/

namespace Purgo

open Rust

namespace Ooxml

variable {X : QuickXml} {Z : ZipCrate}

/-! ## Targets -/

/-- The segments of a path. -/
def segments (path : List Char) : List (List Char) := path.splitOn '/'

/-- The directory that the targets in a relationships part are relative to: that of the part the
relationships belong to, one above the folder `_rels`. -/
def sourceDirectory (relsName : String) : List (List Char) :=
  match (segments relsName.toList).reverse with
  | _ :: folder :: above =>
    if folder = "_rels".toList then above.reverse else (folder :: above).reverse
  | _ => []

/-- Go on from a directory by one segment of a path. -/
def resolveSegment (directory : List (List Char)) (segment : List Char) : List (List Char) :=
  if segment = ".".toList then directory
  else if segment = "..".toList then directory.dropLast
  else directory ++ [segment]

/-- The name of the part a target stands for: relative to the root of the package when it starts
with a slash, and to the source directory otherwise. -/
def resolveTarget (relsName target : String) : String :=
  let path :=
    if target.toList.head? = some '/' then
      (segments target.toList.tail).foldl resolveSegment []
    else
      (segments target.toList).foldl resolveSegment (sourceDirectory relsName)
  String.ofList (['/'].intercalate path)

example : resolveTarget "word/_rels/document.xml.rels" "../media/image1.png" =
    "media/image1.png" := by decide +kernel

example : resolveTarget "_rels/.rels" "/word/document.xml" = "word/document.xml" := by
  decide +kernel

/-! ## Kept relationships -/

/-- The relationship stands in a relationships part of the output. -/
def KeptIn (X : QuickXml) (entries written : List ZipEntry) (relsName : String) (tag : Tag) :
    Prop :=
  isRels relsName = true ∧ ∃ part ∈ written, ∃ entry ∈ entries, part.name = relsName ∧
    entry.name = relsName ∧ ∃ (text : String) (events : List Event) (st : RelsState),
      fromUtf8 entry.data = some text ∧ X.readEvents text = events.map Except.ok ∧
      sanitizeEvents X relsName (events.map Except.ok) = .ok st ∧
      part.data = X.intoInner st.written ∧ tag ∈ relationships st.written

/-- The target of a relationship. -/
def Tag.HasTarget (tag : Tag) (target : String) : Prop :=
  ∃ key, (key, target) ∈ tag.values ∧ key.space = none ∧ key.localName = "Target"

/-- The target of the relationship is outside the package. -/
def Tag.IsExternal (tag : Tag) : Prop :=
  ∃ key value, (key, value) ∈ tag.values ∧ key.space = none ∧ key.localName = "TargetMode" ∧
    isExternal value = true

/-- A kept relationship is not flagged. -/
theorem KeptIn.not_flagged {entries written : List ZipEntry} {relsName : String} {tag : Tag}
    (h : KeptIn X entries written relsName tag) : ¬ tag.LastActive ∧ ¬ tag.LastExternal := by
  obtain ⟨-, part, -, entry, -, -, -, text, events, st, -, -, hst, -, htag⟩ := h
  obtain ⟨hwritten, -, hall⟩ := sanitizeEvents_eq_ok hst
  rw [hwritten, relationships_outside] at htag
  obtain ⟨hvisited, hflag⟩ := List.mem_filter.mp htag
  obtain ⟨r, hr⟩ := hall tag hvisited
  rw [Bool.not_eq_true', ← Bool.not_eq_true, flagged_iff hr, not_or] at hflag
  exact hflag

/-- The part goes by its name, and the report says so. -/
def DroppedByName (removed : List RemovedItem) (name : String) : Prop :=
  isDirName name = false ∧ (isVbaProject name = true ∨ isEmbeddedOle name = true) ∧
    ∃ item ∈ removed, item.location = "part " ++ name

/-- An entry of the input is in the output under its name, or it has been dropped by its name. -/
theorem written_or_dropped (hZ : Z.Lawful) {entries : List ZipEntry} {st : State}
    (hrun : disarmEntries X Z 0 (entries.map Except.ok) { written := [], removed := [] } = .ok st)
    {entry : ZipEntry} (hentry : entry ∈ entries) :
    (∃ part ∈ st.written, part.name = entry.name) ∨ DroppedByName st.removed entry.name := by
  obtain ⟨written, removed, hrebuilds, hwritten, hremoved⟩ :=
    (written_of_entry hZ hrun).2 entry hentry
  cases hrebuilds with
  | directory hdir => exact .inl ⟨entry, hwritten _ List.mem_cons_self, rfl⟩
  | keep hdir hdecide => exact .inl ⟨entry, hwritten _ List.mem_cons_self, rfl⟩
  | drop hdir hdecide =>
    exact .inr ⟨hdir, decide_drop hdecide, _, hremoved _ List.mem_cons_self, rfl⟩
  | rewrite hdir hdecide hfailure hsanitize =>
    exact .inl ⟨_, hwritten _ List.mem_cons_self, rfl⟩

/-- **Where kept relationships point**: a part of the input that a kept internal relationship points
at is in the output, or it has been dropped by its name while the relationship is of no active
type. -/
theorem kept_relationship_target (hZ : Z.Lawful) {entries : List ZipEntry} {st : State}
    (hrun : disarmEntries X Z 0 (entries.map Except.ok) { written := [], removed := [] } =
      .ok st) :
    ∀ relsName tag target, KeptIn X entries st.written relsName tag → tag.HasTarget target →
      ¬ tag.IsExternal → (∃ entry ∈ entries, entry.name = resolveTarget relsName target) →
        (∃ part ∈ st.written, part.name = resolveTarget relsName target) ∨
          (DroppedByName st.removed (resolveTarget relsName target) ∧ ¬ tag.LastActive ∧
            ¬ tag.LastExternal) := by
  rintro relsName tag target hkept - - ⟨entry, hentry, hname⟩
  rcases written_or_dropped hZ hrun hentry with hwritten | hdropped
  · rw [hname] at hwritten
    exact .inl hwritten
  · rw [hname] at hdropped
    exact .inr ⟨hdropped, hkept.not_flagged⟩

/-- A relationship to an embedded workbook. -/
def workbook : Tag where
  content := "Relationship Id=\"rId1\" Type=\"urn:package\" Target=\"embeddings/x.xlsx\""
  name := ⟨none, "Relationship"⟩
  attributes := [
    .ok ⟨⟨none, "Id"⟩, .ok "rId1"⟩,
    .ok ⟨⟨none, "Type"⟩, .ok "urn:package"⟩,
    .ok ⟨⟨none, "Target"⟩, .ok "embeddings/x.xlsx"⟩]
  distinct := by decide

/-- A part that leads to an embedded workbook. -/
def workbookPart : List Event := [.start root, .empty workbook, .stop ⟨none, "Relationships"⟩]

/-- The part as an entry. -/
def workbookRels : ZipEntry where
  name := "word/_rels/document.xml.rels"
  size := (asBytes (serialise workbookPart)).length
  data := asBytes (serialise workbookPart)
  failure := none
  rest := []

/-- The workbook and the part that leads to it. -/
def workbookEntries : List ZipEntry :=
  [{ name := "word/embeddings/x.xlsx", size := 2, data := [0x50, 0x4B], failure := none,
     rest := stored },
    workbookRels]

/-- The workbook goes, the relationship to it stays. -/
def workbookRebuilt : State where
  written := [workbookRels]
  removed := [
    { location := "part word/embeddings/x.xlsx", threat := .activeContent,
      detail := "embedded OLE object 'word/embeddings/x.xlsx'", bytesRemoved := 2 }]

/-- The workbook goes by its name, and the part stays as it was. -/
theorem workbook_run : disarmEntries (.ofEvents workbookPart) (.ofArchives []) 0
    (workbookEntries.map Except.ok) { written := [], removed := [] } = .ok workbookRebuilt := by
  decide +kernel

/-- The relationship is still there. -/
theorem workbook_kept : KeptIn (.ofEvents workbookPart) workbookEntries workbookRebuilt.written
    "word/_rels/document.xml.rels" workbook := by
  have hst : sanitizeEvents (.ofEvents workbookPart) "word/_rels/document.xml.rels"
      (workbookPart.map Except.ok) = .ok { rest := [], written := workbookPart, removed := [] } :=
    rfl
  refine ⟨by decide, workbookRels, List.mem_cons_self, workbookRels,
    List.mem_cons_of_mem _ List.mem_cons_self, rfl, rfl, _, workbookPart, _,
    fromUtf8_asBytes _, readEvents_ofEvents _, hst, rfl, List.mem_cons_self⟩

/-- Its target is the workbook. -/
theorem workbook_target :
    resolveTarget "word/_rels/document.xml.rels" "embeddings/x.xlsx" =
      "word/embeddings/x.xlsx" := by
  decide +kernel

theorem workbook_internal : ¬ workbook.IsExternal := by
  rintro ⟨key, value, hmem, -, hkey, -⟩
  simp [Tag.values, valuesOf, workbook] at hmem
  rcases hmem with ⟨rfl, -⟩ | ⟨rfl, -⟩ | ⟨rfl, -⟩ <;> simp at hkey

/-- An internal relationship is kept that points at a part that is not. -/
theorem workbook_dangling : ∃ st target,
    disarmEntries (.ofEvents workbookPart) (.ofArchives []) 0 (workbookEntries.map Except.ok)
      { written := [], removed := [] } = .ok st ∧
    KeptIn (.ofEvents workbookPart) workbookEntries st.written "word/_rels/document.xml.rels"
      workbook ∧
    workbook.HasTarget target ∧ ¬ workbook.IsExternal ∧
    (∃ entry ∈ workbookEntries,
      entry.name = resolveTarget "word/_rels/document.xml.rels" target) ∧
    ¬ ∃ part ∈ st.written, part.name = resolveTarget "word/_rels/document.xml.rels" target := by
  refine ⟨workbookRebuilt, "embeddings/x.xlsx", workbook_run, workbook_kept,
    ⟨⟨none, "Target"⟩, by decide, rfl, rfl⟩, workbook_internal, ?_, ?_⟩
  · exact ⟨_, List.mem_cons_self, workbook_target.symm⟩
  · rw [workbook_target]
    simp [workbookRebuilt, workbookRels]

/-- The part that relationship points at has been dropped by its name. -/
theorem kept_relationship_target_sample :
    DroppedByName workbookRebuilt.removed "word/embeddings/x.xlsx" := by
  have htarget := kept_relationship_target ZipCrate.ofArchives_lawful workbook_run
    "word/_rels/document.xml.rels" workbook "embeddings/x.xlsx" workbook_kept
    ⟨⟨none, "Target"⟩, by decide, rfl, rfl⟩ workbook_internal
    ⟨_, List.mem_cons_self, workbook_target.symm⟩
  rw [workbook_target] at htarget
  rcases htarget with hwritten | ⟨hdropped, -⟩
  · simp [workbookRebuilt, workbookRels] at hwritten
  · exact hdropped

end Ooxml

end Purgo
