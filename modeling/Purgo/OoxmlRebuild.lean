import Mathlib.Data.List.Basic
import Purgo.Lib.Simulation
import Purgo.OoxmlLibrary
import Purgo.OoxmlRels

/-!
# What is left of a package

Each entry of the input becomes at most one entry of the output (`Rebuilds`), and the output is what
the entries become, in order (`disarmEntries_eq_ok`). What an entry becomes depends on its name
alone, up to the contents of a relationships part.

Two results rest on this. An entry with a directory's name is copied before its name is looked at
any further, so that data under a name such as `word/embeddings/oleObject1.bin/` is copied too
(`noForbiddenPart_iff`). And parts are dropped by their own name while relationships are dropped by
their type and mode, so that a kept relationship may point at a dropped part, though at no part that
is missing for any other reason (`kept_relationship_target`).
-/

namespace Purgo

open Rust

namespace Ooxml

variable {X : QuickXml} {Z : ZipCrate}

/-! ## Entry by entry -/

/-- What an entry of the input becomes: entries of the output, and items of the report. -/
inductive Rebuilds (X : QuickXml) (entry : ZipEntry) :
    List ZipEntry → List RemovedItem → Prop where
  | directory : isDirName entry.name = true → Rebuilds X entry [entry] []
  | keep : isDirName entry.name = false → Ooxml.decide entry.name = .keep →
      Rebuilds X entry [entry] []
  | drop {threat : ThreatClass} {detail : String} : isDirName entry.name = false →
      Ooxml.decide entry.name = .drop threat detail →
      Rebuilds X entry [] [{ location := "part " ++ entry.name, threat := threat, detail := detail,
                             bytesRemoved := entry.size }]
  | rewrite {cleaned rest : List UInt8} {dropped : List RemovedItem} :
      isDirName entry.name = false →
      Ooxml.decide entry.name = .rewrite → entry.failure = none →
      sanitizeRels X entry.data entry.name = .ok (cleaned, dropped) →
      Rebuilds X entry
        [{ name := entry.name, size := cleaned.length, data := cleaned, failure := none, rest }]
        dropped

/-- A part that is read in full is read without a failure. -/
theorem readEntry_eq_ok {byIndex : Exec String ZipEntry} {name : String} {buf : List UInt8}
    (h : readEntry byIndex name = .ok buf) :
    ∃ entry, byIndex = .ok entry ∧ buf = entry.data ∧ entry.failure = none := by
  obtain ⟨entry, hentry, hread⟩ := Exec.bind_eq_ok.mp h
  obtain ⟨buf', hbuf, hsize⟩ := Exec.bind_eq_ok.mp hread
  have hend := Exec.mapErr_eq_ok.mp hbuf
  by_cases hlong : buf'.length > maxRelsSize
  · rw [if_pos hlong] at hsize
    cases hsize
  rw [if_neg hlong] at hsize
  obtain rfl := Except.ok.inj hsize
  refine ⟨entry, Exec.mapErr_eq_ok.mp hentry, ?_⟩
  rw [ZipEntry.readToEnd] at hend
  by_cases hlimit : maxRelsSize + 1 ≤ entry.data.length
  · -- a buffer as long as the limit would be too large
    rw [if_pos hlimit] at hend
    obtain rfl := Except.ok.inj hend
    rw [List.length_take, Nat.min_eq_left hlimit] at hlong
    exact absurd (Nat.lt_succ_self _) hlong
  · rw [if_neg hlimit] at hend
    cases hfailure : entry.failure with
    | some fault =>
      rw [hfailure] at hend
      cases hend
    | none =>
      rw [hfailure] at hend
      exact ⟨(Except.ok.inj hend).symm, rfl⟩

/-- One round of the loop. -/
theorem disarmEntry_eq_ok (hZ : Z.Lawful) {i : Nat} {byIndex : Exec String ZipEntry}
    {st st' : State} (h : disarmEntry X Z i byIndex st = .ok st') :
    ∃ entry written removed, byIndex = .ok entry ∧ Rebuilds X entry written removed ∧
      st'.written = st.written ++ written ∧ st'.removed = st.removed ++ removed := by
  obtain ⟨entry, hentry, hnext⟩ := Exec.bind_eq_ok.mp h
  clear h
  obtain rfl := Exec.mapErr_eq_ok.mp hentry
  have hcopy : ∀ {written'} {f : String → DomainError},
      (Z.rawCopyFileRename st.written entry entry.name).mapErr f = .ok written' →
        written' = st.written ++ [entry] :=
    fun hwritten => hZ.rawCopy (Exec.mapErr_eq_ok.mp hwritten)
  cases hdir : isDirName entry.name with
  | true =>
    rw [if_pos ((hZ.isDir_eq entry).trans hdir)] at hnext
    obtain ⟨entry', hentry', hnext⟩ := Exec.bind_eq_ok.mp hnext
    obtain rfl := Except.ok.inj (Exec.mapErr_eq_ok.mp hentry')
    obtain ⟨written', hwritten, hnext⟩ := Exec.bind_eq_ok.mp hnext
    obtain rfl := Except.ok.inj hnext
    exact ⟨entry, _, _, rfl, .directory hdir, hcopy hwritten, (List.append_nil _).symm⟩
  | false =>
    rw [if_neg (by rw [hZ.isDir_eq, hdir]; simp)] at hnext
    cases hdecide : Ooxml.decide entry.name with
    | keep =>
      rw [hdecide] at hnext
      obtain ⟨entry', hentry', hnext⟩ := Exec.bind_eq_ok.mp hnext
      obtain rfl := Except.ok.inj (Exec.mapErr_eq_ok.mp hentry')
      obtain ⟨written', hwritten, hnext⟩ := Exec.bind_eq_ok.mp hnext
      obtain rfl := Except.ok.inj hnext
      exact ⟨entry, _, _, rfl, .keep hdir hdecide, hcopy hwritten, (List.append_nil _).symm⟩
    | drop threat detail =>
      rw [hdecide] at hnext
      obtain ⟨entry', hentry', hnext⟩ := Exec.bind_eq_ok.mp hnext
      obtain rfl := Except.ok.inj (Exec.mapErr_eq_ok.mp hentry')
      obtain rfl := Except.ok.inj hnext
      exact ⟨entry, _, _, rfl, .drop hdir hdecide, (List.append_nil _).symm, rfl⟩
    | rewrite =>
      rw [hdecide] at hnext
      obtain ⟨raw, hraw, hnext⟩ := Exec.bind_eq_ok.mp hnext
      obtain ⟨entry', hentry', rfl, hfailure⟩ := readEntry_eq_ok hraw
      obtain rfl := Except.ok.inj hentry'
      obtain ⟨⟨cleaned, dropped⟩, hsanitize, hnext⟩ := Exec.bind_eq_ok.mp hnext
      obtain ⟨started, hstarted, hnext⟩ := Exec.bind_eq_ok.mp hnext
      obtain ⟨written', hwritten, hnext⟩ := Exec.bind_eq_ok.mp hnext
      obtain rfl := Except.ok.inj hnext
      obtain ⟨rest, rfl⟩ := hZ.startFile (Exec.mapErr_eq_ok.mp hstarted)
      obtain ⟨rest', rfl⟩ := hZ.writeAll (Exec.mapErr_eq_ok.mp hwritten)
      rw [Nat.zero_add, List.nil_append]
      exact ⟨entry, _, _, rfl, .rewrite hdir hdecide hfailure hsanitize, rfl, rfl⟩

/-- **The rebuild, entry by entry**: the output is what the entries become, in order. -/
theorem disarmEntries_eq_ok (hZ : Z.Lawful) {i : Nat} {archive : List (Exec String ZipEntry)}
    {st st' : State} (h : disarmEntries X Z i archive st = .ok st') :
    ∃ (entries : List ZipEntry) (pieces : List (List ZipEntry × List RemovedItem)),
      archive = entries.map Except.ok ∧
      List.Forall₂ (fun entry piece => Rebuilds X entry piece.1 piece.2) entries pieces ∧
      st'.written = st.written ++ pieces.flatMap Prod.fst ∧
      st'.removed = st.removed ++ pieces.flatMap Prod.snd := by
  induction archive generalizing i st with
  | nil =>
    obtain rfl := Except.ok.inj h
    exact ⟨[], [], rfl, .nil, (List.append_nil _).symm, (List.append_nil _).symm⟩
  | cons byIndex archive ih =>
    obtain ⟨st₁, hround, hrest⟩ := Exec.bind_eq_ok.mp h
    obtain ⟨entry, written, removed, rfl, hentry, hw, hr⟩ := disarmEntry_eq_ok hZ hround
    obtain ⟨entries, pieces, rfl, hpieces, hwritten, hremoved⟩ := ih hrest
    refine ⟨entry :: entries, (written, removed) :: pieces, rfl, .cons hentry hpieces, ?_, ?_⟩
    · rw [hwritten, hw, List.append_assoc, List.flatMap_cons]
    · rw [hremoved, hr, List.append_assoc, List.flatMap_cons]

/-- What a successful run of the disarmer consists of. -/
theorem disarmInner_eq_ok (hZ : Z.Lawful) {data : List UInt8} {out : DisarmOutput}
    (h : disarmInner X Z data = .ok out) :
    ∃ (entries : List ZipEntry) (st : State), Z.openArchive data = .ok (entries.map Except.ok) ∧
      disarmEntries X Z 0 (entries.map Except.ok) { written := [], removed := [] } = .ok st ∧
      Z.finish st.written = .ok out.bytes ∧ out.removed = st.removed := by
  obtain ⟨archive, hopen, hnext⟩ := Exec.bind_eq_ok.mp h
  obtain ⟨st, hst, hnext⟩ := Exec.bind_eq_ok.mp hnext
  obtain ⟨bytes, hfinish, hnext⟩ := Exec.bind_eq_ok.mp hnext
  obtain rfl := Except.ok.inj hnext
  obtain ⟨entries, -, rfl, -⟩ := disarmEntries_eq_ok hZ hst
  exact ⟨entries, st, Exec.mapErr_eq_ok.mp hopen, hst, Exec.mapErr_eq_ok.mp hfinish, rfl⟩

/-- What is in the output comes from an entry of the input, under the same name. -/
theorem written_of_entry (hZ : Z.Lawful) {entries : List ZipEntry} {st : State}
    (h : disarmEntries X Z 0 (entries.map Except.ok) { written := [], removed := [] } = .ok st) :
    (∀ part ∈ st.written, ∃ entry ∈ entries, ∃ written removed,
      Rebuilds X entry written removed ∧ part ∈ written) ∧
    ∀ entry ∈ entries, ∃ written removed, Rebuilds X entry written removed ∧
      (∀ part ∈ written, part ∈ st.written) ∧ ∀ item ∈ removed, item ∈ st.removed := by
  obtain ⟨entries', pieces, hmap, hpieces, hwritten, hremoved⟩ := disarmEntries_eq_ok hZ h
  obtain rfl : entries = entries' := List.map_injective_iff.mpr (fun _ _ => Except.ok.inj) hmap
  rw [hwritten, hremoved, List.nil_append, List.nil_append]
  have hmatch := Simulation.Matches.of_forall₂ hpieces
  refine ⟨?_, ?_⟩
  · intro part hpart
    obtain ⟨piece, hpiece, hmem⟩ := List.mem_flatMap.mp hpart
    obtain ⟨entry, hentry, hrebuilds⟩ := hmatch.right piece hpiece
    exact ⟨entry, hentry, _, _, hrebuilds, hmem⟩
  · intro entry hentry
    obtain ⟨piece, hpiece, hrebuilds⟩ := hmatch.left entry hentry
    refine ⟨_, _, hrebuilds, fun part hpart => ?_, fun item hitem => ?_⟩
    · exact List.mem_flatMap.mpr ⟨piece, hpiece, hpart⟩
    · exact List.mem_flatMap.mpr ⟨piece, hpiece, hitem⟩

/-! ## Names -/

theorem decide_keep {name : String} (h : Ooxml.decide name = .keep) :
    (isVbaProject name = false ∧ isEmbeddedOle name = false) ∧ isRels name = false := by
  rw [Ooxml.decide] at h
  split_ifs at h with hvba hole hrels
  rw [Bool.not_eq_true] at hvba hole hrels
  exact ⟨⟨hvba, hole⟩, hrels⟩

theorem decide_rewrite {name : String} (h : Ooxml.decide name = .rewrite) :
    (isVbaProject name = false ∧ isEmbeddedOle name = false) ∧ isRels name = true := by
  rw [Ooxml.decide] at h
  split_ifs at h with hvba hole hrels
  rw [Bool.not_eq_true] at hvba hole
  exact ⟨⟨hvba, hole⟩, hrels⟩

theorem decide_drop {name detail : String} {threat : ThreatClass}
    (h : Ooxml.decide name = .drop threat detail) :
    isVbaProject name = true ∨ isEmbeddedOle name = true := by
  rw [Ooxml.decide] at h
  split_ifs at h with hvba hole hrels
  · exact .inl hvba
  · exact .inr hole

/-- A directory's name does not end as the name of a file does. -/
theorem not_suffix_of_isDirName {name : String} (h : isDirName name = true) {ending : String}
    {c : Char} (hlast : ending.toList.getLast? = some c) (hslash : c ≠ '/') (hback : c ≠ '\\') :
    ending.toList.isSuffixOf (asciiLower name) = false := by
  by_contra hsuffix
  rw [Bool.not_eq_false, List.isSuffixOf_iff_suffix] at hsuffix
  obtain ⟨before, hsplit⟩ := hsuffix
  have hname : (asciiLower name).getLast? = some c := by
    rw [← hsplit, List.getLast?_append, hlast]
    rfl
  rw [asciiLower, List.getLast?_map] at hname
  rw [isDirName, Bool.or_eq_true, beq_iff_eq, beq_iff_eq] at h
  rcases h with h | h
  · rw [h] at hname
    exact hslash (Option.some.inj hname).symm
  · rw [h] at hname
    exact hback (Option.some.inj hname).symm

/-- A macro project ends in `.bin`, so its name is not that of a directory. -/
theorem isVbaProject_of_isDirName {name : String} (h : isDirName name = true) :
    isVbaProject name = false := by
  rw [isVbaProject, not_suffix_of_isDirName h (c := 'n') rfl (by decide) (by decide),
    Bool.and_false]

theorem isRels_of_isDirName {name : String} (h : isDirName name = true) : isRels name = false :=
  not_suffix_of_isDirName h (c := 's') rfl (by decide) (by decide)

/-! ## Forbidden parts -/

/-- Reading the entry gives nothing. -/
def ZipEntry.IsEmpty (entry : ZipEntry) : Prop := entry.data = [] ∧ entry.failure = none

/-- No entry with any data has the name of a macro project or of an embedded OLE object. -/
def NoForbiddenPart (written : List ZipEntry) : Prop :=
  ∀ part ∈ written, ¬ part.IsEmpty →
    isVbaProject part.name = false ∧ isEmbeddedOle part.name = false

/-- The relationships parts are what `sanitize_rels` makes of those of the input. -/
def RelsSanitized (X : QuickXml) (entries written : List ZipEntry) : Prop :=
  ∀ part ∈ written, isRels part.name = true → ∃ entry ∈ entries, entry.name = part.name ∧
    ∃ dropped, sanitizeRels X entry.data entry.name = .ok (part.data, dropped)

/-- What is kept of the relationship parts are those that have been sanitised. -/
theorem relsSanitized (hZ : Z.Lawful) {entries : List ZipEntry} {st : State}
    (h : disarmEntries X Z 0 (entries.map Except.ok) { written := [], removed := [] } = .ok st) :
    RelsSanitized X entries st.written := by
  intro part hpart hrels
  obtain ⟨entry, hentry, written, removed, hrebuilds, hmem⟩ := (written_of_entry hZ h).1 part hpart
  cases hrebuilds with
  | directory hdir =>
    obtain rfl := List.mem_singleton.mp hmem
    rw [isRels_of_isDirName hdir] at hrels
    cases hrels
  | keep hdir hdecide =>
    obtain rfl := List.mem_singleton.mp hmem
    rw [(decide_keep hdecide).2] at hrels
    cases hrels
  | drop hdir hdecide => cases hmem
  | rewrite hdir hdecide hfailure hsanitize =>
    obtain rfl := List.mem_singleton.mp hmem
    exact ⟨entry, hentry, rfl, _, hsanitize⟩

/-- **When the rebuild leaks no forbidden part**: exactly when every entry with the name of a
directory under which embedded objects are kept is empty. -/
theorem noForbiddenPart_iff (hZ : Z.Lawful) {entries : List ZipEntry} {st : State}
    (hrun : disarmEntries X Z 0 (entries.map Except.ok) { written := [], removed := [] } =
      .ok st) :
    (NoForbiddenPart st.written ∧ RelsSanitized X entries st.written) ↔
      ∀ entry ∈ entries, isDirName entry.name = true → isEmbeddedOle entry.name = true →
        entry.IsEmpty := by
  obtain ⟨hfrom, hto⟩ := written_of_entry hZ hrun
  refine ⟨?_, ?_⟩
  · rintro ⟨hnone, -⟩ entry hentry hdir hole
    by_contra hdata
    obtain ⟨written, removed, hrebuilds, hwritten, -⟩ := hto entry hentry
    cases hrebuilds with
    | directory _ =>
      rw [(hnone entry (hwritten entry List.mem_cons_self) hdata).2] at hole
      cases hole
    | keep hfile _ => simp [hdir] at hfile
    | drop hfile _ => simp [hdir] at hfile
    | rewrite hfile _ _ _ => simp [hdir] at hfile
  · intro hempty
    refine ⟨fun part hpart hdata => ?_, relsSanitized hZ hrun⟩
    obtain ⟨entry, hentry, written, removed, hrebuilds, hmem⟩ := hfrom part hpart
    cases hrebuilds with
    | directory hdir =>
      obtain rfl := List.mem_singleton.mp hmem
      refine ⟨isVbaProject_of_isDirName hdir, ?_⟩
      by_contra hole
      rw [Bool.not_eq_false] at hole
      exact hdata (hempty part hentry hdir hole)
    | keep hdir hdecide =>
      obtain rfl := List.mem_singleton.mp hmem
      exact (decide_keep hdecide).1
    | drop hdir hdecide => cases hmem
    | rewrite hdir hdecide hfailure hsanitize =>
      obtain rfl := List.mem_singleton.mp hmem
      exact (decide_rewrite hdecide).1

/-! ## Two packages -/

/-- An object stored under a name that ends with a slash. -/
def smuggledObject : ZipEntry where
  name := "word/embeddings/oleObject1.bin/"
  size := 2
  data := [0x4D, 0x5A]
  failure := none
  rest := stored

/-- It is copied. -/
theorem smuggledObject_leaked : ∃ st,
    disarmEntries (.ofEvents []) (.ofArchives []) 0 ([smuggledObject].map Except.ok)
      { written := [], removed := [] } = .ok st ∧ ¬ NoForbiddenPart st.written := by
  refine ⟨{ written := [smuggledObject], removed := [] }, rfl, fun h => ?_⟩
  have hole := (h smuggledObject List.mem_cons_self (by simp [ZipEntry.IsEmpty, smuggledObject])).2
  revert hole
  decide

/-- A package with an embedded object in a directory of its own. -/
def sampleEntries : List ZipEntry :=
  [{ name := "word/embeddings/", size := 0, data := [], failure := none, rest := stored },
    { name := "word/embeddings/oleObject1.bin", size := 2, data := [0x4D, 0x5A], failure := none,
      rest := stored },
    { name := "word/document.xml", size := 1, data := [0x3C], failure := none, rest := stored }]

/-- A directory of embedded files without any data is copied, and does no harm. -/
theorem noForbiddenPart_sample : NoForbiddenPart
    [{ name := "word/embeddings/", size := 0, data := [], failure := none, rest := stored },
      { name := "word/document.xml", size := 1, data := [0x3C], failure := none,
        rest := stored }] := by
  have hrun : ∃ removed, disarmEntries (.ofEvents []) (.ofArchives []) 0
      (sampleEntries.map Except.ok) { written := [], removed := [] } = .ok
        { written := [
            { name := "word/embeddings/", size := 0, data := [], failure := none, rest := stored },
            { name := "word/document.xml", size := 1, data := [0x3C], failure := none,
              rest := stored }],
          removed := removed } := ⟨_, rfl⟩
  obtain ⟨removed, hrun⟩ := hrun
  refine ((noForbiddenPart_iff ZipCrate.ofArchives_lawful hrun).mpr ?_).1
  simp [sampleEntries, ZipEntry.IsEmpty]
  decide

end Ooxml

end Purgo
