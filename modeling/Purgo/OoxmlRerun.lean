import Purgo.OoxmlForest
import Purgo.OoxmlRebuild

/-!
# Rebuilding a package twice

A second run makes the same calls of the ZIP library with the same arguments as the first one, since
what the first one dropped it wrote nothing of. So it succeeds where the first one did
(`disarmEntries_again`). For a relationships part this takes that its text reads back: the elements
on either side of a removed one may come back as one event, but the relationships come back as they
were written (`QuickXml.Rereads`).
-/

namespace Purgo

open Rust

namespace Ooxml

variable {X : QuickXml} {Z : ZipCrate} {part : String}

/-! ## Relationships -/

/-- Where no relationship is flagged, every event is written again. -/
theorem leads_kept (hX : X.Writes) {events : List Event}
    (h : ∀ tag ∈ relationships events, classifyRelationship tag = .ok none) :
    Leads X part events events [] := by
  induction events with
  | nil => exact .nil
  | cons event events ih =>
    have hhead : ∀ tag, event.relationship? = some tag → classifyRelationship tag = .ok none := by
      intro tag htag
      exact h tag (List.mem_filterMap.mpr ⟨event, List.mem_cons_self, htag⟩)
    have hrest := ih fun tag htag => by
      obtain ⟨event', hevent, hrel⟩ := List.mem_filterMap.mp htag
      exact h tag (List.mem_filterMap.mpr ⟨event', List.mem_cons_of_mem _ hevent, hrel⟩)
    exact (Leads.kept hX hhead).append hrest

/-- Events that lead the loop to their end are all that a run reads. -/
theorem Leads.run {events written : List Event} {removed : List RemovedItem}
    (h : Leads X part events written removed) :
    sanitizeEvents X part (events.map Except.ok) =
      .ok { rest := [], written := written, removed := removed } := by
  obtain ⟨n, hn, hrounds⟩ := h ⟨events.map Except.ok, [], []⟩ [] (List.append_nil _).symm
  have hfuel : (events.map Except.ok : List (Exec String Event)).length + 1 =
      n + (events.length - n + 1) := by
    rw [List.length_map]
    omega
  rw [sanitizeEvents, hfuel, loop_of_rounds hrounds]
  rfl

/-- The relationships that a run leaves are not flagged. -/
theorem relationships_left {events : List Event} {st : RelsState}
    (h : sanitizeEvents X part (events.map Except.ok) = .ok st) :
    ∀ tag ∈ relationships st.written, classifyRelationship tag = .ok none := by
  obtain ⟨hwritten, -, hclass⟩ := sanitizeEvents_eq_ok h
  intro tag htag
  rw [hwritten, relationships_outside, List.mem_filter, Bool.not_eq_true'] at htag
  obtain ⟨hvisited, hflag⟩ := htag
  obtain ⟨_ | r, hr⟩ := hclass tag hvisited
  · exact hr
  · rw [flagged, hr] at hflag
    cases hflag

/-- The text that the events are written as reads back, within the bound on a part: with the same
relationships, and to be written as the same text. -/
def QuickXml.Rereads (X : QuickXml) (events : List Event) : Prop :=
  (X.intoInner events).length ≤ maxRelsSize ∧
    ∃ text events', fromUtf8 (X.intoInner events) = some text ∧
      X.readEvents text = events'.map Except.ok ∧
      relationships events' = relationships events ∧ X.intoInner events' = X.intoInner events

/-- What the rewrite leaves of the part reads back. -/
def QuickXml.RereadsPart (X : QuickXml) (raw : List UInt8) : Prop :=
  ∀ text events, fromUtf8 raw = some text → X.readEvents text = events.map Except.ok →
    X.Rereads (outside 0 events)

/-- A part that has been rewritten is rewritten to itself. -/
theorem sanitizeRels_again (hX : X.Writes) {raw out : List UInt8} {removed : List RemovedItem}
    (h : sanitizeRels X raw part = .ok (out, removed)) (hback : X.RereadsPart raw) :
    out.length ≤ maxRelsSize ∧ sanitizeRels X out part = .ok (out, []) := by
  obtain ⟨text, events, st, htext, hevents, hst, rfl, -⟩ := sanitizeRels_eq_ok h
  obtain ⟨hsize, text', events', htext', hevents', hsame, hinner⟩ := hback text events htext hevents
  have hleft := relationships_left hst
  rw [← (sanitizeEvents_eq_ok hst).1] at hsize htext' hsame hinner
  refine ⟨hsize, ?_⟩
  have hleads : Leads X part events' events' [] := leads_kept hX (hsame ▸ hleft)
  have hrun := hleads.run
  rw [sanitizeRels, htext']
  dsimp only
  rw [hevents', hrun, ← hinner]
  rfl

/-! ## The archive -/

/-- What the rewrite leaves of the relationships parts reads back. -/
def QuickXml.RereadsParts (X : QuickXml) (entries : List ZipEntry) : Prop :=
  ∀ entry ∈ entries, Ooxml.decide entry.name = .rewrite → X.RereadsPart entry.data

/-- A part within the bound is read. -/
theorem readEntry_ok {entry : ZipEntry} (hsize : entry.data.length ≤ maxRelsSize)
    (hfailure : entry.failure = none) (name : String) :
    readEntry (.ok entry) name = .ok entry.data := by
  have hread : entry.readToEnd (maxRelsSize + 1) = .ok entry.data := by
    rw [ZipEntry.readToEnd, if_neg (by omega), hfailure]
  refine Exec.bind_eq_ok.mpr ⟨entry, rfl, Exec.bind_eq_ok.mpr ⟨entry.data, ?_, ?_⟩⟩
  · exact Exec.mapErr_eq_ok.mpr hread
  · rw [if_neg (by omega)]
    rfl

/-- From the states of one run to those of the next: what a piece of an archive was rebuilt to is
rebuilt to itself, with nothing removed. -/
def Repeats (X : QuickXml) (Z : ZipCrate) (st st' : State) : Prop :=
  ∃ written : List ZipEntry, st'.written = st.written ++ written ∧ ∀ i removed rest,
    disarmEntries X Z i (written.map Except.ok ++ rest) { written := st.written, removed } =
      disarmEntries X Z (i + written.length) rest { written := st'.written, removed }

theorem Repeats.refl {st : State} {removed : List RemovedItem} :
    Repeats X Z st { st with removed := removed } :=
  ⟨[], (List.append_nil _).symm, fun _ _ _ => rfl⟩

/-- Steps that can be repeated can be repeated one after the other. -/
theorem Repeats.trans {st st' st'' : State} (h : Repeats X Z st st') (h' : Repeats X Z st' st'') :
    Repeats X Z st st'' := by
  obtain ⟨written, hwritten, hagain⟩ := h
  obtain ⟨written', hwritten', hagain'⟩ := h'
  refine ⟨written ++ written', ?_, fun i removed rest => ?_⟩
  · rw [hwritten', hwritten, List.append_assoc]
  · rw [List.map_append, List.append_assoc, hagain, hagain', List.length_append, Nat.add_assoc]

/-- An entry that is rebuilt to itself. -/
theorem Repeats.single {st st' : State} {entry : ZipEntry}
    (hwritten : st'.written = st.written ++ [entry])
    (h : ∀ i removed, disarmEntry X Z i (.ok entry) { written := st.written, removed } =
      .ok { written := st'.written, removed }) : Repeats X Z st st' := by
  refine ⟨[entry], hwritten, fun i removed rest => ?_⟩
  change disarmEntry X Z i (.ok entry) { written := st.written, removed } >>= _ = _
  rw [h i removed]
  rfl

/-- A copied entry is copied again. -/
theorem disarmEntry_copied (hZ : Z.Lawful) {st : State} {entry : ZipEntry}
    {written : List ZipEntry}
    (hkept : Z.isDir entry = true ∨ Ooxml.decide entry.name = .keep)
    (hwritten : Z.rawCopyFileRename st.written entry entry.name = .ok written) :
    Repeats X Z st { st with written := written } := by
  refine .single (hZ.rawCopy hwritten) fun i removed => ?_
  refine Exec.bind_eq_ok.mpr ⟨entry, rfl, ?_⟩
  by_cases hdir : Z.isDir entry = true
  · rw [if_pos hdir]
    refine Exec.bind_eq_ok.mpr ⟨entry, rfl, ?_⟩
    exact Exec.bind_eq_ok.mpr ⟨written, Exec.mapErr_eq_ok.mpr hwritten, rfl⟩
  · rw [if_neg hdir]
    dsimp only
    rw [hkept.resolve_left hdir]
    refine Exec.bind_eq_ok.mpr ⟨entry, rfl, ?_⟩
    exact Exec.bind_eq_ok.mpr ⟨written, Exec.mapErr_eq_ok.mpr hwritten, rfl⟩

/-- A relationships part that is read, rewritten and written. -/
theorem disarmEntry_rewritten (i : Nat) {entry : ZipEntry} (st : State) {cleaned : List UInt8}
    {dropped : List RemovedItem} {started written : List ZipEntry}
    (hfile : Z.isDir entry = false) (hdecide : Ooxml.decide entry.name = .rewrite)
    (hread : readEntry (.ok entry) entry.name = .ok entry.data)
    (hclean : sanitizeRels X entry.data entry.name = .ok (cleaned, dropped))
    (hstarted : Z.startFile st.written entry.name = .ok started)
    (hwritten : Z.writeAll started cleaned = .ok written) :
    disarmEntry X Z i (.ok entry) st =
      .ok { written := written, removed := st.removed ++ dropped } := by
  refine Exec.bind_eq_ok.mpr ⟨entry, rfl, ?_⟩
  rw [hfile, if_neg (by simp)]
  dsimp only
  rw [hdecide]
  refine Exec.bind_eq_ok.mpr ⟨entry.data, hread, ?_⟩
  refine Exec.bind_eq_ok.mpr ⟨(cleaned, dropped), hclean, ?_⟩
  refine Exec.bind_eq_ok.mpr ⟨started, Exec.mapErr_eq_ok.mpr hstarted, ?_⟩
  exact Exec.bind_eq_ok.mpr ⟨written, Exec.mapErr_eq_ok.mpr hwritten, rfl⟩

/-- One round of the loop, the second time. -/
theorem disarmEntry_again (hX : X.Writes) (hZ : Z.Lawful) {i : Nat}
    {byIndex : Exec String ZipEntry} {st st' : State}
    (h : disarmEntry X Z i byIndex st = .ok st')
    (hback : ∀ entry, byIndex = .ok entry → Ooxml.decide entry.name = .rewrite →
      X.RereadsPart entry.data) : Repeats X Z st st' := by
  obtain ⟨entry, hentry, hnext⟩ := Exec.bind_eq_ok.mp h
  clear h
  obtain rfl := Exec.mapErr_eq_ok.mp hentry
  by_cases hdir : Z.isDir entry = true
  · rw [if_pos hdir] at hnext
    obtain ⟨entry', hentry', hnext⟩ := Exec.bind_eq_ok.mp hnext
    obtain rfl := Except.ok.inj (Exec.mapErr_eq_ok.mp hentry')
    obtain ⟨written, hwritten, hnext⟩ := Exec.bind_eq_ok.mp hnext
    obtain rfl := Except.ok.inj hnext
    exact disarmEntry_copied hZ (.inl hdir) (Exec.mapErr_eq_ok.mp hwritten)
  rw [if_neg hdir] at hnext
  dsimp only at hnext
  cases hdecide : Ooxml.decide entry.name with
  | keep =>
    rw [hdecide] at hnext
    obtain ⟨entry', hentry', hnext⟩ := Exec.bind_eq_ok.mp hnext
    obtain rfl := Except.ok.inj (Exec.mapErr_eq_ok.mp hentry')
    obtain ⟨written, hwritten, hnext⟩ := Exec.bind_eq_ok.mp hnext
    obtain rfl := Except.ok.inj hnext
    exact disarmEntry_copied hZ (.inr hdecide) (Exec.mapErr_eq_ok.mp hwritten)
  | drop threat detail =>
    rw [hdecide] at hnext
    obtain ⟨entry', hentry', hnext⟩ := Exec.bind_eq_ok.mp hnext
    obtain rfl := Except.ok.inj hnext
    exact .refl
  | rewrite =>
    rw [hdecide] at hnext
    obtain ⟨raw, hraw, hnext⟩ := Exec.bind_eq_ok.mp hnext
    obtain ⟨entry', hentry', rfl, -⟩ := readEntry_eq_ok hraw
    obtain rfl := Except.ok.inj hentry'
    obtain ⟨⟨cleaned, dropped⟩, hsanitize, hnext⟩ := Exec.bind_eq_ok.mp hnext
    obtain ⟨started, hstarted, hnext⟩ := Exec.bind_eq_ok.mp hnext
    obtain ⟨written, hwritten, hnext⟩ := Exec.bind_eq_ok.mp hnext
    obtain rfl := Except.ok.inj hnext
    obtain ⟨hsize, hagain⟩ := sanitizeRels_again hX hsanitize (hback entry rfl hdecide)
    have hstart := Exec.mapErr_eq_ok.mp hstarted
    have hwrite := Exec.mapErr_eq_ok.mp hwritten
    have hround : ∀ (size : Nat) (rest : List UInt8) (j : Nat) (removed : List RemovedItem),
        disarmEntry X Z j (.ok ⟨entry.name, size, cleaned, none, rest⟩) ⟨st.written, removed⟩ =
          .ok ⟨written, removed⟩ := by
      intro size rest j removed
      have hfile : Z.isDir ⟨entry.name, size, cleaned, none, rest⟩ = false := by
        rw [Bool.not_eq_true, hZ.isDir_eq] at hdir
        rw [hZ.isDir_eq]
        exact hdir
      have hall := disarmEntry_rewritten j ⟨st.written, removed⟩ hfile hdecide
        (readEntry_ok hsize rfl _) hagain hstart hwrite
      rwa [List.append_nil] at hall
    obtain ⟨rest, rfl⟩ := hZ.startFile hstart
    obtain ⟨rest', hend⟩ := hZ.writeAll hwrite
    exact .single hend (hround _ _)

/-- The loop, the second time. -/
theorem disarmEntries_repeats (hX : X.Writes) (hZ : Z.Lawful) {i : Nat} {entries : List ZipEntry}
    {st st' : State} (h : disarmEntries X Z i (entries.map Except.ok) st = .ok st')
    (hback : X.RereadsParts entries) : Repeats X Z st st' := by
  induction entries generalizing i st with
  | nil =>
    obtain rfl := Except.ok.inj h
    exact .refl
  | cons entry entries ih =>
    obtain ⟨st₁, hround, hrest⟩ := Exec.bind_eq_ok.mp h
    have hfirst : Repeats X Z st st₁ := by
      refine disarmEntry_again hX hZ hround ?_
      rintro entry' hentry hdecide
      obtain rfl := Except.ok.inj hentry
      exact hback entry List.mem_cons_self hdecide
    exact hfirst.trans (ih hrest fun e he => hback e (List.mem_cons_of_mem _ he))

/-- What a package was rebuilt to is rebuilt to itself, with nothing removed. -/
theorem disarmEntries_again (hX : X.Writes) (hZ : Z.Lawful) {entries : List ZipEntry} {st : State}
    (h : disarmEntries X Z 0 (entries.map Except.ok) { written := [], removed := [] } = .ok st)
    (hback : X.RereadsParts entries) :
    disarmEntries X Z 0 (st.written.map Except.ok) { written := [], removed := [] } =
      .ok { written := st.written, removed := [] } := by
  obtain ⟨written, hwritten, hagain⟩ := disarmEntries_repeats hX hZ h hback
  have hall := hagain 0 [] []
  rw [hwritten, List.nil_append, List.append_nil] at hall
  rw [hwritten, List.nil_append, hall]
  rfl

/-- An archive that has been written reads back. -/
def ZipCrate.Reopens (Z : ZipCrate) : Prop :=
  ∀ {written : List ZipEntry} {out : List UInt8}, Z.finish written = .ok out →
    Z.openArchive out = .ok (written.map Except.ok)

/-- Disarming the disarmed package. -/
theorem disarmInner_again (hX : X.Writes) (hZ : Z.Lawful) (hopens : Z.Reopens) {data : List UInt8}
    {out : DisarmOutput} (h : disarmInner X Z data = .ok out)
    (hback : ∀ entries, Z.openArchive data = .ok (entries.map Except.ok) →
      X.RereadsParts entries) :
    disarmInner X Z out.bytes = .ok { bytes := out.bytes, removed := [] } := by
  obtain ⟨entries, st, hopen, hrun, hfinish, -⟩ := disarmInner_eq_ok hZ h
  refine Exec.bind_eq_ok.mpr ⟨_, Exec.mapErr_eq_ok.mpr (hopens hfinish), ?_⟩
  refine Exec.bind_eq_ok.mpr ⟨_, disarmEntries_again hX hZ hrun (hback entries hopen), ?_⟩
  exact Exec.bind_eq_ok.mpr ⟨out.bytes, Exec.mapErr_eq_ok.mpr hfinish, rfl⟩

end Ooxml

end Purgo
