import Purgo.PdfFixpoint

/-!
# Dangerous actions in a disarmed document

An action that is written as a dictionary directly under `/A` or `/Next` is deleted with its entry,
and an indirect one with its object. `/Next` may also hold an *array* of actions, and
`isDangerousActionHolder` answers `false` for an array: what is written in it is kept. So the
disarmed document is free of dangerous actions exactly when no dangerous action is written as an
element of an array that is reached as an action (`noDangerousAction_iff`); the other gap, a stream
written directly as an action, is one that no PDF file can spell.
-/

namespace Purgo

open Rust Simulation Relation

namespace Pdf

/-! ## Actions of a graph -/

namespace Graph

variable {G : Graph}

/-- No dangerous action is reached from the action entries. -/
def NoDangerousAction (G : Graph) : Prop := ∀ o, G.Action o → isDangerousActionObject o = false

theorem Holds.child {p q : Object} (h : G.Holds p q) : G.Child p q := by
  rcases h with h | h
  · exact .inr ⟨_, h⟩
  · exact .inr ⟨_, h⟩

/-- What is reached as an action stands in the graph. -/
theorem Action.contains {o : Object} (h : G.Action o) : G.Contains o := by
  refine Reached.induction ?_ ?_ h
  · rintro q ⟨p, hp, hpq⟩
    exact hp.step hpq.child
  · rintro p q - hp (⟨id, -, hq⟩ | hq | hq)
    · exact .start (.inr ⟨id, hq⟩)
    · exact hp.step (.inl hq)
    · exact hp.step (.inr ⟨_, hq⟩)

/-- The ways an object is reached as an action. -/
theorem action_iff {o : Object} : G.Action o ↔
    (∃ p, G.Contains p ∧ G.Holds p o) ∨ (∃ p, G.Action p ∧ G.Deref p o) ∨
      ∃ p, G.Action p ∧ o ∈ p.items := by
  refine ⟨?_, ?_⟩
  · intro h
    rcases reached_iff.mp h with h | ⟨p, hp, hderef | hitem | hnext⟩
    · exact .inl h
    · exact .inr (.inl ⟨p, hp, hderef⟩)
    · exact .inr (.inr ⟨p, hp, hitem⟩)
    · exact .inl ⟨p, Action.contains hp, .inr hnext⟩
  · rintro (h | ⟨p, hp, hderef⟩ | ⟨p, hp, hitem⟩)
    · exact .start h
    · exact hp.step (.inl hderef)
    · exact hp.step (.inr (.inl hitem))

end Graph

/-! ## The condition -/

/-- In what is to be kept of the document, no dangerous action is written as an element of an array
that is reached as an action, nor as a stream under an action entry. -/
def NoHiddenAction (doc : Document) : Prop :=
  (∀ p, doc.kept.pruned.Action p → ∀ item ∈ p.items, isDangerousActionObject item = false) ∧
  ∀ p, doc.kept.pruned.Contains p → ∀ dict content,
    doc.kept.pruned.Holds p (.stream dict content) → isDangerousActionSubtype dict = false

/-- A kept object is not a dangerous action. -/
theorem kept_object {doc : Document} {id : ObjectId} {o : Object} (h : doc.kept.object id o) :
    isDangerousActionObject o = false := by
  obtain ⟨hmem, hpayload⟩ := h
  by_contra hdangerous
  rw [Bool.not_eq_false] at hdangerous
  have hid : id ∈ dangerousActions doc :=
    List.mem_map.mpr ⟨(id, o), List.mem_filter.mpr ⟨hmem, hdangerous⟩, rfl⟩
  rw [isPayload, List.contains_iff_mem.mpr hid] at hpayload
  cases hpayload

/-- The value of a kept action entry is no dangerous action, unless it is a stream. -/
theorem kept_holder {doc : Document} {p o : Object} (h : doc.kept.Holds p o)
    (hstream : ∀ dict content, o = .stream dict content → isDangerousActionSubtype dict = false) :
    isDangerousActionObject o = false := by
  have hholder : isDangerousActionHolder o (dangerousActions doc) = false := by
    have hkey : ∀ key, actionHolderKeys.contains key = true →
        classifyKey key o (dangerousActions doc) = none →
        isDangerousActionHolder o (dangerousActions doc) = false := by
      intro key hcontains hnone
      rw [classifyKey] at hnone
      split_ifs at hnone with _ _ hheld
      rwa [hcontains, Bool.true_and, Bool.not_eq_true] at hheld
    rcases h with ⟨-, hnone⟩ | ⟨-, hnone⟩
    · exact hkey _ (by decide) hnone
    · exact hkey _ (by decide) hnone
  cases o with
  | dictionary dict => exact hholder
  | stream dict content => exact hstream dict content rfl
  | _ => rfl

/-- In the kept part of a document, the condition is all there is to check. -/
theorem kept_noDangerousAction_iff (doc : Document) :
    doc.kept.pruned.NoDangerousAction ↔ NoHiddenAction doc := by
  refine ⟨?_, ?_⟩
  · intro h
    refine ⟨fun p hp item hitem => ?_, fun p hp dict content hholds => ?_⟩
    · exact h item (Graph.action_iff.mpr (.inr (.inr ⟨p, hp, hitem⟩)))
    · exact h _ (Graph.action_iff.mpr (.inl ⟨p, hp, hholds⟩))
  · rintro ⟨hitems, hstreams⟩ o ho
    rcases Graph.action_iff.mp ho with ⟨p, hp, hholds⟩ | ⟨p, -, id, -, -, hobject⟩ | ⟨p, hp, hitem⟩
    · refine kept_holder hholds fun dict content hstream => ?_
      subst hstream
      exact hstreams p hp dict content hholds
    · exact kept_object hobject
    · exact hitems p hp o hitem

/-! ## The disarmed document -/

/-- What a successful run of the disarmer consists of. -/
theorem disarmInner_eq_ok {L : Lopdf} {data : List UInt8} {out : DisarmOutput} :
    disarmInner L data = .ok out ↔ ∃ doc rebuilt, L.loadMem data = .ok doc ∧
      rebuild L doc.toDocument = .ok (rebuilt, out.removed) ∧ L.saveTo rebuilt = .ok out.bytes := by
  rw [disarmInner, Exec.bind_eq_ok]
  refine ⟨?_, ?_⟩
  · rintro ⟨doc, hload, h⟩
    obtain ⟨⟨rebuilt, removed⟩, hrebuild, h⟩ := Exec.bind_eq_ok.mp h
    obtain ⟨bytes, hsave, h⟩ := Exec.bind_eq_ok.mp h
    obtain rfl := Except.ok.inj h
    exact ⟨doc, rebuilt, Exec.mapErr_eq_ok.mp hload, Exec.lift_eq_ok.mp hrebuild,
      Exec.mapErr_eq_ok.mp hsave⟩
  · rintro ⟨doc, rebuilt, hload, hrebuild, hsave⟩
    refine ⟨doc, Exec.mapErr_eq_ok.mpr hload,
      Exec.bind_eq_ok.mpr ⟨(rebuilt, out.removed), Exec.lift_eq_ok.mpr hrebuild, ?_⟩⟩
    exact Exec.bind_eq_ok.mpr ⟨out.bytes, Exec.mapErr_eq_ok.mpr hsave, rfl⟩

/-- The rebuilt document corresponds to the kept part of the input, pruned. -/
theorem rebuild_correspond {L : Lopdf} (hL : L.Lawful) (doc : LoadedDocument) {doc' : Document}
    {removed : List RemovedItem} (hrun : rebuild L doc.toDocument = .ok (doc', removed)) :
    Correspond (Sanitizes L (dangerousActions doc.toDocument)) doc.kept.pruned doc'.graph := by
  cases hsanitize : (sanitizeDocument L doc.toDocument).run [] with
  | error e =>
    rw [rebuild, hsanitize] at hrun
    cases hrun
  | ok result =>
    obtain ⟨sanitized, removed'⟩ := result
    rw [rebuild, hsanitize] at hrun
    obtain ⟨rfl, rfl⟩ := Prod.mk.inj (Except.ok.inj hrun)
    rw [Document.graph_pruneObjects hL]
    exact (sanitizeDocument_correspond hL doc.wellFormed hsanitize).pruned

/-- **When no dangerous action survives**: exactly when none is hidden in an array of actions. -/
theorem noDangerousAction_iff {L : Lopdf} (hL : L.Lawful) (doc : LoadedDocument) {doc' : Document}
    {removed : List RemovedItem} (hrun : rebuild L doc.toDocument = .ok (doc', removed)) :
    doc'.graph.NoDangerousAction ↔ NoHiddenAction doc.toDocument := by
  have hcorr := rebuild_correspond hL doc hrun
  rw [← kept_noDangerousAction_iff]
  refine (hcorr.action.forall_iff fun p q _ _ hR => ?_).symm
  rw [hR.isDangerousActionObject hL]

/-- On the sample document, where the actions are written under keys of their own. -/
theorem noDangerousAction_iff_sample :
    (sampleLopdf.pruneObjects sampleSanitized).graph.NoDangerousAction ↔
      NoHiddenAction sampleDocument.toDocument := by
  have hrun : ∃ removed, rebuild sampleLopdf sampleDocument.toDocument =
      .ok (sampleLopdf.pruneObjects sampleSanitized, removed) := ⟨_, rfl⟩
  obtain ⟨removed, hrun⟩ := hrun
  exact noDangerousAction_iff Lopdf.ofDocuments_lawful sampleDocument hrun

/-- What the trailer refers to is not pruned. -/
theorem contains_of_trailer {doc : Document} {key : Name} {id : ObjectId} {o : Object}
    (htrailer : (key, .reference id) ∈ doc.trailer) (ho : (id, o) ∈ doc.objects)
    (docs : List LoadedDocument) :
    ((Lopdf.ofDocuments docs).pruneObjects doc).graph.Contains o := by
  have hreachable : doc.Reachable id := .single (.inl (.inr ⟨key, htrailer⟩))
  exact .start (.inr ⟨id, (Lopdf.ofDocuments_lawful.mem_prune _ _ _).mpr ⟨ho, hreachable⟩⟩)

/-! ## An action in an array -/

/-- An action that starts a program. -/
def launch : Object := .dictionary [(ascii "S", .name (ascii "Launch"))]

/-- A harmless action that is followed by an array of one dangerous action. -/
def goTo : Object :=
  .dictionary [(ascii "S", .name (ascii "GoTo")), (ascii "Next", .array [launch])]

/-- An annotation with a harmless action, behind which another one follows. -/
def annot : Object := .dictionary [(ascii "A", goTo)]

/-- The catalog, with the annotation in it. -/
def page : Object :=
  .dictionary [(ascii "Type", .name (ascii "Catalog")), (ascii "Annots", .array [annot])]

/-- A document with that action on an annotation. -/
def hiddenLaunch : LoadedDocument where
  trailer := [(ascii "Size", .scalar (.integer 2)), (ascii "Root", .reference ⟨1, 0⟩)]
  objects := [(⟨1, 0⟩, page)]
  rest := version15
  wellFormed := {
    sorted := by decide
    trailer := by simp; decide
    objects := by simp [page, annot, goTo, launch]; decide }

/-- Disarming returns the document as it is, and the dangerous action is reached in it. -/
theorem hiddenLaunch_dangerousAction : ∃ doc' removed,
    rebuild (.ofDocuments [hiddenLaunch]) hiddenLaunch.toDocument = .ok (doc', removed) ∧
      ¬ doc'.graph.NoDangerousAction := by
  let L : Lopdf := .ofDocuments [hiddenLaunch]
  refine ⟨L.pruneObjects hiddenLaunch.toDocument, [], rfl, fun h => ?_⟩
  have hpage : (L.pruneObjects hiddenLaunch.toDocument).graph.Contains page :=
    contains_of_trailer (List.mem_cons_of_mem _ List.mem_cons_self) List.mem_cons_self _
  have hannots := hpage.step (b := .array [annot]) 
    (.inr ⟨ascii "Annots", List.mem_cons_of_mem _ List.mem_cons_self⟩)
  have hannot := hannots.step (b := annot) (.inl List.mem_cons_self)
  have hgoTo : (L.pruneObjects hiddenLaunch.toDocument).graph.Action goTo :=
    .start ⟨annot, hannot, .inl List.mem_cons_self⟩
  have hnext := hgoTo.step (b := .array [launch])
    (.inr (.inr (List.mem_cons_of_mem _ List.mem_cons_self)))
  have hlaunch := hnext.step (b := launch) (.inr (.inl List.mem_cons_self))
  have hsafe := h launch hlaunch
  revert hsafe
  decide

end Pdf

end Purgo
