import Mathlib.Data.List.Nodup
import Mathlib.Data.List.Perm.Subperm
import Purgo.PdfActions
import Purgo.PdfFixpoint

/-!
# Rebuilding a document

After the sanitising phase the disarmer prunes, so what the deleted entries alone referred to is
gone as well. What is left is the kept part of the input that can be reached from the trailer, with
every reference into that part intact, and it is a fixed point of the whole rebuild
(`rebuild_survivors`): nothing that has been pruned could have kept anything else alive.
-/

namespace Purgo

open Rust Simulation Relation

namespace Pdf

variable {L : Lopdf}

/-! ## Pruning -/

namespace Graph

variable (G : Graph)

/-- Every object on a path from the trailer is reachable, so no path is cut. -/
theorem path_pruned {o : Object}
    (h : ReflTransGen (fun p q => G.Child p q ∨ G.Deref p q) G.trailer o) :
    ReflTransGen (fun p q => G.pruned.Child p q ∨ G.pruned.Deref p q) G.pruned.trailer o := by
  induction h with
  | refl => exact .refl
  | tail hpath hlast ih =>
    refine ih.tail ?_
    rcases hlast with hchild | ⟨id, rfl, hobject⟩
    · exact .inl hchild
    · exact .inr ⟨id, rfl, hpath, hobject⟩

/-- What stands in a pruned graph can be reached from the trailer. -/
theorem path_of_contains {o : Object} (h : G.pruned.Contains o) :
    ReflTransGen (fun p q => G.Child p q ∨ G.Deref p q) G.trailer o := by
  refine Reached.induction ?_ ?_ h
  · rintro root (rfl | ⟨id, hreachable, hobject⟩)
    · exact .refl
    · exact hreachable.tail (.inr ⟨id, rfl, hobject⟩)
  · intro p q _ hpath hchild
    exact hpath.tail (.inl hchild)

end Graph

/-- Pruning twice is pruning once. -/
theorem pruneObjects_pruneObjects (hL : L.Lawful) {doc : Document}
    (hnodup : (doc.objects.map Prod.fst).Nodup) :
    L.pruneObjects (L.pruneObjects doc) = L.pruneObjects doc := by
  have hkeys : ((L.pruneObjects doc).objects.map Prod.fst).Nodup :=
    hnodup.sublist ((hL.prune_objects doc).map Prod.fst)
  have hreachable : ∀ id, doc.Reachable id → (L.pruneObjects doc).Reachable id := by
    intro id hid
    change (L.pruneObjects doc).graph.Reachable id
    rw [Document.graph_pruneObjects hL]
    exact doc.graph.path_pruned hid
  have hsub : (L.pruneObjects doc).objects ⊆ (L.pruneObjects (L.pruneObjects doc)).objects := by
    rintro ⟨id, o⟩ ho
    exact (hL.mem_prune _ id o).mpr ⟨ho, hreachable id ((hL.mem_prune doc id o).mp ho).2⟩
  have hlength := (List.Nodup.subperm (.of_map Prod.fst hkeys) hsub).length_le
  have hobjects := (hL.prune_objects (L.pruneObjects doc)).eq_of_length_le hlength
  exact Document.ext (hL.prune_trailer _) hobjects (hL.prune_rest _)

/-! ## The rebuilt document -/

/-- A document is rebuilt by sanitising it and pruning what can no longer be reached. -/
theorem rebuild_eq_ok {doc rebuilt : Document} {removed : List RemovedItem} :
    rebuild L doc = .ok (rebuilt, removed) ↔
      ∃ sanitized, (sanitizeDocument L doc).run [] = .ok (sanitized, removed) ∧
        rebuilt = L.pruneObjects sanitized := by
  rw [rebuild]
  rcases (sanitizeDocument L doc).run [] with e | ⟨sanitized, removed'⟩
  · refine ⟨?_, ?_⟩
    · rintro ⟨⟩
    · rintro ⟨sanitized, ⟨⟩, -⟩
  · refine ⟨fun h => ?_, ?_⟩
    · obtain ⟨rfl, rfl⟩ := Prod.mk.inj (Except.ok.inj h)
      exact ⟨sanitized, rfl, rfl⟩
    · rintro ⟨sanitized', h, rfl⟩
      obtain ⟨rfl, rfl⟩ := Prod.mk.inj (Except.ok.inj h)
      rfl

/-- Pruning only takes objects away. -/
theorem Document.WellFormed.pruneObjects (hL : L.Lawful) {doc : Document} (h : doc.WellFormed) :
    (L.pruneObjects doc).WellFormed where
  sorted := h.sorted.sublist (hL.prune_objects doc)
  trailer := by
    rw [hL.prune_trailer]
    exact h.trailer
  objects entry hentry := h.objects entry ((hL.prune_objects doc).subset hentry)

/-- Rebuilding a rebuilt document does nothing to it. -/
theorem rebuild_rebuild (hL : L.Lawful) (doc : LoadedDocument) {rebuilt : Document}
    {removed : List RemovedItem} (h : rebuild L doc.toDocument = .ok (rebuilt, removed)) :
    rebuild L rebuilt = .ok (rebuilt, []) := by
  obtain ⟨sanitized, hrun, rfl⟩ := rebuild_eq_ok.mp h
  have hwell := sanitizeDocument_wellFormed hL doc.wellFormed hrun
  refine rebuild_eq_ok.mpr ⟨L.pruneObjects sanitized, ?_, ?_⟩
  · exact sanitizeDocument_again hL doc.wellFormed hrun (hL.prune_trailer sanitized)
      (fun e he => (hL.prune_objects sanitized).subset he) []
  · exact (pruneObjects_pruneObjects hL hwell.nodup).symm

/-- There is an object of the id in the graph. -/
def Graph.Has (G : Graph) (id : ObjectId) : Prop := ∃ o, G.object id o

/-- Corresponding graphs have objects of the same ids. -/
theorem Correspond.has {R : Object → Object → Prop} {G H : Graph} (h : Correspond R G H)
    (id : ObjectId) : G.Has id ↔ H.Has id := by
  refine ⟨?_, ?_⟩
  · rintro ⟨o, ho⟩
    obtain ⟨q, hq, -⟩ := (h.object id).left o ho
    exact ⟨q, hq⟩
  · rintro ⟨q, hq⟩
    obtain ⟨o, ho, -⟩ := (h.object id).right q hq
    exact ⟨o, ho⟩

/-- **What survives a rebuild**: an object does when it is no payload and can be reached without the
deleted entries and objects. A reference that survives leads to an object as before, unless that
object was a payload. The rebuilt document is well formed, and rebuilding it again removes and
changes nothing. -/
theorem rebuild_survivors (hL : L.Lawful) (doc : LoadedDocument) {rebuilt : Document}
    {removed : List RemovedItem} (h : rebuild L doc.toDocument = .ok (rebuilt, removed)) :
    rebuilt.WellFormed ∧
    (∀ id, rebuilt.graph.Has id ↔ doc.kept.Has id ∧ doc.kept.Reachable id) ∧
    (∀ id, rebuilt.graph.Contains (.reference id) → (rebuilt.graph.Has id ↔ doc.kept.Has id)) ∧
    rebuild L rebuilt = .ok (rebuilt, []) := by
  have hcorr := rebuild_correspond hL doc h
  have hhas : ∀ id, rebuilt.graph.Has id ↔ doc.kept.Has id ∧ doc.kept.Reachable id := by
    intro id
    rw [← hcorr.has id]
    refine ⟨?_, ?_⟩
    · rintro ⟨o, hreachable, ho⟩
      exact ⟨⟨o, ho⟩, hreachable⟩
    · rintro ⟨⟨o, ho⟩, hreachable⟩
      exact ⟨o, hreachable, ho⟩
  refine ⟨?_, hhas, fun id hid => ?_, rebuild_rebuild hL doc h⟩
  · obtain ⟨sanitized, hrun, rfl⟩ := rebuild_eq_ok.mp h
    exact .pruneObjects hL (sanitizeDocument_wellFormed hL doc.wellFormed hrun)
  · obtain ⟨p, hp, hR⟩ := hcorr.contains.right _ hid
    obtain rfl := (hR.reference_iff id).mpr rfl
    rw [hhas id]
    exact and_iff_left (doc.kept.path_of_contains hp)

/-- The sample keeps its catalog. -/
theorem rebuild_survivors_sample :
    ∃ rebuilt removed,
      rebuild sampleLopdf sampleDocument.toDocument = .ok (rebuilt, removed) ∧
      rebuild sampleLopdf rebuilt = .ok (rebuilt, []) := by
  have hrun : ∃ removed, rebuild sampleLopdf sampleDocument.toDocument =
      .ok (sampleLopdf.pruneObjects sampleSanitized, removed) := ⟨_, rfl⟩
  obtain ⟨removed, hrun⟩ := hrun
  exact ⟨_, removed, hrun, (rebuild_survivors Lopdf.ofDocuments_lawful sampleDocument hrun).2.2.2⟩

end Pdf

end Purgo
