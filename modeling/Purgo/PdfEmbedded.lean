import Purgo.PdfActions

/-!
# Embedded files in a disarmed document

The payload sweep removes a file specification or an embedded file that is an indirect object. One
that is written inline, in another object or in the trailer, is kept, and so is a trailer that is
one itself.
-/

namespace Purgo

open Rust Simulation Relation

namespace Pdf

/-- No file specification or embedded file stands in the graph. -/
def Graph.NoEmbeddedFile (G : Graph) : Prop := ∀ o, G.Contains o → isEmbeddedFileObject o = false

/-- In what is to be kept of the document, neither the trailer nor anything written inline is a file
specification or an embedded file. -/
def NoInlineEmbeddedFile (doc : Document) : Prop :=
  isEmbeddedFileObject (.dictionary doc.trailer) = false ∧
  ∀ p, doc.kept.pruned.Contains p → ∀ q, doc.kept.pruned.Child p q → isEmbeddedFileObject q = false

/-- In the kept part of a document, the condition is all there is to check. -/
theorem kept_noEmbeddedFile_iff (doc : Document) :
    doc.kept.pruned.NoEmbeddedFile ↔ NoInlineEmbeddedFile doc := by
  refine ⟨?_, ?_⟩
  · intro h
    exact ⟨h _ (.start (.inl rfl)), fun p hp q hpq => h q (hp.step hpq)⟩
  · rintro ⟨htrailer, hchild⟩ o ho
    rcases reached_iff.mp ho with (rfl | ⟨id, -, -, hpayload⟩) | ⟨p, hp, hpo⟩
    · exact htrailer
    · exact (Bool.or_eq_false_iff.mp hpayload).2
    · exact hchild p hp o hpo

/-- **When no embedded file survives**: exactly when none is written inline. -/
theorem noEmbeddedFile_iff {L : Lopdf} (hL : L.Lawful) (doc : LoadedDocument) {doc' : Document}
    {removed : List RemovedItem} (hrun : rebuild L doc.toDocument = .ok (doc', removed)) :
    doc'.graph.NoEmbeddedFile ↔ NoInlineEmbeddedFile doc.toDocument := by
  have hcorr := rebuild_correspond hL doc hrun
  rw [← kept_noEmbeddedFile_iff]
  refine (hcorr.contains.forall_iff fun p q _ _ hR => ?_).symm
  rw [hR.isEmbeddedFileObject hL]

/-- On the sample document, where the embedded file is an indirect object. -/
theorem noEmbeddedFile_iff_sample :
    (sampleLopdf.pruneObjects sampleSanitized).graph.NoEmbeddedFile ↔
      NoInlineEmbeddedFile sampleDocument.toDocument := by
  have hrun : ∃ removed, rebuild sampleLopdf sampleDocument.toDocument =
      .ok (sampleLopdf.pruneObjects sampleSanitized, removed) := ⟨_, rfl⟩
  obtain ⟨removed, hrun⟩ := hrun
  exact noEmbeddedFile_iff Lopdf.ofDocuments_lawful sampleDocument hrun

/-! ## An inline file specification -/

/-- A file specification for a file with a telling name. -/
def filespec : Object :=
  .dictionary [(ascii "Type", .name (ascii "Filespec")),
    (ascii "F", .string (ascii "evil.exe") .literal)]

/-- The catalog, with the specification written out under `/AF`. -/
def attaching : Object :=
  .dictionary [(ascii "Type", .name (ascii "Catalog")), (ascii "AF", .array [filespec])]

/-- A document with an inline file specification. -/
def inlineFilespec : LoadedDocument where
  trailer := [(ascii "Size", .scalar (.integer 2)), (ascii "Root", .reference ⟨1, 0⟩)]
  objects := [(⟨1, 0⟩, attaching)]
  rest := version15
  wellFormed := {
    sorted := by decide
    trailer := by simp; decide
    objects := by simp [attaching, filespec]; decide }

/-- Disarming returns the document as it is. -/
theorem inlineFilespec_embeddedFile : ∃ doc' removed,
    rebuild (.ofDocuments [inlineFilespec]) inlineFilespec.toDocument = .ok (doc', removed) ∧
      ¬ doc'.graph.NoEmbeddedFile := by
  let L : Lopdf := .ofDocuments [inlineFilespec]
  refine ⟨L.pruneObjects inlineFilespec.toDocument, [], rfl, fun h => ?_⟩
  have hcatalog : (L.pruneObjects inlineFilespec.toDocument).graph.Contains attaching :=
    contains_of_trailer (List.mem_cons_of_mem _ List.mem_cons_self) List.mem_cons_self _
  have hfiles := hcatalog.step (b := .array [filespec]) 
    (.inr ⟨ascii "AF", List.mem_cons_of_mem _ List.mem_cons_self⟩)
  have hfilespec := hfiles.step (b := filespec) (.inl List.mem_cons_self)
  have hsafe := h filespec hfilespec
  revert hsafe
  decide

end Pdf

end Purgo
