import Purgo.PdfLibrary
import Purgo.PdfSanitize

/-!
# Sanitising a document twice

A sanitised document is left alone by a second run: no entry of it is classified, no object of it is
a payload, and its own dangerous actions, computed anew, are none. The induction is on the levels
left (`SanitizesAt.unchanged`), since the second run walks what the first one made at the same
depth.
-/

namespace Purgo

open Rust Simulation Threaded

namespace Pdf

variable {L : Lopdf} {dangerous ids : List ObjectId}

/-- Fewer dangerous actions classify fewer entries. -/
theorem classifyKey_mono (hids : ∀ id ∈ ids, id ∈ dangerous) {key : Name} {value : Object}
    (h : classifyKey key value dangerous = none) : classifyKey key value ids = none := by
  have hholder : isDangerousActionHolder value ids = true →
      isDangerousActionHolder value dangerous = true := by
    intro hvalue
    cases value with
    | reference id =>
      exact List.contains_iff_mem.mpr (hids id (List.contains_iff_mem.mp hvalue))
    | _ => exact hvalue
  rw [classifyKey] at h ⊢
  split_ifs at h with hactive hembedded hheld
  rw [if_neg hactive, if_neg hembedded, if_neg]
  rw [Bool.and_eq_true] at hheld ⊢
  rintro ⟨hkey, hvalue⟩
  exact hheld ⟨hkey, hholder hvalue⟩

/-- Entries that are not classified, with values that are left alone, are left alone. -/
theorem sanitizeEntries_unchanged {visit : Object → Reporting Object} {location : String}
    {dict : Dictionary} (hnone : ∀ e ∈ dict, classifyKey e.1 e.2 ids = none)
    (hvisit : ∀ e ∈ dict, ∀ s, (visit e.2).run s = .ok (e.2, s)) (s : List RemovedItem) :
    (sanitizeEntries L visit location ids dict).run s = .ok (dict, s) := by
  have hremove : toRemove ids dict = [] := by
    refine List.filterMap_eq_nil_iff.mpr fun e he => ?_
    rw [Option.map_eq_none_iff]
    exact hnone e he
  rw [sanitizeEntries, hremove]
  refine bind_eq_ok.mpr ⟨dict, s, rfl, mapM_unchanged (fun e he t => ?_) s⟩
  exact bind_eq_ok.mpr ⟨e.2, t, hvisit e he t, rfl⟩

/-- What a run makes of an object is left alone by a run at the same depth. -/
theorem SanitizesAt.unchanged (hL : L.Lawful) (hids : ∀ id ∈ ids, id ∈ dangerous) {levels : Nat}
    {p q : Object} (h : SanitizesAt L dangerous levels p q) (location : String)
    (s : List RemovedItem) : (sanitizeObject L location ids levels q).run s = .ok (q, s) := by
  induction levels generalizing p q s with
  | zero =>
    obtain ⟨-, location', t, t', hrun⟩ := h
    cases hrun
  | succ levels ih =>
    obtain ⟨hkeys, location', t, t', hrun⟩ := h
    have hentries : ∀ {dict dict' : Dictionary}, dict = p.entries →
        (sanitizeEntries L (sanitizeObject L location' dangerous levels) location' dangerous
          dict).run t = .ok (dict', t') →
        (sanitizeEntries L (sanitizeObject L location ids levels) location ids dict').run s =
          .ok (dict', s) := by
      rintro dict dict' rfl hdict
      obtain ⟨left, hperm, hleft⟩ := sanitizeEntries_eq_ok hL hkeys.entries hdict
      have hback : ∀ e' ∈ dict', classifyKey e'.1 e'.2 dangerous = none ∧
          ∃ v, SanitizesAt L dangerous levels v e'.2 := by
        intro e' he'
        obtain ⟨e, he, hkey, u, u', hrun'⟩ := (Matches.of_forall₂ hleft).right e' he'
        obtain ⟨hmem, hnone⟩ := List.mem_filter.mp (hperm.mem_iff.mp he)
        have hat : SanitizesAt L dangerous levels e.2 e'.2 :=
          ⟨hkeys.child (.inr ⟨e.1, hmem⟩), location', u, u', hrun'⟩
        refine ⟨?_, e.2, hat⟩
        rw [hkey, Sanitizes.classifyKey hL ⟨levels, hat⟩]
        exact Option.isNone_iff_eq_none.mp hnone
      refine sanitizeEntries_unchanged (fun e' he' => ?_) (fun e' he' u => ?_) s
      · exact classifyKey_mono hids (hback e' he').1
      · obtain ⟨v, hat⟩ := (hback e' he').2
        exact ih hat u
    rcases sanitizeObject_cases hrun with ⟨dict, dict', rfl, rfl, hdict⟩ |
      ⟨dict, dict', content, rfl, rfl, hdict⟩ | ⟨items, items', rfl, rfl, hitems⟩ |
      ⟨hnil, hnil', rfl, -⟩
    · exact map_eq_ok.mpr ⟨dict', hentries rfl hdict, rfl⟩
    · exact map_eq_ok.mpr ⟨dict', hentries rfl hdict, rfl⟩
    · refine map_eq_ok.mpr ⟨items', mapM_unchanged (fun q hq u => ?_) s, rfl⟩
      obtain ⟨p, hp, u₁, u₂, hrun'⟩ := (Matches.of_forall₂ (mapM_eq_ok hitems)).right q hq
      exact ih ⟨hkeys.child (.inl hp), location', u₁, u₂, hrun'⟩ u
    · cases q with
      | dictionary dict =>
        obtain rfl : dict = [] := hnil
        exact map_eq_ok.mpr ⟨[], sanitizeEntries_unchanged (by simp) (by simp) s, rfl⟩
      | stream dict content =>
        obtain rfl : dict = [] := hnil
        exact map_eq_ok.mpr ⟨[], sanitizeEntries_unchanged (by simp) (by simp) s, rfl⟩
      | array items =>
        obtain rfl : items = [] := hnil'
        rfl
      | scalar _ | name _ | string _ _ | reference _ => rfl

/-- No object of a sanitised document is a payload, and none is a dangerous action. -/
theorem sanitizeDocument_objects (hL : L.Lawful) {doc doc' : Document} {s s' : List RemovedItem}
    (h : doc.WellFormed) (hrun : (sanitizeDocument L doc).run s = .ok (doc', s')) {id : ObjectId}
    {o : Object} (ho : (id, o) ∈ doc'.objects) :
    id ∉ dangerousActions doc ∧ isEmbeddedFileObject o = false ∧
      isDangerousActionObject o = false := by
  obtain ⟨p, ⟨hp, hpayload⟩, hR⟩ := ((sanitizeDocument_correspond hL h hrun).object id).right o ho
  rw [isPayload, Bool.or_eq_false_iff] at hpayload
  have hid : id ∉ dangerousActions doc := by
    rw [← List.contains_iff_mem, hpayload.1]
    simp
  refine ⟨hid, (hR.isEmbeddedFileObject hL).trans hpayload.2, ?_⟩
  rw [hR.isDangerousActionObject hL]
  by_contra hdangerous
  rw [Bool.not_eq_false] at hdangerous
  exact hid (List.mem_map.mpr ⟨(id, p), List.mem_filter.mpr ⟨hp, hdangerous⟩, rfl⟩)

/-- Nothing is done to a sanitised document, whichever of its objects are left in it. -/
theorem sanitizeDocument_again (hL : L.Lawful) {doc doc' kept : Document} {s s' : List RemovedItem}
    (h : doc.WellFormed) (hrun : (sanitizeDocument L doc).run s = .ok (doc', s'))
    (hkept : kept.trailer = doc'.trailer) (hsub : ∀ e ∈ kept.objects, e ∈ doc'.objects)
    (t : List RemovedItem) : (sanitizeDocument L kept).run t = .ok (kept, t) := by
  obtain ⟨htrailer, objects, hobjects, hleft⟩ := sanitizeDocument_eq_ok h hrun
  have hids : ∀ id ∈ ([] : List ObjectId), id ∈ dangerousActions doc := by simp
  have hempty : dangerousActions kept = [] := by
    rw [dangerousActions, List.map_eq_nil_iff, List.filter_eq_nil_iff]
    rintro ⟨id, o⟩ ho
    rw [(sanitizeDocument_objects hL h hrun (hsub _ ho)).2.2]
    simp
  have htrailer' : (sanitizeDictionary L "trailer" [] maxDepth kept.trailer).run t =
      .ok (kept.trailer, t) := by
    have hsame := htrailer.unchanged hL hids "trailer" t
    obtain ⟨trailer, htrailer', hdict⟩ := map_eq_ok.mp hsame
    rw [Object.dictionary.injEq] at hdict
    rw [hkept]
    rwa [← hdict] at htrailer'
  have hobjects' : (kept.objects.mapM (sanitizeEntry L [])).run t = .ok (kept.objects, t) := by
    refine mapM_unchanged (fun e' he' u => ?_) t
    have hmem := hsub e' he'
    rw [hleft] at hmem
    obtain ⟨e, -, hid, hat⟩ :=
      (Matches.of_forall₂ hobjects).right e' (List.mem_filter.mp hmem).1
    exact bind_eq_ok.mpr ⟨e'.2, u, hat.unchanged hL hids _ u, rfl⟩
  have hsweep : (sweep [] kept.objects).run t = .ok (kept.objects, t) := by
    have hnone : kept.objects.filter (isPayload []) = [] := by
      refine List.filter_eq_nil_iff.mpr ?_
      rintro ⟨id, o⟩ ho
      simp [isPayload, (sanitizeDocument_objects hL h hrun (hsub _ ho)).2.1]
    rw [sweep, hnone]
    rfl
  rw [sanitizeDocument, hempty]
  refine bind_eq_ok.mpr ⟨_, t, htrailer', bind_eq_ok.mpr ⟨_, t, hobjects', ?_⟩⟩
  exact bind_eq_ok.mpr ⟨_, t, hsweep, rfl⟩

/-- The second run. -/
theorem sanitizeDocument_unchanged (hL : L.Lawful) {doc doc' : Document} {s s' : List RemovedItem}
    (h : doc.WellFormed) (hrun : (sanitizeDocument L doc).run s = .ok (doc', s'))
    (t : List RemovedItem) : (sanitizeDocument L doc').run t = .ok (doc', t) :=
  sanitizeDocument_again hL h hrun rfl (fun _ he => he) t

/-- **Sanitising is a clean fixed point**: nowhere in the sanitised document is an entry classified
or an object a payload, and a second run returns the document with nothing removed. -/
theorem sanitizeDocument_clean (hL : L.Lawful) (doc : LoadedDocument) {doc' : Document}
    {removed : List RemovedItem}
    (hrun : (sanitizeDocument L doc.toDocument).run [] = .ok (doc', removed)) :
    (∀ o, doc'.graph.Contains o → ∀ key value, (key, value) ∈ o.entries →
      classifyKey key value (dangerousActions doc.toDocument) = none) ∧
    (∀ id o, (id, o) ∈ doc'.objects →
      id ∉ dangerousActions doc.toDocument ∧ isEmbeddedFileObject o = false) ∧
    (sanitizeDocument L doc').run [] = .ok (doc', []) := by
  have hcorr := sanitizeDocument_correspond hL doc.wellFormed hrun
  refine ⟨fun o ho key value hentry => ?_, fun id o ho => ?_,
    sanitizeDocument_unchanged hL doc.wellFormed hrun []⟩
  · obtain ⟨p, -, hR⟩ := hcorr.contains.right o ho
    obtain ⟨v, ⟨-, hnone⟩, hv⟩ := (hR.entry hL key).right value hentry
    rw [hv.classifyKey hL]
    exact hnone
  · obtain ⟨hid, hembedded, -⟩ := sanitizeDocument_objects hL doc.wellFormed hrun ho
    exact ⟨hid, hembedded⟩

/-- A catalog with an action of each kind of spelling and an embedded file. -/
def sampleDocument : LoadedDocument where
  trailer := [(ascii "Size", .scalar (.integer 4)), (ascii "Root", .reference ⟨1, 0⟩)]
  objects := [
    (⟨1, 0⟩, .dictionary [
      (ascii "Type", .name (ascii "Catalog")),
      (ascii "OpenAction", .reference ⟨2, 0⟩),
      (ascii "Annots", .array [.dictionary [
        (ascii "A", .dictionary [(ascii "S", .name (ascii "URI"))]),
        (ascii "Next", .reference ⟨2, 0⟩),
        (ascii "Subtype", .name (ascii "Link"))]])]),
    (⟨2, 0⟩, .dictionary [(ascii "S", .name (ascii "Launch"))]),
    (⟨3, 0⟩, .stream [
      (ascii "Type", .name (ascii "EmbeddedFile")),
      (ascii "Length", .scalar (.integer 2))] [0x4D, 0x5A])]
  rest := version15
  wellFormed := {
    sorted := by decide
    trailer := by simp; decide
    objects := by simp; decide }

-- the file itself, with the offsets of its three objects
example : sampleDocument.toDocument.write =
    ascii "%PDF-1.5\n%" ++ [0xBB, 0xAD, 0xC0, 0xDE] ++ ascii "\n" ++
    ascii "1 0 obj\n<</Type/Catalog/OpenAction 2 0 R" ++
    ascii "/Annots[<</A<</S/URI>>/Next 2 0 R" ++ ascii "/Subtype/Link>>]>>\nendobj\n" ++
    ascii "2 0 obj\n<</S/Launch>>\nendobj\n" ++
    ascii "3 0 obj\n<</Type/EmbeddedFile/Length 2>>" ++ ascii "stream\nMZ\nendstream\nendobj\n" ++
    ascii "xref\n0 4\n" ++ ascii "0000000000 65535 f \n" ++ ascii "0000000015 00000 n \n" ++
    ascii "0000000114 00000 n \n" ++ ascii "0000000143 00000 n \n" ++
    ascii "trailer\n<</Size 4/Root 1 0 R>>\n" ++ ascii "startxref\n209\n%%EOF" := by
  decide +kernel

/-- What is left of it. -/
def sampleSanitized : Document where
  trailer := [(ascii "Size", .scalar (.integer 4)), (ascii "Root", .reference ⟨1, 0⟩)]
  objects := [
    (⟨1, 0⟩, .dictionary [
      (ascii "Type", .name (ascii "Catalog")),
      (ascii "Annots", .array [.dictionary [
        (ascii "Subtype", .name (ascii "Link"))]])])]
  rest := version15

/-- A library that opens the sample. -/
noncomputable def sampleLopdf : Lopdf := .ofDocuments [sampleDocument]

/-- The sample is sanitised once and for all. -/
theorem sanitizeDocument_clean_sample :
    (sanitizeDocument sampleLopdf sampleSanitized).run [] = .ok (sampleSanitized, []) := by
  have hrun : ∃ removed, (sanitizeDocument sampleLopdf sampleDocument.toDocument).run [] =
      .ok (sampleSanitized, removed) := ⟨_, rfl⟩
  obtain ⟨removed, hrun⟩ := hrun
  exact (sanitizeDocument_clean Lopdf.ofDocuments_lawful sampleDocument hrun).2.2

end Pdf

end Purgo
