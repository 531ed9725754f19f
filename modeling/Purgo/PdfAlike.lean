import Mathlib.Data.List.TakeDrop
import Purgo.PdfFilter

/-!
# Documents that are rebuilt the same

What is under a deleted entry, and what a payload holds, the disarmer only measures. So two
documents that differ in nothing else are rebuilt to one document with one report (`rebuild_alike`):
the two runs go through the same entries in the same order, and fail at the same place when they
fail.

An entry may be moved when another one is deleted. Which one is moved does not depend on the values
(`Lopdf.MovesByKey`), or the two documents would come out in two orders.
-/

namespace Purgo

open Rust Threaded

namespace Pdf

mutual

/-- Two objects that differ only in hidden entries, and in the bytes of strings and streams of the
same length where these are a payload. -/
inductive Object.Alike (hidden : Name → Object → Object → Prop) (payload : Bool) :
    Object → Object → Prop
  | refl (o : Object) : Object.Alike hidden payload o o
  | string {bytes bytes' : List UInt8} {format format' : StringFormat} : payload = true →
      bytes.length = bytes'.length →
      Object.Alike hidden payload (.string bytes format) (.string bytes' format')
  | array {items items' : List Object} : List.Forall₂ (Object.Alike hidden payload) items items' →
      Object.Alike hidden payload (.array items) (.array items')
  | dictionary {dict dict' : Dictionary} : List.Forall₂ (Entry.Alike hidden payload) dict dict' →
      Object.Alike hidden payload (.dictionary dict) (.dictionary dict')
  | stream {dict dict' : Dictionary} {content content' : List UInt8} :
      List.Forall₂ (Entry.Alike hidden payload) dict dict' →
      (content = content' ∨ payload = true ∧ content.length = content'.length) →
      Object.Alike hidden payload (.stream dict content) (.stream dict' content')

/-- Two entries under one key, with values that differ so or are hidden. -/
inductive Entry.Alike (hidden : Name → Object → Object → Prop) (payload : Bool) :
    Name × Object → Name × Object → Prop
  | kept {key : Name} {value value' : Object} : Object.Alike hidden payload value value' →
      Entry.Alike hidden payload (key, value) (key, value')
  | hidden {key : Name} {value value' : Object} : hidden key value value' →
      Entry.Alike hidden payload (key, value) (key, value')

end

/-- Both values are deleted under the key, and the same is reported of them. -/
def Discarded (dangerous : List ObjectId) (key : Name) (value value' : Object) : Prop :=
  objectSize value = objectSize value' ∧ ∃ threat,
    classifyKey key value dangerous = some threat ∧ classifyKey key value' dangerous = some threat

/-- Where nothing is hidden. -/
def Nothing (_ : Name) (_ _ : Object) : Prop := False

section

variable {hidden : Name → Object → Object → Prop} {payload : Bool}

theorem Entry.Alike.key_eq {e e' : Name × Object} (h : Entry.Alike hidden payload e e') :
    e.1 = e'.1 := by
  cases h with
  | kept _ => rfl
  | hidden _ => rfl

/-- What is hidden may differ, but not in size, so the reports cannot differ either. -/
theorem Object.Alike.objectSize_eq
    (hhidden : ∀ key value value', hidden key value value' → objectSize value = objectSize value')
    {p q : Object} (h : p.Alike hidden payload q) : objectSize p = objectSize q := by
  induction p using Object.induction generalizing q with
  | step p ih =>
    cases h with
    | refl => rfl
    | string _ hlength => exact hlength
    | stream _ hcontent =>
      rcases hcontent with rfl | ⟨-, hlength⟩
      · rfl
      · exact hlength
    | @array items items' hitems =>
      rw [objectSize, objectSize, itemsSize_eq, itemsSize_eq]
      refine congrArg List.sum (map_eq_of_forall₂ ?_).symm
      refine ((List.forall₂_and_left _ _).mpr
        ⟨fun q hq => @ih q (child_array hq), hitems⟩).imp ?_
      rintro p q ⟨hsize, halike⟩
      exact (hsize halike).symm
    | @dictionary dict dict' hdict =>
      rw [objectSize, objectSize, entriesSize_eq, entriesSize_eq]
      refine congrArg List.sum (map_eq_of_forall₂ ?_).symm
      refine ((List.forall₂_and_left _ _).mpr
        ⟨fun e he => @ih e.2 (child_dictionary he), hdict⟩).imp ?_
      rintro e e' ⟨hsize, halike⟩
      cases halike with
      | kept hvalue => rw [hsize hvalue]
      | hidden hvalue => rw [hhidden _ _ _ hvalue]

/-- Objects that are alike are the same when nothing in them is hidden. -/
theorem Object.Alike.eq {p q : Object} (h : p.Alike Nothing false q) : p = q := by
  induction p using Object.induction generalizing q with
  | step p ih =>
    have hentries : ∀ {dict dict' : Dictionary}, (∀ e ∈ dict, p.Child e.2) →
        List.Forall₂ (Entry.Alike Nothing false) dict dict' → dict = dict' := by
      intro dict dict' hchild hdict
      rw [← List.forall₂_eq_eq_eq]
      refine ((List.forall₂_and_left _ _).mpr
        ⟨fun e he => @ih e.2 (hchild e he), hdict⟩).imp ?_
      rintro e e' ⟨heq, halike⟩
      cases halike with
      | kept hvalue => exact congrArg (Prod.mk _) (heq hvalue)
      | hidden hvalue => exact hvalue.elim
    cases h with
    | refl => rfl
    | string hpayload _ => cases hpayload
    | array hitems =>
      refine congrArg Object.array ?_
      rw [← List.forall₂_eq_eq_eq]
      refine ((List.forall₂_and_left _ _).mpr
        ⟨fun q hq => @ih q (child_array hq), hitems⟩).imp ?_
      rintro p q ⟨heq, halike⟩
      exact heq halike
    | dictionary hdict => rw [hentries (fun e he => child_dictionary he) hdict]
    | stream hdict hcontent =>
      rw [hentries (fun e he => child_stream he) hdict]
      rcases hcontent with rfl | ⟨hpayload, -⟩
      · rfl
      · cases hpayload

/-- A name is found under a key at which nothing is hidden. -/
theorem getName_alike {key : Name} (hkey : ∀ value value', ¬ hidden key value value')
    {dict dict' : Dictionary} (h : List.Forall₂ (Entry.Alike hidden payload) dict dict') :
    Dictionary.getName dict key = Dictionary.getName dict' key := by
  induction h with
  | nil => rfl
  | @cons e e' dict dict' he _ ih =>
    obtain ⟨key', value⟩ := e
    rw [Dictionary.getName, Dictionary.get, List.lookup_cons, Dictionary.getName, Dictionary.get]
    obtain ⟨key'', value'⟩ := e'
    obtain rfl : key' = key'' := he.key_eq
    rw [List.lookup_cons]
    cases hfound : key == key' with
    | false => exact ih
    | true =>
      obtain rfl := beq_iff_eq.mp hfound
      cases he with
      | kept hvalue =>
        cases hvalue with
        | _ => rfl
      | hidden hvalue => exact absurd hvalue (hkey _ _)

end

/-! ## Classifying -/

variable {dangerous : List ObjectId} {payload : Bool}

/-- Nothing is discarded under the keys by which objects are recognised. -/
theorem not_discarded {key : Name} (hkey : key = ascii "S" ∨ key = ascii "Type")
    (value value' : Object) : ¬ Discarded dangerous key value value' := by
  rintro ⟨-, threat, hthreat, -⟩
  have hplain : activeContentKeys.contains key = false ∧ embeddedFileKeys.contains key = false ∧
      actionHolderKeys.contains key = false := by
    rcases hkey with rfl | rfl
    · decide
    · decide
  rw [classifyKey, hplain.1, hplain.2.1, hplain.2.2] at hthreat
  cases hthreat

theorem isDangerousActionSubtype_alike {dict dict' : Dictionary}
    (h : List.Forall₂ (Entry.Alike (Discarded dangerous) payload) dict dict') :
    isDangerousActionSubtype dict = isDangerousActionSubtype dict' := by
  rw [isDangerousActionSubtype, isDangerousActionSubtype,
    getName_alike (not_discarded (.inl rfl)) h]

theorem Object.Alike.isDangerousActionObject {p q : Object}
    (h : p.Alike (Discarded dangerous) payload q) :
    Pdf.isDangerousActionObject p = Pdf.isDangerousActionObject q := by
  cases h with
  | dictionary hdict => exact isDangerousActionSubtype_alike hdict
  | stream hdict _ => exact isDangerousActionSubtype_alike hdict
  | _ => rfl

theorem Object.Alike.isDangerousActionHolder {p q : Object}
    (h : p.Alike (Discarded dangerous) payload q) (ids : List ObjectId) :
    Pdf.isDangerousActionHolder p ids = Pdf.isDangerousActionHolder q ids := by
  cases h with
  | dictionary hdict => exact isDangerousActionSubtype_alike hdict
  | _ => rfl

theorem Object.Alike.isEmbeddedFileObject {hidden : Name → Object → Object → Prop}
    (hhidden : ∀ value value', ¬ hidden (ascii "Type") value value') {p q : Object}
    (h : p.Alike hidden payload q) :
    Pdf.isEmbeddedFileObject p = Pdf.isEmbeddedFileObject q := by
  cases h with
  | dictionary hdict => simp only [Pdf.isEmbeddedFileObject, getName_alike hhidden hdict]
  | stream hdict _ => simp only [Pdf.isEmbeddedFileObject, getName_alike hhidden hdict]
  | _ => rfl

theorem Entry.Alike.classifyKey {e e' : Name × Object}
    (h : Entry.Alike (Discarded dangerous) payload e e') :
    Pdf.classifyKey e.1 e.2 dangerous = Pdf.classifyKey e'.1 e'.2 dangerous := by
  cases h with
  | kept hvalue => simp only [Pdf.classifyKey, hvalue.isDangerousActionHolder]
  | hidden hvalue =>
    obtain ⟨-, threat, hthreat, hthreat'⟩ := hvalue
    exact hthreat.trans hthreat'.symm

/-- The same entries are deleted, and the same is reported of them. -/
theorem flagged_alike {dict dict' : Dictionary}
    (h : List.Forall₂ (Entry.Alike (Discarded dangerous) payload) dict dict') :
    (flagged dangerous dict').map Prod.fst = (flagged dangerous dict).map Prod.fst ∧
      ∀ location, (flagged dangerous dict').map (entryItem location) =
        (flagged dangerous dict).map (entryItem location) := by
  have hboth : List.Forall₂ (fun x x' => x'.1 = x.1 ∧
      ∀ location, entryItem location x' = entryItem location x)
      (flagged dangerous dict) (flagged dangerous dict') := by
    induction h with
    | nil => exact .nil
    | @cons e e' dict dict' he _ ih =>
      have hclass := he.classifyKey
      have hkey := he.key_eq
      have hsize : objectSize e.2 = objectSize e'.2 := by
        cases he with
        | kept hvalue => exact hvalue.objectSize_eq fun _ _ _ h => h.1
        | hidden hvalue => exact hvalue.1
      rw [flagged, flagged, List.filterMap_cons, List.filterMap_cons, ← hclass]
      cases Pdf.classifyKey e.1 e.2 dangerous with
      | none => exact ih
      | some threat =>
        refine .cons ⟨hkey.symm, fun location => ?_⟩ ih
        simp only [entryItem, hkey, hsize]
  exact ⟨map_eq_of_forall₂ (hboth.imp fun _ _ h => h.1),
    fun location => map_eq_of_forall₂ (hboth.imp fun _ _ h => h.2 location)⟩

/-! ## Sanitising -/

variable {L : Lopdf}

/-- Which entry is moved where does not depend on the values. -/
def Lopdf.MovesByKey (L : Lopdf) : Prop :=
  ∀ (R : Name × Object → Name × Object → Prop), (∀ e e', R e e' → e.1 = e'.1) →
    ∀ (dict dict' : Dictionary) (key : Name), List.Forall₂ R dict dict' →
      List.Forall₂ R (L.remove dict key) (L.remove dict' key)

/-- What remains of alike dictionaries is alike. -/
theorem remaining_alike (hmoves : L.MovesByKey) {dict dict' : Dictionary}
    (h : List.Forall₂ (Entry.Alike (Discarded dangerous) payload) dict dict') :
    List.Forall₂ (Entry.Alike (Discarded dangerous) payload) (remaining L dangerous dict)
      (remaining L dangerous dict') := by
  have hkeys : ∀ (keys : List Name) {left left' : Dictionary},
      List.Forall₂ (Entry.Alike (Discarded dangerous) payload) left left' →
      List.Forall₂ (Entry.Alike (Discarded dangerous) payload)
        (keys.foldl L.remove left) (keys.foldl L.remove left') := by
    intro keys
    induction keys with
    | nil => exact id
    | cons key keys ih =>
      intro left left' hleft
      exact ih (hmoves _ (fun _ _ he => he.key_eq) _ _ key hleft)
  have hfold : ∀ d : Dictionary, remaining L dangerous d =
      ((flagged dangerous d).map Prod.fst).foldl L.remove d := by
    intro d
    rw [remaining, List.foldl_map]
  rw [hfold, hfold, (flagged_alike h).1]
  exact hkeys _ h

/-- The entries of two dictionaries that are alike, when their values come out alike. -/
theorem sanitizeEntries_alike (hL : L.Lawful) (hmoves : L.MovesByKey)
    {visit : Object → Reporting Object} {location : String} {dict dict' : Dictionary}
    (hkeys : dict.UniqueKeys) (hkeys' : dict'.UniqueKeys)
    (h : List.Forall₂ (Entry.Alike (Discarded dangerous) payload) dict dict')
    (hvisit : ∀ e ∈ dict, ∀ e' ∈ dict', e.2.Alike (Discarded dangerous) payload e'.2 →
      Coupled (Object.Alike Nothing payload) (visit e.2) (visit e'.2)) :
    Coupled (List.Forall₂ (Entry.Alike Nothing payload))
      (sanitizeEntries L visit location dangerous dict)
      (sanitizeEntries L visit location dangerous dict') := by
  have hkept : ∀ {e : Name × Object} {d : Dictionary}, d.UniqueKeys →
      e ∈ remaining L dangerous d → e ∈ d ∧ classifyKey e.1 e.2 dangerous = none := by
    intro e d hd he
    have hmem := (remaining_perm hL dangerous hd).mem_iff.mp he
    exact (List.mem_filter.mp hmem).imp_right Option.isNone_iff_eq_none.mp
  have hrest : Coupled (List.Forall₂ (Entry.Alike Nothing payload))
      ((remaining L dangerous dict).mapM
        fun entry : Name × Object => do return (entry.1, ← visit entry.2))
      ((remaining L dangerous dict').mapM
        fun entry : Name × Object => do return (entry.1, ← visit entry.2)) := by
    refine .mapM (remaining_alike hmoves h) fun e he e' he' halike => ?_
    -- no entry that is left is a hidden one
    obtain ⟨hin, hnone⟩ := hkept hkeys he
    cases halike with
    | kept hvalue =>
      exact (hvisit _ hin _ (hkept hkeys' he').1 hvalue).bind fun q q' hq => .pure (.kept hq)
    | hidden hvalue =>
      obtain ⟨-, threat, hthreat, -⟩ := hvalue
      rw [hnone] at hthreat
      cases hthreat
  refine hrest.of_run_eq fun s => ⟨_, sanitizeEntries_run hL visit location dangerous hkeys s, ?_⟩
  rw [sanitizeEntries_run hL visit location dangerous hkeys' s, (flagged_alike h).2 location]

/-- **Objects that are alike are sanitised alike**: with the same report, to objects in which
nothing is hidden any more. -/
theorem sanitizeObject_alike (hL : L.Lawful) (hmoves : L.MovesByKey) (location : String)
    (levels : Nat) {p q : Object} (hp : p.UniqueKeys) (hq : q.UniqueKeys)
    (h : p.Alike (Discarded dangerous) payload q) :
    Coupled (Object.Alike Nothing payload) (sanitizeObject L location dangerous levels p)
      (sanitizeObject L location dangerous levels q) := by
  induction levels generalizing p q with
  | zero => exact fun s => .inl ⟨_, rfl, rfl⟩ -- too deep in one is too deep in the other
  | succ levels ih =>
    cases h with
    | refl => exact .refl .refl _
    | string hpayload hlength => exact .pure (.string hpayload hlength)
    | @array items items' hitems =>
      have hmapM := Coupled.mapM hitems fun p' hp' q' hq' halike =>
        ih (hp.child (Object.child_array hp')) (hq.child (Object.child_array hq')) halike
      exact hmapM.map fun _ _ hleft => .array hleft
    | dictionary hdict =>
      refine (sanitizeEntries_alike hL hmoves hp.entries hq.entries hdict ?_).map ?_
      · intro e he e' he' halike
        exact ih (hp.child (Object.child_dictionary he)) (hq.child (Object.child_dictionary he'))
          halike
      · exact fun _ _ hleft => .dictionary hleft
    | stream hdict hcontent =>
      refine (sanitizeEntries_alike hL hmoves hp.entries hq.entries hdict ?_).map ?_
      · intro e he e' he' halike
        exact ih (hp.child (Object.child_stream he)) (hq.child (Object.child_stream he')) halike
      · exact fun _ _ hleft => .stream hleft hcontent

/-! ## The document -/

/-- Two documents that differ only in the entries that are deleted, and in the bytes of the
payloads. -/
structure Document.Alike (doc doc' : Document) : Prop where
  rest : doc.rest = doc'.rest
  trailer : List.Forall₂ (Entry.Alike (Discarded (dangerousActions doc)) false)
    doc.trailer doc'.trailer
  objects : List.Forall₂ (fun e e' => e.1 = e'.1 ∧
    e.2.Alike (Discarded (dangerousActions doc)) (isPayload (dangerousActions doc) e) e'.2)
    doc.objects doc'.objects

/-- Alike documents have their dangerous actions under the same ids. -/
theorem Document.Alike.dangerousActions {doc doc' : Document} (h : doc.Alike doc') :
    Pdf.dangerousActions doc' = Pdf.dangerousActions doc := by
  have hkept := List.rel_filter (p := fun e => Pdf.isDangerousActionObject e.2)
    (q := fun e => Pdf.isDangerousActionObject e.2)
    (fun e e' hR => by simp only [hR.2.isDangerousActionObject]) h.objects
  exact map_eq_of_forall₂ (hkept.imp fun _ _ hR => hR.1.symm)

theorem not_nothing (key : Name) (value value' : Object) : ¬ Nothing key value value' := id

/-- The trailers come out the same. -/
theorem sanitizeDictionary_alike (hL : L.Lawful) (hmoves : L.MovesByKey) (location : String)
    (levels : Nat) {dict dict' : Dictionary} (hkeys : (Object.dictionary dict).UniqueKeys)
    (hkeys' : (Object.dictionary dict').UniqueKeys)
    (h : List.Forall₂ (Entry.Alike (Discarded dangerous) false) dict dict') :
    Coupled (fun left left' => left = left') (sanitizeDictionary L location dangerous levels dict)
      (sanitizeDictionary L location dangerous levels dict') := by
  cases levels with
  | zero => exact fun s => .inl ⟨_, rfl, rfl⟩
  | succ levels =>
    refine (sanitizeEntries_alike hL hmoves hkeys.entries hkeys'.entries h ?_).imp ?_
    · intro e he e' he' halike
      exact sanitizeObject_alike hL hmoves location levels
        (hkeys.child (Object.child_dictionary he)) (hkeys'.child (Object.child_dictionary he'))
        halike
    · intro _ _ _ _ _ hleft
      exact Object.dictionary.inj (Object.Alike.dictionary hleft).eq

/-- Two sanitised objects of one id that are alike, with the same bytes unless they are payloads. -/
def Sanitised (dangerous : List ObjectId) (q q' : ObjectId × Object) : Prop :=
  q.1 = q'.1 ∧ q.2.Alike Nothing (isPayload dangerous q) q'.2

/-- The objects come out alike, and as payloads where they were. -/
theorem sanitizeEntry_alike (hL : L.Lawful) (hmoves : L.MovesByKey)
    {e e' : ObjectId × Object} (he : e.2.UniqueKeys) (he' : e'.2.UniqueKeys)
    (h : e.1 = e'.1 ∧ e.2.Alike (Discarded dangerous) (isPayload dangerous e) e'.2) :
    Coupled (Sanitised dangerous) (sanitizeEntry L dangerous e) (sanitizeEntry L dangerous e') := by
  obtain ⟨hid, halike⟩ := h
  have hobject := (sanitizeObject_alike hL hmoves (objectLocation e.1) maxDepth he he' halike).imp
    (S := fun q q' => isPayload dangerous (e.1, q) = isPayload dangerous e ∧
      q.Alike Nothing (isPayload dangerous e) q')
    fun s q t q' hrun hq => by
      have hR : Sanitizes L dangerous e.2 q := ⟨maxDepth, he, objectLocation e.1, s, t, hrun⟩
      exact ⟨hR.isPayload hL dangerous e.1, hq⟩
  rw [sanitizeEntry, sanitizeEntry, ← hid]
  refine hobject.bind fun q q' hq => .pure ⟨rfl, ?_⟩
  rw [hq.1]
  exact hq.2

theorem Sanitised.isPayload {q q' : ObjectId × Object} (h : Sanitised dangerous q q') :
    Pdf.isPayload dangerous q = Pdf.isPayload dangerous q' := by
  simp only [Pdf.isPayload, h.1, h.2.isEmbeddedFileObject (not_nothing _)]

/-- What is left is the same when the payloads are out. -/
theorem Sanitised.filter {objects objects' : List (ObjectId × Object)}
    (h : List.Forall₂ (Sanitised dangerous) objects objects') :
    objects.filter (fun entry => !Pdf.isPayload dangerous entry) =
      objects'.filter (fun entry => !Pdf.isPayload dangerous entry) := by
  induction h with
  | nil => rfl
  | @cons q q' objects objects' hq _ ih =>
    rw [List.filter_cons, List.filter_cons, ← hq.isPayload, ih]
    cases hpayload : Pdf.isPayload dangerous q with
    | true => rfl
    | false =>
      obtain ⟨hid, halike⟩ := hq
      rw [hpayload] at halike
      rw [show q = q' from Prod.ext hid halike.eq]

/-- The payloads are swept out of objects that are alike with the same report. -/
theorem sweep_alike {objects objects' : List (ObjectId × Object)}
    (hnodup : (objects.map Prod.fst).Nodup)
    (h : List.Forall₂ (Sanitised dangerous) objects objects') :
    Coupled (fun left left' => left = left') (sweep dangerous objects)
      (sweep dangerous objects') := by
  have hids : objects'.map Prod.fst = objects.map Prod.fst :=
    map_eq_of_forall₂ (h.imp fun _ _ hR => hR.1.symm)
  have hswept : (objects'.filter (isPayload dangerous)).map (payloadItem dangerous) =
      (objects.filter (isPayload dangerous)).map (payloadItem dangerous) := by
    refine map_eq_of_forall₂ ((List.rel_filter (fun q q' hR => ?_) h).imp ?_)
    · simp only [hR.isPayload]
    · rintro q q' ⟨hid, halike⟩
      have hsize := halike.objectSize_eq fun _ _ _ hnothing => hnothing.elim
      rw [payloadItem, payloadItem, hid, hsize]
  intro s
  refine .inr ⟨_, _, _, sweep_run hnodup s, ?_, Sanitised.filter h⟩
  rw [sweep_run (hids ▸ hnodup) s, hswept]

/-- **Documents that are alike are rebuilt the same**: to one document, with one report. -/
theorem rebuild_alike (hL : L.Lawful) (hmoves : L.MovesByKey) {doc doc' : LoadedDocument}
    (h : doc.toDocument.Alike doc'.toDocument) :
    rebuild L doc.toDocument = rebuild L doc'.toDocument := by
  have hwell := doc.wellFormed
  have hwell' := doc'.wellFormed
  have hrun : Coupled (fun left left' => left = left') (sanitizeDocument L doc.toDocument)
      (sanitizeDocument L doc'.toDocument) := by
    rw [sanitizeDocument, sanitizeDocument, h.dangerousActions]
    refine (sanitizeDictionary_alike hL hmoves "trailer" maxDepth hwell.trailer hwell'.trailer
      h.trailer).bind ?_
    rintro trailer _ rfl
    have hobjects : Coupled (List.Forall₂ (Sanitised (dangerousActions doc.toDocument)))
        (doc.objects.mapM (sanitizeEntry L (dangerousActions doc.toDocument)))
        (doc'.objects.mapM (sanitizeEntry L (dangerousActions doc.toDocument))) :=
      .mapM h.objects fun e he e' he' halike =>
        sanitizeEntry_alike hL hmoves (hwell.objects e he) (hwell'.objects e' he') halike
    refine (hobjects.imp (S := fun objects objects' => (objects.map Prod.fst).Nodup ∧
      List.Forall₂ (Sanitised (dangerousActions doc.toDocument)) objects objects')
      fun s objects t objects' hrun hR => ⟨?_, hR⟩).bind ?_
    · rw [sanitizeEntry_ids hrun]
      exact hwell.nodup
    · rintro objects objects' ⟨hnodup, hR⟩
      refine (sweep_alike hnodup hR).bind ?_
      rintro left _ rfl
      rw [h.rest]
      exact .pure rfl
  rw [rebuild, rebuild, hrun.run_eq]

/-- The disarmer does the same on the files. -/
theorem disarmInner_alike (hL : L.Lawful) (hmoves : L.MovesByKey) {data data' : List UInt8}
    {doc doc' : LoadedDocument} (hload : L.loadMem data = .ok doc)
    (hload' : L.loadMem data' = .ok doc') (h : doc.toDocument.Alike doc'.toDocument) :
    disarmInner L data = disarmInner L data' := by
  rw [disarmInner, disarmInner, hload, hload', Exec.mapErr, Exec.mapErr, Exec.ok_bind, Exec.ok_bind,
    rebuild_alike hL hmoves h]

/-! ## Two documents -/

/-- Removal that moves the last entry into the gap looks at keys alone. -/
theorem swapRemove_alike {R : Name × Object → Name × Object → Prop}
    (hR : ∀ e e', R e e' → e.1 = e'.1) {dict dict' : Dictionary} (key : Name)
    (h : List.Forall₂ R dict dict') :
    List.Forall₂ R (swapRemove dict key) (swapRemove dict' key) := by
  have hsplit : List.Forall₂ R (dict.takeWhile fun entry => entry.1 != key)
        (dict'.takeWhile fun entry => entry.1 != key) ∧
      List.Forall₂ R (dict.dropWhile fun entry => entry.1 != key)
        (dict'.dropWhile fun entry => entry.1 != key) := by
    induction h with
    | nil => exact ⟨.nil, .nil⟩
    | @cons e e' dict dict' he hdict ih =>
      rw [List.takeWhile_cons, List.takeWhile_cons, List.dropWhile_cons, List.dropWhile_cons,
        ← hR e e' he]
      cases e.1 != key with
      | true => exact ⟨.cons he ih.1, ih.2⟩
      | false => exact ⟨.nil, .cons he hdict⟩
  have hend : ∀ xs : Dictionary, xs.getLast?.toList ++ xs.dropLast =
      xs.drop (xs.length - 1) ++ xs.take (xs.length - 1) := by
    intro xs
    rw [List.dropLast_eq_take]
    cases xs with
    | nil => rfl
    | cons x xs =>
      rw [List.drop_length_sub_one (List.cons_ne_nil x xs),
        List.getLast?_eq_some_getLast (List.cons_ne_nil x xs)]
      rfl
  obtain ⟨hbefore, hafter⟩ := hsplit
  rw [swapRemove, swapRemove]
  revert hafter
  generalize dict.dropWhile _ = after
  generalize dict'.dropWhile _ = after'
  intro hafter
  cases hafter with
  | nil => exact h
  | cons _ hrest =>
    dsimp only
    rw [List.append_assoc, List.append_assoc, hend, hend, ← hrest.length_eq]
    exact List.rel_append hbefore
      (List.rel_append (List.forall₂_drop _ hrest) (List.forall₂_take _ hrest))

theorem Lopdf.ofDocuments_movesByKey {docs : List LoadedDocument} :
    (Lopdf.ofDocuments docs).MovesByKey :=
  fun _ hR _ _ key h => swapRemove_alike hR key h

/-- The sample with another action and another embedded file. -/
def otherDocument : LoadedDocument where
  trailer := [(ascii "Size", .scalar (.integer 4)), (ascii "Root", .reference ⟨1, 0⟩)]
  objects := [
    (⟨1, 0⟩, .dictionary [
      (ascii "Type", .name (ascii "Catalog")),
      (ascii "OpenAction", .array []),
      (ascii "Annots", .array [.dictionary [
        (ascii "A", .dictionary [(ascii "S", .name (ascii "URI"))]),
        (ascii "Next", .reference ⟨2, 0⟩),
        (ascii "Subtype", .name (ascii "Link"))]])]),
    (⟨2, 0⟩, .dictionary [(ascii "S", .name (ascii "Launch"))]),
    (⟨3, 0⟩, .stream [
      (ascii "Type", .name (ascii "EmbeddedFile")),
      (ascii "Length", .scalar (.integer 2))] [0x5A, 0x4D])]
  rest := version15
  wellFormed := {
    sorted := by decide
    trailer := by simp; decide
    objects := by simp; decide }

/-- The two sample documents differ only in what is taken out of them. -/
theorem sample_alike : sampleDocument.toDocument.Alike otherDocument.toDocument := by
  have hsame : ∀ payload, List.Forall₂
      (Entry.Alike (Discarded (dangerousActions sampleDocument.toDocument)) payload)
      [(ascii "Type", .name (ascii "EmbeddedFile")), (ascii "Length", .scalar (.integer 2))]
      [(ascii "Type", .name (ascii "EmbeddedFile")), (ascii "Length", .scalar (.integer 2))] :=
    fun _ => .cons (.kept (.refl _)) (.cons (.kept (.refl _)) .nil)
  refine ⟨rfl, .cons (.kept (.refl _)) (.cons (.kept (.refl _)) .nil), .cons ⟨rfl, .dictionary ?_⟩
    (.cons ⟨rfl, .refl _⟩ (.cons ⟨rfl, .stream (hsame _) (.inr ⟨rfl, rfl⟩)⟩ .nil))⟩
  exact .cons (.kept (.refl _)) (.cons (.hidden ⟨rfl, .activeContent, rfl, rfl⟩)
    (.cons (.kept (.refl _)) .nil))

end Pdf

end Purgo
