import Mathlib.Data.List.Perm.Basic
import Purgo.PdfFixpoint

/-!
# Sanitising is a filter

The disarmer sanitises in place: it collects the keys of a dictionary, deletes, recurses into what
is left, and writes one report all along. Here the same is said without any of this: a reference
filter of the document (`filterDocument`), and the list of what it deletes (`report`). A successful
run leaves the filtered document and reports exactly what was deleted (`sanitizeDocument_filters`).

Removing an entry may move others, so documents are compared as maps (`Document.Same`), and the
report is one up to its order.
-/

namespace Purgo

open Rust Threaded

namespace Pdf

/-! ## The reference filter -/

mutual

/-- The object without the classified entries, at every inline depth. -/
def filterObject (dangerous : List ObjectId) : Object → Object
  | .array items => .array (filterItems dangerous items)
  | .dictionary dict => .dictionary (filterEntries dangerous dict)
  | .stream dict content => .stream (filterEntries dangerous dict) content
  | other => other

/-- The filter on the items of an array. -/
def filterItems (dangerous : List ObjectId) : List Object → List Object
  | [] => []
  | item :: items => filterObject dangerous item :: filterItems dangerous items

/-- The filter on a dictionary: flagged entries go, and the rest is filtered. -/
def filterEntries (dangerous : List ObjectId) : Dictionary → Dictionary
  | [] => []
  | (key, value) :: entries =>
    if (classifyKey key value dangerous).isNone then
      (key, filterObject dangerous value) :: filterEntries dangerous entries
    else
      filterEntries dangerous entries

end

mutual

/-- The entries that are deleted from the object. What stands under one of them goes with it. -/
def deletedObject (dangerous : List ObjectId) : Object → List (Name × Object × ThreatClass)
  | .array items => deletedItems dangerous items
  | .dictionary dict => flagged dangerous dict ++ deletedEntries dangerous dict
  | .stream dict _ => flagged dangerous dict ++ deletedEntries dangerous dict
  | _ => []

/-- What is deleted inside an array. -/
def deletedItems (dangerous : List ObjectId) : List Object → List (Name × Object × ThreatClass)
  | [] => []
  | item :: items => deletedObject dangerous item ++ deletedItems dangerous items

/-- The entries that are deleted below the entries that are kept. -/
def deletedEntries (dangerous : List ObjectId) :
    Dictionary → List (Name × Object × ThreatClass)
  | [] => []
  | (key, value) :: entries =>
    if (classifyKey key value dangerous).isNone then
      deletedObject dangerous value ++ deletedEntries dangerous entries
    else
      deletedEntries dangerous entries

end

/-- The document the sanitiser is to leave. -/
def filterDocument (doc : Document) : Document where
  trailer := filterEntries (dangerousActions doc) doc.trailer
  objects :=
    (doc.objects.filter fun entry => !isPayload (dangerousActions doc) entry).map
      fun entry => (entry.1, filterObject (dangerousActions doc) entry.2)
  rest := doc.rest

/-- What it is to report: the deleted entries of the trailer and of each object, and the deleted
objects, by what was left of them. -/
def report (doc : Document) : List RemovedItem :=
  (deletedObject (dangerousActions doc) (.dictionary doc.trailer)).map (entryItem "trailer") ++
  (doc.objects.flatMap fun entry =>
    (deletedObject (dangerousActions doc) entry.2).map (entryItem (objectLocation entry.1))) ++
  (doc.objects.filter (isPayload (dangerousActions doc))).map fun entry =>
    payloadItem (dangerousActions doc) (entry.1, filterObject (dangerousActions doc) entry.2)

/-! ## Equality as maps -/

/-- The same object, up to the order of the entries of its dictionaries. -/
inductive Object.Same : Object → Object → Prop
  | refl (o : Object) : Same o o
  | array {items items' : List Object} :
      List.Forall₂ Same items items' → Same (.array items) (.array items')
  | dictionary {dict left dict' : Dictionary} :
      dict.map Prod.fst = left.map Prod.fst →
      List.Forall₂ Same (dict.map Prod.snd) (left.map Prod.snd) → left.Perm dict' →
      Same (.dictionary dict) (.dictionary dict')
  | stream {dict left dict' : Dictionary} {content : List UInt8} :
      dict.map Prod.fst = left.map Prod.fst →
      List.Forall₂ Same (dict.map Prod.snd) (left.map Prod.snd) → left.Perm dict' →
      Same (.stream dict content) (.stream dict' content)

/-- The same document, up to the order of the entries of its dictionaries. -/
structure Document.Same (doc doc' : Document) : Prop where
  rest : doc.rest = doc'.rest
  trailer : (Object.dictionary doc.trailer).Same (.dictionary doc'.trailer)
  ids : doc.objects.map Prod.fst = doc'.objects.map Prod.fst
  objects : List.Forall₂ Object.Same (doc.objects.map Prod.snd) (doc'.objects.map Prod.snd)

/-! ## Objects, by what is written in them -/

theorem Object.Child.sizeOf_lt {p q : Object} (h : p.Child q) : sizeOf q < sizeOf p := by
  have hdict : ∀ {dict : Dictionary} {key : Name}, (key, q) ∈ dict → sizeOf q < sizeOf dict := by
    intro dict key hentry
    have hlt := List.sizeOf_lt_of_mem hentry
    rw [Prod.mk.sizeOf_spec] at hlt
    omega
  rcases h with hitem | ⟨key, hentry⟩
  · cases p with
    | array items =>
      have hlt : sizeOf q < sizeOf items := List.sizeOf_lt_of_mem hitem
      rw [Object.array.sizeOf_spec]
      omega
    | scalar _ | name _ | string _ _ | dictionary _ | stream _ _ | reference _ => cases hitem
  · cases p with
    | dictionary dict =>
      have hlt : sizeOf q < sizeOf dict := hdict hentry
      rw [Object.dictionary.sizeOf_spec]
      omega
    | stream dict content =>
      have hlt : sizeOf q < sizeOf dict := hdict hentry
      rw [Object.stream.sizeOf_spec]
      omega
    | scalar _ | name _ | string _ _ | array _ | reference _ => cases hentry

/-- An object has a property when it has it as soon as everything written inline in it does. -/
@[elab_as_elim]
theorem Object.induction {P : Object → Prop} (step : ∀ o, (∀ q, o.Child q → P q) → P o)
    (o : Object) : P o := by
  induction hn : sizeOf o using Nat.strong_induction_on generalizing o with
  | _ n ih =>
    subst hn
    exact step o fun q hq => ih (sizeOf q) hq.sizeOf_lt q rfl

variable (dangerous : List ObjectId)

theorem filterItems_eq (items : List Object) :
    filterItems dangerous items = items.map (filterObject dangerous) := by
  induction items with
  | nil => rfl
  | cons item items ih => rw [filterItems, ih, List.map_cons]

theorem filterEntries_eq (dict : Dictionary) :
    filterEntries dangerous dict =
      (dict.filter fun entry => (classifyKey entry.1 entry.2 dangerous).isNone).map
        fun entry => (entry.1, filterObject dangerous entry.2) := by
  induction dict with
  | nil => rfl
  | cons entry dict ih =>
    rw [filterEntries, ih, List.filter_cons]
    split <;> rfl

theorem deletedItems_eq (items : List Object) :
    deletedItems dangerous items = items.flatMap (deletedObject dangerous) := by
  induction items with
  | nil => rfl
  | cons item items ih => rw [deletedItems, ih, List.flatMap_cons]

theorem deletedEntries_eq (dict : Dictionary) :
    deletedEntries dangerous dict =
      (dict.filter fun entry => (classifyKey entry.1 entry.2 dangerous).isNone).flatMap
        fun entry => deletedObject dangerous entry.2 := by
  induction dict with
  | nil => rfl
  | cons entry dict ih =>
    rw [deletedEntries, ih, List.filter_cons]
    split <;> rfl

variable {dangerous}

theorem Object.child_array {items : List Object} {q : Object} (h : q ∈ items) :
    (Object.array items).Child q := .inl h

theorem Object.child_dictionary {dict : Dictionary} {entry : Name × Object} (h : entry ∈ dict) :
    (Object.dictionary dict).Child entry.2 := .inr ⟨entry.1, h⟩

theorem Object.child_stream {dict : Dictionary} {content : List UInt8} {entry : Name × Object}
    (h : entry ∈ dict) : (Object.stream dict content).Child entry.2 := .inr ⟨entry.1, h⟩

/-! ## The run -/

theorem forall₂_values {κ : Type} {R : Object → Object → Prop} {d d' : List (κ × Object)}
    (h : List.Forall₂ (fun e e' => R e.2 e'.2) d d') :
    List.Forall₂ R (d.map Prod.snd) (d'.map Prod.snd) :=
  List.forall₂_map_left_iff.mpr (List.forall₂_map_right_iff.mpr h)

theorem forall₂_entries {κ : Type} {R : Object → Object → Prop} {d d' : List (κ × Object)}
    (hkeys : d.map Prod.fst = d'.map Prod.fst)
    (hvalues : List.Forall₂ R (d.map Prod.snd) (d'.map Prod.snd)) :
    List.Forall₂ (fun e e' => e.1 = e'.1 ∧ R e.2 e'.2) d d' := by
  induction d generalizing d' with
  | nil =>
    obtain rfl : d' = [] := List.map_eq_nil_iff.mp hkeys.symm
    exact .nil
  | cons e d ih =>
    cases d' with
    | nil => cases hkeys
    | cons e' d' =>
      obtain ⟨hkey, hkeys⟩ := List.cons.inj hkeys
      obtain ⟨hvalue, hvalues⟩ := List.forall₂_cons.mp hvalues
      exact .cons ⟨hkey, hvalue⟩ (ih hkeys hvalues)

/-- The entries of a dictionary come out filtered, in some order, when their values do. -/
theorem sanitizeEntries_filters (hL : L.Lawful) {visit : Object → Reporting Object}
    {location : String} {dict dict' : Dictionary} (h : dict.UniqueKeys)
    (hvisit : ∀ entry ∈ dict, ∀ q s t, (visit entry.2).run s = .ok (q, t) →
      (filterObject dangerous entry.2).Same q ∧
        t.Perm (s ++ (deletedObject dangerous entry.2).map (entryItem location)))
    {s s' : List RemovedItem}
    (hrun : (sanitizeEntries L visit location dangerous dict).run s = .ok (dict', s')) :
    (∃ left : Dictionary,
      (filterEntries dangerous dict).map Prod.fst = left.map Prod.fst ∧
      List.Forall₂ Object.Same ((filterEntries dangerous dict).map Prod.snd)
        (left.map Prod.snd) ∧
      left.Perm dict') ∧
    s'.Perm (s ++ (flagged dangerous dict ++ deletedEntries dangerous dict).map
      (entryItem location)) := by
  rw [sanitizeEntries_run hL visit location dangerous h s] at hrun
  have hkept := remaining_perm hL dangerous h
  have hentry : ∀ e ∈ remaining L dangerous dict, ∀ e' s t,
      (do return (e.1, ← visit e.2) : Reporting (Name × Object)).run s = .ok (e', t) →
      (e.1 = e'.1 ∧ (filterObject dangerous e.2).Same e'.2) ∧
        t.Perm (s ++ (deletedObject dangerous e.2).map (entryItem location)) := by
    intro e he e' s t hrun'
    obtain ⟨q, u, hq, hpure⟩ := bind_eq_ok.mp hrun'
    obtain ⟨rfl, rfl⟩ := pure_eq_ok.mp hpure
    obtain ⟨hsame, hlog⟩ := hvisit e (List.mem_filter.mp (hkept.mem_iff.mp he)).1 q s t hq
    exact ⟨⟨rfl, hsame⟩, hlog⟩
  obtain ⟨hsame, hlog⟩ := mapM_log
    (P := fun e e' : Name × Object => e.1 = e'.1 ∧ (filterObject dangerous e.2).Same e'.2)
    hentry hrun
  refine ⟨?_, hlog.trans ?_⟩
  · -- the entries are filtered where they are, then reordered
    have hleft : List.Forall₂ (fun e e' : Name × Object => e.1 = e'.1 ∧ e.2.Same e'.2)
        ((remaining L dangerous dict).map fun entry =>
          (entry.1, filterObject dangerous entry.2)) dict' :=
      List.forall₂_map_left_iff.mpr hsame
    obtain ⟨left, hforall, hperm⟩ := List.perm_comp_forall₂
      ((filterEntries_eq dangerous dict).symm ▸ (hkept.map _).symm) hleft
    exact ⟨left, (map_eq_of_forall₂ (hforall.imp fun _ _ hR => hR.1.symm)).symm,
      forall₂_values (hforall.imp fun _ _ hR => hR.2), hperm⟩
  · rw [deletedEntries_eq, List.map_append, List.map_flatMap, List.append_assoc]
    exact ((hkept.flatMap_right _).append_left _).append_left _

/-- **A sanitised object is the filtered object**, and what was deleted is what is reported. -/
theorem sanitizeObject_filters (hL : L.Lawful) {location : String} {levels : Nat} {p q : Object}
    (h : p.UniqueKeys) {s s' : List RemovedItem}
    (hrun : (sanitizeObject L location dangerous levels p).run s = .ok (q, s')) :
    (filterObject dangerous p).Same q ∧
      s'.Perm (s ++ (deletedObject dangerous p).map (entryItem location)) := by
  induction levels generalizing p q s s' with
  | zero => cases hrun
  | succ levels ih =>
    cases p with
    | array items =>
      obtain ⟨items', hitems, rfl⟩ := map_eq_ok.mp hrun
      obtain ⟨hsame, hlog⟩ := mapM_log
        (P := fun p q => (filterObject dangerous p).Same q)
        (fun p hp q s t hrun' => ih (h.child (Object.child_array hp)) hrun') hitems
      rw [filterObject, filterItems_eq, deletedObject, deletedItems_eq, List.map_flatMap]
      exact ⟨.array (List.forall₂_map_left_iff.mpr hsame), hlog⟩
    | dictionary dict =>
      obtain ⟨dict', hdict, rfl⟩ := map_eq_ok.mp hrun
      obtain ⟨⟨left, hkeys, hvalues, hperm⟩, hlog⟩ := sanitizeEntries_filters hL h.entries
        (fun e he q s t hrun' => ih (h.child (Object.child_dictionary he)) hrun') hdict
      exact ⟨.dictionary hkeys hvalues hperm, hlog⟩
    | stream dict content =>
      obtain ⟨dict', hdict, rfl⟩ := map_eq_ok.mp hrun
      obtain ⟨⟨left, hkeys, hvalues, hperm⟩, hlog⟩ := sanitizeEntries_filters hL h.entries
        (fun e he q s t hrun' => ih (h.child (Object.child_stream he)) hrun') hdict
      exact ⟨.stream hkeys hvalues hperm, hlog⟩
    | scalar _ | name _ | string _ _ | reference _ =>
      obtain ⟨rfl, rfl⟩ := pure_eq_ok.mp hrun
      exact ⟨.refl _, .of_eq (List.append_nil _).symm⟩

/-! ## Sizes -/

/-- A sum over what is written in an object does not depend on the order of the entries. -/
theorem Object.Same.measure_eq {m : Object → Nat} {g : Name → Nat → Nat}
    (harray : ∀ items, m (.array items) = (items.map m).sum)
    (hdict : ∀ dict, m (.dictionary dict) = (dict.map fun e => g e.1 (m e.2)).sum)
    (hstream : ∀ dict dict' content, m (.dictionary dict) = m (.dictionary dict') →
      m (.stream dict content) = m (.stream dict' content))
    {p q : Object} (h : p.Same q) : m p = m q := by
  induction p using Object.induction generalizing q with
  | step p ih =>
    have hentries : ∀ {dict left dict' : Dictionary},
        (∀ e ∈ dict, ∀ q, e.2.Same q → m e.2 = m q) → dict.map Prod.fst = left.map Prod.fst →
        List.Forall₂ Same (dict.map Prod.snd) (left.map Prod.snd) → left.Perm dict' →
        m (.dictionary dict) = m (.dictionary dict') := by
      intro dict left dict' hmem hkeys hvalues hperm
      rw [hdict, hdict, ← (hperm.map _).sum_nat]
      refine congrArg List.sum (map_eq_of_forall₂ ?_).symm
      refine ((List.forall₂_and_left _ _).mpr ⟨hmem, forall₂_entries hkeys hvalues⟩).imp ?_
      rintro e e' ⟨hm, hkey, hsame⟩
      rw [hkey, hm _ hsame]
    cases h with
    | refl => rfl
    | array hitems =>
      rw [harray, harray]
      refine congrArg List.sum (map_eq_of_forall₂ ?_).symm
      refine ((List.forall₂_and_left _ _).mpr
        ⟨fun q hq => @ih q (child_array hq), hitems⟩).imp ?_
      rintro p q ⟨hm, hsame⟩
      exact (hm hsame).symm
    | dictionary hkeys hvalues hperm =>
      exact hentries (fun e he q hq => ih e.2 (child_dictionary he) hq) hkeys hvalues hperm
    | stream hkeys hvalues hperm =>
      exact hstream _ _ _
        (hentries (fun e he q hq => ih e.2 (child_stream he) hq) hkeys hvalues hperm)

theorem itemsSize_eq (items : List Object) : itemsSize items = (items.map objectSize).sum := by
  induction items with
  | nil => rfl
  | cons item items ih => rw [itemsSize, ih, List.map_cons, List.sum_cons]

theorem entriesSize_eq (dict : Dictionary) :
    entriesSize dict = (dict.map fun e => e.1.length + objectSize e.2).sum := by
  induction dict with
  | nil => rfl
  | cons entry dict ih => rw [entriesSize, ih, List.map_cons, List.sum_cons]

theorem Object.Same.objectSize_eq {p q : Object} (h : p.Same q) : objectSize p = objectSize q :=
  h.measure_eq (g := fun key size => key.length + size) itemsSize_eq entriesSize_eq
    fun _ _ _ _ => rfl

mutual

/-- The number of entries written in an object, at every inline depth. -/
def entryCount : Object → Nat
  | .array items => itemsCount items
  | .dictionary dict => entriesCount dict
  | .stream dict _ => entriesCount dict
  | _ => 0

/-- The entries inside an array. -/
def itemsCount : List Object → Nat
  | [] => 0
  | item :: items => entryCount item + itemsCount items

/-- The entries of a dictionary, with those inside its values. -/
def entriesCount : Dictionary → Nat
  | [] => 0
  | (_, value) :: entries => entryCount value + 1 + entriesCount entries

end

theorem itemsCount_eq (items : List Object) : itemsCount items = (items.map entryCount).sum := by
  induction items with
  | nil => rfl
  | cons item items ih => rw [itemsCount, ih, List.map_cons, List.sum_cons]

theorem entriesCount_eq (dict : Dictionary) :
    entriesCount dict = (dict.map fun e => entryCount e.2 + 1).sum := by
  induction dict with
  | nil => rfl
  | cons entry dict ih => rw [entriesCount, ih, List.map_cons, List.sum_cons]

theorem Object.Same.entryCount_eq {p q : Object} (h : p.Same q) : entryCount p = entryCount q :=
  h.measure_eq (m := entryCount) (g := fun _ count => count + 1) itemsCount_eq entriesCount_eq
    fun _ _ _ hdict => hdict

/-! ## What nothing is deleted from -/

theorem length_deletedEntries {dict : Dictionary}
    (h : ∀ e ∈ dict, (deletedObject dangerous e.2).length +
      entryCount (filterObject dangerous e.2) ≤ entryCount e.2) :
    (flagged dangerous dict ++ deletedEntries dangerous dict).length +
      entriesCount (filterEntries dangerous dict) ≤ entriesCount dict := by
  induction dict with
  | nil => exact Nat.le_refl 0
  | cons e dict ih =>
    have he := h e List.mem_cons_self
    have hdict := ih fun x hx => h x (List.mem_cons_of_mem e hx)
    simp only [flagged, List.filterMap_cons, deletedEntries, filterEntries, entriesCount]
    simp only [List.length_append, flagged] at hdict ⊢
    cases hclass : classifyKey e.1 e.2 dangerous with
    | none =>
      simp only [Option.map_none, Option.isNone_none, if_true, List.length_append, entriesCount]
      omega
    | some threat =>
      simp only [Option.map_some, Option.isNone_some, List.length_cons, Bool.false_eq_true,
        if_false]
      omega

theorem length_deletedItems {items : List Object}
    (h : ∀ p ∈ items, (deletedObject dangerous p).length +
      entryCount (filterObject dangerous p) ≤ entryCount p) :
    (deletedItems dangerous items).length + itemsCount (filterItems dangerous items) ≤
      itemsCount items := by
  induction items with
  | nil => exact Nat.le_refl 0
  | cons p items ih =>
    have hp := h p List.mem_cons_self
    have hitems := ih fun x hx => h x (List.mem_cons_of_mem p hx)
    simp only [deletedItems, filterItems, itemsCount, List.length_append]
    omega

/-- Each deletion leaves an entry less. -/
theorem length_deletedObject (dangerous : List ObjectId) (p : Object) :
    (deletedObject dangerous p).length + entryCount (filterObject dangerous p) ≤
      entryCount p := by
  induction p using Object.induction with
  | step p ih =>
    cases p with
    | array items => exact length_deletedItems fun p hp => ih p (Object.child_array hp)
    | dictionary dict => exact length_deletedEntries fun e he => ih e.2 (Object.child_dictionary he)
    | stream dict content => exact length_deletedEntries fun e he => ih e.2 (Object.child_stream he)
    | scalar _ | name _ | string _ _ | reference _ => exact Nat.le_refl 0

/-- A dictionary without anything to delete is left as it is. -/
theorem filterEntries_eq_self {dict : Dictionary}
    (h : ∀ e ∈ dict, deletedObject dangerous e.2 = [] → filterObject dangerous e.2 = e.2)
    (hnil : flagged dangerous dict ++ deletedEntries dangerous dict = []) :
    filterEntries dangerous dict = dict := by
  obtain ⟨hflagged, hdeleted⟩ := List.append_eq_nil_iff.mp hnil
  have hkept : ∀ e ∈ dict, (classifyKey e.1 e.2 dangerous).isNone = true := by
    intro e he
    rw [flagged, List.filterMap_eq_nil_iff] at hflagged
    simpa using hflagged e he
  rw [deletedEntries_eq, List.filter_eq_self.mpr hkept, List.flatMap_eq_nil_iff] at hdeleted
  rw [filterEntries_eq, List.filter_eq_self.mpr hkept]
  refine (List.map_congr_left fun e he => ?_).trans (List.map_id dict)
  rw [h e he (hdeleted e he)]
  rfl

/-- An object nothing is deleted from is left as it is. -/
theorem filterObject_eq_self {p : Object} (hnil : deletedObject dangerous p = []) :
    filterObject dangerous p = p := by
  induction p using Object.induction with
  | step p ih =>
    cases p with
    | array items =>
      rw [deletedObject, deletedItems_eq, List.flatMap_eq_nil_iff] at hnil
      rw [filterObject, filterItems_eq]
      exact congrArg Object.array ((List.map_congr_left fun q hq =>
        ih q (Object.child_array hq) (hnil q hq)).trans (List.map_id items))
    | dictionary dict =>
      exact congrArg Object.dictionary (filterEntries_eq_self
        (fun e he => ih e.2 (Object.child_dictionary he)) hnil)
    | stream dict content =>
      exact congrArg (Object.stream · content) (filterEntries_eq_self
        (fun e he => ih e.2 (Object.child_stream he)) hnil)
    | scalar _ | name _ | string _ _ | reference _ => rfl

/-- The number of entries and of objects of a document. -/
def Document.count (doc : Document) : Nat :=
  entriesCount doc.trailer + (doc.objects.map fun entry => entryCount entry.2 + 1).sum

/-- Documents that are the same as maps have equally many entries. -/
theorem Document.Same.count_eq {doc doc' : Document} (h : doc.Same doc') :
    doc.count = doc'.count := by
  have htrailer : entriesCount doc.trailer = entriesCount doc'.trailer := h.trailer.entryCount_eq
  have hobjects : (doc'.objects.map fun entry => entryCount entry.2 + 1) =
      doc.objects.map fun entry => entryCount entry.2 + 1 := by
    refine map_eq_of_forall₂ ((forall₂_entries h.ids h.objects).imp ?_)
    rintro e e' ⟨-, hsame⟩
    rw [hsame.entryCount_eq]
  rw [count, count, htrailer, hobjects]

/-- Whatever is deleted is no longer there: the entries that are left and those that are reported
are no more than there were. -/
theorem length_payloads (dangerous : List ObjectId) (objects : List (ObjectId × Object)) :
    (objects.flatMap fun entry => deletedObject dangerous entry.2).length +
      (objects.filter (isPayload dangerous)).length +
      ((objects.filter fun entry => !isPayload dangerous entry).map fun entry =>
        entryCount (filterObject dangerous entry.2) + 1).sum ≤
    (objects.map fun entry => entryCount entry.2 + 1).sum := by
  induction objects with
  | nil => exact Nat.le_refl 0
  | cons e objects ih =>
    have he := length_deletedObject dangerous e.2
    simp only [List.flatMap_cons, List.filter_cons, List.length_append, List.map_cons,
      List.sum_cons]
    cases isPayload dangerous e with
    | false =>
      simp only [Bool.not_false, if_true, Bool.false_eq_true, if_false, List.map_cons,
        List.sum_cons]
      omega
    | true =>
      simp only [Bool.not_true, if_true, Bool.false_eq_true, if_false, List.length_cons]
      omega

/-- Each item of the report stands for an entry or an object less. -/
theorem length_report (doc : Document) :
    (report doc).length + (filterDocument doc).count ≤ doc.count := by
  have htrailer := length_deletedObject (dangerousActions doc) (.dictionary doc.trailer)
  have hobjects := length_payloads (dangerousActions doc) doc.objects
  rw [filterObject, entryCount, entryCount] at htrailer
  rw [report, filterDocument, Document.count, Document.count]
  simp only [List.length_append, List.length_map, List.length_flatMap, List.map_map,
    Function.comp_def] at hobjects ⊢
  omega

/-- A document nothing is to be reported of is left as it is. -/
theorem filterDocument_eq_self {doc : Document} (hnil : report doc = []) :
    filterDocument doc = doc := by
  rw [report, List.append_eq_nil_iff, List.append_eq_nil_iff, List.map_eq_nil_iff,
    List.map_eq_nil_iff, List.flatMap_eq_nil_iff] at hnil
  obtain ⟨⟨htrailer, hobjects⟩, hpayloads⟩ := hnil
  have htrailer' : filterEntries (dangerousActions doc) doc.trailer = doc.trailer :=
    Object.dictionary.inj (filterObject_eq_self htrailer)
  have hkept : ∀ e ∈ doc.objects, (!isPayload (dangerousActions doc) e) = true := by
    intro e he
    simpa using List.filter_eq_nil_iff.mp hpayloads e he
  have hobjects' : (doc.objects.map fun entry =>
      (entry.1, filterObject (dangerousActions doc) entry.2)) = doc.objects := by
    refine (List.map_congr_left fun e he => ?_).trans (List.map_id doc.objects)
    rw [filterObject_eq_self (List.map_eq_nil_iff.mp (hobjects e he))]
    rfl
  rw [filterDocument, htrailer', List.filter_eq_self.mpr hkept, hobjects']

/-! ## The document -/

/-- What the run makes of an object, and what it reports of it. -/
theorem sanitizeEntry_filters (hL : L.Lawful) {e e' : ObjectId × Object} (h : e.2.UniqueKeys)
    {s t : List RemovedItem} (hrun : (sanitizeEntry L dangerous e).run s = .ok (e', t)) :
    (e.1 = e'.1 ∧ (filterObject dangerous e.2).Same e'.2 ∧
        isPayload dangerous e' = isPayload dangerous e) ∧
      t.Perm (s ++ (deletedObject dangerous e.2).map (entryItem (objectLocation e.1))) := by
  obtain ⟨q, u, hq, hpure⟩ := bind_eq_ok.mp hrun
  obtain ⟨rfl, rfl⟩ := pure_eq_ok.mp hpure
  obtain ⟨hsame, hlog⟩ := sanitizeObject_filters hL h hq
  have hR : Sanitizes L dangerous e.2 q := ⟨maxDepth, h, objectLocation e.1, s, t, hq⟩
  exact ⟨⟨rfl, hsame, hR.isPayload hL dangerous e.1⟩, hlog⟩

/-- **Sanitising deletes what the reference filter deletes and reports all of it**: the trailer and
the object map are the filtered ones, the report has an item for each deleted entry and for each
deleted object, and it is empty exactly when the graph is unchanged. -/
theorem sanitizeDocument_filters (hL : L.Lawful) (doc : LoadedDocument) {doc' : Document}
    {removed : List RemovedItem}
    (hrun : (sanitizeDocument L doc.toDocument).run [] = .ok (doc', removed)) :
    (filterDocument doc.toDocument).Same doc' ∧ removed.Perm (report doc.toDocument) ∧
      (removed = [] ↔ doc.toDocument.Same doc') := by
  obtain ⟨objects, t₁, t₂, htrailer, hobjects, hleft, hremoved⟩ :=
    sanitizeDocument_steps doc.wellFormed hrun
  have hobject : (sanitizeObject L "trailer" (dangerousActions doc.toDocument) maxDepth
      (.dictionary doc.trailer)).run [] = .ok (.dictionary doc'.trailer, t₁) :=
    map_eq_ok.mpr ⟨doc'.trailer, htrailer, rfl⟩
  obtain ⟨htrailer, hlog₁⟩ := sanitizeObject_filters hL doc.wellFormed.trailer hobject
  obtain ⟨hobjects, hlog₂⟩ := mapM_log (P := fun e e' : ObjectId × Object =>
      e.1 = e'.1 ∧ (filterObject (dangerousActions doc.toDocument) e.2).Same e'.2 ∧
        isPayload (dangerousActions doc.toDocument) e' =
          isPayload (dangerousActions doc.toDocument) e)
    (fun e he e' s t => sanitizeEntry_filters hL (doc.wellFormed.objects e he)) hobjects
  have hkept := List.rel_filter (p := fun e => !isPayload (dangerousActions doc.toDocument) e)
    (q := fun e => !isPayload (dangerousActions doc.toDocument) e)
    (fun e e' hR => by simp only [hR.2.2]) hobjects
  have hswept := List.rel_filter (p := isPayload (dangerousActions doc.toDocument))
    (q := isPayload (dangerousActions doc.toDocument))
    (fun e e' hR => by simp only [hR.2.2]) hobjects
  have hsame : (filterDocument doc.toDocument).Same doc' := by
    have hobjects' : List.Forall₂ (fun e e' => e.1 = e'.1 ∧ Object.Same e.2 e'.2)
        (filterDocument doc.toDocument).objects doc'.objects := by
      rw [hleft]
      exact List.forall₂_map_left_iff.mpr (hkept.imp fun _ _ hR => ⟨hR.1, hR.2.1⟩)
    exact {
      rest := (sanitizeDocument_rest hrun).symm
      trailer := htrailer
      ids := (map_eq_of_forall₂ (hobjects'.imp fun _ _ hR => hR.1.symm)).symm
      objects := forall₂_values (hobjects'.imp fun _ _ hR => hR.2) }
  have hpayloads : (objects.filter (isPayload (dangerousActions doc.toDocument))).map
      (payloadItem (dangerousActions doc.toDocument)) =
      (doc.objects.filter (isPayload (dangerousActions doc.toDocument))).map fun entry =>
        payloadItem (dangerousActions doc.toDocument)
          (entry.1, filterObject (dangerousActions doc.toDocument) entry.2) := by
    refine map_eq_of_forall₂ (hswept.imp ?_)
    rintro e e' ⟨hid, hR, -⟩
    rw [payloadItem, payloadItem, hid, hR.objectSize_eq]
  have hreport : removed.Perm (report doc.toDocument) := by
    rw [hremoved, hpayloads]
    exact (hlog₂.trans (hlog₁.append_right _)).append_right _
  refine ⟨hsame, hreport, ?_⟩
  refine ⟨?_, ?_⟩
  · rintro rfl
    rwa [filterDocument_eq_self hreport.nil_eq.symm] at hsame
  · intro hunchanged
    have hlength := length_report doc.toDocument
    rw [hsame.count_eq, ← hunchanged.count_eq] at hlength
    refine List.eq_nil_of_length_eq_zero ?_
    rw [hreport.length_eq]
    omega

/-- What sanitising the sample reports. -/
theorem sanitizeDocument_filters_sample :
    (filterDocument sampleDocument.toDocument).Same sampleSanitized ∧
      ¬ sampleDocument.toDocument.Same sampleSanitized := by
  have hrun : ∃ item removed,
      (sanitizeDocument sampleLopdf sampleDocument.toDocument).run [] =
        .ok (sampleSanitized, item :: removed) := ⟨_, _, rfl⟩
  obtain ⟨item, removed, hrun⟩ := hrun
  obtain ⟨hsame, -, hiff⟩ := sanitizeDocument_filters Lopdf.ofDocuments_lawful sampleDocument hrun
  exact ⟨hsame, fun hunchanged => List.cons_ne_nil _ _ (hiff.mpr hunchanged)⟩

end Pdf

end Purgo
