import Mathlib.Data.List.Nodup
import Purgo.Lib.Threaded
import Purgo.PdfGraph

/-!
# What sanitising does to a document

The sanitising phase leaves the graph that the disarmer is to keep: the sanitised document
corresponds to `Document.kept` of the input (`sanitizeDocument_correspond`), each object to what a
successful run of `sanitizeObject` makes of it. Entries come out in another order, because removing
one from a dictionary may move others.

The relation `Sanitizes` is what a run at *some* depth makes of an object, so one inversion lemma
for `sanitizeObject` and one for `sanitizeEntries` answer every question about inline nesting
without an induction on it.
-/

namespace Purgo

open Rust Simulation Threaded

namespace Pdf

variable {L : Lopdf}

/-! ## Unique keys -/

theorem Dictionary.UniqueKeys.value_eq {dict : Dictionary} (h : UniqueKeys dict) {key : Name}
    {v w : Object} (hv : (key, v) ∈ dict) (hw : (key, w) ∈ dict) : v = w :=
  congrArg Prod.snd (List.inj_on_of_nodup_map h hv hw rfl)

theorem Dictionary.UniqueKeys.filter {dict : Dictionary} (h : UniqueKeys dict)
    (P : Name × Object → Bool) : UniqueKeys (dict.filter P) :=
  h.sublist (List.filter_sublist.map Prod.fst)

theorem Dictionary.UniqueKeys.perm {dict dict' : Dictionary} (h : UniqueKeys dict)
    (hperm : dict'.Perm dict) : UniqueKeys dict' :=
  (hperm.map Prod.fst).nodup_iff.mpr h

theorem Dictionary.get_eq_some {dict : Dictionary} (h : UniqueKeys dict) {key : Name}
    {v : Object} : get dict key = some v ↔ (key, v) ∈ dict := by
  rw [get, List.lookup_eq_some_iff]
  refine ⟨?_, ?_⟩
  · rintro ⟨l, r, rfl, -⟩
    simp
  · intro hmem
    obtain ⟨l, r, rfl⟩ := List.append_of_mem hmem
    refine ⟨l, r, rfl, fun p hp => ?_⟩
    have hnodup : ((l ++ (key, v) :: r).map Prod.fst).Nodup := h
    rw [List.map_append, List.nodup_append] at hnodup
    have hne := hnodup.2.2 p.1 (List.mem_map_of_mem hp) key (by simp)
    simpa using hne.symm

theorem Dictionary.getName_eq_some {dict : Dictionary} (h : UniqueKeys dict) {key n : Name} :
    getName dict key = some n ↔ (key, .name n) ∈ dict := by
  rw [← get_eq_some h, getName]
  split
  · rename_i m hm
    rw [hm, Option.some.injEq, Option.some.injEq, Object.name.injEq]
  · rename_i hne
    exact iff_of_false (by simp) fun hget => hne n hget

theorem Object.UniqueKeys.entries {o : Object} (h : o.UniqueKeys) :
    Dictionary.UniqueKeys o.entries := h o .refl

theorem Object.UniqueKeys.child {p q : Object} (h : p.UniqueKeys) (hpq : p.Child q) :
    q.UniqueKeys := fun r hr => h r (.head hpq hr)

theorem Object.uniqueKeys_iff {o : Object} :
    o.UniqueKeys ↔ Dictionary.UniqueKeys o.entries ∧ ∀ q, o.Child q → q.UniqueKeys := by
  refine ⟨?_, ?_⟩
  · intro h
    exact ⟨h.entries, fun q hq => h.child hq⟩
  · rintro ⟨hentries, hchild⟩ p hp
    rcases Relation.ReflTransGen.cases_head hp with rfl | ⟨q, hq, hqp⟩
    · exact hentries
    · exact hchild q hq p hqp

@[simp] theorem Object.uniqueKeys_dictionary {dict : Dictionary} :
    (Object.dictionary dict).UniqueKeys ↔
      (dict.map Prod.fst).Nodup ∧ ∀ e ∈ dict, e.2.UniqueKeys := by
  rw [uniqueKeys_iff]
  refine and_congr Iff.rfl ⟨fun h e he => h e.2 (.inr ⟨e.1, he⟩), ?_⟩
  rintro h q (hq | ⟨key, hq⟩)
  · cases hq
  · exact h _ hq

@[simp] theorem Object.uniqueKeys_stream {dict : Dictionary} {content : List UInt8} :
    (Object.stream dict content).UniqueKeys ↔
      (dict.map Prod.fst).Nodup ∧ ∀ e ∈ dict, e.2.UniqueKeys := by
  rw [uniqueKeys_iff]
  refine and_congr Iff.rfl ⟨fun h e he => h e.2 (.inr ⟨e.1, he⟩), ?_⟩
  rintro h q (hq | ⟨key, hq⟩)
  · cases hq
  · exact h _ hq

@[simp] theorem Object.uniqueKeys_array {items : List Object} :
    (Object.array items).UniqueKeys ↔ ∀ o ∈ items, o.UniqueKeys := by
  rw [uniqueKeys_iff]
  refine ⟨?_, ?_⟩
  · rintro ⟨-, h⟩ o ho
    exact h o (.inl ho)
  · refine fun h => ⟨List.nodup_nil, ?_⟩
    rintro q (hq | ⟨key, hq⟩)
    · exact h q hq
    · cases hq

/-- Nothing stands in an object that is neither an array nor a dictionary. -/
theorem Object.uniqueKeys_atom {o : Object} (hitems : o.items = []) (hentries : o.entries = []) :
    o.UniqueKeys := by
  rw [uniqueKeys_iff, hentries]
  refine ⟨List.nodup_nil, ?_⟩
  rintro q (hq | ⟨key, hq⟩)
  · rw [hitems] at hq
    cases hq
  · rw [hentries] at hq
    cases hq

@[simp] theorem Object.uniqueKeys_scalar (value : Scalar) : (Object.scalar value).UniqueKeys :=
  uniqueKeys_atom rfl rfl

@[simp] theorem Object.uniqueKeys_name (n : Name) : (Object.name n).UniqueKeys :=
  uniqueKeys_atom rfl rfl

@[simp] theorem Object.uniqueKeys_string (bytes : List UInt8) (format : StringFormat) :
    (Object.string bytes format).UniqueKeys := uniqueKeys_atom rfl rfl

@[simp] theorem Object.uniqueKeys_reference (id : ObjectId) : (Object.reference id).UniqueKeys :=
  uniqueKeys_atom rfl rfl

/-! ## Entries -/

/-- The entries that are classified, each with its class. -/
def flagged (dangerous : List ObjectId) (dict : Dictionary) : List (Name × Object × ThreatClass) :=
  dict.filterMap fun entry =>
    (classifyKey entry.1 entry.2 dangerous).map fun threat => (entry.1, entry.2, threat)

/-- What is reported of a classified entry. -/
def entryItem (location : String) (entry : Name × Object × ThreatClass) : RemovedItem :=
  let name := fromUtf8Lossy entry.1
  { location := s!"{location} /{name}",
    threat := entry.2.2,
    detail := if entry.2.2 = .embeddedFile then s!"embedded-file reference /{name}"
      else s!"active-content entry /{name}",
    bytesRemoved := objectSize entry.2.1 }

theorem mem_flagged {dangerous : List ObjectId} {dict : Dictionary}
    {x : Name × Object × ThreatClass} :
    x ∈ flagged dangerous dict ↔
      (x.1, x.2.1) ∈ dict ∧ classifyKey x.1 x.2.1 dangerous = some x.2.2 := by
  obtain ⟨key, value, threat⟩ := x
  rw [flagged, List.mem_filterMap]
  refine ⟨?_, ?_⟩
  · rintro ⟨⟨k, v⟩, hkv, hsome⟩
    obtain ⟨threat', hthreat, heq⟩ := Option.map_eq_some_iff.mp hsome
    cases heq
    exact ⟨hkv, hthreat⟩
  · rintro ⟨hkv, hthreat⟩
    exact ⟨(key, value), hkv, Option.map_eq_some_iff.mpr ⟨threat, hthreat, rfl⟩⟩

theorem flagged_keys (dangerous : List ObjectId) (dict : Dictionary) :
    ((flagged dangerous dict).map Prod.fst).Sublist (dict.map Prod.fst) := by
  induction dict with
  | nil => exact .refl _
  | cons entry dict ih =>
    rw [flagged, List.filterMap_cons]
    cases classifyKey entry.1 entry.2 dangerous with
    | none => exact ih.cons _
    | some threat => exact ih.cons_cons _

/-- The entries to be removed are the flagged ones, in order. -/
theorem toRemove_eq (dangerous : List ObjectId) (location : String) (dict : Dictionary) :
    toRemove dangerous dict =
      (flagged dangerous dict).map fun x => (x.1, x.2.2, (entryItem location x).detail) := by
  rw [toRemove, flagged, List.map_filterMap]
  refine List.filterMap_congr fun entry _ => ?_
  cases hclass : classifyKey entry.1 entry.2 dangerous with
  | none => simp [hclass]
  | some threat => cases threat <;> simp [hclass, entryItem]

/-- The dictionary without its classified entries, in the order the library leaves the others. -/
def remaining (L : Lopdf) (dangerous : List ObjectId) (dict : Dictionary) : Dictionary :=
  (flagged dangerous dict).foldl (fun left x => L.remove left x.1) dict

/-- The entries under the keys of the list are taken out and reported, one by one. -/
theorem foldlM_removeEntry (hL : L.Lawful) (location : String)
    {todo : List (Name × Object × ThreatClass)} (hkeys : (todo.map Prod.fst).Nodup)
    {dict : Dictionary} (h : dict.UniqueKeys) (hmem : ∀ x ∈ todo, (x.1, x.2.1) ∈ dict)
    (s : List RemovedItem) :
    (todo.foldl (fun left x => L.remove left x.1) dict).Perm
      (dict.filter fun entry => todo.all fun x => entry.1 != x.1) ∧
    ((todo.map fun x => (x.1, x.2.2, (entryItem location x).detail)).foldlM
      (removeEntry L location) dict).run s =
        .ok (todo.foldl (fun left x => L.remove left x.1) dict,
          s ++ todo.map (entryItem location)) := by
  induction todo generalizing dict s with
  | nil => exact ⟨by simp, by rw [List.map_nil, List.map_nil, List.append_nil]; rfl⟩
  | cons x todo ih =>
    obtain ⟨key, value, threat⟩ := x
    rw [List.map_cons, List.nodup_cons] at hkeys
    have hperm := hL.remove_perm key h
    have hget : Dictionary.get dict key = some value :=
      (Dictionary.get_eq_some h).mpr (hmem _ List.mem_cons_self)
    have hstep : (removeEntry L location dict
        (key, threat, (entryItem location (key, value, threat)).detail)).run s =
          .ok (L.remove dict key, s ++ [entryItem location (key, value, threat)]) := by
      rw [removeEntry, hget]
      rfl
    -- the other entries are still there when their turn comes
    have hrest : ∀ y ∈ todo, (y.1, y.2.1) ∈ L.remove dict key := by
      intro y hy
      rw [hperm.mem_iff, List.mem_filter, bne_iff_ne]
      exact ⟨hmem y (List.mem_cons_of_mem _ hy), fun hsame =>
        hkeys.1 (List.mem_map.mpr ⟨y, hy, hsame⟩)⟩
    obtain ⟨hleft, hrun⟩ := ih hkeys.2 ((h.filter _).perm hperm) hrest
      (s ++ [entryItem location (key, value, threat)])
    rw [List.foldl_cons]
    refine ⟨hleft.trans ((hperm.filter _).trans ?_), ?_⟩
    · rw [List.filter_filter]
      exact .of_eq (List.filter_congr fun entry _ => by rw [List.all_cons, Bool.and_comm])
    · rw [List.map_cons, List.foldlM_cons, bind_run_of_ok hstep, hrun]
      simp

theorem nodup_flagged (dangerous : List ObjectId) {dict : Dictionary} (h : dict.UniqueKeys) :
    ((flagged dangerous dict).map Prod.fst).Nodup := h.sublist (flagged_keys dangerous dict)

/-- What remains of a dictionary are the entries that are not flagged, though perhaps in another
order. -/
theorem remaining_perm (hL : L.Lawful) (dangerous : List ObjectId) {dict : Dictionary}
    (h : dict.UniqueKeys) :
    (remaining L dangerous dict).Perm
      (dict.filter fun entry => (classifyKey entry.1 entry.2 dangerous).isNone) := by
  obtain ⟨hleft, -⟩ := foldlM_removeEntry hL "" (nodup_flagged dangerous h) h
    (fun x hx => (mem_flagged.mp hx).1) []
  refine hleft.trans (.of_eq (List.filter_congr fun entry hentry => ?_))
  rw [Bool.eq_iff_iff, List.all_eq_true, Option.isNone_iff_eq_none]
  refine ⟨?_, ?_⟩
  · intro hall
    by_contra hne
    obtain ⟨threat, hthreat⟩ := Option.ne_none_iff_exists'.mp hne
    simpa using hall (entry.1, entry.2, threat) (mem_flagged.mpr ⟨hentry, hthreat⟩)
  · intro hnone x hx
    obtain ⟨hmem, hsome⟩ := mem_flagged.mp hx
    rw [bne_iff_ne]
    rintro hkey
    rw [← hkey] at hmem hsome
    rw [h.value_eq hmem hentry, hnone] at hsome
    cases hsome

/-- **What sanitising the entries of a dictionary is**: the classified entries are taken out and
reported, then the values of those left are visited. -/
theorem sanitizeEntries_run (hL : L.Lawful) (visit : Object → Reporting Object)
    (location : String) (dangerous : List ObjectId) {dict : Dictionary} (h : dict.UniqueKeys)
    (s : List RemovedItem) :
    (sanitizeEntries L visit location dangerous dict).run s =
      ((remaining L dangerous dict).mapM
          fun entry : Name × Object => do return (entry.1, ← visit entry.2)).run
        (s ++ (flagged dangerous dict).map (entryItem location)) := by
  obtain ⟨-, hrun⟩ := foldlM_removeEntry hL location (nodup_flagged dangerous h) h
    (fun x hx => (mem_flagged.mp hx).1) s
  rw [sanitizeEntries, toRemove_eq dangerous location, bind_run_of_ok hrun]
  rfl

/-- What the entries of a sanitised dictionary are: those that are not classified, in some order,
each with a sanitised value. -/
theorem sanitizeEntries_eq_ok (hL : L.Lawful) {visit : Object → Reporting Object}
    {location : String} {dangerous : List ObjectId} {dict dict' : Dictionary}
    (h : dict.UniqueKeys) {s s' : List RemovedItem}
    (hrun : (sanitizeEntries L visit location dangerous dict).run s = .ok (dict', s')) :
    ∃ left : Dictionary,
      left.Perm (dict.filter fun entry => (classifyKey entry.1 entry.2 dangerous).isNone) ∧
      List.Forall₂ (fun e e' => e'.1 = e.1 ∧ ∃ t t', (visit e.2).run t = .ok (e'.2, t'))
        left dict' := by
  rw [sanitizeEntries_run hL visit location dangerous h s] at hrun
  refine ⟨remaining L dangerous dict, remaining_perm hL dangerous h, (mapM_eq_ok hrun).imp ?_⟩
  rintro entry e' ⟨t₁, t₂, he'⟩
  obtain ⟨value', t₃, hvalue, hpure⟩ := bind_eq_ok.mp he'
  obtain ⟨rfl, -⟩ := pure_eq_ok.mp hpure
  exact ⟨rfl, t₁, t₃, hvalue⟩

/-! ## Objects -/

/-- The second object is what a run of the sanitiser with so many levels left makes of the first
one. -/
def SanitizesAt (L : Lopdf) (dangerous : List ObjectId) (levels : Nat) (p q : Object) : Prop :=
  p.UniqueKeys ∧ ∃ location s s',
    (sanitizeObject L location dangerous levels p).run s = .ok (q, s')

/-- The second object is what a run of the sanitiser, at some depth, makes of the first one. -/
def Sanitizes (L : Lopdf) (dangerous : List ObjectId) (p q : Object) : Prop :=
  ∃ levels, SanitizesAt L dangerous levels p q

theorem Sanitizes.uniqueKeys_left {dangerous : List ObjectId} {p q : Object}
    (h : Sanitizes L dangerous p q) : p.UniqueKeys := by
  obtain ⟨levels, hkeys, -⟩ := h
  exact hkeys

/-- The ways a run of `sanitizeObject` succeeds, one for each kind of object. -/
theorem sanitizeObject_cases {location : String} {dangerous : List ObjectId} {levels : Nat}
    {p q : Object} {s s' : List RemovedItem}
    (hrun : (sanitizeObject L location dangerous (levels + 1) p).run s = .ok (q, s')) :
    (∃ dict dict', p = .dictionary dict ∧ q = .dictionary dict' ∧
      (sanitizeEntries L (sanitizeObject L location dangerous levels) location dangerous dict).run s
        = .ok (dict', s')) ∨
    (∃ dict dict' content, p = .stream dict content ∧ q = .stream dict' content ∧
      (sanitizeEntries L (sanitizeObject L location dangerous levels) location dangerous dict).run s
        = .ok (dict', s')) ∨
    (∃ items items', p = .array items ∧ q = .array items' ∧
      (items.mapM (sanitizeObject L location dangerous levels)).run s = .ok (items', s')) ∨
    (p.entries = [] ∧ p.items = [] ∧ q = p ∧ s' = s) := by
  cases p with
  | dictionary dict =>
    obtain ⟨dict', hdict, rfl⟩ := map_eq_ok.mp hrun
    exact .inl ⟨dict, dict', rfl, rfl, hdict⟩
  | stream dict content =>
    obtain ⟨dict', hdict, rfl⟩ := map_eq_ok.mp hrun
    exact .inr (.inl ⟨dict, dict', content, rfl, rfl, hdict⟩)
  | array items =>
    obtain ⟨items', hitems, rfl⟩ := map_eq_ok.mp hrun
    exact .inr (.inr (.inl ⟨items, items', rfl, rfl, hitems⟩))
  | scalar _ | name _ | string _ _ | reference _ =>
    obtain ⟨rfl, rfl⟩ := pure_eq_ok.mp hrun
    exact .inr (.inr (.inr ⟨rfl, rfl, rfl, rfl⟩))

variable {dangerous : List ObjectId}

theorem map_eq_of_forall₂ {α β γ : Type} {f : α → γ} {g : β → γ} {xs : List α} {ys : List β}
    (h : List.Forall₂ (fun x y => g y = f x) xs ys) : ys.map g = xs.map f := by
  induction h with
  | nil => rfl
  | cons hxy _ ih => rw [List.map_cons, List.map_cons, hxy, ih]

theorem Sanitizes.items {p q : Object} (h : Sanitizes L dangerous p q) :
    List.Forall₂ (Sanitizes L dangerous) p.items q.items := by
  obtain ⟨levels, hkeys, location, s, s', hrun⟩ := h
  cases levels with
  | zero => cases hrun
  | succ levels =>
    rcases sanitizeObject_cases hrun with ⟨dict, dict', rfl, rfl, -⟩ |
      ⟨dict, dict', content, rfl, rfl, -⟩ | ⟨items, items', rfl, rfl, hitems⟩ | ⟨-, hnil, rfl, -⟩
    · exact .nil
    · exact .nil
    · have hunique : ∀ p ∈ items, p.UniqueKeys := fun p hp => hkeys.child (.inl hp)
      refine ((List.forall₂_and_left _ _).mpr ⟨hunique, mapM_eq_ok hitems⟩).imp ?_
      rintro p q ⟨hp, t, t', hrun'⟩
      exact ⟨levels, hp, location, t, t', hrun'⟩
    · rw [hnil]
      exact .nil

theorem Sanitizes.entries (hL : L.Lawful) {p q : Object} (h : Sanitizes L dangerous p q) :
    ∃ left : Dictionary,
      left.Perm (p.entries.filter fun entry => (classifyKey entry.1 entry.2 dangerous).isNone) ∧
      List.Forall₂ (fun e e' => e'.1 = e.1 ∧ Sanitizes L dangerous e.2 e'.2) left q.entries := by
  obtain ⟨levels, hkeys, location, s, s', hrun⟩ := h
  have hdict : ∀ {dict dict' : Dictionary} {levels}, dict = p.entries →
      (sanitizeEntries L (sanitizeObject L location dangerous levels) location dangerous dict).run s
        = .ok (dict', s') →
      ∃ left : Dictionary,
        left.Perm (dict.filter fun entry => (classifyKey entry.1 entry.2 dangerous).isNone) ∧
        List.Forall₂ (fun e e' => e'.1 = e.1 ∧ Sanitizes L dangerous e.2 e'.2) left dict' := by
    rintro dict dict' levels rfl hrun'
    obtain ⟨left, hperm, hleft⟩ := sanitizeEntries_eq_ok hL hkeys.entries hrun'
    have hunique : ∀ e ∈ left, e.2.UniqueKeys := fun e he =>
      hkeys.child (.inr ⟨e.1, (List.mem_filter.mp (hperm.mem_iff.mp he)).1⟩)
    refine ⟨left, hperm, ((List.forall₂_and_left _ _).mpr ⟨hunique, hleft⟩).imp ?_⟩
    rintro e e' ⟨he, hkey, t, t', hvisit⟩
    exact ⟨hkey, levels, he, location, t, t', hvisit⟩
  cases levels with
  | zero => cases hrun
  | succ levels =>
    rcases sanitizeObject_cases hrun with ⟨dict, dict', rfl, rfl, hentries⟩ |
      ⟨dict, dict', content, rfl, rfl, hentries⟩ | ⟨items, items', rfl, rfl, -⟩ | ⟨hnil, -, rfl, -⟩
    · exact hdict rfl hentries
    · exact hdict rfl hentries
    · exact ⟨[], .refl [], .nil⟩
    · rw [hnil]
      exact ⟨[], .refl [], .nil⟩

/-- The entries under a key that are not classified are those that are left. -/
theorem Sanitizes.entry (hL : L.Lawful) {p q : Object} (h : Sanitizes L dangerous p q)
    (key : Name) : Matches (Sanitizes L dangerous)
      (fun v => (key, v) ∈ p.entries ∧ classifyKey key v dangerous = none)
      (fun v => (key, v) ∈ q.entries) := by
  obtain ⟨left, hperm, hleft⟩ := h.entries hL
  have hmem : ∀ v, (key, v) ∈ left ↔
      (key, v) ∈ p.entries ∧ classifyKey key v dangerous = none := by
    intro v
    rw [hperm.mem_iff, List.mem_filter, Option.isNone_iff_eq_none]
  have hmatch := Matches.of_forall₂ hleft
  refine ⟨?_, ?_⟩
  · intro v hv
    obtain ⟨⟨key', v'⟩, hv', rfl, hR⟩ := hmatch.left (key, v) ((hmem v).mpr hv)
    exact ⟨v', hv', hR⟩
  · intro v' hv'
    obtain ⟨⟨key', v⟩, hv, rfl, hR⟩ := hmatch.right (key, v') hv'
    exact ⟨v, (hmem v).mp hv, hR⟩

/-- A container stays one of its kind, and anything else stays what it is. -/
theorem Sanitizes.kind {p q : Object} (h : Sanitizes L dangerous p q) :
    (∃ dict dict', p = .dictionary dict ∧ q = .dictionary dict') ∨
    (∃ dict dict' content, p = .stream dict content ∧ q = .stream dict' content) ∨
    (∃ items items', p = .array items ∧ q = .array items') ∨ q = p := by
  obtain ⟨levels, -, location, s, s', hrun⟩ := h
  cases levels with
  | zero => cases hrun
  | succ levels =>
    rcases sanitizeObject_cases hrun with ⟨dict, dict', hp, hq, -⟩ |
      ⟨dict, dict', content, hp, hq, -⟩ | ⟨items, items', hp, hq, -⟩ | ⟨-, -, hq, -⟩
    · exact .inl ⟨dict, dict', hp, hq⟩
    · exact .inr (.inl ⟨dict, dict', content, hp, hq⟩)
    · exact .inr (.inr (.inl ⟨items, items', hp, hq⟩))
    · exact .inr (.inr (.inr hq))

theorem Sanitizes.leaf_iff {p q a : Object} (h : Sanitizes L dangerous p q)
    (hdict : ∀ dict, .dictionary dict ≠ a) (hstream : ∀ dict content, .stream dict content ≠ a)
    (harray : ∀ items, .array items ≠ a) : p = a ↔ q = a := by
  rcases h.kind with ⟨dict, dict', rfl, rfl⟩ | ⟨dict, dict', content, rfl, rfl⟩ |
    ⟨items, items', rfl, rfl⟩ | rfl
  · exact iff_of_false (hdict dict) (hdict dict')
  · exact iff_of_false (hstream dict content) (hstream dict' content)
  · exact iff_of_false (harray items) (harray items')
  · exact Iff.rfl

theorem Sanitizes.name_iff {p q : Object} (h : Sanitizes L dangerous p q) (n : Name) :
    p = .name n ↔ q = .name n :=
  h.leaf_iff (fun _ => Object.noConfusion) (fun _ _ => Object.noConfusion)
    fun _ => Object.noConfusion

theorem Sanitizes.reference_iff {p q : Object} (h : Sanitizes L dangerous p q) (id : ObjectId) :
    p = .reference id ↔ q = .reference id :=
  h.leaf_iff (fun _ => Object.noConfusion) (fun _ _ => Object.noConfusion)
    fun _ => Object.noConfusion

theorem Sanitizes.uniqueKeys_entries (hL : L.Lawful) {p q : Object}
    (h : Sanitizes L dangerous p q) : Dictionary.UniqueKeys q.entries := by
  obtain ⟨left, hperm, hleft⟩ := h.entries hL
  have hunique : Dictionary.UniqueKeys left := (h.uniqueKeys_left.entries.filter _).perm hperm
  change (q.entries.map Prod.fst).Nodup
  rwa [map_eq_of_forall₂ (hleft.imp fun _ _ hR => hR.1)]

/-! ### What sanitising does not change -/

/-- A key the disarmer does not look for is never classified. -/
theorem classifyKey_eq_none {key : Name}
    (h : key ∉ activeContentKeys ++ embeddedFileKeys ++ actionHolderKeys) (value : Object) :
    classifyKey key value dangerous = none := by
  simp only [List.mem_append, not_or] at h
  simp [classifyKey, h.1.1, h.1.2, h.2]

/-- A key that is never flagged has the name it had. -/
theorem Sanitizes.getName (hL : L.Lawful) {p q : Object} (h : Sanitizes L dangerous p q)
    {key : Name} (hkey : key ∉ activeContentKeys ++ embeddedFileKeys ++ actionHolderKeys) :
    Dictionary.getName q.entries key = Dictionary.getName p.entries key := by
  refine Option.ext fun n => ?_
  rw [Dictionary.getName_eq_some (h.uniqueKeys_entries hL),
    Dictionary.getName_eq_some h.uniqueKeys_left.entries]
  have hentry := h.entry hL key
  refine ⟨?_, ?_⟩
  · intro hq
    obtain ⟨v, ⟨hv, -⟩, hR⟩ := hentry.right _ hq
    rwa [(hR.name_iff n).mpr rfl] at hv
  · intro hp
    obtain ⟨v, hv, hR⟩ := hentry.left _ ⟨hp, classifyKey_eq_none hkey _⟩
    rwa [(hR.name_iff n).mp rfl] at hv

theorem isDangerousActionObject_eq (o : Object) :
    isDangerousActionObject o = isDangerousActionSubtype o.entries := by
  cases o <;> rfl

theorem isEmbeddedFileObject_eq (o : Object) :
    isEmbeddedFileObject o =
      (Dictionary.getName o.entries (ascii "Type") == some (ascii "EmbeddedFile") ||
        Dictionary.getName o.entries (ascii "Type") == some (ascii "Filespec")) := by
  cases o <;> rfl

theorem Sanitizes.isDangerousActionSubtype (hL : L.Lawful) {p q : Object}
    (h : Sanitizes L dangerous p q) :
    Pdf.isDangerousActionSubtype q.entries = Pdf.isDangerousActionSubtype p.entries := by
  rw [Pdf.isDangerousActionSubtype, Pdf.isDangerousActionSubtype, h.getName hL (by decide)]

theorem Sanitizes.isDangerousActionObject (hL : L.Lawful) {p q : Object}
    (h : Sanitizes L dangerous p q) :
    Pdf.isDangerousActionObject q = Pdf.isDangerousActionObject p := by
  rw [isDangerousActionObject_eq, isDangerousActionObject_eq, h.isDangerousActionSubtype hL]

theorem Sanitizes.isEmbeddedFileObject (hL : L.Lawful) {p q : Object}
    (h : Sanitizes L dangerous p q) :
    Pdf.isEmbeddedFileObject q = Pdf.isEmbeddedFileObject p := by
  rw [isEmbeddedFileObject_eq, isEmbeddedFileObject_eq, h.getName hL (by decide)]

/-- The entry is classified as before when its value has been sanitised. -/
theorem Sanitizes.classifyKey (hL : L.Lawful) {p q : Object} (h : Sanitizes L dangerous p q)
    (key : Name) (ids : List ObjectId) :
    Pdf.classifyKey key q ids = Pdf.classifyKey key p ids := by
  have hsubtype := h.isDangerousActionSubtype hL
  have hholder : isDangerousActionHolder q ids = isDangerousActionHolder p ids := by
    rcases h.kind with ⟨dict, dict', rfl, rfl⟩ | ⟨dict, dict', content, rfl, rfl⟩ |
      ⟨items, items', rfl, rfl⟩ | rfl
    · exact hsubtype
    · rfl
    · rfl
    · rfl
  rw [Pdf.classifyKey, Pdf.classifyKey, hholder]

/-! ## The document -/

theorem Document.WellFormed.nodup {doc : Document} (h : doc.WellFormed) :
    (doc.objects.map Prod.fst).Nodup := by
  have hlt : (doc.objects.map Prod.fst).Pairwise (· < ·) := List.pairwise_map.mpr h.sorted
  refine hlt.imp ?_
  rintro a b hab rfl
  rcases hab with hab | ⟨-, hab⟩
  · exact absurd hab (UInt32.lt_irrefl _)
  · exact absurd hab (UInt16.lt_irrefl _)

/-- What is reported of a payload. -/
def payloadItem (dangerous : List ObjectId) (entry : ObjectId × Object) : RemovedItem :=
  { location := objectLocation entry.1,
    threat := if dangerous.contains entry.1 then .activeContent else .embeddedFile,
    detail := if dangerous.contains entry.1 then
        "dangerous action object (/S launch/javascript/uri/…)"
      else "embedded file payload (/EmbeddedFile or /Filespec)",
    bytesRemoved := objectSize entry.2 }

theorem lookup_of_mem {objects : List (ObjectId × Object)}
    (hnodup : (objects.map Prod.fst).Nodup) {id : ObjectId} {object : Object}
    (h : (id, object) ∈ objects) : objects.lookup id = some object := by
  obtain ⟨l, r, rfl⟩ := List.append_of_mem h
  refine List.lookup_eq_some_iff.mpr ⟨l, r, rfl, fun entry hentry => ?_⟩
  rw [List.map_append, List.nodup_append] at hnodup
  have hne := hnodup.2.2 entry.1 (List.mem_map_of_mem hentry) id (by simp)
  simpa using hne.symm

/-- Removing a payload takes its object out and reports it. -/
theorem removePayload_run {objects : List (ObjectId × Object)}
    (hnodup : (objects.map Prod.fst).Nodup) {entry : ObjectId × Object} (h : entry ∈ objects)
    (s : List RemovedItem) :
    (removePayload dangerous objects entry.1).run s =
      .ok (objects.filter fun e => e.1 != entry.1, s ++ [payloadItem dangerous entry]) := by
  rw [removePayload, lookup_of_mem hnodup h, payloadItem]
  cases dangerous.contains entry.1 <;> rfl

/-- The objects of the list are taken out and reported, one by one. -/
theorem foldlM_removePayload {todo objects : List (ObjectId × Object)}
    (hkeys : (todo.map Prod.fst).Nodup) (hnodup : (objects.map Prod.fst).Nodup)
    (hmem : ∀ entry ∈ todo, entry ∈ objects) (s : List RemovedItem) :
    ((todo.map Prod.fst).foldlM (removePayload dangerous) objects).run s =
      .ok (objects.filter fun e => todo.all fun entry => e.1 != entry.1,
        s ++ todo.map (payloadItem dangerous)) := by
  induction todo generalizing objects s with
  | nil =>
    simp
    rfl
  | cons entry todo ih =>
    rw [List.map_cons, List.nodup_cons] at hkeys
    have hrest : ∀ e ∈ todo, e ∈ objects.filter fun e => e.1 != entry.1 := by
      intro e he
      rw [List.mem_filter, bne_iff_ne]
      exact ⟨hmem e (List.mem_cons_of_mem _ he), fun hsame =>
        hkeys.1 (List.mem_map.mpr ⟨e, he, hsame⟩)⟩
    rw [List.map_cons, List.foldlM_cons,
      bind_run_of_ok (removePayload_run hnodup (hmem entry List.mem_cons_self) s),
      ih hkeys.2 (hnodup.sublist (List.filter_sublist.map Prod.fst)) hrest, List.filter_filter,
      List.map_cons, List.append_assoc, List.singleton_append]
    congr 2
    exact List.filter_congr fun e _ => by rw [List.all_cons, Bool.and_comm]

/-- **What the sweep is**: the payloads are taken out and reported. -/
theorem sweep_run {objects : List (ObjectId × Object)} (hnodup : (objects.map Prod.fst).Nodup)
    (s : List RemovedItem) :
    (sweep dangerous objects).run s =
      .ok (objects.filter fun entry => !isPayload dangerous entry,
        s ++ (objects.filter (isPayload dangerous)).map (payloadItem dangerous)) := by
  rw [sweep, foldlM_removePayload (hnodup.sublist (List.filter_sublist.map Prod.fst)) hnodup
    fun entry hentry => (List.mem_filter.mp hentry).1]
  congr 2
  refine List.filter_congr fun entry hentry => ?_
  rw [Bool.eq_iff_iff, List.all_eq_true, Bool.not_eq_true']
  refine ⟨?_, ?_⟩
  · intro hall
    by_contra hpayload
    rw [Bool.not_eq_false] at hpayload
    simpa using hall entry (List.mem_filter.mpr ⟨hentry, hpayload⟩)
  · intro hpayload entry' hentry'
    obtain ⟨hmem, hpayload'⟩ := List.mem_filter.mp hentry'
    rw [bne_iff_ne]
    intro hsame
    rw [List.inj_on_of_nodup_map hnodup hentry hmem hsame, hpayload'] at hpayload
    cases hpayload

/-- Sanitising the objects keeps their ids. -/
theorem sanitizeEntry_ids {objects objects' : List (ObjectId × Object)} {s s' : List RemovedItem}
    (hrun : (objects.mapM (sanitizeEntry L dangerous)).run s = .ok (objects', s')) :
    objects'.map Prod.fst = objects.map Prod.fst := by
  refine map_eq_of_forall₂ ((mapM_eq_ok hrun).imp ?_)
  rintro e e' ⟨t, t', hentry⟩
  obtain ⟨o, t'', -, hpure⟩ := bind_eq_ok.mp hentry
  obtain ⟨rfl, -⟩ := pure_eq_ok.mp hpure
  rfl

/-- The three steps of the sanitising phase. -/
theorem sanitizeDocument_steps {doc doc' : Document} {s s' : List RemovedItem}
    (h : doc.WellFormed) (hrun : (sanitizeDocument L doc).run s = .ok (doc', s')) :
    ∃ objects t₁ t₂,
      (sanitizeDictionary L "trailer" (dangerousActions doc) maxDepth doc.trailer).run s =
        .ok (doc'.trailer, t₁) ∧
      (doc.objects.mapM (sanitizeEntry L (dangerousActions doc))).run t₁ = .ok (objects, t₂) ∧
      doc'.objects = objects.filter (fun entry => !isPayload (dangerousActions doc) entry) ∧
      s' = t₂ ++ (objects.filter (isPayload (dangerousActions doc))).map
        (payloadItem (dangerousActions doc)) := by
  obtain ⟨trailer, t₁, htrailer, hrun⟩ := bind_eq_ok.mp hrun
  obtain ⟨objects, t₂, hobjects, hrun⟩ := bind_eq_ok.mp hrun
  obtain ⟨swept, t₃, hsweep, hrun⟩ := bind_eq_ok.mp hrun
  obtain ⟨rfl, rfl⟩ := pure_eq_ok.mp hrun
  have hnodup : (objects.map Prod.fst).Nodup := by
    rw [sanitizeEntry_ids hobjects]
    exact h.nodup
  rw [sweep_run hnodup, Except.ok.injEq, Prod.mk.injEq] at hsweep
  obtain ⟨rfl, rfl⟩ := hsweep
  exact ⟨objects, t₁, t₂, htrailer, hobjects, rfl, rfl⟩

/-- What is neither trailer nor object stays as it is. -/
theorem sanitizeDocument_rest {doc doc' : Document} {s s' : List RemovedItem}
    (hrun : (sanitizeDocument L doc).run s = .ok (doc', s')) : doc'.rest = doc.rest := by
  obtain ⟨trailer, t₁, -, hrun⟩ := bind_eq_ok.mp hrun
  obtain ⟨objects, t₂, -, hrun⟩ := bind_eq_ok.mp hrun
  obtain ⟨swept, t₃, -, hrun⟩ := bind_eq_ok.mp hrun
  obtain ⟨rfl, -⟩ := pure_eq_ok.mp hrun
  rfl

/-- What the sanitising phase makes of the trailer and of each object. -/
theorem sanitizeDocument_eq_ok {doc doc' : Document} {s s' : List RemovedItem}
    (h : doc.WellFormed) (hrun : (sanitizeDocument L doc).run s = .ok (doc', s')) :
    SanitizesAt L (dangerousActions doc) maxDepth (.dictionary doc.trailer)
      (.dictionary doc'.trailer) ∧
    ∃ objects, List.Forall₂
        (fun e e' => e'.1 = e.1 ∧ SanitizesAt L (dangerousActions doc) maxDepth e.2 e'.2)
        doc.objects objects ∧
      doc'.objects = objects.filter fun entry => !isPayload (dangerousActions doc) entry := by
  obtain ⟨objects, t₁, t₂, htrailer, hobjects, hleft, -⟩ := sanitizeDocument_steps h hrun
  refine ⟨⟨h.trailer, "trailer", s, t₁, map_eq_ok.mpr ⟨doc'.trailer, htrailer, rfl⟩⟩,
    objects, ?_, hleft⟩
  refine ((List.forall₂_and_left _ _).mpr ⟨h.objects, mapM_eq_ok hobjects⟩).imp ?_
  rintro e e' ⟨he, t, t', hentry⟩
  obtain ⟨o, t'', ho, hpure⟩ := bind_eq_ok.mp hentry
  obtain ⟨rfl, -⟩ := pure_eq_ok.mp hpure
  exact ⟨rfl, he, objectLocation e.1, t, t'', ho⟩

/-- Whether an object is payload does not depend on whether it has been sanitised. -/
theorem Sanitizes.isPayload (hL : L.Lawful) {p q : Object} (h : Sanitizes L dangerous p q)
    (ids : List ObjectId) (id : ObjectId) :
    Pdf.isPayload ids (id, q) = Pdf.isPayload ids (id, p) := by
  simp only [Pdf.isPayload, h.isEmbeddedFileObject hL]

/-- **Sanitising keeps what is to be kept**: the sanitised document corresponds to the kept part of
the input. -/
theorem sanitizeDocument_correspond (hL : L.Lawful) {doc doc' : Document}
    {s s' : List RemovedItem} (h : doc.WellFormed)
    (hrun : (sanitizeDocument L doc).run s = .ok (doc', s')) :
    Correspond (Sanitizes L (dangerousActions doc)) doc.kept doc'.graph := by
  obtain ⟨htrailer, objects, hobjects, hleft⟩ := sanitizeDocument_eq_ok h hrun
  refine ⟨⟨_, htrailer⟩, fun p q hR => .of_forall₂ hR.items, fun p q hR key => hR.entry hL key,
    fun p q hR id => hR.reference_iff id, fun id => ?_⟩
  have hmatch := Matches.of_forall₂ hobjects
  have hmem : ∀ o, doc'.graph.object id o ↔
      (id, o) ∈ objects ∧ Pdf.isPayload (dangerousActions doc) (id, o) = false := by
    intro o
    change (id, o) ∈ doc'.objects ↔ _
    rw [hleft, List.mem_filter, Bool.not_eq_true']
  refine ⟨?_, ?_⟩
  · rintro o ⟨ho, hpayload⟩
    obtain ⟨⟨id', o'⟩, ho', rfl, hR⟩ := hmatch.left (id, o) ho
    have hR : Sanitizes L (dangerousActions doc) o o' := ⟨_, hR⟩
    exact ⟨o', (hmem o').mpr ⟨ho', (hR.isPayload hL _ _).trans hpayload⟩, hR⟩
  · intro o' ho'
    obtain ⟨ho', hpayload⟩ := (hmem o').mp ho'
    obtain ⟨⟨id', o⟩, ho, rfl, hR⟩ := hmatch.right (id, o') ho'
    have hR : Sanitizes L (dangerousActions doc) o o' := ⟨_, hR⟩
    exact ⟨o, ⟨ho, (hR.isPayload hL _ _).symm.trans hpayload⟩, hR⟩

/-- Sanitising keeps keys unique, at every inline depth. -/
theorem Sanitizes.uniqueKeys (hL : L.Lawful) {p q : Object} (h : Sanitizes L dangerous p q) :
    q.UniqueKeys := by
  have hstep : Bisimulation (Sanitizes L dangerous)
      (fun p q => q ∈ p.items ∨ ∃ key, (key, q) ∈ p.entries ∧
        Pdf.classifyKey key q dangerous = none) Object.Child :=
    fun _ _ hR => (Matches.of_forall₂ hR.items).or (.iUnion fun key => hR.entry hL key)
  intro o ho
  obtain ⟨p', -, hR⟩ := (hstep.star h).right o ho
  exact hR.uniqueKeys_entries hL

/-- A sanitised document is one that the library could hold. -/
theorem sanitizeDocument_wellFormed (hL : L.Lawful) {doc doc' : Document} {s s' : List RemovedItem}
    (h : doc.WellFormed) (hrun : (sanitizeDocument L doc).run s = .ok (doc', s')) :
    doc'.WellFormed := by
  obtain ⟨htrailer, objects, hobjects, hleft⟩ := sanitizeDocument_eq_ok h hrun
  refine ⟨?_, Sanitizes.uniqueKeys hL ⟨_, htrailer⟩, ?_⟩
  · have hsorted : (objects.map Prod.fst).Pairwise (· < ·) := by
      rw [map_eq_of_forall₂ (hobjects.imp fun _ _ hR => hR.1)]
      exact List.pairwise_map.mpr h.sorted
    rw [hleft]
    exact (List.pairwise_map.mp hsorted).sublist List.filter_sublist
  · intro entry hentry
    rw [hleft] at hentry
    obtain ⟨e, -, -, hR⟩ := (Matches.of_forall₂ hobjects).right entry (List.mem_filter.mp hentry).1
    exact Sanitizes.uniqueKeys hL ⟨_, hR⟩

end Pdf

end Purgo
