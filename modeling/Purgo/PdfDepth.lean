import Purgo.PdfLibrary
import Purgo.PdfSanitize

/-!
# How deep the disarmer goes

`sanitize_object` refuses a value that stands 64 levels deep, but the classified entries of a
dictionary are out of it before its values are visited. So a value 64 levels deep under such an
entry is not refused, and `object_size`, which has no bound of its own, goes down to it when the
entry is reported.

`Document.Opens` says which values a run looks into, and how deep they stand. `Document.walk` lists
the values the sanitiser visits, by the input alone. The two are compared in `disarmInner_depth`,
which gives exactly the documents on which the bound holds.
-/

namespace Purgo

open Rust Threaded

namespace Pdf

variable {L : Lopdf} {dangerous : List ObjectId}

/-! ## Depth -/

namespace Object

/-- What is written inline in an object. -/
def children (o : Object) : List Object := o.items ++ o.entries.map Prod.snd

/-- What `objectSize` goes into. The dictionary of a stream is not measured. -/
def measured : Object → List Object
  | .array items => items
  | .dictionary dict => dict.map Prod.snd
  | _ => []

/-- What the sanitiser visits in an object. -/
def visited (L : Lopdf) (dangerous : List ObjectId) (o : Object) : List Object :=
  o.items ++ (remaining L dangerous o.entries).map Prod.snd

/-- The second object stands so many levels below the first one. -/
def Below (step : Object → List Object) : Nat → Object → Object → Prop
  | 0, p, q => q = p
  | n + 1, p, q => ∃ c ∈ step p, Below step n c q

theorem mem_children {p q : Object} : q ∈ p.children ↔ p.Child q := by
  rw [children, List.mem_append, Child]
  refine or_congr_right ⟨?_, ?_⟩
  · intro hq
    obtain ⟨entry, hentry, rfl⟩ := List.mem_map.mp hq
    exact ⟨entry.1, hentry⟩
  · rintro ⟨key, hentry⟩
    exact List.mem_map.mpr ⟨(key, q), hentry, rfl⟩

theorem measured_subset (p : Object) : p.measured ⊆ p.children := by
  intro q hq
  cases p with
  | array items => exact List.mem_append_left _ hq
  | dictionary dict => exact hq
  | scalar _ | name _ | string _ _ | stream _ _ | reference _ => cases hq

theorem visited_subset (hL : L.Lawful) {p : Object} (h : p.UniqueKeys) :
    p.visited L dangerous ⊆ p.children := by
  refine List.append_subset.mpr ⟨List.subset_append_left _ _, ?_⟩
  intro q hq
  obtain ⟨entry, hentry, rfl⟩ := List.mem_map.mp hq
  have hmem := (remaining_perm hL dangerous h.entries).mem_iff.mp hentry
  exact List.mem_append_right _ (List.mem_map_of_mem (List.mem_filter.mp hmem).1)

theorem Below.mono {step step' : Object → List Object} (h : ∀ p, step p ⊆ step' p) {n : Nat}
    {p q : Object} (hpq : Below step n p q) : Below step' n p q := by
  induction n generalizing p with
  | zero => exact hpq
  | succ n ih =>
    obtain ⟨c, hc, hcq⟩ := hpq
    exact ⟨c, h p hc, ih hcq⟩

theorem Below.trans {step : Object → List Object} {n m : Nat} {p q r : Object}
    (hpq : Below step n p q) (hqr : Below step m q r) : Below step (m + n) p r := by
  induction n generalizing p with
  | zero =>
    obtain rfl := hpq
    exact hqr
  | succ n ih =>
    obtain ⟨c, hc, hcq⟩ := hpq
    exact ⟨c, hc, ih hcq⟩

end Object

/-- The trailer and the objects, which stand at depth 0. -/
def Document.roots (doc : Document) : List Object :=
  .dictionary doc.trailer :: doc.objects.map Prod.snd

/-- Some value stands 64 levels deep or more. -/
def Document.Deep (doc : Document) : Prop :=
  ∃ root ∈ doc.roots, ∃ n q, maxDepth ≤ n ∧ Object.Below Object.children n root q

/-! ## What a run looks into -/

/-- A run of `sanitizeObject` on the first object, with so many levels left and from this report,
looks into the second one, so many levels below. -/
def Opens (L : Lopdf) (location : String) (dangerous : List ObjectId) :
    Nat → Object → List RemovedItem → Nat → Object → Prop
  -- it returns before it looks at what it was given
  | 0, _, _, _, _ => False
  | levels + 1, p, s, n, q =>
    (n = 0 ∧ q = p) ∨
    -- `object_size`, once for each entry that is removed
    (∃ entry ∈ flagged dangerous p.entries, ∃ m, n = m + 1 ∧
      Object.Below Object.measured m entry.2.1 q) ∨
    (∃ c ∈ reached (sanitizeObject L location dangerous levels) (p.visited L dangerous)
        (s ++ (flagged dangerous p.entries).map (entryItem location)),
      ∃ m, n = m + 1 ∧ Opens L location dangerous levels c.1 c.2 m q)

/-- The sanitising phase looks into the object, so many levels below the trailer or an object of
the document. -/
def Document.Opens (L : Lopdf) (doc : Document) (n : Nat) (q : Object) : Prop :=
  Pdf.Opens L "trailer" (dangerousActions doc) maxDepth (.dictionary doc.trailer) [] n q ∨
  ∃ trailer s,
    (sanitizeDictionary L "trailer" (dangerousActions doc) maxDepth doc.trailer).run [] =
      .ok (trailer, s) ∧
    ((∃ c ∈ reached (sanitizeEntry L (dangerousActions doc)) doc.objects s,
        Pdf.Opens L (objectLocation c.1.1) (dangerousActions doc) maxDepth c.1.2 c.2 n q) ∨
      -- the sweep measures what is left of a payload
      ∃ objects t, (doc.objects.mapM (sanitizeEntry L (dangerousActions doc))).run s =
          .ok (objects, t) ∧
        ∃ entry ∈ objects.filter (isPayload (dangerousActions doc)),
          Object.Below Object.measured n entry.2 q)

/-! ## The walk -/

/-- The values the sanitiser visits, each with the number of levels left there, in the order it
comes to them. -/
def walk (L : Lopdf) (dangerous : List ObjectId) : Nat → Object → List (Nat × Object)
  | 0, p => [(0, p)]
  | levels + 1, p => (levels + 1, p) :: (p.visited L dangerous).flatMap (walk L dangerous levels)

/-- The walk through the trailer and the objects. -/
def Document.walk (L : Lopdf) (doc : Document) : List (Nat × Object) :=
  Pdf.walk L (dangerousActions doc) maxDepth (.dictionary doc.trailer) ++
    doc.objects.flatMap fun entry => Pdf.walk L (dangerousActions doc) maxDepth entry.2

/-- A level is left for the value. -/
def within (visit : Nat × Object) : Bool := visit.1 != 0

/-- Under a classified entry of the value stands something 64 levels deep, which is measured. -/
def Overflows (dangerous : List ObjectId) (visit : Nat × Object) : Prop :=
  ∃ entry ∈ flagged dangerous visit.2.entries, ∃ n q, visit.1 ≤ n + 1 ∧
    Object.Below Object.measured n entry.2.1 q

/-! ## When sanitising fails -/

/-- The error for an object that is nested too deep. -/
def tooDeep : DomainError := malformed "PDF object nesting too deep"

/-- The sanitiser fails on a dictionary when it fails on a value that remains. -/
theorem sanitizeEntries_failsWhen (hL : L.Lawful) {visit : Object → Reporting Object}
    {location : String} {dict : Dictionary} (h : dict.UniqueKeys) {e : DomainError}
    {P : Object → Prop} (hvisit : ∀ entry ∈ dict, FailsWhen (visit entry.2) e (P entry.2)) :
    FailsWhen (sanitizeEntries L visit location dangerous dict) e
      (∃ p ∈ (remaining L dangerous dict).map Prod.snd, P p) := by
  refine ((FailsWhen.mapM (P := fun entry : Name × Object => P entry.2)
    fun entry hentry => ?_).congr ?_).of_run_eq fun s =>
      ⟨_, sanitizeEntries_run hL visit location dangerous h s⟩
  · have hmem := (remaining_perm hL dangerous h).mem_iff.mp hentry
    exact (hvisit entry (List.mem_filter.mp hmem).1).bind_pure _
  · refine ⟨fun ⟨entry, hentry, hP⟩ => ⟨entry.2, List.mem_map_of_mem hentry, hP⟩, ?_⟩
    rintro ⟨q, hq, hP⟩
    obtain ⟨entry, hentry, rfl⟩ := List.mem_map.mp hq
    exact ⟨entry, hentry, hP⟩

theorem exists_mem_flatMap {α β : Type} {f : α → List β} {xs : List α} {P : β → Prop} :
    (∃ y ∈ xs.flatMap f, P y) ↔ ∃ x ∈ xs, ∃ y ∈ f x, P y := by
  refine ⟨?_, ?_⟩
  · rintro ⟨y, hy, hP⟩
    obtain ⟨x, hx, hyx⟩ := List.mem_flatMap.mp hy
    exact ⟨x, hx, y, hyx, hP⟩
  · rintro ⟨x, hx, y, hy, hP⟩
    exact ⟨y, List.mem_flatMap.mpr ⟨x, hx, hy⟩, hP⟩

/-- **When `sanitizeObject` fails**: when the walk comes to a value with no level left. -/
theorem sanitizeObject_failsWhen (hL : L.Lawful) (location : String) (levels : Nat) {p : Object}
    (h : p.UniqueKeys) : FailsWhen (sanitizeObject L location dangerous levels p) tooDeep
      (∃ visit ∈ walk L dangerous levels p, within visit = false) := by
  induction levels generalizing p with
  | zero => exact (FailsWhen.throw tooDeep).congr (by simp [walk, within])
  | succ levels ih =>
    have hwalk : (∃ visit ∈ walk L dangerous (levels + 1) p, within visit = false) ↔
        ∃ q ∈ p.visited L dangerous,
          ∃ visit ∈ walk L dangerous levels q, within visit = false := by
      rw [walk, List.exists_mem_cons_iff, exists_mem_flatMap]
      exact or_iff_right (by simp [within])
    refine FailsWhen.congr ?_ hwalk.symm
    cases p with
    | array items =>
      have hitems : (Object.array items).visited L dangerous = items := List.append_nil items
      rw [hitems]
      exact (FailsWhen.mapM fun q hq => ih (h.child (.inl hq))).map _
    | dictionary dict =>
      exact (sanitizeEntries_failsWhen hL h.entries fun entry hentry =>
        ih (h.child (.inr ⟨entry.1, hentry⟩))).map _
    | stream dict content =>
      exact (sanitizeEntries_failsWhen hL h.entries fun entry hentry =>
        ih (h.child (.inr ⟨entry.1, hentry⟩))).map _
    | scalar _ | name _ | string _ _ | reference _ =>
      exact (FailsWhen.pure _ tooDeep).congr
        ⟨False.elim, fun ⟨q, hq, _⟩ => List.not_mem_nil hq⟩

theorem sanitizeEntry_failsWhen (hL : L.Lawful) (dangerous : List ObjectId)
    {entry : ObjectId × Object} (h : entry.2.UniqueKeys) :
    FailsWhen (sanitizeEntry L dangerous entry) tooDeep
      (∃ visit ∈ walk L dangerous maxDepth entry.2, within visit = false) :=
  (sanitizeObject_failsWhen hL _ maxDepth h).bind_pure _

theorem sanitizeDictionary_failsWhen (hL : L.Lawful) (location : String)
    (dangerous : List ObjectId) {dict : Dictionary} (h : (Object.dictionary dict).UniqueKeys) :
    FailsWhen (sanitizeDictionary L location dangerous maxDepth dict) tooDeep
      (∃ visit ∈ walk L dangerous maxDepth (.dictionary dict), within visit = false) :=
  FailsWhen.of_map (f := Object.dictionary) (sanitizeObject_failsWhen hL location maxDepth h)

/-- **When the sanitising phase fails**: when the walk comes to a value with no level left. -/
theorem sanitizeDocument_failsWhen (hL : L.Lawful) {doc : Document} (h : doc.WellFormed) :
    FailsWhen (sanitizeDocument L doc) tooDeep
      (∃ visit ∈ doc.walk L, within visit = false) := by
  have htrailer := sanitizeDictionary_failsWhen hL "trailer" (dangerousActions doc) h.trailer
  have hobjects := FailsWhen.mapM fun entry hentry =>
    sanitizeEntry_failsWhen hL (dangerousActions doc) (h.objects entry hentry)
  have hsweep : ∀ objects s t, (doc.objects.mapM (sanitizeEntry L (dangerousActions doc))).run s =
      .ok (objects, t) → FailsWhen (sweep (dangerousActions doc) objects) tooDeep False := by
    intro objects s t hrun
    refine ⟨False.elim, fun _ u => ⟨_, _, sweep_run ?_ u⟩⟩
    rw [sanitizeEntry_ids hrun]
    exact h.nodup
  refine (htrailer.bind fun trailer _ _ _ => hobjects.bind fun objects s t hrun =>
    (hsweep objects s t hrun).bind_pure _).congr ?_
  rw [or_false, Document.walk, ← exists_mem_flatMap]
  simp only [List.mem_append, or_and_right, exists_or]

/-! ## When a run goes too deep -/

/-- **When `sanitizeObject` goes too deep**: when the walk, up to the first value with no level
left, comes to one with too much under a classified entry. -/
theorem exists_opens (hL : L.Lawful) (location : String) (dangerous : List ObjectId)
    (levels : Nat) {p : Object} (h : p.UniqueKeys) (s : List RemovedItem) :
    (∃ n q, levels ≤ n ∧ Opens L location dangerous levels p s n q) ↔
      ∃ visit ∈ (walk L dangerous levels p).takeWhile within, Overflows dangerous visit := by
  induction levels generalizing p s with
  | zero => exact iff_of_false (fun ⟨_, _, _, hopens⟩ => hopens) (by simp [walk, within])
  | succ levels ih =>
    have hunique : ∀ q ∈ p.visited L dangerous, q.UniqueKeys := fun q hq =>
      h.child (Object.mem_children.mp (Object.visited_subset hL h hq))
    have hvisited := exists_reached within (f := sanitizeObject L location dangerous levels)
      (e := tooDeep) (V := walk L dangerous levels)
      (T := fun c t => ∃ n q, levels ≤ n ∧ Opens L location dangerous levels c t n q)
      (fun q hq => sanitizeObject_failsWhen hL location levels (hunique q hq))
      (fun q hq => ih (hunique q hq))
      (s ++ (flagged dangerous p.entries).map (entryItem location))
    have hhead : within (levels + 1, p) = true := rfl
    rw [walk, List.takeWhile_cons_of_pos hhead, List.exists_mem_cons_iff, ← hvisited]
    refine ⟨?_, ?_⟩
    · rintro ⟨n, q, hn, ⟨rfl, -⟩ | ⟨entry, hentry, m, rfl, hbelow⟩ | ⟨c, hc, m, rfl, hopens⟩⟩
      · exact absurd hn (Nat.not_succ_le_zero levels)
      · exact .inl ⟨entry, hentry, m, q, hn, hbelow⟩
      · exact .inr ⟨c, hc, m, q, Nat.le_of_succ_le_succ hn, hopens⟩
    · rintro (⟨entry, hentry, m, q, hm, hbelow⟩ | ⟨c, hc, m, q, hm, hopens⟩)
      · exact ⟨m + 1, q, hm, .inr (.inl ⟨entry, hentry, m, rfl, hbelow⟩)⟩
      · exact ⟨m + 1, q, Nat.succ_le_succ hm, .inr (.inr ⟨c, hc, m, rfl, hopens⟩)⟩

/-- Nothing is too deep in what a successful run leaves. -/
theorem sanitizeObject_shallow (hL : L.Lawful) {location : String} {levels : Nat} {p q : Object}
    (h : p.UniqueKeys) {s s' : List RemovedItem}
    (hrun : (sanitizeObject L location dangerous levels p).run s = .ok (q, s')) {n : Nat}
    {r : Object} (hbelow : Object.Below Object.children n q r) : n < levels := by
  induction levels generalizing p q s s' n with
  | zero => cases hrun
  | succ levels ih =>
    cases n with
    | zero => exact Nat.zero_lt_succ levels
    | succ n =>
      obtain ⟨c, hc, hbelow⟩ := hbelow
      refine Nat.succ_lt_succ ?_
      have hdict : ∀ {dict dict' : Dictionary}, (Object.dictionary dict).UniqueKeys →
          (sanitizeEntries L (sanitizeObject L location dangerous levels) location dangerous
            dict).run s = .ok (dict', s') → c ∈ dict'.map Prod.snd → n < levels := by
        intro dict dict' hunique hentries hmem
        obtain ⟨e', he', rfl⟩ := List.mem_map.mp hmem
        obtain ⟨left, hperm, hleft⟩ := sanitizeEntries_eq_ok hL hunique.entries hentries
        obtain ⟨e, he, -, t, t', hvisit⟩ := (Simulation.Matches.of_forall₂ hleft).right e' he'
        exact ih (hunique.child (.inr ⟨e.1, (List.mem_filter.mp (hperm.mem_iff.mp he)).1⟩))
          hvisit hbelow
      rcases sanitizeObject_cases hrun with ⟨dict, dict', rfl, rfl, hentries⟩ |
        ⟨dict, dict', content, rfl, rfl, hentries⟩ | ⟨items, items', rfl, rfl, hitems⟩ |
        ⟨hentries, hitems, rfl, -⟩
      · exact hdict h hentries hc
      · exact hdict (Object.uniqueKeys_dictionary.mpr (Object.uniqueKeys_stream.mp h)) hentries hc
      · obtain hc | ⟨key, hc⟩ := Object.mem_children.mp hc
        case inr => cases hc
        obtain ⟨o, ho, t, t', hvisit⟩ :=
          (Simulation.Matches.of_forall₂ (mapM_eq_ok hitems)).right c hc
        exact ih (h.child (.inl ho)) hvisit hbelow
      · rw [Object.children, hentries, hitems] at hc
        cases hc

/-- **When the sanitising phase goes too deep**. -/
theorem Document.exists_opens (hL : L.Lawful) {doc : Document} (h : doc.WellFormed) :
    (∃ n q, maxDepth ≤ n ∧ doc.Opens L n q) ↔
      ∃ visit ∈ (doc.walk L).takeWhile within, Overflows (dangerousActions doc) visit := by
  have htrailer := Pdf.exists_opens hL "trailer" (dangerousActions doc) maxDepth h.trailer []
  have hfails := sanitizeDictionary_failsWhen hL "trailer" (dangerousActions doc) h.trailer
  have hobjects := exists_reached within (f := sanitizeEntry L (dangerousActions doc))
    (e := tooDeep) (V := fun entry => Pdf.walk L (dangerousActions doc) maxDepth entry.2)
    (T := fun c t => ∃ n q, maxDepth ≤ n ∧
      Pdf.Opens L (objectLocation c.1) (dangerousActions doc) maxDepth c.2 t n q)
    (Q := Overflows (dangerousActions doc))
    (fun entry hentry => sanitizeEntry_failsWhen hL _ (h.objects entry hentry))
    (fun entry hentry => Pdf.exists_opens hL _ _ _ (h.objects entry hentry))
  rw [Document.walk, exists_takeWhile_append, ← htrailer]
  refine ⟨?_, ?_⟩
  · rintro ⟨n, q, hn, hopens | ⟨trailer, s, hrun, hlater⟩⟩
    · exact .inl ⟨n, q, hn, hopens⟩
    · refine .inr ⟨hfails.not_of_ok hrun, ?_⟩
      obtain ⟨c, hc, hopens⟩ | ⟨objects, t, hrun', entry, hentry, hbelow⟩ := hlater
      · exact (hobjects s).mp ⟨c, hc, n, q, hn, hopens⟩
      · -- what the sweep measures has been sanitised
        obtain ⟨e, he, u, u', hvisit⟩ := (Simulation.Matches.of_forall₂ (mapM_eq_ok hrun')).right
          entry (List.mem_filter.mp hentry).1
        obtain ⟨o, v, ho, hpure⟩ := bind_eq_ok.mp hvisit
        obtain ⟨rfl, -⟩ := pure_eq_ok.mp hpure
        have hshallow := sanitizeObject_shallow hL (h.objects e he) ho
          (hbelow.mono Object.measured_subset)
        exact absurd hn (Nat.not_le_of_lt hshallow)
  · rintro (⟨n, q, hn, hopens⟩ | ⟨hgood, hlater⟩)
    · exact ⟨n, q, hn, .inl hopens⟩
    · obtain ⟨trailer, s, hrun⟩ := hfails.2 hgood []
      obtain ⟨c, hc, n, q, hn, hopens⟩ := (hobjects s).mpr hlater
      exact ⟨n, q, hn, .inr ⟨trailer, s, hrun, .inl ⟨c, hc, hopens⟩⟩⟩

/-! ## The bound -/

/-- The walk stays inside the document. -/
theorem walk_below (hL : L.Lawful) {levels : Nat} {p : Object} (h : p.UniqueKeys)
    {visit : Nat × Object} (hvisit : visit ∈ walk L dangerous levels p) :
    visit.1 ≤ levels ∧ Object.Below Object.children (levels - visit.1) p visit.2 := by
  induction levels generalizing p with
  | zero =>
    obtain rfl := List.mem_singleton.mp hvisit
    exact ⟨Nat.le_refl 0, rfl⟩
  | succ levels ih =>
    rw [walk, List.mem_cons] at hvisit
    obtain rfl | hvisit := hvisit
    · rw [Nat.sub_self]
      exact ⟨Nat.le_refl _, rfl⟩
    · obtain ⟨c, hc, hvisit⟩ := List.mem_flatMap.mp hvisit
      have hchild := Object.visited_subset hL h hc
      obtain ⟨hle, hbelow⟩ := ih (h.child (Object.mem_children.mp hchild)) hvisit
      refine ⟨Nat.le_succ_of_le hle, ?_⟩
      rw [Nat.succ_sub hle]
      exact ⟨c, hchild, hbelow⟩

/-- A value with no level left, or with too much under a classified entry, shows that the document
is deep. -/
theorem Document.deep_of_walk (hL : L.Lawful) {doc : Document} (h : doc.WellFormed)
    {visit : Nat × Object} (hvisit : visit ∈ doc.walk L)
    (hdeep : within visit = false ∨ Overflows (dangerousActions doc) visit) : doc.Deep := by
  have hroot : ∃ root ∈ doc.roots, root.UniqueKeys ∧
      visit ∈ Pdf.walk L (dangerousActions doc) maxDepth root := by
    rw [Document.walk, List.mem_append, List.mem_flatMap] at hvisit
    obtain hvisit | ⟨entry, hentry, hvisit⟩ := hvisit
    · exact ⟨_, List.mem_cons_self, h.trailer, hvisit⟩
    · exact ⟨entry.2, List.mem_cons_of_mem _ (List.mem_map_of_mem hentry),
        h.objects entry hentry, hvisit⟩
  obtain ⟨root, hroot, hunique, hvisit⟩ := hroot
  obtain ⟨hle, hbelow⟩ := walk_below hL hunique hvisit
  obtain hout | ⟨entry, hentry, n, q, hn, hmeasured⟩ := hdeep
  · have hzero : visit.1 = 0 := by simpa [within] using hout
    rw [hzero] at hbelow
    exact ⟨root, hroot, maxDepth, visit.2, Nat.le_refl _, hbelow⟩
  · have hchild : Object.Below Object.children (n + 1) visit.2 q :=
      ⟨entry.2.1, Object.mem_children.mpr (.inr ⟨entry.1, (mem_flagged.mp hentry).1⟩),
        hmeasured.mono Object.measured_subset⟩
    exact ⟨root, hroot, n + 1 + (maxDepth - visit.1), q, by omega, hbelow.trans hchild⟩

/-- Saving to memory does not fail. -/
def Lopdf.Saves (L : Lopdf) : Prop := ∀ doc, ∃ out, L.saveTo doc = .ok out

/-- A document that can be loaded is refused for its depth and for nothing else. -/
theorem disarmInner_malformed (hL : L.Lawful) (hsaves : L.Saves) {data : List UInt8}
    {doc : LoadedDocument} (hload : L.loadMem data = .ok doc) :
    (∃ reason, disarmInner L data = Exec.fail (malformed reason)) ↔
      ∃ visit ∈ doc.walk L, within visit = false := by
  have hfails := sanitizeDocument_failsWhen hL doc.wellFormed
  by_cases hbad : ∃ visit ∈ doc.walk L, within visit = false
  · have hrebuild : rebuild L doc.toDocument = .error tooDeep := by
      rw [rebuild, hfails.1 hbad []]
      rfl
    refine iff_of_true ⟨"PDF object nesting too deep", ?_⟩ hbad
    rw [disarmInner, hload, Exec.mapErr, Exec.ok_bind, hrebuild]
    rfl
  · obtain ⟨sanitized, removed, hrun⟩ := hfails.2 hbad []
    have hrebuild : rebuild L doc.toDocument = .ok (L.pruneObjects sanitized, removed) := by
      rw [rebuild, hrun]
      rfl
    obtain ⟨out, hout⟩ := hsaves (L.pruneObjects sanitized)
    have haccepts : disarmInner L data = .ok { bytes := out, removed := removed } := by
      rw [disarmInner, hload, Exec.mapErr, Exec.ok_bind, hrebuild, Exec.lift_ok, Exec.ok_bind]
      simp only [hout]
      rfl
    refine iff_of_false ?_ hbad
    rintro ⟨reason, hfail⟩
    rw [haccepts] at hfail
    cases hfail

/-- **The bound on the nesting**: a deep document is refused and no run looks into a value 64 levels
deep exactly when the document is not deep at all, or the walk comes to a value with no level left,
and before it to none with too much under a classified entry. -/
theorem disarmInner_depth (hL : L.Lawful) (hsaves : L.Saves) {data : List UInt8}
    {doc : LoadedDocument} (hload : L.loadMem data = .ok doc) :
    ((doc.Deep → ∃ reason, disarmInner L data = Exec.fail (malformed reason)) ∧
      ∀ n q, doc.Opens L n q → n < maxDepth) ↔
    (¬ doc.Deep ∨ ((∃ visit ∈ doc.walk L, within visit = false) ∧
      ∀ visit ∈ (doc.walk L).takeWhile within,
        ¬ Overflows (dangerousActions doc.toDocument) visit)) := by
  rw [disarmInner_malformed hL hsaves hload]
  have hopens := Document.exists_opens hL doc.wellFormed
  refine ⟨?_, ?_⟩
  · rintro ⟨hrefused, hbound⟩
    by_cases hdeep : doc.Deep
    · refine .inr ⟨hrefused hdeep, fun visit hvisit hover => ?_⟩
      obtain ⟨n, q, hn, hq⟩ := hopens.mpr ⟨visit, hvisit, hover⟩
      exact absurd (hbound n q hq) (Nat.not_lt_of_le hn)
    · exact .inl hdeep
  · intro hcond
    refine ⟨fun hdeep => ?_, fun n q hq => ?_⟩
    · rcases hcond with hshallow | ⟨hout, -⟩
      · exact absurd hdeep hshallow
      · exact hout
    · by_contra hn
      obtain ⟨visit, hvisit, hover⟩ := hopens.mp ⟨n, q, Nat.le_of_not_lt hn, hq⟩
      rcases hcond with hshallow | ⟨-, hnone⟩
      · exact hshallow (Document.deep_of_walk hL doc.wellFormed
          ((List.takeWhile_prefix _).subset hvisit) (.inr hover))
      · exact hnone visit hvisit hover

/-! ### A value nested too deep under an entry that is removed -/

/-- So many arrays, one in the other. -/
def nest : Nat → Object
  | 0 => .array []
  | n + 1 => .array [nest n]

theorem nest_uniqueKeys (n : Nat) : (nest n).UniqueKeys := by
  induction n with
  | zero => exact Object.uniqueKeys_array.mpr fun _ ho => absurd ho List.not_mem_nil
  | succ n ih =>
    refine Object.uniqueKeys_array.mpr fun o ho => ?_
    obtain rfl := List.mem_singleton.mp ho
    exact ih

theorem nest_below (n : Nat) : Object.Below Object.children n (nest n) (.array []) := by
  induction n with
  | zero => rfl
  | succ n ih => exact ⟨nest n, List.mem_singleton.mpr rfl, ih⟩

/-- A catalog with a value nested 70 levels deep under one key. -/
def nestedDocument (key : Name) (h : key ≠ ascii "Type") : LoadedDocument where
  trailer := [(ascii "Size", .scalar (.integer 2)), (ascii "Root", .reference ⟨1, 0⟩)]
  objects := [(⟨1, 0⟩, .dictionary [(ascii "Type", .name (ascii "Catalog")), (key, nest 70)])]
  rest := version15
  wellFormed := {
    sorted := by simp
    trailer := by simp; decide
    objects := by simp [nest_uniqueKeys, h.symm] }

/-- The innermost array of the nested document lies 71 levels down. -/
theorem nestedDocument_deep (key : Name) (h : key ≠ ascii "Type") : (nestedDocument key h).Deep :=
  ⟨.dictionary [(ascii "Type", .name (ascii "Catalog")), (key, nest 70)],
    List.mem_cons_of_mem _ (List.mem_singleton.mpr rfl), 71, .array [], by decide, nest 70,
    List.mem_cons_of_mem _ (List.mem_singleton.mpr rfl), nest_below 70⟩

/-- The sample library can save every document. -/
theorem Lopdf.ofDocuments_saves (docs : List LoadedDocument) : (Lopdf.ofDocuments docs).Saves :=
  fun doc => ⟨doc.write, rfl⟩

/-- The file with the value under `/OpenAction`. -/
def openActionDocument : LoadedDocument := nestedDocument (ascii "OpenAction") (by decide)

/-- The file with the value under a key that is not removed. -/
def plainDocument : LoadedDocument := nestedDocument (ascii "Deep") (by decide)

/-- Under `/OpenAction` it is not refused: the entry is measured to its end and goes, and the file
is answered with the catalog alone. -/
theorem disarmInner_accepts_deep :
    ¬ ∀ (L : Lopdf), L.Lawful → L.Saves → ∀ (data : List UInt8) (doc : LoadedDocument),
      L.loadMem data = .ok doc →
      (doc.Deep → ∃ reason, disarmInner L data = Exec.fail (malformed reason)) ∧
        ∀ n q, doc.Opens L n q → n < maxDepth := by
  intro hbounded
  have hload := Lopdf.loadMem_head openActionDocument []
  obtain ⟨hrefused, -⟩ := hbounded _ Lopdf.ofDocuments_lawful (Lopdf.ofDocuments_saves _) _ _ hload
  obtain ⟨reason, hfail⟩ := hrefused (nestedDocument_deep _ _)
  have hrun : ∃ item, (sanitizeDocument (.ofDocuments [openActionDocument])
      openActionDocument.toDocument).run [] =
    .ok ({ openActionDocument.toDocument with
      objects := [(⟨1, 0⟩, .dictionary [(ascii "Type", .name (ascii "Catalog"))])] }, [item]) :=
    ⟨_, rfl⟩
  obtain ⟨item, hrun⟩ := hrun
  have haccepted := Lopdf.disarmInner_ofDocuments hload hrun fun entry hentry =>
    ⟨ascii "Root", by
      obtain rfl := List.mem_singleton.mp hentry
      exact List.mem_cons_of_mem _ List.mem_cons_self⟩
  rw [haccepted] at hfail
  cases hfail

/-- Under another key it is refused. -/
theorem disarmInner_depth_sample : ∃ reason,
    disarmInner (.ofDocuments [plainDocument]) plainDocument.toDocument.write =
      Exec.fail (malformed reason) := by
  have hout : (plainDocument.walk (.ofDocuments [plainDocument])).all within = false := rfl
  have hnone : (plainDocument.walk (.ofDocuments [plainDocument])).all (fun visit =>
        (flagged [] visit.2.entries).isEmpty) = true := rfl
  rw [List.all_eq_false] at hout
  rw [List.all_eq_true] at hnone
  refine ((disarmInner_depth Lopdf.ofDocuments_lawful (Lopdf.ofDocuments_saves _)
    (Lopdf.loadMem_head plainDocument [])).mpr (.inr ⟨?_, ?_⟩)).1 (nestedDocument_deep _ _)
  · obtain ⟨visit, hvisit, hwithin⟩ := hout
    exact ⟨visit, hvisit, (Bool.not_eq_true _).mp hwithin⟩
  · rintro visit hvisit ⟨entry, hentry, -⟩
    have hnil := List.isEmpty_iff.mp (hnone visit ((List.takeWhile_prefix _).subset hvisit))
    have hids : dangerousActions plainDocument.toDocument = [] := rfl
    rw [hids, hnil] at hentry
    cases hentry

end Pdf

end Purgo
