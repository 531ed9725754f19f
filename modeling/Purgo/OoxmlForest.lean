import Purgo.OoxmlRels

/-!
# The rewrite is subtree removal

Two loops that share one reader remove the flagged relationships of a part. On the events of a
forest they do what a function on the forest does: leave out every flagged relationship with all
that is in it (`prune`). `skip_to_end` counts the tags of relationships only, and that is enough,
because an element of any other name closes before the relationship it stands in
(`skipToEnd_events`).

A forest is nothing, or a node and the forest that follows it; an element has a forest of its own
in it. So the inductions have one case for each kind of node.
-/

namespace Purgo

open Rust

namespace Ooxml

/-- The tag is that of a relationship to be removed. -/
def Tag.goes (tag : Tag) : Bool := tag.name.isRelationship && flagged tag

/-! ## Forests -/

/-- A sequence of nodes: elements with what is in them, empty tags, and any other markup. -/
inductive Forest where
  | nil : Forest
  /-- an element: its tag, what is in it, and what follows it -/
  | element : Tag → Forest → Forest → Forest
  | empty : Tag → Forest → Forest
  | other : Markup → String → Forest → Forest

namespace Forest

/-- The events a forest is written with. -/
def events : Forest → List Event
  | nil => []
  | element tag children rest =>
    .start tag :: (children.events ++ .stop tag.name :: rest.events)
  | empty tag rest => .empty tag :: rest.events
  | other markup text rest => .other markup text :: rest.events

/-- The forest without the flagged relationships and what is in them. -/
def prune : Forest → Forest
  | nil => nil
  | element tag children rest =>
    if tag.goes then rest.prune else element tag children.prune rest.prune
  | empty tag rest => if tag.goes then rest.prune else empty tag rest.prune
  | other markup text rest => other markup text rest.prune

/-- The flagged relationships that stand in no other one, in the order of the document. -/
def topmost : Forest → List Tag
  | nil => []
  | element tag children rest =>
    (if tag.goes then [tag] else children.topmost) ++ rest.topmost
  | empty tag rest => (if tag.goes then [tag] else []) ++ rest.topmost
  | other _ _ rest => rest.topmost

/-- The relationships that are looked at: those that stand in no flagged one. -/
def lookedAt : Forest → List Tag
  | nil => []
  | element tag children rest =>
    (if tag.name.isRelationship then [tag] else []) ++
      ((if tag.goes then [] else children.lookedAt) ++ rest.lookedAt)
  | empty tag rest => (if tag.name.isRelationship then [tag] else []) ++ rest.lookedAt
  | other _ _ rest => rest.lookedAt

end Forest

/-! ## Balance -/

/-- The events open and close elements in order; those that are open are given. -/
def balanced : List QName → List Event → Bool
  | names, [] => names.isEmpty
  | names, .start tag :: events => balanced (tag.name :: names) events
  | name :: names, .stop closed :: events => closed == name && balanced names events
  | [], .stop _ :: _ => false
  | names, _ :: events => balanced names events

/-- The tags of a forest close each other, whatever is still open around it. -/
theorem balanced_events (f : Forest) (names : List QName) (events : List Event) :
    balanced names (f.events ++ events) = balanced names events := by
  induction f generalizing names events with
  | nil => rfl
  | element tag children rest ihchildren ihrest =>
    rw [Forest.events, List.cons_append, List.append_assoc, List.cons_append, balanced, ihchildren,
      balanced, ihrest, beq_self_eq_true, Bool.true_and]
  | empty tag rest ihrest =>
    rw [Forest.events, List.cons_append, balanced, ihrest] <;> simp
  | other markup text rest ihrest =>
    rw [Forest.events, List.cons_append, balanced, ihrest] <;> simp

/-! ## Skipping -/

variable {X : QuickXml} {part : String}

theorem skipToEnd_start (depth : Nat) (tag : Tag) (rest : List (Exec String Event)) :
    skipToEnd part depth (.ok (.start tag) :: rest) =
      skipToEnd part (if tag.name.isRelationship then depth + 1 else depth) rest := rfl

theorem skipToEnd_stop (depth : Nat) (name : QName) (rest : List (Exec String Event)) :
    skipToEnd part depth (.ok (.stop name) :: rest) =
      if name.isRelationship then
        if depth - 1 = 0 then .ok rest else skipToEnd part (depth - 1) rest
      else skipToEnd part depth rest := rfl

/-- `skip_to_end` passes over a forest inside a relationship. -/
theorem skipToEnd_events (f : Forest) (depth : Nat) (rest : List (Exec String Event)) :
    skipToEnd part (depth + 1) (f.events.map Except.ok ++ rest) =
      skipToEnd part (depth + 1) rest := by
  induction f generalizing depth rest with
  | nil => rfl
  | element tag children others ihchildren ihothers =>
    rw [Forest.events, List.map_cons, List.map_append, List.map_cons, List.cons_append,
      List.append_assoc, List.cons_append, skipToEnd_start]
    cases hrel : tag.name.isRelationship with
    | true =>
      -- one more is open while its children are passed over
      rw [if_pos rfl, ihchildren, skipToEnd_stop, hrel, if_pos rfl, if_neg (by omega),
        Nat.add_sub_cancel, ihothers]
    | false =>
      rw [if_neg (by simp), ihchildren, skipToEnd_stop, hrel, if_neg (by simp), ihothers]
  | empty tag others ihothers => exact ihothers depth rest
  | other markup text others ihothers => exact ihothers depth rest

/-- From a flagged relationship it reads up to the end of that one. -/
theorem skipToEnd_element {tag : Tag} (hrel : tag.name.isRelationship = true)
    (children : Forest) (rest : List (Exec String Event)) :
    skipToEnd part 1 (children.events.map Except.ok ++ .ok (.stop tag.name) :: rest) =
      .ok rest := by
  rw [skipToEnd_events, skipToEnd_stop, hrel]
  rfl

/-! ## The loop -/

/-- Writing an event to the vector does not fail. -/
def QuickXml.Writes (X : QuickXml) : Prop := ∀ written event, X.writeEvent written event = .ok ()

/-- The events lead the loop from the front of some results to what follows. -/
def Leads (X : QuickXml) (part : String) (events written : List Event)
    (removed : List RemovedItem) : Prop :=
  ∀ st rest, st.rest = events.map Except.ok ++ rest → ∃ n ≤ events.length,
    Rounds (relsRound X part) n st
      { rest := rest, written := st.written ++ written, removed := st.removed ++ removed }

/-- Nothing is written for nothing. -/
theorem Leads.nil : Leads X part [] [] [] := by
  intro st rest hrest
  refine ⟨0, Nat.le_refl 0, ?_⟩
  obtain ⟨_, written, removed⟩ := st
  obtain rfl := hrest
  rw [List.append_nil, List.append_nil]
  exact .refl

/-- What is done for one part of the events is done whatever was done before. -/
theorem Leads.append {events events' written written' : List Event}
    {removed removed' : List RemovedItem} (h : Leads X part events written removed)
    (h' : Leads X part events' written' removed') :
    Leads X part (events ++ events') (written ++ written') (removed ++ removed') := by
  intro st rest hrest
  rw [List.map_append, List.append_assoc] at hrest
  obtain ⟨m, hm, hfirst⟩ := h st _ hrest
  obtain ⟨n, hn, hsecond⟩ := h' ⟨_, st.written ++ written, st.removed ++ removed⟩ rest rfl
  rw [List.append_assoc, List.append_assoc] at hsecond
  exact ⟨m + n, by rw [List.length_append]; omega, hfirst.trans hsecond⟩

/-- An event that is kept is written again. -/
theorem Leads.kept (hX : X.Writes) {event : Event}
    (h : ∀ tag, event.relationship? = some tag → classifyRelationship tag = .ok none) :
    Leads X part [event] [event] [] := by
  intro st rest hrest
  refine ⟨1, Nat.le_refl 1, .single ?_⟩
  have hemit : reEmit X part rest event st =
      .ok (.next { rest := rest, written := st.written ++ [event], removed := st.removed }) := by
    rw [reEmit, hX st.written event]
    rfl
  rw [relsRound, hrest, List.append_nil]
  refine Exec.bind_eq_ok.mpr ⟨event, rfl, ?_⟩
  cases hrel : event.relationship? with
  | none => exact hemit
  | some tag => exact Exec.bind_eq_ok.mpr ⟨none, Exec.lift_eq_ok.mpr (h tag hrel), hemit⟩

/-- A flagged relationship is reported, and the loop goes on after all that is in it. -/
theorem Leads.flagged {event : Event} {tag : Tag} (hrel : event.relationship? = some tag)
    (hflag : flagged tag = true) {inner : List Event}
    (hskip : ∀ rest, (if event.isStart then
      skipToEnd part 1 (inner.map Except.ok ++ rest) else .ok (inner.map Except.ok ++ rest)) =
        .ok rest) :
    Leads X part (event :: inner) [] (removedRelationship part tag).toList := by
  intro st rest hrest
  refine ⟨1, by simp, .single ?_⟩
  obtain ⟨⟨threat, detail, size⟩, hclass⟩ : ∃ r, classifyRelationship tag = .ok (some r) := by
    rw [Ooxml.flagged] at hflag
    split at hflag
    · rename_i r hr
      exact ⟨r, hr⟩
    · cases hflag
  rw [relsRound, hrest, removedRelationship, hclass, List.append_nil]
  refine Exec.bind_eq_ok.mpr ⟨event, rfl, ?_⟩
  rw [hrel]
  refine Exec.bind_eq_ok.mpr ⟨_, Exec.lift_eq_ok.mpr hclass, ?_⟩
  exact Exec.bind_eq_ok.mpr ⟨rest, hskip rest, rfl⟩

/-- A tag that does not go and can be classified is no relationship, or it is kept. -/
theorem classifyRelationship_of_not_goes {tag : Tag} (hgoes : tag.goes = false)
    (h : ∀ t ∈ (if tag.name.isRelationship then [tag] else []),
      ∃ r, classifyRelationship t = .ok r) (hrel : tag.name.isRelationship = true) :
    classifyRelationship tag = .ok none := by
  rw [if_pos hrel] at h
  obtain ⟨_ | r, hr⟩ := h tag List.mem_cons_self
  · exact hr
  · rw [Tag.goes, hrel, flagged, hr] at hgoes
    cases hgoes

theorem filterMap_singleton {α β : Type} (f : α → Option β) (a : α) :
    [a].filterMap f = (f a).toList := by
  cases h : f a with
  | none => simp [h]
  | some b => simp [h]

/-- **The loop prunes**: by induction on the forest, an element's children before what follows
it. -/
theorem leads_forest (part : String) (hX : X.Writes) (f : Forest)
    (h : ∀ tag ∈ f.lookedAt, ∃ r, classifyRelationship tag = .ok r) :
    Leads X part f.events f.prune.events (f.topmost.filterMap (removedRelationship part)) := by
  induction f with
  | nil => exact .nil
  | element tag children rest ihchildren ihrest =>
    rw [Forest.lookedAt] at h
    simp only [List.mem_append] at h
    have hrest := ihrest fun t ht => h t (.inr (.inr ht))
    cases hgoes : tag.goes with
    | true =>
      -- the subtree is skipped in one round
      obtain ⟨hrel, hflag⟩ := Bool.and_eq_true_iff.mp hgoes
      have hevent : (Event.start tag).relationship? = some tag := if_pos hrel
      have hhead : Leads X part (.start tag :: (children.events ++ [.stop tag.name])) []
          (removedRelationship part tag).toList := by
        refine .flagged hevent hflag fun rest => ?_
        rw [Event.isStart, if_pos rfl, List.map_append, List.append_assoc]
        exact skipToEnd_element hrel children rest
      have hall := hhead.append hrest
      rw [Forest.events, Forest.prune, Forest.topmost, if_pos hgoes, if_pos hgoes,
        List.filterMap_append]
      simpa [filterMap_singleton] using hall
    | false =>
      have hclass := classifyRelationship_of_not_goes hgoes fun t ht => h t (.inl ht)
      have hchildren := ihchildren fun t ht => h t (.inr (.inl (by rwa [if_neg (by simp [hgoes])])))
      have hstart : Leads X part [.start tag] [.start tag] [] := by
        refine .kept hX fun t ht => ?_
        obtain ⟨hrel, hsome⟩ := Option.ite_none_right_eq_some.mp ht
        obtain rfl := Option.some.inj hsome
        exact hclass hrel
      have hstop : Leads X part [.stop tag.name] [.stop tag.name] [] :=
        .kept hX fun t ht => by cases ht
      have hall := hstart.append (hchildren.append (hstop.append hrest))
      rw [Forest.events, Forest.prune, Forest.topmost, if_neg (by simp [hgoes]),
        if_neg (by simp [hgoes]), Forest.events, List.filterMap_append]
      simpa using hall
  | empty tag rest ihrest =>
    rw [Forest.lookedAt] at h
    simp only [List.mem_append] at h
    have hrest := ihrest fun t ht => h t (.inr ht)
    cases hgoes : tag.goes with
    | true =>
      obtain ⟨hrel, hflag⟩ := Bool.and_eq_true_iff.mp hgoes
      have hevent : (Event.empty tag).relationship? = some tag := if_pos hrel
      have hhead : Leads X part [.empty tag] [] (removedRelationship part tag).toList :=
        .flagged hevent hflag fun _ => rfl
      have hall := hhead.append hrest
      rw [Forest.events, Forest.prune, Forest.topmost, if_pos hgoes, if_pos hgoes,
        List.filterMap_append]
      simpa [filterMap_singleton] using hall
    | false =>
      have hclass := classifyRelationship_of_not_goes hgoes fun t ht => h t (.inl ht)
      have hhead : Leads X part [.empty tag] [.empty tag] [] := by
        refine .kept hX fun t ht => ?_
        obtain ⟨hrel, hsome⟩ := Option.ite_none_right_eq_some.mp ht
        obtain rfl := Option.some.inj hsome
        exact hclass hrel
      have hall := hhead.append hrest
      rw [Forest.events, Forest.prune, Forest.topmost, if_neg (by simp [hgoes]),
        if_neg (by simp [hgoes]), Forest.events]
      simpa using hall
  | other markup text rest ihrest =>
    have hhead : Leads X part [.other markup text] [.other markup text] [] :=
      .kept hX fun t ht => by cases ht
    exact hhead.append (ihrest h)

/-! ## The part -/

/-- The topmost flagged elements are flagged. -/
theorem Forest.goes_of_mem_topmost {f : Forest} {tag : Tag} (h : tag ∈ f.topmost) :
    tag.goes = true := by
  induction f with
  | nil => cases h
  | element t children rest ihchildren ihrest =>
    rw [topmost, List.mem_append] at h
    rcases h with h | h
    · split at h
      · rename_i hgoes
        rwa [List.mem_singleton.mp h]
      · exact ihchildren h
    · exact ihrest h
  | empty t rest ihrest =>
    rw [topmost, List.mem_append] at h
    rcases h with h | h
    · split at h
      · rename_i hgoes
        rwa [List.mem_singleton.mp h]
      · cases h
    · exact ihrest h
  | other markup text rest ihrest => exact ihrest h

/-- A relationship that goes is reported. -/
theorem isSome_removedRelationship {tag : Tag} (h : tag.goes = true) :
    (removedRelationship part tag).isSome = true := by
  have hflag := (Bool.and_eq_true_iff.mp h).2
  rw [flagged] at hflag
  rw [removedRelationship]
  split at hflag
  · rename_i r hr
    rw [hr]
    rfl
  · cases hflag

/-- **The rewrite is subtree removal**: a part that is read as the events of a forest, and whose
relationships can be classified as far as they are looked at, is rewritten to the events of the
pruned forest, which are balanced. There is one item for each topmost flagged relationship, in the
order of the document. -/
theorem sanitizeRels_prunes (hX : X.Writes) (raw : List UInt8) (part text : String)
    (forest : Forest) (htext : fromUtf8 raw = some text)
    (hread : X.readEvents text = forest.events.map Except.ok)
    (hclass : ∀ tag ∈ forest.lookedAt, ∃ r, classifyRelationship tag = .ok r) :
    ∃ removed,
      sanitizeEvents X part (forest.events.map Except.ok) =
        .ok { rest := [], written := forest.prune.events, removed := removed } ∧
      sanitizeRels X raw part = .ok (X.intoInner forest.prune.events, removed) ∧
      removed.map some = forest.topmost.map (removedRelationship part) ∧
      balanced [] forest.prune.events = true := by
  obtain ⟨n, hn, hrounds⟩ := leads_forest part hX forest hclass
    ⟨forest.events.map Except.ok, [], []⟩ [] (by rw [List.append_nil])
  have hrun : sanitizeEvents X part (forest.events.map Except.ok) =
      .ok { rest := [], written := forest.prune.events,
            removed := forest.topmost.filterMap (removedRelationship part) } := by
    have hfuel : (forest.events.map Except.ok : List (Exec String Event)).length + 1 =
        n + (forest.events.length - n + 1) := by
      rw [List.length_map]
      omega
    rw [sanitizeEvents, hfuel, loop_of_rounds hrounds]
    rfl
  refine ⟨_, hrun, ?_, ?_, ?_⟩
  · rw [sanitizeRels, htext]
    dsimp only
    rw [hread, hrun]
    rfl
  · rw [List.map_filterMap_some_eq_filter_map_isSome]
    refine List.filter_eq_self.mpr fun item hitem => ?_
    obtain ⟨tag, htag, rfl⟩ := List.mem_map.mp hitem
    exact isSome_removedRelationship (Forest.goes_of_mem_topmost htag)
  · have hbalanced := balanced_events forest.prune [] []
    rwa [List.append_nil] at hbalanced

/-- An external relationship. -/
def external : Tag where
  content := "x:Relationship TargetMode=\"External\""
  name := ⟨some "x", "Relationship"⟩
  attributes := [.ok ⟨⟨none, "TargetMode"⟩, .ok "External"⟩]
  distinct := by decide

/-- An external relationship with another one in it, which closes first. -/
def nested : Forest :=
  .element root (.element external (.element root (.element external .nil .nil) (.empty external
    .nil)) (.other .text "left" .nil)) .nil

/-- Only what stands beside it is left of the part, and the outer one is reported. -/
theorem sanitizeRels_prunes_sample : ∃ removed,
    sanitizeEvents (.ofEvents nested.events) "_rels/.rels" (nested.events.map Except.ok) =
      .ok { rest := [], written := nested.prune.events, removed := removed } ∧
    sanitizeRels (.ofEvents nested.events) (asBytes (serialise nested.events)) "_rels/.rels" =
      .ok (asBytes (serialise nested.prune.events), removed) ∧
    removed.map some = nested.topmost.map (removedRelationship "_rels/.rels") ∧
    balanced [] nested.prune.events = true :=
  sanitizeRels_prunes (fun _ _ => rfl) _ _ _ _ (fromUtf8_asBytes _) (readEvents_ofEvents _)
    fun tag htag => by
      have hlooked : nested.lookedAt = [external] := rfl
      rw [hlooked] at htag
      rw [List.mem_singleton.mp htag]
      exact ⟨_, rfl⟩

end Ooxml

end Purgo
