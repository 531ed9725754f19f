import Mathlib.Data.List.Basic
import Mathlib.Tactic.SplitIfs
import Purgo.Ooxml

/-!
# What is left of a relationships part

`sanitize_rels` and `skip_to_end` are two loops on one reader. Together they are one pass over the
events with a counter, which is zero outside the flagged relationships and inside one of them the
number of relationships that are open (`outside`, `sanitizeEvents_eq_ok`).

A relationship is flagged by what its *last* attributes with the local names `TargetMode` and `Type`
say (`classifyRelationship_isSome`). Where a prefixed attribute comes after the unprefixed one, that
is not what the relationship means, and a relationship so written is kept.
-/

namespace Purgo

open Rust

namespace Ooxml

/-! ## One pass -/

/-- The relationship is to be removed. -/
def flagged (tag : Tag) : Bool :=
  match classifyRelationship tag with
  | .ok (some _) => true
  | _ => false

/-- The number of open relationships after an event. -/
def depthAfter (depth : Nat) : Event → Nat
  | .start tag => if tag.name.isRelationship then depth + 1 else depth
  | .stop name => if name.isRelationship then depth - 1 else depth
  | _ => depth

/-- The number of open relationships after a relationship tag outside the flagged ones. -/
def depthInto (event : Event) (tag : Tag) : Nat := if flagged tag && event.isStart then 1 else 0

/-- The events outside the flagged relationships, at a number of open relationships. -/
def outside : Nat → List Event → List Event
  | _, [] => []
  | 0, event :: events =>
    match event.relationship? with
    | none => event :: outside 0 events
    | some tag =>
      if flagged tag then outside (depthInto event tag) events else event :: outside 0 events
  | depth + 1, event :: events => outside (depthAfter (depth + 1) event) events

/-- The relationship tags that are looked at: those that are not inside a flagged one. -/
def visited : Nat → List Event → List Tag
  | _, [] => []
  | 0, event :: events =>
    match event.relationship? with
    | none => visited 0 events
    | some tag => tag :: visited (depthInto event tag) events
  | depth + 1, event :: events => visited (depthAfter (depth + 1) event) events

/-- The relationship tags among some events. -/
def relationships (events : List Event) : List Tag := events.filterMap Event.relationship?

/-- The relationships outside the flagged ones are those that are looked at and not flagged. -/
theorem relationships_outside (depth : Nat) (events : List Event) :
    relationships (outside depth events) =
      (visited depth events).filter fun tag => !flagged tag := by
  induction events generalizing depth with
  | nil => cases depth <;> rfl
  | cons event events ih =>
    cases depth with
    | succ depth =>
      rw [outside, visited]
      exact ih _
    | zero =>
      rw [outside, visited]
      cases hrel : event.relationship? with
      | none =>
        rw [← ih 0, relationships, List.filterMap_cons_none hrel]
        rfl
      | some tag =>
        cases hflag : flagged tag with
        | true =>
          rw [List.filter_cons_of_neg (by simp [hflag]), ← ih]
          simp [hflag]
        | false =>
          rw [List.filter_cons_of_pos (by simp [hflag]), depthInto, hflag, ← ih]
          simp [hflag, relationships, hrel]

/-- `skip_to_end` reads up to where one pass is outside again. -/
theorem skipToEnd_eq_ok {part : String} {depth : Nat} {results rest : List (Exec String Event)}
    (h : skipToEnd part (depth + 1) results = .ok rest) :
    ∃ inner : List Event, results = inner.map Except.ok ++ rest ∧ ∀ events,
      outside (depth + 1) (inner ++ events) = outside 0 events ∧
        visited (depth + 1) (inner ++ events) = visited 0 events := by
  induction results generalizing depth with
  | nil => cases h
  | cons result results ih =>
    obtain ⟨event, hevent, hnext⟩ := Exec.bind_eq_ok.mp h
    clear h
    obtain rfl := Exec.mapErr_eq_ok.mp hevent
    -- the event leaves some relationship open, or it closes the last one
    have hopen : ∀ depth', depthAfter (depth + 1) event = depth' + 1 →
        skipToEnd part (depth' + 1) results = .ok rest →
        ∃ inner : List Event, Except.ok event :: results = inner.map Except.ok ++ rest ∧ ∀ events,
          outside (depth + 1) (inner ++ events) = outside 0 events ∧
            visited (depth + 1) (inner ++ events) = visited 0 events := by
      intro depth' hdepth hskip
      obtain ⟨inner, rfl, hinner⟩ := ih hskip
      refine ⟨event :: inner, rfl, fun events => ?_⟩
      rw [List.cons_append, outside, visited, hdepth]
      exact hinner events
    cases event with
    | start tag =>
      cases hrel : tag.name.isRelationship with
      | true => exact hopen (depth + 1) (by simp [depthAfter, hrel]) (by simpa [hrel] using hnext)
      | false => exact hopen depth (by simp [depthAfter, hrel]) (by simpa [hrel] using hnext)
    | stop name =>
      cases hrel : name.isRelationship with
      | false => exact hopen depth (by simp [depthAfter, hrel]) (by simpa [hrel] using hnext)
      | true =>
        cases depth with
        | zero =>
          obtain rfl : results = rest := by simpa [hrel] using hnext
          refine ⟨[.stop name], rfl, fun events => ?_⟩
          rw [List.singleton_append, outside, visited]
          simp [depthAfter, hrel]
        | succ depth => exact hopen depth (by simp [depthAfter, hrel]) (by simpa [hrel] using hnext)
    | empty tag => exact hopen depth rfl hnext
    | other markup text => exact hopen depth rfl hnext

/-! ## The loop -/

/-- What is reported of a relationship tag, if it is flagged. -/
def removedRelationship (part : String) (tag : Tag) : Option RemovedItem :=
  match classifyRelationship tag with
  | .ok (some (threat, detail, size)) =>
    some { location := s!"part {part}", threat := threat, detail := detail, bytesRemoved := size }
  | _ => none

variable {X : QuickXml} {part : String}

/-- An event that is written back changes nothing else. -/
theorem reEmit_eq_ok {rest : List (Exec String Event)} {event : Event} {st : RelsState}
    {flow : LoopFlow RelsState RelsState} (h : reEmit X part rest event st = .ok flow) :
    flow = .next { st with rest := rest, written := st.written ++ [event] } := by
  obtain ⟨-, -, h⟩ := Exec.bind_eq_ok.mp h
  exact (Except.ok.inj h).symm

/-- The ways a round of the loop succeeds. -/
theorem relsRound_cases {st : RelsState} {flow : LoopFlow RelsState RelsState}
    (h : relsRound X part st = .ok flow) :
    (st.rest = [] ∧ flow = .done st) ∨
    ∃ event rest, st.rest = .ok event :: rest ∧
      ((event.relationship? = none ∧
          flow = .next { st with rest := rest, written := st.written ++ [event] }) ∨
        ∃ tag, event.relationship? = some tag ∧
          ((classifyRelationship tag = .ok none ∧
              flow = .next { st with rest := rest, written := st.written ++ [event] }) ∨
            ∃ item rest', flagged tag = true ∧ (∃ r, classifyRelationship tag = .ok r) ∧
              removedRelationship part tag = some item ∧
              (if event.isStart then skipToEnd part 1 rest else .ok rest) = .ok rest' ∧
              flow = .next { st with rest := rest', removed := st.removed ++ [item] })) := by
  rw [relsRound] at h
  cases hrest : st.rest with
  | nil =>
    rw [hrest] at h
    exact .inl ⟨rfl, (Except.ok.inj h).symm⟩
  | cons result rest =>
    rw [hrest] at h
    obtain ⟨event, hevent, hnext⟩ := Exec.bind_eq_ok.mp h
    clear h
    obtain rfl := Exec.mapErr_eq_ok.mp hevent
    refine .inr ⟨event, rest, rfl, ?_⟩
    cases hrel : event.relationship? with
    | none =>
      rw [hrel] at hnext
      exact .inl ⟨rfl, reEmit_eq_ok hnext⟩
    | some tag =>
      rw [hrel] at hnext
      refine .inr ⟨tag, rfl, ?_⟩
      obtain ⟨verdict, hverdict, hnext⟩ := Exec.bind_eq_ok.mp hnext
      have hclassify := Exec.lift_eq_ok.mp hverdict
      rcases verdict with _ | ⟨threat, detail, size⟩
      · exact .inl ⟨hclassify, reEmit_eq_ok hnext⟩
      · obtain ⟨rest', hskip, hnext⟩ := Exec.bind_eq_ok.mp hnext
        refine .inr ⟨_, rest', ?_, ⟨_, hclassify⟩, ?_, hskip, (Except.ok.inj hnext).symm⟩
        · rw [flagged, hclassify]
        · rw [removedRelationship, hclassify]

/-- What the loop has written and removed when it ends, from any state: by induction on the rounds
left. -/
theorem loop_relsRound_eq_ok {fuel : Nat} {st st' : RelsState}
    (h : loop (relsRound X part) fuel st = .ok st') :
    ∃ events : List Event, st.rest = events.map Except.ok ∧
      st'.written = st.written ++ outside 0 events ∧
      st'.removed = st.removed ++ (visited 0 events).filterMap (removedRelationship part) ∧
      ∀ tag ∈ visited 0 events, ∃ r, classifyRelationship tag = .ok r := by
  induction fuel generalizing st with
  | zero => cases h
  | succ fuel ih =>
    rw [loop] at h
    cases hround : relsRound X part st with
    | error e =>
      rw [hround] at h
      cases h
    | ok flow =>
      rw [hround] at h
      rcases relsRound_cases hround with ⟨hrest, rfl⟩ | ⟨event, rest, hrest, hcase⟩
      · obtain rfl := Except.ok.inj h
        exact ⟨[], hrest, by simp [outside], by simp [visited], by simp [visited]⟩
      rcases hcase with ⟨hrel, rfl⟩ | ⟨tag, hrel, ⟨hclassify, rfl⟩ |
        ⟨item, rest', hflag, hclassify, hitem, hskip, rfl⟩⟩
      · -- an event that is no relationship
        obtain ⟨events, rfl, hwritten, hremoved, hall⟩ := ih h
        refine ⟨event :: events, hrest, ?_, ?_, ?_⟩
        · simp [hwritten, outside, hrel]
        · simp [hremoved, visited, hrel]
        · simpa [visited, hrel] using hall
      · -- a relationship that is kept
        obtain ⟨events, rfl, hwritten, hremoved, hall⟩ := ih h
        have hflag : flagged tag = false := by rw [flagged, hclassify]
        have hnone : removedRelationship part tag = none := by rw [removedRelationship, hclassify]
        refine ⟨event :: events, hrest, ?_, ?_, ?_⟩
        · simp [hwritten, outside, hrel, hflag]
        · simp [hremoved, visited, hrel, depthInto, hflag, hnone]
        · simpa [visited, hrel, depthInto, hflag] using ⟨⟨_, hclassify⟩, hall⟩
      · -- a relationship that is removed
        obtain ⟨events, hrest', hwritten, hremoved, hall⟩ := ih h
        change rest' = _ at hrest'
        have hinner : ∃ inner : List Event, rest = inner.map Except.ok ++ rest' ∧
            outside (depthInto event tag) (inner ++ events) = outside 0 events ∧
            visited (depthInto event tag) (inner ++ events) = visited 0 events := by
          cases hstart : event.isStart with
          | true =>
            rw [if_pos hstart] at hskip
            obtain ⟨inner, hinner, hpass⟩ := skipToEnd_eq_ok hskip
            have hdepth : depthInto event tag = 1 := by simp [depthInto, hflag, hstart]
            rw [hdepth]
            exact ⟨inner, hinner, hpass events⟩
          | false =>
            rw [if_neg (by simp [hstart])] at hskip
            have hdepth : depthInto event tag = 0 := by simp [depthInto, hstart]
            rw [hdepth]
            exact ⟨[], Except.ok.inj hskip, rfl, rfl⟩
        obtain ⟨inner, hinner, houtside, hvisited⟩ := hinner
        refine ⟨event :: (inner ++ events), ?_, ?_, ?_, ?_⟩
        · rw [hrest, hinner, hrest', List.map_cons, List.map_append]
        · rw [hwritten, outside, hrel]
          simp only [hflag, if_true, houtside]
        · rw [hremoved, visited, hrel]
          simp only [hvisited, List.filterMap_cons, hitem, List.append_assoc, List.singleton_append]
        · rw [visited, hrel]
          simp only [hvisited]
          intro tag' htag'
          rcases List.mem_cons.mp htag' with rfl | htag'
          · exact hclassify
          · exact hall tag' htag'

/-- What `sanitize_rels` consists of when it succeeds. -/
theorem sanitizeRels_eq_ok {raw out : List UInt8} {removed : List RemovedItem}
    (h : sanitizeRels X raw part = .ok (out, removed)) :
    ∃ (text : String) (events : List Event) (st : RelsState), fromUtf8 raw = some text ∧
      X.readEvents text = events.map Except.ok ∧
      sanitizeEvents X part (events.map Except.ok) = .ok st ∧ out = X.intoInner st.written ∧
      removed = st.removed := by
  rw [sanitizeRels] at h
  cases htext : fromUtf8 raw with
  | none =>
    rw [htext] at h
    cases h
  | some text =>
    rw [htext] at h
    obtain ⟨st, hst, h⟩ := Exec.bind_eq_ok.mp h
    obtain ⟨rfl, rfl⟩ := Prod.mk.inj (Except.ok.inj h)
    obtain ⟨events, hevents, -⟩ := loop_relsRound_eq_ok hst
    change X.readEvents text = _ at hevents
    exact ⟨text, events, st, rfl, hevents, hevents ▸ hst, rfl, rfl⟩

/-- What the loop writes and reports of a sequence of events. -/
theorem sanitizeEvents_eq_ok {events : List Event} {st : RelsState}
    (h : sanitizeEvents X part (events.map Except.ok) = .ok st) :
    st.written = outside 0 events ∧
      st.removed = (visited 0 events).filterMap (removedRelationship part) ∧
      ∀ tag ∈ visited 0 events, ∃ r, classifyRelationship tag = .ok r := by
  obtain ⟨events', hevents, hwritten, hremoved, hall⟩ := loop_relsRound_eq_ok h
  obtain rfl : events = events' :=
    List.map_injective_iff.mpr (fun _ _ => Except.ok.inj) hevents
  exact ⟨hwritten, hremoved, hall⟩

/-! ## What flags a relationship -/

/-- The attributes with their values, where both could be read. -/
def valuesOf (attributes : List (Except String Attribute)) : List (QName × String) :=
  attributes.filterMap fun attr =>
    match attr with
    | .ok { key := key, value := .ok value } => some (key, value)
    | _ => none

/-- The attributes by which a relationship is judged. -/
def Tag.values (tag : Tag) : List (QName × String) := valuesOf tag.attributes

/-- The value of the last attribute with a local name. -/
def lastValue (localName : String) (values : List (QName × String)) : Option String :=
  ((values.filter fun attr => attr.1.localName == localName).getLast?).map Prod.snd

theorem lastValue_cons (localName : String) (attr : QName × String)
    (values : List (QName × String)) : lastValue localName (attr :: values) =
      (lastValue localName values).or
        (if attr.1.localName = localName then some attr.2 else none) := by
  rw [lastValue, lastValue, List.filter_cons]
  by_cases hkey : attr.1.localName = localName
  · rw [if_pos (by simp [hkey]), if_pos hkey, List.getLast?_cons]
    cases (values.filter fun attr => attr.1.localName == localName).getLast? <;> rfl
  · rw [if_neg (by simp [hkey]), if_neg hkey, Option.or_none]

/-- The comparison ignores the case of ASCII letters. -/
def isExternal (value : String) : Bool := eqIgnoreAsciiCase value "external"

/-- What has been seen of some attributes: the last of each kind. -/
theorem seen_eq_ok {attributes : List (Except String Attribute)} {seen seen' : Seen}
    (h : attributes.foldlM seeAttribute seen = .ok seen') :
    seen'.typeValue = (lastValue "Type" (valuesOf attributes)).getD seen.typeValue ∧
      seen'.targetModeExternal =
        ((lastValue "TargetMode" (valuesOf attributes)).map isExternal).getD
          seen.targetModeExternal := by
  induction attributes generalizing seen with
  | nil =>
    obtain rfl := Except.ok.inj h
    exact ⟨rfl, rfl⟩
  | cons attr attributes ih =>
    rw [List.foldlM_cons] at h
    rcases attr with e | ⟨key, e | value⟩
    · cases h
    · cases h
    · have hvalues : valuesOf (.ok ⟨key, .ok value⟩ :: attributes) =
          (key, value) :: valuesOf attributes := rfl
      rw [hvalues, lastValue_cons, lastValue_cons]
      cases hseen : seeAttribute seen (.ok ⟨key, .ok value⟩) with
      | error e =>
        rw [hseen] at h
        cases h
      | ok seen₁ =>
        rw [hseen] at h
        obtain ⟨htype, hmode⟩ := ih h
        rw [htype, hmode]
        rw [seeAttribute] at hseen
        simp only at hseen
        split_ifs at hseen with hm ht hi
        all_goals
          obtain rfl := Except.ok.inj hseen
          cases lastValue "Type" (valuesOf attributes) <;>
            cases lastValue "TargetMode" (valuesOf attributes) <;>
            simp_all [isExternal]

/-- The type is active by the last attribute with the local name `Type`. -/
def Tag.LastActive (tag : Tag) : Prop :=
  ∃ value, lastValue "Type" tag.values = some value ∧ isActiveType value = true

/-- The target is external by the last attribute with the local name `TargetMode`. -/
def Tag.LastExternal (tag : Tag) : Prop :=
  ∃ value, lastValue "TargetMode" tag.values = some value ∧ isExternal value = true

/-- A relationship is flagged by the last attributes. -/
theorem flagged_iff {tag : Tag} {r : Option (ThreatClass × String × Nat)}
    (h : classifyRelationship tag = .ok r) :
    flagged tag = true ↔ tag.LastActive ∨ tag.LastExternal := by
  have hflag : flagged tag = r.isSome := by
    rw [flagged, h]
    cases r <;> rfl
  have hempty : isActiveType "" = false := by decide
  rw [classifyRelationship] at h
  cases hseen : tag.attributes.foldlM seeAttribute ⟨false, "", ""⟩ with
  | error e =>
    rw [hseen] at h
    cases h
  | ok seen =>
    rw [hseen] at h
    obtain ⟨htype, hmode⟩ := seen_eq_ok hseen
    have hactive : isActiveType seen.typeValue = true ↔ tag.LastActive := by
      rw [htype, Tag.LastActive, Tag.values]
      cases lastValue "Type" (valuesOf tag.attributes) <;> simp [hempty]
    have hexternal : seen.targetModeExternal = true ↔ tag.LastExternal := by
      rw [hmode, Tag.LastExternal, Tag.values]
      cases lastValue "TargetMode" (valuesOf tag.attributes) <;> simp
    rw [hflag, ← hactive, ← hexternal]
    simp only [bind, Except.bind] at h
    split_ifs at h with ha he
    all_goals
      obtain rfl := Except.ok.inj h
      simp_all

/-! ## What is carried through -/

/-- An unprefixed attribute makes the target external or the type active. -/
def Tag.Carries (tag : Tag) : Prop :=
  ∃ key value, (key, value) ∈ tag.values ∧ key.space = none ∧
    ((key.localName = "TargetMode" ∧ isExternal value = true) ∨
      (key.localName = "Type" ∧ isActiveType value = true))

/-- An unprefixed attribute makes the target external or the type active, and the last attributes
with these local names say otherwise. -/
def Tag.Overridden (tag : Tag) : Prop := tag.Carries ∧ ¬ tag.LastActive ∧ ¬ tag.LastExternal

/-- **When no external or active relationship survives**: exactly when none of the relationships
that are looked at is overridden by a later attribute with the same local name. -/
theorem carried_iff_overridden {raw out : List UInt8} {removed : List RemovedItem}
    (hrun : sanitizeRels X raw part = .ok (out, removed)) :
    ∃ (text : String) (events : List Event) (st : RelsState), fromUtf8 raw = some text ∧
      X.readEvents text = events.map Except.ok ∧
      sanitizeEvents X part (events.map Except.ok) = .ok st ∧ out = X.intoInner st.written ∧
      ((∀ tag ∈ relationships st.written, ¬ tag.Carries) ↔
        ∀ tag ∈ visited 0 events, ¬ tag.Overridden) := by
  obtain ⟨text, events, st, htext, hevents, hst, hout, -⟩ := sanitizeRels_eq_ok hrun
  refine ⟨text, events, st, htext, hevents, hst, hout, ?_⟩
  obtain ⟨hwritten, -, hall⟩ := sanitizeEvents_eq_ok hst
  rw [hwritten, relationships_outside]
  refine ⟨?_, ?_⟩
  · rintro h tag htag ⟨hcarries, hactive, hexternal⟩
    obtain ⟨r, hr⟩ := hall tag htag
    refine h tag (List.mem_filter.mpr ⟨htag, ?_⟩) hcarries
    rw [Bool.not_eq_true', ← Bool.not_eq_true, flagged_iff hr]
    rintro (hlast | hlast)
    · exact hactive hlast
    · exact hexternal hlast
  · rintro h tag htag hcarries
    obtain ⟨htag, hflag⟩ := List.mem_filter.mp htag
    obtain ⟨r, hr⟩ := hall tag htag
    rw [Bool.not_eq_true', ← Bool.not_eq_true, flagged_iff hr, not_or] at hflag
    exact h tag htag ⟨hcarries, hflag⟩

/-! ## A reader and a writer

The library, for a text that is known to be read as some events. -/

/-- A name with its prefix. -/
def QName.toText (name : QName) : String :=
  match name.space with
  | none => name.localName
  | some space => space ++ ":" ++ name.localName

/-- What `write_event` writes. -/
def Event.toText : Event → String
  | start tag => "<" ++ tag.content ++ ">"
  | empty tag => "<" ++ tag.content ++ "/>"
  | stop name => "</" ++ name.toText ++ ">"
  | other .text content => content
  | other .cData content => "<![CDATA[" ++ content ++ "]]>"
  | other .comment content => "<!--" ++ content ++ "-->"
  | other .decl content => "<?" ++ content ++ "?>"
  | other .pi content => "<?" ++ content ++ "?>"
  | other .docType content => "<!DOCTYPE " ++ content ++ ">"
  | other .generalRef content => "&" ++ content ++ ";"

/-- The events as text, in the simplest way there is. -/
def serialise (events : List Event) : String := String.join (events.map Event.toText)

/-- A library that reads some events from their own text. -/
def QuickXml.ofEvents (events : List Event) : QuickXml where
  readEvents text :=
    if text = serialise events then events.map Except.ok else [Exec.fail "another text"]
  writeEvent _ _ := .ok ()
  intoInner written := asBytes (serialise written)

theorem readEvents_ofEvents (events : List Event) :
    (QuickXml.ofEvents events).readEvents (serialise events) = events.map Except.ok := if_pos rfl

/-- With the sample reader, sanitising a part is sanitising its events. -/
theorem sanitizeRels_ofEvents {events : List Event} {st : RelsState}
    (h : sanitizeEvents (.ofEvents events) part (events.map Except.ok) = .ok st) :
    sanitizeRels (.ofEvents events) (asBytes (serialise events)) part =
      .ok (asBytes (serialise st.written), st.removed) := by
  rw [sanitizeRels, fromUtf8_asBytes]
  change (sanitizeEvents _ part ((QuickXml.ofEvents events).readEvents _) >>= _) = _
  rw [readEvents_ofEvents, h]
  rfl

/-- A relationship with attributes as they are written. -/
def root : Tag where
  content := "Relationships xmlns:x=\"urn:x\""
  name := ⟨none, "Relationships"⟩
  attributes := [.ok ⟨⟨some "xmlns", "x"⟩, .ok "urn:x"⟩]
  distinct := by decide

/-- An external relationship with a prefixed attribute after the one that makes it external. -/
def overridden : Tag where
  content := "Relationship Id=\"rId1\" Target=\"http://evil.example/\" " ++
    "TargetMode=\"External\" x:TargetMode=\"Internal\""
  name := ⟨none, "Relationship"⟩
  attributes := [
    .ok ⟨⟨none, "Id"⟩, .ok "rId1"⟩,
    .ok ⟨⟨none, "Target"⟩, .ok "http://evil.example/"⟩,
    .ok ⟨⟨none, "TargetMode"⟩, .ok "External"⟩,
    .ok ⟨⟨some "x", "TargetMode"⟩, .ok "Internal"⟩]
  distinct := by decide

/-- A part with one relationship, which is said to be external and then, under another prefix, not
to be. -/
def overriddenPart : List Event := [.start root, .empty overridden, .stop ⟨none, "Relationships"⟩]

/-- The part is kept as it is, with its external relationship. -/
theorem overridden_carried : ∃ out removed st,
    sanitizeRels (.ofEvents overriddenPart) (asBytes (serialise overriddenPart)) "_rels/.rels" =
      .ok (out, removed) ∧
    sanitizeEvents (.ofEvents overriddenPart) "_rels/.rels" (overriddenPart.map Except.ok) =
      .ok st ∧
    out = asBytes (serialise st.written) ∧ ∃ tag ∈ relationships st.written, tag.Carries := by
  have hst : sanitizeEvents (.ofEvents overriddenPart) "_rels/.rels"
      (overriddenPart.map Except.ok) =
        .ok { rest := [], written := overriddenPart, removed := [] } :=
    rfl
  refine ⟨_, _, _, sanitizeRels_ofEvents hst, hst, rfl, overridden, List.mem_cons_self, ?_⟩
  exact ⟨⟨none, "TargetMode"⟩, "External", by decide, rfl, .inl ⟨rfl, by decide⟩⟩

/-- The condition, on that part. -/
theorem carried_iff_overridden_sample :
    ∃ (text : String) (events : List Event) (st : RelsState),
      fromUtf8 (asBytes (serialise overriddenPart)) = some text ∧
      (QuickXml.ofEvents overriddenPart).readEvents text = events.map Except.ok ∧
      sanitizeEvents (.ofEvents overriddenPart) "_rels/.rels" (events.map Except.ok) = .ok st ∧
      asBytes (serialise overriddenPart) = asBytes (serialise st.written) ∧
      ((∀ tag ∈ relationships st.written, ¬ tag.Carries) ↔
        ∀ tag ∈ visited 0 events, ¬ tag.Overridden) := by
  have hst : sanitizeEvents (.ofEvents overriddenPart) "_rels/.rels"
      (overriddenPart.map Except.ok) =
        .ok { rest := [], written := overriddenPart, removed := [] } :=
    rfl
  exact carried_iff_overridden (sanitizeRels_ofEvents hst)

end Ooxml

end Purgo
