import Mathlib.Data.List.Forall2
import Mathlib.Logic.Relation
import Mathlib.Tactic.Cases

/-!
# Bisimulation by matching sets

Two predicates *match* along a relation when every element of either one is related to an element
of the other. Matching is kept by unions and by images, and a bisimulation is a relation along which
related points have matching successors. So all that can be reached from matching starts matches
(`Matches.reached`), and a property respected by the relation holds of all of it on one side exactly
when it does on the other (`Matches.forall_iff`).
-/

namespace Simulation

universe u v

variable {α : Type u} {β : Type v}

/-- Every element of either predicate is related to one of the other. -/
structure Matches (R : α → β → Prop) (A : α → Prop) (B : β → Prop) : Prop where
  left : ∀ a, A a → ∃ b, B b ∧ R a b
  right : ∀ b, B b → ∃ a, A a ∧ R a b

/-- What is reached along the steps from the starts. -/
def Reached (step : α → α → Prop) (start : α → Prop) (a : α) : Prop :=
  ∃ a₀, start a₀ ∧ Relation.ReflTransGen step a₀ a

/-- Related points have matching successors. -/
def Bisimulation (R : α → β → Prop) (r : α → α → Prop) (s : β → β → Prop) : Prop :=
  ∀ ⦃a b⦄, R a b → Matches R (r a) (s b)

variable {R : α → β → Prop} {A A' : α → Prop} {B B' : β → Prop}

namespace Matches

/-- A property that the relation respects holds on one side exactly when it holds on the other. -/
theorem forall_iff (h : Matches R A B) {P : α → Prop} {Q : β → Prop}
    (hPQ : ∀ a b, A a → B b → R a b → (P a ↔ Q b)) : (∀ a, A a → P a) ↔ ∀ b, B b → Q b := by
  refine ⟨?_, ?_⟩
  · intro hP b hb
    obtain ⟨a, ha, hR⟩ := h.right b hb
    exact (hPQ a b ha hb hR).mp (hP a ha)
  · intro hQ a ha
    obtain ⟨b, hb, hR⟩ := h.left a ha
    exact (hPQ a b ha hb hR).mpr (hQ b hb)

/-- Related elements match as singletons. -/
theorem singleton {a₀ : α} {b₀ : β} (h : R a₀ b₀) : Matches R (· = a₀) (· = b₀) where
  left := by
    rintro a rfl
    exact ⟨b₀, rfl, h⟩
  right := by
    rintro b rfl
    exact ⟨a₀, rfl, h⟩

/-- Lists related element by element have matching elements. -/
theorem of_forall₂ {as : List α} {bs : List β} (h : List.Forall₂ R as bs) :
    Matches R (· ∈ as) (· ∈ bs) := by
  induction h with
  | nil => exact ⟨fun a ha => absurd ha List.not_mem_nil, fun b hb => absurd hb List.not_mem_nil⟩
  | @cons a b as bs hR _ ih =>
    refine ⟨?_, ?_⟩
    · intro a' ha'
      rcases List.mem_cons.mp ha' with rfl | ha'
      · exact ⟨b, List.mem_cons_self, hR⟩
      · obtain ⟨b', hb', hR'⟩ := ih.left a' ha'
        exact ⟨b', List.mem_cons_of_mem b hb', hR'⟩
    · intro b' hb'
      rcases List.mem_cons.mp hb' with rfl | hb'
      · exact ⟨a, List.mem_cons_self, hR⟩
      · obtain ⟨a', ha', hR'⟩ := ih.right b' hb'
        exact ⟨a', List.mem_cons_of_mem a ha', hR'⟩

theorem or (h : Matches R A B) (h' : Matches R A' B') :
    Matches R (fun a => A a ∨ A' a) (fun b => B b ∨ B' b) where
  left := by
    rintro a (ha | ha)
    · obtain ⟨b, hb, hR⟩ := h.left a ha
      exact ⟨b, .inl hb, hR⟩
    · obtain ⟨b, hb, hR⟩ := h'.left a ha
      exact ⟨b, .inr hb, hR⟩
  right := by
    rintro b (hb | hb)
    · obtain ⟨a, ha, hR⟩ := h.right b hb
      exact ⟨a, .inl ha, hR⟩
    · obtain ⟨a, ha, hR⟩ := h'.right b hb
      exact ⟨a, .inr ha, hR⟩

/-- A family of matching predicates matches as a whole. -/
theorem iUnion {ι : Sort*} {A : ι → α → Prop} {B : ι → β → Prop} (h : ∀ i, Matches R (A i) (B i)) :
    Matches R (fun a => ∃ i, A i a) (fun b => ∃ i, B i b) where
  left := by
    rintro a ⟨i, ha⟩
    obtain ⟨b, hb, hR⟩ := (h i).left a ha
    exact ⟨b, ⟨i, hb⟩, hR⟩
  right := by
    rintro b ⟨i, hb⟩
    obtain ⟨a, ha, hR⟩ := (h i).right b hb
    exact ⟨a, ⟨i, ha⟩, hR⟩

/-- Predicates stay matching when they are restricted to conditions that agree. -/
theorem guard {p q : Prop} (hpq : p ↔ q) (h : p → Matches R A B) :
    Matches R (fun a => p ∧ A a) (fun b => q ∧ B b) where
  left := by
    rintro a ⟨hp, ha⟩
    obtain ⟨b, hb, hR⟩ := (h hp).left a ha
    exact ⟨b, ⟨hpq.mp hp, hb⟩, hR⟩
  right := by
    rintro b ⟨hq, hb⟩
    obtain ⟨a, ha, hR⟩ := (h (hpq.mpr hq)).right b hb
    exact ⟨a, ⟨hpq.mpr hq, ha⟩, hR⟩

/-- The successors of matching predicates match. -/
theorem image (h : Matches R A B) {r : α → α → Prop} {s : β → β → Prop}
    (hstep : Bisimulation R r s) :
    Matches R (fun a' => ∃ a, A a ∧ r a a') (fun b' => ∃ b, B b ∧ s b b') where
  left := by
    rintro a' ⟨a, ha, hr⟩
    obtain ⟨b, hb, hR⟩ := h.left a ha
    obtain ⟨b', hs, hR'⟩ := (hstep hR).left a' hr
    exact ⟨b', ⟨b, hb, hs⟩, hR'⟩
  right := by
    rintro b' ⟨b, hb, hs⟩
    obtain ⟨a, ha, hR⟩ := h.right b hb
    obtain ⟨a', hr, hR'⟩ := (hstep hR).right b' hs
    exact ⟨a', ⟨a, ha, hr⟩, hR'⟩

end Matches

namespace Bisimulation

variable {r r' : α → α → Prop} {s s' : β → β → Prop}

theorem or (h : Bisimulation R r s) (h' : Bisimulation R r' s') :
    Bisimulation R (fun a a' => r a a' ∨ r' a a') (fun b b' => s b b' ∨ s' b b') :=
  fun _ _ hR => (h hR).or (h' hR)

/-- Runs of a bisimulation: by induction on the run, on either side. -/
theorem star (h : Bisimulation R r s) :
    Bisimulation R (Relation.ReflTransGen r) (Relation.ReflTransGen s) := by
  intro a b hR
  refine ⟨?_, ?_⟩
  · intro a' hrun
    induction hrun with
    | refl => exact ⟨b, .refl, hR⟩
    | tail _ hlast ih =>
      obtain ⟨b₁, hrun', hR₁⟩ := ih
      obtain ⟨b₂, hlast', hR₂⟩ := (h hR₁).left _ hlast
      exact ⟨b₂, hrun'.tail hlast', hR₂⟩
  · intro b' hrun
    induction hrun with
    | refl => exact ⟨a, .refl, hR⟩
    | tail _ hlast ih =>
      obtain ⟨a₁, hrun', hR₁⟩ := ih
      obtain ⟨a₂, hlast', hR₂⟩ := (h hR₁).right _ hlast
      exact ⟨a₂, hrun'.tail hlast', hR₂⟩

end Bisimulation

/-- What is reached from matching starts matches. -/
theorem Matches.reached (h : Matches R A B) {r : α → α → Prop} {s : β → β → Prop}
    (hstep : Bisimulation R r s) : Matches R (Reached r A) (Reached s B) :=
  h.image hstep.star

/-- What holds of the starts and is kept by every step holds of all that is reached. -/
theorem Reached.induction {step : α → α → Prop} {start P : α → Prop}
    (hstart : ∀ a, start a → P a) (hstep : ∀ a b, Reached step start a → P a → step a b → P b)
    {a : α} (h : Reached step start a) : P a := by
  obtain ⟨a₀, h₀, hrun⟩ := h
  induction hrun with
  | refl => exact hstart a₀ h₀
  | tail hrun' hlast ih => exact hstep _ _ ⟨a₀, h₀, hrun'⟩ ih hlast

theorem Reached.start {step : α → α → Prop} {start : α → Prop} {a : α} (h : start a) :
    Reached step start a := ⟨a, h, .refl⟩

theorem Reached.step {step : α → α → Prop} {start : α → Prop} {a b : α}
    (h : Reached step start a) (hab : step a b) : Reached step start b := by
  obtain ⟨a₀, h₀, hrun⟩ := h
  exact ⟨a₀, h₀, hrun.tail hab⟩

/-- The last step to what is reached. -/
theorem reached_iff {step : α → α → Prop} {start : α → Prop} {a : α} :
    Reached step start a ↔ start a ∨ ∃ b, Reached step start b ∧ step b a := by
  refine ⟨?_, ?_⟩
  · rintro ⟨a₀, h₀, hrun⟩
    cases hrun with
    | refl => exact .inl h₀
    | tail hrun' hlast => exact .inr ⟨_, ⟨a₀, h₀, hrun'⟩, hlast⟩
  · rintro (h | ⟨b, hb, hba⟩)
    · exact .start h
    · exact hb.step hba

/-! ## Traces

Runs of a system whose steps are labelled with what is done, in the order in which it is done. -/

section Trace

variable {ι : Type*} {step : ι → α → α → Prop} {is : List ι} {a b : α}

/-- The labels lead from one state to another. -/
inductive Trace (step : ι → α → α → Prop) : List ι → α → α → Prop where
  | nil {a : α} : Trace step [] a a
  | cons {i : ι} {is : List ι} {a b c : α} : step i a b → Trace step is b c →
      Trace step (i :: is) a c

/-- What every step of the trace keeps, the trace keeps. -/
theorem Trace.invariant {P : α → Prop} (h : Trace step is a b)
    (hstep : ∀ i ∈ is, ∀ a b, P a → step i a b → P b) (ha : P a) : P b := by
  induction h with
  | nil => exact ha
  | @cons i is a b c hfirst _ ih =>
    have hb := hstep i List.mem_cons_self a b ha hfirst
    exact ih (fun j hj => hstep j (List.mem_cons_of_mem i hj)) hb

/-- What a trace changes some step of it changed last. -/
theorem Trace.last_change {γ : Type*} (f : α → γ) (h : Trace step is a b) :
    f b = f a ∨ ∃ before i after c d, is = before ++ i :: after ∧ Trace step before a c ∧
      step i c d ∧ f d ≠ f c ∧ f b = f d := by
  induction h with
  | nil => exact .inl rfl
  | @cons i is a b c hfirst _ ih =>
    rcases ih with hsame | ⟨before, j, after, d, e, rfl, hbefore, hstep, hne, hlast⟩
    · by_cases hfirst' : f b = f a
      · exact .inl (hsame.trans hfirst')
      · exact .inr ⟨[], i, is, a, b, rfl, .nil, hfirst, hfirst', hsame⟩
    · exact .inr ⟨i :: before, j, after, d, e, rfl, .cons hfirst hbefore, hstep, hne, hlast⟩

/-- Steps that are steps of an abstract system under an invariant make traces that are traces of
it. -/
theorem Trace.refines {P : α → Prop} {abs : α → β} {astep : ι → β → β → Prop}
    (h : Trace step is a b)
    (hstep : ∀ i a b, P a → step i a b → P b ∧ astep i (abs a) (abs b)) (ha : P a) :
    P b ∧ Trace astep is (abs a) (abs b) := by
  induction h with
  | nil => exact ⟨ha, .nil⟩
  | cons hfirst _ ih =>
    obtain ⟨hb, hafirst⟩ := hstep _ _ _ ha hfirst
    obtain ⟨hc, harest⟩ := ih hb
    exact ⟨hc, .cons hafirst harest⟩

end Trace

end Simulation
