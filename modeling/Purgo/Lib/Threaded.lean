import Mathlib.Data.List.Forall2
import Mathlib.Data.List.TakeWhile
import Mathlib.Tactic.Cases

/-!
# Runs that thread a state

A function that writes to a `&mut` argument and returns a `Result` is a run in
`StateT σ (Except ε)`. Here a run is opened from its success, backwards: `bind_eq_ok` and
`map_eq_ok` give the values and states in between, `mapM_eq_ok` the run at each element.

Where the state does not decide whether a run fails, `FailsWhen` says when it does, and `reached`
lists the elements a run over a list gets to before it fails. Two runs from one state are compared
by `Coupled`.
-/

namespace Threaded

universe u

variable {σ ε α β : Type u}

/-- A run that threads a `σ` and may fail. -/
abbrev Run (σ ε α : Type u) : Type u := StateT σ (Except ε) α

theorem pure_run (a : α) (s : σ) : (pure a : Run σ ε α).run s = .ok (a, s) := rfl

@[simp] theorem pure_eq_ok {a b : α} {s t : σ} :
    (pure a : Run σ ε α).run s = .ok (b, t) ↔ b = a ∧ t = s := by
  rw [pure_run, Except.ok.injEq, Prod.mk.injEq, eq_comm, @eq_comm _ s]

@[simp] theorem throw_ne_ok {e : ε} {b : α} {s t : σ} :
    (throw e : Run σ ε α).run s ≠ .ok (b, t) := by
  intro h
  cases h

/-- Reading the state changes nothing. -/
@[simp] theorem get_bind_run (f : σ → Run σ ε α) (s : σ) :
    (get >>= f : Run σ ε α).run s = (f s).run s := rfl

@[simp] theorem set_eq_ok {a s t : σ} {u : PUnit} :
    (set a : Run σ ε PUnit).run s = .ok (u, t) ↔ t = a := by
  refine Iff.trans (b := (pure u : Run σ ε PUnit).run a = .ok (u, t)) Iff.rfl ?_
  rw [pure_eq_ok]
  exact and_iff_right rfl

@[simp] theorem modify_eq_ok {f : σ → σ} {s t : σ} {u : PUnit} :
    (modify f : Run σ ε PUnit).run s = .ok (u, t) ↔ t = f s := set_eq_ok (s := s)

theorem bind_eq_ok {x : Run σ ε α} {f : α → Run σ ε β} {b : β} {s u : σ} :
    (x >>= f).run s = .ok (b, u) ↔ ∃ a t, x.run s = .ok (a, t) ∧ (f a).run t = .ok (b, u) := by
  change (x.run s >>= fun p => (f p.1).run p.2) = _ ↔ _
  cases hx : x.run s with
  | error e =>
    refine ⟨?_, ?_⟩
    · intro h
      cases h
    · rintro ⟨a, t, h, -⟩
      cases h
  | ok p =>
    obtain ⟨a, t⟩ := p
    refine ⟨?_, ?_⟩
    · intro h
      exact ⟨a, t, rfl, h⟩
    · rintro ⟨a', t', h, h'⟩
      cases h
      exact h'

/-- A run goes on from where its first part got to. -/
theorem bind_run_of_ok {x : Run σ ε α} {a : α} {s t : σ} (h : x.run s = .ok (a, t))
    (f : α → Run σ ε β) : (x >>= f).run s = (f a).run t := by
  change (x.run s >>= fun p => (f p.1).run p.2) = _
  rw [h]
  rfl

/-- A run ends where its first part fails. -/
theorem bind_run_of_error {x : Run σ ε α} {e : ε} {s : σ} (h : x.run s = .error e)
    (f : α → Run σ ε β) : (x >>= f).run s = .error e := by
  change (x.run s >>= fun p => (f p.1).run p.2) = _
  rw [h]
  rfl

theorem map_eq_ok {x : Run σ ε α} {f : α → β} {b : β} {s t : σ} :
    (f <$> x).run s = .ok (b, t) ↔ ∃ a, x.run s = .ok (a, t) ∧ b = f a := by
  rw [map_eq_pure_bind, bind_eq_ok]
  refine ⟨?_, ?_⟩
  · rintro ⟨a, u, hx, hf⟩
    obtain ⟨rfl, rfl⟩ := pure_eq_ok.mp hf
    exact ⟨a, hx, rfl⟩
  · rintro ⟨a, hx, rfl⟩
    exact ⟨a, t, hx, rfl⟩

/-- A run over a list runs at each of its elements, in some states. -/
theorem mapM_eq_ok {f : α → Run σ ε β} {xs : List α} {ys : List β} {s t : σ}
    (h : (xs.mapM f).run s = .ok (ys, t)) :
    List.Forall₂ (fun x y => ∃ s' t', (f x).run s' = .ok (y, t')) xs ys := by
  induction xs generalizing ys s with
  | nil =>
    obtain ⟨rfl, -⟩ := pure_eq_ok.mp h
    exact .nil
  | cons x xs ih =>
    rw [List.mapM_cons] at h
    obtain ⟨y, s', hy, h⟩ := bind_eq_ok.mp h
    obtain ⟨zs, t', hzs, h⟩ := bind_eq_ok.mp h
    obtain ⟨rfl, rfl⟩ := pure_eq_ok.mp h
    exact .cons ⟨s, s', hy⟩ (ih hzs)

/-- A run that leaves every element and the state as they are leaves the list as it is. -/
theorem mapM_unchanged {f : α → Run σ ε α} {xs : List α}
    (h : ∀ x ∈ xs, ∀ s, (f x).run s = .ok (x, s)) (s : σ) : (xs.mapM f).run s = .ok (xs, s) := by
  induction xs with
  | nil => rfl
  | cons x xs ih =>
    rw [List.mapM_cons, bind_eq_ok]
    refine ⟨x, s, h x List.mem_cons_self s, ?_⟩
    rw [bind_eq_ok]
    exact ⟨xs, s, ih fun y hy => h y (List.mem_cons_of_mem x hy), rfl⟩

/-- A run over a list that writes to a log writes, but for the order, what the runs at its elements
write. -/
theorem mapM_log {γ : Type u} {f : α → Run (List γ) ε β} {P : α → β → Prop} {g : α → List γ}
    {xs : List α}
    (h : ∀ x ∈ xs, ∀ y s t, (f x).run s = .ok (y, t) → P x y ∧ t.Perm (s ++ g x))
    {ys : List β} {s t : List γ} (hrun : (xs.mapM f).run s = .ok (ys, t)) :
    List.Forall₂ P xs ys ∧ t.Perm (s ++ xs.flatMap g) := by
  induction xs generalizing ys s with
  | nil =>
    obtain ⟨rfl, rfl⟩ := pure_eq_ok.mp hrun
    exact ⟨.nil, .of_eq (List.append_nil _).symm⟩
  | cons x xs ih =>
    rw [List.mapM_cons] at hrun
    obtain ⟨y, s', hy, hrun⟩ := bind_eq_ok.mp hrun
    obtain ⟨zs, t', hzs, hrun⟩ := bind_eq_ok.mp hrun
    obtain ⟨rfl, rfl⟩ := pure_eq_ok.mp hrun
    obtain ⟨hx, hlog⟩ := h x List.mem_cons_self y s s' hy
    obtain ⟨hxs, hlogs⟩ := ih (fun z hz => h z (List.mem_cons_of_mem x hz)) hzs
    refine ⟨.cons hx hxs, hlogs.trans ?_⟩
    rw [List.flatMap_cons, ← List.append_assoc]
    exact hlog.append_right _

/-! ## Failure -/

/-- From every state the run fails with the error when the condition holds, and succeeds when it
does not. -/
def FailsWhen (x : Run σ ε α) (e : ε) (P : Prop) : Prop :=
  (P → ∀ s, x.run s = .error e) ∧ (¬ P → ∀ s, ∃ a t, x.run s = .ok (a, t))

theorem FailsWhen.not_of_ok {x : Run σ ε α} {e : ε} {P : Prop} (h : FailsWhen x e P) {a : α}
    {s t : σ} (hrun : x.run s = .ok (a, t)) : ¬ P := by
  intro hP
  rw [h.1 hP s] at hrun
  cases hrun

theorem FailsWhen.pure (a : α) (e : ε) : FailsWhen (pure a : Run σ ε α) e False :=
  ⟨False.elim, fun _ s => ⟨a, s, rfl⟩⟩

theorem FailsWhen.throw (e : ε) : FailsWhen (throw e : Run σ ε α) e True :=
  ⟨fun _ _ => rfl, fun h => absurd trivial h⟩

/-- A run that goes on from another state as a second one fails when that one does. -/
theorem FailsWhen.of_run_eq {x y : Run σ ε α} {e : ε} {P : Prop} (h : FailsWhen y e P)
    (heq : ∀ s, ∃ s', x.run s = y.run s') : FailsWhen x e P := by
  refine ⟨fun hP s => ?_, fun hP s => ?_⟩
  · obtain ⟨s', hs⟩ := heq s
    rw [hs, h.1 hP]
  · obtain ⟨s', hs⟩ := heq s
    rw [hs]
    exact h.2 hP s'

theorem FailsWhen.bind {x : Run σ ε α} {f : α → Run σ ε β} {e : ε} {P Q : Prop}
    (h : FailsWhen x e P)
    (hf : ∀ a s t, x.run s = .ok (a, t) → FailsWhen (f a) e Q) :
    FailsWhen (x >>= f) e (P ∨ Q) := by
  refine ⟨fun hPQ s => ?_, fun hPQ s => ?_⟩
  · by_cases hP : P
    · exact bind_run_of_error (h.1 hP s) f
    · obtain ⟨a, t, hrun⟩ := h.2 hP s
      rw [bind_run_of_ok hrun, (hf a s t hrun).1 (hPQ.resolve_left hP)]
  · rw [not_or] at hPQ
    obtain ⟨a, t, hrun⟩ := h.2 hPQ.1 s
    rw [bind_run_of_ok hrun]
    exact (hf a s t hrun).2 hPQ.2 t

theorem FailsWhen.congr {x : Run σ ε α} {e : ε} {P Q : Prop} (h : FailsWhen x e P)
    (hPQ : P ↔ Q) : FailsWhen x e Q := ⟨fun hQ => h.1 (hPQ.mpr hQ), fun hQ => h.2 (mt hPQ.mp hQ)⟩

theorem FailsWhen.bind_pure {x : Run σ ε α} {e : ε} {P : Prop} (h : FailsWhen x e P)
    (f : α → β) : FailsWhen (x >>= fun a => Pure.pure (f a)) e P :=
  (h.bind fun a _ _ _ => FailsWhen.pure (f a) e).congr (or_iff_left id)

theorem FailsWhen.map {x : Run σ ε α} {e : ε} {P : Prop} (h : FailsWhen x e P) (f : α → β) :
    FailsWhen (f <$> x) e P := by
  rw [map_eq_pure_bind]
  exact h.bind_pure f

theorem FailsWhen.of_map {x : Run σ ε α} {f : α → β} {e : ε} {P : Prop}
    (h : FailsWhen (f <$> x) e P) : FailsWhen x e P := by
  refine ⟨fun hP s => ?_, fun hP s => ?_⟩
  · have hfails := h.1 hP s
    rw [map_eq_pure_bind] at hfails
    cases hx : x.run s with
    | error e' =>
      rw [bind_run_of_error hx] at hfails
      exact congrArg Except.error (Except.error.inj hfails)
    | ok p =>
      obtain ⟨a, t⟩ := p
      rw [bind_run_of_ok hx] at hfails
      cases hfails
  · obtain ⟨b, t, hrun⟩ := h.2 hP s
    obtain ⟨a, ha, -⟩ := map_eq_ok.mp hrun
    exact ⟨a, t, ha⟩

/-- A run over a list fails when the run at one of its elements does. -/
theorem FailsWhen.mapM {f : α → Run σ ε β} {e : ε} {P : α → Prop} {xs : List α}
    (h : ∀ x ∈ xs, FailsWhen (f x) e (P x)) : FailsWhen (xs.mapM f) e (∃ x ∈ xs, P x) := by
  induction xs with
  | nil =>
    rw [List.mapM_nil]
    exact (FailsWhen.pure [] e).congr (by simp)
  | cons x xs ih =>
    rw [List.mapM_cons]
    refine ((h x List.mem_cons_self).bind fun y _ _ _ =>
      (ih fun z hz => h z (List.mem_cons_of_mem x hz)).bind_pure (y :: ·)).congr ?_
    exact (List.exists_mem_cons_iff P x xs).symm

/-- The elements a run over a list gets to, each with the state it is run from. -/
def reached (f : α → Run σ ε β) : List α → σ → List (α × σ)
  | [], _ => []
  | x :: xs, s => (x, s) :: match (f x).run s with
    | .ok (_, t) => reached f xs t
    | .error _ => []

/-- What comes before the first bad member of two segments. -/
theorem exists_takeWhile_append {γ : Type u} {good : γ → Bool} {Q : γ → Prop} {xs ys : List γ} :
    (∃ y ∈ (xs ++ ys).takeWhile good, Q y) ↔
      (∃ y ∈ xs.takeWhile good, Q y) ∨
        (¬ (∃ y ∈ xs, good y = false) ∧ ∃ y ∈ ys.takeWhile good, Q y) := by
  by_cases hbad : ∃ y ∈ xs, good y = false
  · rw [List.takeWhile_append, if_neg]
    · simp [hbad]
    · intro hlength
      obtain ⟨y, hy, hyf⟩ := hbad
      have hall := List.takeWhile_eq_self_iff.mp
        ((List.takeWhile_prefix good).eq_of_length hlength) y hy
      rw [hyf] at hall
      cases hall
  · have hgood : ∀ y ∈ xs, good y = true := by
      intro y hy
      by_contra hne
      exact hbad ⟨y, hy, (Bool.not_eq_true _).mp hne⟩
    rw [List.takeWhile_append_of_pos hgood, List.takeWhile_eq_self_iff.mpr hgood,
      and_iff_right hbad]
    simp only [List.mem_append, or_and_right, exists_or]

/-- When each element stands for a segment and fails on a bad member of it, a run over a list goes
through the members of the segments up to the first bad one. -/
theorem exists_reached {γ : Type u} (good : γ → Bool) {f : α → Run σ ε β} {e : ε} {V : α → List γ}
    {T : α → σ → Prop} {Q : γ → Prop} {xs : List α}
    (hfails : ∀ x ∈ xs, FailsWhen (f x) e (∃ y ∈ V x, good y = false))
    (hT : ∀ x ∈ xs, ∀ s, T x s ↔ ∃ y ∈ (V x).takeWhile good, Q y) (s : σ) :
    (∃ c ∈ reached f xs s, T c.1 c.2) ↔ ∃ y ∈ (xs.flatMap V).takeWhile good, Q y := by
  induction xs generalizing s with
  | nil => simp [reached]
  | cons x xs ih =>
    have hx := hfails x List.mem_cons_self
    have hrest := ih (fun z hz => hfails z (List.mem_cons_of_mem x hz))
      fun z hz => hT z (List.mem_cons_of_mem x hz)
    rw [reached, List.exists_mem_cons_iff, hT x List.mem_cons_self, List.flatMap_cons]
    rw [exists_takeWhile_append]
    refine or_congr_right ?_
    by_cases hbad : ∃ y ∈ V x, good y = false
    · -- the run ends in the segment of this element
      rw [hx.1 hbad s]
      exact iff_of_false (fun ⟨_, hc, _⟩ => List.not_mem_nil hc) fun h => h.1 hbad
    · obtain ⟨a, t, hrun⟩ := hx.2 hbad s
      rw [hrun, and_iff_right hbad]
      exact hrest t

/-! ## Two runs -/

/-- From every state the two runs fail with the same error, or end in the same state with related
values. -/
def Coupled (R : α → β → Prop) (x : Run σ ε α) (y : Run σ ε β) : Prop :=
  ∀ s, (∃ e, x.run s = .error e ∧ y.run s = .error e) ∨
    ∃ a b t, x.run s = .ok (a, t) ∧ y.run s = .ok (b, t) ∧ R a b

namespace Coupled

variable {γ δ : Type u} {R : α → β → Prop} {Q : γ → δ → Prop} {x : Run σ ε α} {y : Run σ ε β}

theorem refl {S : α → α → Prop} (h : ∀ a, S a a) (x : Run σ ε α) : Coupled S x x := by
  intro s
  rcases hx : x.run s with e | ⟨a, t⟩
  · exact .inl ⟨e, rfl, rfl⟩
  · exact .inr ⟨a, a, t, rfl, rfl, h a⟩

theorem pure {a : α} {b : β} (h : R a b) :
    Coupled R (Pure.pure a : Run σ ε α) (Pure.pure b : Run σ ε β) :=
  fun s => .inr ⟨a, b, s, rfl, rfl, h⟩

theorem bind {f : α → Run σ ε γ} {g : β → Run σ ε δ} (h : Coupled R x y)
    (hf : ∀ a b, R a b → Coupled Q (f a) (g b)) : Coupled Q (x >>= f) (y >>= g) := by
  intro s
  rcases h s with ⟨e, hx, hy⟩ | ⟨a, b, t, hx, hy, hR⟩
  · exact .inl ⟨e, bind_run_of_error hx f, bind_run_of_error hy g⟩
  · rw [bind_run_of_ok hx, bind_run_of_ok hy]
    exact hf a b hR t

theorem map {f : α → γ} {g : β → δ} (h : Coupled R x y) (hf : ∀ a b, R a b → Q (f a) (g b)) :
    Coupled Q (f <$> x) (g <$> y) := by
  rw [map_eq_pure_bind, map_eq_pure_bind]
  exact h.bind fun a b hR => .pure (hf a b hR)

/-- The values are also what the first run returns. -/
theorem imp {S : α → β → Prop} (h : Coupled R x y)
    (hS : ∀ s a t b, x.run s = .ok (a, t) → R a b → S a b) : Coupled S x y := by
  intro s
  rcases h s with herror | ⟨a, b, t, hx, hy, hR⟩
  · exact .inl herror
  · exact .inr ⟨a, b, t, hx, hy, hS s a t b hx hR⟩

/-- Two runs that go on from another state as coupled ones. -/
theorem of_run_eq {x' : Run σ ε α} {y' : Run σ ε β} (h : Coupled R x' y')
    (heq : ∀ s, ∃ s', x.run s = x'.run s' ∧ y.run s = y'.run s') : Coupled R x y := by
  intro s
  obtain ⟨s', hx, hy⟩ := heq s
  rw [hx, hy]
  exact h s'

/-- Runs over related lists. -/
theorem mapM {f : γ → Run σ ε α} {g : δ → Run σ ε β} {xs : List γ} {ys : List δ}
    (hxs : List.Forall₂ Q xs ys) (h : ∀ x ∈ xs, ∀ y ∈ ys, Q x y → Coupled R (f x) (g y)) :
    Coupled (List.Forall₂ R) (xs.mapM f) (ys.mapM g) := by
  induction hxs with
  | nil => exact .pure .nil
  | cons hxy _ ih =>
    rw [List.mapM_cons, List.mapM_cons]
    refine (h _ List.mem_cons_self _ List.mem_cons_self hxy).bind fun a b hR => ?_
    have hrest := ih fun x hx y hy => h x (List.mem_cons_of_mem _ hx) y (List.mem_cons_of_mem _ hy)
    exact hrest.bind fun as bs hRs => .pure (.cons hR hRs)

/-- Runs that return the same value are the same run. -/
theorem run_eq {x y : Run σ ε α} (h : Coupled (fun a b => a = b) x y) (s : σ) :
    x.run s = y.run s := by
  rcases h s with ⟨e, hx, hy⟩ | ⟨a, b, t, hx, hy, rfl⟩
  · rw [hx, hy]
  · rw [hx, hy]

end Coupled

/-! ## Postconditions -/

/-- From the state the run returns what satisfies `P`, or it fails with an error that satisfies
`E`. -/
def Ensures (x : Run σ ε α) (s : σ) (P : α → σ → Prop) (E : ε → Prop) : Prop :=
  (∀ a t, x.run s = .ok (a, t) → P a t) ∧ ∀ e, x.run s = .error e → E e

section Ensures

variable {x : Run σ ε α} {s : σ} {P : α → σ → Prop} {E : ε → Prop}

theorem ensures_pure {a : α} (h : P a s) : Ensures (pure a : Run σ ε α) s P E := by
  refine ⟨?_, ?_⟩
  · intro b t hrun
    obtain ⟨rfl, rfl⟩ := pure_eq_ok.mp hrun
    exact h
  · intro e hrun
    cases hrun

theorem ensures_throw {e : ε} (h : E e) : Ensures (throw e : Run σ ε α) s P E := by
  refine ⟨fun a t hrun => absurd hrun throw_ne_ok, ?_⟩
  intro e' hrun
  exact Except.error.inj hrun ▸ h

theorem ensures_get_bind {f : σ → Run σ ε α} (h : Ensures (f s) s P E) :
    Ensures (get >>= f) s P E := h

theorem ensures_set {a : σ} {Q : PUnit → σ → Prop} (h : Q ⟨⟩ a) :
    Ensures (set a : Run σ ε PUnit) s Q E := by
  refine ⟨?_, ?_⟩
  · intro u t hrun
    obtain rfl := set_eq_ok.mp hrun
    exact h
  · intro e hrun
    cases hrun

/-- What a run in two parts ensures: the second part goes on from what the first one ensures. -/
theorem ensures_bind {f : α → Run σ ε β} {Q : β → σ → Prop} (hx : Ensures x s P E)
    (hf : ∀ a t, P a t → Ensures (f a) t Q E) : Ensures (x >>= f) s Q E := by
  rcases hrun : x.run s with e | ⟨a, t⟩
  · have hE := hx.2 e hrun
    rw [Ensures, bind_run_of_error hrun f]
    refine ⟨fun b u h => ?_, fun e' h => ?_⟩
    · cases h
    · exact Except.error.inj h ▸ hE
  · have hnext := hf a t (hx.1 a t hrun)
    rw [Ensures, bind_run_of_ok hrun]
    exact hnext

end Ensures

/-! ## A budget beside the state -/

/-- The run, with a number kept beside its state. -/
def beside (x : Run σ ε α) : Run (σ × Nat) ε α :=
  fun p => (x.run p.1).map fun r => (r.1, r.2, p.2)

theorem beside_run_of_ok {x : Run σ ε α} {s t : σ} {a : α} (h : x.run s = .ok (a, t)) (n : Nat) :
    (beside x).run (s, n) = .ok (a, t, n) := by
  change (x.run s).map _ = _
  rw [h]
  rfl

theorem beside_run_of_error {x : Run σ ε α} {s : σ} {e : ε} (h : x.run s = .error e) (n : Nat) :
    (beside x).run (s, n) = .error e := by
  change (x.run s).map _ = _
  rw [h]
  rfl

/-- A run with a number beside its state does what another one does without. -/
def Follows (y : Run (σ × Nat) ε α) (n : Nat) (x : Run σ ε α) (s : σ) : Prop :=
  (y.run (s, n)).map (fun r => (r.1, r.2.1)) = x.run s

/-- The first part keeps the number, the second one goes on with it. -/
theorem follows_bind {x : Run σ ε α} {y : Run (σ × Nat) ε α} {f : α → Run σ ε β}
    {g : α → Run (σ × Nat) ε β} {s : σ} {n m : Nat} (hy : y.run (s, n) = (beside x).run (s, m))
    (h : ∀ a t, x.run s = .ok (a, t) → Follows (g a) m (f a) t) :
    Follows (y >>= g) n (x >>= f) s := by
  rcases hrun : x.run s with e | ⟨a, t⟩
  · rw [beside_run_of_error hrun] at hy
    rw [Follows, bind_run_of_error hy, bind_run_of_error hrun]
    rfl
  · rw [beside_run_of_ok hrun] at hy
    rw [Follows, bind_run_of_ok hy, bind_run_of_ok hrun]
    exact h a t hrun

end Threaded
