import Mathlib.Algebra.Ring.Nat
import Mathlib.Order.Basic
import Mathlib.Data.List.Basic
import Mathlib.Tactic.Cases

/-!
# Fallible runs: errors, panics, bounded loops

The meaning of the Rust constructs a safe, allocation-free parser is made of. Three layers:

* `Exec ε` — a run that returns, fails with an error value, panics, or runs out of the fuel of
  one of its loops. Only the first two are outcomes a caller ever sees; `Exec.lift` embeds them.
* `Width` — how wide `usize` is. Additions are made in it: `add` panics where the machine sum
  would wrap, `checkedAdd` answers `none` there. `Width.unbounded` is the ideal arithmetic.
* `loop` — a `loop { .. }` whose body either goes round with a new state or leaves with a value.
  Fuel is a device of the definition: `loop_eq_lift` gives the result of a loop from an invariant
  and a variant, and then the fuel is never exhausted.
-/

namespace Rust

universe u v w

/-! ## Runs -/

/-- Why a run returned no value. -/
inductive Fault (ε : Type u) : Type u where
  /-- the function returned `Err` -/
  | error : ε → Fault ε
  /-- an index, a slice or an addition went out of range -/
  | panic : Fault ε
  /-- a loop of the model used up its fuel -/
  | outOfFuel : Fault ε
  deriving DecidableEq, Repr

/-- A run returning an `α`. -/
abbrev Exec (ε : Type u) (α : Type v) : Type (max u v) := Except (Fault ε) α

namespace Exec

variable {ε : Type u} {α β : Type v}

/-- Return `Err(e)`. -/
def fail (e : ε) : Exec ε α := .error (.error e)

/-- A Rust `Result`, as a run. -/
def lift : Except ε α → Exec ε α
  | .ok a => .ok a
  | .error e => .error (.error e)

/-- `map_err` on the result of a run; a panic stays one. -/
def mapErr {ε' : Type u} (f : ε → ε') : Exec ε α → Exec ε' α
  | .ok a => .ok a
  | .error (.error e) => fail (f e)
  | .error .panic => .error .panic
  | .error .outOfFuel => .error .outOfFuel

@[simp] theorem lift_ok (a : α) : lift (.ok a : Except ε α) = .ok a := rfl

@[simp] theorem lift_error (e : ε) : lift (.error e : Except ε α) = fail e := rfl

@[simp] theorem pure_eq (a : α) : (pure a : Exec ε α) = .ok a := rfl

@[simp] theorem ok_bind (a : α) (f : α → Exec ε β) : ((Except.ok a : Exec ε α) >>= f) = f a := rfl

@[simp] theorem fail_bind (e : ε) (f : α → Exec ε β) : ((fail e : Exec ε α) >>= f) = fail e := rfl

@[simp] theorem ok_ne_fail (a : α) (e : ε) : (Except.ok a : Exec ε α) ≠ fail e := by
  intro h
  cases h

@[simp] theorem fail_ne_ok (a : α) (e : ε) : (fail e : Exec ε α) ≠ Except.ok a := by
  intro h
  cases h

theorem bind_eq_ok {x : Exec ε α} {f : α → Exec ε β} {b : β} :
    (x >>= f) = .ok b ↔ ∃ a, x = .ok a ∧ f a = .ok b := by
  cases x with
  | ok a => simp
  | error e => exact iff_of_false (by intro h; cases h) (by simp)

theorem mapErr_eq_ok {ε' : Type u} {f : ε → ε'} {r : Exec ε α} {a : α} :
    r.mapErr f = .ok a ↔ r = .ok a := by
  rcases r with (e | _ | _) | b
  · exact iff_of_false (fail_ne_ok a _) (by simp)
  · exact iff_of_false (by simp [mapErr]) (by simp)
  · exact iff_of_false (by simp [mapErr]) (by simp)
  · simp [mapErr]

theorem lift_eq_ok {r : Except ε α} {a : α} : lift r = .ok a ↔ r = .ok a := by
  cases r with
  | ok b => simp
  | error e => simp

theorem lift_ne_panic (r : Except ε α) : lift r ≠ .error .panic := by
  cases r with
  | ok a => simp
  | error e => simp [fail]

theorem lift_injective {r s : Except ε α} (h : lift r = lift s) : r = s := by
  rcases r with e | a
  · rcases s with e' | b
    · cases h
      rfl
    · cases h
  · exact (lift_eq_ok.mp h.symm).symm

end Exec

/-! ## How a run may end -/

/-- The errors of a kind, and nothing else. -/
def Fault.Errors {ε : Type u} (P : ε → Prop) : Fault ε → Prop
  | error e => P e
  | panic => False
  | outOfFuel => False

/-- The errors of a kind, and a panic. -/
def Fault.ErrorsOrPanic {ε : Type u} (P : ε → Prop) : Fault ε → Prop
  | error e => P e
  | panic => True
  | outOfFuel => False

/-- The run returns a value, or it ends in one of these faults. -/
def EndsIn {ε : Type u} {α : Type v} (A : Fault ε → Prop) (x : Exec ε α) : Prop :=
  ∀ f, x = .error f → A f

/-- The run comes back: with a value, with any error, or with a panic. -/
def Answers {ε : Type u} {α : Type v} (x : Exec ε α) : Prop :=
  EndsIn (Fault.ErrorsOrPanic fun _ => True) x

namespace EndsIn

variable {ε : Type u} {α β : Type v} {A : Fault ε → Prop} {x : Exec ε α}

theorem ok (a : α) : EndsIn A (.ok a : Exec ε α) := by
  intro f h
  cases h

theorem fail {e : ε} (h : A (.error e)) : EndsIn A (Exec.fail e : Exec ε α) := by
  intro f hf
  cases hf
  exact h

theorem bind {f : α → Exec ε β} (hx : EndsIn A x) (hf : ∀ a, x = .ok a → EndsIn A (f a)) :
    EndsIn A (x >>= f) := by
  cases x with
  | ok a => exact hf a rfl
  | error e =>
    intro g h
    cases h
    exact hx e rfl

/-- The errors of a run under `map_err`. -/
theorem mapErr {ε' : Type u} {P : ε → Prop} {Q : ε' → Prop}
    (h : EndsIn (Fault.ErrorsOrPanic P) x) {f : ε → ε'} (hf : ∀ e, P e → Q (f e)) :
    EndsIn (Fault.ErrorsOrPanic Q) (x.mapErr f) := by
  rcases x with (e | _ | _) | a
  · exact .fail (hf e (h _ rfl))
  · intro g hg
    cases hg
    trivial
  · exact absurd (h _ rfl) id
  · exact .ok a

theorem lift {r : Except ε α} (h : ∀ e, r = .error e → A (.error e)) : EndsIn A (Exec.lift r) := by
  cases r with
  | ok a => exact .ok a
  | error e => exact .fail (h e rfl)

/-- A run that ends in errors only is a `Result`. -/
theorem exists_lift {P : ε → Prop} (h : EndsIn (Fault.Errors P) x) :
    ∃ r, x = Exec.lift r ∧ ∀ e, r = .error e → P e := by
  rcases x with (e | _ | _) | a
  · refine ⟨.error e, rfl, ?_⟩
    intro e' he'
    cases he'
    exact h _ rfl
  · exact absurd (h _ rfl) id
  · exact absurd (h _ rfl) id
  · refine ⟨.ok a, rfl, ?_⟩
    intro e' he'
    cases he'

end EndsIn

/-! ## Machine words -/

/-- How wide `usize` is. -/
inductive Width where
  /-- ideal arithmetic -/
  | unbounded : Width
  /-- 32-bit words -/
  | w32 : Width
  /-- 64-bit words -/
  | w64 : Width
  deriving DecidableEq, Repr

namespace Width

/-- The number is a `usize`. -/
def Holds : Width → Nat → Prop
  | unbounded, _ => True
  | w32, n => n < 2 ^ 32
  | w64, n => n < 2 ^ 64

instance (w : Width) (n : Nat) : Decidable (w.Holds n) := by
  cases w
  · exact inferInstanceAs (Decidable True)
  · exact inferInstanceAs (Decidable (_ < _))
  · exact inferInstanceAs (Decidable (_ < _))

/-- The number is the length of something in memory: at most `isize::MAX`. -/
def Fits : Width → Nat → Prop
  | unbounded, _ => True
  | w32, n => n < 2 ^ 31
  | w64, n => n < 2 ^ 63

instance (w : Width) (n : Nat) : Decidable (w.Fits n) := by
  cases w
  · exact inferInstanceAs (Decidable True)
  · exact inferInstanceAs (Decidable (_ < _))
  · exact inferInstanceAs (Decidable (_ < _))

theorem Fits.mono {w : Width} {m n : Nat} (hn : w.Fits n) (hmn : m ≤ n) : w.Fits m := by
  cases w with
  | unbounded => trivial
  | w32 => exact Nat.lt_of_le_of_lt hmn hn
  | w64 => exact Nat.lt_of_le_of_lt hmn hn

/-- Two positions in memory have a sum. -/
theorem Fits.holds_add {w : Width} {n a b : Nat} (hn : w.Fits n) (ha : a ≤ n) (hb : b ≤ n) :
    w.Holds (a + b) := by
  cases w with
  | unbounded => trivial
  | w32 =>
    change n < 2 ^ 31 at hn
    change a + b < 2 ^ 32
    omega
  | w64 =>
    change n < 2 ^ 63 at hn
    change a + b < 2 ^ 64
    omega

/-- A position in memory and a 16-bit length have a sum, wherever it points. -/
theorem Fits.holds_add_u16 {w : Width} {n a b : Nat} (hn : w.Fits n) (ha : a ≤ n)
    (hb : b < 2 ^ 16) : w.Holds (a + b) := by
  cases w with
  | unbounded => trivial
  | w32 =>
    change n < 2 ^ 31 at hn
    change a + b < 2 ^ 32
    omega
  | w64 =>
    change n < 2 ^ 63 at hn
    change a + b < 2 ^ 64
    omega

end Width

section Arithmetic

variable {ε : Type u}

/-- `a + b` on `usize`. -/
def add (w : Width) (a b : Nat) : Exec ε Nat :=
  if w.Holds (a + b) then .ok (a + b) else .error .panic

/-- `a.checked_add(b)` on `usize`. -/
def checkedAdd (w : Width) (a b : Nat) : Option Nat :=
  if w.Holds (a + b) then some (a + b) else none

theorem add_eq_ok {w : Width} {a b : Nat} (h : w.Holds (a + b)) :
    (add w a b : Exec ε Nat) = .ok (a + b) := if_pos h

theorem checkedAdd_eq_some {w : Width} {a b : Nat} (h : w.Holds (a + b)) :
    checkedAdd w a b = some (a + b) := if_pos h

theorem checkedAdd_some {w : Width} {a b c : Nat} (h : checkedAdd w a b = some c) :
    c = a + b := by
  rw [checkedAdd] at h
  split at h
  · exact (Option.some.inj h).symm
  · cases h

theorem checkedAdd_none {w : Width} {a b : Nat} (h : checkedAdd w a b = none) :
    ¬ w.Holds (a + b) := by
  rw [checkedAdd] at h
  split at h
  · cases h
  · assumption

end Arithmetic

/-! ## Indexing and slicing -/

section Slices

variable {ε : Type u} {β : Type v}

/-- `data[i]`. -/
def index (data : List β) (i : Nat) : Exec ε β :=
  match data[i]? with
  | some b => .ok b
  | none => .error .panic

/-- `&data[a..b]`. -/
def slice (data : List β) (a b : Nat) : Exec ε (List β) :=
  if a ≤ b ∧ b ≤ data.length then .ok ((data.drop a).take (b - a)) else .error .panic

theorem index_eq_ok {data : List β} {i : Nat} {b : β} (h : data[i]? = some b) :
    (index data i : Exec ε β) = .ok b := by
  rw [index, h]

theorem slice_eq_ok {data : List β} {a b : Nat} (hab : a ≤ b) (hb : b ≤ data.length) :
    (slice data a b : Exec ε (List β)) = .ok ((data.drop a).take (b - a)) := if_pos ⟨hab, hb⟩

/-- A suffix starting with `b` has `b` at its own position. -/
theorem getElem?_of_drop {data rest : List β} {i : Nat} {b : β} (h : data.drop i = b :: rest) :
    data[i]? = some b := by
  have h0 : (data.drop i)[0]? = some b := by rw [h]; rfl
  rwa [List.getElem?_drop, Nat.add_zero] at h0

/-- Reading past a prefix of a suffix. -/
theorem drop_of_drop {data rest : List β} {i : Nat} (pre : List β)
    (h : data.drop i = pre ++ rest) : data.drop (i + pre.length) = rest := by
  rw [← List.drop_drop, h, List.drop_left]

theorem drop_succ_of_drop {data rest : List β} {i : Nat} {b : β} (h : data.drop i = b :: rest) :
    data.drop (i + 1) = rest := drop_of_drop [b] h

/-- Where a suffix is not empty its position is inside. -/
theorem lt_length_of_drop {data rest : List β} {i : Nat} {b : β} (h : data.drop i = b :: rest) :
    i < data.length := by
  by_contra hge
  rw [List.drop_eq_nil_of_le (by omega)] at h
  cases h

/-- The end of a prefix of a suffix is inside. -/
theorem add_length_le {data pre rest : List β} {i : Nat} (hi : i ≤ data.length)
    (h : data.drop i = pre ++ rest) : i + pre.length ≤ data.length := by
  have hlen := congrArg List.length h
  rw [List.length_drop, List.length_append] at hlen
  omega

end Slices

/-! ## Loops -/

/-- How one round of a loop ends. -/
inductive LoopFlow (σ : Type v) (α : Type w) where
  /-- go round again -/
  | next : σ → LoopFlow σ α
  /-- leave the loop -/
  | done : α → LoopFlow σ α
  deriving DecidableEq, Repr

section Loops

variable {ε : Type u} {σ : Type v} {α : Type v}

/-- `loop { body }`, for at most `fuel` rounds. -/
def loop (body : σ → Exec ε (LoopFlow σ α)) : Nat → σ → Exec ε α
  | 0, _ => .error .outOfFuel
  | n + 1, s =>
    match body s with
    | .ok (.next s') => loop body n s'
    | .ok (.done a) => .ok a
    | .error f => .error f

/-- What one round does, said against the result `F` expected of the loop from there on: it
leaves with that result, or it goes round from a state with the same expected result. -/
inductive Round (I : σ → Prop) (μ : σ → Nat) (F : σ → Except ε α) (s : σ) :
    Exec ε (LoopFlow σ α) → Prop where
  /-- the loop is left with the value expected -/
  | done {a : α} : F s = .ok a → Round I μ F s (.ok (.done a))
  /-- the function returns with the error expected -/
  | fail {e : ε} : F s = .error e → Round I μ F s (Exec.fail e)
  /-- the next round starts nearer to the end and expects the same -/
  | next {s' : σ} : I s' → μ s' < μ s → F s = F s' → Round I μ F s (.ok (.next s'))

/-- **The loop rule**: when every round keeps the invariant, decreases the variant and preserves
the result expected, the loop returns that result, and neither panics nor runs dry. -/
theorem loop_eq_lift {I : σ → Prop} {μ : σ → Nat} {F : σ → Except ε α}
    {body : σ → Exec ε (LoopFlow σ α)} (hbody : ∀ s, I s → Round I μ F s (body s)) :
    ∀ (fuel : Nat) (s : σ), I s → μ s < fuel → loop body fuel s = Exec.lift (F s) := by
  intro fuel
  induction fuel with
  | zero =>
    intro s _ hlt
    exact absurd hlt (Nat.not_lt_zero _)
  | succ n ih =>
    intro s hI hlt
    have hround := hbody s hI
    rw [loop]
    generalize body s = r at hround
    cases hround with
    | done hF => rw [hF]; rfl
    | fail hF => rw [hF]; rfl
    | next hI' hμ hF =>
      rw [hF]
      exact ih _ hI' (by omega)

/-- So many rounds, one after the other, lead from one state to another. -/
inductive Rounds (body : σ → Exec ε (LoopFlow σ α)) : Nat → σ → σ → Prop where
  | refl {s : σ} : Rounds body 0 s s
  | head {n : Nat} {s t u : σ} : body s = .ok (.next t) → Rounds body n t u →
      Rounds body (n + 1) s u

theorem Rounds.single {body : σ → Exec ε (LoopFlow σ α)} {s t : σ} (h : body s = .ok (.next t)) :
    Rounds body 1 s t := .head h .refl

theorem Rounds.trans {body : σ → Exec ε (LoopFlow σ α)} {m n : Nat} {s t u : σ}
    (h₁ : Rounds body m s t) (h₂ : Rounds body n t u) : Rounds body (m + n) s u := by
  induction h₁ with
  | refl => rwa [Nat.zero_add]
  | head hnext _ ih =>
    rw [Nat.succ_add_eq_add_succ]
    exact .head hnext (ih h₂)

/-- A loop goes on from where its first rounds lead. -/
theorem loop_of_rounds {body : σ → Exec ε (LoopFlow σ α)} {n : Nat} {s t : σ}
    (h : Rounds body n s t) (fuel : Nat) : loop body (n + fuel) s = loop body fuel t := by
  induction h with
  | refl => rw [Nat.zero_add]
  | head hnext _ ih =>
    rw [Nat.succ_add, loop, hnext]
    exact ih

/-- A loop ends as its rounds may end, when every round that goes on keeps the invariant and comes
nearer to the end. -/
theorem endsIn_loop {A : Fault ε → Prop} {I : σ → Prop} {μ : σ → Nat}
    {body : σ → Exec ε (LoopFlow σ α)} (hbody : ∀ s, I s → EndsIn A (body s))
    (hnext : ∀ s s', I s → body s = .ok (.next s') → I s' ∧ μ s' < μ s) :
    ∀ (fuel : Nat) (s : σ), I s → μ s < fuel → EndsIn A (loop body fuel s) := by
  intro fuel
  induction fuel with
  | zero =>
    intro s _ hlt
    exact absurd hlt (Nat.not_lt_zero _)
  | succ n ih =>
    intro s hI hlt
    rw [loop]
    rcases hround : body s with f | s' | a
    · intro g hg
      cases hg
      exact hbody s hI f hround
    · obtain ⟨hI', hnearer⟩ := hnext s s' hI hround
      exact ih s' hI' (by omega)
    · exact .ok a

/-- The states a loop goes through. -/
inductive Visits (body : σ → Exec ε (LoopFlow σ α)) (s₀ : σ) : σ → Prop where
  | start : Visits body s₀ s₀
  | next {s s' : σ} : Visits body s₀ s → body s = .ok (.next s') → Visits body s₀ s'

variable {I : σ → Prop} {μ : σ → Nat} {F : σ → Except ε α} {body : σ → Exec ε (LoopFlow σ α)}

theorem Round.of_next {s s' : σ} (h : Round I μ F s (.ok (.next s'))) :
    I s' ∧ μ s' < μ s ∧ F s = F s' := by
  cases h with
  | next hI hμ hF => exact ⟨hI, hμ, hF⟩

/-- Every state a loop goes through satisfies its invariant. -/
theorem Visits.invariant (hbody : ∀ s, I s → Round I μ F s (body s)) {s₀ s : σ} (h₀ : I s₀)
    (h : Visits body s₀ s) : I s := by
  induction h with
  | start => exact h₀
  | next _ hnext ih => exact (hnext ▸ hbody _ ih).of_next.1

/-- A round ends as the body of a loop may end: it goes on, leaves, or returns an error. -/
theorem Round.exists_lift {s : σ} {r : Exec ε (LoopFlow σ α)} (h : Round I μ F s r) :
    ∃ x, r = Exec.lift x := by
  cases h with
  | @done a hF => exact ⟨.ok (.done a), rfl⟩
  | @fail e hF => exact ⟨.error e, rfl⟩
  | @next s' hI hμ hF => exact ⟨.ok (.next s'), rfl⟩

/-- A loop makes progress: in every state it goes through the position is in bounds, the round
returns, and the next state is further on. -/
def Advances (body : σ → Exec ε (LoopFlow σ α)) (pos : σ → Nat) (stop : Nat) (s₀ : σ) : Prop :=
  ∀ s, Visits body s₀ s → pos s ≤ stop ∧ (∃ r, body s = Exec.lift r) ∧
    ∀ s', body s = .ok (.next s') → pos s < pos s'

/-- The loop rule, for progress: the distance to the bound is the variant. -/
theorem advances_of_rounds {pos : σ → Nat} {stop : Nat}
    (hbody : ∀ s, I s → Round I (fun s => stop - pos s) F s (body s))
    (hbound : ∀ s, I s → pos s ≤ stop) {s₀ : σ} (h₀ : I s₀) : Advances body pos stop s₀ := by
  intro s hvisits
  have hI : I s := hvisits.invariant hbody h₀
  have hround := hbody s hI
  refine ⟨hbound s hI, hround.exists_lift, ?_⟩
  intro s' hnext
  rw [hnext] at hround
  obtain ⟨-, hμ, -⟩ := hround.of_next
  omega

/-- Every round takes the position one further at least, so there are no more rounds than there
are positions. -/
theorem Advances.rounds_le {pos : σ → Nat} {stop : Nat} {s₀ : σ} (h : Advances body pos stop s₀)
    {n : Nat} {s t : σ} (hs : Visits body s₀ s) (hrounds : Rounds body n s t) :
    n + pos s ≤ stop := by
  induction hrounds with
  | refl =>
    rw [Nat.zero_add]
    exact (h _ hs).1
  | head hnext _ ih =>
    have hlt := (h _ hs).2.2 _ hnext
    have hle := ih (hs.next hnext)
    omega

end Loops

end Rust
