import Mathlib.Data.List.Basic
import Mathlib.Tactic.Cases

/-!
# Reading a list as a sequence of tokens

The formats a byte parser walks through are sequences of self-delimiting tokens, up to a token
that ends the sequence or up to the end of the input. Two layers:

* `Lexicon` — the grammar. A token has its bytes (`encode`), a condition on the bytes that may
  follow it (`Fits`; a longest-match token cares, a length-prefixed one does not), and may be the
  one after which nothing is read any more (`last`). `Admits` is the grammar of a whole sequence.
* `Lexer` — a reader of *one* token that is sound and complete for the lexicon.

`Lexer.readAll` iterates the reader. `Lexer.readAll_eq_ok` says it accepts exactly the lists the
lexicon admits, and `Lexicon.admits_unique` that a list is split in one way only: both follow from
what is known of the one-token reader, with no further look at the format.
-/

namespace Lexing

universe u v w

/-- The grammar of a token sequence. -/
structure Lexicon (β : Type u) (τ : Type v) where
  /-- the bytes of a token -/
  encode : τ → List β
  /-- the token may stand before the given bytes -/
  Fits : τ → List β → Prop
  /-- nothing is read after the token -/
  last : τ → Bool

namespace Lexicon

variable {β : Type u} {τ : Type v} (L : Lexicon β τ)

/-- The bytes of a sequence of tokens. -/
def encodeAll (ts : List τ) : List β := ts.flatMap L.encode

@[simp] theorem encodeAll_nil : L.encodeAll [] = [] := rfl

@[simp] theorem encodeAll_cons (t : τ) (ts : List τ) :
    L.encodeAll (t :: ts) = L.encode t ++ L.encodeAll ts := rfl

@[simp] theorem encodeAll_append (ts us : List τ) :
    L.encodeAll (ts ++ us) = L.encodeAll ts ++ L.encodeAll us := List.flatMap_append

/-- The tokens may stand in this order before `rest`: each fits before what follows it, the
sequence stops at the first last token, and only there may bytes be left over. -/
def Admits : List τ → List β → Prop
  | [], rest => rest = []
  | t :: ts, rest =>
    L.Fits t (L.encodeAll ts ++ rest) ∧ if L.last t then ts = [] else Admits ts rest

theorem admits_last {t : τ} {rest : List β} (hl : L.last t = true) :
    L.Admits [t] rest ↔ L.Fits t rest := by
  simp [Admits, hl]

theorem admits_cons {t : τ} {ts : List τ} {rest : List β} (hl : L.last t = false) :
    L.Admits (t :: ts) rest ↔ L.Fits t (L.encodeAll ts ++ rest) ∧ L.Admits ts rest := by
  simp [Admits, hl]

variable {L}

/-- The head of an admitted sequence fits before what follows. -/
theorem Admits.head {t : τ} {ts : List τ} {rest : List β} (h : L.Admits (t :: ts) rest) :
    L.Fits t (L.encodeAll ts ++ rest) := h.1

/-- What follows a token that is not the last is admitted. -/
theorem Admits.tail {t : τ} {ts : List τ} {rest : List β} (h : L.Admits (t :: ts) rest)
    (hl : L.last t = false) : L.Admits ts rest := ((L.admits_cons hl).mp h).2

/-- Only the final token of an admitted sequence is a last one. -/
theorem Admits.last_eq_nil {ts us : List τ} {t : τ} {rest : List β}
    (h : L.Admits (ts ++ t :: us) rest) (hl : L.last t = true) : us = [] := by
  induction ts with
  | nil => simpa [Admits, hl] using h.2
  | cons s ts ih =>
    cases hs : L.last s with
    | true =>
      have hnil : ts ++ t :: us = [] := by simpa [hs] using h.2
      simp at hnil
    | false => exact ih (h.tail hs)

/-- Bytes are left over only after a last token. -/
theorem Admits.exists_last {ts : List τ} {rest : List β} (h : L.Admits ts rest)
    (hrest : rest ≠ []) : ∃ us t, ts = us ++ [t] ∧ L.last t = true := by
  induction ts with
  | nil => exact absurd h hrest
  | cons t ts ih =>
    cases hl : L.last t with
    | true =>
      obtain rfl : ts = [] := by simpa [hl] using h.2
      exact ⟨[], t, rfl, hl⟩
    | false =>
      obtain ⟨us, u, rfl, hu⟩ := ih (h.tail hl)
      exact ⟨t :: us, u, rfl, hu⟩

/-- Every token of an admitted sequence fits before some bytes. -/
theorem Admits.mem {ts : List τ} {rest : List β} (h : L.Admits ts rest) {t : τ} (ht : t ∈ ts) :
    ∃ r, L.Fits t r := by
  induction ts with
  | nil => cases ht
  | cons s ts ih =>
    rcases List.mem_cons.mp ht with rfl | ht
    · exact ⟨_, h.head⟩
    · cases hl : L.last s with
      | true =>
        obtain rfl : ts = [] := by simpa [hl] using h.2
        cases ht
      | false => exact ih (h.tail hl) ht

/-- The grammar of a sequence, told without recursion. -/
theorem admits_iff {ts : List τ} {rest : List β} :
    L.Admits ts rest ↔
      (∀ us t vs, ts = us ++ t :: vs → L.Fits t (L.encodeAll vs ++ rest)) ∧
      (∀ t ∈ ts.dropLast, L.last t = false) ∧
      (rest ≠ [] → ∃ t, ts.getLast? = some t ∧ L.last t = true) := by
  refine ⟨?_, ?_⟩
  · intro h
    refine ⟨?_, ?_, ?_⟩
    · intro us t vs hts
      subst hts
      induction us with
      | nil => exact h.head
      | cons u us ih =>
        cases hl : L.last u with
        | true =>
          have hnil : us ++ t :: vs = [] := by simpa [hl] using h.2
          simp at hnil
        | false => exact ih (h.tail hl)
    · intro t ht
      obtain ⟨us, vs, hsplit⟩ := List.append_of_mem ht
      cases hl : L.last t with
      | false => rfl
      | true =>
        have hne : ts ≠ [] := by
          rintro rfl
          cases ht
        have hts : ts = us ++ t :: (vs ++ [ts.getLast hne]) := by
          conv_lhs => rw [← List.dropLast_append_getLast hne, hsplit]
          rw [List.append_assoc, List.cons_append]
        rw [hts] at h
        exact absurd (h.last_eq_nil hl) (by simp)
    · intro hrest
      obtain ⟨us, t, rfl, hl⟩ := h.exists_last hrest
      exact ⟨t, List.getLast?_concat, hl⟩
  · rintro ⟨hfits, hdrop, hrest⟩
    induction ts with
    | nil =>
      by_contra hne
      obtain ⟨t, ht, -⟩ := hrest hne
      cases ht
    | cons t ts ih =>
      have hhead : L.Fits t (L.encodeAll ts ++ rest) := hfits [] t ts rfl
      cases ts with
      | nil =>
        cases hl : L.last t with
        | true => exact (L.admits_last hl).mpr hhead
        | false =>
          refine (L.admits_cons hl).mpr ⟨hhead, ?_⟩
          by_contra hne
          obtain ⟨u, hu, hul⟩ := hrest hne
          obtain rfl : t = u := Option.some.inj hu
          rw [hl] at hul
          cases hul
      | cons u ts =>
        have hl : L.last t = false := hdrop t (by simp)
        refine (L.admits_cons hl).mpr ⟨hhead, ih ?_ ?_ ?_⟩
        · intro us v vs hts
          exact hfits (t :: us) v vs (by rw [hts]; rfl)
        · intro v hv
          exact hdrop v (by simpa using Or.inr hv)
        · intro hne
          obtain ⟨v, hv, hvl⟩ := hrest hne
          exact ⟨v, by simpa using hv, hvl⟩

variable (L) in
/-- The list is spelled by tokens that have the property, with nothing left over. -/
def Spelled (P : τ → Prop) (s : List β) : Prop :=
  ∃ ts, s = L.encodeAll ts ∧ L.Admits ts [] ∧ ∀ t ∈ ts, P t

theorem spelled_nil {P : τ → Prop} : L.Spelled P [] :=
  ⟨[], rfl, rfl, fun _ ht => absurd ht List.not_mem_nil⟩

end Lexicon

/-- A reader of one token, sound and complete for a lexicon. -/
structure Lexer {β : Type u} {τ : Type v} (L : Lexicon β τ) (ε : Type w) where
  /-- read the token at the head of the list -/
  read : List β → Except ε (τ × List β)
  /-- what is read is at the head of the list -/
  sound : ∀ {s : List β} {t : τ} {rest : List β},
    read s = .ok (t, rest) → s = L.encode t ++ rest ∧ L.Fits t rest
  /-- what is at the head of the list is read -/
  complete : ∀ {t : τ} {rest : List β}, L.Fits t rest → read (L.encode t ++ rest) = .ok (t, rest)
  /-- no token is empty -/
  progress : ∀ {t : τ} {rest : List β}, L.Fits t rest → L.encode t ≠ []

namespace Lexer

variable {β : Type u} {τ : Type v} {ε : Type w} {L : Lexicon β τ} (R : Lexer L ε)

theorem read_length_lt {s : List β} {t : τ} {rest : List β} (h : R.read s = .ok (t, rest)) :
    rest.length < s.length := by
  obtain ⟨rfl, hfits⟩ := R.sound h
  have hpos := List.length_pos_iff.mpr (R.progress hfits)
  rw [List.length_append]
  omega

/-- Read tokens up to the end of the list or up to a last token, and return them with the bytes
left over. -/
def readAll (s : List β) : Except ε (List τ × List β) :=
  if s = [] then .ok ([], [])
  else
    match _hr : R.read s with
    | .error e => .error e
    | .ok (t, rest) =>
      if L.last t then .ok ([t], rest)
      else
        match readAll rest with
        | .error e => .error e
        | .ok (ts, left) => .ok (t :: ts, left)
termination_by s.length
decreasing_by exact R.read_length_lt _hr

/-! ### Equation lemmas -/

@[simp] theorem readAll_nil : R.readAll [] = .ok ([], []) := by
  rw [readAll, if_pos rfl]

theorem readAll_of_error {s : List β} {e : ε} (hs : s ≠ []) (h : R.read s = .error e) :
    R.readAll s = .error e := by
  rw [readAll, if_neg hs]
  split
  · rename_i e' he
    rw [h] at he
    obtain rfl := Except.error.inj he
    rfl
  · rename_i t rest ht
    rw [h] at ht
    cases ht

theorem readAll_of_ok {s : List β} {t : τ} {rest : List β} (h : R.read s = .ok (t, rest)) :
    R.readAll s =
      if L.last t then .ok ([t], rest)
      else
        match R.readAll rest with
        | .error e => .error e
        | .ok (ts, left) => .ok (t :: ts, left) := by
  have hs : s ≠ [] := by
    rintro rfl
    exact absurd (R.read_length_lt h) (Nat.not_lt_zero _)
  conv_lhs => rw [readAll, if_neg hs]
  split
  · rename_i e he
    rw [h] at he
    cases he
  · rename_i t' rest' ht
    rw [h] at ht
    obtain ⟨rfl, rfl⟩ := Prod.mk.inj (Except.ok.inj ht)
    rfl

theorem readAll_of_last {s : List β} {t : τ} {rest : List β} (h : R.read s = .ok (t, rest))
    (hl : L.last t = true) : R.readAll s = .ok ([t], rest) := by
  rw [R.readAll_of_ok h, if_pos hl]

theorem readAll_of_next {s : List β} {t : τ} {rest : List β} (h : R.read s = .ok (t, rest))
    (hl : L.last t = false) :
    R.readAll s = (R.readAll rest).map fun p => (t :: p.1, p.2) := by
  rw [R.readAll_of_ok h, hl]
  rcases R.readAll rest with e | ⟨ts, left⟩
  · rfl
  · rfl

/-- An error of reading is an error of reading some token. -/
theorem readAll_eq_error {P : ε → Prop} (hread : ∀ s e, R.read s = .error e → P e) (n : Nat) :
    ∀ {s : List β} {e : ε}, s.length ≤ n → R.readAll s = .error e → P e := by
  induction n with
  | zero =>
    intro s e hn h
    obtain rfl := List.eq_nil_of_length_eq_zero (Nat.le_zero.mp hn)
    rw [readAll_nil] at h
    cases h
  | succ n ih =>
    intro s e hn h
    by_cases hs : s = []
    · subst hs
      rw [readAll_nil] at h
      cases h
    rcases hr : R.read s with e' | ⟨t, left⟩
    · rw [R.readAll_of_error hs hr] at h
      exact hread s e (by rw [hr, Except.error.inj h])
    · cases hl : L.last t with
      | true =>
        rw [R.readAll_of_last hr hl] at h
        cases h
      | false =>
        rw [R.readAll_of_next hr hl] at h
        rcases hall : R.readAll left with e' | p
        · have hlt := R.read_length_lt hr
          rw [hall] at h
          rw [← Except.error.inj h]
          exact ih (by omega) hall
        · rw [hall] at h
          cases h

/-! ### The grammar of what is read -/

/-- An admitted sequence is read back. -/
theorem readAll_encodeAll :
    ∀ {ts : List τ} {rest : List β}, L.Admits ts rest →
      R.readAll (L.encodeAll ts ++ rest) = .ok (ts, rest) := by
  intro ts
  induction ts with
  | nil =>
    intro rest h
    obtain rfl : rest = [] := h
    exact R.readAll_nil
  | cons t ts ih =>
    intro rest h
    have hread : R.read (L.encodeAll (t :: ts) ++ rest) = .ok (t, L.encodeAll ts ++ rest) := by
      rw [Lexicon.encodeAll_cons, List.append_assoc]
      exact R.complete h.head
    cases hl : L.last t with
    | true =>
      obtain rfl : ts = [] := by simpa [hl] using h.2
      rw [R.readAll_of_last hread hl]
      rfl
    | false =>
      rw [R.readAll_of_next hread hl, ih (h.tail hl)]
      rfl

/-- What is read is an admitted sequence. -/
theorem admits_of_readAll (n : Nat) :
    ∀ {s : List β} {ts : List τ} {rest : List β}, s.length ≤ n →
      R.readAll s = .ok (ts, rest) → s = L.encodeAll ts ++ rest ∧ L.Admits ts rest := by
  induction n with
  | zero =>
    intro s ts rest hn h
    obtain rfl := List.eq_nil_of_length_eq_zero (Nat.le_zero.mp hn)
    rw [readAll_nil] at h
    obtain ⟨rfl, rfl⟩ := Prod.mk.inj (Except.ok.inj h)
    exact ⟨rfl, rfl⟩
  | succ n ih =>
    intro s ts rest hn h
    by_cases hs : s = []
    · subst hs
      rw [readAll_nil] at h
      obtain ⟨rfl, rfl⟩ := Prod.mk.inj (Except.ok.inj h)
      exact ⟨rfl, rfl⟩
    · rcases hr : R.read s with e | ⟨t, left⟩
      · rw [R.readAll_of_error hs hr] at h
        cases h
      · obtain ⟨hsplit, hfits⟩ := R.sound hr
        cases hl : L.last t with
        | true =>
          rw [R.readAll_of_last hr hl] at h
          obtain ⟨rfl, rfl⟩ := Prod.mk.inj (Except.ok.inj h)
          exact ⟨by simpa using hsplit, (L.admits_last hl).mpr hfits⟩
        | false =>
          rw [R.readAll_of_next hr hl] at h
          rcases hall : R.readAll left with e | ⟨us, left'⟩
          · rw [hall] at h
            cases h
          · rw [hall] at h
            obtain ⟨rfl, rfl⟩ := Prod.mk.inj (Except.ok.inj h)
            have hlt := R.read_length_lt hr
            obtain ⟨rfl, hus⟩ := ih (by omega) hall
            refine ⟨?_, (L.admits_cons hl).mpr ⟨hfits, hus⟩⟩
            rw [hsplit, Lexicon.encodeAll_cons, List.append_assoc]

/-- **Sound and complete**: the tokens read are exactly the admitted split of the list. -/
theorem readAll_eq_ok {s : List β} {ts : List τ} {rest : List β} :
    R.readAll s = .ok (ts, rest) ↔ s = L.encodeAll ts ++ rest ∧ L.Admits ts rest := by
  refine ⟨?_, ?_⟩
  · exact R.admits_of_readAll s.length (Nat.le_refl _)
  · rintro ⟨rfl, h⟩
    exact R.readAll_encodeAll h

include R in
/-- **Unique decomposition**: a list is split in at most one way. -/
theorem admits_unique {ts us : List τ} {rest left : List β}
    (hsplit : L.encodeAll ts ++ rest = L.encodeAll us ++ left)
    (ht : L.Admits ts rest) (hu : L.Admits us left) : ts = us ∧ rest = left := by
  have h := R.readAll_encodeAll ht
  rw [hsplit, R.readAll_encodeAll hu] at h
  obtain ⟨h₁, h₂⟩ := Prod.mk.inj (Except.ok.inj h)
  exact ⟨h₁.symm, h₂.symm⟩

/-! ### Spelling a list by tokens of a kind -/

section Spelled

variable {P : τ → Prop} {s rest : List β} {t : τ}

/-- The first token of a spelling is the one read. -/
theorem read_of_spelled {ts : List τ} (hs : s = L.encodeAll (t :: ts))
    (hadm : L.Admits (t :: ts) []) : R.read s = .ok (t, L.encodeAll ts) := by
  have hfits := hadm.head
  rw [List.append_nil] at hfits
  rw [hs]
  exact R.complete hfits

theorem not_spelled_of_error {e : ε} (hs : s ≠ []) (hread : R.read s = .error e) :
    ¬ L.Spelled P s := by
  rintro ⟨ts, hsplit, hadm, -⟩
  cases ts with
  | nil => exact hs hsplit
  | cons u us =>
    rw [R.read_of_spelled hsplit hadm] at hread
    cases hread

theorem read_ne_nil (hread : R.read s = .ok (t, rest)) : s ≠ [] := by
  rintro rfl
  exact absurd (R.read_length_lt hread) (Nat.not_lt_zero _)

/-- After a last token nothing may be left. -/
theorem spelled_of_last (hread : R.read s = .ok (t, rest)) (hl : L.last t = true) :
    L.Spelled P s ↔ P t ∧ rest = [] := by
  refine ⟨?_, ?_⟩
  · rintro ⟨ts, hsplit, hadm, hP⟩
    cases ts with
    | nil => exact absurd hsplit (R.read_ne_nil hread)
    | cons u us =>
      rw [R.read_of_spelled hsplit hadm] at hread
      obtain ⟨rfl, rfl⟩ := Prod.mk.inj (Except.ok.inj hread)
      obtain rfl : us = [] := by simpa [hl] using hadm.2
      exact ⟨hP u List.mem_cons_self, rfl⟩
  · rintro ⟨hP, rfl⟩
    obtain ⟨hsplit, hfits⟩ := R.sound hread
    refine ⟨[t], ?_, (L.admits_last hl).mpr hfits, ?_⟩
    · rw [hsplit, Lexicon.encodeAll_cons, Lexicon.encodeAll_nil]
    · intro u hu
      obtain rfl := List.mem_singleton.mp hu
      exact hP

/-- After any other token the rest has to be spelled too. -/
theorem spelled_of_next (hread : R.read s = .ok (t, rest)) (hl : L.last t = false) :
    L.Spelled P s ↔ P t ∧ L.Spelled P rest := by
  refine ⟨?_, ?_⟩
  · rintro ⟨ts, hsplit, hadm, hP⟩
    cases ts with
    | nil => exact absurd hsplit (R.read_ne_nil hread)
    | cons u us =>
      rw [R.read_of_spelled hsplit hadm] at hread
      obtain ⟨rfl, rfl⟩ := Prod.mk.inj (Except.ok.inj hread)
      exact ⟨hP u List.mem_cons_self, us, rfl, hadm.tail hl,
        fun v hv => hP v (List.mem_cons_of_mem _ hv)⟩
  · rintro ⟨hP, ts, rfl, hadm, hts⟩
    obtain ⟨hsplit, hfits⟩ := R.sound hread
    refine ⟨t :: ts, hsplit, (L.admits_cons hl).mpr ⟨?_, hadm⟩, ?_⟩
    · rwa [List.append_nil]
    · intro u hu
      rcases List.mem_cons.mp hu with rfl | hu
      · exact hP
      · exact hts u hu

end Spelled

end Lexer

end Lexing
