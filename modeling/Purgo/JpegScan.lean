import Purgo.Jpeg

/-!
# Entropy-coded data

What follows a scan header is read by other rules than the marker segments: a run of `FF` that is
continued by `00` or by a restart marker is data, any other run ends the scan. `IsEntropyCoded` is
that language; `scanLength` is the length of the longest prefix of a list in it
(`isEntropyCoded_take`, `IsEntropyCoded.length_le`). `fillEnd_eq` and `scanDataEnd_eq` say that
the two index loops of the code compute these lengths.
-/

namespace Purgo

open Rust

namespace Jpeg

/-! ## Runs of `FF` -/

/-- `n` bytes `FF`. -/
def ffs (n : Nat) : List UInt8 := List.replicate n 0xFF

@[simp] theorem ffs_zero : ffs 0 = [] := rfl

@[simp] theorem ffs_succ (n : Nat) : ffs (n + 1) = 0xFF :: ffs n := rfl

@[simp] theorem length_ffs (n : Nat) : (ffs n).length = n := List.length_replicate

theorem ffs_add (m n : Nat) : ffs (m + n) = ffs m ++ ffs n := List.replicate_add ..

/-- The list starts with something else than an `FF`, or is empty. -/
def NoFill (s : List UInt8) : Prop := ∀ b ∈ s.head?, b ≠ 0xFF

/-- Every list is a run of `FF` and a list that starts no run. -/
theorem exists_run (s : List UInt8) : ∃ n t, s = ffs n ++ t ∧ NoFill t := by
  induction s with
  | nil => exact ⟨0, [], rfl, by simp [NoFill]⟩
  | cons b s ih =>
    by_cases hb : b = 0xFF
    · obtain ⟨n, t, rfl, ht⟩ := ih
      exact ⟨n + 1, t, by rw [hb, ffs_succ, List.cons_append], ht⟩
    · exact ⟨0, b :: s, rfl, by simpa [NoFill] using hb⟩

/-- A text that begins with another byte does not begin with `0xFF`. -/
theorem noFill_cons {b : UInt8} (t : List UInt8) (hb : b ≠ 0xFF) : NoFill (b :: t) := by
  simpa [NoFill] using hb

theorem NoFill.head_ne {b : UInt8} {t : List UInt8} (h : NoFill (b :: t)) : b ≠ 0xFF :=
  h b rfl

/-- What may follow `0xFF` in a scan is never `0xFF`. -/
theorem isStuffing_ne_ff {b : UInt8} (h : isStuffing b = true) : b ≠ 0xFF := by
  rintro rfl
  exact absurd h (by decide)

/-! ## The language -/

/-- Entropy-coded bytes: bytes other than `FF`, and runs of `FF` continued by `00` or by a restart
marker. -/
inductive IsEntropyCoded : List UInt8 → Prop where
  /-- no data -/
  | nil : IsEntropyCoded []
  /-- a byte that is not an `FF` -/
  | byte {b : UInt8} {s : List UInt8} : b ≠ 0xFF → IsEntropyCoded s → IsEntropyCoded (b :: s)
  /-- a run of `FF` and the byte that makes it data -/
  | run {n : Nat} {b : UInt8} {s : List UInt8} :
      isStuffing b = true → IsEntropyCoded s → IsEntropyCoded (ffs (n + 1) ++ b :: s)

/-- Entropy-coded data can be put together. -/
theorem IsEntropyCoded.append {s t : List UInt8} (hs : IsEntropyCoded s)
    (ht : IsEntropyCoded t) : IsEntropyCoded (s ++ t) := by
  induction hs with
  | nil => exact ht
  | byte hb _ ih => exact .byte hb ih
  | run hb _ ih =>
    rw [List.append_assoc, List.cons_append]
    exact .run hb ih

/-- The length of the entropy-coded data at the head of a list, after `run` bytes `FF` of a run
that is not finished. -/
def scanLengthFrom : Nat → List UInt8 → Nat
  | _, [] => 0
  | run, b :: s =>
    if b = 0xFF then scanLengthFrom (run + 1) s
    else if run = 0 || isStuffing b then run + 1 + scanLengthFrom 0 s
    else 0

/-- The length of the entropy-coded data at the head of a list. -/
def scanLength (s : List UInt8) : Nat := scanLengthFrom 0 s

/-- A run of `0xFF` is held back until the byte after it is known. -/
theorem scanLengthFrom_ffs (m n : Nat) (s : List UInt8) :
    scanLengthFrom m (ffs n ++ s) = scanLengthFrom (m + n) s := by
  induction n generalizing m with
  | zero => rfl
  | succ n ih =>
    rw [ffs_succ, List.cons_append, scanLengthFrom, if_pos rfl, ih]
    congr 1
    omega

@[simp] theorem scanLength_nil : scanLength [] = 0 := rfl

/-- A byte other than `0xFF` belongs to the scan. -/
theorem scanLength_byte {b : UInt8} (s : List UInt8) (hb : b ≠ 0xFF) :
    scanLength (b :: s) = scanLength s + 1 := by
  rw [scanLength, scanLengthFrom, if_neg hb, if_pos (by simp), scanLength]
  omega

/-- A run that is continued goes on. -/
theorem scanLength_run {b : UInt8} (n : Nat) (s : List UInt8) (hb : isStuffing b = true) :
    scanLength (ffs (n + 1) ++ b :: s) = n + 2 + scanLength s := by
  rw [scanLength, scanLengthFrom_ffs, scanLengthFrom, if_neg (isStuffing_ne_ff hb),
    if_pos (by simp [hb]), scanLength]
  omega

/-- A run that is not continued ends the data. -/
theorem scanLength_stop (n : Nat) {s : List UInt8} (hs : NoFill s)
    (hstop : ∀ b ∈ s.head?, isStuffing b = false) : scanLength (ffs (n + 1) ++ s) = 0 := by
  rw [scanLength, scanLengthFrom_ffs]
  cases s with
  | nil => rfl
  | cons b s =>
    have hb : isStuffing b = false := hstop b rfl
    rw [scanLengthFrom, if_neg hs.head_ne, if_neg (by simp [hb])]

/-- The three ways a list can start: with its data exhausted, with a byte, with a run that is
continued. -/
theorem scan_cases (s : List UInt8) :
    scanLength s = 0 ∨ (∃ b t, s = b :: t ∧ b ≠ 0xFF) ∨
      ∃ n b t, s = ffs (n + 1) ++ b :: t ∧ isStuffing b = true := by
  obtain ⟨n, t, rfl, ht⟩ := exists_run s
  cases n with
  | zero =>
    cases t with
    | nil => exact .inl rfl
    | cons b t => exact .inr (.inl ⟨b, t, rfl, ht.head_ne⟩)
  | succ n =>
    cases t with
    | nil => exact .inl (scanLength_stop n ht (by simp))
    | cons b t =>
      cases hb : isStuffing b with
      | true => exact .inr (.inr ⟨n, b, t, rfl, hb⟩)
      | false => exact .inl (scanLength_stop n ht (by simpa using hb))

/-- Entropy-coded data is passed over. -/
theorem IsEntropyCoded.scanLength_append {e : List UInt8} (he : IsEntropyCoded e)
    (s : List UInt8) : scanLength (e ++ s) = e.length + scanLength s := by
  induction he with
  | nil => simp
  | byte hb _ ih =>
    rw [List.cons_append, scanLength_byte _ hb, ih, List.length_cons]
    omega
  | run hb _ ih =>
    rw [List.append_assoc, List.cons_append, scanLength_run _ _ hb, ih, List.length_append,
      length_ffs, List.length_cons]
    omega

/-- Entropy-coded data at the head of a list is part of what is passed over. -/
theorem IsEntropyCoded.length_le {e s : List UInt8} (he : IsEntropyCoded e) (hes : e <+: s) :
    e.length ≤ scanLength s := by
  obtain ⟨t, rfl⟩ := hes
  rw [he.scanLength_append]
  omega

/-- What is passed over is entropy-coded, and after it there is no more of it. -/
theorem isEntropyCoded_take (n : Nat) :
    ∀ (s : List UInt8), s.length ≤ n →
      scanLength s ≤ s.length ∧ IsEntropyCoded (s.take (scanLength s)) ∧
        scanLength (s.drop (scanLength s)) = 0 := by
  induction n with
  | zero =>
    intro s hs
    obtain rfl := List.eq_nil_of_length_eq_zero (Nat.le_zero.mp hs)
    exact ⟨Nat.le_refl _, .nil, rfl⟩
  | succ n ih =>
    intro s hs
    rcases scan_cases s with h | ⟨b, t, rfl, hb⟩ | ⟨m, b, t, rfl, hb⟩
    · rw [h]
      exact ⟨Nat.zero_le _, .nil, h⟩
    · obtain ⟨hle, htake, hdrop⟩ := ih t (by simpa using hs)
      rw [scanLength_byte _ hb]
      exact ⟨by simpa using hle, .byte hb htake, hdrop⟩
    · obtain ⟨hle, htake, hdrop⟩ := ih t (by
        simp only [List.length_append, length_ffs, List.length_cons] at hs
        omega)
      have hcut : ffs (m + 1) ++ b :: t = (ffs (m + 1) ++ [b]) ++ t := by simp
      have hlen : (ffs (m + 1) ++ [b]).length = m + 2 := by simp
      rw [scanLength_run _ _ hb, hcut, ← hlen, List.take_length_add_append,
        List.drop_length_add_append]
      refine ⟨?_, ?_, hdrop⟩
      · simp only [List.length_append]
        omega
      · rw [List.append_assoc]
        exact .run hb htake

/-- The scan ends within the file. -/
theorem scanLength_le (s : List UInt8) : scanLength s ≤ s.length :=
  (isEntropyCoded_take s.length s (Nat.le_refl _)).1

/-- The data is the longest entropy-coded prefix of `e ++ rest`. -/
def IsMaximal (e rest : List UInt8) : Prop :=
  ∀ l, IsEntropyCoded l → l <+: e ++ rest → l.length ≤ e.length

/-- **Longest match**: entropy-coded data is maximal exactly when none is left after it. -/
theorem isMaximal_iff {e rest : List UInt8} (he : IsEntropyCoded e) :
    IsMaximal e rest ↔ scanLength rest = 0 := by
  refine ⟨?_, ?_⟩
  · intro hmax
    obtain ⟨-, htake, -⟩ := isEntropyCoded_take rest.length rest (Nat.le_refl _)
    have hpre : e ++ rest.take (scanLength rest) <+: e ++ rest :=
      (List.prefix_append_right_inj e).mpr (List.take_prefix _ _)
    have hle := hmax _ (he.append htake) hpre
    have hroom := scanLength_le rest
    rw [List.length_append, List.length_take] at hle
    omega
  · intro hstop l hl hpre
    have hle := hl.length_le hpre
    rwa [he.scanLength_append, hstop, Nat.add_zero] at hle

/-! ## The loops -/

section Loops

variable {ε : Type} {w : Width} {data : List UInt8}

/-- The position `k` is in a run of `FF` that ends at `stop`, where `t` is left. -/
def InRun (data : List UInt8) (stop : Nat) (t : List UInt8) (k : Nat) : Prop :=
  ∃ r, k + r = stop ∧ k ≤ data.length ∧ data.drop k = ffs r ++ t

/-- A round of the inner loop takes one `FF`, or leaves at the end of the run. -/
theorem fillRound_spec (hfit : w.Fits data.length) {stop : Nat} {t : List UInt8} (ht : NoFill t)
    {k : Nat} (hin : InRun data stop t k) :
    Round (InRun data stop t) (fun k => data.length - k) (fun _ => Except.ok stop) k
      (fillRound w data k : Exec ε (LoopFlow Nat Nat)) := by
  unfold fillRound
  obtain ⟨r, hr, hk, hdrop⟩ := hin
  cases r with
  | zero =>
    have hkm : k = stop := by omega
    cases t with
    | nil =>
      have hend : ¬ k < data.length := by
        have hlen := congrArg List.length hdrop
        simp only [List.length_drop, ffs_zero, List.nil_append, List.length_nil] at hlen
        omega
      rw [if_neg hend, hkm]
      exact .done rfl
    | cons b t =>
      rw [if_pos (lt_length_of_drop hdrop), index_eq_ok (getElem?_of_drop hdrop), Exec.ok_bind,
        if_neg ht.head_ne, hkm]
      exact .done rfl
  | succ r =>
    have hlt := lt_length_of_drop hdrop
    rw [if_pos hlt, index_eq_ok (getElem?_of_drop hdrop), Exec.ok_bind, if_pos rfl,
      add_eq_ok (hfit.holds_add hk (by omega))]
    refine .next ⟨r, by omega, hlt, drop_succ_of_drop hdrop⟩ ?_ rfl
    omega

/-- The inner loop passes over a run of `FF`. -/
theorem fillEnd_eq (hfit : w.Fits data.length) {m n : Nat} {t : List UInt8}
    (hm : m ≤ data.length) (hrun : data.drop m = ffs n ++ t) (ht : NoFill t) :
    (fillEnd w data m : Exec ε Nat) = .ok (m + n) :=
  loop_eq_lift (fun _ hin => fillRound_spec hfit ht hin) _ m ⟨n, rfl, hm, hrun⟩ (by omega)

/-- A round of the outer loop takes a byte or a run that is continued, or leaves where the data
ends. -/
theorem scanRound_spec (hfit : w.Fits data.length) (k : Nat) (hk : k ≤ data.length) :
    Round (fun k => k ≤ data.length) (fun k => data.length - k)
      (fun k => Except.ok (k + scanLength (data.drop k))) k
      (scanRound w data k : Exec ε (LoopFlow Nat Nat)) := by
  by_cases hend : k < data.length
  · obtain ⟨n, t, hrun, ht⟩ := exists_run (data.drop k)
    cases n with
    | zero =>
      -- a byte that is not an `FF`
      cases t with
      | nil =>
        have hlen := congrArg List.length hrun
        simp only [List.length_drop, ffs_zero, List.nil_append, List.length_nil] at hlen
        omega
      | cons b t =>
        have hb := ht.head_ne
        rw [scanRound, if_pos hend, index_eq_ok (getElem?_of_drop hrun), Exec.ok_bind,
          if_pos hb, add_eq_ok (hfit.holds_add hk (by omega))]
        refine .next (by omega) (by omega) ?_
        rw [hrun, drop_succ_of_drop hrun, ffs_zero, List.nil_append, scanLength_byte _ hb]
        congr 1
        omega
    | succ n =>
      -- a run of `FF`, and what continues it
      have hrun' : data.drop k = ffs (n + 1) ++ t := hrun
      rw [ffs_succ, List.cons_append] at hrun
      rw [scanRound, if_pos hend, index_eq_ok (getElem?_of_drop hrun), Exec.ok_bind,
        if_neg (by simp), fillEnd_eq hfit hk hrun' ht, Exec.ok_bind]
      have hnext : data.drop (k + (n + 1)) = t := by
        have := drop_of_drop (ffs (n + 1)) hrun'
        rwa [length_ffs] at this
      have hle : k + (n + 1) ≤ data.length := by
        have := add_length_le hk hrun'
        rwa [length_ffs] at this
      cases t with
      | nil =>
        have hlen := congrArg List.length hnext
        simp only [List.length_drop, List.length_nil] at hlen
        rw [if_pos (by omega)]
        refine .done ?_
        rw [hrun', scanLength_stop n ht (by simp), Nat.add_zero]
      | cons b t =>
        have hlt := lt_length_of_drop hnext
        rw [if_neg (by omega), index_eq_ok (getElem?_of_drop hnext), Exec.ok_bind]
        cases hb : isStuffing b with
        | true =>
          rw [if_pos rfl, add_eq_ok (hfit.holds_add hle (by omega))]
          refine .next hlt (by omega) ?_
          rw [hrun', drop_succ_of_drop hnext, scanLength_run _ _ hb]
          congr 1
          omega
        | false =>
          rw [if_neg (by simp)]
          refine .done ?_
          rw [hrun', scanLength_stop n ht (by simpa using hb), Nat.add_zero]
  · rw [scanRound, if_neg hend]
    refine .done ?_
    rw [List.drop_eq_nil_of_le (by omega), scanLength_nil]
    congr 1
    omega

/-- **`scan_data_end`** passes over exactly the entropy-coded data. -/
theorem scanDataEnd_eq (hfit : w.Fits data.length) {start : Nat} (hstart : start ≤ data.length) :
    (scanDataEnd w data start : Exec ε Nat) = .ok (start + scanLength (data.drop start)) :=
  loop_eq_lift (scanRound_spec hfit) _ start hstart (by omega)

/-- The inner loop returns from wherever it is started, with a position further on. -/
theorem exists_fillEnd (hfit : w.Fits data.length) {m : Nat} (hm : m ≤ data.length) :
    ∃ stop, (fillEnd w data m : Exec ε Nat) = .ok stop ∧ m ≤ stop ∧ stop ≤ data.length := by
  obtain ⟨n, t, hrun, ht⟩ := exists_run (data.drop m)
  have hle := add_length_le hm hrun
  rw [length_ffs] at hle
  exact ⟨m + n, fillEnd_eq hfit hm hrun ht, Nat.le_add_right m n, hle⟩

/-- So does the outer loop. -/
theorem exists_scanDataEnd (hfit : w.Fits data.length) {start : Nat}
    (hstart : start ≤ data.length) :
    ∃ p, (scanDataEnd w data start : Exec ε Nat) = .ok p ∧ start ≤ p ∧ p ≤ data.length := by
  have hle := scanLength_le (data.drop start)
  rw [List.length_drop] at hle
  exact ⟨_, scanDataEnd_eq hfit hstart, Nat.le_add_right _ _, by omega⟩

end Loops

/-! ## Where a scan ends

The end of the entropy-coded data said by positions in the file: cut the file from `start` on into
single bytes and whole runs of `FF`; the data ends at the first run that is not continued. That no
earlier run qualifies is that entropy-coded data stays entropy-coded when it is read from a later
byte, inside a run or not. -/

/-- The position is the first byte of a run of `FF`, in the file read from `start` on, that is
followed by the end of the file or by a byte other than `00` and the restart markers. -/
structure EndsScan (data : List UInt8) (start p : Nat) : Prop where
  start_le : start ≤ p
  run_start : p = start ∨ data[p - 1]? ≠ some 0xFF
  run : ∃ n t, data.drop p = ffs (n + 1) ++ t ∧ NoFill t ∧
    ∀ b ∈ t.head?, b ≠ 0x00 ∧ ¬ (0xD0 ≤ b ∧ b ≤ 0xD7)

/-- A byte after `0xFF` ends the scan unless it is a stuffed zero or a restart marker. -/
theorem isStuffing_eq_false_iff {b : UInt8} :
    isStuffing b = false ↔ b ≠ 0x00 ∧ ¬ (0xD0 ≤ b ∧ b ≤ 0xD7) := by
  simp [isStuffing, isRestart]

/-- Where no data is left there is nothing at all, or a run that is not continued. -/
theorem stop_cases {s : List UInt8} (h : scanLength s = 0) :
    s = [] ∨ ∃ n t, s = ffs (n + 1) ++ t ∧ NoFill t ∧ ∀ b ∈ t.head?, isStuffing b = false := by
  obtain ⟨n, t, rfl, ht⟩ := exists_run s
  cases n with
  | zero =>
    cases t with
    | nil => exact .inl rfl
    | cons b t =>
      rw [ffs_zero, List.nil_append, scanLength_byte t ht.head_ne] at h
      omega
  | succ n =>
    refine .inr ⟨n, t, rfl, ht, ?_⟩
    intro b hb
    cases t with
    | nil => simp at hb
    | cons c t =>
      obtain rfl : c = b := by simpa using hb
      cases hc : isStuffing c with
      | true =>
        rw [scanLength_run n t hc] at h
        omega
      | false => rfl

/-- An `FF` before a place where no data is left is not data either. -/
theorem scanLength_ff_cons {s : List UInt8} (h : scanLength s = 0) :
    scanLength (0xFF :: s) = 0 := by
  rcases stop_cases h with rfl | ⟨n, t, rfl, ht, hstop⟩
  · exact scanLength_stop 0 (s := []) (by simp [NoFill]) (by simp)
  · exact scanLength_stop (n + 1) ht hstop

/-- A run that is continued, read from any of its bytes on. -/
theorem IsEntropyCoded.drop_run {b : UInt8} {s : List UInt8} (hb : isStuffing b = true)
    (hs : IsEntropyCoded s) (ih : ∀ j, IsEntropyCoded (s.drop j)) :
    ∀ n j, IsEntropyCoded ((ffs n ++ b :: s).drop j) := by
  intro n
  induction n with
  | zero =>
    intro j
    cases j with
    | zero => exact .byte (isStuffing_ne_ff hb) hs
    | succ j => exact ih j
  | succ n ihn =>
    intro j
    cases j with
    | zero => exact .run hb hs
    | succ j => exact ihn j

/-- Entropy-coded data, read from a later byte on, is entropy-coded. -/
theorem IsEntropyCoded.drop {e : List UInt8} (he : IsEntropyCoded e) :
    ∀ j, IsEntropyCoded (e.drop j) := by
  induction he with
  | nil =>
    intro j
    rw [List.drop_nil]
    exact .nil
  | byte hb hs ih =>
    intro j
    cases j with
    | zero => exact .byte hb hs
    | succ j => exact ih j
  | run hb hs ih => exact IsEntropyCoded.drop_run hb hs ih _

/-- Reading from a later byte of the data on leads to the same end. -/
theorem scanLength_drop {s : List UInt8} {j : Nat} (hj : j ≤ scanLength s) :
    scanLength (s.drop j) = scanLength s - j := by
  obtain ⟨hle, htake, hstop⟩ := isEntropyCoded_take s.length s (Nat.le_refl _)
  have hlen : (s.take (scanLength s)).length = scanLength s := by
    rw [List.length_take]
    omega
  have hcut : s.drop j = (s.take (scanLength s)).drop j ++ s.drop (scanLength s) := by
    rw [← List.drop_append_of_le_length (by omega), List.take_append_drop]
  rw [hcut, (htake.drop j).scanLength_append, hstop, List.length_drop, hlen, Nat.add_zero]

section Ends

variable {data : List UInt8} {start : Nat}

/-- A run that ends the scan is not passed over, and nothing after it is. -/
theorem EndsScan.le {q : Nat} (hq : EndsScan data start q) :
    start + scanLength (data.drop start) ≤ q := by
  obtain ⟨hle, -, n, t, hrun, ht, hstop⟩ := hq
  by_contra hlt
  have hpos := scanLength_drop (s := data.drop start) (j := q - start) (by omega)
  have hzero : scanLength (ffs (n + 1) ++ t) = 0 :=
    scanLength_stop n ht fun b hb => isStuffing_eq_false_iff.mpr (hstop b hb)
  rw [List.drop_drop, Nat.add_sub_cancel' hle, hrun, hzero] at hpos
  omega

/-- Where the data ends, a run starts that ends the scan, or the file ends. -/
theorem endsScan_or_eq_length (hstart : start ≤ data.length) :
    EndsScan data start (start + scanLength (data.drop start)) ∨
      start + scanLength (data.drop start) = data.length := by
  obtain ⟨hle, -, hstop⟩ := isEntropyCoded_take (data.drop start).length (data.drop start)
    (Nat.le_refl _)
  rw [List.length_drop] at hle
  rw [List.drop_drop] at hstop
  rcases stop_cases hstop with hnil | ⟨n, t, hrun, ht, hnext⟩
  · right
    have := List.drop_eq_nil_iff.mp hnil
    omega
  · refine .inl ⟨Nat.le_add_right _ _, ?_, n, t, hrun, ht, ?_⟩
    · -- an `FF` right before the run would have been passed over alone
      by_contra hno
      obtain ⟨hpos, hff⟩ := not_or.mp hno
      rw [not_not] at hff
      have hcons : (data.drop start).drop (scanLength (data.drop start) - 1) =
          0xFF :: data.drop (start + scanLength (data.drop start)) := by
        obtain ⟨hlt, hget⟩ := List.getElem?_eq_some_iff.mp hff
        rw [List.drop_drop, ← Nat.add_sub_assoc (by omega), List.drop_eq_getElem_cons hlt, hget,
          Nat.sub_add_cancel (by omega)]
      have hone := scanLength_drop (s := data.drop start)
        (j := scanLength (data.drop start) - 1) (by omega)
      rw [hcons, scanLength_ff_cons hstop] at hone
      omega
    · exact fun b hb => isStuffing_eq_false_iff.mp (hnext b hb)

end Ends

/-- **`scan_data_end` finds the end of the entropy-coded data**: the least position that is the
first byte of a run of `FF` that ends the scan, and the end of the file when there is none. Both
loops return, and from anywhere between the start and the end it finds the same end. -/
theorem scanDataEnd_least (ε : Type) (w : Width) (data : List UInt8) (start : Nat)
    (hfit : w.Fits data.length) (hstart : start ≤ data.length) :
    ∃ p, (scanDataEnd w data start : Exec ε Nat) = .ok p ∧
      ((EndsScan data start p ∧ ∀ q, EndsScan data start q → p ≤ q) ∨
        (p = data.length ∧ ∀ q, ¬ EndsScan data start q)) ∧
      (∀ k, start ≤ k → k ≤ p → (scanDataEnd w data k : Exec ε Nat) = .ok p) ∧
      ∀ m ≤ data.length, ∃ stop,
        (fillEnd w data m : Exec ε Nat) = .ok stop ∧ m ≤ stop ∧ stop ≤ data.length := by
  have hle := scanLength_le (data.drop start)
  rw [List.length_drop] at hle
  refine ⟨_, scanDataEnd_eq hfit hstart, ?_, ?_, fun m hm => exists_fillEnd hfit hm⟩
  · rcases endsScan_or_eq_length hstart with hends | hend
    · exact .inl ⟨hends, fun q hq => hq.le⟩
    · refine .inr ⟨hend, ?_⟩
      intro q hq
      -- the run of `FF` has to be inside the file
      obtain ⟨n, t, hrun, -⟩ := hq.run
      have hlt : q < data.length := lt_length_of_drop (by rw [hrun, ffs_succ, List.cons_append])
      have := hq.le
      omega
  · intro k hk hkp
    have hdrop := scanLength_drop (s := data.drop start) (j := k - start) (by omega)
    rw [List.drop_drop, Nat.add_sub_cancel' hk] at hdrop
    rw [scanDataEnd_eq hfit (by omega), hdrop]
    congr 1
    omega

/-- Two fill bytes before a restart marker are data, one before `EOI` is not. -/
theorem scanDataEnd_least_sample :
    ∃ p, (scanDataEnd .w64 [0x01, 0xFF, 0xFF, 0xD0, 0xFF, 0xD9] 0 : Exec DomainError Nat) =
      .ok p ∧ p ≤ 4 := by
  have hends : EndsScan [0x01, 0xFF, 0xFF, 0xD0, 0xFF, 0xD9] 0 4 := by
    refine ⟨by decide, by decide, 0, [0xD9], rfl, noFill_cons [] (by decide), ?_⟩
    rintro b ⟨⟩
    decide
  obtain ⟨p, hp, hleast | ⟨-, hnone⟩, -⟩ := scanDataEnd_least DomainError .w64
    [0x01, 0xFF, 0xFF, 0xD0, 0xFF, 0xD9] 0 (by decide) (by decide)
  · exact ⟨p, hp, hleast.2 4 hends⟩
  · exact absurd hends (hnone 4)

end Jpeg

end Purgo
