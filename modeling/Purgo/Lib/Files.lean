import Mathlib.Logic.Function.Basic
import Purgo.Lib.Exec

/-!
# Runs on files

A program that reads and writes whole files, on a file system where any operation may fail. How the
operations end is given in advance, by their number (`Outcome`): a write may be refused, and then
nothing is changed, or cut short, and then the file holds what was taken of it.

`commitAll` performs a list of writes up to the first that fails. A program that computes first and
writes afterwards is a list of commits, and what it leaves behind is read off that list.
-/

namespace Rust

abbrev Path := String

/-- The files, by their paths. -/
abbrev FileSystem := Path → Option (List UInt8)

/-- The files, with one of them written. -/
def FileSystem.set (files : FileSystem) (path : Path) (bytes : List UInt8) : FileSystem :=
  Function.update files path (some bytes)

@[simp] theorem FileSystem.set_self (files : FileSystem) (path : Path) (bytes : List UInt8) :
    files.set path bytes path = some bytes := Function.update_self ..

theorem FileSystem.set_of_ne (files : FileSystem) {path path' : Path} (h : path' ≠ path)
    (bytes : List UInt8) : files.set path bytes path' = files path' := Function.update_of_ne h ..

/-- How an operation ends. -/
inductive Outcome where
  | done : Outcome
  /-- nothing is changed -/
  | refused : String → Outcome
  /-- so many bytes are taken, and no more -/
  | cut : Nat → String → Outcome
  deriving DecidableEq, Repr

/-- The files and the number of operations there have been. -/
structure Disk where
  files : FileSystem
  operations : Nat

/-- A run on files. What it did stands, however it ends. -/
abbrev Session (ε α : Type) : Type := ExceptT (Fault ε) (StateM Disk) α

namespace Session

variable {ε ε' α β : Type}

/-- The result of a run and the disk it leaves. -/
def exec (x : Session ε α) (disk : Disk) : Exec ε α × Disk := x.run.run disk

def lift (x : Exec ε α) : Session ε α := ExceptT.mk fun disk => (x, disk)

def mapErr (f : ε → ε') (x : Session ε α) : Session ε' α :=
  ExceptT.mk fun disk => ((x.exec disk).1.mapErr f, (x.exec disk).2)

@[simp] theorem exec_pure (a : α) (disk : Disk) :
    exec (pure a : Session ε α) disk = (.ok a, disk) := rfl

@[simp] theorem exec_lift (x : Exec ε α) (disk : Disk) : exec (lift x) disk = (x, disk) := rfl

theorem exec_mapErr_of_ok {x : Session ε α} {a : α} {disk disk' : Disk}
    (h : x.exec disk = (.ok a, disk')) (f : ε → ε') : (x.mapErr f).exec disk = (.ok a, disk') := by
  change ((x.exec disk).1.mapErr f, (x.exec disk).2) = _
  rw [h]
  rfl

theorem exec_mapErr_of_error {x : Session ε α} {e : Fault ε} {disk disk' : Disk}
    (h : x.exec disk = (.error e, disk')) (f : ε → ε') :
    ∃ e', (x.mapErr f).exec disk = (.error e', disk') := by
  change ∃ e', ((x.exec disk).1.mapErr f, (x.exec disk).2) = _
  rw [h]
  rcases e with e | _ | _
  · exact ⟨_, rfl⟩
  · exact ⟨_, rfl⟩
  · exact ⟨_, rfl⟩

theorem exec_bind_of_ok {x : Session ε α} {a : α} {disk disk' : Disk}
    (h : x.exec disk = (.ok a, disk')) (f : α → Session ε β) :
    exec (x >>= f) disk = (f a).exec disk' := by
  change (x.exec disk >>= fun r => ExceptT.bindCont f r.1 r.2 : Id (Exec ε β × Disk)) = _
  rw [h]
  rfl

theorem exec_bind_of_error {x : Session ε α} {e : Fault ε} {disk disk' : Disk}
    (h : x.exec disk = (.error e, disk')) (f : α → Session ε β) :
    exec (x >>= f) disk = (.error e, disk') := by
  change (x.exec disk >>= fun r => ExceptT.bindCont f r.1 r.2 : Id (Exec ε β × Disk)) = _
  rw [h]
  rfl

end Session

/-! ## Reading and writing -/

variable (w : Width) (outcomes : Nat → Outcome)

/-- What reading a file returns. -/
def readResult (outcome : Outcome) (file : Option (List UInt8)) : Exec String (List UInt8) :=
  match outcome with
  | .done =>
    match file with
    -- a file that does not fit into memory is not read
    | some bytes => if w.Fits bytes.length then .ok bytes else Exec.fail "out of memory"
    | none => Exec.fail "No such file or directory (os error 2)"
  | .refused e => Exec.fail e
  | .cut _ e => Exec.fail e

/-- `fs::read`. -/
def readFile (path : Path) : Session String (List UInt8) :=
  ExceptT.mk fun disk =>
    (readResult w (outcomes disk.operations) (disk.files path),
      { disk with operations := disk.operations + 1 })

/-- The file can be read, as the `n`th operation. -/
def Reads (n : Nat) (files : FileSystem) (path : Path) (bytes : List UInt8) : Prop :=
  outcomes n = .done ∧ files path = some bytes ∧ w.Fits bytes.length

theorem exec_readFile {n : Nat} {files : FileSystem} {path : Path} {bytes : List UInt8}
    (h : Reads w outcomes n files path bytes) :
    (readFile w outcomes path).exec ⟨files, n⟩ = (.ok bytes, ⟨files, n + 1⟩) := by
  obtain ⟨hdone, hfile, hfits⟩ := h
  have hresult : readResult w (outcomes n) (files path) = .ok bytes := by
    rw [hdone, hfile]
    exact if_pos hfits
  exact congrArg (·, _) hresult

theorem exec_readFile_of_not {n : Nat} {files : FileSystem} {path : Path}
    (h : ¬ ∃ bytes, Reads w outcomes n files path bytes) :
    ∃ e, (readFile w outcomes path).exec ⟨files, n⟩ = (Exec.fail e, ⟨files, n + 1⟩) := by
  have hresult : ∃ e, readResult w (outcomes n) (files path) = Exec.fail e := by
    cases hout : outcomes n with
    | refused e => exact ⟨e, rfl⟩
    | cut taken e => exact ⟨e, rfl⟩
    | done =>
      cases hfile : files path with
      | none => exact ⟨_, rfl⟩
      | some bytes => exact ⟨_, if_neg fun hfits => h ⟨bytes, hout, hfile, hfits⟩⟩
  obtain ⟨e, he⟩ := hresult
  exact ⟨e, congrArg (·, _) he⟩

namespace Outcome

/-- What a write of so many bytes returns. -/
def result (outcome : Outcome) (length : Nat) : Exec String Unit :=
  match outcome with
  | done => .ok ()
  | refused e => Exec.fail e
  | cut taken e => if taken < length then Exec.fail e else .ok ()

/-- A write of so many bytes fails. -/
def blocks (outcome : Outcome) (length : Nat) : Prop :=
  match outcome with
  | done => False
  | refused _ => True
  | cut taken _ => taken < length

instance (outcome : Outcome) (length : Nat) : Decidable (outcome.blocks length) := by
  cases outcome
  · exact inferInstanceAs (Decidable False)
  · exact inferInstanceAs (Decidable True)
  · exact inferInstanceAs (Decidable (_ < _))

/-- The files after a write. -/
def apply (outcome : Outcome) (files : FileSystem) (path : Path) (bytes : List UInt8) :
    FileSystem :=
  match outcome with
  | done => files.set path bytes
  | refused _ => files
  | cut taken _ => files.set path (bytes.take taken)

/-- What a file holds after a write. -/
def left (outcome : Outcome) (file : Option (List UInt8)) (bytes : List UInt8) :
    Option (List UInt8) :=
  match outcome with
  | done => some bytes
  | refused _ => file
  | cut taken _ => some (bytes.take taken)

theorem result_of_blocks {outcome : Outcome} {length : Nat} (h : outcome.blocks length) :
    ∃ e, outcome.result length = Exec.fail e := by
  cases outcome with
  | done => cases h
  | refused e => exact ⟨e, rfl⟩
  | cut taken e => exact ⟨e, if_pos h⟩

theorem result_of_not_blocks {outcome : Outcome} {length : Nat} (h : ¬ outcome.blocks length) :
    outcome.result length = .ok () := by
  cases outcome with
  | done => rfl
  | refused e => exact absurd trivial h
  | cut taken e => exact if_neg h

theorem apply_of_not_blocks {outcome : Outcome} {bytes : List UInt8}
    (h : ¬ outcome.blocks bytes.length) (files : FileSystem) (path : Path) :
    outcome.apply files path bytes = files.set path bytes := by
  cases outcome with
  | done => rfl
  | refused e => exact absurd trivial h
  | cut taken e => rw [apply, List.take_of_length_le (Nat.le_of_not_lt h)]

/-- A write to a path leaves the other files alone. -/
theorem apply_of_ne (outcome : Outcome) (files : FileSystem) {path path' : Path}
    (h : path' ≠ path) (bytes : List UInt8) :
    outcome.apply files path bytes path' = files path' := by
  cases outcome with
  | done => exact files.set_of_ne h _
  | refused e => rfl
  | cut taken e => exact files.set_of_ne h _

@[simp] theorem apply_self (outcome : Outcome) (files : FileSystem) (path : Path)
    (bytes : List UInt8) :
    outcome.apply files path bytes path = outcome.left (files path) bytes := by
  cases outcome with
  | done => exact files.set_self ..
  | refused e => rfl
  | cut taken e => exact files.set_self ..

end Outcome

/-- `fs::write`: the file is emptied, then written. -/
def writeFile (path : Path) (bytes : List UInt8) : Session String Unit :=
  ExceptT.mk fun disk =>
    ((outcomes disk.operations).result bytes.length,
      { files := (outcomes disk.operations).apply disk.files path bytes,
        operations := disk.operations + 1 })

/-! ## Commits -/

/-- A file to be written, and what its error is to say. -/
structure Commit where
  path : Path
  bytes : List UInt8
  context : String → String

/-- Write one file. -/
def commit (c : Commit) : Session String Unit :=
  (writeFile outcomes c.path c.bytes).mapErr c.context

/-- Write files, up to the first that fails. -/
def commitAll : List Commit → Session String Unit
  | [] => pure ()
  | c :: cs => do
    commit outcomes c
    commitAll cs

/-- The disk after a write. -/
def Commit.after (c : Commit) (disk : Disk) : Disk where
  files := (outcomes disk.operations).apply disk.files c.path c.bytes
  operations := disk.operations + 1

variable {outcomes}

/-- What the written file holds. -/
theorem Commit.files_after (c : Commit) (disk : Disk) :
    (c.after outcomes disk).files c.path =
      (outcomes disk.operations).left (disk.files c.path) c.bytes := Outcome.apply_self ..

theorem exec_commit (outcomes : Nat → Outcome) (c : Commit) (disk : Disk) :
    (commit outcomes c).exec disk =
      (((outcomes disk.operations).result c.bytes.length).mapErr c.context,
        c.after outcomes disk) := rfl

theorem exec_commitAll_of_blocks {c : Commit} (disk : Disk)
    (h : (outcomes disk.operations).blocks c.bytes.length) (cs : List Commit) :
    ∃ e, (commitAll outcomes (c :: cs)).exec disk = (Exec.fail e, c.after outcomes disk) := by
  obtain ⟨e, he⟩ := Outcome.result_of_blocks h
  have hcommit := exec_commit outcomes c disk
  rw [he] at hcommit
  exact ⟨c.context e, Session.exec_bind_of_error hcommit _⟩

theorem exec_commitAll_of_not_blocks {c : Commit} (disk : Disk)
    (h : ¬ (outcomes disk.operations).blocks c.bytes.length) (cs : List Commit) :
    (commitAll outcomes (c :: cs)).exec disk =
      (commitAll outcomes cs).exec (c.after outcomes disk) := by
  have hcommit := exec_commit outcomes c disk
  rw [Outcome.result_of_not_blocks h] at hcommit
  exact Session.exec_bind_of_ok hcommit _

/-- **All or a prefix**: when all the writes are done the files are as written, in order. -/
theorem files_of_commitAll {cs : List Commit} {disk disk' : Disk}
    (h : (commitAll outcomes cs).exec disk = (.ok (), disk')) :
    disk'.files =
      cs.foldl (fun files c => files.set c.path c.bytes) disk.files := by
  induction cs generalizing disk with
  | nil =>
    cases h
    rfl
  | cons c cs ih =>
    by_cases hblocks : (outcomes disk.operations).blocks c.bytes.length
    · obtain ⟨e, he⟩ := exec_commitAll_of_blocks _ hblocks cs
      rw [he] at h
      cases h
    · rw [exec_commitAll_of_not_blocks _ hblocks] at h
      rw [ih h, Commit.after, Outcome.apply_of_not_blocks hblocks, List.foldl_cons]

/-- The writes that begin as the `n`th operation get as far as the `i`th of them, which fails. -/
def StopsAt (outcomes : Nat → Outcome) : Nat → List Commit → Nat → Prop
  | _, [], _ => False
  | n, c :: _, 0 => (outcomes n).blocks c.bytes.length
  | n, c :: cs, i + 1 => ¬ (outcomes n).blocks c.bytes.length ∧ StopsAt outcomes (n + 1) cs i

/-- What the writes leave when they get as far as the `i`th of them. -/
def leftAt (outcomes : Nat → Outcome) : Nat → List Commit → Nat → FileSystem → FileSystem
  | _, [], _, files => files
  | n, c :: _, 0, files => (outcomes n).apply files c.path c.bytes
  | n, c :: cs, i + 1, files => leftAt outcomes (n + 1) cs i (files.set c.path c.bytes)

theorem StopsAt.unique {n : Nat} {cs : List Commit} {i j : Nat}
    (hi : StopsAt outcomes n cs i) (hj : StopsAt outcomes n cs j) : i = j := by
  induction cs generalizing n i j with
  | nil => simp only [StopsAt] at hi
  | cons c cs ih =>
    cases i with
    | zero =>
      cases j with
      | zero => rfl
      | succ j => exact absurd hi hj.1
    | succ i =>
      cases j with
      | zero => exact absurd hj hi.1
      | succ j => rw [ih hi.2 hj.2]

/-- **A run of writes that fails stops at one of them**, and what it leaves is known. -/
theorem stopsAt_of_commitAll {cs : List Commit} {n : Nat} {files : FileSystem} {e : Fault String}
    {disk : Disk} (h : (commitAll outcomes cs).exec ⟨files, n⟩ = (.error e, disk)) :
    ∃ i, StopsAt outcomes n cs i ∧ disk.files = leftAt outcomes n cs i files := by
  induction cs generalizing n files with
  | nil => cases h
  | cons c cs ih =>
    by_cases hblocks : (outcomes n).blocks c.bytes.length
    · obtain ⟨e', he'⟩ := exec_commitAll_of_blocks ⟨files, n⟩ hblocks cs
      rw [he'] at h
      obtain ⟨-, rfl⟩ := Prod.mk.inj h
      exact ⟨0, hblocks, rfl⟩
    · rw [exec_commitAll_of_not_blocks _ hblocks, Commit.after,
        Outcome.apply_of_not_blocks hblocks] at h
      obtain ⟨i, hi, hfiles⟩ := ih h
      exact ⟨i + 1, ⟨hblocks, hi⟩, hfiles⟩

/-! ## Writes that are repeated -/

/-- All of the writes that begin as the `n`th operation are done. -/
def Completes (outcomes : Nat → Outcome) : Nat → List Commit → Prop
  | _, [] => True
  | n, c :: cs => ¬ (outcomes n).blocks c.bytes.length ∧ Completes outcomes (n + 1) cs

/-- A run of writes succeeds when all of them are done, whatever the files are. -/
theorem exec_commitAll_eq_ok {cs : List Commit} {disk disk' : Disk} :
    (commitAll outcomes cs).exec disk = (.ok (), disk') ↔
      Completes outcomes disk.operations cs ∧ disk' =
        { files := cs.foldl (fun files c => files.set c.path c.bytes) disk.files
          operations := disk.operations + cs.length } := by
  induction cs generalizing disk with
  | nil =>
    refine ⟨?_, ?_⟩
    · rintro ⟨⟩
      exact ⟨trivial, rfl⟩
    · rintro ⟨-, rfl⟩
      rfl
  | cons c cs ih =>
    by_cases hblocks : (outcomes disk.operations).blocks c.bytes.length
    · obtain ⟨e, he⟩ := exec_commitAll_of_blocks _ hblocks cs
      rw [he]
      refine iff_of_false (fun h => ?_) (fun h => h.1.1 hblocks)
      cases h
    · rw [exec_commitAll_of_not_blocks _ hblocks, ih, Commit.after,
        Outcome.apply_of_not_blocks hblocks, List.foldl_cons, List.length_cons, Completes,
        and_iff_right hblocks, Nat.add_assoc, Nat.add_comm 1]

/-- Writes that are not refused are done. -/
theorem completes_done (n : Nat) (cs : List Commit) : Completes (fun _ => .done) n cs := by
  induction cs generalizing n with
  | nil => trivial
  | cons c cs ih => exact ⟨id, ih (n + 1)⟩

/-- **What becomes of a file**: it is as it was, or it holds a prefix of what was to be written. -/
theorem commitAll_traces {cs : List Commit} {disk disk' : Disk} {r : Exec String Unit}
    (h : (commitAll outcomes cs).exec disk = (r, disk')) (path : Path) :
    disk'.files path = disk.files path ∨
      ∃ c ∈ cs, c.path = path ∧ ∃ bytes, disk'.files path = some bytes ∧ bytes <+: c.bytes := by
  have hleft : ∀ (outcome : Outcome) (file : Option (List UInt8)) (c : Commit),
      outcome.left file c.bytes = file ∨
        ∃ bytes, outcome.left file c.bytes = some bytes ∧ bytes <+: c.bytes := by
    intro outcome file c
    cases outcome with
    | done => exact .inr ⟨_, rfl, List.prefix_rfl⟩
    | refused e => exact .inl rfl
    | cut taken e => exact .inr ⟨_, rfl, List.take_prefix taken c.bytes⟩
  induction cs generalizing disk with
  | nil =>
    cases h
    exact .inl rfl
  | cons c cs ih =>
    have hafter : (c.after outcomes disk).files path = disk.files path ∨ c.path = path ∧
        ∃ bytes, (c.after outcomes disk).files path = some bytes ∧ bytes <+: c.bytes := by
      by_cases hpath : path = c.path
      · subst hpath
        rw [Commit.files_after]
        exact (hleft _ _ c).imp_right fun hbytes => ⟨rfl, hbytes⟩
      · exact .inl (Outcome.apply_of_ne _ _ hpath _)
    by_cases hblocks : (outcomes disk.operations).blocks c.bytes.length
    · obtain ⟨e, he⟩ := exec_commitAll_of_blocks _ hblocks cs
      rw [he] at h
      obtain ⟨-, rfl⟩ := Prod.mk.inj h
      exact hafter.imp_right fun hbytes => ⟨c, List.mem_cons_self, hbytes⟩
    · rw [exec_commitAll_of_not_blocks _ hblocks] at h
      rcases ih h with hsame | ⟨c', hc', hbytes⟩
      · rw [hsame]
        exact hafter.imp_right fun hbytes => ⟨c, List.mem_cons_self, hbytes⟩
      · exact .inr ⟨c', List.mem_cons_of_mem c hc', hbytes⟩

/-- Files that differ only where they are written are the same afterwards. -/
theorem foldl_set_congr {cs : List Commit} {files files' : FileSystem}
    (h : ∀ path, (∀ c ∈ cs, c.path ≠ path) → files path = files' path) :
    cs.foldl (fun files c => files.set c.path c.bytes) files =
      cs.foldl (fun files c => files.set c.path c.bytes) files' := by
  induction cs generalizing files files' with
  | nil => exact funext fun path => h path nofun
  | cons c cs ih =>
    refine ih fun path hpath => ?_
    dsimp only
    by_cases hsame : path = c.path
    · subst hsame
      rw [FileSystem.set_self, FileSystem.set_self]
    · rw [FileSystem.set_of_ne _ hsame, FileSystem.set_of_ne _ hsame]
      exact h path (List.forall_mem_cons.mpr ⟨Ne.symm hsame, hpath⟩)

end Rust
