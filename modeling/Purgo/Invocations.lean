import Purgo.CliWrites
import Purgo.Lib.Simulation

/-!
# Invocations of the command line

The files outlive a run, and what one run leaves the next one finds. Here are sequences of runs,
each with arguments and failures of its own: whatever a file holds after them it held before, or it
is a prefix of what one of the runs had to write there, disarmed (`provenance`).

A run that fails may leave files half written. It can be repeated as often as it takes: as long as
it does not write to what it reads, the first attempt that succeeds leaves what it would have left
had it been the first of all (`retry_recovers`).
-/

namespace Purgo

open Rust Simulation

/-- What the process returns to the shell. -/
abbrev ExitCode := UInt8

namespace ExitCode

/-- The files are written, or the user asked for help. -/
def success : ExitCode := 0
/-- The run stopped at an error, which was displayed. -/
def failure : ExitCode := 1
/-- The arguments are wrong, and no file was touched. -/
def usage : ExitCode := 2

end ExitCode

/-- `main`, with the files it leaves. What it prints is left out. -/
def main (w : Width) (C : Crates) (outcomes : Nat → Outcome) (args : List String)
    (files : FileSystem) : Exec Empty ExitCode × FileSystem :=
  match parse args with
  | .error .help => (.ok ExitCode.success, files)
  | .error _ => (.ok ExitCode.usage, files)
  | .ok args =>
    let ended := (run w C outcomes args).exec ⟨files, 0⟩
    match ended.1 with
    | .ok () => (.ok ExitCode.success, ended.2.files)
    | .error (.error _) => (.ok ExitCode.failure, ended.2.files)
    | .error .panic => (.error .panic, ended.2.files)
    | .error .outOfFuel => (.error .outOfFuel, ended.2.files)

variable {w : Width} {C : Crates} {outcomes : Nat → Outcome}

/-! ## The paths of a run -/

/-- The run may write to the path. -/
def Args.Writes (args : Args) (path : Path) : Prop :=
  (args.sign ≠ none ∧
    (siblingPath args.output ".sig" = path ∨ siblingPath args.output ".pub" = path)) ∨
  args.output = path ∨ args.report = some path

/-- The run does not write to what it reads. -/
def Args.Apart (args : Args) : Prop :=
  ¬ args.Writes args.input ∧ ∀ keyPath, args.sign = some keyPath → ¬ args.Writes keyPath

/-- A prepared run writes to all of its paths, and to no others. -/
theorem Prepared.writes_iff {args : Args} {files : FileSystem} {receipt : DisarmReceipt}
    {seed : Option (Vector UInt8 32)} (h : Prepared w C outcomes args files receipt seed)
    (path : Path) : (∃ c ∈ plan C args receipt seed, c.path = path) ↔ args.Writes path := by
  have hreport : (∃ c ∈ reportFile args receipt, c.path = path) ↔ args.report = some path := by
    rw [reportFile]
    cases args.report with
    | none => simp
    | some path' => simp [outputFile]
  have hsigned : (∃ c ∈ seed.toList.flatMap (signatureFiles C args receipt), c.path = path) ↔
      args.sign ≠ none ∧
        (siblingPath args.output ".sig" = path ∨ siblingPath args.output ".pub" = path) := by
    rw [ne_eq, ← h.seed_eq_none_iff]
    cases seed with
    | none => simp
    | some key => simp [signatureFiles, outputFile]
  simp only [plan, List.mem_append, List.mem_cons, or_and_right, exists_or, hsigned, hreport,
    exists_eq_left]
  rfl

/-- A run depends on the files through what it reads. -/
theorem Prepared.congr {args : Args} {files files' : FileSystem} {receipt : DisarmReceipt}
    {seed : Option (Vector UInt8 32)} (h : Prepared w C outcomes args files receipt seed)
    (hinput : files' args.input = files args.input)
    (hkey : ∀ keyPath, args.sign = some keyPath → files' keyPath = files keyPath) :
    Prepared w C outcomes args files' receipt seed where
  receipt := by
    obtain ⟨bytes, ⟨hdone, hfile, hfits⟩, hexecute⟩ := h.receipt
    exact ⟨bytes, ⟨hdone, hinput.trans hfile, hfits⟩, hexecute⟩
  unsigned := h.unsigned
  signed keyPath hsign := by
    obtain ⟨key, hseed, hdone, hfile, hfits⟩ := h.signed keyPath hsign
    exact ⟨key, hseed, hdone, (hkey keyPath hsign).trans hfile, hfits⟩

/-! ## One run -/

/-- A run that succeeds is one that is prepared and performs all of its plan. -/
theorem exec_run_eq_ok_iff {args : Args} {files : FileSystem} {disk : Disk} :
    (run w C outcomes args).exec ⟨files, 0⟩ = (.ok (), disk) ↔
      ∃ receipt seed, Prepared w C outcomes args files receipt seed ∧
        Completes outcomes (1 + seed.toList.length) (plan C args receipt seed) ∧
        disk = {
          files := (plan C args receipt seed).foldl (fun files c => files.set c.path c.bytes) files
          operations := 1 + seed.toList.length + (plan C args receipt seed).length } := by
  by_cases hprepared : ∃ receipt seed, Prepared w C outcomes args files receipt seed
  · obtain ⟨receipt, seed, hprepared⟩ := hprepared
    rw [exec_run hprepared, exec_commitAll_eq_ok]
    refine ⟨fun h => ⟨receipt, seed, hprepared, h⟩, ?_⟩
    rintro ⟨receipt', seed', hprepared', h⟩
    obtain ⟨rfl, rfl⟩ := hprepared.unique hprepared'
    exact h
  · obtain ⟨e, n, he⟩ := exec_run_of_not hprepared
    rw [he]
    refine iff_of_false (fun h => ?_) ?_
    · cases h
    · rintro ⟨receipt, seed, h, -⟩
      exact hprepared ⟨receipt, seed, h⟩

/-- What a file holds after a run it held before, or the run was prepared to write it. -/
theorem exec_run_traces {args : Args} {files : FileSystem} {r : Exec String Unit} {disk : Disk}
    (h : (run w C outcomes args).exec ⟨files, 0⟩ = (r, disk)) (path : Path) :
    disk.files path = files path ∨
      ∃ receipt seed, Prepared w C outcomes args files receipt seed ∧
        ∃ c ∈ plan C args receipt seed, c.path = path ∧
          ∃ bytes, disk.files path = some bytes ∧ bytes <+: c.bytes := by
  by_cases hprepared : ∃ receipt seed, Prepared w C outcomes args files receipt seed
  · obtain ⟨receipt, seed, hprepared⟩ := hprepared
    rw [exec_run hprepared] at h
    exact (commitAll_traces h path).imp_right fun hwritten => ⟨receipt, seed, hprepared, hwritten⟩
  · obtain ⟨e, n, he⟩ := exec_run_of_not hprepared
    rw [he] at h
    cases h
    exact .inl rfl

/-- What `main` leaves is what it found, or what the run left. -/
theorem main_files {argv : List String} {files left : FileSystem}
    (h : (main w C outcomes argv files).2 = left) :
    left = files ∨ ∃ args r disk, parse argv = .ok args ∧
      (run w C outcomes args).exec ⟨files, 0⟩ = (r, disk) ∧ left = disk.files := by
  subst h
  rw [main]
  rcases parse argv with e | args
  · cases e <;> exact .inl rfl
  · refine .inr ⟨args, _, _, rfl, rfl, ?_⟩
    dsimp only
    rcases ((run w C outcomes args).exec ⟨files, 0⟩).1 with (e | _ | _) | _ <;> rfl

/-- `main` reports success when it was asked for help, or when the run succeeds. -/
theorem main_eq_success {argv : List String} {files left : FileSystem} :
    main w C outcomes argv files = (.ok ExitCode.success, left) ↔
      (parse argv = .error .help ∧ left = files) ∨
        ∃ args disk, parse argv = .ok args ∧
          (run w C outcomes args).exec ⟨files, 0⟩ = (.ok (), disk) ∧ left = disk.files := by
  have hcode : ExitCode.usage ≠ ExitCode.success ∧ ExitCode.failure ≠ ExitCode.success := by decide
  rw [main]
  rcases parse argv with e | args
  · cases e with
    | help => simp [eq_comm]
    | missing what => simp [hcode.1]
    | unexpected arg => simp [hcode.1]
  · dsimp only
    rcases hrun : (run w C outcomes args).exec ⟨files, 0⟩ with ⟨(e | _ | _) | _, disk⟩
    · simp [hrun, hcode.2]
    · simp [hrun]
    · simp [hrun]
    · simp [hrun, eq_comm]

/-! ## Sequences of runs -/

/-- A run of the command line: its arguments, and how its operations end. -/
structure Invocation where
  args : List String
  outcomes : Nat → Outcome

/-- What the invocation makes of the files. -/
def Invocation.Leaves (w : Width) (C : Crates) (i : Invocation) (files files' : FileSystem) :
    Prop :=
  (main w C i.outcomes i.args files).2 = files'

/-- A signed run without a report. -/
def sampleArgv : List String := ["in.png", "-o", "out.png", "-s", "key"]

/-- **Whatever a file holds was put there by a run that disarmed it**: after any sequence of
invocations a file is as it was at first, or one of the invocations was prepared to write it, with
the files it found, and the file holds a prefix of what was planned. -/
theorem provenance (w : Width) (C : Crates) (invocations : List Invocation)
    (files files' : FileSystem) (h : Trace (Invocation.Leaves w C) invocations files files')
    (path : Path) :
    files' path = files path ∨
      ∃ before i after found args receipt seed, invocations = before ++ i :: after ∧
        Trace (Invocation.Leaves w C) before files found ∧ parse i.args = .ok args ∧
        Prepared w C i.outcomes args found receipt seed ∧
        ∃ c ∈ plan C args receipt seed, c.path = path ∧
          ∃ bytes, files' path = some bytes ∧ bytes <+: c.bytes := by
  rcases h.last_change fun files => files path with hsame |
    ⟨before, i, after, found, left, hsplit, hbefore, hstep, hne, hlast⟩
  · exact .inl hsame
  · rcases main_files hstep with rfl | ⟨args, r, disk, hparse, hrun, rfl⟩
    · exact absurd rfl hne
    · rcases exec_run_traces hrun path with hsame |
        ⟨receipt, seed, hprepared, c, hc, hpath, bytes, hbytes, hprefix⟩
      · exact absurd hsame hne
      · exact .inr ⟨before, i, after, found, args, receipt, seed, hsplit, hbefore, hparse,
          hprepared, c, hc, hpath, bytes, hlast.trans hbytes, hprefix⟩

/-- A run, and another one that the disk is full for when it writes the clean file. -/
def sampleInvocations : List Invocation :=
  [⟨sampleArgv, fun _ => .done⟩,
    ⟨sampleArgv, fun n => if n = 4 then .cut 3 "disk full" else .done⟩]

/-- What is left of the clean file was put there by one of the two runs. -/
theorem provenance_sample :
    ∃ left, Trace (Invocation.Leaves .w64 sampleCrates) sampleInvocations sampleFiles left ∧
      left "out.png" = some [0x89, 0x50, 0x4E] ∧
      ∃ before i after found args receipt seed, sampleInvocations = before ++ i :: after ∧
        Trace (Invocation.Leaves .w64 sampleCrates) before sampleFiles found ∧
        parse i.args = .ok args ∧
        Prepared .w64 sampleCrates i.outcomes args found receipt seed ∧
        ∃ c ∈ plan sampleCrates args receipt seed, c.path = "out.png" ∧
          ∃ bytes, left "out.png" = some bytes ∧ bytes <+: c.bytes := by
  have hruns : ∃ left, Trace (Invocation.Leaves .w64 sampleCrates) sampleInvocations sampleFiles
      left ∧ left "out.png" = some [0x89, 0x50, 0x4E] := ⟨_, .cons rfl (.cons rfl .nil), rfl⟩
  obtain ⟨left, htrace, htorn⟩ := hruns
  refine ⟨left, htrace, htorn, ?_⟩
  rcases provenance .w64 sampleCrates sampleInvocations sampleFiles left htrace "out.png" with
    hsame | hwritten
  · -- there was no such file at first
    have hnone : sampleFiles "out.png" = none := rfl
    rw [hsame, hnone] at htorn
    cases htorn
  · exact hwritten

/-! ## Runs that are repeated -/

/-- A run that does not write to what it reads leaves the files that the next one depends on. -/
theorem Args.Apart.prepared_iff {args : Args} (h : args.Apart) {files files' : FileSystem}
    (hsame : ∀ path, ¬ args.Writes path → files' path = files path) {receipt : DisarmReceipt}
    {seed : Option (Vector UInt8 32)} :
    Prepared w C outcomes args files' receipt seed ↔
      Prepared w C outcomes args files receipt seed := by
  have hinput := hsame _ h.1
  have hkey := fun keyPath hsign => hsame keyPath (h.2 keyPath hsign)
  exact ⟨fun hp => hp.congr hinput.symm fun keyPath hsign => (hkey keyPath hsign).symm,
    fun hp => hp.congr hinput hkey⟩

/-- Files that differ only where a run writes make no difference to a run that succeeds. -/
theorem exec_run_congr {args : Args} (h : args.Apart) {files files' : FileSystem}
    (hsame : ∀ path, ¬ args.Writes path → files' path = files path) (disk : Disk) :
    (run w C outcomes args).exec ⟨files', 0⟩ = (.ok (), disk) ↔
      (run w C outcomes args).exec ⟨files, 0⟩ = (.ok (), disk) := by
  rw [exec_run_eq_ok_iff, exec_run_eq_ok_iff]
  refine exists_congr fun receipt => exists_congr fun seed => ?_
  rw [h.prepared_iff hsame]
  refine and_congr_right fun hprepared => and_congr_right fun _ => ?_
  rw [foldl_set_congr fun path hpath => hsame path fun hwrites => ?_]
  obtain ⟨c, hc, hcpath⟩ := (hprepared.writes_iff path).mpr hwrites
  exact hpath c hc hcpath

/-- What a run does not write to it leaves alone. -/
theorem main_frame {argv : List String} {files left : FileSystem}
    (h : (main w C outcomes argv files).2 = left) {path : Path}
    (hpath : ∀ args, parse argv = .ok args → ¬ args.Writes path) : left path = files path := by
  rcases main_files h with rfl | ⟨args, r, disk, hparse, hrun, rfl⟩
  · rfl
  · rcases exec_run_traces hrun path with hsame | ⟨receipt, seed, hprepared, c, hc, hcpath, -⟩
    · exact hsame
    · exact absurd ((hprepared.writes_iff path).mp ⟨c, hc, hcpath⟩) (hpath args hparse)

/-- **A command can be repeated until it succeeds**: when it does not write to what it reads, an
attempt after any number of others, however they ended, reports success exactly when it would have
at first, and leaves what it would have left. -/
theorem retry_recovers (w : Width) (C : Crates) (argv : List String)
    (hapart : ∀ args, parse argv = .ok args → args.Apart) (attempts : List (Nat → Outcome))
    (files files' : FileSystem)
    (h : Trace (fun outcomes => Invocation.Leaves w C ⟨argv, outcomes⟩) attempts files files')
    (outcomes : Nat → Outcome) (left : FileSystem) :
    main w C outcomes argv files' = (.ok ExitCode.success, left) ↔
      main w C outcomes argv files = (.ok ExitCode.success, left) := by
  let P : FileSystem → Prop := fun found =>
    ∀ path, (∀ args, parse argv = .ok args → ¬ args.Writes path) → found path = files path
  have hsame : P files' := by
    refine h.invariant (P := P) (fun _ _ found found' hfound hleaves => ?_) fun _ _ => rfl
    intro path hpath
    exact (main_frame hleaves hpath).trans (hfound path hpath)
  rw [main_eq_success, main_eq_success]
  cases hparse : parse argv with
  | error e =>
    obtain rfl : files' = files := funext fun path => hsame path (by simp [hparse])
    rfl
  | ok args =>
    have hcongr : ∀ disk, (run w C outcomes args).exec ⟨files', 0⟩ = (.ok (), disk) ↔
        (run w C outcomes args).exec ⟨files, 0⟩ = (.ok (), disk) :=
      exec_run_congr (hapart args hparse) fun path hpath =>
        hsame path (by simpa [hparse] using hpath)
    simp only [reduceCtorEq, false_and, false_or, Except.ok.injEq, exists_and_left,
      exists_eq_left', hcongr]

/-- The disk is full for the first attempt, which leaves three bytes of the signature. -/
theorem retry_recovers_sample :
    ∃ torn left, Invocation.Leaves .w64 sampleCrates
        ⟨sampleArgv, fun n => if n = 2 then .cut 3 "disk full" else .done⟩ sampleFiles torn ∧
      torn "out.png.sig" = some [30, 200, 213] ∧
      main .w64 sampleCrates (fun _ => .done) sampleArgv sampleFiles =
        (.ok ExitCode.success, left) ∧
      main .w64 sampleCrates (fun _ => .done) sampleArgv torn =
        (.ok ExitCode.success, left) := by
  have hmain : main .w64 sampleCrates (fun _ => .done) sampleArgv sampleFiles =
      (.ok ExitCode.success, _) := Prod.ext rfl rfl
  refine ⟨_, _, rfl, rfl, hmain, (retry_recovers .w64 sampleCrates sampleArgv ?_
    [fun n => if n = 2 then .cut 3 "disk full" else .done] _ _ (.cons rfl .nil) _ _).mpr hmain⟩
  intro args hparse
  obtain rfl : sampleArgs none = args := Except.ok.inj hparse
  refine ⟨?_, ?_⟩
  · simp [Args.Writes, sampleArgs, siblingPath]
  · simp [Args.Writes, sampleArgs, siblingPath]

end Purgo
