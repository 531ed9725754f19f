import Purgo.CliWrites

/-!
# A run of the command line that fails

The signature is written first, and what it signs comes two writes later. A run that stops in
between leaves a signature with no file to it, or with another one. So nothing but the place where
a run stops says whether what stands beside the output attests it: `Harmless` goes through the
places, and `failed_run_attests` is that there is no other condition.
-/

namespace Purgo

open Rust

variable {w : Width} {C : Crates} {outcomes : Nat → Outcome}

/-- The paths that the user names. -/
def Args.paths (args : Args) : List Path :=
  [args.input, args.output] ++ args.report.toList ++ args.sign.toList

/-- Where the signature goes. -/
def Args.sigPath (args : Args) : Path := siblingPath args.output ".sig"

/-- The signature is as it was, or it is that of the output, under the key of the key file. -/
def Attested (E : Ed25519) (args : Args) (before after : FileSystem) : Prop :=
  after args.sigPath = before args.sigPath ∨
    ∃ keyPath key signed, args.sign = some keyPath ∧
      before keyPath = some (key : Vector UInt8 32).toList ∧ after args.output = some signed ∧
      after args.sigPath = some (E.sign key signed).toList

/-- When the `i`th write of the plan fails, it does no harm. -/
def Harmless (E : Ed25519) (args : Args) (receipt : DisarmReceipt) (files : FileSystem)
    (outcome : Outcome) : Option (Vector UInt8 32) → Nat → Prop
  -- the signature: nothing is written, or what was there already
  | some key, 0 =>
    outcome.left (files args.sigPath) (E.sign key receipt.clean.bytes).toList = files args.sigPath
  -- the public key: the signature was there already, or it is also that of the output
  | some key, 1 =>
    files args.sigPath = some (E.sign key receipt.clean.bytes).toList ∨
      ∃ signed, files args.output = some signed ∧ E.sign key signed = E.sign key receipt.clean.bytes
  -- the output: likewise, with what is written of it
  | some key, 2 =>
    files args.sigPath = some (E.sign key receipt.clean.bytes).toList ∨
      ∃ signed, outcome.left (files args.output) receipt.clean.bytes = some signed ∧
        E.sign key signed = E.sign key receipt.clean.bytes
  -- the report: only when it goes over the signature
  | some key, _ + 3 =>
    args.report = some args.sigPath →
      outcome.left (some (E.sign key receipt.clean.bytes).toList)
          (asBytes (reportToJson receipt.report)) = files args.sigPath ∨
        outcome.left (some (E.sign key receipt.clean.bytes).toList)
          (asBytes (reportToJson receipt.report)) = some (E.sign key receipt.clean.bytes).toList
  | none, 0 => True
  | none, _ + 1 =>
    args.report = some args.sigPath →
      outcome.left (files args.sigPath) (asBytes (reportToJson receipt.report)) =
        files args.sigPath

/-! ## What is attested -/

/-- The signature stands beside the output, not over it. -/
theorem Args.sigPath_ne (args : Args) : args.sigPath ≠ args.output :=
  siblingPath_ne _ (by decide)

/-- The report does not go over the output when the paths are distinct. -/
theorem Args.report_ne {args : Args} (h : args.paths.Nodup) {path : Path}
    (hreport : args.report = some path) : path ≠ args.output := by
  rw [Args.paths, hreport] at h
  rintro rfl
  simp at h

/-- Without a key, an attested signature is one that was not touched. -/
theorem attested_of_unsigned {E : Ed25519} {args : Args} (hsign : args.sign = none)
    (before after : FileSystem) :
    Attested E args before after ↔ after args.sigPath = before args.sigPath := by
  refine ⟨?_, .inl⟩
  rintro (h | ⟨keyPath, key, signed, hkeyPath, -⟩)
  · exact h
  · rw [hsign] at hkeyPath
    cases hkeyPath

/-- With a key, an attested signature is untouched or is that of the output. -/
theorem attested_of_signed {E : Ed25519} {args : Args} {keyPath : Path} {key : Vector UInt8 32}
    {before : FileSystem} (hsign : args.sign = some keyPath)
    (hkey : before keyPath = some key.toList) (after : FileSystem) :
    Attested E args before after ↔ after args.sigPath = before args.sigPath ∨
      ∃ signed, after args.output = some signed ∧
        after args.sigPath = some (E.sign key signed).toList := by
  refine or_congr_right ⟨?_, ?_⟩
  · rintro ⟨keyPath', key', signed, hsign', hkey', hsigned⟩
    obtain rfl := Option.some.inj (hsign.symm.trans hsign')
    obtain rfl := Vector.toList_inj.mp (Option.some.inj (hkey.symm.trans hkey'))
    exact ⟨signed, hsigned⟩
  · rintro ⟨signed, hsigned⟩
    exact ⟨keyPath, key, signed, hsign, hkey, hsigned⟩

/-- A signature that is cut short is none. -/
theorem left_eq_of_eq_sign {outcome : Outcome} {file : Option (List UInt8)} {s : Vector UInt8 64}
    (hblocks : outcome.blocks 64) {s' : Vector UInt8 64}
    (h : outcome.left file s.toList = some s'.toList) : outcome.left file s.toList = file := by
  cases outcome with
  | done => cases hblocks
  | refused e => rfl
  | cut taken e =>
    have hlength := congrArg List.length (Option.some.inj h)
    rw [List.length_take, Vector.length_toList, Vector.length_toList] at hlength
    have hshort : taken < 64 := hblocks
    omega

/-- A fresh signature was there already, or it is that of the output. -/
theorem fresh_signature_iff {E : Ed25519} {key : Vector UInt8 32} {s : Vector UInt8 64}
    {before output : Option (List UInt8)} :
    (some s.toList = before ∨
      ∃ signed, output = some signed ∧ some s.toList = some (E.sign key signed).toList) ↔
    before = some s.toList ∨ ∃ signed, output = some signed ∧ E.sign key signed = s := by
  simp only [Option.some.injEq, Vector.toList_inj, eq_comm]

/-! ## Where a run stops -/

/-- The report touches the signature only when that is its path. -/
theorem leftAt_reportFile {args : Args} (hpaths : args.paths.Nodup) {receipt : DisarmReceipt}
    {n i : Nat} (hstops : StopsAt outcomes n (reportFile args receipt) i) (files : FileSystem) :
    leftAt outcomes n (reportFile args receipt) i files args.output = files args.output ∧
      (args.report = some args.sigPath →
        leftAt outcomes n (reportFile args receipt) i files args.sigPath =
          (outcomes (n + i)).left (files args.sigPath) (asBytes (reportToJson receipt.report))) ∧
      (args.report ≠ some args.sigPath →
        leftAt outcomes n (reportFile args receipt) i files args.sigPath = files args.sigPath) := by
  cases hreport : args.report with
  | none =>
    rw [reportFile, hreport] at hstops
    cases i <;> cases hstops
  | some path =>
    have hne := args.report_ne hpaths hreport
    rw [reportFile, hreport] at hstops ⊢
    cases i with
    | succ i =>
      have hnil := hstops.2
      cases i <;> cases hnil
    | zero =>
      refine ⟨Outcome.apply_of_ne _ _ hne.symm _, fun heq => ?_, fun hne' => ?_⟩
      · obtain rfl := Option.some.inj heq
        exact Outcome.apply_self ..
      · exact Outcome.apply_of_ne _ _ (fun heq => hne' (congrArg some heq.symm)) _

/-- A run that does not sign. -/
theorem attested_leftAt_of_unsigned {args : Args} (hpaths : args.paths.Nodup)
    (hsign : args.sign = none) {receipt : DisarmReceipt} {i : Nat} (files : FileSystem)
    (hstops : StopsAt outcomes 1 (plan C args receipt none) i) :
    Attested C.ed25519 args files (leftAt outcomes 1 (plan C args receipt none) i files) ↔
      Harmless C.ed25519 args receipt files (outcomes (1 + i)) none i := by
  rw [attested_of_unsigned hsign]
  cases i with
  | zero => exact iff_of_true (Outcome.apply_of_ne _ _ args.sigPath_ne _) trivial
  | succ i =>
    have hbefore : files.set args.output receipt.clean.bytes args.sigPath = files args.sigPath :=
      files.set_of_ne args.sigPath_ne _
    obtain ⟨-, hover, hapart⟩ := leftAt_reportFile hpaths hstops.2
      (files.set args.output receipt.clean.bytes)
    have hnext : 1 + (i + 1) = 1 + 1 + i := by omega
    rw [hbefore] at hover hapart
    rw [hnext]
    by_cases hreport : args.report = some args.sigPath
    · have hleft := hover hreport
      refine ⟨fun h _ => hleft.symm.trans h, fun h => hleft.trans (h hreport)⟩
    · exact iff_of_true (hapart hreport) fun h => absurd h hreport

/-- A run that signs. -/
theorem attested_leftAt_of_signed {args : Args} (hpaths : args.paths.Nodup) {keyPath : Path}
    {key : Vector UInt8 32} {files : FileSystem} (hsign : args.sign = some keyPath)
    (hkey : files keyPath = some key.toList) {receipt : DisarmReceipt} {i : Nat}
    (hstops : StopsAt outcomes 2 (plan C args receipt (some key)) i) :
    Attested C.ed25519 args files (leftAt outcomes 2 (plan C args receipt (some key)) i files) ↔
      Harmless C.ed25519 args receipt files (outcomes (2 + i)) (some key) i := by
  rw [attested_of_signed hsign hkey]
  have hpub : siblingPath args.output ".pub" ≠ args.output := siblingPath_ne _ (by decide)
  have hsigpub : args.sigPath ≠ siblingPath args.output ".pub" :=
    siblingPath_ne_siblingPath _ (by decide)
  match i with
  | 0 =>
    have hsig : leftAt outcomes 2 (plan C args receipt (some key)) 0 files args.sigPath =
        (outcomes 2).left (files args.sigPath) (C.ed25519.sign key receipt.clean.bytes).toList :=
      Outcome.apply_self ..
    have hblocks : (outcomes 2).blocks 64 := by
      rw [← (C.ed25519.sign key receipt.clean.bytes).length_toList]
      exact hstops
    rw [hsig]
    refine ⟨?_, .inl⟩
    rintro (h | ⟨signed, -, h⟩)
    · exact h
    · exact left_eq_of_eq_sign hblocks h
  | 1 =>
    have hsig : leftAt outcomes 2 (plan C args receipt (some key)) 1 files args.sigPath =
        some (C.ed25519.sign key receipt.clean.bytes).toList :=
      (Outcome.apply_of_ne _ _ hsigpub _).trans (files.set_self ..)
    have hout : leftAt outcomes 2 (plan C args receipt (some key)) 1 files args.output =
        files args.output :=
      (Outcome.apply_of_ne _ _ hpub.symm _).trans (files.set_of_ne args.sigPath_ne.symm _)
    rw [hsig, hout]
    exact fresh_signature_iff
  | 2 =>
    have hsig : leftAt outcomes 2 (plan C args receipt (some key)) 2 files args.sigPath =
        some (C.ed25519.sign key receipt.clean.bytes).toList :=
      (Outcome.apply_of_ne _ _ args.sigPath_ne _).trans
        ((FileSystem.set_of_ne _ hsigpub _).trans (files.set_self ..))
    have hout : leftAt outcomes 2 (plan C args receipt (some key)) 2 files args.output =
        (outcomes 4).left (files args.output) receipt.clean.bytes := by
      refine (Outcome.apply_self ..).trans (congrArg₂ _ ?_ rfl)
      exact (FileSystem.set_of_ne _ hpub.symm _).trans (files.set_of_ne args.sigPath_ne.symm _)
    rw [hsig, hout]
    exact fresh_signature_iff
  | i + 3 =>
    obtain ⟨hout, hover, hapart⟩ := leftAt_reportFile hpaths hstops.2.2.2
      (((files.set args.sigPath (C.ed25519.sign key receipt.clean.bytes).toList).set
        (siblingPath args.output ".pub") (C.ed25519.verifyingKey key).toList).set args.output
          receipt.clean.bytes)
    have hnext : 2 + (i + 3) = 2 + 1 + 1 + 1 + i := by omega
    rw [FileSystem.set_self] at hout
    rw [FileSystem.set_of_ne _ args.sigPath_ne, FileSystem.set_of_ne _ hsigpub,
      FileSystem.set_self] at hover hapart
    rw [hnext]
    by_cases hreport : args.report = some args.sigPath
    · have hleft := hover hreport
      refine ⟨?_, fun h => ?_⟩
      · rintro (h | ⟨signed, hsigned, h⟩) -
        · exact .inl (hleft.symm.trans h)
        · obtain rfl := Option.some.inj (hout.symm.trans hsigned)
          exact .inr (hleft.symm.trans h)
      · rcases h hreport with h | h
        · exact .inl (hleft.trans h)
        · exact .inr ⟨_, hout, hleft.trans h⟩
    · refine iff_of_true (.inr ⟨_, hout, hapart hreport⟩) fun h => absurd h hreport

/-- A run that is prepared. -/
theorem attested_leftAt {args : Args} (hpaths : args.paths.Nodup) {files : FileSystem}
    {receipt : DisarmReceipt} {seed : Option (Vector UInt8 32)}
    (hprepared : Prepared w C outcomes args files receipt seed) {i : Nat}
    (hstops : StopsAt outcomes (1 + seed.toList.length) (plan C args receipt seed) i) :
    Attested C.ed25519 args files
        (leftAt outcomes (1 + seed.toList.length) (plan C args receipt seed) i files) ↔
      Harmless C.ed25519 args receipt files (outcomes (1 + seed.toList.length + i)) seed i := by
  cases hsign : args.sign with
  | none =>
    obtain rfl := hprepared.unsigned hsign
    exact attested_leftAt_of_unsigned hpaths hsign files hstops
  | some keyPath =>
    obtain ⟨key, rfl, -, hkey, -⟩ := hprepared.signed keyPath hsign
    exact attested_leftAt_of_signed hpaths hsign hkey hstops

/-- **What a failed run leaves beside the output**: the signature is as it was or attests the
output, if and only if the write that failed did no harm. -/
theorem failed_run_attests (w : Width) (C : Crates) (outcomes : Nat → Outcome) (args : Args)
    (hpaths : args.paths.Nodup) (files : FileSystem) (e : Fault String) (disk : Disk)
    (h : (run w C outcomes args).exec ⟨files, 0⟩ = (.error e, disk)) :
    Attested C.ed25519 args files disk.files ↔
      ∀ receipt seed i, Prepared w C outcomes args files receipt seed →
        StopsAt outcomes (1 + seed.toList.length) (plan C args receipt seed) i →
        Harmless C.ed25519 args receipt files (outcomes (1 + seed.toList.length + i)) seed i := by
  by_cases hprepared : ∃ receipt seed, Prepared w C outcomes args files receipt seed
  · obtain ⟨receipt, seed, hprepared⟩ := hprepared
    rw [exec_run hprepared] at h
    obtain ⟨i, hstops, hfiles⟩ := stopsAt_of_commitAll h
    rw [hfiles, attested_leftAt hpaths hprepared hstops]
    refine ⟨?_, fun hall => hall receipt seed i hprepared hstops⟩
    intro hharmless receipt' seed' i' hprepared' hstops'
    obtain ⟨rfl, rfl⟩ := hprepared.unique hprepared'
    obtain rfl := hstops.unique hstops'
    exact hharmless
  · obtain ⟨e', n, he'⟩ := exec_run_of_not hprepared
    rw [he'] at h
    obtain ⟨-, rfl⟩ := Prod.mk.inj h
    refine iff_of_true (.inl rfl) fun receipt seed i hprepared' => ?_
    exact absurd ⟨receipt, seed, hprepared'⟩ hprepared

/-! ## Runs on one file -/

/-- The sample run gets as far as its first write, whatever happens after. -/
theorem prepared_sample {outcomes : Nat → Outcome} (hinput : outcomes 0 = .done)
    (hkey : outcomes 1 = .done) (report : Option Path) :
    Prepared .w64 sampleCrates outcomes (sampleArgs report) sampleFiles sampleReceipt
      (some sampleSeed) where
  receipt := ⟨samplePng, ⟨hinput, rfl, by decide⟩, rfl⟩
  unsigned hsign := by cases hsign
  signed keyPath hsign := by
    obtain rfl := Option.some.inj hsign
    exact ⟨_, rfl, hkey, rfl, by decide⟩

/-- One operation is refused. -/
def refusing (n : Nat) : Nat → Outcome :=
  fun n' => if n' = n then .refused "No space left on device (os error 28)" else .done

/-- The report cannot be written: the output and its signature are there. -/
theorem failed_run_attests_sample :
    ∃ e disk, (run .w64 sampleCrates (refusing 5) (sampleArgs (some "report.json"))).exec
        ⟨sampleFiles, 0⟩ = (.error e, disk) ∧
      Attested sampleEd25519 (sampleArgs (some "report.json")) sampleFiles disk.files := by
  have hrun : (run .w64 sampleCrates (refusing 5) (sampleArgs (some "report.json"))).exec
      ⟨sampleFiles, 0⟩ = (.error _, _) := Prod.ext rfl rfl
  refine ⟨_, _, hrun, (failed_run_attests .w64 sampleCrates (refusing 5) _ (by decide) _ _ _
    hrun).mpr ?_⟩
  intro receipt seed i hprepared hstops
  obtain ⟨rfl, rfl⟩ := (prepared_sample rfl rfl _).unique hprepared
  have hthird : StopsAt (refusing 5) 2
      (plan sampleCrates (sampleArgs (some "report.json")) sampleReceipt (some sampleSeed)) 3 :=
    ⟨id, id, id, trivial⟩
  obtain rfl := hthird.unique hstops
  exact fun hreport => absurd hreport (by decide)

/-- The output cannot be written: a signature is there, and nothing that it signs. -/
theorem failed_run_leaves_signature :
    parse ["in.png", "-o", "out.png", "-s", "key"] = .ok (sampleArgs none) ∧
    (sampleArgs none).paths.Nodup ∧
    ∃ e disk, (run .w64 sampleCrates (refusing 4) (sampleArgs none)).exec ⟨sampleFiles, 0⟩ =
        (.error e, disk) ∧
      ¬ Attested sampleEd25519 (sampleArgs none) sampleFiles disk.files := by
  have hrun : (run .w64 sampleCrates (refusing 4) (sampleArgs none)).exec ⟨sampleFiles, 0⟩ =
      (.error _, _) := Prod.ext rfl rfl
  refine ⟨by decide, by decide, _, _, hrun, ?_⟩
  rintro (h | ⟨keyPath, key, signed, -, -, h, -⟩)
  · cases h
  · cases h

end Purgo
