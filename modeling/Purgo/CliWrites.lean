import Purgo.Cli
import Purgo.OoxmlRebuild

/-!
# What a run of the command line leaves behind

A run either stops before its first write, and then the files are as they were, or it is prepared
and performs its plan (`exec_run`, `exec_run_of_not`). So what a successful run leaves is the plan,
one file set after the other.

The paths are the user's, and nothing checks that they differ. The signature and the public key
stand beside the output and cannot meet it, or each other; the report can meet all three, and comes
last. A run delivers if and only if it does not (`run_delivers`).
-/

namespace Purgo

open Rust

variable {w : Width} {C : Crates} {outcomes : Nat → Outcome}

/-! ## Before the first write -/

/-- No clean file begins with a brace, as a report does. -/
theorem clean_avoids (hC : C.Headers) {request : DisarmRequest} {receipt : DisarmReceipt}
    (hfit : w.Fits request.artifact.bytes.length)
    (h : (service w C).execute request = .ok receipt) : receipt.clean.bytes.head? ≠ some 0x7B := by
  obtain ⟨format, disarmer, output, -, hselect, hdisarm, hclean, -⟩ :=
    DisarmService.execute_eq_ok h
  rw [hclean]
  have hmem := List.mem_of_find?_eq_some hselect
  exact disarmers_avoid hC disarmer hmem _ _ _ hfit hdisarm

/-- The files that are read determine the receipt and the seed. -/
theorem Prepared.unique {args : Args} {files : FileSystem} {receipt receipt' : DisarmReceipt}
    {seed seed' : Option (Vector UInt8 32)} (h : Prepared w C outcomes args files receipt seed)
    (h' : Prepared w C outcomes args files receipt' seed') : receipt = receipt' ∧ seed = seed' := by
  obtain ⟨bytes, ⟨-, hfile, -⟩, hrun⟩ := h.receipt
  obtain ⟨bytes', ⟨-, hfile', -⟩, hrun'⟩ := h'.receipt
  obtain rfl := Option.some.inj (hfile.symm.trans hfile')
  refine ⟨Except.ok.inj (hrun.symm.trans hrun'), ?_⟩
  cases hsign : args.sign with
  | none => rw [h.unsigned hsign, h'.unsigned hsign]
  | some keyPath =>
    obtain ⟨key, rfl, -, hkey, -⟩ := h.signed keyPath hsign
    obtain ⟨key', rfl, -, hkey', -⟩ := h'.signed keyPath hsign
    rw [Vector.toList_inj.mp (Option.some.inj (hkey.symm.trans hkey'))]

/-- There is a seed exactly when the run is to sign. -/
theorem Prepared.seed_eq_none_iff {args : Args} {files : FileSystem} {receipt : DisarmReceipt}
    {seed : Option (Vector UInt8 32)} (h : Prepared w C outcomes args files receipt seed) :
    seed = none ↔ args.sign = none := by
  refine ⟨fun hseed => ?_, h.unsigned⟩
  by_contra hsign
  obtain ⟨keyPath, hkeyPath⟩ := Option.ne_none_iff_exists'.mp hsign
  obtain ⟨key, rfl, -⟩ := h.signed keyPath hkeyPath
  cases hseed

/-- The clean file of a prepared run does not begin as a report does. -/
theorem Prepared.clean_avoids (hC : C.Headers) {args : Args} {files : FileSystem}
    {receipt : DisarmReceipt} {seed : Option (Vector UInt8 32)}
    (h : Prepared w C outcomes args files receipt seed) :
    receipt.clean.bytes.head? ≠ some 0x7B := by
  obtain ⟨bytes, ⟨-, -, hfits⟩, hexecute⟩ := h.receipt
  exact Purgo.clean_avoids hC hfits hexecute

theorem exec_fromSeedFile {n : Nat} {files : FileSystem} {path : Path} {key : Vector UInt8 32}
    (h : Reads w outcomes n files path key.toList) :
    (Ed25519Signer.fromSeedFile w C outcomes path).exec ⟨files, n⟩ =
      (.ok (Ed25519Signer.fromSeed C.ed25519 key), ⟨files, n + 1⟩) := by
  have hread := Session.exec_mapErr_of_ok (exec_readFile w outcomes h)
    fun e => DomainError.signingFailed s!"cannot read key file {path}: {e}"
  have hlength : key.toList.length = seedLen := key.length_toList
  rw [Ed25519Signer.fromSeedFile, Session.exec_bind_of_ok hread, dif_pos hlength,
    Session.exec_pure]
  congr 3

/-- A key file that cannot be read, or has another length, is an error. -/
theorem exec_fromSeedFile_of_not {n : Nat} {files : FileSystem} {path : Path}
    (h : ¬ ∃ key : Vector UInt8 32, Reads w outcomes n files path key.toList) :
    ∃ e, (Ed25519Signer.fromSeedFile w C outcomes path).exec ⟨files, n⟩ =
      (.error e, ⟨files, n + 1⟩) := by
  by_cases hfile : ∃ bytes, Reads w outcomes n files path bytes
  · obtain ⟨bytes, hbytes⟩ := hfile
    have hread := Session.exec_mapErr_of_ok (exec_readFile w outcomes hbytes)
      fun e => DomainError.signingFailed s!"cannot read key file {path}: {e}"
    have hlength : bytes.length ≠ seedLen := fun hlength => h ⟨⟨bytes.toArray, hlength⟩, hbytes⟩
    rw [Ed25519Signer.fromSeedFile, Session.exec_bind_of_ok hread, dif_neg hlength]
    exact ⟨_, rfl⟩
  · obtain ⟨e, he⟩ := exec_readFile_of_not w outcomes hfile
    obtain ⟨e', he'⟩ := Session.exec_mapErr_of_error he
      fun e => DomainError.signingFailed s!"cannot read key file {path}: {e}"
    exact ⟨e', Session.exec_bind_of_error he' _⟩

/-- Signing does not fail, so a receipt is always signed. -/
theorem executeSigned_eq_ok {service : DisarmService} {request : DisarmRequest}
    {receipt : DisarmReceipt} (h : service.execute request = .ok receipt) (E : Ed25519)
    (key : Vector UInt8 32) :
    ({ disarm := service.execute, signer := Ed25519Signer.fromSeed E key } :
      SigningDisarmService).executeSigned request =
    .ok { receipt := receipt, signature := { bytes := (E.sign key receipt.clean.bytes).toList },
          publicKey := { bytes := (E.verifyingKey key).toList } } := by
  change (service.execute request >>= _) = _
  rw [h]
  rfl

/-- Nothing is signed when the disarming fails. -/
theorem executeSigned_eq_error {service : DisarmService} {request : DisarmRequest}
    {e : Fault DomainError} (h : service.execute request = .error e) (signer : Signer) :
    ({ disarm := service.execute, signer := signer } :
      SigningDisarmService).executeSigned request = .error e := by
  change (service.execute request >>= _) = _
  rw [h]
  rfl

/-- Building the service touches no file. -/
theorem exec_buildService (disk : Disk) :
    ((Session.lift (buildService w C)).mapErr DomainError.display).exec disk =
      (.ok (service w C), disk) := by
  rw [buildService_eq]
  rfl

/-- Writing the outputs is performing the rest of the plan. -/
theorem writeOutputs_eq (args : Args) (receipt : DisarmReceipt) :
    writeOutputs outcomes args receipt = commitAll outcomes
      (outputFile "" args.output receipt.clean.bytes :: reportFile args receipt) := by
  rw [writeOutputs, commitAll, reportFile]
  cases args.report with
  | none => rfl
  | some reportPath => simp [commitAll]

/-- **What a run is, once it is prepared**: the writes of the plan. -/
theorem exec_run {args : Args} {files : FileSystem} {receipt : DisarmReceipt}
    {seed : Option (Vector UInt8 32)} (h : Prepared w C outcomes args files receipt seed) :
    (run w C outcomes args).exec ⟨files, 0⟩ =
      (commitAll outcomes (plan C args receipt seed)).exec ⟨files, 1 + seed.toList.length⟩ := by
  obtain ⟨bytes, hin, hexecute⟩ := h.receipt
  rw [run, Session.exec_bind_of_ok (Session.exec_mapErr_of_ok (exec_readFile w outcomes hin) _)]
  cases hsign : args.sign with
  | none =>
    obtain rfl := h.unsigned hsign
    have hreceipt : ((Session.lift ((service w C).execute
        (.strict (.named args.input bytes)))).mapErr DomainError.display).exec ⟨files, 0 + 1⟩ =
        (.ok receipt, ⟨files, 0 + 1⟩) := Session.exec_mapErr_of_ok (by rw [hexecute]; rfl) _
    simp only []
    rw [Session.exec_bind_of_ok (exec_buildService _), Session.exec_bind_of_ok hreceipt,
      writeOutputs_eq]
    rfl
  | some keyPath =>
    obtain ⟨key, rfl, hkey⟩ := h.signed keyPath hsign
    have hsigned : ∀ disk, ((Session.lift (SigningDisarmService.executeSigned
        ⟨(service w C).execute, Ed25519Signer.fromSeed C.ed25519 key⟩
        (.strict (.named args.input bytes)))).mapErr DomainError.display).exec disk =
        (.ok { receipt := receipt,
               signature := { bytes := (C.ed25519.sign key receipt.clean.bytes).toList },
               publicKey := { bytes := (C.ed25519.verifyingKey key).toList } }, disk) :=
      fun disk => by rw [executeSigned_eq_ok hexecute]; rfl
    simp only []
    rw [runSigned, bind_assoc,
      Session.exec_bind_of_ok (Session.exec_mapErr_of_ok (exec_fromSeedFile hkey) _), bind_assoc,
      Session.exec_bind_of_ok (exec_buildService _)]
    simp only []
    rw [bind_assoc, Session.exec_bind_of_ok (hsigned _)]
    simp only [bind_assoc, pure_bind, writeOutputs_eq]
    rfl

/-- A run that is not prepared writes nothing. -/
theorem exec_run_of_not {args : Args} {files : FileSystem}
    (h : ¬ ∃ receipt seed, Prepared w C outcomes args files receipt seed) :
    ∃ e n, (run w C outcomes args).exec ⟨files, 0⟩ = (.error e, ⟨files, n⟩) := by
  by_cases hin : ∃ bytes, Reads w outcomes 0 files args.input bytes
  case neg =>
    obtain ⟨e, he⟩ := exec_readFile_of_not w outcomes hin
    obtain ⟨e', he'⟩ := Session.exec_mapErr_of_error he
      fun e => let input := args.input
        s!"cannot read {input}: {e}"
    exact ⟨e', 1, Session.exec_bind_of_error he' _⟩
  obtain ⟨bytes, hbytes⟩ := hin
  rw [run, Session.exec_bind_of_ok (Session.exec_mapErr_of_ok (exec_readFile w outcomes hbytes) _)]
  cases hsign : args.sign with
  | none =>
    cases hexecute : (service w C).execute (.strict (.named args.input bytes)) with
    | ok receipt =>
      refine absurd ⟨receipt, none, ⟨⟨bytes, hbytes, hexecute⟩, fun _ => rfl, ?_⟩⟩ h
      intro keyPath hkeyPath
      rw [hsign] at hkeyPath
      cases hkeyPath
    | error e =>
      have hlift : (Session.lift (.error e : Exec DomainError DisarmReceipt)).exec ⟨files, 1⟩ =
          (.error e, ⟨files, 1⟩) := Session.exec_lift ..
      obtain ⟨e', he'⟩ := Session.exec_mapErr_of_error hlift DomainError.display
      simp only []
      rw [Session.exec_bind_of_ok (exec_buildService _), hexecute,
        Session.exec_bind_of_error he']
      exact ⟨e', 1, rfl⟩
  | some keyPath =>
    simp only []
    rw [runSigned, bind_assoc]
    by_cases hkey : ∃ key : Vector UInt8 32, Reads w outcomes 1 files keyPath key.toList
    case neg =>
      obtain ⟨e, he⟩ := exec_fromSeedFile_of_not hkey
      obtain ⟨e', he'⟩ := Session.exec_mapErr_of_error he DomainError.display
      exact ⟨e', 2, Session.exec_bind_of_error he' _⟩
    obtain ⟨key, hkey⟩ := hkey
    cases hexecute : (service w C).execute (.strict (.named args.input bytes)) with
    | ok receipt =>
      refine absurd ⟨receipt, some key, ⟨⟨bytes, hbytes, hexecute⟩, ?_, ?_⟩⟩ h
      · intro hnone
        rw [hsign] at hnone
        cases hnone
      · rintro keyPath' hkeyPath
        rw [hsign] at hkeyPath
        obtain rfl := Option.some.inj hkeyPath
        exact ⟨key, rfl, hkey⟩
    | error e =>
      have hlift : (Session.lift (SigningDisarmService.executeSigned
          ⟨(service w C).execute, Ed25519Signer.fromSeed C.ed25519 key⟩
          (.strict (.named args.input bytes)))).exec ⟨files, 2⟩ = (.error e, ⟨files, 2⟩) := by
        rw [executeSigned_eq_error hexecute]
        rfl
      obtain ⟨e', he'⟩ := Session.exec_mapErr_of_error hlift DomainError.display
      rw [Session.exec_bind_of_ok (Session.exec_mapErr_of_ok (exec_fromSeedFile hkey) _),
        bind_assoc, Session.exec_bind_of_ok (exec_buildService _)]
      simp only []
      rw [bind_assoc, Session.exec_bind_of_error he']
      exact ⟨e', 2, rfl⟩

/-- A run that succeeds has been prepared, and leaves all that is planned. -/
theorem exec_run_eq_ok {args : Args} {files : FileSystem} {disk : Disk}
    (h : (run w C outcomes args).exec ⟨files, 0⟩ = (.ok (), disk)) :
    ∃ receipt seed, Prepared w C outcomes args files receipt seed ∧
      disk.files = (plan C args receipt seed).foldl (fun files c => files.set c.path c.bytes)
        files := by
  by_cases hprepared : ∃ receipt seed, Prepared w C outcomes args files receipt seed
  · obtain ⟨receipt, seed, hprepared⟩ := hprepared
    rw [exec_run hprepared] at h
    exact ⟨receipt, seed, hprepared, files_of_commitAll h⟩
  · obtain ⟨e, n, he⟩ := exec_run_of_not hprepared
    rw [he] at h
    cases h

/-! ## A run that succeeds -/

/-- A sibling of the output is another path. -/
theorem siblingPath_ne (output : Path) {suffix : String} (h : suffix ≠ "") :
    siblingPath output suffix ≠ output := fun heq => h (String.append_eq_left_iff.mp heq)

theorem siblingPath_ne_siblingPath (output : Path) {suffix suffix' : String}
    (h : suffix ≠ suffix') : siblingPath output suffix ≠ siblingPath output suffix' :=
  fun heq => h ((String.append_right_inj output).mp heq)

/-- The output is the clean file, and beside it are its signature and the key that verifies it. -/
structure Delivered (E : Ed25519) (args : Args) (receipt : DisarmReceipt)
    (seed : Option (Vector UInt8 32)) (files : FileSystem) : Prop where
  output : files args.output = some receipt.clean.bytes
  signature : ∀ key, seed = some key → ∃ signed, files args.output = some signed ∧
    files (siblingPath args.output ".sig") = some (E.sign key signed).toList
  publicKey : ∀ key, seed = some key →
    files (siblingPath args.output ".pub") = some (E.verifyingKey key).toList

/-- The report is none of the other files. -/
def ReportApart (args : Args) : Prop :=
  ∀ path, args.report = some path → path ≠ args.output ∧
    (args.sign ≠ none →
      path ≠ siblingPath args.output ".sig" ∧ path ≠ siblingPath args.output ".pub")

/-- The writes before the report deliver. -/
theorem delivered_of_output (args : Args) (receipt : DisarmReceipt)
    (seed : Option (Vector UInt8 32)) (files : FileSystem) :
    Delivered C.ed25519 args receipt seed
      (((seed.toList.flatMap (signatureFiles C args receipt)).foldl
        (fun files c => files.set c.path c.bytes) files).set args.output receipt.clean.bytes) := by
  have hsig : siblingPath args.output ".sig" ≠ args.output := siblingPath_ne _ (by decide)
  have hpub : siblingPath args.output ".pub" ≠ args.output := siblingPath_ne _ (by decide)
  have hsigpub : siblingPath args.output ".sig" ≠ siblingPath args.output ".pub" :=
    siblingPath_ne_siblingPath _ (by decide)
  refine ⟨FileSystem.set_self .., ?_, ?_⟩
  · rintro key rfl
    refine ⟨_, FileSystem.set_self .., ?_⟩
    rw [FileSystem.set_of_ne _ hsig]
    exact (FileSystem.set_of_ne _ hsigpub _).trans (FileSystem.set_self ..)
  · rintro key rfl
    rw [FileSystem.set_of_ne _ hpub]
    exact FileSystem.set_self ..

/-- A report on top of that leaves it so unless it is one of the files. -/
theorem Delivered.set_iff {args : Args} {receipt : DisarmReceipt}
    {seed : Option (Vector UInt8 32)} {files : FileSystem}
    (h : Delivered C.ed25519 args receipt seed files)
    (hclean : receipt.clean.bytes.head? ≠ some 0x7B) (path : Path) (report : DisarmReport) :
    Delivered C.ed25519 args receipt seed (files.set path (asBytes (reportToJson report))) ↔
      path ≠ args.output ∧ (seed ≠ none →
        path ≠ siblingPath args.output ".sig" ∧ path ≠ siblingPath args.output ".pub") := by
  obtain ⟨rest, hjson⟩ := asBytes_reportToJson report
  have hlong := lt_length_reportToJson report
  refine ⟨?_, ?_⟩
  · intro hafter
    have hne : path ≠ args.output := by
      rintro rfl
      have heq := Option.some.inj ((FileSystem.set_self ..).symm.trans hafter.output)
      rw [← heq, hjson] at hclean
      exact hclean rfl
    refine ⟨hne, fun hseed => ?_⟩
    obtain ⟨key, rfl⟩ := Option.ne_none_iff_exists'.mp hseed
    refine ⟨?_, ?_⟩
    · rintro rfl
      obtain ⟨signed, -, hsig⟩ := hafter.signature key rfl
      rw [FileSystem.set_self, Option.some.injEq] at hsig
      rw [hsig, Vector.length_toList] at hlong
      exact absurd hlong (Nat.lt_irrefl _)
    · rintro rfl
      have hpub := hafter.publicKey key rfl
      rw [FileSystem.set_self, Option.some.injEq] at hpub
      rw [hpub, Vector.length_toList] at hlong
      omega
  · rintro ⟨hne, hsigned⟩
    have hsame : ∀ path' ≠ path,
        files.set path (asBytes (reportToJson report)) path' = files path' :=
      fun path' hpath' => files.set_of_ne hpath' _
    refine ⟨?_, ?_, ?_⟩
    · rw [hsame _ hne.symm]
      exact h.output
    · rintro key rfl
      rw [hsame _ hne.symm, hsame _ (hsigned nofun).1.symm]
      exact h.signature key rfl
    · rintro key rfl
      rw [hsame _ (hsigned nofun).2.symm]
      exact h.publicKey key rfl

/-- When all writes are done, everything is delivered exactly when the report goes over none of the
other files. The last write wins; the two signature files are siblings of the output. -/
theorem delivered_iff (hC : C.Headers) {args : Args} {files : FileSystem} {receipt : DisarmReceipt}
    {seed : Option (Vector UInt8 32)} (h : Prepared w C outcomes args files receipt seed) :
    Delivered C.ed25519 args receipt seed
      ((plan C args receipt seed).foldl (fun files c => files.set c.path c.bytes) files) ↔
      ReportApart args := by
  have hdelivered := delivered_of_output (C := C) args receipt seed files
  have hseed := not_congr h.seed_eq_none_iff
  rw [plan, List.foldl_append, List.foldl_cons, reportFile, ReportApart]
  cases hreport : args.report with
  | none => exact iff_of_true hdelivered nofun
  | some path =>
    refine (hdelivered.set_iff (h.clean_avoids hC) path receipt.report).trans ?_
    simp only [ne_eq, hseed, Option.some.injEq, forall_eq']

/-- **A run that succeeds has delivered**, exactly when the report has a path of its own: the output
holds the clean bytes, the signature files what was signed, the report its JSON. Where the report
goes over one of the others, the run succeeds as well, and that file is lost. -/
theorem run_delivers (w : Width) (C : Crates) (hC : C.Headers) (outcomes : Nat → Outcome)
    (args : Args) (files : FileSystem) (disk : Disk)
    (h : (run w C outcomes args).exec ⟨files, 0⟩ = (.ok (), disk)) :
    (∃ receipt seed, Prepared w C outcomes args files receipt seed ∧
      Delivered C.ed25519 args receipt seed disk.files) ↔ ReportApart args := by
  obtain ⟨receipt, seed, hprepared, hfiles⟩ := exec_run_eq_ok h
  rw [← delivered_iff hC hprepared, ← hfiles]
  refine ⟨?_, fun hdelivered => ⟨receipt, seed, hprepared, hdelivered⟩⟩
  rintro ⟨receipt', seed', hprepared', hdelivered⟩
  obtain ⟨rfl, rfl⟩ := hprepared.unique hprepared'
  exact hdelivered

/-! ## A run on one file -/

/-- A key file of 32 equal bytes. -/
def sampleSeed : Vector UInt8 32 := ⟨(List.replicate 32 42).toArray, rfl⟩

/-- What `ed25519_dalek` makes of that file and that seed. -/
def sampleEd25519 : Ed25519 where
  verifyingKey _ := #v[25, 127, 107, 35, 225, 108, 133, 50, 198, 171, 200, 56, 250, 205, 94, 167,
    137, 190, 12, 118, 178, 146, 3, 52, 3, 155, 250, 139, 61, 54, 141, 97]
  sign _ _ := #v[30, 200, 213, 214, 59, 231, 12, 27, 33, 166, 211, 93, 28, 106, 207, 86,
    237, 170, 124, 72, 136, 150, 137, 147, 79, 247, 177, 205, 186, 100, 81, 70,
    117, 222, 92, 230, 232, 178, 147, 60, 172, 129, 65, 74, 227, 48, 19, 200,
    236, 172, 102, 152, 120, 120, 133, 86, 30, 68, 180, 138, 151, 183, 53, 1]

/-- Libraries that are only asked about that file. -/
noncomputable def sampleCrates : Crates where
  lopdf := .ofDocuments []
  quickXml := .ofEvents []
  zip := .ofArchives []
  fileNames _ := Exec.fail "no codec"
  ed25519 := sampleEd25519

/-- The crates of the sample runs begin their files as they should. -/
theorem sampleCrates_headers : sampleCrates.Headers where
  pdf {doc out} h := by
    obtain rfl := Except.ok.inj h
    exact doc.write_prefix
  zip h := absurd (Ooxml.ZipCrate.finish_ofArchives h).1 List.not_mem_nil

/-- A directory with a picture and a key. -/
def sampleFiles : FileSystem :=
  FileSystem.set (FileSystem.set (fun _ => none) "in.png" samplePng) "key" sampleSeed.toList

/-- Disarm `in.png` to `out.png` and sign it. -/
def sampleArgs (report : Option Path) : Args :=
  { input := "in.png", output := "out.png", report := report, sign := some "key" }

/-- The picture of the sample run has nothing to remove. -/
def sampleReceipt : DisarmReceipt where
  clean := { format := .png, bytes := samplePng }
  report := { format := .png, originalSize := 20, sanitizedSize := 20, removed := [] }

/-- A signed run with a report of its own, in a directory with a picture and a key. -/
theorem run_delivers_sample :
    ∃ disk, (run .w64 sampleCrates (fun _ => .done) (sampleArgs (some "report.json"))).exec
        ⟨sampleFiles, 0⟩ = (.ok (), disk) ∧
      ∃ receipt seed, Prepared .w64 sampleCrates (fun _ => .done) (sampleArgs (some "report.json"))
          sampleFiles receipt seed ∧
        Delivered sampleEd25519 (sampleArgs (some "report.json")) receipt seed disk.files := by
  have hrun : (run .w64 sampleCrates (fun _ => .done) (sampleArgs (some "report.json"))).exec
      ⟨sampleFiles, 0⟩ = (.ok (), _) := Prod.ext rfl rfl
  refine ⟨_, hrun, (run_delivers .w64 sampleCrates sampleCrates_headers _ _ _ _ hrun).mpr ?_⟩
  rintro path hpath
  obtain rfl := Option.some.inj hpath
  decide

/-- The report on the output: the run succeeds, and the clean file is gone. -/
theorem run_overwrites :
    parse ["in.png", "-o", "out.png", "-s", "key", "-r", "out.png"] =
      .ok (sampleArgs (some "out.png")) ∧
    ∃ disk, (run .w64 sampleCrates (fun _ => .done) (sampleArgs (some "out.png"))).exec
        ⟨sampleFiles, 0⟩ = (.ok (), disk) ∧
      ¬ ∃ receipt seed, Prepared .w64 sampleCrates (fun _ => .done) (sampleArgs (some "out.png"))
          sampleFiles receipt seed ∧
        Delivered sampleEd25519 (sampleArgs (some "out.png")) receipt seed disk.files := by
  have hrun : (run .w64 sampleCrates (fun _ => .done) (sampleArgs (some "out.png"))).exec
      ⟨sampleFiles, 0⟩ = (.ok (), _) := Prod.ext rfl rfl
  refine ⟨by decide, _, hrun, ?_⟩
  rintro ⟨receipt, seed, hprepared, hdelivered⟩
  obtain ⟨receipt', seed', hprepared', hfiles⟩ := exec_run_eq_ok hrun
  obtain ⟨rfl, rfl⟩ := hprepared.unique hprepared'
  rw [hfiles] at hdelivered
  exact ((delivered_iff sampleCrates_headers hprepared).mp hdelivered _ rfl).1 rfl

end Purgo
