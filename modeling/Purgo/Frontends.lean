import Purgo.Http
import Purgo.Invocations

/-!
# Two front ends

The command line and the HTTP service disarm with services of their own, under the same policy. The
one knows the name of the file and the other does not, which makes no difference (`execute_name`).
So where no operation on a file fails they do the same: what the route answers is what the run
leaves, the headers tell what the report tells, and an error has the same text (`frontends_agree`).
-/

namespace Purgo

open Rust Http

variable {w : Width} {C : Crates}

/-- No disarmer looks at the name of the file. -/
def Disarmer.Nameless (disarmer : Disarmer) : Prop :=
  ∀ name name' bytes policy,
    disarmer.disarm ⟨name, bytes⟩ policy = disarmer.disarm ⟨name', bytes⟩ policy

/-- No registered disarmer looks at the name of the file. -/
theorem disarmers_nameless : ∀ disarmer ∈ disarmers w C, disarmer.Nameless := by
  intro disarmer hmem
  simp only [disarmers, List.mem_cons, List.not_mem_nil, or_false] at hmem
  rcases hmem with rfl | rfl | rfl | rfl | rfl
  · exact fun _ _ _ _ => rfl
  · exact fun _ _ _ _ => rfl
  · exact fun _ _ _ _ => rfl
  · exact fun _ _ _ _ => rfl
  · exact fun _ _ _ _ => rfl

/-- The name of a file makes no difference. -/
theorem execute_name (name name' : Option String) (bytes : List UInt8) (policy : Policy) :
    (service w C).execute ⟨⟨name, bytes⟩, policy⟩ =
      (service w C).execute ⟨⟨name', bytes⟩, policy⟩ := by
  have hdetect : (service w C).detector.detect ⟨name, bytes⟩ =
      (service w C).detector.detect ⟨name', bytes⟩ := rfl
  rcases hformat : (service w C).detector.detect ⟨name', bytes⟩ with e | format
  · rw [DisarmService.execute, DisarmService.execute]
    dsimp only
    rw [hdetect, hformat]
    rcases e with e | _ | _
    · exact e.elim
    · rfl
    · rfl
  · rw [hformat] at hdetect
    cases hselect : (service w C).select format with
    | none => rw [execute_of_select_none hdetect hselect, execute_of_select_none hformat hselect]
    | some disarmer =>
      have hnameless := disarmers_nameless disarmer (List.mem_of_find?_eq_some hselect)
      rw [execute_of_select hdetect hselect, execute_of_select hformat hselect]
      dsimp only
      rw [hnameless name name']

/-! ## A run without failures -/

/-- The key can be read, if the run is to sign. -/
def Args.Keyed (args : Args) (files : FileSystem) : Prop :=
  ∀ keyPath, args.sign = some keyPath → ∃ key : Vector UInt8 32, files keyPath = some key.toList

/-- A file that is there and fits into memory is read. -/
theorem reads_done {w : Width} (n : Nat) {files : FileSystem} {path : Path} {bytes : List UInt8}
    (hfile : files path = some bytes) (hfits : w.Fits bytes.length) :
    Reads w (fun _ => .done) n files path bytes := ⟨rfl, hfile, hfits⟩

/-- A run is prepared for what the service returns. -/
theorem prepared_of_execute {args : Args} {files : FileSystem} {body : List UInt8}
    {receipt : DisarmReceipt} (hin : files args.input = some body) (hfits : w.Fits body.length)
    (hkey : args.Keyed files) (hrun : (service w C).execute (.strict (.new body)) = .ok receipt) :
    ∃ seed, Prepared w C (fun _ => .done) args files receipt seed := by
  have hreceipt : ∃ bytes, Reads w (fun _ => .done) 0 files args.input bytes ∧
      (service w C).execute (.strict (.named args.input bytes)) = .ok receipt :=
    ⟨body, reads_done 0 hin hfits, (execute_name _ _ _ _).trans hrun⟩
  cases hsign : args.sign with
  | none => exact ⟨none, hreceipt, fun _ => rfl, by simp [hsign]⟩
  | some keyPath =>
    obtain ⟨key, hfile⟩ := hkey keyPath hsign
    have hshort : w.Fits key.toList.length := fits_of_le w (by simp [maxBodyBytes])
    refine ⟨some key, hreceipt, by simp [hsign], ?_⟩
    intro keyPath' hsign'
    obtain rfl := Option.some.inj (hsign.symm.trans hsign')
    exact ⟨key, rfl, reads_done 1 hfile hshort⟩

/-- A run fails as the service does. -/
theorem exec_run_of_error {args : Args} {files : FileSystem} {body : List UInt8} {e : Fault String}
    (hin : files args.input = some body) (hfits : w.Fits body.length) (hkey : args.Keyed files)
    (hrun : ((service w C).execute (.strict (.new body))).mapErr DomainError.display = .error e) :
    ∃ n, (run w C (fun _ => .done) args).exec ⟨files, 0⟩ = (.error e, ⟨files, n⟩) := by
  have hread := exec_readFile w (fun _ => .done) (reads_done 0 hin hfits)
  have hnamed : (service w C).execute (.strict (.named args.input body)) =
      (service w C).execute (.strict (.new body)) := execute_name _ _ _ _
  rw [← hnamed] at hrun
  obtain ⟨e', hexecute⟩ : ∃ e',
      (service w C).execute (.strict (.named args.input body)) = .error e' := by
    cases hexecute : (service w C).execute (.strict (.named args.input body)) with
    | error e' => exact ⟨e', rfl⟩
    | ok receipt =>
      rw [hexecute] at hrun
      cases hrun
  have hmap : ∀ {α : Type} (disk : Disk),
      ((Session.lift (.error e' : Exec DomainError α)).mapErr DomainError.display).exec disk =
        (.error e, disk) := by
    intro α disk
    rw [hexecute] at hrun
    rcases e' with e' | _ | _ <;> cases hrun <;> rfl
  rw [run, Session.exec_bind_of_ok (Session.exec_mapErr_of_ok hread _)]
  cases hsign : args.sign with
  | none =>
    simp only []
    rw [Session.exec_bind_of_ok (exec_buildService _), hexecute,
      Session.exec_bind_of_error (hmap _)]
    exact ⟨1, rfl⟩
  | some keyPath =>
    obtain ⟨key, hfile⟩ := hkey keyPath hsign
    have hshort : w.Fits key.toList.length := fits_of_le w (by simp [maxBodyBytes])
    have hsigner := Session.exec_mapErr_of_ok
      (exec_fromSeedFile (C := C) (reads_done 1 hfile hshort)) DomainError.display
    simp only []
    rw [runSigned, bind_assoc, Session.exec_bind_of_ok hsigner, bind_assoc,
      Session.exec_bind_of_ok (exec_buildService _)]
    simp only []
    rw [bind_assoc, executeSigned_eq_error hexecute, Session.exec_bind_of_error (hmap _)]
    exact ⟨2, rfl⟩

/-! ## Agreement -/

/-- What the run does agrees with what the route answers. -/
inductive Agrees (args : Args) (files : FileSystem) :
    Exec Empty Response → Exec String Unit × Disk → Prop where
  /-- the file is the body, and the report is the one the headers tell of -/
  | clean {response : Response} {disk : Disk} : response.status = StatusCode.ok →
      (args.report ≠ some args.output → disk.files args.output = some response.body) →
      (∀ path, args.report = some path → ∃ report,
        disk.files path = some (asBytes (reportToJson report)) ∧
        readSummary response.headers = some (summary report)) →
      Agrees args files (.ok response) (.ok (), disk)
  /-- the message is the body -/
  | refused {response : Response} {disk : Disk} {message : String} :
      response.status ≠ StatusCode.ok → response.body = asBytes message → disk.files = files →
      Agrees args files (.ok response) (Exec.fail message, disk)
  | panic {disk : Disk} : disk.files = files →
      Agrees args files (.error .panic) (.error .panic, disk)

/-- What a run leaves at the output and the report. -/
theorem foldl_plan (args : Args) (receipt : DisarmReceipt) (seed : Option (Vector UInt8 32))
    (files : FileSystem) :
    let left := (plan C args receipt seed).foldl (fun files c => files.set c.path c.bytes) files
    (args.report ≠ some args.output → left args.output = some receipt.clean.bytes) ∧
      ∀ path, args.report = some path →
        left path = some (asBytes (reportToJson receipt.report)) := by
  rw [plan, List.foldl_append, List.foldl_cons, reportFile]
  cases args.report with
  | none =>
    refine ⟨fun _ => FileSystem.set_self .., ?_⟩
    rintro path ⟨⟩
  | some path =>
    refine ⟨fun hne => ?_, ?_⟩
    · have hapart : args.output ≠ path := fun heq => hne (by rw [heq])
      exact (FileSystem.set_of_ne _ hapart _).trans (FileSystem.set_self ..)
    · rintro path' ⟨⟩
      exact FileSystem.set_self ..

/-- **The front ends agree**: on a file that the route takes, and where no operation fails and the
key, if one is asked for, is one, the run of the command line does what the route answers. Both
return the same clean file, unless the report overwrites it, and tell the same of it, or both refuse
the file with the same message and nothing is written, or the detector panics in both. -/
theorem frontends_agree (w : Width) (C : Crates) (A : Axum) (hL : C.lopdf.Lawful) (hC : C.Answer)
    (hA : A.Lawful) (args : Args) (files : FileSystem) (body : List UInt8)
    (hin : files args.input = some body) (hlen : body.length ≤ maxBodyBytes)
    (hkey : args.Keyed files) :
    Agrees args files (route A w C body)
      ((run w C (fun _ => .done) args).exec ⟨files, 0⟩) := by
  have hfits : w.Fits (DisarmRequest.strict (.new body)).artifact.bytes.length := fits_of_le w hlen
  have hroute : route A w C body = Http.disarm A (service w C).execute body :=
    if_neg (Nat.not_lt.mpr hlen)
  rw [hroute, Http.disarm]
  have hrefused : ∀ {e}, (service w C).execute (.strict (.new body)) = Exec.fail e →
      statusFor e ≠ StatusCode.ok → Agrees args files
        (.ok { status := statusFor e, headers := A.textHeaders, body := asBytes e.display })
        ((run w C (fun _ => .done) args).exec ⟨files, 0⟩) := by
    intro e hrun hstatus
    obtain ⟨n, hexec⟩ :=
      exec_run_of_error (e := .error e.display) hin hfits hkey (by rw [hrun]; rfl)
    rw [hexec]
    exact .refused hstatus rfl rfl
  rcases execute_cases hL hC hfits with
    ⟨-, hrun⟩ | ⟨format, -, -, ⟨e, hrun, hrefusal⟩ | ⟨receipt, hrun⟩⟩ | ⟨hrun, -, -⟩
  · have hagree := hrefused hrun (by decide)
    rw [hrun]
    exact hagree
  · have hagree := hrefused hrun (by rw [statusFor_refusal hrefusal]; decide)
    rw [hrun]
    exact hagree
  · obtain ⟨seed, hprepared⟩ := prepared_of_execute hin hfits hkey hrun
    obtain ⟨hclean, hreport⟩ := foldl_plan (C := C) args receipt seed files
    have hexec := exec_run_eq_ok_iff.mpr ⟨receipt, seed, hprepared, completes_done _ _, rfl⟩
    rw [hrun, hexec]
    refine .clean rfl hclean fun path hpath => ⟨receipt.report, hreport path hpath, ?_⟩
    exact readSummary_reportHeaders hA receipt.report receipt.clean.bytes
  · obtain ⟨n, hexec⟩ := exec_run_of_error (e := .panic) hin hfits hkey (by rw [hrun]; rfl)
    rw [hrun, hexec]
    exact .panic rfl

/-- A signed run with a report, and the request for the same file. -/
theorem frontends_agree_sample :
    Agrees (sampleArgs (some "report.json")) sampleFiles
      (route sampleAxum .w64 sampleCrates samplePng)
      ((run .w64 sampleCrates (fun _ => .done) (sampleArgs (some "report.json"))).exec
        ⟨sampleFiles, 0⟩) := by
  refine frontends_agree .w64 sampleCrates sampleAxum sampleCrates_lawful
    sampleCrates_answer sampleAxum_lawful _ _ _ rfl (by decide) ?_
  intro keyPath hsign
  obtain rfl := Option.some.inj hsign
  exact ⟨sampleSeed, rfl⟩

end Purgo
