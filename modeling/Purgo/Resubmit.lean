import Purgo.Accounting
import Purgo.Frontends
import Purgo.Rerun

/-!
# Submitting the clean file again

A clean JPEG file may be changed by a second run, or be refused by it: the tokens that survive the
first one need not be settled. But every run makes the image shorter, or leaves it as it is. So a
client that submits each clean image again comes to the end of it, within as many rounds as the file
has bytes, and all it ever gets is a part of the file (`resubmit_settles`).
-/

namespace Purgo

open Rust

variable {w : Width} {C : Crates}

/-- What the service returns after the clean file has been submitted again so many times. -/
def DisarmService.resubmit (service : DisarmService) (policy : Policy) :
    Nat → Artifact → Exec DomainError DisarmReceipt
  | 0, artifact => service.execute { artifact := artifact, policy := policy }
  | n + 1, artifact => do
    let receipt ← service.execute { artifact := artifact, policy := policy }
    service.resubmit policy n (.new receipt.clean.bytes)

/-- The detector takes the file for an image. -/
def IsImage (C : Crates) (artifact : Artifact) : Prop :=
  MagicFormatDetector.detect C artifact = .ok .jpeg ∨
    MagicFormatDetector.detect C artifact = .ok .png

/-- The clean file of an image is a part of it, is an image, and is the image itself when the report
says so. -/
theorem IsImage.execute {artifact : Artifact} (himage : IsImage C artifact) {policy : Policy}
    (hfit : w.Fits artifact.bytes.length) {receipt : DisarmReceipt}
    (h : (service w C).execute { artifact := artifact, policy := policy } = .ok receipt) :
    receipt.clean.bytes.Sublist artifact.bytes ∧ IsImage C (.new receipt.clean.bytes) ∧
      (receipt.report.isModified = false ↔ receipt.clean.bytes = artifact.bytes) := by
  obtain ⟨format, disarmer, output, hdetect, hselect, hdisarm, hclean, -⟩ :=
    DisarmService.execute_eq_ok h
  rcases himage with hjpeg | hpng
  · obtain rfl : format = .jpeg := Except.ok.inj (hdetect.symm.trans hjpeg)
    obtain rfl : JpegDisarmer.new w = disarmer := Option.some.inj hselect
    refine ⟨?_, .inl (detect_jpeg ?_), ?_⟩
    · obtain ⟨-, -, -, hpart, -⟩ := JpegDisarmer.accounted hfit hdisarm
      rw [hclean]
      exact hpart
    · obtain ⟨ts, trailing, hm, rfl⟩ := (Jpeg.disarm_eq_ok hfit).mp hdisarm
      rw [hclean]
      exact Jpeg.prefix_rebuild hm
    · exact DisarmService.isModified_eq_false hfit (JpegDisarmer.shrinks w) ⟨_, hdetect, rfl⟩ h
  · obtain rfl : format = .png := Except.ok.inj (hdetect.symm.trans hpng)
    obtain rfl : PngDisarmer.new w = disarmer := Option.some.inj hselect
    refine ⟨?_, .inr (detect_png ?_), ?_⟩
    · obtain ⟨-, -, -, hpart, -⟩ := PngDisarmer.accounted hfit hdisarm
      rw [hclean]
      exact hpart
    · rw [hclean]
      exact (PngDisarmer.disarm_again hfit hdisarm none).1
    · exact DisarmService.isModified_eq_false hfit (PngDisarmer.shrinks w) ⟨_, hdetect, rfl⟩ h

/-- The name of the file plays no part in what it is disarmed to. -/
theorem resubmit_name (policy : Policy) (n : Nat) (name name' : Option String)
    (bytes : List UInt8) :
    (service w C).resubmit policy n ⟨name, bytes⟩ =
      (service w C).resubmit policy n ⟨name', bytes⟩ := by
  cases n with
  | zero => exact execute_name name name' bytes policy
  | succ n => rw [DisarmService.resubmit, DisarmService.resubmit, execute_name name name']

/-- An image that is refused, or left alone, stays so. -/
theorem resubmit_constant {artifact : Artifact} {policy : Policy}
    (h : ∀ receipt, (service w C).execute { artifact := artifact, policy := policy } =
      .ok receipt → receipt.clean.bytes = artifact.bytes) (n : Nat) :
    (service w C).resubmit policy n artifact =
      (service w C).execute { artifact := artifact, policy := policy } := by
  induction n with
  | zero => rfl
  | succ n ih =>
    rw [DisarmService.resubmit]
    cases hrun : (service w C).execute { artifact := artifact, policy := policy } with
    | error e => rfl
    | ok receipt =>
      rw [Exec.ok_bind, h receipt hrun]
      exact (resubmit_name policy n none artifact.name artifact.bytes).trans (ih.trans hrun)

/-- **Submitting an image again comes to an end**: after no more rounds than the file has bytes the
service answers the same for ever. It refuses what it is given, or it returns it and says that it is
not modified. Whatever it returns on the way is a part of the file. -/
theorem resubmit_settles (w : Width) (C : Crates) (policy : Policy) (artifact : Artifact)
    (hfit : w.Fits artifact.bytes.length) (himage : IsImage C artifact) :
    ∃ n ≤ artifact.bytes.length,
      (∀ m ≥ n, (service w C).resubmit policy m artifact =
        (service w C).resubmit policy n artifact) ∧
      (∀ receipt, (service w C).resubmit policy n artifact = .ok receipt →
        receipt.report.isModified = false) ∧
      ∀ m receipt, (service w C).resubmit policy m artifact = .ok receipt →
        receipt.clean.bytes.Sublist artifact.bytes := by
  -- by induction on the length: a round that does not settle it makes it shorter
  induction hlen : artifact.bytes.length using Nat.strong_induction_on generalizing artifact with
  | _ length ih =>
    subst hlen
    by_cases hsettled : ∀ receipt, (service w C).execute
        { artifact := artifact, policy := policy } = .ok receipt →
          receipt.clean.bytes = artifact.bytes
    · have hconstant := resubmit_constant hsettled
      refine ⟨0, Nat.zero_le _, fun m _ => ?_, ?_, ?_⟩
      · rw [hconstant m, hconstant 0]
      · intro receipt hreceipt
        exact (himage.execute hfit hreceipt).2.2.mpr (hsettled receipt hreceipt)
      · intro m receipt hreceipt
        rw [hconstant m] at hreceipt
        exact (himage.execute hfit hreceipt).1
    · obtain ⟨receipt, hmodified⟩ := not_forall.mp hsettled
      obtain ⟨hrun, hne⟩ := Classical.not_imp.mp hmodified
      obtain ⟨hpart, himage', -⟩ := himage.execute hfit hrun
      have hshort : receipt.clean.bytes.length < artifact.bytes.length :=
        Nat.lt_of_le_of_ne hpart.length_le fun heq => hne (hpart.eq_of_length heq)
      obtain ⟨n, hn, hconstant, hverdict, hparts⟩ :=
        ih _ hshort (.new receipt.clean.bytes) (hfit.mono hpart.length_le) himage' rfl
      have hnext : ∀ m, (service w C).resubmit policy (m + 1) artifact =
          (service w C).resubmit policy m (.new receipt.clean.bytes) := by
        intro m
        rw [DisarmService.resubmit, hrun]
        rfl
      refine ⟨n + 1, by omega, ?_, ?_, ?_⟩
      · intro m hm
        obtain ⟨m, rfl⟩ := Nat.exists_eq_add_of_le' hm
        rw [← Nat.add_assoc, hnext, hnext]
        exact hconstant _ (by omega)
      · intro receipt' hreceipt'
        rw [hnext] at hreceipt'
        exact hverdict receipt' hreceipt'
      · intro m receipt' hreceipt'
        cases m with
        | zero =>
          obtain rfl := Except.ok.inj (hrun.symm.trans hreceipt')
          exact hpart
        | succ m =>
          rw [hnext] at hreceipt'
          exact (hparts m receipt' hreceipt').trans hpart

/-- A file that a second run changes once more. -/
theorem resubmit_settles_sample :
    ∃ n ≤ 20, ∀ m ≥ n,
      (service .w64 sampleCrates).resubmit .strict m Jpeg.smuggled =
        (service .w64 sampleCrates).resubmit .strict n Jpeg.smuggled := by
  obtain ⟨n, hn, hconstant, -⟩ :=
    resubmit_settles .w64 sampleCrates .strict Jpeg.smuggled (by decide) (.inl rfl)
  exact ⟨n, hn, hconstant⟩

end Purgo
