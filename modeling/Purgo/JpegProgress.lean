import Purgo.JpegMarkers

/-!
# The JPEG disarmer on hostile bytes

Nothing is assumed of the file but that it fits in memory. The lengths an attacker writes into it
move the loops only forward and never past the end: `Advances` says so of a loop, of every state it
goes through, and the three loops of the disarmer all satisfy it. Errors come from reading a token
or from a file without a scan, and every one of them is an error about the JPEG input.
-/

namespace Purgo

open Rust Lexing

namespace Jpeg

/-! ## Errors -/

/-- A field that cannot be read is put on the file. -/
theorem readField_error {truncated invalid pastEnd : String} {s : List UInt8} {e : DomainError}
    (h : readField truncated invalid pastEnd s = .error e) : FileFormat.jpeg.Blames e := by
  rw [readField] at h
  split_ifs at h
  · exact Except.error.inj h ▸ ⟨truncated, rfl⟩
  · exact Except.error.inj h ▸ ⟨invalid, rfl⟩
  · exact Except.error.inj h ▸ ⟨pastEnd, rfl⟩

theorem readMarker_error {fill : Nat} {marker : UInt8} {s : List UInt8} {e : DomainError}
    (h : readMarker fill marker s = .error e) : FileFormat.jpeg.Blames e := by
  rw [readMarker] at h
  split_ifs at h
  · -- a scan header
    split at h
    · next e' hfield =>
      exact Except.error.inj h ▸ readField_error hfield
    · cases h
  · -- a segment
    split at h
    · next e' hfield =>
      exact Except.error.inj h ▸ readField_error hfield
    · cases h

theorem readToken_error (s : List UInt8) (e : DomainError) (h : readToken s = .error e) :
    FileFormat.jpeg.Blames e := by
  rw [readToken] at h
  split at h
  · exact Except.error.inj h ▸ ⟨_, rfl⟩
  · exact Except.error.inj h ▸ ⟨_, rfl⟩
  · exact readMarker_error h

/-- All errors of the specification blame the file. -/
theorem disarmTokens_error {data : List UInt8} {policy : Policy} {e : DomainError}
    (h : disarmTokens data policy = .error e) : FileFormat.jpeg.Blames e := by
  rw [disarmTokens] at h
  split_ifs at h
  · rw [expected] at h
    split at h
    · next e' hall =>
      obtain rfl := Except.error.inj h
      exact lexer.readAll_eq_error readToken_error _ (Nat.le_refl _) hall
    · split_ifs at h
      exact Except.error.inj h ▸ ⟨_, rfl⟩
  · exact Except.error.inj h ▸ ⟨_, rfl⟩

/-! ## Progress -/

section Progress

variable {ε : Type} {w : Width} {data : List UInt8}

/-- The loop over the markers. -/
theorem round_advances (hfit : w.Fits data.length) (policy : Policy)
    (hsoi : [0xFF, soi] <+: data) :
    Advances (round w data policy) State.i data.length start :=
  advances_of_rounds (round_spec hfit hsoi.length_le) (fun _ hi => hi) hsoi.length_le

/-- The loop over entropy-coded data, started anywhere in the file. -/
theorem scanRound_advances (hfit : w.Fits data.length) {k : Nat} (hk : k ≤ data.length) :
    Advances (scanRound w data : Nat → Exec ε _) id data.length k :=
  advances_of_rounds (scanRound_spec hfit) (fun _ hk => hk) hk

/-- The loop over a run of `FF`, started anywhere in the file. -/
theorem fillRound_advances (hfit : w.Fits data.length) {m : Nat} (hm : m ≤ data.length) :
    Advances (fillRound w data : Nat → Exec ε _) id data.length m := by
  obtain ⟨n, t, hrun, ht⟩ := exists_run (data.drop m)
  refine advances_of_rounds (I := InRun data (m + n) t)
    (fun k hin => fillRound_spec hfit ht hin) ?_ ⟨n, rfl, hm, hrun⟩
  rintro k ⟨-, -, hk, -⟩
  exact hk

end Progress

/-- **The disarmer is panic-free and makes progress**: on every file in memory and under every
policy it returns, and its errors blame the file. Every state the loop goes through is inside the
file, every round returns and moves on, and there are fewer rounds than bytes; the same holds of
the loops of `scan_data_end`, from wherever in the file they are started. -/
theorem disarm_progress (w : Width) (artifact : Artifact) (policy : Policy)
    (hfit : w.Fits artifact.bytes.length) :
    (∃ r, JpegDisarmer.disarm w artifact policy = Exec.lift r ∧
      ∀ e, r = .error e → ∃ reason, e = .malformedInput .jpeg reason) ∧
    ([0xFF, soi] <+: artifact.bytes →
      Advances (round w artifact.bytes policy) State.i artifact.bytes.length start ∧
      ∀ n st, Rounds (round w artifact.bytes policy) n start st →
        n + 2 ≤ artifact.bytes.length) ∧
    ∀ k ≤ artifact.bytes.length,
      (∃ p, (scanDataEnd w artifact.bytes k : Exec DomainError Nat) = .ok p ∧
        k ≤ p ∧ p ≤ artifact.bytes.length) ∧
      Advances (scanRound w artifact.bytes : Nat → Exec DomainError _) id artifact.bytes.length k ∧
      (∃ j, (fillEnd w artifact.bytes k : Exec DomainError Nat) = .ok j ∧
        k ≤ j ∧ j ≤ artifact.bytes.length) ∧
      Advances (fillRound w artifact.bytes : Nat → Exec DomainError _) id artifact.bytes.length k := by
  refine ⟨⟨_, disarm_eq_lift hfit policy, fun e he => disarmTokens_error he⟩, ?_, ?_⟩
  · intro hsoi
    have hadvances := round_advances hfit policy hsoi
    exact ⟨hadvances, fun n st hrounds => hadvances.rounds_le .start hrounds⟩
  · intro k hk
    exact ⟨exists_scanDataEnd hfit hk, scanRound_advances hfit hk, exists_fillEnd hfit hk,
      fillRound_advances hfit hk⟩

/-- A segment that claims more than the file holds, on the 32-bit guest. -/
theorem disarm_progress_sample :
    ∃ r, JpegDisarmer.disarm .w32
        (Artifact.new [0xFF, 0xD8, 0xFF, 0xE1, 0xFF, 0xFF, 0x45]) Policy.strict = Exec.lift r ∧
      ∀ e, r = .error e → ∃ reason, e = .malformedInput .jpeg reason :=
  (disarm_progress .w32 (Artifact.new _) Policy.strict (by decide)).1

end Jpeg

end Purgo
