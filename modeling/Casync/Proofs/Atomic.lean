import Casync.Proofs.Runs
import Casync.Wp
import Casync.Scenarios

/-!
When output files are moved into place. The temporary archive of an ENCODE run and the
temporary base of a DECODE run are renamed onto their final paths only in the branch of
`ca_sync_step_encode` and `ca_sync_step_decode` that handles the end of the stream. A DECODE
step that moves a file reports `CA_SYNC_FINISHED`; an ENCODE step moves the archive before
`ca_sync_write_final_chunk` stores the last chunk and finishes the index, so that a failure
there makes the step fail with the archive already in place.
-/

namespace Casync.Proofs.Atomic

open Casync.Proofs.Frames Casync.Proofs.Runs

variable {σ : Type} (E : Env σ)

theorem moved_wp {K : List CallKind} {F : List Field} {α : Type} {m : SyncM σ α}
    (h : Footprint K F m) (hK : .rename ∉ K) (s : Sys σ) :
    Wp m s (fun _ s' => moved s'.log = moved s.log) fun _ s' => moved s'.log = moved s.log :=
  Wp.after_iff.mpr (h.moved_after hK s)

/-- A failed `rename` moves nothing, so neither does a failed `installTemporary`. -/
theorem installTemporary_fails_unmoved (tmp path : Option String)
    (clearTmp : CaSync σ → CaSync σ) (s : Sys σ) :
    Wp (installTemporary E tmp path clearTmp) s (fun _ _ => True)
      fun _ s' => moved s'.log = moved s.log := by
  unfold installTemporary
  split
  · simp only [Wp.bind_iff, Wp.call_iff, Wp.orFail_iff, Wp.modifySync_iff]
    exact ⟨fun _ _ => trivial, fun _ hr => by simp [hr, Event.movedOf]⟩
  · exact trivial

section Steps

variable (s : Sys σ)

/-- The end of an ENCODE stream: it finishes, or it fails inside `ca_sync_write_final_chunk`
after a file was moved, or it fails having moved nothing. -/
theorem encodeFinished_moves : Wp (encodeFinished E) s (fun st _ => st = .finished)
    fun f s' => moved s'.log ≠ moved s.log →
      ∃ s₁, moved s₁.log ≠ moved s.log ∧ (writeFinalChunk E).run s₁ = .error f s' := by
  simp only [encodeFinished, Wp.bind_iff, Wp.getSync_iff]
  refine (installTemporary_fails_unmoved E _ _ _ s).mono (fun _ s₁ _ => ?_)
    fun _ _ h hne => absurd h hne
  simp only [Wp.bind_iff, Wp.modifySync_iff, Wp.pure_iff]
  by_cases hm₁ : moved s₁.log = moved s.log
  · exact (moved_wp (writeFinalChunk_footprint E) (by decide) s₁).mono (fun _ _ _ => trivial)
      fun _ _ h hne => absurd (h.trans hm₁) hne
  · exact (Wp.run_eq _ _).mono (fun _ _ _ => trivial) fun _ _ h _ => ⟨s₁, hm₁, h⟩

theorem stepEncode_moves : Wp (stepEncode E) s
    (fun st s' => moved s'.log ≠ moved s.log → st = .finished)
    fun f s' => moved s'.log ≠ moved s.log →
      ∃ s₁, moved s₁.log ≠ moved s.log ∧ (writeFinalChunk E).run s₁ = .error f s' := by
  simp only [stepEncode, abort, Wp.bind_iff, Wp.getSync_iff, Wp.ite_iff, Wp.fail_iff,
    Wp.throw_iff, Wp.call_iff, Wp.orFail_iff]
  have hm : moved (s.log ++ [⟨.encoderStep, E.answer s.log .encoderStep⟩]) = moved s.log := by
    simp [Event.movedOf]
  refine ⟨fun _ h => absurd rfl h, fun _ => ⟨fun _ => ⟨fun st _ => ?_, fun _ _ h => absurd hm h⟩,
    fun _ h => absurd rfl h⟩⟩
  cases st with
  | finished =>
      refine (encodeFinished_moves E _).mono (fun _ _ h _ => h) fun f s' h hne => ?_
      rw [hm] at h
      exact h hne
  | nextFile | data =>
      simp only [Wp.bind_iff, Wp.pure_iff]
      exact (moved_wp (encodeData_footprint E) (by decide) _).mono
        (fun _ _ h hne => absurd (h.trans hm) hne) fun _ _ h hne => absurd (h.trans hm) hne
  | other => simp [hm]

theorem stepDecode_moves : Wp (stepDecode E) s
    (fun st s' => moved s'.log ≠ moved s.log → st = .finished)
    fun _ s' => moved s'.log = moved s.log := by
  simp only [stepDecode, decodeFinished, Wp.bind_iff, Wp.map_iff, Wp.getSync_iff, Wp.ite_iff,
    Wp.fail_iff, Wp.call_iff, Wp.orFail_iff, Wp.modifySync_iff, Wp.pure_iff]
  have hm : moved (s.log ++ [⟨.decoderStep, E.answer s.log .decoderStep⟩]) = moved s.log := by
    simp [Event.movedOf]
  refine ⟨fun _ => by simp, fun _ => ⟨fun _ => by simp, fun _ => ⟨fun st _ => ?_, fun _ _ => hm⟩⟩⟩
  cases st with
  | finished =>
      simp only [Wp.bind_iff, Wp.getSync_iff, Wp.map_iff, Wp.modifySync_iff, Wp.pure_iff]
      exact (installTemporary_fails_unmoved E _ _ _ _).mono (fun _ _ _ _ => trivial)
        fun _ _ h => h.trans hm
  | request =>
      simp only [Wp.bind_iff, Wp.pure_iff]
      exact (moved_wp (processDecoderRequest_footprint E) (by decide) _).mono
        (fun _ _ h hne => absurd (h.trans hm) hne) fun _ _ h => h.trans hm
  | nextFile | step | payload | other => simp [hm]

end Steps

/-- An ENCODE driver between steps, with the pending chunk `[1, 2, 3]`: the temporary
archive `out~` of the archive path `out` is open on descriptor 3 and the encoder holds the
base. -/
def pendingArchive : Sys Unit :=
  ⟨{ caSyncNew () .encode with
      encoder := true, archiveFd := 3, archivePath := some "out",
      temporaryArchivePath := some "out~", wstore := some "store", buffer := [1, 2, 3],
      archiveDigest := some [1, 2, 3] }, []⟩

/-- A step that moves a file into place either reports `CA_SYNC_FINISHED`, or is an ENCODE
step that fails inside `ca_sync_write_final_chunk`, started after the move: the failure of the
step is the failure of that call, and the file stays moved. -/
theorem step_moves_only_when_finishing (s : Sys σ)
    (hmv : moved (after (step E) s).log ≠ moved s.log) :
    outcome (step E) s = .ok .finished ∨
      s.sync.direction = .encode ∧ ∃ s₁ f, moved s₁.log ≠ moved s.log ∧
        (writeFinalChunk E).run s₁ = .error f (after (step E) s) ∧ outcome (step E) s = .error f := by
  have h : Wp (step E) s (fun st s' => moved s'.log ≠ moved s.log → st = .finished)
      fun f s' => moved s'.log ≠ moved s.log → s.sync.direction = .encode ∧
        ∃ s₁, moved s₁.log ≠ moved s.log ∧ (writeFinalChunk E).run s₁ = .error f s' := by
    simp only [step, Wp.bind_iff]
    refine (((start_footprint E).wp s).and (moved_wp (start_footprint E) (by decide) s)).mono
      ?_ fun _ _ h hne => absurd h.2 hne
    rintro _ s₁ ⟨⟨hF, -⟩, hm⟩
    have hd := hF.field CaSync.direction fun _ => rfl
    simp only [Wp.getSync_iff]
    split
    · refine (stepEncode_moves E s₁).mono (fun _ _ h hne => h (by rwa [hm])) fun f s' h hne => ?_
      rw [hm] at h
      exact ⟨by rw [← hd]; assumption, h hne⟩
    · exact (stepDecode_moves E s₁).mono (fun _ _ h hne => h (by rwa [hm]))
        fun _ _ h hne => absurd (h.trans hm) hne
  unfold Wp at h
  unfold outcome after at *
  cases hr : (step E).run s with
  | ok st s' =>
      simp only [hr] at h hmv ⊢
      exact .inl (congrArg _ (h hmv))
  | error f s' =>
      simp only [hr] at h hmv ⊢
      obtain ⟨hd, s₁, hne, hrun⟩ := h hmv
      exact .inr ⟨hd, s₁, f, hne, hrun, rfl⟩

theorem step_moves_only_when_finishing_at_end :
    outcome (step emptyEnv) pendingArchive = .ok .finished ∨
      pendingArchive.sync.direction = .encode ∧ ∃ s₁ f, moved s₁.log ≠ moved pendingArchive.log ∧
        (writeFinalChunk emptyEnv).run s₁ = .error f (after (step emptyEnv) pendingArchive) ∧
        outcome (step emptyEnv) pendingArchive = .error f :=
  step_moves_only_when_finishing _ _ (by decide)

/-- An ENCODE run whose archive is given as the path `out` and whose store refuses every put:
the first step writes the slice to the temporary archive `out~`; the second moves it onto
`out` and then fails in `ca_sync_write_final_chunk` with `-EIO`. -/
theorem archive_moved_by_failing_step :
    (runOps (storeDownEnv [1, 2, 3]) (configure (storeDownEnv [1, 2, 3]) .encode archiveConfig)
        [.step, .step]).2 = [(.step, .ok (.status .step)), (.step, .error (.ret (- EIO)))] ∧
      moved (runOps (storeDownEnv [1, 2, 3]) (configure (storeDownEnv [1, 2, 3]) .encode
        archiveConfig) [.step, .step]).1.log = [("out~", "out")] := by
  have h₁ := exec_step_encode (storeDownEnv [1, 2, 3])
    (s := configure (storeDownEnv [1, 2, 3]) .encode archiveConfig) (by decide) (by decide)
  have h₂ := exec_step_encode (storeDownEnv [1, 2, 3])
    (s := after (exec (storeDownEnv [1, 2, 3]) .step)
      (configure (storeDownEnv [1, 2, 3]) .encode archiveConfig))
    (by rw [h₁.2]; decide) (by rw [h₁.2]; decide)
  rw [runOps_cons, runOps_cons, h₂.1, h₂.2, h₁.1, h₁.2]
  decide

end Casync.Proofs.Atomic
