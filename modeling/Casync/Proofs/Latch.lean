import Casync.Proofs.Runs
import Casync.Wp
import Casync.Scenarios

/-!
What a step does once `eof` is latched. `ca_sync_step` runs `ca_sync_start` before
`ca_sync_step_encode` or `ca_sync_step_decode` looks at `eof`, so a step after the end still
runs the archive block of `ca_sync_start` and opens the index again, and then fails with
`-EPIPE`. In every reachable state with `eof` latched the encoder (or the decoder) is present,
so the rest of `ca_sync_start` does nothing. The archive block in turn does nothing unless an
ENCODE archive path was set after the latch, and then it creates its temporary archive.
-/

namespace Casync.Proofs.Latch

open Casync.Proofs.Frames Casync.Proofs.Runs

variable {σ : Type} (E : Env σ)

/-- With `eof` latched, the encoder or decoder of the driver's direction exists. -/
def Engaged (s : Sys σ) : Prop :=
  s.sync.eof = true → (s.sync.direction = .encode → s.sync.encoder = true) ∧
    (s.sync.direction = .decode → s.sync.decoder = true)

/-- The fields `Engaged` does not read. -/
abbrev engagedFree : List Field :=
  [.wstore, .rstores, .chunker, .baseFd, .archiveFd, .basePath, .archivePath, .temporaryBasePath,
    .temporaryArchivePath, .baseMode, .makePermMode, .buffer, .objectDigest, .archiveDigest, .index]

/-- The calls of a step after the end. -/
abbrev latchCalls : List CallKind := [.tempfnRandom, .create, .indexOpen]

theorem latched_footprint :
    Footprint latchCalls [.archiveFd, .temporaryArchivePath] (startArchive E >>= fun _ => startIndex E) :=
  .bind ((startArchive_footprint E).mono (by decide) (by decide)) fun _ =>
    (startIndex_footprint E).mono (by decide) (by decide)

variable {E} {s : Sys σ}

theorem Engaged.frame {s' : Sys σ} {F : List Field} (h : Engaged s) (hF : Only F s.sync s'.sync)
    (hsub : F ⊆ engagedFree) : Engaged s' := by
  have hF' := hF.mono hsub
  rw [Engaged, hF'.field CaSync.eof fun _ => rfl, hF'.field CaSync.direction fun _ => rfl,
    hF'.field CaSync.encoder fun _ => rfl, hF'.field CaSync.decoder fun _ => rfl]
  exact h

theorem startEncoder_run_idle (h : ¬(s.sync.direction = .encode ∧ s.sync.encoder = false)) :
    (startEncoder E).run s = .ok () s := by
  simp only [startEncoder, run_bind, run_getSync]
  rw [if_neg h]
  rfl

theorem startDecoder_run_idle (h : ¬(s.sync.direction = .decode ∧ s.sync.decoder = false)) :
    (startDecoder E).run s = .ok () s := by
  simp only [startDecoder, run_bind, run_getSync]
  rw [if_neg h]
  rfl

/-- With the encoder or decoder present, `ca_sync_start` is its archive block and the opening
of the index. -/
theorem start_run_latched (h : Engaged s) (he : s.sync.eof = true) :
    (start E).run s = (startArchive E >>= fun _ => startIndex E).run s := by
  unfold start
  rw [run_bind, run_bind]
  cases hr : (startArchive E).run s with
  | error => rfl
  | ok a s₁ =>
      have hF : Only [.archiveFd, .temporaryArchivePath] s.sync s₁.sync := by
        have := ((startArchive_footprint E) s).1
        simp only [after, hr] at this
        exact this
      have h₁ := h he
      rw [← hF.field CaSync.direction fun _ => rfl, ← hF.field CaSync.encoder fun _ => rfl,
        ← hF.field CaSync.decoder fun _ => rfl] at h₁
      dsimp only
      rw [run_bind, startEncoder_run_idle fun ⟨hd, hn⟩ => by simp [h₁.1 hd] at hn]
      dsimp only
      rw [run_bind, startDecoder_run_idle fun ⟨hd, hn⟩ => by simp [h₁.2 hd] at hn]

/-- With `eof` latched, a step is `ca_sync_start` followed by `-EPIPE`. -/
theorem step_run_latched (he : s.sync.eof = true) :
    (step E).run s = match (start E).run s with
      | .ok _ s₁ => .error (.ret (-EPIPE)) s₁
      | .error f s₁ => .error f s₁ := by
  unfold step
  rw [run_bind]
  cases hr : (start E).run s with
  | error => rfl
  | ok a s₁ =>
      have he₁ : s₁.sync.eof = true := by
        have := ((start_footprint E) s).1.field CaSync.eof fun _ => rfl
        simp only [after, hr] at this
        rw [this, he]
      dsimp only
      rw [run_bind, run_getSync]
      cases hd : s₁.sync.direction <;>
        simp only [hd, stepEncode, stepDecode, run_bind, run_getSync, he₁, if_true] <;> rfl

/-- The archive block of `ca_sync_start` has work to do: an ENCODE archive given as a path and
not open yet. -/
def ArchivePending (c : CaSync σ) : Prop :=
  c.direction = .encode ∧ c.archiveFd < 0 ∧ c.archivePath.isSome

instance decArchivePending (c : CaSync σ) : Decidable (ArchivePending c) :=
  inferInstanceAs (Decidable (_ ∧ _ ∧ _))

theorem startArchive_run_idle (h : ¬ArchivePending s.sync) : (startArchive E).run s = .ok () s := by
  simp only [startArchive, run_bind, run_getSync]
  split
  · rename_i hg
    cases hp : s.sync.archivePath with
    | none => rfl
    | some _ => exact absurd ⟨hg.1, hg.2, by simp [hp]⟩ h
  · rfl

/-- An archive path with no temporary file yet: `tempfn_random` draws one and the exclusive
`open` creates it. -/
theorem startArchive_run_creates {p tmp : String} {fd : Nat} (hd : s.sync.direction = .encode)
    (hfd : s.sync.archiveFd < 0) (hp : s.sync.archivePath = some p)
    (ht : s.sync.temporaryArchivePath = none) (htmp : E.answer s.log (.tempfnRandom p) = .ok tmp)
    (hopen : E.answer (s.log ++ [⟨.tempfnRandom p, .ok tmp⟩])
      (.openFile tmp (.createExcl (s.sync.makePermMode &&& 0o666))) = .ok fd) :
    (startArchive E).run s = .ok () ⟨{ s.sync with archiveFd := fd, temporaryArchivePath := some tmp },
      s.log ++ [⟨.tempfnRandom p, .ok tmp⟩,
        ⟨.openFile tmp (.createExcl (s.sync.makePermMode &&& 0o666)), .ok fd⟩]⟩ := by
  simp [startArchive, createTemporary, run_bind, hd, hfd, hp, ht, htmp, hopen]

theorem startIndex_after (s : Sys σ) : after (startIndex E) s =
    { s with log := s.log ++ if s.sync.index then [⟨.indexOpen, E.answer s.log .indexOpen⟩] else [] } := by
  cases hi : s.sync.index <;> cases h : E.answer s.log .indexOpen <;>
    simp [startIndex, after, run_bind, hi, h]

theorem step_engaged (h : Engaged s) : Engaged (after (step E) s) := by
  cases he : s.sync.eof
  · refine Wp.after_iff.mp ?_
    simp only [step, Wp.bind_iff]
    refine ((start_footprint E).wp s).mono (fun _ s₁ hs₁ => ?_) fun _ s₁ hs₁ h₁ => ?_
    · have he₁ : s₁.sync.eof = false := (hs₁.1.field CaSync.eof fun _ => rfl).trans he
      simp only [Wp.getSync_iff]
      split
      · rename_i hd
        cases henc : s₁.sync.encoder
        · simp only [stepEncode, abort, Wp.bind_iff, Wp.getSync_iff, he₁, henc, Bool.false_eq_true,
            if_false, Wp.pure_iff, Wp.throw_iff, Engaged, false_implies]
        · refine ((stepEncode_footprint E).wp s₁).mono (fun _ s' hs' _ => ?_)
            fun _ s' hs' _ => ?_ <;>
          · rw [hs'.1.field CaSync.direction fun _ => rfl, hd,
              hs'.1.field CaSync.encoder fun _ => rfl, henc]
            simp
      · rename_i hd
        cases hdec : s₁.sync.decoder
        · simp only [stepDecode, Wp.bind_iff, Wp.getSync_iff, he₁, hdec, Bool.false_eq_true,
            if_false, if_true, Wp.pure_iff, Wp.fail_iff, Engaged, false_implies]
        · refine ((stepDecode_footprint E).wp s₁).mono (fun _ s' hs' _ => ?_)
            fun _ s' hs' _ => ?_ <;>
          · rw [hs'.1.field CaSync.direction fun _ => rfl, hd,
              hs'.1.field CaSync.decoder fun _ => rfl, hdec]
            simp
    · rw [hs₁.1.field CaSync.eof fun _ => rfl, he] at h₁
      cases h₁
  · have hafter : after (step E) s = after (startArchive E >>= fun _ => startIndex E) s := by
      unfold after
      rw [step_run_latched he, ← start_run_latched h he]
      cases (start E).run s <;> rfl
    rw [hafter]
    exact h.frame ((latched_footprint E) s).1 (by decide)

theorem exec_engaged (h : Engaged s) (op : Op) : Engaged (after (exec E op) s) := by
  cases op with
  | set c => exact h.frame ((exec_set_footprint E c) s).1 (by decide)
  | step =>
      simp only [exec, after_bind_pure]
      exact step_engaged h
  | put id data =>
      exact h.frame ((Footprint.bind (put_footprint E id data) fun _ => .pure _) s).1 (by decide)
  | get | makeObjectId | getDigest | currentPath | currentMode =>
      exact h.frame ((query_footprint E _ (by trivial)) s).1 (by decide)

theorem reachable_engaged (hr : Reachable E s) : Engaged s := by
  induction hr with
  | new dir => exact fun h => nomatch h
  | exec op _ ih => exact exec_engaged ih op

variable (E) in
/-- What a step does from a state whose `eof` is latched. -/
structure AfterLatch (s : Sys σ) : Prop where
  /-- It fails with `-EPIPE` after `ca_sync_start`, or with the failure of `ca_sync_start`. -/
  outcome : outcome (step E) s = (outcome (start E) s).bind fun _ => .error (.ret (-EPIPE))
  /-- It leaves the state that the archive block of `ca_sync_start` and `ca_index_open` leave. -/
  state : after (step E) s = after (startArchive E >>= fun _ => startIndex E) s
  frame : Only [.archiveFd, .temporaryArchivePath] s.sync (after (step E) s).sync
  calls : ∃ Δ, (after (step E) s).log = s.log ++ Δ ∧ ∀ e ∈ Δ, e.call.kind ∈ latchCalls
  /-- Without an archive path to open, it only calls `ca_index_open` again, if there is an
  index. -/
  reopens : ¬ArchivePending s.sync → after (step E) s =
    { s with log := s.log ++ if s.sync.index then [⟨.indexOpen, E.answer s.log .indexOpen⟩] else [] }
  /-- An ENCODE archive path set after the latch gets its temporary archive, and the index is
  opened again after it. -/
  creates : ∀ {p tmp : String} {fd : Nat}, s.sync.direction = .encode → s.sync.archiveFd < 0 →
    s.sync.archivePath = some p → s.sync.temporaryArchivePath = none →
    E.answer s.log (.tempfnRandom p) = .ok tmp →
    E.answer (s.log ++ [⟨.tempfnRandom p, .ok tmp⟩])
      (.openFile tmp (.createExcl (s.sync.makePermMode &&& 0o666))) = .ok fd →
    (after (step E) s).sync = { s.sync with archiveFd := fd, temporaryArchivePath := some tmp } ∧
      (after (step E) s).log = s.log ++ [⟨.tempfnRandom p, .ok tmp⟩,
          ⟨.openFile tmp (.createExcl (s.sync.makePermMode &&& 0o666)), .ok fd⟩] ++
        if s.sync.index then [⟨.indexOpen, E.answer (s.log ++ [⟨.tempfnRandom p, .ok tmp⟩,
          ⟨.openFile tmp (.createExcl (s.sync.makePermMode &&& 0o666)), .ok fd⟩]) .indexOpen⟩]
        else []

/-- From every reachable state in which `eof` is latched, a step runs `ca_sync_start` and then
fails with `-EPIPE`, or with the failure of `ca_sync_start`. It leaves exactly the state that
the archive block of `ca_sync_start` and `ca_index_open` leave: it changes at most the archive
descriptor and the temporary archive path, and its only calls are `tempfn_random`, the
exclusive `open` and `ca_index_open`. Without an ENCODE archive path to open it only opens the
index again, if there is one; with one set after the latch it creates its temporary archive
first. -/
theorem step_after_latch (hr : Reachable E s) (he : s.sync.eof = true) : AfterLatch E s := by
  have hrun := step_run_latched (E := E) he
  have hstart := start_run_latched (E := E) (reachable_engaged hr) he
  have hafter : after (step E) s = after (startArchive E >>= fun _ => startIndex E) s := by
    unfold after
    rw [hrun, ← hstart]
    cases (start E).run s <;> rfl
  refine ⟨?_, hafter, hafter ▸ ((latched_footprint E) s).1, hafter ▸ ((latched_footprint E) s).2,
    fun hp => ?_, fun hd hfd hp ht htmp hopen => ?_⟩
  · unfold outcome
    rw [hrun]
    cases (start E).run s <;> rfl
  · rw [hafter, after_bind, startArchive_run_idle hp]
    exact startIndex_after s
  · rw [hafter, after_bind, startArchive_run_creates hd hfd hp ht htmp hopen]
    exact ⟨congrArg Sys.sync (startIndex_after _), congrArg Sys.log (startIndex_after _)⟩

theorem step_after_latch_with_index :
    AfterLatch emptyEnv (runOps emptyEnv (configure emptyEnv .encode indexConfig) [.step]).1 :=
  step_after_latch (runOps_reachable emptyEnv [.step] (configure_reachable emptyEnv .encode indexConfig))
    (by decide)

/-- With an index, the step after `CA_SYNC_FINISHED` opens the index a second time before it
fails with `-EPIPE`. -/
theorem index_reopened_after_latch :
    (runOps emptyEnv (configure emptyEnv .encode indexConfig) [.step, .step]).2 =
        [(.step, .ok (.status .finished)), (.step, .error (.ret (-EPIPE)))] ∧
      countCalls .indexOpen
        (runOps emptyEnv (configure emptyEnv .encode indexConfig) [.step, .step]).1.log = 2 := by
  decide

end Casync.Proofs.Latch
