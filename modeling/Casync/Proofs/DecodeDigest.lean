import Casync.Proofs.ArchiveDigest
import Casync.Wp

/-!
Without an index, a DECODE driver never feeds its archive digest.
`ca_sync_process_decoder_request` writes to the archive digest only on its index branch; an
archive read through `ca_decoder_put_data_fd` goes to the decoder by its descriptor, and its
bytes never pass through the driver. No call takes an index away again once it is set up. So
in every reachable DECODE state without an index, failed calls included, the archive digest
holds no bytes, and `ca_sync_get_digest`, when it succeeds, returns SHA-256 of the empty input,
whatever the archive held.
-/

namespace Casync.Proofs.DecodeDigest

open Casync.Proofs.Frames Casync.Proofs.Runs Casync.Proofs.ArchiveDigest

variable {σ α : Type} (E : Env σ)

/-- The direction of a driver, whether it has an index, and the bytes its archive digest
holds. -/
def digestView (c : CaSync σ) : CaDirection × Bool × Bytes :=
  (c.direction, c.index, c.archiveDigest.getD [])

/-- From a DECODE driver without an index whose archive digest holds `d`, `m` keeps it so,
whatever its outcome. -/
abbrev KeepsDigest (d : Bytes) (m : SyncM σ α) : Prop :=
  Guarded (fun c => digestView c = (.decode, false, d)) [] m

theorem processDecoderRequest_keepsDigest (d : Bytes) :
    KeepsDigest d (processDecoderRequest E) :=
  .getSync_bind fun _ hc => .ite (fun h => .absurd (by simp [digestView, h] at hc)) fun _ =>
    .ite (fun _ => .bind (.call E rfl) fun _ => .orFail _) fun _ => .fail _

theorem decodeFinished_keepsDigest (d : Bytes) : KeepsDigest d (decodeFinished E) :=
  .of_frame (decodeFinished_footprint E) (fun _ _ => rfl) (by decide)

theorem step_keepsDigest (d : Bytes) : KeepsDigest d (step E) := by
  refine .bind (.of_frame (start_footprint E) (fun _ _ => rfl) (by decide)) fun _ =>
    .getSync_bind fun c hc => ?_
  rw [show c.direction = .decode from congrArg Prod.fst hc]
  exact stepDecode_rules E (Guarded.rules E (fun _ _ h hc => (h.field digestView fun _ => rfl).trans hc)
    fun _ _ => List.not_mem_nil _) (decodeFinished_keepsDigest E d)
    (processDecoderRequest_keepsDigest E d)

/-- A setter never takes an index away: `ca_sync_allocate_index` refuses a second one with
`-EBUSY` before anything else happens. -/
theorem setter_keeps_index (c : Setter) : Keeps (fun c => c.index = true) (c.run E) := by
  have hattach (src : SyncM σ (Except Int Unit)) :
      Keeps (fun c => c.index = true) (attachIndex E src) := fun s hs =>
    (Wp.after_iff (P := fun s' => s'.sync.index = true)).mp
      (by simp [attachIndex, allocateIndex, hs])
  cases c
  case indexFd fd => exact .ite (fun _ => .fail _) fun _ => hattach _
  case indexPath path =>
    simp only [Setter.run, setIndexPath]
    split
    exacts [hattach _, .fail _]
  all_goals exact Keeps.of_footprint (setter_footprint E _) fun _ _ h hs =>
    (h.field CaSync.index fun _ => rfl).symm ▸ hs

/-- The run lemma: a reachable DECODE driver without an index has fed its archive digest
nothing. -/
theorem reachable_undigested {s : Sys σ} (hr : Reachable E s) :
    s.sync.direction = .decode → s.sync.index = false → s.sync.archiveDigest.getD [] = [] := by
  induction hr with
  | new dir => intro _ _; rfl
  | @exec s op _ ih =>
      intro hd hix
      by_cases hop : ∀ c, op ≠ .set c
      · have hF := ((exec_footprint E hop) s).1
        have hd₀ := (hF.field CaSync.direction fun _ => rfl).symm.trans hd
        have hix₀ := (hF.field CaSync.index fun _ => rfl).symm.trans hix
        cases op with
        | set c => exact absurd rfl (hop c)
        | step =>
            have h := (show KeepsDigest [] (exec E .step) from
              (step_keepsDigest E []).bind fun _ => .pure _) s
                (by simp only [digestView, hd₀, hix₀, ih hd₀ hix₀])
            exact congrArg (·.2.2) h.1
        | put id data =>
            rw [((show Footprint [.storePut] [] (exec E (.put id data)) from
              (put_footprint E id data).bind fun _ => .pure _) s).1.field
                CaSync.archiveDigest fun _ => rfl]
            exact ih hd₀ hix₀
        | _ =>
            rw [query_keeps_digest E (by trivial) s]
            exact ih hd₀ hix₀
      · obtain ⟨c, rfl⟩ := not_forall_not.mp hop
        have hF := ((exec_set_footprint E c) s).1
        rw [hF.field CaSync.archiveDigest fun _ => rfl]
        refine ih ((hF.field CaSync.direction fun _ => rfl).symm.trans hd) ?_
        cases hix₀ : s.sync.index
        · rfl
        · exact absurd ((show Keeps (fun c => c.index = true) (exec E (.set c)) from
            (setter_keeps_index E c).bind fun _ => .pure _) s hix₀) (by simp [hix])

/-- A DECODE driver without an index, in any reachable state: whatever archive it has read,
`ca_sync_get_digest`, when it succeeds, returns SHA-256 of the empty input. -/
theorem getDigest_without_index {s : Sys σ} (hr : Reachable E s)
    (hd : s.sync.direction = .decode) (hix : s.sync.index = false) {id : ObjectId}
    (hid : outcome (getDigest E) s = .ok id) : id = E.sha256 [] := by
  cases he : s.sync.eof
  · simp [outcome, getDigest, he, run_bind] at hid
  · rw [getDigest_outcome E s he, reachable_undigested E hr hd hix] at hid
    split at hid
    · exact absurd hid nofun
    · exact (Except.ok.inj hid).symm

theorem getDigest_without_index_archive :
    countCalls .decoderPutDataFd (runOps archiveFedEnv
        (configure archiveFedEnv .decode archiveDecodeConfig) [.step, .step]).1.log = 1 ∧
      outcome (getDigest archiveFedEnv) (runOps archiveFedEnv
        (configure archiveFedEnv .decode archiveDecodeConfig) [.step, .step]).1 =
        .ok (archiveFedEnv.sha256 []) := by
  have h : outcome (getDigest archiveFedEnv) (runOps archiveFedEnv
      (configure archiveFedEnv .decode archiveDecodeConfig) [.step, .step]).1 =
      .ok (digestStub []) := by decide
  exact ⟨by decide, getDigest_without_index _ (runOps_reachable _ _ (configure_reachable _ _ _))
    (by decide) (by decide) h ▸ h⟩

end Casync.Proofs.DecodeDigest
