import Casync.Proofs.Runs
import Casync.Scenarios

/-!
A driver without a writable store writes nothing lasting. `ca_sync_write_chunks` and
`ca_sync_write_final_chunk` return at once when no writable store is configured,
`ca_sync_put` refuses with `-EROFS`, and no call takes a configured store away again. So in
every reachable state, failed calls included, a driver that has no writable store has never
put an object, written an index record, given the index its digest, written its EOF record or
closed it. An ENCODE run with an index and no store therefore reaches `CA_SYNC_FINISHED` with
an index that has received none of these.
-/

namespace Casync.Proofs.Storeless

open Casync.Proofs.Frames Casync.Proofs.Runs

variable {σ α : Type} (E : Env σ)

/-- The calls that write the writable store or the index. -/
abbrev storeWrites : List CallKind :=
  [.storePut, .indexWriteObject, .indexSetDigest, .indexWriteEof, .indexClose]

/-- From a driver without a writable store, whatever its outcome, `m` configures none and makes
no call of `storeWrites`. -/
abbrev Unstored (m : SyncM σ α) : Prop := Guarded (fun c => c.wstore = none) storeWrites m

/-- A setter never takes a configured writable store away. -/
theorem setter_keeps_store (c : Setter) : Keeps (fun c => c.wstore ≠ none) (c.run E) := by
  cases c
  case storeLocal path =>
    cases path
    · exact .fail _
    · exact .bind .getSync fun _ => .failIf fun _ => .bind (.call E _) fun _ => .failIf fun _ =>
        .bind (.call E _) fun _ => .bind (.orReleaseStore E _) fun _ =>
          .modify fun _ _ => Option.some_ne_none _
  all_goals exact Keeps.of_footprint (setter_footprint E _) fun _ _ h hs =>
    (h.field CaSync.wstore fun _ => rfl).symm ▸ hs

theorem writeChunks_unstored (p : Bytes) : Unstored (writeChunks E p) :=
  .getSync_bind fun _ hc => .ite (fun _ => .pure _) fun h => .absurd (h (by rw [hc]; rfl))

theorem writeFinalChunk_unstored : Unstored (writeFinalChunk E) :=
  .getSync_bind fun _ hc => .ite (fun _ => .pure _) fun h => .absurd (h (by rw [hc]; rfl))

theorem encodeData_unstored : Unstored (encodeData E) :=
  .bind (.call E rfl) fun _ => .bind (.orFail _) fun _ =>
    .bind (.of_frame (writeArchive_footprint E _) (fun _ _ => rfl) (by decide)) fun _ =>
    .bind (.of_frame (writeArchiveDigest_footprint E _) (fun _ _ => rfl) (by decide)) fun _ =>
    writeChunks_unstored E _

theorem encodeFinished_unstored : Unstored (encodeFinished E) :=
  .bind .getSync fun _ =>
    .bind (.of_frame (installTemporary_footprint E [.temporaryArchivePath] _ _ fun _ => rfl)
      (fun _ _ => rfl) (by decide)) fun _ =>
    .bind (writeFinalChunk_unstored E) fun _ => .bind (.modify fun _ h => h) fun _ => .pure _

theorem stepEncode_unstored : Unstored (stepEncode E) :=
  stepEncode_rules E (Guarded.rules E (fun _ _ h hw => (h.field CaSync.wstore fun _ => rfl).trans hw)
    (by decide)) (encodeFinished_unstored E) (encodeData_unstored E) (.throw _)

theorem exec_unstored {op : Op} (hop : ∀ c, op ≠ .set c) : Unstored (exec E op) := by
  cases op with
  | set c => exact absurd rfl (hop c)
  | step =>
      refine .bind (.bind (.of_frame (start_footprint E) (fun _ _ => rfl) (by decide)) fun _ =>
        .getSync_bind fun c _ => ?_) fun _ => .pure _
      split
      exacts [stepEncode_unstored E, .of_frame (stepDecode_footprint E) (fun _ _ => rfl)
        (by decide)]
  | put id data =>
      exact .bind (.getSync_bind fun _ hc => .ite (fun _ => .fail _) fun h =>
        .absurd (h (by rw [hc]; rfl))) fun _ => .pure _
  | _ => exact .of_frame (query_footprint E _ (by trivial)) (fun _ _ => rfl) (by decide)

/-- In every reachable state, failed calls included, a driver without a writable store has
never put an object or written to its index: no record, no digest, no EOF record, no close. -/
theorem unstored_writes_nothing {s : Sys σ} (hr : Reachable E s) (hw : s.sync.wstore = none) :
    callsIn storeWrites s.log = [] := by
  induction hr with
  | new dir => rfl
  | exec op _ ih =>
      by_cases hop : ∀ c, op ≠ .set c
      · have h₀ := (((exec_footprint E hop) _).1.field CaSync.wstore fun _ => rfl).symm.trans hw
        obtain ⟨-, Δ, hΔ, hc⟩ := exec_unstored E hop _ h₀
        rw [hΔ, callsIn_append, ih h₀, hc]
        rfl
      · obtain ⟨c, rfl⟩ := not_forall_not.mp hop
        rw [(exec_set_footprint E c).callsIn_after (by decide)]
        refine ih (Classical.not_not.mp fun h => ?_)
        exact ((setter_keeps_store E c).bind fun _ => .pure _) _ h hw

theorem unstored_writes_nothing_index :
    (runOps (sliceEnv [1, 2, 3]) (configure (sliceEnv [1, 2, 3]) .encode [.baseFd 5, .indexFd 7])
        [.step, .step]).2 = [(.step, .ok (.status .step)), (.step, .ok (.status .finished))] ∧
      (configure (sliceEnv [1, 2, 3]) .encode [.baseFd 5, .indexFd 7]).sync.index = true ∧
      callsIn storeWrites (runOps (sliceEnv [1, 2, 3])
        (configure (sliceEnv [1, 2, 3]) .encode [.baseFd 5, .indexFd 7]) [.step, .step]).1.log = [] :=
  ⟨by decide, by decide,
    unstored_writes_nothing _ (runOps_reachable _ _ (configure_reachable _ _ _)) (by decide)⟩

end Casync.Proofs.Storeless
