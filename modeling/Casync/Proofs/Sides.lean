import Casync.Proofs.Runs
import Casync.Scenarios

/-!
The two directions of a driver stay apart. A driver is created for ENCODE or for DECODE and no
call changes its direction; `ca_sync_start`, `ca_sync_step`, `ca_sync_allocate_index` and the
path queries each look at the direction before touching a collaborator. So in every reachable
state, failed calls included, an ENCODE driver has never created a decoder or a read index,
handed a decoder data, read an index record, released an object buffer or made a base
directory, and a DECODE driver has never created an encoder or a write index, asked an encoder
for data, written the archive, grown the chunk buffer, or written the index.
-/

namespace Casync.Proofs.Sides

open Casync.Proofs.Frames Casync.Proofs.Runs

variable {σ α β : Type} (E : Env σ)

/-- The calls of the ENCODE pipeline alone. -/
abbrev encodeOnly : List CallKind :=
  [.encoderNew, .encoderSetBaseFd, .encoderStep, .encoderGetData, .encoderCurrentPath,
    .encoderCurrentMode, .loopWrite, .reallocBufferAppend, .indexNewWrite, .indexWriteObject,
    .indexSetDigest, .indexWriteEof, .indexClose]

/-- The calls of the DECODE pipeline alone. -/
abbrev decodeOnly : List CallKind :=
  [.decoderNew, .decoderSetBaseFd, .decoderSetBaseMode, .decoderStep, .decoderPutData,
    .decoderPutDataFd, .decoderPutEof, .decoderCurrentPath, .decoderCurrentMode, .indexNewRead,
    .indexReadObject, .free, .mkdir]

/-- The calls a driver of direction `d` must not make: those of the other direction. -/
def foreign : CaDirection → List CallKind
  | .encode => decodeOnly
  | .decode => encodeOnly

/-- From a state of direction `d`, whatever its outcome, `m` keeps the direction and makes no
call of the other direction. -/
abbrev Sided (d : CaDirection) (m : SyncM σ α) : Prop :=
  Guarded (fun c => c.direction = d) (foreign d) m

variable {E} in
theorem shared_sided {d : CaDirection} {c : Call}
    (h : (encodeOnly ++ decodeOnly).elem c.kind = false) : Sided d (call E c) := by
  simp only [List.elem_eq_mem, decide_eq_false_iff_not, List.mem_append, not_or] at h
  cases d <;> refine Guarded.call E ?_ <;> simp [foreign, h]

/-- The index is created for the driver's direction. -/
theorem allocateIndex_sided (d : CaDirection) : Sided d (allocateIndex E) :=
  .getSync_bind fun _ hc => .failIf fun _ => by
    cases d <;> rw [hc] <;> exact .bind (.call E rfl) fun _ => .failIf fun _ => .modify fun _ h => h

/-- Setters change no direction, and make no one-sided call but the index's creation. -/
theorem setter_sided (c : Setter) (d : CaDirection) : Sided d (c.run E) := by
  have R (K : List CallKind) (F : List Field) (hF : .direction ∉ F)
      (hK : ∀ k ∈ K, k ∉ foreign d) : Rules E (Sided d) K F :=
    Guarded.rules E (fun _ _ h hd => (h.field CaSync.direction fun _ => by
      simp [CaSync.restore, hF]).trans hd) hK
  have hattach {source : SyncM σ (Except Int Unit)} (h : Sided d source) :
      Sided d (attachIndex E source) :=
    attachIndex_rules E (R _ _ (by decide) (by cases d <;> decide)) (allocateIndex_sided E d) h
  cases c with
  | indexFd fd => exact .failIf fun _ => hattach (shared_sided rfl)
  | indexPath path =>
      cases path
      exacts [.fail _, hattach (shared_sided rfl)]
  | _ => exact setter_rules E _ (R _ _ (by simp [setterFields])
      (by cases d <;> simp only [setterCalls] <;> decide))

/-- `ca_sync_start` in ENCODE mode leaves the decoder alone, and in DECODE mode the archive and
the encoder. -/
theorem start_sided : ∀ d, Sided d (start E)
  | .encode =>
      .bind (.of_frame (startArchive_footprint E) (fun _ _ => rfl) (by decide)) fun _ =>
      .bind (.of_frame (startEncoder_footprint E) (fun _ _ => rfl) (by decide)) fun _ =>
      .bind (.getSync_bind fun _ hc => .ite (fun h => .absurd (nomatch hc.symm.trans h.1))
        fun _ => .pure _) fun _ =>
      .of_frame (startIndex_footprint E) (fun _ _ => rfl) (by decide)
  | .decode =>
      .bind (.getSync_bind fun _ hc => .ite (fun h => .absurd (nomatch hc.symm.trans h.1))
        fun _ => .pure _) fun _ =>
      .bind (.getSync_bind fun _ hc => .ite (fun h => .absurd (nomatch hc.symm.trans h.1))
        fun _ => .pure _) fun _ =>
      .bind (.of_frame (startDecoder_footprint E) (fun _ _ => rfl) (by decide)) fun _ =>
      .of_frame (startIndex_footprint E) (fun _ _ => rfl) (by decide)

theorem step_sided (d : CaDirection) : Sided d (step E) :=
  .bind (start_sided E d) fun _ => .getSync_bind fun c hc => by
    cases d <;> rw [hc]
    exacts [.of_frame (stepEncode_footprint E) (fun _ _ => rfl) (by decide),
      .of_frame (stepDecode_footprint E) (fun _ _ => rfl) (by decide)]

theorem currentPath_sided : ∀ d, Sided d (currentPath E)
  | .encode => .getSync_bind fun _ hc => .ite (fun _ => .bind (.call E rfl) fun _ => .orFail _)
      fun _ => .ite (fun h => .absurd (nomatch hc.symm.trans h.1)) fun _ => .fail _
  | .decode => .getSync_bind fun _ hc => .ite (fun h => .absurd (nomatch hc.symm.trans h.1))
      fun _ => .ite (fun _ => .bind (.call E rfl) fun _ => .orFail _) fun _ => .fail _

theorem currentMode_sided : ∀ d, Sided d (currentMode E)
  | .encode => .getSync_bind fun _ hc => .ite (fun _ => .bind (.call E rfl) fun _ => .orFail _)
      fun _ => .ite (fun h => .absurd (nomatch hc.symm.trans h.1)) fun _ => .fail _
  | .decode => .getSync_bind fun _ hc => .ite (fun h => .absurd (nomatch hc.symm.trans h.1))
      fun _ => .ite (fun _ => .bind (.call E rfl) fun _ => .orFail _) fun _ => .fail _

theorem exec_sided (d : CaDirection) : ∀ op, Sided d (exec E op)
  | .set c => .bind (setter_sided E c d) fun _ => .pure _
  | .step => .bind (step_sided E d) fun _ => .pure _
  | .get id => .bind (.of_frame (get_footprint E id)
      (fun _ _ => rfl) (by cases d <;> decide)) fun _ => .pure _
  | .put id data => .bind (.of_frame (put_footprint E id data)
      (fun _ _ => rfl) (by cases d <;> decide)) fun _ => .pure _
  | .makeObjectId p => .bind (.of_frame (makeObjectId_footprint E p)
      (fun _ _ => rfl) (by cases d <;> decide)) fun _ => .pure _
  | .getDigest => .bind (.of_frame (getDigest_footprint E)
      (fun _ _ => rfl) (by cases d <;> decide)) fun _ => .pure _
  | .currentPath => .bind (currentPath_sided E d) fun _ => .pure _
  | .currentMode => .bind (currentMode_sided E d) fun _ => .pure _

/-- The run lemma: a reachable driver's log holds no call of the other direction. -/
theorem reachable_sided {s : Sys σ} (hr : Reachable E s) :
    callsIn (foreign s.sync.direction) s.log = [] := by
  induction hr with
  | new dir => rfl
  | exec op _ ih =>
      obtain ⟨hd, Δ, hΔ, hc⟩ := exec_sided E _ op _ rfl
      rw [hd, hΔ, callsIn_append, ih, hc]
      rfl

/-- In every reachable state, failed calls included, an ENCODE driver has made no call of the
DECODE pipeline (decoder, read index, index reads, released object buffers, base directory),
and a DECODE driver none of the ENCODE pipeline (encoder, write index, index records, archive
writes, chunk buffer). -/
theorem directions_kept_apart {s : Sys σ} (hr : Reachable E s) :
    (s.sync.direction = .encode → callsIn decodeOnly s.log = []) ∧
      (s.sync.direction = .decode → callsIn encodeOnly s.log = []) := by
  have h := reachable_sided E hr
  exact ⟨fun hd => by rwa [hd] at h, fun hd => by rwa [hd] at h⟩

theorem directions_kept_apart_once :
    callsIn decodeOnly (runOps (sliceEnv [1, 2, 3])
        (configure (sliceEnv [1, 2, 3]) .encode indexConfig) [.step, .step]).1.log = [] ∧
      callsIn encodeOnly (runOps archiveFedEnv (configure archiveFedEnv .decode archiveDecodeConfig)
        [.step, .step]).1.log = [] :=
  ⟨(directions_kept_apart _ (runOps_reachable _ _ (configure_reachable _ _ _))).1 (by decide),
    (directions_kept_apart _ (runOps_reachable _ _ (configure_reachable _ _ _))).2 (by decide)⟩

end Casync.Proofs.Sides
