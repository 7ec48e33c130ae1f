import Casync.Proofs.Runs
import Casync.Wp
import Casync.Scenarios

/-!
The assertions of `src/casync.c` that depend on a driver's state: the `assert(false)` at
the end of `ca_sync_step_encode`, reached with no encoder or with an encoder status the
driver does not know, and `assert(S_ISBLK(s->base_mode))` in the block-device branch of
`ca_sync_start`. The assertions on the direction (in `ca_sync_set_base_path`,
`ca_sync_set_archive_path`, `ca_sync_allocate_index` and `ca_sync_step`) have no counterpart
in the model: `CaDirection` has the two values a driver is created with, and each of their
`if` chains is an exhaustive `match`.

A function is `Safe` when it fails no assertion from any state, whatever the calls it makes
answer. Two functions are safe only from some states: `materializeBase` when the base mode is
unset or one of the three kinds `ca_sync_set_base_mode` accepts, which every reachable state
satisfies, and `stepEncode` when an encoder is present, which `ca_sync_start` provides, and
the encoder's step answers a status the driver knows.
-/

namespace Casync.Proofs.Assertions

open Frames Runs

variable {σ α β : Type}

/-- `m` fails no `assert` from `s`, whatever the calls it makes answer. -/
def NoAbort (m : SyncM σ α) (s : Sys σ) : Prop :=
  Wp m s (fun _ _ => True) fun e _ => e ≠ .abort

/-- `m` fails no `assert` from any state. -/
def Safe (m : SyncM σ α) : Prop := ∀ s, NoAbort m s

theorem NoAbort.bind_iff {m : SyncM σ α} {f : α → SyncM σ β} {s : Sys σ} :
    NoAbort (m >>= f) s ↔ Wp m s (fun a s₁ => NoAbort (f a) s₁) fun e _ => e ≠ .abort :=
  Wp.bind_iff

theorem NoAbort.bind_safe {m : SyncM σ α} {f : α → SyncM σ β} {s : Sys σ} (hm : NoAbort m s)
    (hf : ∀ a, Safe (f a)) : NoAbort (m >>= f) s :=
  NoAbort.bind_iff.mpr (hm.mono (fun a s₁ _ => hf a s₁) fun _ _ => id)

theorem NoAbort.outcome {m : SyncM σ α} {s : Sys σ} (h : NoAbort m s) :
    outcome m s ≠ .error .abort :=
  (@Wp.outcome_iff σ α m s fun o _ => o ≠ .error .abort).mp
    (h.mono (fun _ _ _ => nofun) fun _ _ he hx => he (Except.error.inj hx))

namespace Safe

variable {m : SyncM σ α} {f : α → SyncM σ β}

theorem pure (a : α) : Safe (Pure.pure a : SyncM σ α) := fun _ => trivial

theorem getSync : Safe (Casync.getSync : SyncM σ _) := fun _ => trivial

theorem modify (g : CaSync σ → CaSync σ) : Safe (modifySync g) := fun _ => trivial

theorem call (E : Env σ) (c : Call) : Safe (Casync.call E c) := fun _ => trivial

theorem fail (r : Int) : Safe (Casync.fail r : SyncM σ α) := fun _ => Wp.fail_iff.mpr nofun

theorem orFail (x : Except Int α) : Safe (Casync.orFail x : SyncM σ α) := by
  cases x
  exacts [fail _, pure _]

theorem assert {c : Bool} (h : c = true) : Safe (Casync.assert c : SyncM σ Unit) := by
  subst h
  exact fun _ => trivial

theorem bind (hm : Safe m) (hf : ∀ a, Safe (f a)) : Safe (m >>= f) := fun s =>
  (hm s).bind_safe hf

theorem fail_bind (r : Int) : Safe (Casync.fail r >>= f) := fun s =>
  NoAbort.bind_iff.mpr (fail (α := α) r s)

theorem ite {c : Prop} {_ : Decidable c} {x y : SyncM σ α} (hx : c → Safe x) (hy : ¬c → Safe y) :
    Safe (if c then x else y) := by
  split
  exacts [hx ‹_›, hy ‹_›]

theorem call_bind {E : Env σ} {c : Call} {f : c.Ret → SyncM σ β}
    (hf : ∀ log, Safe (f (E.answer log c))) : Safe (Casync.call E c >>= f) := fun s =>
  NoAbort.bind_iff.mpr (hf s.log _)

theorem orFail_bind {x : Except Int α} (hf : ∀ a, x = .ok a → Safe (f a)) :
    Safe (Casync.orFail x >>= f) := by
  cases x with
  | error r => exact fail_bind r
  | ok a => exact fun s => NoAbort.bind_iff.mpr (hf a rfl s)

theorem getSync_bind {P : CaSync σ → Prop} {f : CaSync σ → SyncM σ α} {s : Sys σ}
    (hf : ∀ c, P c → Safe (f c)) (h : P s.sync) : NoAbort (Casync.getSync >>= f) s :=
  NoAbort.bind_iff.mpr (hf _ h s)

theorem bind_keeps {P : CaSync σ → Prop} {s : Sys σ} (hm : Safe m) (hk : Keeps P m)
    (hf : ∀ a s₁, P s₁.sync → NoAbort (f a) s₁) (h : P s.sync) : NoAbort (m >>= f) s :=
  NoAbort.bind_iff.mpr <| ((hm s).and (Wp.after_iff.mpr (hk s h))).mono
    (fun a s₁ h₁ => hf a s₁ h₁.2) fun _ _ h₁ => h₁.1

end Safe

theorem Safe.rules (E : Env σ) {K : List CallKind} {F : List Field} : Rules E Safe K F :=
  ⟨Safe.pure, Safe.getSync, Safe.fail, fun _ => Safe.call E _, fun _ => Safe.modify _, Safe.bind,
    fun hx hy => Safe.ite (fun _ => hx) fun _ => hy⟩

/-- The base mode is unset, or one of the three kinds `ca_sync_set_base_mode` accepts. -/
def ModeOk (c : CaSync σ) : Prop :=
  c.baseMode = modeUnset ∨ S_ISREG c.baseMode ∨ S_ISDIR c.baseMode ∨ S_ISBLK c.baseMode

instance (c : CaSync σ) : Decidable (ModeOk c) := inferInstanceAs (Decidable (_ ∨ _))

/-- The block-device branch of `ca_sync_start` is taken on a set mode that is neither a
directory nor a regular file: under `ModeOk` it is a block device. -/
theorem ModeOk.blk {c : CaSync σ} (h : ModeOk c) (hu : ¬c.baseMode = modeUnset)
    (hd : ¬S_ISDIR c.baseMode) (hr : ¬S_ISREG c.baseMode) : S_ISBLK c.baseMode := by
  rcases h with h | h | h | h <;> simp_all

variable (E : Env σ)

section Mode

theorem keeps_mode_of_footprint {K : List CallKind} {F : List Field} {m : SyncM σ α}
    (h : Footprint K F m) (hb : .baseMode ∉ F) : Keeps ModeOk m :=
  Keeps.of_footprint h fun c c' hO hc => by
    rw [ModeOk, hO.field CaSync.baseMode fun _ => by simp [CaSync.restore, hb]]
    exact hc

theorem kind_of_checked {m : UInt32} (h : ¬(!S_ISREG m && !S_ISDIR m && !S_ISBLK m) = true) :
    S_ISREG m ∨ S_ISDIR m ∨ S_ISBLK m := by
  revert h
  cases S_ISREG m <;> cases S_ISDIR m <;> cases S_ISBLK m <;> decide

/-- `ca_sync_set_base_mode` stores only a mode it has checked to be one of the three kinds. -/
theorem setBaseMode_keeps_mode (m : UInt32) : Keeps ModeOk (setBaseMode m : SyncM σ Unit) :=
  .failIf fun _ => .failIf fun hk => .bind .getSync fun _ => .failIf fun _ => .failIf fun _ =>
    .failIf fun _ => .modify fun _ _ => .inr (kind_of_checked hk)

theorem exec_keeps_mode (op : Op) : Keeps ModeOk (exec E op) := by
  cases op with
  | set c =>
      cases c with
      | baseMode m => exact .bind (setBaseMode_keeps_mode m) fun _ => .pure _
      | _ => exact keeps_mode_of_footprint (exec_set_fields E _) (by simp [setterFields])
  | step =>
      refine .bind (.bind (keeps_mode_of_footprint (start_footprint E) (by decide)) fun _ =>
        .bind .getSync fun c => ?_) fun _ => .pure _
      split
      · exact keeps_mode_of_footprint (stepEncode_footprint E) (by decide)
      · exact keeps_mode_of_footprint (stepDecode_footprint E) (by decide)
  | put id data =>
      exact .bind (keeps_mode_of_footprint (put_footprint E id data) (by decide)) fun _ => .pure _
  | get | makeObjectId | getDigest | currentPath | currentMode =>
      exact keeps_mode_of_footprint (query_footprint E _ trivial) (by decide)

/-- In every reachable state the base mode is unset or a directory, a regular file or a block
device. -/
theorem reachable_mode {s : Sys σ} (hr : Reachable E s) : ModeOk s.sync := by
  induction hr with
  | new dir => exact Or.inl rfl
  | exec op _ ih => exact exec_keeps_mode E op _ ih

end Mode

theorem orReleaseStore_safe (x : Except Int Unit) : Safe (orReleaseStore E x) := by
  cases x
  exacts [.bind (.call E _) fun _ => .fail _, .pure _]

theorem setter_safe (c : Setter) : Safe (c.run E) := setter_rules E c (Safe.rules E)

theorem exec_safe (op : Op) (h : op ≠ .step) : Safe (exec E op) := by
  cases op with
  | set c => exact .bind (setter_safe E c) fun _ => .pure _
  | step => exact absurd rfl h
  | get id => exact .bind (get_rules E (Safe.rules E) id) fun _ => .pure _
  | put id data => exact .bind (put_rules E (Safe.rules E) id data) fun _ => .pure _
  | makeObjectId p => exact .bind (makeObjectId_rules E (Safe.rules E) p) fun _ => .pure _
  | getDigest => exact .bind (getDigest_rules E (Safe.rules E)
      (allocateArchiveDigest_rules E (Safe.rules E))) fun _ => .pure _
  | currentPath => exact .bind (currentPath_rules E (Safe.rules E)) fun _ => .pure _
  | currentMode => exact .bind (currentMode_rules E (Safe.rules E)) fun _ => .pure _

theorem stepDecode_safe : Safe (stepDecode E) :=
  stepDecode_rules E (Safe.rules E)
    (decodeFinished_rules E (Safe.rules E) fun _ _ =>
      installTemporary_rules E (Safe.rules (F := [.temporaryBasePath]) E) _ _ fun _ => rfl)
    (processDecoderRequest_rules E (Safe.rules E) (get_rules E (Safe.rules E))
      (writeArchiveDigest_rules E (Safe.rules E) (allocateArchiveDigest_rules E (Safe.rules E))))

theorem writeOneChunk_safe (p : Bytes) : Safe (writeOneChunk E p) :=
  writeOneChunk_rules E (Safe.rules E) (makeObjectId_rules E (Safe.rules E)) p

theorem encodeData_safe : Safe (encodeData E) :=
  encodeData_rules E (Safe.rules E) (writeArchive_rules E (Safe.rules E))
    (writeArchiveDigest_rules E (Safe.rules E) (allocateArchiveDigest_rules E (Safe.rules E)))
    (writeChunks_rules E (Safe.rules E)
      (writeChunksLoop_rules E (Safe.rules E) (appendBuffer_rules E (Safe.rules E))
        (writeOneChunk_safe E)))

theorem encodeFinished_safe : Safe (encodeFinished E) :=
  encodeFinished_rules E (Safe.rules E)
    (fun _ _ => installTemporary_rules E (Safe.rules (F := [.temporaryArchivePath]) E) _ _
      fun _ => rfl)
    (writeFinalChunk_rules E (Safe.rules E) (writeOneChunk_safe E)
      (allocateArchiveDigest_rules E (Safe.rules E)))

/-- `ca_encoder_step` returns an error or one of `CA_ENCODER_FINISHED`,
`CA_ENCODER_NEXT_FILE` and `CA_ENCODER_DATA`, whatever was called before. -/
def EncoderAnswers (E : Env σ) : Prop :=
  ∀ log code, E.answer log .encoderStep ≠ .ok (.other code)

/-- `ca_sync_step_encode` fails no `assert` when it has an encoder or has seen the end, and
the encoder answers only the statuses the driver knows. -/
theorem stepEncode_noAbort (hE : EncoderAnswers E) {s : Sys σ}
    (h : s.sync.eof = true ∨ s.sync.encoder = true) : NoAbort (stepEncode E) s := by
  simp only [stepEncode]
  refine Safe.getSync_bind (P := fun c => c.eof = true ∨ c.encoder = true) (fun c hc => ?_) h
  split
  · exact Safe.fail_bind _
  · refine Safe.bind (.pure _) fun _ => ?_
    split
    · refine Safe.call_bind fun log => Safe.orFail_bind fun st hst => ?_
      cases st with
      | finished => exact encodeFinished_safe E
      | nextFile | data => exact .bind (encodeData_safe E) fun _ => .pure _
      | other code => exact absurd hst (hE log code)
    · exact absurd (hc.resolve_left ‹_›) ‹_›

theorem materializeBase_noAbort (path : String) {s : Sys σ} (h : ModeOk s.sync) :
    NoAbort (materializeBase E path) s :=
  have R : Rules E Safe [.mkdir, .openFile, .tempfnRandom, .create] [.baseFd, .temporaryBasePath] :=
    Safe.rules E
  have hopen (how : OpenHow) : Safe (openInto E path how fun fd s => { s with baseFd := fd }) :=
    openInto_rules E R path how (by cases how <;> rfl) fun _ _ => rfl
  Safe.getSync_bind (fun c hc => .ite (fun _ => .fail_bind _) fun hu => .bind (.pure _) fun _ =>
    .ite (fun _ => R.bind (R.call rfl) fun
        | .ok () => R.bind (R.pure _) fun _ => hopen _
        | .error _ => R.failIf (hopen _))
      fun hd => .ite (fun _ => createTemporary_rules E (R.mono (by decide) (List.Subset.refl _))
          _ _ _ (fun _ _ => by rfl) fun _ _ => by rfl)
        fun hr => .bind (.assert (hc.blk hu hd hr)) fun _ => hopen _) h

theorem startDecoder_noAbort {s : Sys σ} (h : ModeOk s.sync) : NoAbort (startDecoder E) s := by
  have hattach := attachDecoder_rules E (Safe.rules E)
  simp only [startDecoder]
  refine NoAbort.bind_iff.mpr (Wp.getSync_iff.mpr ?_)
  split
  · split
    · split
      · exact (materializeBase_noAbort E _ h).bind_safe fun _ => hattach
      · exact Safe.bind (.pure _) (fun _ => hattach) s
    · exact Safe.bind (.pure _) (fun _ => hattach) s
  · exact Safe.pure _ s

theorem start_noAbort {s : Sys σ} (h : ModeOk s.sync) : NoAbort (start E) s :=
  Safe.bind_keeps (startArchive_rules E (Safe.rules E))
    (keeps_mode_of_footprint (startArchive_footprint E) (by decide))
    (fun _ _ h₁ => Safe.bind_keeps (startEncoder_rules E (Safe.rules E))
      (keeps_mode_of_footprint (startEncoder_footprint E) (by decide))
      (fun _ _ h₂ => (startDecoder_noAbort E h₂).bind_safe fun _ =>
        startIndex_rules E (Safe.rules E)) h₁) h

theorem startEncoder_encoder (s : Sys σ) :
    OnOk (startEncoder E) s fun _ s' => s'.sync.direction = .encode → s'.sync.encoder = true := by
  simp only [startEncoder, OnOk.bind_iff, OnOk.getSync_iff, OnOk.ite_iff, OnOk.fail_true,
    OnOk.pure_iff, OnOk.call_iff, OnOk.modifySync_iff]
  refine ⟨fun _ => ⟨fun _ => trivial, fun _ => ⟨fun _ => trivial, fun _ => ?_⟩⟩, fun hc hd => ?_⟩
  · split <;> simp
  · simpa [hd] using hc

/-- A successful `ca_sync_start` leaves an ENCODE driver with an encoder: the blocks after
the encoder's leave the direction and the encoder alone. -/
theorem start_encoder (s : Sys σ) :
    OnOk (start E) s fun _ s' => s'.sync.direction = .encode → s'.sync.encoder = true := by
  simp only [start, OnOk.bind_iff]
  refine OnOk.mono (OnOk.true_iff.mpr trivial) fun _ s₁ _ => ?_
  refine (startEncoder_encoder E s₁).mono fun _ s₂ h₂ => ?_
  refine ((startDecoder_footprint E).onOk s₂).mono fun _ s₃ h₃ => ?_
  refine ((startIndex_footprint E).onOk s₃).mono fun _ s₄ h₄ => ?_
  rw [h₄.1.field CaSync.encoder fun _ => rfl, h₃.1.field CaSync.encoder fun _ => rfl,
    h₄.1.field CaSync.direction fun _ => rfl, h₃.1.field CaSync.direction fun _ => rfl]
  exact h₂

theorem step_noAbort (hE : EncoderAnswers E) {s : Sys σ} (h : ModeOk s.sync) :
    NoAbort (step E) s := by
  refine NoAbort.bind_iff.mpr (((start_noAbort E h).and_onOk (start_encoder E s)).mono
    (fun _ s₁ h₁ => NoAbort.bind_iff.mpr (Wp.getSync_iff.mpr ?_)) fun _ _ => id)
  split
  · exact stepEncode_noAbort E hE (Or.inr (h₁.2 ‹_›))
  · exact stepDecode_safe E s₁

theorem exec_noAbort (hE : EncoderAnswers E) {s : Sys σ} (h : ModeOk s.sync) (op : Op) :
    NoAbort (exec E op) s := by
  cases op with
  | step => exact (step_noAbort E hE h).bind_safe fun _ => .pure _
  | _ => exact exec_safe E _ (by nofun) s

/-- In every reachable state, with an encoder that answers only the statuses the driver
knows, no public call fails an `assert`. In particular `ca_sync_step_encode` is entered only
with an encoder, since a successful `ca_sync_start` leaves one in an ENCODE driver, and the
block-device branch of `ca_sync_start`, taken on a set base mode that is neither a directory
nor a regular file, is taken only on a block device. -/
theorem no_assertion_fails (hE : EncoderAnswers E) {s : Sys σ} (hr : Reachable E s) :
    (∀ op, outcome (exec E op) s ≠ .error .abort) ∧
      OnOk (start E) s (fun _ s' => s'.sync.direction = .encode → s'.sync.encoder = true) ∧
      (s.sync.baseMode ≠ modeUnset → ¬S_ISDIR s.sync.baseMode → ¬S_ISREG s.sync.baseMode →
        S_ISBLK s.sync.baseMode) :=
  ⟨fun op => (exec_noAbort E hE (reachable_mode E hr) op).outcome, start_encoder E s,
    (reachable_mode E hr).blk⟩

/-- A DECODE driver given a block device as its base mode. -/
theorem no_assertion_fails_block_base :
    EncoderAnswers emptyEnv ∧
      (∀ op, outcome (exec emptyEnv op) (configure emptyEnv .decode [.baseMode S_IFBLK]) ≠
        .error .abort) ∧
      OnOk (start emptyEnv) (configure emptyEnv .decode [.baseMode S_IFBLK])
        (fun _ s' => s'.sync.direction = .encode → s'.sync.encoder = true) ∧
      ((configure emptyEnv .decode [.baseMode S_IFBLK]).sync.baseMode ≠ modeUnset →
        ¬S_ISDIR (configure emptyEnv .decode [.baseMode S_IFBLK]).sync.baseMode →
        ¬S_ISREG (configure emptyEnv .decode [.baseMode S_IFBLK]).sync.baseMode →
        S_ISBLK (configure emptyEnv .decode [.baseMode S_IFBLK]).sync.baseMode) :=
  have hE : EncoderAnswers emptyEnv := fun _ _ => nofun
  ⟨hE, no_assertion_fails emptyEnv hE (configure_reachable emptyEnv .decode _)⟩

end Casync.Proofs.Assertions
