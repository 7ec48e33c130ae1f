import Casync.Proofs.Replay

/-!
The ENCODE driver forwards the encoder's statuses and never fails on its own. In surroundings
where every call of the ENCODE path succeeds, as `Call.okRet` says, and the encoder hands out
data whenever asked, a driver configured with a base descriptor reports at each step what the
encoder reported: `CA_SYNC_STEP` for `CA_ENCODER_DATA` and `CA_SYNC_NEXT_FILE` for
`CA_ENCODER_NEXT_FILE`. The step at which the encoder finishes reports `CA_SYNC_FINISHED`, and
every step after it fails with `-EPIPE`, whatever the configuration of archive, store and index.
-/

namespace Casync.Proofs.Forward

open Casync.Proofs.Frames Casync.Proofs.Runs Casync.Proofs.Replay

variable {σ α β : Type}

/-- The calls of the ENCODE path, which succeed in `Willing` surroundings. -/
abbrev encodePath : List CallKind :=
  [.tempfnRandom, .create, .encoderNew, .encoderSetBaseFd, .indexOpen, .loopWrite, .mdOpen,
    .reallocBufferAppend, .storePut, .indexWriteObject, .rename, .indexSetDigest, .indexWriteEof,
    .indexClose]

/-- Surroundings of an ENCODE run in which every call of the ENCODE path succeeds as
`Call.okRet` says, the encoder hands out data whenever asked, and its `n`-th step reports
`script n`. -/
structure Willing (E : Env σ) (script : Nat → EncoderStatus) : Prop where
  okRet : ∀ (c : Call), encodePath.elem c.kind = true → ∀ log, E.answer log c = c.okRet
  data : ∀ log, ∃ p, E.answer log .encoderGetData = .ok p
  step : ∀ log, E.answer log .encoderStep = .ok (script (countCalls .encoderStep log))

section OkRet

variable (d : Bytes) (path : String) (perm : UInt32)

@[simp] theorem okRet_mdOpen : Call.mdOpen.okRet = true := rfl

@[simp] theorem okRet_reallocBufferAppend : (Call.reallocBufferAppend d).okRet = true := rfl

@[simp] theorem okRet_tempfnRandom : (Call.tempfnRandom path).okRet = .ok (path ++ "~") := rfl

@[simp] theorem okRet_create : (Call.openFile path (.createExcl perm)).okRet = .ok 3 := rfl

@[simp] theorem okRet_encoderNew : Call.encoderNew.okRet = true := rfl

@[simp] theorem okRet_encoderSetBaseFd (fd : Int) : (Call.encoderSetBaseFd fd).okRet = .ok () := rfl

end OkRet

/-- `m` does not fail, from any state. -/
def NoFail (m : SyncM σ α) : Prop := ∀ s, Wp m s (fun _ _ => True) fun _ _ => False

namespace NoFail

variable {m : SyncM σ α} {f : α → SyncM σ β}

theorem pure (a : α) : NoFail (Pure.pure a : SyncM σ α) := fun _ => trivial

theorem getSync : NoFail (Casync.getSync : SyncM σ _) := fun _ => trivial

theorem modify (g : CaSync σ → CaSync σ) : NoFail (modifySync g) := fun _ => trivial

theorem orFail_ok (a : α) : NoFail (Casync.orFail (.ok a) : SyncM σ α) := fun _ => trivial

theorem bind (hm : NoFail m) (hf : ∀ a, NoFail (f a)) : NoFail (m >>= f) := fun s =>
  Wp.bind_iff.mpr ((hm s).mono (fun a s₁ _ => hf a s₁) fun _ _ h => h)

theorem ite {c : Prop} [Decidable c] {x y : SyncM σ α} (hx : c → NoFail x) (hy : ¬c → NoFail y) :
    NoFail (if c then x else y) := by
  split
  exacts [hx ‹_›, hy ‹_›]

theorem failIf_false {c : Prop} {_ : Decidable c} {r : Int} {k : PUnit → SyncM σ β} (hc : ¬c)
    (hk : NoFail (k ⟨⟩)) :
    NoFail (if c then Casync.fail r >>= k else Pure.pure PUnit.unit >>= k) :=
  ite (fun h => absurd h hc) fun _ => bind (pure _) fun ⟨⟩ => hk

theorem returnIf {c : Prop} {_ : Decidable c} {k : PUnit → SyncM σ Unit} (hk : NoFail (k ⟨⟩)) :
    NoFail (if c then Pure.pure PUnit.unit else Pure.pure PUnit.unit >>= k) :=
  ite (fun _ => pure _) fun _ => bind (pure _) fun ⟨⟩ => hk

theorem call_bind (E : Env σ) {c : Call} {v : c.Ret} {f : c.Ret → SyncM σ β}
    (h : ∀ log, E.answer log c = v) (hf : NoFail (f v)) : NoFail (Casync.call E c >>= f) :=
  fun s => by
    rw [Wp.bind_iff, Wp.call_iff, h]
    exact hf _

end NoFail

theorem steps_of_frame {K : List CallKind} {s s' : Sys σ} {Δ : List Event}
    (hΔ : s'.log = s.log ++ Δ) (hk : ∀ e ∈ Δ, e.call.kind ∈ K) (hK : .encoderStep ∉ K) :
    countCalls .encoderStep s'.log = countCalls .encoderStep s.log := by
  rw [countCalls_eq_callsIn, countCalls_eq_callsIn, hΔ, callsIn_append,
    callsIn_eq_nil hk fun k hk' h => hK (by rwa [List.mem_singleton.mp h] at hk'), List.append_nil]

theorem stepEncode_latched {s : Sys σ} (heof : s.sync.eof = true) :
    Wp (stepEncode E) s (fun _ _ => False) fun f s' => f = .ret (-EPIPE) ∧ s' = s := by
  simp [stepEncode, heof]

/-- An ENCODE driver that has made `k` encoder steps and has not finished, with an encoder or
a base descriptor to create one with. -/
structure Ready (k : Nat) (s : Sys σ) : Prop where
  direction : s.sync.direction = .encode
  eof : s.sync.eof = false
  base : s.sync.encoder = true ∨ 0 ≤ s.sync.baseFd
  steps : countCalls .encoderStep s.log = k

/-- A finished ENCODE driver. -/
structure Finished (s : Sys σ) : Prop where
  direction : s.sync.direction = .encode
  eof : s.sync.eof = true
  encoder : s.sync.encoder = true

theorem configure_ready (E : Env σ) (cfg : List Setter)
    (hb : 0 ≤ (configure E .encode cfg).sync.baseFd) : Ready 0 (configure E .encode cfg) := by
  obtain ⟨hF, hK⟩ := configure_calls E .encode cfg
  exact ⟨hF.field CaSync.direction fun _ => rfl, hF.field CaSync.eof fun _ => rfl, .inr hb,
    steps_of_frame (s := Sys.new E .encode) (List.nil_append _).symm hK (by decide)⟩

section Willing

variable {E : Env σ} {script : Nat → EncoderStatus} (hE : Willing E script)

include hE

theorem getData_noFail {f : Except Int Bytes → SyncM σ β} (hf : ∀ p, NoFail (f (.ok p))) :
    NoFail (Casync.call E .encoderGetData >>= f) := fun s => by
  obtain ⟨p, hp⟩ := hE.data s.log
  rw [Wp.bind_iff, Wp.call_iff, hp]
  exact hf p _

theorem appendBuffer_noFail (p : Bytes) : NoFail (appendBuffer E p) :=
  .call_bind E (hE.okRet _ rfl) <| .failIf_false (by simp) (.modify _)

theorem makeObjectId_noFail (p : Bytes) : NoFail (makeObjectId E p) :=
  have hset : NoFail (do
      modifySync fun s : CaSync σ => { s with objectDigest := some p }
      pure (E.sha256 p)) := .bind (.modify _) fun _ => .pure _
  .bind .getSync fun _ => .ite (fun _ => .call_bind E (hE.okRet _ rfl) (.failIf_false (by simp) hset))
    fun _ => .bind (.pure _) fun _ => hset

theorem writeOneChunk_noFail (p : Bytes) : NoFail (writeOneChunk E p) :=
  .bind (makeObjectId_noFail hE p) fun _ => .bind .getSync fun _ =>
    .call_bind E (hE.okRet _ rfl) <| .bind (.orFail_ok _) fun _ => .bind .getSync fun _ =>
      .ite (fun _ => .call_bind E (hE.okRet _ rfl) (.orFail_ok _)) fun _ => .pure _

theorem writeChunksLoop_noFail : ∀ (fuel : Nat) (p : Bytes), NoFail (writeChunksLoop E fuel p)
  | 0, _ => .pure _
  | _ + 1, [] => .pure _
  | fuel + 1, b :: p =>
      .bind .getSync fun s => match E.chunker.scan s.chunker (b :: p) with
        | (_, none) => .bind (.modify _) fun _ => appendBuffer_noFail hE _
        | (_, some _) => .bind (.modify _) fun _ =>
            .bind (.ite (fun _ => .pure _) fun _ => .bind (appendBuffer_noFail hE _) fun _ =>
              .bind .getSync fun _ => .pure _) fun _ =>
              .bind (writeOneChunk_noFail hE _) fun _ => .bind (.modify _) fun _ =>
                writeChunksLoop_noFail fuel _

theorem allocateArchiveDigest_noFail : NoFail (allocateArchiveDigest E) :=
  .bind .getSync fun _ => .returnIf <| .call_bind E (hE.okRet _ rfl) <|
    .failIf_false (by simp) (.modify _)

theorem encodeData_noFail : NoFail (encodeData E) :=
  getData_noFail hE fun _ => .bind (.orFail_ok _) fun _ =>
    .bind (.bind .getSync fun _ => .returnIf <| .call_bind E (hE.okRet _ rfl) (.orFail_ok _))
      fun _ => .bind (.bind (allocateArchiveDigest_noFail hE) fun _ => .modify _) fun _ =>
        .bind .getSync fun _ => .returnIf (writeChunksLoop_noFail hE _ _)

theorem encodeFinished_noFail : NoFail (encodeFinished E) :=
  have hinstall (tmp path : Option String) : NoFail (installTemporary E tmp path fun s =>
      { s with temporaryArchivePath := none }) := by
    unfold installTemporary
    split
    exacts [.call_bind E (hE.okRet _ rfl) (.bind (.orFail_ok _) fun _ => .modify _), .pure _]
  have hfinal : NoFail (writeFinalChunk E) :=
    .bind .getSync fun _ => .returnIf <| .returnIf <| .bind (writeOneChunk_noFail hE _) fun _ =>
      .bind .getSync fun _ => .ite (fun _ => .bind (allocateArchiveDigest_noFail hE) fun _ =>
        .bind .getSync fun _ => .call_bind E (hE.okRet _ rfl) <| .bind (.orFail_ok _) fun _ =>
          .call_bind E (hE.okRet _ rfl) <| .bind (.orFail_ok _) fun _ =>
            .call_bind E (hE.okRet _ rfl) (.orFail_ok _)) fun _ => .pure _
  .bind .getSync fun _ => .bind (hinstall _ _) fun _ => .bind hfinal fun _ =>
    .bind (.modify _) fun _ => .pure _

theorem startArchive_noFail : NoFail (startArchive E) :=
  have hcreate (target : String) (tmp : Option String) (perm : UInt32)
      (setTmp : Option String → CaSync σ → CaSync σ) (setFd : Int → CaSync σ → CaSync σ) :
      NoFail (createTemporary E target tmp perm setTmp setFd) := by
    unfold createTemporary
    lift_lets
    intro create
    have h : ∀ t, NoFail (create t) := fun _ => .call_bind E (hE.okRet _ rfl) (.modify _)
    cases tmp
    exacts [.call_bind E (hE.okRet _ rfl) <| .bind (.orFail_ok _) fun _ =>
      .bind (.modify _) fun _ => .bind (.pure _) h, .bind (.pure _) h]
  .bind .getSync fun s => .ite (fun _ => match s.archivePath with
    | some _ => hcreate _ _ _ _ _
    | none => .pure _) fun _ => .pure _

theorem startIndex_noFail : NoFail (startIndex E) :=
  .bind .getSync fun _ => .ite (fun _ => .call_bind E (hE.okRet _ rfl) (.orFail_ok _))
    fun _ => .pure _

/-- The encoder block of `ca_sync_start` leaves an encoder when there is one or a base
descriptor to create one with. -/
theorem startEncoder_ready {s : Sys σ} (hdir : s.sync.direction = .encode)
    (hb : s.sync.encoder = true ∨ 0 ≤ s.sync.baseFd) :
    Wp (startEncoder E) s (fun _ s' => s'.sync.encoder = true) fun _ _ => False := by
  by_cases he : s.sync.encoder = true
  · simp only [startEncoder, Wp.bind_iff, Wp.getSync_iff, he, Bool.true_eq_false, and_false,
      if_false, Wp.pure_iff]
  · have hfd : 0 ≤ s.sync.baseFd := hb.resolve_left he
    simp [startEncoder, hdir, he, hfd, Int.not_lt.mpr hfd, hE.okRet .encoderNew rfl,
      hE.okRet (.encoderSetBaseFd s.sync.baseFd) rfl]

theorem start_ready {s : Sys σ} (hdir : s.sync.direction = .encode)
    (hb : s.sync.encoder = true ∨ 0 ≤ s.sync.baseFd) :
    Wp (start E) s (fun _ s' => s'.sync.encoder = true) fun _ _ => False := by
  simp only [start, Wp.bind_iff]
  refine ((startArchive_noFail hE s).and ((startArchive_footprint E).wp s)).mono
    (fun _ s₁ ⟨_, hO₁, _⟩ => ?_) fun _ _ h => h.1
  have hb₁ : s₁.sync.encoder = true ∨ 0 ≤ s₁.sync.baseFd := by
    rwa [hO₁.field CaSync.encoder fun _ => rfl, hO₁.field CaSync.baseFd fun _ => rfl]
  refine ((startEncoder_ready hE ((hO₁.field CaSync.direction fun _ => rfl).trans hdir) hb₁).and ((startEncoder_footprint E).wp s₁)).mono
    (fun _ s₂ ⟨he₂, hO₂, _⟩ => ?_) fun _ _ h => h.1
  have hdir₂ : s₂.sync.direction = .encode := ((hO₂.field CaSync.direction fun _ => rfl).trans
    (hO₁.field CaSync.direction fun _ => rfl)).trans hdir
  simp only [startDecoder, Wp.bind_iff, Wp.getSync_iff, hdir₂, reduceCtorEq, false_and,
    Wp.ite_iff, false_implies, not_false_eq_true, true_implies, true_and, Wp.pure_iff]
  exact ((startIndex_noFail hE s₂).and ((startIndex_footprint E).wp s₂)).mono
    (fun _ _ ⟨_, hO₃, _⟩ => (hO₃.field CaSync.encoder fun _ => rfl).trans he₂) fun _ _ h => h.1

theorem exec_step_ready {s : Sys σ} (hdir : s.sync.direction = .encode)
    (hb : s.sync.encoder = true ∨ 0 ≤ s.sync.baseFd) {Q : SyncStatus → Sys σ → Prop}
    {R : Fault → Sys σ → Prop}
    (h : ∀ s₁ : Sys σ, s₁.sync.encoder = true → Only startFields s.sync s₁.sync →
      countCalls .encoderStep s₁.log = countCalls .encoderStep s.log →
      Wp (stepEncode E) s₁ Q R) :
    Wp (exec E .step) s (fun r s' => ∃ st, r = .status st ∧ Q st s') R := by
  simp only [exec, step, Wp.bind_iff, Wp.pure_iff]
  refine ((start_ready hE hdir hb).and ((start_footprint E).wp s)).mono
    (fun _ s₁ ⟨he, hO, _, hΔ, hk⟩ => ?_) fun _ _ h => h.1.elim
  rw [Wp.getSync_iff, (hO.field CaSync.direction fun _ => rfl).trans hdir]
  exact (h s₁ he hO (steps_of_frame hΔ hk (by decide))).mono (fun st _ hq => ⟨st, rfl, hq⟩)
    fun _ _ h => h

/-- A step of an encoder that hands out data: the data goes through the archive, the digest
and the chunker, and the driver reports `CA_SYNC_STEP` for `CA_ENCODER_DATA` and
`CA_SYNC_NEXT_FILE` for `CA_ENCODER_NEXT_FILE`. -/
theorem stepEncode_data {s : Sys σ} (heof : s.sync.eof = false) (henc : s.sync.encoder = true)
    (hk : script (countCalls .encoderStep s.log) = .data ∨
      script (countCalls .encoderStep s.log) = .nextFile) :
    Wp (stepEncode E) s (fun st s' =>
      st = (if script (countCalls .encoderStep s.log) = .data then .step else .nextFile) ∧
      Only [.objectDigest, .archiveDigest, .buffer, .chunker] s.sync s'.sync ∧
      countCalls .encoderStep s'.log = countCalls .encoderStep s.log + 1) fun _ _ => False := by
  rcases hk with h | h <;>
  simp only [stepEncode, Wp.bind_iff, Wp.getSync_iff, heof, henc, Bool.false_eq_true, if_false,
    if_true, Wp.call_iff, hE.step, Wp.orFail_iff, Wp.pure_iff, Except.ok.injEq, forall_eq',
    reduceCtorEq, false_implies, implies_true, and_true, true_and, h]
  all_goals
    exact ((encodeData_noFail hE _).and ((encodeData_footprint E).wp _)).mono
      (fun _ _ ⟨_, hO, _, hΔ, hk⟩ => ⟨hO, (steps_of_frame hΔ hk (by decide)).trans
        (countCalls_snoc _ _ _)⟩) fun _ _ h => h.1

/-- The step at which the encoder finishes moves the temporary archive into place, stores the
pending tail as the last chunk, and latches `eof`. -/
theorem stepEncode_finish {s : Sys σ} (heof : s.sync.eof = false) (henc : s.sync.encoder = true)
    (hk : script (countCalls .encoderStep s.log) = .finished) :
    Wp (stepEncode E) s (fun st s' => st = .finished ∧ s'.sync.eof = true ∧
      Only encodeFields s.sync s'.sync) fun _ _ => False := by
  simp only [stepEncode, Wp.bind_iff, Wp.getSync_iff, heof, henc, Bool.false_eq_true, if_false,
    if_true, Wp.call_iff, hE.step, Wp.orFail_iff, Wp.pure_iff, Except.ok.injEq, forall_eq',
    reduceCtorEq, false_implies, implies_true, and_true, hk]
  exact (((encodeFinished_noFail hE _).and_onOk (EncodeSpec.encodeFinished_ok E _)).and
    ((encodeFinished_footprint E).wp _)).mono (fun _ _ ⟨⟨_, hf, he, _⟩, hO, _⟩ => ⟨hf, he, hO⟩)
    fun _ _ h => h.1

theorem Ready.exec_data {k : Nat} {s : Sys σ} (h : Ready k s)
    (hk : script k = .data ∨ script k = .nextFile) :
    Wp (exec E .step) s (fun r s' => r = .status (if script k = .data then .step else .nextFile) ∧
      Ready (k + 1) s') fun _ _ => False := by
  refine (exec_step_ready hE h.direction h.base (Q := fun st s' =>
    st = (if script k = .data then .step else .nextFile) ∧ Ready (k + 1) s')
    fun s₁ he hO hc => ?_).mono (fun _ _ ⟨_, hr, hq⟩ => ⟨hr.trans (congrArg _ hq.1), hq.2⟩)
    fun _ _ h => h
  have heof : s₁.sync.eof = false := (hO.field CaSync.eof fun _ => rfl).trans h.eof
  rw [← h.steps, ← hc] at hk ⊢
  refine (stepEncode_data hE heof he hk).mono (fun _ _ ⟨hst, hO', hc'⟩ => ⟨hst, ?_⟩) fun _ _ h => h
  exact ⟨(hO'.field CaSync.direction fun _ => rfl).trans
      ((hO.field CaSync.direction fun _ => rfl).trans h.direction),
    (hO'.field CaSync.eof fun _ => rfl).trans heof,
    .inl ((hO'.field CaSync.encoder fun _ => rfl).trans he), hc'⟩

theorem Ready.exec_finish {k : Nat} {s : Sys σ} (h : Ready k s) (hk : script k = .finished) :
    Wp (exec E .step) s (fun r s' => r = .status .finished ∧ Finished s') fun _ _ => False := by
  refine (exec_step_ready hE h.direction h.base (Q := fun st s' => st = .finished ∧ Finished s')
    fun s₁ he hO hc => ?_).mono (fun _ _ ⟨_, hr, hq⟩ => ⟨hr.trans (congrArg _ hq.1), hq.2⟩)
    fun _ _ h => h
  have heof : s₁.sync.eof = false := (hO.field CaSync.eof fun _ => rfl).trans h.eof
  rw [← h.steps, ← hc] at hk
  refine (stepEncode_finish hE heof he hk).mono (fun _ _ ⟨hst, he', hO'⟩ => ⟨hst, ?_⟩) fun _ _ h => h
  exact ⟨(hO'.field CaSync.direction fun _ => rfl).trans
      ((hO.field CaSync.direction fun _ => rfl).trans h.direction), he',
    (hO'.field CaSync.encoder fun _ => rfl).trans he⟩

theorem Finished.exec_latched {s : Sys σ} (h : Finished s) :
    Wp (exec E .step) s (fun _ _ => False) fun f s' => f = .ret (-EPIPE) ∧ Finished s' := by
  refine (exec_step_ready hE h.direction (.inl h.encoder) (Q := fun _ _ => False)
    (R := fun f s' => f = .ret (-EPIPE) ∧ Finished s') fun s₁ he hO _ => ?_).mono
    (fun _ _ ⟨_, _, hq⟩ => hq) fun _ _ h => h
  refine (stepEncode_latched ((hO.field CaSync.eof fun _ => rfl).trans h.eof)).mono
    (fun _ _ h => h.elim) fun _ _ ⟨hf, hs⟩ => ⟨hf, ?_⟩
  subst hs
  exact ⟨(hO.field CaSync.direction fun _ => rfl).trans h.direction,
    (hO.field CaSync.eof fun _ => rfl).trans h.eof, he⟩

/-- The run lemma of the data steps: from a ready driver after `k` encoder steps, `j` steps
whose encoder hands out data report what it hands out, and leave the driver ready. -/
theorem Ready.run : ∀ (j : Nat) {k : Nat} {s : Sys σ}, Ready k s →
    (∀ i, k ≤ i → i < k + j → script i = .data ∨ script i = .nextFile) →
      (runOps E s (List.replicate j .step)).2 = (List.range' k j).map (fun i =>
        (.step, .ok (.status (if script i = .data then .step else .nextFile)))) ∧
      Ready (k + j) (runOps E s (List.replicate j .step)).1
  | 0, _, _, h, _ => ⟨rfl, h⟩
  | j + 1, k, s, h, hs => by
      obtain ⟨_, ho, hr, h'⟩ := Wp.outcome_ok (h.exec_data hE (hs k (Nat.le_refl _) (by omega)))
      have ih := Ready.run j h' fun i hi hi' => hs i (by omega) (by omega)
      rw [Nat.add_right_comm] at ih
      rw [List.replicate_succ, runOps_cons, ho, hr, List.range'_succ, List.map_cons]
      exact ⟨by rw [ih.1], ih.2⟩

theorem Finished.run : ∀ (m : Nat) {s : Sys σ}, Finished s →
    (runOps E s (List.replicate m .step)).2 = List.replicate m (.step, .error (.ret (-EPIPE)))
  | 0, _, _ => rfl
  | m + 1, s, h => by
      obtain ⟨_, ho, rfl, h'⟩ := Wp.outcome_error (h.exec_latched hE)
      rw [List.replicate_succ, runOps_cons, ho, Finished.run m h', List.replicate_succ]

/-- ENCODE forwards the encoder's statuses and never fails on its own. In surroundings where
every call of the ENCODE path succeeds and the encoder hands out data whenever asked, a driver
configured with a base descriptor, whatever its archive, store and index, reports at each of
the encoder's first `n` steps what the encoder reported, `CA_SYNC_STEP` for `CA_ENCODER_DATA`
and `CA_SYNC_NEXT_FILE` for `CA_ENCODER_NEXT_FILE`; at the step where the encoder finishes it
reports `CA_SYNC_FINISHED`, and every step after that fails with `-EPIPE`. -/
theorem encode_forwards_encoder (cfg : List Setter) (n m : Nat)
    (hb : 0 ≤ (configure E .encode cfg).sync.baseFd)
    (hs : ∀ i < n, script i = .data ∨ script i = .nextFile) (hn : script n = .finished) :
    (runOps E (configure E .encode cfg) (List.replicate (n + 1 + m) .step)).2 =
      (List.range n).map (fun i =>
        (.step, .ok (.status (if script i = .data then .step else .nextFile)))) ++
        (.step, .ok (.status .finished)) :: List.replicate m (.step, .error (.ret (-EPIPE))) := by
  obtain ⟨hout, hrd⟩ := Ready.run hE n (configure_ready E cfg hb) fun i _ hi => hs i (by omega)
  obtain ⟨_, ho, hf, hfin⟩ := Wp.outcome_ok ((Nat.zero_add n ▸ hrd).exec_finish hE hn)
  have hops : List.replicate (n + 1 + m) Op.step =
      List.replicate n .step ++ .step :: List.replicate m .step := by
    rw [Nat.add_assoc, List.replicate_add, Nat.add_comm, List.replicate_succ]
  rw [hops, runOps_append, runOps_cons, hout, ho, hf, Finished.run hE m hfin,
    List.range_eq_range']

end Willing

/-- The encoder of `sliceEnv d` hands out `d` at its first step and finishes at the next. -/
theorem sliceEnv_willing (d : Bytes) :
    Willing (sliceEnv d) fun i => if i = 0 then .data else .finished where
  okRet c hc _ := by cases c <;> first | rfl | exact absurd hc (by decide)
  data _ := ⟨d, rfl⟩
  step log := by
    show sliceOnce d log .encoderStep = _
    simp only [sliceOnce]
    split <;> simp_all

theorem encode_forwards_encoder_once :
    (runOps (sliceEnv [1, 2, 3]) (configure (sliceEnv [1, 2, 3]) .encode indexConfig)
        (List.replicate (1 + 1 + 1) .step)).2 =
      [(.step, .ok (.status .step)), (.step, .ok (.status .finished)),
        (.step, .error (.ret (-EPIPE)))] :=
  (encode_forwards_encoder (sliceEnv_willing [1, 2, 3]) indexConfig 1 1 (by decide)
    (fun i hi => .inl (by simp [Nat.lt_one_iff.mp hi])) rfl).trans (by decide)

end Casync.Proofs.Forward
