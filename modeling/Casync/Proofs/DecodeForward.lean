import Casync.Proofs.Replay

/-!
The DECODE driver forwards the decoder's statuses, and without an index it feeds the decoder
from the archive descriptor. In surroundings where the calls of the DECODE path succeed, a
driver configured with a base descriptor, an archive descriptor and no index reports at each
step what the decoder reported: `CA_SYNC_NEXT_FILE` for `CA_DECODER_NEXT_FILE`, and
`CA_SYNC_STEP` for `CA_DECODER_STEP`, `CA_DECODER_PAYLOAD` and `CA_DECODER_REQUEST`. It hands
the archive descriptor to `ca_decoder_put_data_fd` once for every request, and reports
`CA_SYNC_FINISHED` at the step where the decoder finishes.
-/

namespace Casync.Proofs.DecodeForward

open Casync.Proofs.Frames Casync.Proofs.Runs Casync.Proofs.Replay

variable {σ : Type}

/-- The statuses of the decoder that `ca_sync_step_decode` passes on as a step. -/
def Forwardable (st : DecoderStatus) : Prop :=
  st = .nextFile ∨ st = .step ∨ st = .payload ∨ st = .request

/-- What `ca_sync_step_decode` reports for a status it passes on. -/
def forwarded : DecoderStatus → SyncStatus
  | .nextFile => .nextFile
  | _ => .step

/-- How many of the decoder's first `k` steps asked for input. -/
def requestsBelow (script : Nat → DecoderStatus) (k : Nat) : Nat :=
  ((List.range k).filter fun i => script i = .request).length

theorem requestsBelow_succ (script : Nat → DecoderStatus) (k : Nat) :
    requestsBelow script (k + 1) =
      requestsBelow script k + if script k = .request then 1 else 0 := by
  simp only [requestsBelow, List.range_succ, List.filter_append, List.length_append,
    List.filter_cons, List.filter_nil, decide_eq_true_eq]
  split <;> rfl

/-- Surroundings of a DECODE run in which the decoder is created and takes its base and its
input descriptor, a finished base can be moved into place, and the decoder's `n`-th step
reports `script n`. -/
structure Feeding (E : Env σ) (script : Nat → DecoderStatus) : Prop where
  decoderNew : ∀ log, E.answer log .decoderNew = true
  setBase : ∀ log fd, E.answer log (.decoderSetBaseFd fd) = .ok ()
  feed : ∀ log fd, E.answer log (.decoderPutDataFd fd) = .ok ()
  rename : ∀ log tmp path, E.answer log (.rename tmp path) = .ok ()
  step : ∀ log, E.answer log .decoderStep = .ok (script (countCalls .decoderStep log))

/-- A DECODE driver without an index reading the archive on `fd`, not finished, with a decoder
or a base descriptor to create one with, after `k` decoder steps whose requests were each
answered with `fd`. -/
structure Fed (script : Nat → DecoderStatus) (fd : Int) (k : Nat) (s : Sys σ) : Prop where
  direction : s.sync.direction = .decode
  eof : s.sync.eof = false
  base : s.sync.decoder = true ∨ 0 ≤ s.sync.baseFd
  index : s.sync.index = false
  archive : s.sync.archiveFd = fd
  steps : countCalls .decoderStep s.log = k
  feeds : callsIn [.decoderPutDataFd] s.log =
    List.replicate (requestsBelow script k) (.decoderPutDataFd fd)

theorem counts_of_frame {K : List CallKind} {s s' : Sys σ} {Δ : List Event}
    (hΔ : s'.log = s.log ++ Δ) (hk : ∀ e ∈ Δ, e.call.kind ∈ K)
    (hK : .decoderStep ∉ K ∧ .decoderPutDataFd ∉ K) :
    countCalls .decoderStep s'.log = countCalls .decoderStep s.log ∧
      callsIn [.decoderPutDataFd] s'.log = callsIn [.decoderPutDataFd] s.log := by
  have hc (k : CallKind) (hk' : k ∉ K) : callsIn [k] s'.log = callsIn [k] s.log := by
    rw [hΔ, callsIn_append, callsIn_eq_nil hk fun k' h h' => hk' (by
      rwa [List.mem_singleton.mp h'] at h), List.append_nil]
  rw [countCalls_eq_callsIn, countCalls_eq_callsIn, hc _ hK.1, hc _ hK.2]
  exact ⟨rfl, rfl⟩

theorem configure_fed (E : Env σ) (script : Nat → DecoderStatus) (cfg : List Setter)
    (hb : 0 ≤ (configure E .decode cfg).sync.baseFd)
    (hix : (configure E .decode cfg).sync.index = false) :
    Fed script (configure E .decode cfg).sync.archiveFd 0 (configure E .decode cfg) := by
  obtain ⟨hF, hK⟩ := configure_calls E .decode cfg
  obtain ⟨hs, hp⟩ := counts_of_frame (s := Sys.new E .decode) (List.nil_append _).symm hK
    (by decide)
  exact ⟨hF.field CaSync.direction fun _ => rfl, hF.field CaSync.eof fun _ => rfl, .inr hb, hix,
    rfl, hs, hp⟩

section Feeding

variable {E : Env σ} {script : Nat → DecoderStatus} (hE : Feeding E script)

include hE

theorem attachDecoder_fed {s : Sys σ} (hfd : 0 ≤ s.sync.baseFd) :
    Wp (attachDecoder E) s (fun _ s' => s'.sync.decoder = true) fun _ _ => False := by
  simp only [attachDecoder, Wp.bind_iff, Wp.call_iff, hE.decoderNew, Bool.not_true,
    Bool.false_eq_true, if_false, Wp.pure_iff, Wp.modifySync_iff, Wp.getSync_iff, ge_iff_le, hfd,
    if_true, Wp.orFail_iff, hE.setBase, Except.ok.injEq, reduceCtorEq, false_implies,
    implies_true, and_true]

theorem startDecoder_fed {s : Sys σ} (hdir : s.sync.direction = .decode)
    (hb : s.sync.decoder = true ∨ 0 ≤ s.sync.baseFd) :
    Wp (startDecoder E) s (fun _ s' => s'.sync.decoder = true) fun _ _ => False := by
  by_cases hd : s.sync.decoder = true
  · simp only [startDecoder, Wp.bind_iff, Wp.getSync_iff, hd, Bool.true_eq_false, and_false,
      if_false, Wp.pure_iff]
  · have hfd := hb.resolve_left hd
    simpa [startDecoder, hdir, hd, hfd, Int.not_lt.mpr hfd] using attachDecoder_fed hE hfd

/-- `ca_sync_start` of a DECODE driver without an index leaves a decoder and the archive
descriptor. -/
theorem start_fed {s : Sys σ} (hdir : s.sync.direction = .decode)
    (hb : s.sync.decoder = true ∨ 0 ≤ s.sync.baseFd) (hix : s.sync.index = false) :
    Wp (start E) s (fun _ s' => s'.sync.decoder = true ∧ s'.sync.archiveFd = s.sync.archiveFd)
      fun _ _ => False := by
  simp only [start, Wp.bind_iff]
  rw [startArchive_decode E hdir, startEncoder_decode E hdir]
  refine ((startDecoder_fed hE hdir hb).and ((startDecoder_footprint E).wp s)).mono
    (fun _ s₁ ⟨hd, hO, _⟩ => ?_) fun _ _ h => h.1
  simp [startIndex, (hO.field CaSync.index fun _ => rfl).trans hix, hd,
    hO.field CaSync.archiveFd fun _ => rfl]

/-- A step whose status the driver passes on: a request is answered with the archive
descriptor, and nothing else changes. -/
theorem stepDecode_forward {s : Sys σ} (heof : s.sync.eof = false)
    (hdec : s.sync.decoder = true) (hix : s.sync.index = false) (hfd : 0 ≤ s.sync.archiveFd)
    (hk : Forwardable (script (countCalls .decoderStep s.log))) :
    Wp (stepDecode E) s (fun st s' => st = forwarded (script (countCalls .decoderStep s.log)) ∧
      s'.sync = s.sync ∧ countCalls .decoderStep s'.log = countCalls .decoderStep s.log + 1 ∧
      callsIn [.decoderPutDataFd] s'.log = callsIn [.decoderPutDataFd] s.log ++
        if script (countCalls .decoderStep s.log) = .request then
          [.decoderPutDataFd s.sync.archiveFd] else []) fun _ _ => False := by
  simp only [stepDecode, Wp.bind_iff, Wp.getSync_iff, heof, hdec, Bool.false_eq_true, if_false,
    Wp.pure_iff, Wp.call_iff, hE.step, Wp.orFail_iff, Except.ok.injEq, forall_eq', reduceCtorEq,
    false_implies, implies_true, and_true]
  generalize script (countCalls .decoderStep s.log) = st at hk ⊢
  have hc : countCalls .decoderStep (s.log ++ [⟨.decoderStep, .ok st⟩]) =
      countCalls .decoderStep s.log + 1 := countCalls_snoc _ _ _
  have hp : callsIn [.decoderPutDataFd] (s.log ++ [⟨.decoderStep, .ok st⟩]) =
      callsIn [.decoderPutDataFd] s.log := by
    rw [callsIn_append]
    exact List.append_nil _
  rcases hk with rfl | rfl | rfl | rfl
  -- `CA_DECODER_NEXT_FILE`, `CA_DECODER_STEP` and `CA_DECODER_PAYLOAD` are passed on as they are
  iterate 3 exact ⟨rfl, rfl, hc, by rw [hp, if_neg nofun, List.append_nil]⟩
  -- a request is answered with the archive descriptor
  simp only [processDecoderRequest, Wp.bind_iff, Wp.getSync_iff, hix, Bool.false_eq_true,
    if_false, ge_iff_le, hfd, if_true, Wp.call_iff, hE.feed, Wp.orFail_iff, Except.ok.injEq,
    forall_eq', reduceCtorEq, false_implies, implies_true, and_true, Wp.pure_iff]
  exact fun _ _ => ⟨rfl, trivial, by rw [countCalls_snoc, hc]; rfl,
    by rw [callsIn_append, hp]; rfl⟩

theorem decodeFinished_ok (s : Sys σ) :
    Wp (decodeFinished E) s (fun st _ => st = .finished) fun _ _ => False := by
  simp only [decodeFinished, installTemporary, Wp.bind_iff, Wp.getSync_iff]
  split <;> simp [hE.rename]

theorem stepDecode_finish {s : Sys σ} (heof : s.sync.eof = false)
    (hdec : s.sync.decoder = true) (hk : script (countCalls .decoderStep s.log) = .finished) :
    Wp (stepDecode E) s (fun st s' => st = .finished ∧
      callsIn [.decoderPutDataFd] s'.log = callsIn [.decoderPutDataFd] s.log) fun _ _ => False := by
  simp only [stepDecode, Wp.bind_iff, Wp.getSync_iff, heof, hdec, Bool.false_eq_true,
    Bool.true_eq_false, if_false, Wp.pure_iff, Wp.call_iff, hE.step, hk, Wp.orFail_iff,
    Except.ok.injEq, forall_eq', reduceCtorEq, false_implies, implies_true, and_true]
  refine ((decodeFinished_ok hE _).and ((decodeFinished_footprint E).wp _)).mono
    (fun _ _ ⟨hst, _, _, hΔ, hk'⟩ => ⟨hst, ?_⟩) fun _ _ h => h.1
  rw [hΔ, callsIn_append, callsIn_eq_nil hk' (by decide), List.append_nil, callsIn_append,
    callsIn_singleton, if_neg (by decide), List.append_nil]

theorem exec_step_fed {fd : Int} {k : Nat} {s : Sys σ} (h : Fed script fd k s)
    {Q : SyncStatus → Sys σ → Prop} {R : Fault → Sys σ → Prop}
    (hq : ∀ s₁ : Sys σ, s₁.sync.decoder = true → s₁.sync.archiveFd = fd →
      Only startFields s.sync s₁.sync → countCalls .decoderStep s₁.log = k →
      callsIn [.decoderPutDataFd] s₁.log = callsIn [.decoderPutDataFd] s.log →
      Wp (stepDecode E) s₁ Q R) :
    Wp (exec E .step) s (fun r s' => ∃ st, r = .status st ∧ Q st s') R := by
  simp only [exec, step, Wp.bind_iff, Wp.pure_iff]
  refine ((start_fed hE h.direction h.base h.index).and ((start_footprint E).wp s)).mono
    (fun _ s₁ ⟨⟨hd, ha⟩, hO, _, hΔ, hk⟩ => ?_) fun _ _ h => h.1.elim
  obtain ⟨hs, hp⟩ := counts_of_frame hΔ hk (by decide)
  rw [Wp.getSync_iff, (hO.field CaSync.direction fun _ => rfl).trans h.direction]
  exact (hq s₁ hd (ha.trans h.archive) hO (hs.trans h.steps) hp).mono
    (fun st _ hq => ⟨st, rfl, hq⟩) fun _ _ h => h

theorem Fed.exec_forward {fd : Int} {k : Nat} {s : Sys σ} (h : Fed script fd k s)
    (hfd : 0 ≤ fd) (hk : Forwardable (script k)) :
    Wp (exec E .step) s (fun r s' => r = .status (forwarded (script k)) ∧
      Fed script fd (k + 1) s') fun _ _ => False := by
  refine (exec_step_fed hE h (Q := fun st s' => st = forwarded (script k) ∧
    Fed script fd (k + 1) s') fun s₁ hd ha hO hs hp => ?_).mono
    (fun _ _ ⟨_, hr, hq⟩ => ⟨hr.trans (congrArg _ hq.1), hq.2⟩) fun _ _ h => h
  have heof : s₁.sync.eof = false := (hO.field CaSync.eof fun _ => rfl).trans h.eof
  have hix : s₁.sync.index = false := (hO.field CaSync.index fun _ => rfl).trans h.index
  rw [← hs] at hk ⊢
  have hdir : s₁.sync.direction = .decode :=
    (hO.field CaSync.direction fun _ => rfl).trans h.direction
  refine (stepDecode_forward hE heof hd hix (ha ▸ hfd) hk).mono
    (fun _ s' ⟨hst, hsync, hs', hp'⟩ => ⟨hst, ?_⟩) fun _ _ h => h
  refine ⟨by rw [hsync, hdir], by rw [hsync, heof], .inl (by rw [hsync, hd]), by rw [hsync, hix],
    by rw [hsync, ha], hs', ?_⟩
  rw [hp', hp, h.feeds, hs, requestsBelow_succ, ha]
  split <;> simp [List.replicate_succ']

theorem Fed.exec_finish {fd : Int} {k : Nat} {s : Sys σ} (h : Fed script fd k s)
    (hk : script k = .finished) :
    Wp (exec E .step) s (fun r s' => r = .status .finished ∧
      callsIn [.decoderPutDataFd] s'.log =
        List.replicate (requestsBelow script k) (.decoderPutDataFd fd)) fun _ _ => False := by
  refine (exec_step_fed hE h (Q := fun st s' => st = .finished ∧
    callsIn [.decoderPutDataFd] s'.log =
      List.replicate (requestsBelow script k) (.decoderPutDataFd fd))
    fun s₁ hd _ hO hs hp => ?_).mono
    (fun _ _ ⟨_, hr, hq⟩ => ⟨hr.trans (congrArg _ hq.1), hq.2⟩) fun _ _ h => h
  rw [← hs] at hk
  refine (stepDecode_finish hE ((hO.field CaSync.eof fun _ => rfl).trans h.eof) hd hk).mono
    (fun _ _ ⟨hst, hp'⟩ => ⟨hst, by rw [hp', hp, h.feeds]⟩) fun _ _ h => h

/-- The run lemma: from a fed driver after `k` decoder steps, `j` steps whose statuses the
driver passes on report them, and leave the driver fed. -/
theorem Fed.run {fd : Int} (hfd : 0 ≤ fd) : ∀ (j : Nat) {k : Nat} {s : Sys σ},
    Fed script fd k s → (∀ i, k ≤ i → i < k + j → Forwardable (script i)) →
      (runOps E s (List.replicate j .step)).2 =
        (List.range' k j).map (fun i => (.step, .ok (.status (forwarded (script i))))) ∧
      Fed script fd (k + j) (runOps E s (List.replicate j .step)).1
  | 0, _, _, h, _ => ⟨rfl, h⟩
  | j + 1, k, s, h, hs => by
      obtain ⟨_, ho, hr, h'⟩ :=
        Wp.outcome_ok (h.exec_forward hE hfd (hs k (Nat.le_refl _) (by omega)))
      have ih := Fed.run hfd j h' fun i hi hi' => hs i (by omega) (by omega)
      rw [Nat.add_right_comm] at ih
      rw [List.replicate_succ, runOps_cons, ho, hr, List.range'_succ, List.map_cons]
      exact ⟨by rw [ih.1], ih.2⟩

/-- DECODE forwards the decoder's statuses and feeds it from the archive. In surroundings
where the calls of the DECODE path succeed, a driver configured with a base descriptor, an
archive descriptor and no index reports at each of the decoder's first `n` steps the status it
passes on, `CA_SYNC_NEXT_FILE` for `CA_DECODER_NEXT_FILE` and `CA_SYNC_STEP` otherwise, and
`CA_SYNC_FINISHED` at the step where the decoder finishes; by then it has handed the archive
descriptor to the decoder once for each request, and nothing else. -/
theorem decode_forwards_decoder (cfg : List Setter) (n : Nat)
    (hb : 0 ≤ (configure E .decode cfg).sync.baseFd)
    (hfd : 0 ≤ (configure E .decode cfg).sync.archiveFd)
    (hix : (configure E .decode cfg).sync.index = false)
    (hs : ∀ i < n, Forwardable (script i)) (hn : script n = .finished) :
    (runOps E (configure E .decode cfg) (List.replicate (n + 1) .step)).2 =
        (List.range n).map (fun i => (.step, .ok (.status (forwarded (script i))))) ++
          [(.step, .ok (.status .finished))] ∧
      callsIn [.decoderPutDataFd]
          (runOps E (configure E .decode cfg) (List.replicate (n + 1) .step)).1.log =
        List.replicate (requestsBelow script n)
          (.decoderPutDataFd (configure E .decode cfg).sync.archiveFd) := by
  obtain ⟨hout, hfed⟩ := Fed.run hE hfd n (configure_fed E script cfg hb hix)
    fun i _ hi => hs i (by omega)
  obtain ⟨_, ho, hf, hfeeds⟩ := Wp.outcome_ok ((Nat.zero_add n ▸ hfed).exec_finish hE hn)
  rw [List.replicate_succ', runOps_append, runOps_cons, hout, ho, hf, List.range_eq_range']
  exact ⟨rfl, hfeeds⟩

end Feeding

/-- The decoder of `archiveFedEnv` asks for input at its first step and finishes at the next. -/
theorem archiveFedEnv_feeding :
    Feeding archiveFedEnv fun i => if i = 0 then .request else .finished where
  decoderNew _ := rfl
  setBase _ _ := rfl
  feed _ _ := rfl
  rename _ _ _ := rfl
  step log := by
    show (if countCalls .decoderStep log = 0 then _ else _) = _
    split <;> simp_all

theorem decode_forwards_decoder_archive :
    (runOps archiveFedEnv (configure archiveFedEnv .decode archiveDecodeConfig)
        (List.replicate (1 + 1) .step)).2 =
        [(.step, .ok (.status .step)), (.step, .ok (.status .finished))] ∧
      callsIn [.decoderPutDataFd] (runOps archiveFedEnv
          (configure archiveFedEnv .decode archiveDecodeConfig) (List.replicate (1 + 1) .step)).1.log =
        [.decoderPutDataFd 9] := by
  obtain ⟨h₁, h₂⟩ := decode_forwards_decoder archiveFedEnv_feeding archiveDecodeConfig 1
    (by decide) (by decide) (by decide)
    (fun i hi => .inr (.inr (.inr (by simp [Nat.lt_one_iff.mp hi])))) rfl
  exact ⟨h₁.trans rfl, h₂.trans rfl⟩

end Casync.Proofs.DecodeForward
