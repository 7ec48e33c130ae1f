import Casync.Proofs.Runs
import Casync.Wp
import Casync.Scenarios

/-!
The base of a run is handed over once. `ca_sync_start` creates the encoder or the decoder on
first use and gives it the base. The encoder is released again when it refuses the base
descriptor, so that the next step retries; the decoder is kept whatever happens after
`ca_decoder_new`. So in every reachable state the encoder has accepted a base descriptor
exactly when it exists, and the decoder has been offered a base, as a descriptor or as a
mode, at most once and never before it existed. A collaborator that exists is never given a
base again: a DECODE driver whose first step created the decoder with no base to give it
never gives it one, whatever is configured after that step.
-/

namespace Casync.Proofs.Handover

open Casync.Proofs.Frames Casync.Proofs.Runs

variable {σ α β : Type} (E : Env σ)

/-- The calls that give the decoder its base, as a descriptor or as a mode. -/
abbrev decoderBaseCalls : List CallKind := [.decoderSetBaseFd, .decoderSetBaseMode]

/-- A base descriptor the encoder accepted. -/
def acceptedBase : Event → Option Int
  | ⟨.encoderSetBaseFd fd, .ok ()⟩ => some fd
  | _ => none

/-- The base descriptors the encoder accepted, in order. -/
def encoderBases (log : List Event) : List Int := log.filterMap acceptedBase

@[simp] theorem encoderBases_append (l l' : List Event) :
    encoderBases (l ++ l') = encoderBases l ++ encoderBases l' :=
  List.filterMap_append ..

@[simp] theorem encoderBases_nil : encoderBases [] = [] := rfl

@[simp] theorem encoderBases_cons (e : Event) (l : List Event) :
    encoderBases (e :: l) = (acceptedBase e).toList ++ encoderBases l := by
  simp only [encoderBases, List.filterMap_cons]
  cases acceptedBase e <;> rfl

theorem acceptedBase_of_kind {e : Event} (h : e.call.kind ≠ .encoderSetBaseFd) :
    acceptedBase e = none := by
  rcases e with ⟨c, r⟩
  cases c <;> first | rfl | exact absurd rfl h

/-- The handover invariant: the decoder has been offered a base at most once, and not before
it existed; the encoder has accepted one base exactly when it exists. -/
structure Handovers (s : Sys σ) : Prop where
  decoderOnce : (callsIn decoderBaseCalls s.log).length ≤ 1
  decoderFirst : s.sync.decoder = false → callsIn decoderBaseCalls s.log = []
  encoder : (encoderBases s.log).length = if s.sync.encoder then 1 else 0

/-- From `s` to `s'` no base was handed over again: a decoder or an encoder of `s` still
exists in `s'` and was given nothing in between. -/
def Settled (s s' : Sys σ) : Prop :=
  (s.sync.decoder = true → s'.sync.decoder = true ∧
    callsIn decoderBaseCalls s'.log = callsIn decoderBaseCalls s.log) ∧
  (s.sync.encoder = true → s'.sync.encoder = true ∧ encoderBases s'.log = encoderBases s.log)

theorem Settled.refl (s : Sys σ) : Settled s s := ⟨fun h => ⟨h, rfl⟩, fun h => ⟨h, rfl⟩⟩

theorem Settled.trans {s₁ s₂ s₃ : Sys σ} (h : Settled s₁ s₂) (h' : Settled s₂ s₃) :
    Settled s₁ s₃ :=
  ⟨fun hd => ⟨(h'.1 (h.1 hd).1).1, (h'.1 (h.1 hd).1).2.trans (h.1 hd).2⟩,
    fun he => ⟨(h'.2 (h.2 he).1).1, (h'.2 (h.2 he).1).2.trans (h.2 he).2⟩⟩

/-- What a function does from `s` to `s'`: it hands no base over again and keeps the
invariant. -/
def Hands (s s' : Sys σ) : Prop := Settled s s' ∧ (Handovers s → Handovers s')

theorem Hands.trans {s₁ s₂ s₃ : Sys σ} (h : Hands s₁ s₂) (h' : Hands s₂ s₃) : Hands s₁ s₃ :=
  ⟨h.1.trans h'.1, fun hh => h'.2 (h.2 hh)⟩

theorem hands_of_same {s s' : Sys σ} (hd : s'.sync.decoder = s.sync.decoder)
    (he : s'.sync.encoder = s.sync.encoder)
    (hc : callsIn decoderBaseCalls s'.log = callsIn decoderBaseCalls s.log)
    (hb : encoderBases s'.log = encoderBases s.log) : Hands s s' :=
  ⟨⟨fun h => ⟨hd.trans h, hc⟩, fun h => ⟨he.trans h, hb⟩⟩,
    fun ⟨h₁, h₂, h₃⟩ => ⟨hc ▸ h₁, fun h => hc ▸ h₂ (hd ▸ h), hb ▸ he ▸ h₃⟩⟩

theorem hands_of_frame {K : List CallKind} {F : List Field} {s s' : Sys σ}
    (hO : Only F s.sync s'.sync) {Δ : List Event} (hΔ : s'.log = s.log ++ Δ)
    (hk : ∀ e ∈ Δ, e.call.kind ∈ K) (hK : ∀ k ∈ K, k ∉ .encoderSetBaseFd :: decoderBaseCalls)
    (he : .encoder ∉ F) (hd : .decoder ∉ F) : Hands s s' := by
  have hΔc : callsIn decoderBaseCalls Δ = [] :=
    callsIn_eq_nil hk fun k hk' hk'' => hK k hk' (List.mem_cons_of_mem _ hk'')
  have hΔb : encoderBases Δ = [] := List.filterMap_eq_nil_iff.mpr fun e he' =>
    acceptedBase_of_kind fun h' => hK _ (hk e he') (h' ▸ List.mem_cons_self _ _)
  refine hands_of_same ((Only.iff.mp hO).2.2.1 hd) ((Only.iff.mp hO).2.1 he) ?_ ?_
  · rw [hΔ, callsIn_append, hΔc, List.append_nil]
  · rw [hΔ, encoderBases_append, hΔb, List.append_nil]

theorem hands_of_created {s s' : Sys σ} (hd : s.sync.decoder = false)
    (hd' : s'.sync.decoder = true) (he : s'.sync.encoder = s.sync.encoder) {Δ : List Event}
    (hΔ : s'.log = s.log ++ Δ) (hc : (callsIn decoderBaseCalls Δ).length ≤ 1)
    (hb : encoderBases Δ = []) : Hands s s' := by
  have hb' : encoderBases s'.log = encoderBases s.log := by
    rw [hΔ, encoderBases_append, hb, List.append_nil]
  refine ⟨⟨fun h => (nomatch hd.symm.trans h), fun h => ⟨he.trans h, hb'⟩⟩,
    fun ⟨_, h₂, h₃⟩ => ⟨?_, fun h => (nomatch hd'.symm.trans h), hb' ▸ he ▸ h₃⟩⟩
  rwa [hΔ, callsIn_append, h₂ hd, List.nil_append]

/-- `m` hands no base over again and keeps the invariant, whatever its outcome. -/
def HandsOver (m : SyncM σ α) : Prop := ∀ s, Hands s (after m s)

namespace HandsOver

variable {E} {m : SyncM σ α} {f : α → SyncM σ β}

theorem of_footprint {K : List CallKind} {F : List Field} (h : Footprint K F m)
    (hK : ∀ k ∈ K, k ∉ .encoderSetBaseFd :: decoderBaseCalls) (he : .encoder ∉ F)
    (hd : .decoder ∉ F) : HandsOver m := fun s =>
  let ⟨hO, _, hΔ, hk⟩ := h s
  hands_of_frame hO hΔ hk hK he hd

theorem pure (a : α) : HandsOver (Pure.pure a : SyncM σ α) := fun s => ⟨Settled.refl s, id⟩

theorem getSync : HandsOver (Casync.getSync : SyncM σ _) := fun s => ⟨Settled.refl s, id⟩

theorem bind (hm : HandsOver m) (hf : ∀ a, HandsOver (f a)) : HandsOver (m >>= f) := fun s => by
  rw [after_bind]
  split
  · rename_i a s₁ h
    have h₁ := hm s
    simp only [after, h] at h₁
    exact h₁.trans (hf a s₁)
  · rename_i h
    simpa only [after, h] using hm s

end HandsOver

theorem callsIn_snoc_other {l : List Event} {e : Event}
    (h : decoderBaseCalls.elem e.call.kind = false) :
    callsIn decoderBaseCalls (l ++ [e]) = callsIn decoderBaseCalls l := by
  rw [callsIn_append, callsIn_singleton, h, if_neg Bool.false_ne_true, List.append_nil]

theorem callsIn_singleton_length (K : List CallKind) (e : Event) :
    (callsIn K [e]).length ≤ 1 := by
  rw [callsIn_singleton]
  split <;> simp

theorem encoderBases_snoc_none {l : List Event} {e : Event} (h : acceptedBase e = none) :
    encoderBases (l ++ [e]) = encoderBases l := by
  rw [encoderBases_append, encoderBases_cons, h, encoderBases_nil, Option.toList_none,
    List.append_nil, List.append_nil]

/-- The encoder is created, and takes the base, only when there is none: when it refuses the
base it is released again, so that it exists exactly when it holds one. -/
theorem startEncoder_hands : HandsOver (startEncoder E) := fun s => by
  refine Wp.after_iff.mp ?_
  simp only [startEncoder, Wp.bind_iff, Wp.getSync_iff, Wp.ite_iff, Wp.fail_iff, Wp.call_iff,
    Wp.modifySync_iff, Wp.pure_iff]
  refine ⟨fun ⟨_, he⟩ => ⟨fun _ => ⟨Settled.refl s, id⟩, fun _ => ⟨fun _ =>
    hands_of_same rfl rfl (callsIn_snoc_other rfl) (encoderBases_snoc_none rfl), fun _ => ?_⟩⟩,
    fun _ => ⟨Settled.refl s, id⟩⟩
  have hc (b : Bool) (r : Except Int Unit) : callsIn decoderBaseCalls
      (s.log ++ [⟨.encoderNew, b⟩] ++ [⟨.encoderSetBaseFd s.sync.baseFd, r⟩]) =
      callsIn decoderBaseCalls s.log :=
    (callsIn_snoc_other (e := ⟨.encoderSetBaseFd _, r⟩) rfl).trans
      (callsIn_snoc_other (e := ⟨.encoderNew, b⟩) rfl)
  split <;> rename_i hr
  · refine ⟨⟨fun hd => ⟨hd, hc _ _⟩, fun h => absurd h (by simp [he])⟩,
      fun ⟨h₁, h₂, h₃⟩ => ⟨hc _ _ ▸ h₁, fun h => (hc _ _).trans (h₂ h), ?_⟩⟩
    simp only [he] at h₃
    simp [hr, acceptedBase, h₃]
  · simp only [Wp.bind_iff, Wp.modifySync_iff, Wp.fail_iff]
    exact hands_of_same rfl he.symm (hc _ _) (by simp [hr, acceptedBase])

/-- The decoder is created, and offered the base, only when there is none; it is kept whatever
happens after `ca_decoder_new`. -/
theorem attachDecoder_hands {s : Sys σ} (hd : s.sync.decoder = false) :
    Hands s (after (attachDecoder E) s) := by
  refine Wp.after_iff.mp ?_
  simp only [attachDecoder, Wp.bind_iff, Wp.getSync_iff, Wp.ite_iff, Wp.fail_iff, Wp.call_iff,
    Wp.modifySync_iff, Wp.pure_iff, Wp.orFail_iff]
  refine ⟨fun _ => ?_, fun _ => ⟨fun _ => ⟨fun _ _ => ?_, fun _ _ => ?_⟩,
    fun _ => ⟨fun _ => ?_, fun _ => ⟨fun _ _ => ?_, fun _ _ => ?_⟩⟩⟩⟩
  all_goals first
    | exact hands_of_same rfl rfl (callsIn_snoc_other rfl) (encoderBases_snoc_none rfl)
    | exact hands_of_created hd rfl rfl (List.append_assoc _ _ _) (Nat.le_of_eq (by rfl)) (by rfl)
    | exact hands_of_created hd rfl rfl (by rfl) (callsIn_singleton_length _ _) (by rfl)

theorem startDecoder_hands : HandsOver (startDecoder E) := fun s => by
  refine Wp.after_iff.mp ?_
  simp only [startDecoder, Wp.bind_iff, Wp.getSync_iff, Wp.ite_iff, Wp.pure_iff]
  refine ⟨fun ⟨_, hd⟩ => ⟨fun _ => ?_, fun _ => Wp.after_iff.mpr (attachDecoder_hands E hd)⟩,
    fun _ => ⟨Settled.refl s, id⟩⟩
  split
  · refine Wp.bind_iff.mpr (((materializeBase_footprint E _).wp s).mono (fun _ s₁ ⟨hO, _, hΔ, hk⟩ =>
      Wp.after_iff.mpr ((hands_of_frame hO hΔ hk (by decide) (by decide) (by decide)).trans
        (attachDecoder_hands E (((Only.iff.mp hO).2.2.1 (by decide)).trans hd))))
      fun _ _ ⟨hO, _, hΔ, hk⟩ => hands_of_frame hO hΔ hk (by decide) (by decide) (by decide))
  · exact Wp.after_iff.mpr (attachDecoder_hands E hd)

theorem start_hands : HandsOver (start E) :=
  .bind (.of_footprint (startArchive_footprint E) (by decide) (by decide) (by decide)) fun _ =>
  .bind (startEncoder_hands E) fun _ =>
  .bind (startDecoder_hands E) fun _ =>
  .of_footprint (startIndex_footprint E) (by decide) (by decide) (by decide)

theorem step_hands : HandsOver (step E) :=
  .bind (start_hands E) fun _ => .bind .getSync fun c => by
    split
    exacts [.of_footprint (stepEncode_footprint E) (by decide) (by decide) (by decide),
      .of_footprint (stepDecode_footprint E) (by decide) (by decide) (by decide)]

theorem exec_hands : ∀ op, HandsOver (exec E op)
  | .set c => .of_footprint (exec_set_footprint E c) (by decide) (by decide) (by decide)
  | .step => .bind (step_hands E) fun _ => .pure _
  | .put id data => .bind (.of_footprint (put_footprint E id data) (by decide) (by decide)
      (by decide)) fun _ => .pure _
  | .get _ | .makeObjectId _ | .getDigest | .currentPath | .currentMode =>
      .of_footprint (query_footprint E _ trivial) (by decide) (by decide) (by decide)

/-- The run lemma: every reachable state keeps the handover invariant. -/
theorem reachable_handovers {s : Sys σ} (hr : Reachable E s) : Handovers s := by
  induction hr with
  | new dir => exact ⟨Nat.zero_le _, fun _ => rfl, rfl⟩
  | exec op _ ih => exact (exec_hands E op _).2 ih

theorem runOps_settled : ∀ (s : Sys σ) (ops : List Op), Settled s (runOps E s ops).1
  | s, [] => Settled.refl s
  | s, op :: ops => by
      rw [runOps_cons]
      exact (exec_hands E op s).1.trans (runOps_settled _ ops)

/-- In every reachable state, failed calls included, the decoder has been offered a base, as
a descriptor or as a mode, at most once and not before it existed, and the encoder has
accepted one base descriptor if it exists and none otherwise. -/
theorem base_handed_over_once {s : Sys σ} (hr : Reachable E s) :
    (callsIn decoderBaseCalls s.log).length ≤ 1 ∧
      (s.sync.decoder = false → callsIn decoderBaseCalls s.log = []) ∧
      (encoderBases s.log).length = if s.sync.encoder then 1 else 0 :=
  let ⟨h₁, h₂, h₃⟩ := reachable_handovers E hr
  ⟨h₁, h₂, h₃⟩

theorem base_handed_over_once_encode :
    encoderBases (runOps (sliceEnv [1, 2, 3]) (configure (sliceEnv [1, 2, 3]) .encode indexConfig)
        [.step]).1.log = [5] ∧
      (encoderBases (runOps (sliceEnv [1, 2, 3])
        (configure (sliceEnv [1, 2, 3]) .encode indexConfig) [.step]).1.log).length =
        if (runOps (sliceEnv [1, 2, 3]) (configure (sliceEnv [1, 2, 3]) .encode indexConfig)
          [.step]).1.sync.encoder then 1 else 0 :=
  ⟨by decide, (base_handed_over_once _ (runOps_reachable _ _ (configure_reachable _ _ _))).2.2⟩

/-- The first step of a DECODE driver with a decoder to create, no base descriptor and no base
path, when `ca_decoder_new` succeeds: the decoder is created, and with no base mode either the
step fails with `-EUNATCH`, the decoder kept and given nothing. -/
theorem step_unattached {s : Sys σ} (hdir : s.sync.direction = .decode)
    (hdec : s.sync.decoder = false) (hfd : s.sync.baseFd < 0) (hpath : s.sync.basePath = none)
    (hmode : s.sync.baseMode = modeUnset) (hnew : E.answer s.log .decoderNew = true) :
    Wp (exec E .step) s (fun _ _ => False) fun f s' =>
      f = .ret (-EUNATCH) ∧ s'.sync.decoder = true ∧
        callsIn decoderBaseCalls s'.log = callsIn decoderBaseCalls s.log := by
  simp only [exec, step, start, startArchive, startEncoder, startDecoder, attachDecoder,
    Wp.bind_iff, Wp.getSync_iff, Wp.ite_iff, Wp.call_iff, Wp.modifySync_iff, Wp.fail_iff,
    Wp.pure_iff, hdir, hdec, hfd, hpath, hmode, hnew, reduceCtorEq, false_and, and_true, true_and,
    not_false_eq_true, false_implies, true_implies, Int.not_le.mpr hfd, Bool.not_true,
    Bool.false_eq_true, if_true, ge_iff_le, not_true_eq_false]
  rw [callsIn_append, callsIn_singleton, if_neg (by decide), List.append_nil]

/-- A DECODE driver configured with no base descriptor, no base path and no base mode, in
surroundings where `ca_decoder_new` succeeds: its first step creates the decoder and fails
with `-EUNATCH`, and the decoder is kept. From then on no call, whatever it configures, gives
the decoder a base. -/
theorem decoder_left_without_base (cfg : List Setter) (ops : List Op)
    (hfd : (configure E .decode cfg).sync.baseFd < 0)
    (hpath : (configure E .decode cfg).sync.basePath = none)
    (hmode : (configure E .decode cfg).sync.baseMode = modeUnset)
    (hnew : E.answer (configure E .decode cfg).log .decoderNew = true) :
    outcome (exec E .step) (configure E .decode cfg) = .error (.ret (-EUNATCH)) ∧
      (runOps E (after (exec E .step) (configure E .decode cfg)) ops).1.sync.decoder = true ∧
      callsIn decoderBaseCalls
        (runOps E (after (exec E .step) (configure E .decode cfg)) ops).1.log = [] := by
  obtain ⟨hF, hK⟩ := configure_calls E .decode cfg
  obtain ⟨_, ho, rfl, hd, hc⟩ := Wp.outcome_error (step_unattached E
    (hF.field CaSync.direction fun _ => rfl) (hF.field CaSync.decoder fun _ => rfl) hfd hpath
    hmode hnew)
  obtain ⟨hd', hc'⟩ := (runOps_settled E _ ops).1 hd
  exact ⟨ho, hd', hc'.trans (hc.trans (callsIn_eq_nil hK (by decide)))⟩

theorem decoder_left_without_base_once :
    outcome (exec archiveFedEnv .step) (configure archiveFedEnv .decode [.archiveFd 9]) =
        .error (.ret (-EUNATCH)) ∧
      (runOps archiveFedEnv (after (exec archiveFedEnv .step)
        (configure archiveFedEnv .decode [.archiveFd 9]))
        [.set (.baseMode 0o40755), .step]).1.sync.decoder = true ∧
      callsIn decoderBaseCalls (runOps archiveFedEnv (after (exec archiveFedEnv .step)
        (configure archiveFedEnv .decode [.archiveFd 9]))
        [.set (.baseMode 0o40755), .step]).1.log = [] :=
  decoder_left_without_base archiveFedEnv _ _ (by decide) (by decide) (by decide) rfl

/-- The calls that create or ask an encoder. -/
abbrev encoderCalls : List CallKind :=
  [.encoderNew, .encoderSetBaseFd, .encoderStep, .encoderGetData, .encoderCurrentPath,
    .encoderCurrentMode]

/-- An ENCODE driver with neither an encoder nor a base descriptor to create one with. -/
def Baseless (c : CaSync σ) : Prop := c.direction = .encode ∧ c.encoder = false ∧ c.baseFd < 0

theorem baseless_of_only {F : List Field} {c c' : CaSync σ} (h : Baseless c) (hO : Only F c c')
    (hF : .direction ∉ F ∧ .encoder ∉ F ∧ .baseFd ∉ F) : Baseless c' := by
  obtain ⟨hd, he, -, -, -, -, hb, -⟩ := Only.iff.mp hO
  exact ⟨(hd hF.1).trans h.1, (he hF.2.1).trans h.2.1, (hb hF.2.2).symm ▸ h.2.2⟩

theorem step_baseless {s : Sys σ} (h : Baseless s.sync) :
    Wp (exec E .step) s (fun _ _ => False) fun _ s' =>
      Baseless s'.sync ∧ callsIn encoderCalls s'.log = callsIn encoderCalls s.log := by
  have hkeep (s₁ : Sys σ) (hO : Only [.archiveFd, .temporaryArchivePath] s.sync s₁.sync)
      (hΔ : ∃ Δ, s₁.log = s.log ++ Δ ∧ ∀ e ∈ Δ, e.call.kind ∈ [.tempfnRandom, .create]) :
      Baseless s₁.sync ∧ callsIn encoderCalls s₁.log = callsIn encoderCalls s.log := by
    obtain ⟨Δ, hΔ, hk⟩ := hΔ
    exact ⟨baseless_of_only h hO (by decide),
      by rw [hΔ, callsIn_append, callsIn_eq_nil hk (by decide), List.append_nil]⟩
  simp only [exec, step, start, Wp.bind_iff]
  refine ((startArchive_footprint E).wp s).mono (fun _ s₁ ⟨hO, hΔ⟩ => ?_)
    fun _ s₁ ⟨hO, hΔ⟩ => hkeep s₁ hO hΔ
  obtain ⟨⟨hd, he, hfd⟩, hc⟩ := hkeep s₁ hO hΔ
  simp only [startEncoder, Wp.bind_iff, Wp.getSync_iff, Wp.ite_iff, Wp.fail_iff, hd, he, hfd,
    and_self, true_implies, not_true_eq_false, false_implies, and_true]
  exact ⟨⟨hd, he, hfd⟩, hc⟩

theorem query_baseless {op : Op} (hq : IsQuery op) :
    Guarded Baseless encoderCalls (exec E op) := by
  have hpath : Guarded Baseless encoderCalls (currentPath E) :=
    .getSync_bind fun _ hc => .ite (fun h => .absurd (by simp [hc.2.1] at h))
      fun _ => .ite (fun h => .absurd (by simp [hc.1] at h)) fun _ => .fail _
  have hmode : Guarded Baseless encoderCalls (currentMode E) :=
    .getSync_bind fun _ hc => .ite (fun h => .absurd (by simp [hc.2.1] at h))
      fun _ => .ite (fun h => .absurd (by simp [hc.1] at h)) fun _ => .fail _
  cases op <;> simp only [IsQuery] at hq <;> refine .bind ?_ fun _ => .pure _
  · exact .of_footprint (get_footprint E _) (fun _ _ hO h => baseless_of_only h hO (by decide))
      (by decide)
  · exact .of_footprint (makeObjectId_footprint E _)
      (fun _ _ hO h => baseless_of_only h hO (by decide)) (by decide)
  · exact .of_footprint (getDigest_footprint E) (fun _ _ hO h => baseless_of_only h hO (by decide))
      (by decide)
  exacts [hpath, hmode]

/-- The run lemma: from a baseless ENCODE driver, a run of steps and queries keeps it baseless,
every step fails, and no encoder is created or asked. -/
theorem run_baseless : ∀ (ops : List Op) {s : Sys σ}, Baseless s.sync →
    (∀ op ∈ ops, op = .step ∨ IsQuery op) →
      (∀ o ∈ (runOps E s ops).2, o.1 = .step → ∃ f, o.2 = .error f) ∧
        Baseless (runOps E s ops).1.sync ∧
        callsIn encoderCalls (runOps E s ops).1.log = callsIn encoderCalls s.log
  | [], _, h, _ => ⟨fun _ ho => absurd ho (List.not_mem_nil _), h, rfl⟩
  | op :: ops, s, h, hops => by
      have hone : (op = .step → ∃ f, outcome (exec E op) s = .error f) ∧
          Baseless (after (exec E op) s).sync ∧
          callsIn encoderCalls (after (exec E op) s).log = callsIn encoderCalls s.log := by
        rcases hops op (.head _) with rfl | hq
        · obtain ⟨f, ho, hb, hc⟩ := Wp.outcome_error (step_baseless E h)
          exact ⟨fun _ => ⟨f, ho⟩, hb, hc⟩
        · obtain ⟨hb, Δ, hΔ, hc⟩ := query_baseless E hq s h
          refine ⟨fun hop => by subst hop; exact hq.elim, hb, ?_⟩
          rw [hΔ, callsIn_append, hc, List.append_nil]
      obtain ⟨ho, hb, hc⟩ := hone
      obtain ⟨ih₁, ih₂, ih₃⟩ := run_baseless ops hb fun op' h' => hops op' (.tail _ h')
      rw [runOps_cons]
      refine ⟨?_, ih₂, ih₃.trans hc⟩
      intro o ho'
      rcases List.mem_cons.mp ho' with rfl | ho'
      exacts [ho, ih₁ o ho']

/-- An ENCODE driver configured without a base descriptor: whatever queries come in between,
every step fails and no encoder is ever created or asked. A DECODE driver without a base, by
contrast, creates its decoder before it fails. -/
theorem encoder_never_without_base (cfg : List Setter) (ops : List Op)
    (hfd : (configure E .encode cfg).sync.baseFd < 0)
    (hops : ∀ op ∈ ops, op = .step ∨ IsQuery op) :
    (∀ o ∈ (runOps E (configure E .encode cfg) ops).2, o.1 = .step → ∃ f, o.2 = .error f) ∧
      (runOps E (configure E .encode cfg) ops).1.sync.encoder = false ∧
      callsIn encoderCalls (runOps E (configure E .encode cfg) ops).1.log = [] := by
  obtain ⟨hF, hK⟩ := configure_calls E .encode cfg
  obtain ⟨h₁, h₂, h₃⟩ := run_baseless E ops
    ⟨hF.field CaSync.direction fun _ => rfl, hF.field CaSync.encoder fun _ => rfl, hfd⟩ hops
  exact ⟨h₁, h₂.2.1, h₃.trans (callsIn_eq_nil hK (by decide))⟩

theorem encoder_never_without_base_archive :
    (configure emptyEnv .encode [.archivePath (some "out")]).sync.baseFd < 0 ∧
      (∀ o ∈ (runOps emptyEnv (configure emptyEnv .encode [.archivePath (some "out")])
        [.step, .currentPath, .step]).2, o.1 = .step → ∃ f, o.2 = .error f) ∧
      callsIn encoderCalls (runOps emptyEnv (configure emptyEnv .encode [.archivePath (some "out")])
        [.step, .currentPath, .step]).1.log = [] :=
  have h := encoder_never_without_base emptyEnv [.archivePath (some "out")]
    [.step, .currentPath, .step] (by decide) (by simp [IsQuery])
  ⟨by decide, h.1, h.2.2⟩


end Casync.Proofs.Handover
