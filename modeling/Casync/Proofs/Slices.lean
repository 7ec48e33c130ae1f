import Casync.Proofs.Runs

/-!
The bytes an ENCODE driver reads are the slices its encoder returned. After a
`ca_encoder_step` that returns `CA_ENCODER_DATA` or `CA_ENCODER_NEXT_FILE`,
`ca_sync_step_encode` calls `ca_encoder_get_data` at once, and no other function of the driver
steps the encoder or reads its data. So over every run whose steps succeed, each slice the
encoder returned was fetched once, in order, and the stream that the archive, the archive
digest and the chunker see is the concatenation of those slices.
-/

namespace Casync.Proofs.Slices

open Casync.Proofs.Frames Casync.Proofs.EncodeSpec Casync.Proofs.Runs

variable {σ : Type} (E : Env σ)

/-- Over `Δ`, appended to the log `pre`, the encoder handed out every slice it returned, and
`Δ` fetched exactly their bytes, in order. -/
def Served (pre Δ : List Event) : Prop :=
  ∃ ds : List Bytes, offered E.answer pre Δ = ds.map .ok ∧ stream Δ = ds.flatten

variable {E} {pre Δ Δ' : List Event} {e : Event}

theorem Served.append (h : Served E pre Δ) (h' : Served E (pre ++ Δ) Δ') :
    Served E pre (Δ ++ Δ') :=
  let ⟨ds, ho, hs⟩ := h
  let ⟨ds', ho', hs'⟩ := h'
  ⟨ds ++ ds', by rw [offered_append, ho, ho', List.map_append],
    by rw [stream_append, hs, hs', List.flatten_append]⟩

theorem handsData_of_kind (h : e.call.kind ≠ .encoderStep) : e.handsData = false := by
  rcases e with ⟨c, r⟩
  cases c <;> first | rfl | exact absurd rfl h

theorem encoded_of_handsData (h : e.handsData = true) : e.encoded = [] := by
  rcases e with ⟨c, r⟩
  cases c <;> first | rfl | simp [Event.handsData] at h

/-- Calls that neither step the encoder nor read its data serve and fetch nothing. -/
theorem served_of_kinds :
    ∀ {pre Δ : List Event}, (∀ e ∈ Δ, e.call.kind ≠ .encoderStep ∧ e.call.kind ≠ .encoderGetData) →
      Served E pre Δ
  | _, [], _ => ⟨[], rfl, rfl⟩
  | _, e :: _, h =>
      have he := h e (List.mem_cons_self _ _)
      (show Served E _ [e] from ⟨[], by simp [handsData_of_kind he.1],
        by simp [encoded_of_kind he.2]⟩).append
        (served_of_kinds fun e' he' => h e' (List.mem_cons_of_mem _ he'))

/-- A step that returned a slice, followed at once by the read of that slice. -/
theorem served_fetch (he : e.handsData = true) {p : Bytes}
    (hp : E.answer (pre ++ [e]) .encoderGetData = .ok p)
    (h : Served E (pre ++ [e, ⟨.encoderGetData, .ok p⟩]) Δ) :
    Served E pre (e :: ⟨.encoderGetData, .ok p⟩ :: Δ) :=
  let ⟨ds, ho, hs⟩ := h
  ⟨p :: ds, by
    rw [offered, offered, he, hp, List.append_assoc, List.singleton_append, ho]
    rfl, by
    show stream ([e] ++ [⟨.encoderGetData, .ok p⟩] ++ Δ) = _
    rw [stream_append, stream_append, stream_singleton, stream_singleton,
      encoded_of_handsData he, hs]
    rfl⟩

theorem served_trans {s s₁ s' : Sys σ} (h₁ : s₁.log = s.log ++ Δ) (hs₁ : Served E s.log Δ) :
    (∃ Δ', s'.log = s₁.log ++ Δ' ∧ Served E s₁.log Δ') →
      ∃ Δ', s'.log = s.log ++ Δ' ∧ Served E s.log Δ'
  | ⟨Δ', h', hs'⟩ => ⟨Δ ++ Δ', by rw [h', h₁, List.append_assoc], hs₁.append (h₁ ▸ hs')⟩

variable (E)

theorem served_of_footprint {K : List CallKind} {F : List Field} {α : Type} {m : SyncM σ α}
    (h : Footprint K F m) (hK : ∀ k ∈ K, k ≠ .encoderStep ∧ k ≠ .encoderGetData) (s : Sys σ) :
    OnOk m s fun _ s' => ∃ Δ, s'.log = s.log ++ Δ ∧ Served E s.log Δ :=
  (h.onOk s).mono fun _ _ ⟨_, Δ, hΔ, hk⟩ => ⟨Δ, hΔ, served_of_kinds fun e he => hK _ (hk e he)⟩

/-- `CA_ENCODER_DATA` and `CA_ENCODER_NEXT_FILE`: the slice is read first, and the rest of the
case neither steps the encoder nor reads it again. -/
theorem encodeData_fetches (s : Sys σ) : OnOk (encodeData E) s fun _ s' => ∃ p Δ,
    E.answer s.log .encoderGetData = .ok p ∧ s'.log = s.log ++ ⟨.encoderGetData, .ok p⟩ :: Δ ∧
      Served E (s.log ++ [⟨.encoderGetData, .ok p⟩]) Δ := by
  have hrest (p : Bytes) : Footprint (.loopWrite :: chunkCalls) [.objectDigest, .archiveDigest,
      .buffer, .chunker] (do writeArchive E p; writeArchiveDigest E p; writeChunks E p) :=
    .bind ((writeArchive_footprint E p).mono (by decide) (by decide)) fun _ =>
      .bind ((writeArchiveDigest_footprint E p).mono (by decide) (by decide)) fun _ =>
        (writeChunks_footprint E p).mono (by decide) (by decide)
  simp only [encodeData]
  rw [OnOk.bind_iff, OnOk.call_iff, OnOk.bind_iff, OnOk.orFail_iff]
  intro p hp
  refine (served_of_footprint E (hrest p) (by decide) _).mono fun _ s' ⟨Δ, hΔ, hs⟩ =>
    ⟨p, Δ, hp, ?_, ?_⟩
  · rw [hΔ, hp, List.append_assoc, List.singleton_append]
  · simpa only [hp] using hs

theorem stepEncode_serves (s : Sys σ) :
    OnOk (stepEncode E) s fun _ s' => ∃ Δ, s'.log = s.log ++ Δ ∧ Served E s.log Δ := by
  simp only [stepEncode, abort, OnOk.bind_iff, OnOk.getSync_iff, OnOk.ite_iff, OnOk.call_iff,
    OnOk.orFail_iff, OnOk.throw_true, OnOk.fail_true, OnOk.pure_iff, implies_true, true_and,
    and_true]
  intro _ _ st hst
  cases st with
  | finished =>
      refine (served_of_footprint E (encodeFinished_footprint E) (by decide) _).mono fun _ _ =>
        served_trans rfl ⟨[], ?_, ?_⟩
      · simp [hst, Event.handsData]
      · simp [Event.encoded]
  | nextFile | data =>
      simp only [OnOk.bind_iff, OnOk.pure_iff]
      refine (encodeData_fetches E _).mono fun _ s' ⟨p, Δ, hp, hΔ, hs⟩ =>
        ⟨_, by rw [hΔ, List.append_assoc, List.singleton_append], served_fetch ?_ hp ?_⟩
      · simp [hst, Event.handsData]
      · simpa only [List.append_assoc, List.singleton_append] using hs
  | other => exact OnOk.throw_true

theorem step_serves (s : Sys σ) :
    OnOk (step E) s fun _ s' => ∃ Δ, s'.log = s.log ++ Δ ∧ Served E s.log Δ := by
  simp only [step, OnOk.bind_iff]
  refine (served_of_footprint E (start_footprint E) (by decide) s).mono
    fun _ s₁ ⟨Δ₁, h₁, hs₁⟩ => ?_
  simp only [OnOk.getSync_iff]
  split
  · exact (stepEncode_serves E s₁).mono fun _ _ => served_trans h₁ hs₁
  · exact (served_of_footprint E (stepDecode_footprint E) (by decide) s₁).mono fun _ _ =>
      served_trans h₁ hs₁

theorem exec_served {s : Sys σ} (h : Served E [] s.log) {op : Op}
    (hop : Drives op (outcome (exec E op) s)) : Served E [] (after (exec E op) s).log := by
  obtain ⟨rfl | hq, hok⟩ := hop
  · obtain ⟨r, hr⟩ := hok rfl
    have h' : OnOk (exec E .step) s fun _ s' => ∃ Δ, s'.log = s.log ++ Δ ∧ Served E s.log Δ := by
      simp only [exec, OnOk.bind_iff, OnOk.pure_iff]
      exact step_serves E s
    obtain ⟨Δ, hΔ, hs⟩ := h'.of_outcome hr
    rw [hΔ]
    exact h.append hs
  · obtain ⟨-, Δ, hΔ, hk⟩ := query_footprint E op hq s
    rw [hΔ]
    exact h.append (served_of_kinds fun e he => (by decide : ∀ k ∈ queryCalls,
      k ≠ .encoderStep ∧ k ≠ .encoderGetData) _ (hk e he))

theorem configure_served (dir : CaDirection) (cfg : List Setter) :
    Served E [] (configure E dir cfg).log :=
  served_of_kinds fun e he => (by decide : ∀ k ∈ configCalls,
    k ≠ .encoderStep ∧ k ≠ .encoderGetData) _ ((configure_calls E dir cfg).2 e he)

/-- Over a run of a configured driver whose steps succeed, with any queries between them, the
driver fetched every slice its encoder returned, once and in order, and nothing else. -/
theorem runOps_served {dir : CaDirection} {cfg : List Setter} {ops : List Op} {s : Sys σ}
    {outs : List (Op × Except Fault Reply)} (hrun : runOps E (configure E dir cfg) ops = (s, outs))
    (hops : ∀ op ∈ ops, op = .step ∨ IsQuery op)
    (hok : ∀ o ∈ outs, o.1 = .step → ∃ r, o.2 = .ok r) : Served E [] s.log := by
  have h := runOps_invariant E (fun _ _ h hop => exec_served E h hop) (configure_served E dir cfg)
    (runOps_drives E hrun hops hok)
  rwa [hrun] at h

end Casync.Proofs.Slices
