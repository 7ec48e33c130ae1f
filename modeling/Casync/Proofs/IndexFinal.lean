import Casync.Proofs.ArchiveDigest
import Casync.Scenarios

/-!
What an ENCODE run with a writable store and an index writes to the index. Each chunk is
recorded as it is stored; the step that reports `CA_SYNC_FINISHED` then sets the archive
digest, writes the EOF record and closes the index, but `ca_sync_write_final_chunk` does
so only after storing a non-empty pending tail. A stream whose last chunk ends exactly at
a cut, the empty stream among them, leaves the index without its digest and EOF record.
-/

namespace Casync.Proofs.IndexFinal

open Casync.Proofs.Frames Casync.Proofs.EncodeSpec Casync.Proofs.Runs
  Casync.Proofs.ChunkPartition Casync.Proofs.ArchiveDigest Casync.Proofs.Slices

variable {σ : Type} (E : Env σ)

/-- The calls that write to the index. -/
abbrev indexCalls : List CallKind :=
  [.indexWriteObject, .indexSetDigest, .indexWriteEof, .indexClose]

/-- Those that finish it. -/
abbrev closingCalls : List CallKind := [.indexSetDigest, .indexWriteEof, .indexClose]

/-- An index record as the call that writes it. -/
def indexRecord (r : ObjectId × Nat) : Call := .indexWriteObject r.1 r.2

/-- The pending buffer after the stream `st`: the bytes `Chunker.cuts` leaves uncut. -/
def pendingTail (st : Bytes) : Bytes := (E.chunker.cuts E.chunker.init [] st).2.1

/-- What the index receives after its records when the stream `st` leaves the pending
`tail`: the digest of `st`, the EOF record and the close, if the tail is not empty. -/
def indexTrailer (tail st : Bytes) : List Call :=
  if tail = [] then [] else [.indexSetDigest (E.sha256 st), .indexWriteEof, .indexClose]

section Records

variable {Δ l l' : List Event}

theorem callsIn_event_records {e : Event} (h : callsIn closingCalls [e] = []) :
    callsIn indexCalls [e] = (indexWrites [e]).map indexRecord := by
  rcases e with ⟨c, r⟩
  cases c <;> first | rfl | cases h | (cases ‹OpenHow› <;> rfl)

theorem callsIn_records (h : callsIn closingCalls Δ = []) :
    callsIn indexCalls Δ = (indexWrites Δ).map indexRecord := by
  induction Δ with
  | nil => rfl
  | cons e Δ ih =>
      rw [← List.singleton_append, callsIn_append, List.append_eq_nil] at h
      rw [← List.singleton_append, callsIn_append, indexWrites_append, List.map_append,
        callsIn_event_records h.1, ih h.2]

theorem callsIn_grow (hΔ : l' = l ++ Δ) (hc : callsIn closingCalls Δ = [])
    {iw : List (ObjectId × Nat)} (hiw : indexWrites l' = indexWrites l ++ iw) :
    callsIn indexCalls l' = callsIn indexCalls l ++ iw.map indexRecord := by
  subst hΔ
  rw [indexWrites_append, List.append_cancel_left_eq] at hiw
  rw [callsIn_append, callsIn_records hc, hiw]

end Records

section Specs

variable (s : Sys σ)

/-- `ca_sync_write_final_chunk` records the tail it stores and, with an index, writes the
trailer: nothing more when the tail is empty. -/
theorem writeFinalChunk_index : OnOk (writeFinalChunk E) s fun _ s' =>
    callsIn indexCalls s'.log = callsIn indexCalls s.log ++
      (chunkIndex E s.sync.index (finalChunk s.sync)).map indexRecord ++
      (if s.sync.wstore.isSome ∧ s.sync.index then
        indexTrailer E s.sync.buffer (s.sync.archiveDigest.getD []) else []) := by
  simp only [writeFinalChunk, Option.isNone_iff_eq_none, OnOk.bind_iff, OnOk.getSync_iff]
  by_cases hw : s.sync.wstore = none
  · simp only [hw, if_true, OnOk.pure_iff, finalChunk, Option.isNone_none, true_or, chunkIndex_nil,
      List.map_nil, List.append_nil, Option.isSome_none, Bool.false_eq_true, false_and, if_false]
  by_cases hb : s.sync.buffer = []
  · simp only [hw, hb, if_true, if_false, pure_bind, OnOk.pure_iff, finalChunk, or_true,
      chunkIndex_nil, List.map_nil, List.append_nil, indexTrailer, ite_self]
  · simp only [hw, hb, if_false, OnOk.bind_iff, OnOk.getSync_iff, OnOk.pure_iff]
    refine ((writeOneChunk_ok E s _).and ((writeOneChunk_footprint E _).onOk s)).mono ?_
    rintro _ s₁ ⟨⟨hs₁, -, -, hiw, -⟩, -, Δ, hΔ, hK⟩
    have h₁ := callsIn_grow hΔ (callsIn_eq_nil hK (by decide)) hiw
    cases hi : s.sync.index
    · simp [hs₁, hi, h₁, finalChunk, hw, hb]
    · simp only [hs₁, hi, if_true, OnOk.bind_iff]
      refine ((allocateArchiveDigest_ok E _).and ((allocateArchiveDigest_footprint E).callsIn_onOk
        (by decide : ∀ k ∈ [CallKind.mdOpen], k ∉ indexCalls) _)).mono ?_
      rintro _ s₂ ⟨⟨hs₂, -⟩, h₂⟩
      simp [hs₂, hs₁, h₂, h₁, finalChunk, indexTrailer, hw, Option.ne_none_iff_isSome.mp hw, hb, hi,
        Call.kind]

theorem encodeFinished_index : OnOk (encodeFinished E) s fun _ s' =>
    callsIn indexCalls s'.log = callsIn indexCalls s.log ++
      (chunkIndex E s.sync.index (finalChunk s.sync)).map indexRecord ++
      (if s.sync.wstore.isSome ∧ s.sync.index then
        indexTrailer E s.sync.buffer (s.sync.archiveDigest.getD []) else []) := by
  simp only [encodeFinished, OnOk.bind_iff, OnOk.getSync_iff]
  have hclear : ∀ t : CaSync σ, Only [.temporaryArchivePath] t { t with temporaryArchivePath := none } :=
    fun _ => rfl
  refine (((installTemporary_footprint E _ _ _ hclear).onOk s).and
    ((installTemporary_footprint E _ _ _ hclear).callsIn_onOk
      (by decide : ∀ k ∈ [CallKind.rename], k ∉ indexCalls) s)).mono ?_
  rintro _ s₁ ⟨⟨hF, -⟩, h₁⟩
  refine (writeFinalChunk_index E s₁).mono ?_
  rintro _ s₂ h₂
  simp only [OnOk.modifySync_iff, OnOk.pure_iff]
  rw [h₂, h₁, finalChunk, finalChunk, hF.field CaSync.wstore fun _ => rfl,
    hF.field CaSync.buffer fun _ => rfl, hF.field CaSync.index fun _ => rfl,
    hF.field CaSync.archiveDigest fun _ => rfl]

end Specs

/-- The index invariant of an ENCODE run: the index calls are the records of the stored
chunks, followed, once `eof` is latched, by the trailer of the stream. -/
def IndexInv (s : Sys σ) : Prop :=
  callsIn indexCalls s.log = (indexWrites s.log).map indexRecord ++
    if s.sync.eof then indexTrailer E (pendingTail E (stream s.log)) (stream s.log) else []

variable {E} {w : String} {s s' : Sys σ}

/-- What keeps `eof`, adds to neither the stream nor the records and makes no index call
keeps the invariant. -/
theorem IndexInv.frame (h : IndexInv E s) (he : s'.sync.eof = s.sync.eof)
    {ps : List (Option String × ObjectId × Bytes)} {ar : Bytes} (hg : Grows s.log s'.log [] ps [] ar)
    (hc : callsIn indexCalls s'.log = callsIn indexCalls s.log) : IndexInv E s' := by
  obtain ⟨hst, -, hiw, -⟩ := hg
  simp only [List.append_nil] at hst hiw
  unfold IndexInv at h ⊢
  rw [hc, h, hst, hiw, he]

theorem IndexInv.footprint {K : List CallKind} {F : List Field} {α : Type} {m : SyncM σ α}
    (h : IndexInv E s) (hm : Footprint K F m) (hK : ∀ k ∈ K, Quiet k ∧ k ∉ indexCalls)
    (hF : .eof ∉ F) : IndexInv E (after m s) := by
  obtain ⟨hO, hg⟩ := Footprint.quiet_after hm (fun k hk => (hK k hk).1) s
  exact h.frame (hO.field CaSync.eof fun _ => by simp [CaSync.restore, hF]) hg
    (hm.callsIn_after (fun k hk => (hK k hk).2) s)

theorem encodeData_indexInv (h : IndexInv E s) (heof : s.sync.eof = false) :
    OnOk (encodeData E) s fun _ s' => IndexInv E s' := by
  refine ((encodeData_ok E s).and ((encodeData_footprint E).onOk s)).mono ?_
  rintro _ s' ⟨⟨p, hF, -, -, -, hst, -, hiw, -⟩, -, Δ, hΔ, hK⟩
  have he : s'.sync.eof = false := (hF.field CaSync.eof fun _ => rfl).trans heof
  unfold IndexInv at h ⊢
  rw [callsIn_grow hΔ (callsIn_eq_nil hK (by decide)) hiw, h, hiw, heof, he]
  simp

/-- The finishing step: the stored tail is the pending tail of the stream and the digest
the hasher hands over is that of the stream, so the trailer written is the stream's. -/
theorem encodeFinished_indexInv (hc : ChunkInv E w true s) (ha : ArchiveInv s)
    (h : IndexInv E s) (heof : s.sync.eof = false) :
    OnOk (encodeFinished E) s fun _ s' => IndexInv E s' := by
  refine ((encodeFinished_ok E s).and (encodeFinished_index E s)).mono ?_
  rintro _ s' ⟨⟨-, he, -, -, hst, -, hiw, -⟩, hc'⟩
  simp only [List.append_nil] at hst
  unfold IndexInv at h ⊢
  rw [hc', h, hiw, heof, he, hst, hc.wstore, hc.index, (hc.pending heof).1, ha.digest]
  simp [pendingTail]

theorem stepEncode_indexInv (hc : ChunkInv E w true s) (ha : ArchiveInv s) (h : IndexInv E s) :
    OnOk (stepEncode E) s fun _ s' => IndexInv E s' := by
  simp only [stepEncode, abort, OnOk.bind_iff, OnOk.getSync_iff, OnOk.ite_iff, OnOk.call_iff,
    OnOk.orFail_iff, OnOk.throw_true, OnOk.fail_true, OnOk.pure_iff, implies_true, true_and,
    and_true]
  intro heof _ st _
  have heof₁ : s.sync.eof = false := by simpa using heof
  have hq : Quiet (Call.encoderStep).kind := by decide
  have hg : Grows s.log (s.log ++ [⟨.encoderStep, E.answer s.log .encoderStep⟩]) [] [] [] [] :=
    grows_of_quiet (by simpa using hq) s.log
  have h₁ : IndexInv E { s with log := s.log ++ [⟨.encoderStep, E.answer s.log .encoderStep⟩] } :=
    h.frame rfl hg (by simp [Call.kind])
  cases st with
  | finished =>
      exact encodeFinished_indexInv (hc.call hq _) (ha.frame (Only.refl _) rfl hg) h₁ heof₁
  | nextFile | data =>
      simp only [OnOk.bind_iff, OnOk.pure_iff]
      exact encodeData_indexInv h₁ heof₁
  | other => exact OnOk.throw_true

theorem step_indexInv (hc : ChunkInv E w true s) (ha : ArchiveInv s) (h : IndexInv E s) :
    OnOk (step E) s fun _ s' => IndexInv E s' := by
  simp only [step, OnOk.bind_iff]
  refine (((start_archiveInv ha).and (Footprint.quiet (start_footprint E) (by decide) s)).and
    ((start_footprint E).callsIn_onOk (by decide : ∀ k ∈ startCalls, k ∉ indexCalls) s)).mono ?_
  rintro _ s₁ ⟨⟨⟨ha₁, -⟩, hF, hg⟩, hcalls⟩
  have hc₁ := hc.frame (hF.mono (by decide)) hg
  simp only [OnOk.getSync_iff, hc₁.direction]
  exact stepEncode_indexInv hc₁ ha₁ (h.frame (hF.field CaSync.eof fun _ => rfl) hg hcalls)

theorem exec_indexInv (hc : ChunkInv E w true s) (ha : ArchiveInv s) (h : IndexInv E s) {op : Op}
    (hop : Drives op (outcome (exec E op) s)) : IndexInv E (after (exec E op) s) := by
  obtain ⟨rfl | hq, hok⟩ := hop
  · obtain ⟨r, hr⟩ := hok rfl
    have h' : OnOk (exec E .step) s fun _ s' => IndexInv E s' := by
      simp only [exec, OnOk.bind_iff, OnOk.pure_iff]
      exact step_indexInv hc ha h
    exact h'.of_outcome hr
  · exact h.footprint (query_footprint E op hq) (by decide) (by decide)

theorem configure_indexInv (dir : CaDirection) (cfg : List Setter) :
    IndexInv E (configure E dir cfg) := by
  obtain ⟨hF, hK⟩ := configure_calls E dir cfg
  obtain ⟨-, -, hiw, -⟩ := (configure_frame E dir cfg).2
  have he : (configure E dir cfg).sync.eof = false := hF.field CaSync.eof fun _ => rfl
  unfold IndexInv
  rw [callsIn_eq_nil hK (by decide), hiw, he]
  rfl

/-- In an ENCODE run with the writable store `w` and an index, configured by `cfg` and then
driven by steps that all succeed, up to one reporting `CA_SYNC_FINISHED`, and by any
queries, the encoder returned the slices `ds`, each handed out and read once, in order. The
index receives one record per payload of their concatenation, in order, and after them the
trailer: the digest of the concatenation, the EOF record and the close when it leaves a
non-empty pending tail, and nothing otherwise. A stream that ends at a cut, the empty stream
among them, leaves the index without its digest and EOF record. -/
theorem index_trailer_needs_pending_tail (cfg : List Setter) (ops : List Op) (w : String)
    (s : Sys σ) (outs : List (Op × Except Fault Reply))
    (hrun : runOps E (configure E .encode cfg) ops = (s, outs))
    (hw : (configure E .encode cfg).sync.wstore = some w)
    (hix : (configure E .encode cfg).sync.index = true)
    (hops : ∀ op ∈ ops, op = .step ∨ IsQuery op)
    (hok : ∀ o ∈ outs, o.1 = .step → ∃ r, o.2 = .ok r)
    (hfin : (Op.step, .ok (.status .finished)) ∈ outs) :
    ∃ ds : List Bytes, offered E.answer [] s.log = ds.map .ok ∧ stream s.log = ds.flatten ∧
      callsIn indexCalls s.log =
        (E.chunker.payloads ds.flatten).map (fun c => .indexWriteObject (E.sha256 c) c.length) ++
          indexTrailer E (pendingTail E ds.flatten) ds.flatten := by
  obtain ⟨ds, hoff, hds⟩ := runOps_served E hrun hops hok
  refine ⟨ds, hoff, hds, ?_⟩
  rw [← hds]
  have hgood := runOps_drives E hrun hops hok
  have hc₀ := configure_chunkInv cfg hw
  rw [hix] at hc₀
  have hinv := @runOps_invariant σ E (fun s => ChunkInv E w true s ∧ ArchiveInv s ∧ IndexInv E s)
    Drives (fun _ _ ⟨hc, ha, h⟩ hop =>
      ⟨exec_chunkInv hc hop, exec_archiveInv ha hop, exec_indexInv hc ha h hop⟩)
    _ _ ⟨hc₀, configure_archiveInv cfg, configure_indexInv .encode cfg⟩ hgood
  rw [hrun] at hinv
  obtain ⟨hc, -, h⟩ := hinv
  have heof := runOps_eof E hrun hgood hfin
  unfold IndexInv at h
  rw [h, hc.indexWrites, stored, heof]
  simp [chunkIndex, indexRecord]

/-- The run behind the witness: the encoder hands out `[1, 2, 3]` and finishes, in two steps,
with a store and an index. -/
def indexedRun : Sys Unit × List (Op × Except Fault Reply) :=
  runOps (sliceEnv [1, 2, 3]) (configure (sliceEnv [1, 2, 3]) .encode indexConfig) [.step, .step]

theorem index_trailer_needs_pending_tail_once :
    ∃ ds : List Bytes, offered (sliceEnv [1, 2, 3]).answer [] indexedRun.1.log = ds.map .ok ∧
      callsIn indexCalls indexedRun.1.log =
        ((sliceEnv [1, 2, 3]).chunker.payloads ds.flatten).map
          (fun c => .indexWriteObject (digestStub c) c.length) ++
          indexTrailer (sliceEnv [1, 2, 3]) (pendingTail (sliceEnv [1, 2, 3]) ds.flatten)
            ds.flatten := by
  have hr : indexedRun.2 = [(.step, .ok (.status .step)), (.step, .ok (.status .finished))] := by
    decide
  obtain ⟨ds, hoff, -, h⟩ := index_trailer_needs_pending_tail (E := sliceEnv [1, 2, 3])
    indexConfig [.step, .step] "store" indexedRun.1 indexedRun.2 Prod.mk.eta.symm (by decide)
    (by decide) (by simp) (by rw [hr]; simp) (by rw [hr]; simp)
  exact ⟨ds, hoff, h⟩

/-- An encoder with nothing to encode: the step reports `CA_SYNC_FINISHED` after opening
the index, which never receives its digest, its EOF record or its close. -/
theorem index_left_open_on_empty_stream :
    (runOps emptyEnv (configure emptyEnv .encode indexConfig) [.step]).2 =
        [(.step, .ok (.status .finished))] ∧
      countCalls .indexOpen (runOps emptyEnv (configure emptyEnv .encode indexConfig) [.step]).1.log = 1 ∧
      (callsIn closingCalls
        (runOps emptyEnv (configure emptyEnv .encode indexConfig) [.step]).1.log).length = 0 := by
  decide

end Casync.Proofs.IndexFinal
