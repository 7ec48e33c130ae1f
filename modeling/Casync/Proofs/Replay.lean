import Casync.Proofs.Requests
import Casync.Proofs.Assertions

/-!
A DECODE run that replays an index. The surroundings `replayEnv records ans` read back the
index records `records` and then EOF, answer every store lookup as `ans` says, and run a
decoder that asks for data until its input has been ended. When every record's object is found
in the driver's store slots, of the size the record gives, and the decoder can be given its
base, the run does not stop early: one step per record hands its object to the decoder, one
more reads the end of the index and ends the decoder's input, and the next reports
`CA_SYNC_FINISHED`. The decoder then holds the records' objects, in order. When a record's object
is missing, or has another size, the run serves the records before it and then fails, with the
error of the lookup or with `-EBADMSG`, before handing anything of that record over.
-/

namespace Casync.Proofs.Replay

open Casync.Proofs.Frames Casync.Proofs.Runs Casync.Proofs.Stores Casync.Proofs.Requests
  Casync.Proofs.Assertions

variable (records : List (ObjectId × Nat)) (ans : Option String → ObjectId → Except Int Bytes)

section Answers

variable (log : List Event)

theorem countCalls_eq_callsIn (k : CallKind) : countCalls k log = (callsIn [k] log).length := by
  simp [countCalls, callsIn, List.elem_cons]

@[simp] theorem replay_decoderStep : (replayEnv records ans).answer log .decoderStep =
    if (views log).eofs = 0 then .ok .request else .ok .finished := by
  simp only [views, ← countCalls_eq_callsIn]
  rfl

@[simp] theorem replay_indexReadObject : (replayEnv records ans).answer log .indexReadObject =
    .ok records[(views log).indexReads]? := by
  simp only [views, ← countCalls_eq_callsIn]
  rfl

@[simp] theorem replay_storeGet (st : Option String) (id : ObjectId) :
    (replayEnv records ans).answer log (.storeGet st id) = ans st id := rfl

@[simp] theorem replay_decoderNew : (replayEnv records ans).answer log .decoderNew = true := rfl

@[simp] theorem replay_decoderSetBaseFd (fd : Int) :
    (replayEnv records ans).answer log (.decoderSetBaseFd fd) = .ok () := rfl

@[simp] theorem replay_decoderSetBaseMode (m : UInt32) :
    (replayEnv records ans).answer log (.decoderSetBaseMode m) = .ok () := rfl

@[simp] theorem replay_mkdir (path : String) :
    (replayEnv records ans).answer log (.mkdir path) = .ok () := rfl

@[simp] theorem replay_openFile (path : String) (how : OpenHow) :
    (replayEnv records ans).answer log (.openFile path how) = .ok 3 := rfl

@[simp] theorem replay_tempfnRandom (path : String) :
    (replayEnv records ans).answer log (.tempfnRandom path) = .ok (path ++ "~") := rfl

@[simp] theorem replay_indexOpen : (replayEnv records ans).answer log .indexOpen = .ok () := rfl

@[simp] theorem replay_decoderPutData (p : Bytes) :
    (replayEnv records ans).answer log (.decoderPutData p) = .ok () := rfl

@[simp] theorem replay_decoderPutEof : (replayEnv records ans).answer log .decoderPutEof = .ok () :=
  rfl

@[simp] theorem replay_free (p : Bytes) : (replayEnv records ans).answer log (.free p) = fun _ => 0 :=
  rfl

@[simp] theorem replay_mdOpen : (replayEnv records ans).answer log .mdOpen = true := rfl

@[simp] theorem replay_rename (tmp path : String) :
    (replayEnv records ans).answer log (.rename tmp path) = .ok () := rfl

end Answers

variable {σ : Type} {α : Type} {Q : α → Sys σ → Prop} {R : Fault → Sys σ → Prop}

theorem startArchive_decode (E : Env σ) {s : Sys σ} (h : s.sync.direction = .decode)
    {Q : Unit → Sys σ → Prop} : Wp (startArchive E) s Q R ↔ Q () s := by
  simp only [startArchive, Wp.bind_iff, Wp.getSync_iff, h, reduceCtorEq, false_and, if_false,
    Wp.pure_iff]

theorem startEncoder_decode (E : Env σ) {s : Sys σ} (h : s.sync.direction = .decode)
    {Q : Unit → Sys σ → Prop} : Wp (startEncoder E) s Q R ↔ Q () s := by
  simp only [startEncoder, Wp.bind_iff, Wp.getSync_iff, h, reduceCtorEq, false_and, if_false,
    Wp.pure_iff]

/-- The decoder exists, or `ca_sync_start` can create it and give it the base: the base has a
descriptor, or a mode of one of the three kinds `ca_sync_set_base_mode` accepts. -/
def Attachable (c : CaSync σ) : Prop :=
  c.decoder = true ∨ 0 ≤ c.baseFd ∨ c.baseMode ≠ modeUnset ∧ ModeOk c

/-- The record `r`'s object is found in the store slots `sl`, with the size the record gives. -/
def StockedAt (sl : List (Option String)) (r : ObjectId × Nat) : Prop :=
  ∃ p, firstAnswer (sl.map (ans · r.1)) = .ok p ∧ p.length = r.2

variable {records ans} {s : Sys Unit}

theorem openInto_replay (path : String) (how : OpenHow) (setFd : Int → CaSync Unit → CaSync Unit) :
    Wp (openInto (replayEnv records ans) path how setFd) s
      (fun _ s' => s'.sync = setFd 3 s.sync) fun _ _ => False := by
  simp [openInto]

theorem createTemporary_replay (target : String) (tmp : Option String) (perm : UInt32)
    (setTmp : Option String → CaSync Unit → CaSync Unit) (setFd : Int → CaSync Unit → CaSync Unit)
    (hfd : ∀ c, (setFd 3 c).baseFd = 3) :
    Wp (createTemporary (replayEnv records ans) target tmp perm setTmp setFd) s
      (fun _ s' => s'.sync.baseFd = 3) fun _ _ => False := by
  cases tmp <;> simp [createTemporary, hfd]

theorem materializeBase_replay (path : String) (hu : s.sync.baseMode ≠ modeUnset)
    (hm : ModeOk s.sync) :
    Wp (materializeBase (replayEnv records ans) path) s (fun _ s' => 0 ≤ s'.sync.baseFd)
      fun _ _ => False := by
  have hopen : ∀ how (s : Sys Unit), Wp (openInto (replayEnv records ans) path how
      fun fd s => { s with baseFd := fd }) s (fun _ s' => 0 ≤ s'.sync.baseFd) fun _ _ => False :=
    fun _ _ => (openInto_replay _ _ _).mono (fun _ _ h => by rw [h]; exact Int.ofNat_nonneg 3)
      fun _ _ => id
  simp only [materializeBase, Wp.bind_iff, Wp.getSync_iff, Wp.ite_iff, hu, Wp.fail_iff,
    Wp.pure_iff, Wp.call_iff, replay_mkdir, assert]
  refine ⟨id, fun _ => ⟨fun _ => hopen _ _, fun hd => ⟨fun _ => ?_, fun hr => ?_⟩⟩⟩
  · exact (createTemporary_replay _ _ _ _ _ fun _ => rfl).mono
      (fun _ _ h => by rw [h]; exact Int.ofNat_nonneg 3) fun _ _ => id
  · simp only [hm.blk hu hd hr]
    exact ⟨fun _ => hopen _ _, fun h => (h trivial).elim⟩

theorem attachDecoder_replay (hb : 0 ≤ s.sync.baseFd ∨ s.sync.baseMode ≠ modeUnset) :
    Wp (attachDecoder (replayEnv records ans)) s (fun _ s' => s'.sync.decoder = true)
      fun _ _ => False := by
  simp only [attachDecoder, Wp.bind_iff, Wp.call_iff, replay_decoderNew, Bool.not_true,
    Bool.false_eq_true, if_false, Wp.pure_iff, Wp.modifySync_iff, Wp.getSync_iff, Wp.ite_iff,
    Wp.orFail_iff, replay_decoderSetBaseFd, replay_decoderSetBaseMode, Wp.fail_iff]
  simpa using hb.resolve_left

theorem startIndex_replay :
    Wp (startIndex (replayEnv records ans)) s (fun _ s' => s'.sync = s.sync) fun _ _ => False := by
  simp [startIndex]

theorem startDecoder_replay (hdir : s.sync.direction = .decode) (hb : Attachable s.sync) :
    Wp (startDecoder (replayEnv records ans)) s (fun _ s' => s'.sync.decoder = true)
      fun _ _ => False := by
  simp only [startDecoder, Wp.bind_iff, Wp.getSync_iff, Wp.ite_iff, hdir, true_and, Wp.pure_iff]
  refine ⟨fun hd => ⟨fun hfd => ?_, fun hfd => attachDecoder_replay (.inl (Int.not_lt.mp hfd))⟩,
    fun hd => by simpa using hd⟩
  obtain ⟨hu, hm⟩ := (hb.resolve_left (by simp [hd])).resolve_left (Int.not_le.mpr hfd)
  cases hp : s.sync.basePath with
  | none => exact attachDecoder_replay (.inr hu)
  | some p =>
      exact Wp.bind_iff.mpr ((materializeBase_replay p hu hm).mono
        (fun _ _ h => attachDecoder_replay (.inl h)) fun _ _ => id)

/-- From a DECODE state whose decoder exists or can be attached, `ca_sync_start` succeeds and
leaves a decoder, changing only the fields of its frame and nothing the views show. -/
theorem start_replay (hdir : s.sync.direction = .decode) (hb : Attachable s.sync) :
    Wp (start (replayEnv records ans)) s (fun _ s' => s'.sync.decoder = true ∧
      Only startFields s.sync s'.sync ∧ views s'.log = views s.log) fun _ _ => False := by
  have h : Wp (start (replayEnv records ans)) s (fun _ s' => s'.sync.decoder = true)
      fun _ _ => False := by
    simp only [start, Wp.bind_iff]
    rw [startArchive_decode _ hdir, startEncoder_decode _ hdir]
    exact (startDecoder_replay hdir hb).mono
      (fun _ _ h => startIndex_replay.mono (fun _ _ h' => h' ▸ h) fun _ _ => id) fun _ _ => id
  exact (h.and (footprint_views_wp (start_footprint _) (by decide) s)).mono (fun _ _ h => h)
    fun _ _ h => h.1

theorem writeArchiveDigest_replay (q : Bytes) :
    Wp (writeArchiveDigest (replayEnv records ans) q) s (fun _ s' => views s'.log = views s.log)
      fun _ _ => False := by
  have h : Wp (writeArchiveDigest (replayEnv records ans) q) s (fun _ _ => True) fun _ _ => False := by
    simp [writeArchiveDigest, allocateArchiveDigest]
  exact (h.and (footprint_views_wp (writeArchiveDigest_footprint _ q) (by decide) s)).mono
    (fun _ _ h => h.2.2) fun _ _ h => h.1

/-- A request whose index record's object is found with the size the record gives: the record
is read, the object handed to the decoder, and the released block read back for the digest. -/
theorem processDecoderRequest_record {id : ObjectId} {n : Nat} {p : Bytes}
    (hix : s.sync.index = true) (hr : records[(views s.log).indexReads]? = some (id, n))
    (hp : firstAnswer ((slots s.sync).map (ans · id)) = .ok p) (hn : p.length = n) :
    Wp (processDecoderRequest (replayEnv records ans)) s (fun _ s' =>
      views s'.log = (views s.log).add ⟨0, 1, [some (id, n)], [p], List.replicate n 0, 0⟩)
      fun _ _ => False := by
  simp only [processDecoderRequest, Wp.bind_iff, Wp.getSync_iff, hix, if_true, Wp.call_iff,
    replay_indexReadObject, hr, Wp.orFail_iff, Except.ok.injEq, forall_eq', reduceCtorEq,
    false_implies, implies_true, and_true]
  set s₁ : Sys Unit := ⟨s.sync, s.log ++ [⟨.indexReadObject, .ok (some (id, n))⟩]⟩
  obtain ⟨ho, -⟩ := get_lookup (E := replayEnv records ans) (fun st => ans st id) id
    (fun _ _ => rfl) s₁
  obtain ⟨-, hs₂, hv₂⟩ := (get_ok (E := replayEnv records ans) (fun _ _ _ => rfl) id s₁).of_outcome
    (ho.trans hp)
  rw [Wp.ok_iff (ho.trans hp), if_neg (by omega)]
  simp only [Wp.bind_iff, Wp.pure_iff, Wp.call_iff, replay_decoderPutData, replay_free,
    Wp.orFail_iff]
  refine ⟨fun _ _ => (writeArchiveDigest_replay _).mono (fun _ _ h => ?_) fun _ _ h => h,
    fun _ h => nomatch h⟩
  rw [h, views_append, views_append, hv₂, views_append, views_indexRead_ok, views_putData,
    views_free]
  simp [Views.add, hn, List.map_const']

theorem processDecoderRequest_end (hix : s.sync.index = true)
    (hr : records[(views s.log).indexReads]? = none) :
    Wp (processDecoderRequest (replayEnv records ans)) s (fun _ s' =>
      views s'.log = (views s.log).add ⟨0, 1, [none], [], [], 1⟩) fun _ _ => False := by
  simp only [processDecoderRequest, Wp.bind_iff, Wp.getSync_iff, hix, if_true, Wp.call_iff,
    replay_indexReadObject, hr, Wp.orFail_iff, Except.ok.injEq, forall_eq', reduceCtorEq,
    false_implies, implies_true, and_true, replay_decoderPutEof]
  intro _ _
  rw [views_append, views_append, views_indexRead_ok, views_putEof, Views.add_assoc]
  rfl

theorem decodeFinished_replay :
    Wp (decodeFinished (replayEnv records ans)) s (fun st s' => st = .finished ∧
      s'.sync.eof = true) fun _ _ => False := by
  simp only [decodeFinished, installTemporary, Wp.bind_iff, Wp.getSync_iff]
  split <;> simp

theorem stepDecode_request (heof : s.sync.eof = false) (hd : s.sync.decoder = true)
    (he : (views s.log).eofs = 0) {P : Sys Unit → Prop} {R : Fault → Sys Unit → Prop}
    (h : ∀ s₁ : Sys Unit, s₁.sync = s.sync → views s₁.log = (views s.log).add Views.request →
      Wp (processDecoderRequest (replayEnv records ans)) s₁ (fun _ => P) R) :
    Wp (stepDecode (replayEnv records ans)) s (fun st s' => st = .step ∧ P s') R := by
  have h₁ := h ⟨s.sync, s.log ++ [⟨.decoderStep, .ok .request⟩]⟩ rfl
    (by rw [views_append, views_decoderStep, if_pos rfl])
  simp only [stepDecode, Wp.bind_iff, Wp.getSync_iff, heof, hd, Bool.false_eq_true, if_false,
    Wp.pure_iff, Wp.call_iff, replay_decoderStep, he, if_true, Wp.orFail_iff, Except.ok.injEq,
    forall_eq', reduceCtorEq, false_implies, implies_true, and_true]
  simpa using h₁

theorem stepDecode_finish (heof : s.sync.eof = false) (hd : s.sync.decoder = true)
    (he : (views s.log).eofs ≠ 0) :
    Wp (stepDecode (replayEnv records ans)) s (fun st s' => st = .finished ∧
      s'.sync.eof = true ∧ views s'.log = views s.log) fun _ _ => False := by
  have h := (decodeFinished_replay (s := ⟨s.sync, s.log ++ [⟨.decoderStep, .ok .finished⟩]⟩)).and
    (footprint_views_wp (decodeFinished_footprint (replayEnv records ans)) (by decide) _)
  simp only [stepDecode, Wp.bind_iff, Wp.getSync_iff, heof, hd, Bool.false_eq_true, if_false,
    Wp.pure_iff, Wp.call_iff, replay_decoderStep, he, Wp.orFail_iff, Except.ok.injEq, forall_eq',
    reduceCtorEq, false_implies, implies_true, and_true]
  exact h.mono (fun _ _ h => ⟨h.1.1, h.1.2, by
    rw [h.2.2, views_append, views_decoderStep, if_neg nofun, Views.add_none]⟩) fun _ _ h => h.1

theorem exec_step_replay (hdir : s.sync.direction = .decode) (hb : Attachable s.sync)
    {Q : SyncStatus → Sys Unit → Prop} {R : Fault → Sys Unit → Prop}
    (h : ∀ s₁ : Sys Unit, s₁.sync.decoder = true → Only startFields s.sync s₁.sync →
      views s₁.log = views s.log → Wp (stepDecode (replayEnv records ans)) s₁ Q R) :
    Wp (exec (replayEnv records ans) .step) s (fun r s' => ∃ st, r = .status st ∧ Q st s') R := by
  simp only [exec, step, Wp.bind_iff, Wp.pure_iff]
  refine (start_replay hdir hb).mono (fun _ s₁ ⟨hd, hF, hv⟩ => ?_) fun _ _ h => h.elim
  rw [Wp.getSync_iff, (hF.field CaSync.direction fun _ => rfl).trans hdir]
  exact (h s₁ hd hF hv).mono (fun st _ hq => ⟨st, rfl, hq⟩) fun _ _ h => h

variable (records ans)

/-- A DECODE driver with an index over the store slots `sl`, after `k` index reads: the decoder
has received the objects of the records read, in order, its input has been ended once the end
of the index was read, and it has not finished. -/
structure Replaying (sl : List (Option String)) (k : Nat) (s : Sys Unit) : Prop where
  direction : s.sync.direction = .decode
  index : s.sync.index = true
  eof : s.sync.eof = false
  stores : slots s.sync = sl
  base : Attachable s.sync
  reads : (views s.log).indexReads = k
  eofs : (views s.log).eofs = k - records.length
  handed : (views s.log).handed = (records.take k).map (found ans sl ∘ Prod.fst)

variable {records ans} {sl : List (Option String)} {k : Nat} {s' : Sys Unit}

/-- The fields a replaying step changes, none of which the invariant reads but the base. -/
abbrev replayFree : List Field := .archiveDigest :: startFields

theorem Replaying.grow (h : Replaying records ans sl k s) (hF : Only replayFree s.sync s'.sync)
    (hd : s'.sync.decoder = true) {v : Views} (hv : views s'.log = (views s.log).add v) {k' : Nat}
    (hr : k + v.indexReads = k') (he : k - records.length + v.eofs = k' - records.length)
    (hh : (records.take k).map (found ans sl ∘ Prod.fst) ++ v.handed =
      (records.take k').map (found ans sl ∘ Prod.fst)) :
    Replaying records ans sl k' s' where
  direction := (hF.field CaSync.direction fun _ => rfl).trans h.direction
  index := (hF.field CaSync.index fun _ => rfl).trans h.index
  eof := (hF.field CaSync.eof fun _ => rfl).trans h.eof
  stores := (hF.field slots fun _ => rfl).trans h.stores
  base := .inl hd
  reads := by rw [hv, ← hr, ← h.reads]; rfl
  eofs := by rw [hv, ← he, ← h.eofs]; rfl
  handed := by rw [hv, ← hh, ← h.handed]; rfl

theorem Replaying.exec_step (h : Replaying records ans sl k s) {Q : SyncStatus → Sys Unit → Prop}
    {R : Fault → Sys Unit → Prop}
    (hq : ∀ s₁, Replaying records ans sl k s₁ → s₁.sync.decoder = true →
      Wp (stepDecode (replayEnv records ans)) s₁ Q R) :
    Wp (exec (replayEnv records ans) .step) s (fun r s' => ∃ st, r = .status st ∧ Q st s') R :=
  exec_step_replay h.direction h.base fun _ hd hF hv =>
    hq _ (h.grow (hF.mono (by decide)) hd (hv.trans (Views.add_none _).symm) rfl rfl
      (List.append_nil _)) hd

theorem Replaying.stepDecode_record (h : Replaying records ans sl k s)
    (hd : s.sync.decoder = true) (hk : k < records.length)
    (hst : StockedAt ans sl records[k]) :
    Wp (stepDecode (replayEnv records ans)) s (fun st s' => st = .step ∧
      Replaying records ans sl (k + 1) s') fun _ _ => False := by
  obtain ⟨p, hp, hn⟩ := hst
  have hfound : found ans sl records[k].1 = p := by simp only [found, hp]
  refine stepDecode_request h.eof hd (by rw [h.eofs]; omega) fun s₁ hs₁ hv₁ => ?_
  have hr : records[(views s₁.log).indexReads]? = some (records[k].1, records[k].2) := by
    rw [hv₁, ← List.getElem?_eq_getElem hk, ← h.reads]
    rfl
  refine ((processDecoderRequest_record (hs₁ ▸ h.index) hr (hs₁ ▸ h.stores ▸ hp) hn).and
    ((processDecoderRequest_footprint _).wp _)).mono (fun _ s' ⟨hv', hF', _⟩ => ?_) fun _ _ h => h.1
  rw [hv₁, Views.add_assoc] at hv'
  rw [hs₁] at hF'
  refine h.grow (hF'.mono (by decide)) (by rw [hF'.field CaSync.decoder fun _ => rfl]; exact hd)
    hv' rfl (by simp [Views.add, Views.request]; omega) ?_
  rw [List.take_succ, List.getElem?_eq_getElem hk, List.map_append]
  simp only [Views.add, Views.request, List.nil_append, Option.toList_some, List.map_cons,
    List.map_nil, Function.comp_apply, hfound]

theorem Replaying.stepDecode_end (h : Replaying records ans sl records.length s)
    (hd : s.sync.decoder = true) :
    Wp (stepDecode (replayEnv records ans)) s (fun st s' => st = .step ∧
      Replaying records ans sl (records.length + 1) s') fun _ _ => False := by
  refine stepDecode_request h.eof hd (by rw [h.eofs, Nat.sub_self]) fun s₁ hs₁ hv₁ => ?_
  have hr : records[(views s₁.log).indexReads]? = none := by
    simp [hv₁, Views.add, Views.request, h.reads]
  refine ((processDecoderRequest_end (hs₁ ▸ h.index) hr).and
    ((processDecoderRequest_footprint _).wp _)).mono (fun _ s' ⟨hv', hF', _⟩ => ?_) fun _ _ h => h.1
  rw [hv₁, Views.add_assoc] at hv'
  rw [hs₁] at hF'
  refine h.grow (hF'.mono (by decide)) (by rw [hF'.field CaSync.decoder fun _ => rfl]; exact hd)
    hv' rfl (by simp [Views.add, Views.request]) ?_
  simp [Views.add, Views.request, List.take_succ]

theorem Replaying.exec_read (h : Replaying records ans sl k s) (hk : k ≤ records.length)
    (hst : ∀ r, records[k]? = some r → StockedAt ans sl r) :
    Wp (exec (replayEnv records ans) .step) s (fun r s' => r = .status .step ∧
      Replaying records ans sl (k + 1) s') fun _ _ => False := by
  refine (h.exec_step (Q := fun st s' => st = .step ∧ Replaying records ans sl (k + 1) s')
    fun s₁ h₁ hd => ?_).mono (fun _ _ ⟨_, hr, hq⟩ => ⟨hr.trans (congrArg _ hq.1), hq.2⟩)
      fun _ _ h => h
  rcases Nat.lt_or_eq_of_le hk with hlt | rfl
  exacts [h₁.stepDecode_record hd hlt (hst _ (List.getElem?_eq_getElem hlt)),
    h₁.stepDecode_end hd]

variable (records ans) in
/-- A finished replay: `eof` is latched, one index read was made per record and one more for
the end of the index, the decoder's input was ended once, and the decoder received the objects
of all the records, in order. -/
structure Replayed (sl : List (Option String)) (s : Sys Unit) : Prop where
  eof : s.sync.eof = true
  reads : (views s.log).indexReads = records.length + 1
  eofs : (views s.log).eofs = 1
  handed : (views s.log).handed = records.map (found ans sl ∘ Prod.fst)

theorem Replaying.exec_finish (h : Replaying records ans sl (records.length + 1) s) :
    Wp (exec (replayEnv records ans) .step) s (fun r s' => r = .status .finished ∧
      Replayed records ans sl s') fun _ _ => False := by
  refine (h.exec_step (Q := fun st s' => st = .finished ∧ Replayed records ans sl s')
    fun s₁ h₁ hd => (stepDecode_finish h₁.eof hd (by rw [h₁.eofs]; omega)).mono
    (fun _ _ ⟨hf, he, hv⟩ => ⟨hf, he, ?_, ?_, ?_⟩) fun _ _ h => h).mono
      (fun _ _ ⟨_, hr, hq⟩ => ⟨hr.trans (congrArg _ hq.1), hq.2⟩) fun _ _ h => h
  · rw [hv, h₁.reads]
  · rw [hv, h₁.eofs, Nat.add_sub_cancel_left]
  · rw [hv, h₁.handed, List.take_of_length_le (Nat.le_succ _)]

/-- The run lemma: a replaying driver after `k` index reads, driven by `j` more steps that read
records whose objects are stocked, or the end of the index, reports `j` steps and is replaying
after `k + j` index reads. -/
theorem Replaying.run : ∀ (j : Nat) {k : Nat} {s : Sys Unit}, Replaying records ans sl k s →
    k + j ≤ records.length + 1 →
    (∀ i r, k ≤ i → i < k + j → records[i]? = some r → StockedAt ans sl r) →
      (runOps (replayEnv records ans) s (List.replicate j .step)).2 =
        List.replicate j (.step, .ok (.status .step)) ∧
      Replaying records ans sl (k + j) (runOps (replayEnv records ans) s (List.replicate j .step)).1
  | 0, _, _, h, _, _ => ⟨rfl, h⟩
  | j + 1, k, s, h, hkj, hst => by
      obtain ⟨_, ho, hr, h'⟩ := Wp.outcome_ok (h.exec_read (by omega)
        fun r => hst k r (Nat.le_refl _) (by omega))
      have ih := Replaying.run j h' (by omega) fun i r hi hi' => hst i r (by omega) (by omega)
      rw [Nat.add_right_comm] at ih
      rw [List.replicate_succ, runOps_cons, ho, hr]
      exact ⟨by rw [ih.1]; rfl, ih.2⟩

end Casync.Proofs.Replay
