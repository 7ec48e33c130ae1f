import Casync.Proofs.Runs
import Casync.Wp
import Casync.Scenarios

/-!
The index never names an object the store did not take. `ca_sync_write_one_chunk` writes an
index record only after `ca_store_put` of the chunk under its SHA-256 returned non-negatively,
and no other function writes index records. So in every reachable state, failed calls
included, each `ca_index_write_object` in the log directly follows the successful put of an
object whose SHA-256 is the record's id and whose size is the record's size. The property is
one of logs that is closed under appending a log that has it, so each function is shown to
append only such logs.
-/

namespace Casync.Proofs.IndexBacked

open Casync.Proofs.Frames Casync.Proofs.EncodeSpec Casync.Proofs.Runs

variable {σ α β : Type} (E : Env σ)

/-- The event `prev` backs the index record `(id, n)`: it is the successful put, under `id`, of
an object whose SHA-256 is `id` and whose size is `n`. -/
def Backs (prev : Option Event) (id : ObjectId) (n : Nat) : Prop :=
  ∃ w p, prev = some ⟨.storePut w id p, .ok ()⟩ ∧ id = E.sha256 p ∧ n = p.length

/-- Every index record of a log that follows the event `prev` is backed by the event before
it. -/
def BackedAfter : Option Event → List Event → Prop
  | _, [] => True
  | prev, e :: l =>
      (∀ id n, e.indexWriteOf = some (id, n) → Backs E prev id n) ∧ BackedAfter (some e) l

/-- Every index record of the log is backed by the event before it. -/
def Backed (log : List Event) : Prop := BackedAfter E none log

section Logs

variable {E}

/-- A backed log does not start with an index record, so it is backed after any event. -/
theorem BackedAfter.of_none : ∀ {l : List Event} (x : Option Event), Backed E l → BackedAfter E x l
  | [], _, _ => trivial
  | _ :: _, _, ⟨h, hl⟩ => ⟨fun id n he => absurd (h id n he) (fun ⟨_, _, h', _⟩ => nomatch h'), hl⟩

theorem BackedAfter.append {Δ : List Event} (hΔ : Backed E Δ) :
    ∀ {l : List Event} {x : Option Event}, BackedAfter E x l → BackedAfter E x (l ++ Δ)
  | [], x, _ => BackedAfter.of_none x hΔ
  | _ :: _, _, ⟨h, hl⟩ => ⟨h, BackedAfter.append hΔ hl⟩

theorem Backed.append {l Δ : List Event} (hl : Backed E l) (hΔ : Backed E Δ) :
    Backed E (l ++ Δ) :=
  BackedAfter.append hΔ hl

/-- A log without index records is backed. -/
theorem backed_quiet : ∀ {Δ : List Event} {x : Option Event},
    (∀ e ∈ Δ, e.call.kind ≠ .indexWriteObject) → BackedAfter E x Δ
  | [], _, _ => trivial
  | e :: _, _, h => ⟨fun _ _ he => absurd he (by rw [indexWriteOf_of_kind (h e (.head _))]; nofun),
      backed_quiet fun e' he' => h e' (.tail _ he')⟩

theorem backed_single {e : Event} (h : e.call.kind ≠ .indexWriteObject) : Backed E [e] :=
  backed_quiet fun _ he => List.mem_singleton.mp he ▸ h

theorem backed_of_kinds {K : List CallKind} {Δ : List Event} (hK : .indexWriteObject ∉ K)
    (hk : ∀ e ∈ Δ, e.call.kind ∈ K) : Backed E Δ :=
  backed_quiet fun e he hi => hK (hi ▸ hk e he)

/-- A successful put of an object under its SHA-256, then its index record, is backed. -/
theorem backed_put_index (w : Option String) (p : Bytes) (r : Except Int Unit) :
    Backed E [⟨.storePut w (E.sha256 p) p, .ok ()⟩, ⟨.indexWriteObject (E.sha256 p) p.length, r⟩] :=
  ⟨by simp [Event.indexWriteOf], fun _ _ h => by
    simp only [Event.indexWriteOf, Option.some.injEq, Prod.mk.injEq] at h
    obtain ⟨rfl, rfl⟩ := h
    exact ⟨w, p, rfl, rfl, rfl⟩, trivial⟩

end Logs

/-- `m` appends to the log only backed logs, whatever its outcome. -/
def AppendsBacked (m : SyncM σ α) : Prop :=
  ∀ s, ∃ Δ, (after m s).log = s.log ++ Δ ∧ Backed E Δ

namespace AppendsBacked

variable {E} {m : SyncM σ α} {f : α → SyncM σ β}

/-- A function that makes no index record appends only backed logs. -/
theorem of_footprint {K : List CallKind} {F : List Field} (h : Footprint K F m)
    (hK : .indexWriteObject ∉ K) : AppendsBacked E m := fun s =>
  (h s).2.imp fun _ ⟨hΔ, hk⟩ => ⟨hΔ, backed_of_kinds hK hk⟩

theorem bind (hm : AppendsBacked E m) (hf : ∀ a, AppendsBacked E (f a)) :
    AppendsBacked E (m >>= f) := by
  intro s
  rw [after_bind]
  obtain ⟨Δ₁, hΔ₁, hb₁⟩ := hm s
  unfold after at hΔ₁
  split <;> rename_i h <;> rw [h] at hΔ₁
  · obtain ⟨Δ₂, hΔ₂, hb₂⟩ := hf _ _
    exact ⟨Δ₁ ++ Δ₂, by rw [hΔ₂, hΔ₁, List.append_assoc], hb₁.append hb₂⟩
  · exact ⟨Δ₁, hΔ₁, hb₁⟩

theorem ite {c : Prop} [Decidable c] {x y : SyncM σ α} (hx : c → AppendsBacked E x)
    (hy : ¬c → AppendsBacked E y) : AppendsBacked E (if c then x else y) := by
  split
  exacts [hx ‹_›, hy ‹_›]

theorem pure (a : α) : AppendsBacked E (Pure.pure a : SyncM σ α) :=
  of_footprint (Footprint.pure (K := []) (F := []) a) nofun

theorem getSync : AppendsBacked E (Casync.getSync : SyncM σ _) :=
  of_footprint (Footprint.getSync (K := []) (F := [])) nofun

theorem modify (g : CaSync σ → CaSync σ) : AppendsBacked E (modifySync g) := fun s =>
  ⟨[], by simp [after], trivial⟩

theorem throw (e : Fault) : AppendsBacked E (MonadExcept.throw e : SyncM σ α) :=
  of_footprint (Footprint.throw (K := []) (F := []) e) nofun

theorem fail (r : Int) : AppendsBacked E (Casync.fail r : SyncM σ α) := throw _

theorem orFail (x : Except Int α) : AppendsBacked E (Casync.orFail x : SyncM σ α) :=
  of_footprint (Footprint.orFail (K := []) (F := []) x) nofun

theorem call {c : Call} (h : c.kind ≠ .indexWriteObject) : AppendsBacked E (Casync.call E c) :=
  fun _ => ⟨_, rfl, backed_single h⟩

variable (E) in
/-- A function whose own calls write no index record follows the rules. -/
theorem rules {K : List CallKind} {F : List Field} (hK : .indexWriteObject ∉ K) :
    Rules E (AppendsBacked E) K F :=
  ⟨pure, getSync, fail, fun h => call fun h' => hK (h' ▸ List.elem_iff.mp h), fun _ => modify _,
    bind, fun hx hy => ite (fun _ => hx) fun _ => hy⟩

end AppendsBacked

/-- The put of a chunk under its SHA-256, and its index record only after the put succeeded. -/
theorem writeOneChunk_backed (p : Bytes) : AppendsBacked E (writeOneChunk E p) := by
  intro s
  refine (Wp.after_iff (P := fun s' => ∃ Δ, s'.log = s.log ++ Δ ∧ Backed E Δ)).mp ?_
  simp only [writeOneChunk, Wp.bind_iff]
  refine (((makeObjectId_footprint E p).wp s).and_onOk (makeObjectId_ok E s p)).mono
    (fun id s₁ ⟨⟨_, Δ₁, hΔ₁, hk₁⟩, hid, _⟩ => ?_)
    fun _ _ ⟨_, Δ₁, hΔ₁, hk₁⟩ => ⟨Δ₁, hΔ₁, backed_of_kinds (by decide) hk₁⟩
  have hb₁ : Backed E Δ₁ := backed_of_kinds (by decide) hk₁
  subst hid
  simp only [Wp.getSync_iff, Wp.call_iff, Wp.orFail_iff]
  have hput : ∀ r, Backed E (Δ₁ ++ [⟨.storePut s₁.sync.wstore (E.sha256 p) p, r⟩]) :=
    fun _ => hb₁.append (backed_single nofun)
  refine ⟨fun _ hu => ?_, fun _ _ => ⟨_, by rw [hΔ₁, List.append_assoc], hput _⟩⟩
  rw [hu]
  split
  · simp only [Wp.bind_iff, Wp.call_iff, Wp.orFail_keeps]
    exact ⟨_, by rw [hΔ₁, List.append_assoc, List.append_assoc]; rfl,
      hb₁.append (backed_put_index _ _ _)⟩
  · exact ⟨_, by rw [hΔ₁, List.append_assoc], hput _⟩

theorem writeChunks_backed (p : Bytes) : AppendsBacked E (writeChunks E p) :=
  writeChunks_rules E (AppendsBacked.rules E nofun)
    (writeChunksLoop_rules E (AppendsBacked.rules E (by decide))
      (fun _ => .of_footprint (appendBuffer_footprint E _) (by decide)) (writeOneChunk_backed E)) p

theorem writeFinalChunk_backed : AppendsBacked E (writeFinalChunk E) :=
  writeFinalChunk_rules E (AppendsBacked.rules E (by decide)) (writeOneChunk_backed E)
    (.of_footprint (allocateArchiveDigest_footprint E) (by decide))

theorem stepEncode_backed : AppendsBacked E (stepEncode E) :=
  stepEncode_rules E (AppendsBacked.rules E (by decide))
    (encodeFinished_rules E (AppendsBacked.rules E nofun)
      (fun _ _ => .of_footprint (installTemporary_footprint E [.temporaryArchivePath] _ _
        fun _ => by rfl) (by decide))
      (writeFinalChunk_backed E))
    (encodeData_rules E (AppendsBacked.rules E (by decide))
      (fun _ => .of_footprint (writeArchive_footprint E _) (by decide))
      (fun _ => .of_footprint (writeArchiveDigest_footprint E _) (by decide)) (writeChunks_backed E))
    (.throw _)

theorem exec_backed (op : Op) : AppendsBacked E (exec E op) := by
  cases op with
  | set c => exact .of_footprint (exec_set_footprint E c) (by decide)
  | step =>
      refine .bind (.bind (.of_footprint (start_footprint E) (by decide)) fun _ =>
        .bind .getSync fun c => ?_) fun _ => .pure _
      split
      exacts [stepEncode_backed E, .of_footprint (stepDecode_footprint E) (by decide)]
  | put id data =>
      exact .bind (.of_footprint (put_footprint E id data) (by decide)) fun _ => .pure _
  | get | makeObjectId | getDigest | currentPath | currentMode =>
      exact .of_footprint (query_footprint E _ trivial) (by decide)

/-- In every reachable state, failed calls included, each index record in the log directly
follows the successful put of an object whose SHA-256 is the record's id and whose size is the
record's size. -/
theorem index_records_backed {s : Sys σ} (hr : Reachable E s) : Backed E s.log := by
  induction hr with
  | new dir => trivial
  | exec op _ ih =>
      obtain ⟨Δ, hΔ, hb⟩ := exec_backed E op _
      rw [hΔ]
      exact ih.append hb

theorem index_records_backed_once :
    indexWrites (runOps (sliceEnv [1, 2, 3]) (configure (sliceEnv [1, 2, 3]) .encode indexConfig)
        [.step, .step]).1.log = [(digestStub [1, 2, 3], 3)] ∧
      Backed (sliceEnv [1, 2, 3]) (runOps (sliceEnv [1, 2, 3])
        (configure (sliceEnv [1, 2, 3]) .encode indexConfig) [.step, .step]).1.log :=
  ⟨by decide, index_records_backed _ (runOps_reachable _ _ (configure_reachable _ _ _))⟩

end Casync.Proofs.IndexBacked
