import Casync.Proofs.EncodeSpec

/-!
Runs of public calls. A fact about a run is an invariant proved by induction over its
calls: each call, given the outcome it had, keeps it. Which calls and outcomes a run may
contain is the predicate `good`, so that one induction serves runs in which, say, every
step succeeded. Configuration, the latch of `eof` and the first facts about `ca_sync_step`
are proved here for the later modules.
-/

namespace Casync.Proofs.Runs

open Casync.Proofs.Frames Casync.Proofs.EncodeSpec

variable {σ : Type} (E : Env σ)

theorem runOps_cons (s : Sys σ) (op : Op) (ops : List Op) :
    runOps E s (op :: ops) = ((runOps E (after (exec E op) s) ops).1,
      (op, outcome (exec E op) s) :: (runOps E (after (exec E op) s) ops).2) := by
  simp only [runOps, after, outcome]
  cases (exec E op).run s <;> rfl

theorem runOps_append : ∀ (s : Sys σ) (ops ops' : List Op), runOps E s (ops ++ ops') =
    ((runOps E (runOps E s ops).1 ops').1, (runOps E s ops).2 ++ (runOps E (runOps E s ops).1 ops').2)
  | _, [], _ => rfl
  | s, op :: ops, ops' => by
      simp only [List.cons_append, runOps_cons, runOps_append _ ops ops']

/-- Induction over a run: a property every allowed call keeps holds at the end of a run of
allowed calls from a state where it holds. -/
theorem runOps_invariant {P : Sys σ → Prop} {good : Op → Except Fault Reply → Prop}
    (hstep : ∀ s op, P s → good op (outcome (exec E op) s) → P (after (exec E op) s)) :
    ∀ {ops : List Op} {s : Sys σ}, P s → (∀ o ∈ (runOps E s ops).2, good o.1 o.2) →
      P (runOps E s ops).1
  | [], _, hP, _ => hP
  | op :: _, s, hP, hgood => by
      simp only [runOps_cons, List.mem_cons, forall_eq_or_imp] at hgood ⊢
      exact runOps_invariant hstep (hstep s op hP hgood.1) hgood.2

/-- A property that some call of the run establishes, and that every later allowed call
keeps, holds at the end of the run. -/
theorem runOps_latch {P : Sys σ → Prop} {good hit : Op → Except Fault Reply → Prop}
    (hkeep : ∀ s op, P s → good op (outcome (exec E op) s) → P (after (exec E op) s))
    (hhit : ∀ s op, hit op (outcome (exec E op) s) → P (after (exec E op) s)) :
    ∀ {ops : List Op} {s : Sys σ}, (∃ o ∈ (runOps E s ops).2, hit o.1 o.2) →
      (∀ o ∈ (runOps E s ops).2, good o.1 o.2) → P (runOps E s ops).1
  | [], _, ⟨_, ho, _⟩, _ => nomatch ho
  | op :: _, s, ⟨o, ho, hh⟩, hgood => by
      simp only [runOps_cons, List.mem_cons, forall_eq_or_imp] at ho hgood ⊢
      rcases ho with rfl | ho
      · exact runOps_invariant E hkeep (hhit s op hh) hgood.2
      · exact runOps_latch hkeep hhit ⟨o, ho, hh⟩ hgood.2

theorem runOps_map_fst : ∀ (s : Sys σ) (ops : List Op), (runOps E s ops).2.map Prod.fst = ops
  | _, [] => rfl
  | s, op :: ops => by simp only [runOps_cons, List.map_cons, runOps_map_fst _ ops]

/-- Induction over configuration: a property of the new driver that every configuration call
keeps, whatever its outcome, holds once the driver is configured. -/
theorem configure_invariant {P : Sys σ → Prop} (dir : CaDirection) (cfg : List Setter)
    (hnew : P (Sys.new E dir)) (hset : ∀ s c, P s → P (after (exec E (.set c)) s)) :
    P (configure E dir cfg) := by
  refine @runOps_invariant σ E P (fun op _ => ∃ c, op = .set c) ?_ _ _ hnew fun o ho => ?_
  · rintro s _ hP ⟨c, rfl⟩
    exact hset s c hP
  have := congrArg (o.1 ∈ ·) (runOps_map_fst E (Sys.new E dir) (cfg.map .set))
  simp only [List.mem_map, eq_iff_iff] at this
  obtain ⟨c, -, hc⟩ := this.mp ⟨o, ho, rfl⟩
  exact ⟨c, hc.symm⟩

theorem configure_calls (dir : CaDirection) (cfg : List Setter) :
    Only configFields (Sys.new E dir).sync (configure E dir cfg).sync ∧
      ∀ e ∈ (configure E dir cfg).log, e.call.kind ∈ configCalls := by
  refine @configure_invariant σ E
    (fun s => Only configFields (Sys.new E dir).sync s.sync ∧ ∀ e ∈ s.log, e.call.kind ∈ configCalls)
    dir cfg ⟨Only.refl _, by simp [Sys.new]⟩ fun s c ⟨hF, hK⟩ => ?_
  obtain ⟨hF', Δ, hΔ, hKΔ⟩ := exec_set_footprint E c s
  refine ⟨hF.trans hF', fun e he => ?_⟩
  rw [hΔ, List.mem_append] at he
  exact he.elim (hK e) (hKΔ e)

theorem configure_frame (dir : CaDirection) (cfg : List Setter) :
    Only configFields (Sys.new E dir).sync (configure E dir cfg).sync ∧
      Grows [] (configure E dir cfg).log [] [] [] [] := by
  obtain ⟨hF, hK⟩ := configure_calls E dir cfg
  exact ⟨hF, grows_of_quiet (fun e he => (by decide : ∀ k ∈ configCalls, Quiet k) _ (hK e he)) []⟩

/-- A step from a driver whose `eof` is latched never succeeds. -/
theorem step_eof (s : Sys σ) (h : s.sync.eof = true) : OnOk (step E) s fun _ _ => False := by
  simp only [step, OnOk.bind_iff]
  refine ((start_footprint E).onOk s).mono ?_
  rintro _ s₁ ⟨hF, -⟩
  have h₁ : s₁.sync.eof = true := (hF.field CaSync.eof fun _ => rfl).trans h
  simp only [OnOk.getSync_iff]
  split <;> simp [stepEncode, stepDecode, h₁]

theorem stepEncode_finished (s : Sys σ) :
    OnOk (stepEncode E) s fun st s' => st = .finished → s'.sync.eof = true := by
  simp only [stepEncode, abort, OnOk.bind_iff, OnOk.getSync_iff, OnOk.ite_iff, OnOk.call_iff,
    OnOk.orFail_iff, OnOk.throw_true, OnOk.fail_true, OnOk.pure_iff, implies_true, true_and,
    and_true]
  rintro - - (_ | _ | _ | _) -
  · exact (encodeFinished_ok E _).mono fun _ _ h _ => h.2.1
  all_goals simp

theorem stepDecode_finished (s : Sys σ) :
    OnOk (stepDecode E) s fun st s' => st = .finished → s'.sync.eof = true := by
  simp only [stepDecode, OnOk.bind_iff, OnOk.getSync_iff, OnOk.ite_iff, OnOk.call_iff,
    OnOk.orFail_iff, OnOk.fail_true, OnOk.pure_iff, implies_true, true_and]
  rintro - - (_ | _ | _ | _ | _ | _) -
  all_goals simp [decodeFinished]

theorem step_finished (s : Sys σ) :
    OnOk (step E) s fun st s' => st = .finished → s'.sync.eof = true := by
  simp only [step, OnOk.bind_iff, OnOk.getSync_iff]
  intro _ s₁ _
  split
  exacts [stepEncode_finished E s₁, stepDecode_finished E s₁]

/-- An ENCODE step whose `ca_sync_start` succeeds is `ca_sync_step_encode` from the state
`ca_sync_start` leaves; a concrete run is evaluated through it one block at a time. -/
theorem exec_step_encode {s : Sys σ} (hd : s.sync.direction = .encode)
    (h : outcome (start E) s = .ok ()) :
    outcome (exec E .step) s = (outcome (stepEncode E) (after (start E) s)).map .status ∧
      after (exec E .step) s = after (stepEncode E) (after (start E) s) := by
  have hd₁ := ((start_footprint E) s).1.field CaSync.direction fun _ => rfl
  unfold outcome after at *
  cases hr : (start E).run s with
  | error => simp only [hr, reduceCtorEq] at h
  | ok _ s₁ =>
      simp only [hr] at hd₁
      simp only [exec, step, run_bind, hr, run_getSync, hd₁.trans hd]
      cases (stepEncode E).run s₁ <;> exact ⟨rfl, rfl⟩

/-- The calls of a configured run that the run theorems allow, with their outcomes: steps
that succeed, and queries whatever they return. -/
def Drives (op : Op) (r : Except Fault Reply) : Prop :=
  (op = .step ∨ IsQuery op) ∧ (op = .step → ∃ a, r = .ok a)

/-- The step that reports `CA_SYNC_FINISHED`. -/
def Finishes (op : Op) (r : Except Fault Reply) : Prop :=
  op = .step ∧ r = .ok (.status .finished)

theorem exec_eof {op : Op} {s : Sys σ} (h : s.sync.eof = true) (hop : Drives op (outcome (exec E op) s)) :
    (after (exec E op) s).sync.eof = true := by
  obtain ⟨rfl | hq, hok⟩ := hop
  · obtain ⟨r, hr⟩ := hok rfl
    have h' : OnOk (exec E .step) s fun _ _ => False := by
      simp only [exec, OnOk.bind_iff]
      exact (step_eof E s h).mono fun _ _ => False.elim
    exact (h'.of_outcome hr).elim
  · exact ((query_footprint E op hq s).1.field CaSync.eof fun _ => rfl).trans h

theorem exec_finishes {s : Sys σ} {op : Op} (hop : Finishes op (outcome (exec E op) s)) :
    (after (exec E op) s).sync.eof = true := by
  obtain ⟨rfl, hr⟩ := hop
  have h' : OnOk (exec E .step) s fun r s' => r = .status .finished → s'.sync.eof = true := by
    simp only [exec, OnOk.bind_iff, OnOk.pure_iff, Reply.status.injEq]
    exact step_finished E s
  exact h'.of_outcome hr rfl

theorem runOps_drives {s₀ s : Sys σ} {ops : List Op} {outs : List (Op × Except Fault Reply)}
    (hrun : runOps E s₀ ops = (s, outs)) (hops : ∀ op ∈ ops, op = .step ∨ IsQuery op)
    (hok : ∀ o ∈ outs, o.1 = .step → ∃ r, o.2 = .ok r) :
    ∀ o ∈ (runOps E s₀ ops).2, Drives o.1 o.2 := by
  rw [hrun]
  intro o ho
  refine ⟨hops o.1 ?_, hok o ho⟩
  rw [← runOps_map_fst E s₀ ops, hrun]
  exact List.mem_map_of_mem _ ho

theorem runOps_eof {s₀ s : Sys σ} {ops : List Op} {outs : List (Op × Except Fault Reply)}
    (hrun : runOps E s₀ ops = (s, outs)) (hgood : ∀ o ∈ (runOps E s₀ ops).2, Drives o.1 o.2)
    (hfin : (Op.step, .ok (.status .finished)) ∈ outs) : s.sync.eof = true := by
  have hhit : ∃ o ∈ (runOps E s₀ ops).2, Finishes o.1 o.2 :=
    ⟨_, by rw [hrun]; exact hfin, rfl, rfl⟩
  have := runOps_latch E (fun _ _ h hop => exec_eof E h hop) (fun _ _ hop => exec_finishes E hop)
    hhit hgood
  rwa [hrun] at this

theorem runOps_reachable : ∀ {s : Sys σ} (ops : List Op), Reachable E s → Reachable E (runOps E s ops).1
  | _, [], h => h
  | s, op :: ops, h => by
      rw [runOps_cons]
      exact runOps_reachable ops (.exec op h)

theorem configure_reachable (dir : CaDirection) (cfg : List Setter) :
    Reachable E (configure E dir cfg) :=
  runOps_reachable E _ (.new dir)

end Casync.Proofs.Runs
