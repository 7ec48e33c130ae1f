import Casync.OnOk

/-!
What a driver function leaves behind whatever its outcome. `Wp m s Q R` says that `Q` holds
of the value and the state when `m` succeeds from `s`, and `R` of the fault and the state
when it fails. A failed call keeps what it did before failing, so facts about every
reachable state, failed calls included, are read off a function's body through these rules
as success specifications are through those of `OnOk`.
-/

namespace Casync

variable {σ α β : Type}

/-- `Q` of the value and the state when `m` succeeds from `s`, `R` of the fault and the
state when it fails. -/
def Wp (m : SyncM σ α) (s : Sys σ) (Q : α → Sys σ → Prop) (R : Fault → Sys σ → Prop) : Prop :=
  match m.run s with
  | .ok a s' => Q a s'
  | .error e s' => R e s'

namespace Wp

variable {m : SyncM σ α} {f : α → SyncM σ β} {s : Sys σ} {a : α} {Q : α → Sys σ → Prop}
  {R : Fault → Sys σ → Prop}

@[simp] theorem pure_iff : Wp (pure a) s Q R ↔ Q a s := Iff.rfl

@[simp] theorem getSync_iff {Q : CaSync σ → Sys σ → Prop} : Wp getSync s Q R ↔ Q s.sync s :=
  Iff.rfl

@[simp] theorem modifySync_iff {g : CaSync σ → CaSync σ} {Q : Unit → Sys σ → Prop} :
    Wp (modifySync g) s Q R ↔ Q () { s with sync := g s.sync } := Iff.rfl

@[simp] theorem call_iff (E : Env σ) {c : Call} {Q : c.Ret → Sys σ → Prop} :
    Wp (call E c) s Q R ↔
      Q (E.answer s.log c) { s with log := s.log ++ [⟨c, E.answer s.log c⟩] } := Iff.rfl

@[simp] theorem throw_iff {e : Fault} : Wp (throw e : SyncM σ α) s Q R ↔ R e s := Iff.rfl

@[simp] theorem fail_iff {r : Int} : Wp (fail r : SyncM σ α) s Q R ↔ R (.ret r) s := Iff.rfl

@[simp] theorem orFail_iff {x : Except Int α} :
    Wp (orFail x) s Q R ↔ (∀ a, x = .ok a → Q a s) ∧ ∀ r, x = .error r → R (.ret r) s := by
  cases x <;> simp [Wp]

@[simp] theorem bind_iff {Q : β → Sys σ → Prop} :
    Wp (m >>= f) s Q R ↔ Wp m s (fun a s₁ => Wp (f a) s₁ Q R) R := by
  unfold Wp
  rw [run_bind]
  cases m.run s <;> rfl

@[simp] theorem map_iff {g : α → β} {Q : β → Sys σ → Prop} :
    Wp (g <$> m) s Q R ↔ Wp m s (fun a => Q (g a)) R := by
  show Wp (m >>= fun a => pure (g a)) s Q R ↔ _
  simp only [bind_iff, pure_iff]

@[simp] theorem ite_iff {c : Prop} [Decidable c] {x y : SyncM σ α} :
    Wp (if c then x else y) s Q R ↔ (c → Wp x s Q R) ∧ (¬c → Wp y s Q R) := by
  split <;> simp_all

@[simp] theorem orReleaseStore_iff (E : Env σ) {x : Except Int Unit} {Q : Unit → Sys σ → Prop} :
    Wp (orReleaseStore E x) s Q R ↔ (x = .ok () → Q () s) ∧ ∀ r, x = .error r →
      R (.ret r) { s with log := s.log ++ [⟨.storeUnref, E.answer s.log .storeUnref⟩] } := by
  cases x <;> simp [orReleaseStore]

theorem mono {Q' : α → Sys σ → Prop} {R' : Fault → Sys σ → Prop} (h : Wp m s Q R)
    (hQ : ∀ a s', Q a s' → Q' a s') (hR : ∀ e s', R e s' → R' e s') : Wp m s Q' R' := by
  unfold Wp at *
  split at h <;> simp_all

theorem and {Q' : α → Sys σ → Prop} {R' : Fault → Sys σ → Prop} (h : Wp m s Q R)
    (h' : Wp m s Q' R') : Wp m s (fun a s' => Q a s' ∧ Q' a s') fun e s' => R e s' ∧ R' e s' := by
  unfold Wp at *
  split at h <;> simp_all

theorem bind_keeps {P : Sys σ → Prop} (hm : Wp m s (fun _ => P) fun _ => P)
    (hf : ∀ a s₁, P s₁ → Wp (f a) s₁ (fun _ => P) fun _ => P) :
    Wp (m >>= f) s (fun _ => P) fun _ => P :=
  bind_iff.mpr (hm.mono hf fun _ _ => id)

theorem orFail_keeps {x : Except Int α} {P : Sys σ → Prop} :
    (Wp (orFail x) s (fun _ => P) fun _ => P) ↔ P s := by
  cases x <;> exact Iff.rfl

theorem after_iff {P : Sys σ → Prop} : (Wp m s (fun _ => P) fun _ => P) ↔ P (after m s) := by
  unfold Wp after
  cases m.run s <;> rfl

theorem outcome_iff {P : Except Fault α → Sys σ → Prop} :
    (Wp m s (fun a => P (.ok a)) fun e => P (.error e)) ↔ P (outcome m s) (after m s) := by
  unfold Wp outcome after
  cases m.run s <;> rfl

/-- Whatever `m` does from `s`, it is what `m.run s` says. -/
theorem run_eq (m : SyncM σ α) (s : Sys σ) :
    Wp m s (fun a s' => m.run s = .ok a s') fun e s' => m.run s = .error e s' := by
  unfold Wp
  cases m.run s <;> rfl

theorem ok_iff (h : outcome m s = .ok a) : Wp m s Q R ↔ Q a (after m s) := by
  unfold Wp after
  unfold outcome at h
  split at h <;> simp_all

/-- A function that cannot fail from `s` succeeds, with a value and a state satisfying `Q`. -/
theorem outcome_ok (h : Wp m s Q fun _ _ => False) : ∃ a, outcome m s = .ok a ∧ Q a (after m s) :=
  (outcome_iff (P := fun o s' => ∃ a, o = .ok a ∧ Q a s')).mp
    (h.mono (fun a _ hq => ⟨a, rfl, hq⟩) fun _ _ h => h.elim)

theorem outcome_error (h : Wp m s (fun _ _ => False) R) :
    ∃ e, outcome m s = .error e ∧ R e (after m s) :=
  (outcome_iff (P := fun o s' => ∃ e, o = .error e ∧ R e s')).mp
    (h.mono (fun _ _ h => h.elim) fun e _ hr => ⟨e, rfl, hr⟩)

/-- A success specification joins the success part of `Wp`. -/
theorem and_onOk {Q' : α → Sys σ → Prop} (h : Wp m s Q R) (h' : OnOk m s Q') :
    Wp m s (fun a s' => Q a s' ∧ Q' a s') R :=
  ((run_eq m s).and h).mono (fun a s' hq => ⟨hq.2, h' a s' hq.1⟩) fun _ _ hr => hr.2

theorem onOk (h : Wp m s Q R) : OnOk m s Q := by
  intro a s' hr
  unfold Wp at h
  rw [hr] at h
  exact h

end Wp

theorem Footprint.wp {K : List CallKind} {F : List Field} {m : SyncM σ α}
    (h : Footprint K F m) (s : Sys σ) :
    Wp m s (fun _ s' => Only F s.sync s'.sync ∧ ∃ Δ, s'.log = s.log ++ Δ ∧ ∀ e ∈ Δ, e.call.kind ∈ K)
      fun _ s' => Only F s.sync s'.sync ∧ ∃ Δ, s'.log = s.log ++ Δ ∧ ∀ e ∈ Δ, e.call.kind ∈ K :=
  Wp.after_iff.mpr (h s)

end Casync
