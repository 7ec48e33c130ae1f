import Casync.Frame

/-!
What a driver function guarantees when it succeeds. `OnOk m s Q` says that if `m` returns
from `s` with a value, `Q` holds of that value and of the state it leaves; the rules below
push it through a do-block one primitive at a time, so a function's success
specification is proved by `simp only` over its body and the specifications of the
functions it calls.
-/

namespace Casync

variable {σ α β : Type}

/-- If `m` succeeds from `s`, `Q` holds of its value and the state it leaves. -/
def OnOk (m : SyncM σ α) (s : Sys σ) (Q : α → Sys σ → Prop) : Prop :=
  ∀ a s', m.run s = .ok a s' → Q a s'

namespace OnOk

variable {m : SyncM σ α} {f : α → SyncM σ β} {s : Sys σ} {a : α} {Q : α → Sys σ → Prop}

@[simp] theorem pure_iff : OnOk (pure a) s Q ↔ Q a s :=
  ⟨fun h => h a s rfl, fun h _ _ hr => by cases hr; exact h⟩

@[simp] theorem getSync_iff {Q : CaSync σ → Sys σ → Prop} : OnOk getSync s Q ↔ Q s.sync s :=
  ⟨fun h => h _ s rfl, fun h _ _ hr => by cases hr; exact h⟩

@[simp] theorem modifySync_iff {g : CaSync σ → CaSync σ} {Q : Unit → Sys σ → Prop} :
    OnOk (modifySync g) s Q ↔ Q () { s with sync := g s.sync } :=
  ⟨fun h => h () _ rfl, fun h _ _ hr => by cases hr; exact h⟩

@[simp] theorem call_iff (E : Env σ) {c : Call} {Q : c.Ret → Sys σ → Prop} :
    OnOk (call E c) s Q ↔
      Q (E.answer s.log c) { s with log := s.log ++ [⟨c, E.answer s.log c⟩] } :=
  ⟨fun h => h _ _ rfl, fun h _ _ hr => by cases hr; exact h⟩

@[simp] theorem throw_true {e : Fault} : OnOk (throw e : SyncM σ α) s Q :=
  fun _ _ hr => nomatch hr

@[simp] theorem fail_true {r : Int} : OnOk (fail r : SyncM σ α) s Q := throw_true

@[simp] theorem orFail_iff {x : Except Int α} : OnOk (orFail x) s Q ↔ ∀ a, x = .ok a → Q a s := by
  cases x
  · simp [orFail]
  · simp only [orFail, pure_iff, Except.ok.injEq, forall_eq']

@[simp] theorem bind_iff {Q : β → Sys σ → Prop} :
    OnOk (m >>= f) s Q ↔ OnOk m s fun a s₁ => OnOk (f a) s₁ Q := by
  constructor
  · intro h a s₁ h₁ b s' h₂
    exact h b s' (by rw [run_bind_ok h₁, h₂])
  · intro h b s' hb
    obtain ⟨a, s₁, h₁, h₂⟩ := bind_ok hb
    exact h a s₁ h₁ b s' h₂

@[simp] theorem map_iff {g : α → β} {Q : β → Sys σ → Prop} :
    OnOk (g <$> m) s Q ↔ OnOk m s fun a => Q (g a) := by
  show OnOk (m >>= fun a => pure (g a)) s Q ↔ _
  simp only [bind_iff, pure_iff]

@[simp] theorem ite_iff {c : Prop} [Decidable c] {x y : SyncM σ α} :
    OnOk (if c then x else y) s Q ↔ (c → OnOk x s Q) ∧ (¬c → OnOk y s Q) := by
  split <;> simp_all

@[simp] theorem true_iff : (OnOk m s fun _ _ => True) ↔ True :=
  iff_true_intro fun _ _ _ => trivial

theorem mono {P : α → Sys σ → Prop} (h : OnOk m s P) (hPQ : ∀ a s', P a s' → Q a s') :
    OnOk m s Q :=
  fun a s' hr => hPQ a s' (h a s' hr)

/-- Two success specifications of one function hold together. -/
theorem and {P : α → Sys σ → Prop} (hP : OnOk m s P) (hQ : OnOk m s Q) :
    OnOk m s fun a s' => P a s' ∧ Q a s' :=
  fun a s' hr => ⟨hP a s' hr, hQ a s' hr⟩

/-- A computation whose outcome is a value succeeded, with the state `after` it. -/
theorem of_outcome (h : OnOk m s Q) (ho : outcome m s = .ok a) : Q a (after m s) := by
  unfold outcome at ho
  unfold after
  split at ho
  · cases ho
    exact h _ _ ‹_›
  · cases ho

end OnOk

/-- A frame holds in particular on success. -/
theorem Footprint.onOk {K : List CallKind} {F : List Field} {m : SyncM σ α}
    (h : Footprint K F m) (s : Sys σ) :
    OnOk m s fun _ s' => Only F s.sync s'.sync ∧
      ∃ Δ, s'.log = s.log ++ Δ ∧ ∀ e ∈ Δ, e.call.kind ∈ K := by
  intro a s' hr
  have := h s
  simp only [after, hr] at this
  exact this

/-- And it leaves the calls of kinds outside its frame as they were. -/
theorem Footprint.callsIn_onOk {K K' : List CallKind} {F : List Field} {m : SyncM σ α}
    (h : Footprint K F m) (hK : ∀ k ∈ K, k ∉ K') (s : Sys σ) :
    OnOk m s fun _ s' => callsIn K' s'.log = callsIn K' s.log := by
  intro a s' hr
  have := h.callsIn_after hK s
  simp only [after, hr] at this
  exact this

end Casync
