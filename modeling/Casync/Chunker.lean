import Casync.Basic

/-!
The content-defined chunker (`chunker.h`) as the driver uses it: `ca_chunker_scan` is a
deterministic automaton fed one byte at a time that signals a boundary right after some
bytes and then starts over from its initial state.
-/

namespace Casync

/-- A chunker: its initial (zeroed) state and the transition on one byte, `none` when a
boundary falls right after that byte. -/
structure Chunker (σ : Type) where
  init : σ
  feed : σ → UInt8 → Option σ

namespace Chunker

variable {σ : Type} (C : Chunker σ)

/-- `ca_chunker_scan`: the state after scanning `p`, and the position just after the first
boundary byte, or `none` for `(size_t) -1`. -/
def scan : σ → Bytes → σ × Option Nat
  | st, [] => (st, none)
  | st, b :: p =>
      match C.feed st b with
      | none => (C.init, some 1)
      | some st' => ((scan st' p).1, (scan st' p).2.map (· + 1))

/-- A stream cut after every boundary byte, starting in state `st` with `acc` pending:
the completed chunks, the pending tail, and the state after it. -/
def cuts : σ → Bytes → Bytes → List Bytes × Bytes × σ
  | st, acc, [] => ([], acc, st)
  | st, acc, b :: p =>
      match C.feed st b with
      | none => ((acc ++ [b]) :: (cuts C.init [] p).1, (cuts C.init [] p).2)
      | some st' => cuts st' (acc ++ [b]) p

/-- The chunks of a whole stream: every cut from the initial state, then the non-empty
remainder. -/
def payloads (S : Bytes) : List Bytes :=
  (C.cuts C.init [] S).1 ++ if (C.cuts C.init [] S).2.1 = [] then [] else [(C.cuts C.init [] S).2.1]

theorem cuts_append (st : σ) (acc p q : Bytes) :
    C.cuts st acc (p ++ q) =
      ((C.cuts st acc p).1 ++ (C.cuts (C.cuts st acc p).2.2 (C.cuts st acc p).2.1 q).1,
        (C.cuts (C.cuts st acc p).2.2 (C.cuts st acc p).2.1 q).2) := by
  induction p generalizing st acc with
  | nil => rfl
  | cons b p ih =>
      simp only [List.cons_append, cuts]
      cases C.feed st b with
      | none => simp [ih]
      | some st' => exact ih st' (acc ++ [b])

theorem scan_none {st st' : σ} {p : Bytes} (h : C.scan st p = (st', none)) (acc : Bytes) :
    C.cuts st acc p = ([], acc ++ p, st') := by
  induction p generalizing st acc with
  | nil => simp_all [scan, cuts]
  | cons b p ih =>
      simp only [scan] at h
      simp only [cuts]
      cases hf : C.feed st b with
      | none => simp [hf] at h
      | some st₁ =>
          simp only [hf, Prod.mk.injEq, Option.map_eq_none'] at h
          simpa using ih (Prod.ext h.1 h.2) (acc ++ [b])

theorem scan_some {st st' : σ} {p : Bytes} {k : Nat} (h : C.scan st p = (st', some k))
    (acc : Bytes) :
    0 < k ∧ k ≤ p.length ∧ st' = C.init ∧
      C.cuts st acc p = ((acc ++ p.take k) :: (C.cuts C.init [] (p.drop k)).1,
        (C.cuts C.init [] (p.drop k)).2) := by
  induction p generalizing st acc k with
  | nil => simp [scan] at h
  | cons b p ih =>
      simp only [scan] at h
      simp only [cuts]
      cases hf : C.feed st b with
      | none =>
          simp only [hf, Prod.mk.injEq, Option.some.injEq] at h
          obtain ⟨rfl, rfl⟩ := h
          simp
      | some st₁ =>
          simp only [hf, Prod.mk.injEq, Option.map_eq_some'] at h
          obtain ⟨h₁, j, hj, rfl⟩ := h
          obtain ⟨hpos, hle, rfl, hcut⟩ := ih (Prod.ext h₁ hj) (acc ++ [b])
          refine ⟨by omega, by simpa using hle, rfl, ?_⟩
          simpa using hcut

end Chunker

end Casync
