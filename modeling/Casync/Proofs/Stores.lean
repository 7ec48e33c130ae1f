import Casync.Proofs.Runs
import Casync.Scenarios
import Casync.Wp

/-!
Where `ca_sync_get` looks for an object. The slots are the writable store and then the seed
stores in the order `ca_sync_add_seed_store_local` added them; the lookup stops at the first
answer that is not `-ENOENT`. The writable slot is consulted whether a store was configured in
it or not, so without `ca_sync_set_store_local` the answer of `ca_store_get` for a `NULL` store
decides whether the seed stores are reached.
-/

namespace Casync.Proofs.Stores

open Casync.Proofs.Frames Casync.Proofs.Runs

variable {σ : Type} (E : Env σ)

/-- The first answer that is not `-ENOENT`, or `-ENOENT` when every store reports it. -/
def firstAnswer (answers : List (Except Int Bytes)) : Except Fault Bytes :=
  match answers.find? (· ≠ .error (-ENOENT)) with
  | some (.ok p) => .ok p
  | some (.error r) => .error (.ret r)
  | none => .error (.ret (-ENOENT))

/-- The slots consulted: those that answer `-ENOENT`, up to and including the first that does
not. -/
def consulted (ans : Option String → Except Int Bytes) (stores : List (Option String)) :
    List (Option String) :=
  stores.take ((stores.takeWhile (ans · = .error (-ENOENT))).length + 1)

section Lookup

variable {E} (ans : Option String → Except Int Bytes) (id : ObjectId)

/-- The log after looking up `id` in the slots `stores` from `s`. -/
def lookupState (s : Sys σ) (stores : List (Option String)) : Sys σ :=
  { s with log := s.log ++ (consulted ans stores).map fun st => ⟨.storeGet st id, ans st⟩ }

/-- With stores whose answers do not depend on what came before, the lookup returns the first
answer that is not `-ENOENT` and consults exactly the slots up to it. -/
theorem storesGet_lookup (hE : ∀ log st, E.answer log (.storeGet st id) = ans st) :
    ∀ (stores : List (Option String)) (s : Sys σ),
      outcome (storesGet E id stores) s = firstAnswer (stores.map ans) ∧
        after (storesGet E id stores) s = lookupState ans id s stores
  | [], s => ⟨rfl, by simp [lookupState, consulted, after, storesGet]⟩
  | st :: stores, s => by
      obtain ⟨ih₁, ih₂⟩ := storesGet_lookup hE stores
        { s with log := s.log ++ [⟨.storeGet st id, ans st⟩] }
      unfold outcome at ih₁ ⊢
      unfold after at ih₂ ⊢
      simp only [storesGet, run_bind, run_call, hE]
      cases hst : ans st with
      | ok p => simp [lookupState, consulted, firstAnswer, hst]
      | error r =>
          by_cases hr : r = -ENOENT
          · subst hr
            rw [hst] at ih₁ ih₂
            simp only [if_true]
            refine ⟨ih₁.trans ?_, ih₂.trans ?_⟩
            · simp [firstAnswer, hst]
            · simp [lookupState, consulted, hst]
          · simp [lookupState, consulted, firstAnswer, hst, hr]

/-- `ca_sync_get` looks in the writable slot and then in the seed stores. -/
theorem get_lookup (hE : ∀ log st, E.answer log (.storeGet st id) = ans st) (s : Sys σ) :
    outcome (get E id) s = firstAnswer ((s.sync.wstore :: s.sync.rstores.map some).map ans) ∧
      after (get E id) s = lookupState ans id s (s.sync.wstore :: s.sync.rstores.map some) := by
  have hrun : (get E id).run s = (storesGet E id (s.sync.wstore :: s.sync.rstores.map some)).run s := by
    rw [get, run_bind, run_getSync]
  unfold outcome after
  rw [hrun]
  exact storesGet_lookup ans id hE _ s

end Lookup

/-- The seed store a configuration call added: a successful `ca_sync_add_seed_store_local`. -/
def addedSeed : Op × Except Fault Reply → Option String
  | (.set (.seedStoreLocal (some p)), .ok _) => some p
  | _ => none

/-- The writable store a configuration call set: a successful `ca_sync_set_store_local`. -/
def setWritable : Op × Except Fault Reply → Option String
  | (.set (.storeLocal (some p)), .ok _) => some p
  | _ => none

/-- How a configuration call with outcome `o` moves the store slots from `c` to `c'`: the seed
store it added is appended, and the writable store it set fills the slot if it was empty. -/
def StoresMoved (c c' : CaSync σ) (o : Op × Except Fault Reply) : Prop :=
  c'.rstores = c.rstores ++ (addedSeed o).toList ∧ c'.wstore = c.wstore.or (setWritable o)

theorem exec_set_stores (c : Setter) (s : Sys σ) :
    StoresMoved s.sync (after (exec E (.set c)) s).sync (.set c, outcome (exec E (.set c)) s) := by
  refine (@Wp.outcome_iff σ Reply (exec E (.set c)) s
    (fun o s' => StoresMoved s.sync s'.sync (.set c, o))).mp ?_
  cases c
  case seedStoreLocal path =>
    cases path <;> simp only [exec, Setter.run, addSeedStoreLocal, Wp.bind_iff, Wp.call_iff,
      Wp.ite_iff, Wp.fail_iff, Wp.pure_iff, Wp.getSync_iff, Wp.modifySync_iff, Wp.orReleaseStore_iff]
    all_goals simp [addedSeed, setWritable, StoresMoved]
  case storeLocal path =>
    cases path <;> simp only [exec, Setter.run, setStoreLocal, Wp.bind_iff, Wp.call_iff,
      Wp.ite_iff, Wp.fail_iff, Wp.pure_iff, Wp.getSync_iff, Wp.modifySync_iff, Wp.orReleaseStore_iff]
    all_goals simp +contextual [addedSeed, setWritable, StoresMoved]
  all_goals
    refine ((exec_set_fields E _).wp s).mono (fun _ _ h => ?_) fun _ _ h => ?_ <;>
      exact ⟨(h.1.field CaSync.rstores fun _ => rfl).trans (List.append_nil _).symm,
        (h.1.field CaSync.wstore fun _ => rfl).trans Option.or_none.symm⟩

theorem head?_toList_append {α : Type} (o : Option α) (l : List α) :
    (o.toList ++ l).head? = o.or l.head? := by
  cases o <;> rfl

/-- Over configuration calls the seed stores are those added, in order, and the writable slot
holds the first writable store set. -/
theorem runOps_stores : ∀ (cfg : List Setter) (s : Sys σ),
    (runOps E s (cfg.map .set)).1.sync.rstores =
        s.sync.rstores ++ (runOps E s (cfg.map .set)).2.filterMap addedSeed ∧
      (runOps E s (cfg.map .set)).1.sync.wstore =
        s.sync.wstore.or ((runOps E s (cfg.map .set)).2.filterMap setWritable).head?
  | [], s => by simp [runOps]
  | c :: cfg, s => by
      obtain ⟨ih₁, ih₂⟩ := runOps_stores cfg (after (exec E (.set c)) s)
      obtain ⟨h₁, h₂⟩ := exec_set_stores E c s
      rw [List.map_cons, runOps_cons, List.filterMap_cons, List.filterMap_cons]
      refine ⟨ih₁.trans ?_, ih₂.trans ?_⟩
      · rw [h₁, List.append_assoc]
        cases addedSeed (Op.set c, outcome (exec E (.set c)) s) <;> rfl
      · rw [h₂, Option.or_assoc, ← head?_toList_append]
        cases setWritable (Op.set c, outcome (exec E (.set c)) s) <;> rfl

/-- The store slots a configuration run leaves: the writable store it set, if any, then the
seed stores it added, in order. -/
def slotsOf (outs : List (Op × Except Fault Reply)) : List (Option String) :=
  (outs.filterMap setWritable).head? :: (outs.filterMap addedSeed).map some

/-- After any configuration, `ca_sync_get` returns the first answer that is not `-ENOENT` among
the writable slot, whether a store was set in it or not, and the seed stores added
successfully, in the order they were added; it consults exactly the slots up to that one. -/
theorem get_after_configure (ans : Option String → Except Int Bytes) (id : ObjectId)
    (hE : ∀ log st, E.answer log (.storeGet st id) = ans st) (dir : CaDirection)
    (cfg : List Setter) :
    outcome (get E id) (configure E dir cfg) =
        firstAnswer ((slotsOf (runOps E (Sys.new E dir) (cfg.map .set)).2).map ans) ∧
      after (get E id) (configure E dir cfg) = lookupState ans id (configure E dir cfg)
        (slotsOf (runOps E (Sys.new E dir) (cfg.map .set)).2) := by
  obtain ⟨h₁, h₂⟩ := runOps_stores E cfg (Sys.new E dir)
  have hslots : (configure E dir cfg).sync.wstore :: (configure E dir cfg).sync.rstores.map some =
      slotsOf (runOps E (Sys.new E dir) (cfg.map .set)).2 := by
    rw [configure, h₁, h₂]
    rfl
  rw [← hslots]
  exact get_lookup ans id hE _

/-- The answer of a store slot in `nullStoreEnv`: `ca_store_get` on the `NULL` slot of a
writable store that was never configured fails with `-EINVAL`, and every local store holds the
object, as the bytes `[7]`. -/
def nullStoreAnswer : Option String → Except Int Bytes
  | none => .error (-EINVAL)
  | some _ => .ok [7]

/-- Surroundings whose stores answer as `nullStoreAnswer` says and where every other call
succeeds. -/
def nullStoreEnv : Env Unit := ⟨fun _ c => match c with
  | .storeGet st _ => nullStoreAnswer st
  | c => c.okRet, noCuts, digestStub⟩

theorem get_after_configure_seeded :
    outcome (get nullStoreEnv (digestStub [1]))
        (configure nullStoreEnv .decode [.seedStoreLocal (some "seed")]) =
        firstAnswer ((slotsOf (runOps nullStoreEnv (Sys.new nullStoreEnv .decode)
          ([Setter.seedStoreLocal (some "seed")].map .set)).2).map nullStoreAnswer) ∧
      after (get nullStoreEnv (digestStub [1]))
          (configure nullStoreEnv .decode [.seedStoreLocal (some "seed")]) =
        lookupState nullStoreAnswer (digestStub [1])
          (configure nullStoreEnv .decode [.seedStoreLocal (some "seed")])
          (slotsOf (runOps nullStoreEnv (Sys.new nullStoreEnv .decode)
            ([Setter.seedStoreLocal (some "seed")].map .set)).2) :=
  get_after_configure nullStoreEnv nullStoreAnswer (digestStub [1]) (fun _ _ => rfl) .decode
    [.seedStoreLocal (some "seed")]

/-- A DECODE driver with one seed store, which holds the object, and no writable store: the
lookup stops at the empty writable slot and never consults the seed store. -/
theorem get_stops_at_unset_writable_store :
    (configure nullStoreEnv .decode [.seedStoreLocal (some "seed")]).sync.rstores = ["seed"] ∧
      outcome (get nullStoreEnv (digestStub [1]))
        (configure nullStoreEnv .decode [.seedStoreLocal (some "seed")]) = .error (.ret (-EINVAL)) ∧
      countCalls .storeGet (after (get nullStoreEnv (digestStub [1]))
        (configure nullStoreEnv .decode [.seedStoreLocal (some "seed")])).log = 1 := by
  decide

end Casync.Proofs.Stores
