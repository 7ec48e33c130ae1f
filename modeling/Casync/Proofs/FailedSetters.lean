import Casync.Proofs.Runs
import Casync.Wp
import Casync.Scenarios

/-!
Configuration calls that fail. Whatever the answers of the calls it makes, a setter that
returns a negative value leaves the driver record as it found it, and every index or store it
created is released again. `ca_sync_set_base_path` and `ca_sync_set_archive_path` reset their
descriptor to `-1` when an `open` fails, which is the value it had: in every reachable state a
descriptor field is open or `-1`.
-/

namespace Casync.Proofs.FailedSetters

open Casync.Proofs.Frames Casync.Proofs.Runs

variable {σ : Type} (E : Env σ)

/-- Each descriptor field of the record is open or `-1`. -/
def FdsNormal (c : CaSync σ) : Prop := -1 ≤ c.baseFd ∧ -1 ≤ c.archiveFd

instance (c : CaSync σ) : Decidable (FdsNormal c) := inferInstanceAs (Decidable (_ ∧ _))

/-- What a failed configuration call from `s` leaves in `s'`: the record as it was, and every
index and store the call created released again. -/
def Undone (s s' : Sys σ) : Prop :=
  s'.sync = s.sync ∧ heldIndexes s'.log = heldIndexes s.log ∧ heldStores s'.log = heldStores s.log

theorem Undone.refl (s : Sys σ) : Undone s s := ⟨rfl, rfl, rfl⟩

section Setters

variable {E} {s : Sys σ}

theorem setBaseFd_undone (fd : Int) :
    Wp (setBaseFd fd) s (fun _ _ => True) fun _ s' => Undone s s' := by
  simp only [setBaseFd, Wp.ite_iff, Wp.bind_iff, Wp.fail_iff, Wp.pure_iff, Wp.getSync_iff,
    Wp.modifySync_iff, Undone.refl, implies_true, and_self]

theorem setMakePermMode_undone (m : UInt32) :
    Wp (setMakePermMode m) s (fun _ _ => True) fun _ s' => Undone s s' := by
  simp only [setMakePermMode, Wp.ite_iff, Wp.bind_iff, Wp.fail_iff, Wp.pure_iff, Wp.getSync_iff,
    Wp.modifySync_iff, Undone.refl, implies_true, and_self]

theorem setBaseMode_undone (m : UInt32) :
    Wp (setBaseMode m) s (fun _ _ => True) fun _ s' => Undone s s' := by
  simp only [setBaseMode, Wp.ite_iff, Wp.bind_iff, Wp.fail_iff, Wp.pure_iff, Wp.getSync_iff,
    Wp.modifySync_iff, Undone.refl, implies_true, and_self]

theorem setArchiveFd_undone (fd : Int) :
    Wp (setArchiveFd fd) s (fun _ _ => True) fun _ s' => Undone s s' := by
  simp only [setArchiveFd, Wp.ite_iff, Wp.bind_iff, Wp.fail_iff, Wp.pure_iff, Wp.getSync_iff,
    Wp.modifySync_iff, Undone.refl, implies_true, and_self]

theorem setBasePath_undone (h : FdsNormal s.sync) (path : Option String) :
    Wp (setBasePath E path) s (fun _ _ => True) fun _ s' => Undone s s' := by
  rcases path with _ | p
  · exact Undone.refl s
  simp only [setBasePath, Wp.bind_iff, Wp.getSync_iff, Wp.ite_iff, Wp.fail_iff, Wp.pure_iff,
    Wp.call_iff]
  refine ⟨fun _ => Undone.refl s, fun hfd => ⟨fun _ => Undone.refl s, fun _ => ?_⟩⟩
  have hkeep : { s.sync with baseFd := -1 } = s.sync := by
    rw [show (-1 : Int) = s.sync.baseFd by have := h.1; omega]
  split
  next => trivial
  next =>
    simp only [Wp.bind_iff, Wp.modifySync_iff]
    split
    next =>
      simp only [Wp.ite_iff, Wp.bind_iff, Wp.fail_iff, Wp.pure_iff, Wp.call_iff]
      refine ⟨fun _ => ⟨hkeep, by simp [Event.indexHeld], by simp [Event.storeHeld]⟩, fun _ => ?_⟩
      split
      next => trivial
      next => exact ⟨hkeep, by simp [Event.indexHeld], by simp [Event.storeHeld]⟩
    next =>
      simp only [Wp.ite_iff, Wp.bind_iff, Wp.fail_iff, Wp.pure_iff, Wp.call_iff,
        Wp.modifySync_iff]
      exact ⟨fun _ => ⟨hkeep, by simp [Event.indexHeld], by simp [Event.storeHeld]⟩,
        fun _ => trivial⟩

theorem setArchivePath_undone (h : FdsNormal s.sync) (path : Option String) :
    Wp (setArchivePath E path) s (fun _ _ => True) fun _ s' => Undone s s' := by
  rcases path with _ | p
  · exact Undone.refl s
  simp only [setArchivePath, Wp.bind_iff, Wp.getSync_iff, Wp.ite_iff, Wp.fail_iff, Wp.pure_iff]
  refine ⟨fun _ => Undone.refl s, fun hfd => ⟨fun _ => Undone.refl s, fun _ => ?_⟩⟩
  split
  next =>
    simp only [Wp.bind_iff, Wp.call_iff, Wp.ite_iff, Wp.fail_iff, Wp.pure_iff, Wp.modifySync_iff]
    exact ⟨fun _ => ⟨rfl, by simp [Event.indexHeld], by simp [Event.storeHeld]⟩, fun _ => trivial⟩
  next =>
    simp only [Wp.bind_iff, Wp.call_iff]
    split
    next => trivial
    next =>
      refine ⟨?_, by simp [Event.indexHeld], by simp [Event.storeHeld]⟩
      show { s.sync with archiveFd := -1 } = s.sync
      rw [show (-1 : Int) = s.sync.archiveFd by have := h.2; omega]

theorem setStoreLocal_undone (path : Option String) :
    Wp (setStoreLocal E path) s (fun _ _ => True) fun _ s' => Undone s s' := by
  rcases path with _ | p
  · exact Undone.refl s
  simp only [setStoreLocal, Wp.bind_iff, Wp.getSync_iff, Wp.ite_iff, Wp.fail_iff, Wp.pure_iff,
    Wp.call_iff, Wp.orReleaseStore_iff, Wp.modifySync_iff]
  refine ⟨fun _ => Undone.refl s, fun _ => ⟨fun hn => ?_, fun hn => ⟨fun _ => trivial,
    fun _ _ => ?_⟩⟩⟩ <;>
  simp only [Bool.not_eq_true', Bool.not_eq_eq_eq_not, Bool.not_true] at hn <;>
  exact ⟨rfl, by simp [Event.indexHeld], by simp [Event.storeHeld, hn]⟩

theorem addSeedStoreLocal_undone (path : Option String) :
    Wp (addSeedStoreLocal E path) s (fun _ _ => True) fun _ s' => Undone s s' := by
  rcases path with _ | p
  · exact Undone.refl s
  simp only [addSeedStoreLocal, Wp.bind_iff, Wp.getSync_iff, Wp.ite_iff, Wp.fail_iff,
    Wp.pure_iff, Wp.call_iff, Wp.orReleaseStore_iff, Wp.modifySync_iff]
  refine ⟨fun hn => ?_, fun hn => ⟨fun _ => ⟨fun _ => ?_, fun _ => trivial⟩, fun _ _ => ?_⟩⟩ <;>
  simp only [Bool.not_eq_true', Bool.not_eq_eq_eq_not, Bool.not_true] at hn <;>
  exact ⟨rfl, by simp [Event.indexHeld], by simp [Event.storeHeld, hn]⟩

/-- `ca_sync_set_index_fd` and `ca_sync_set_index_path` once their argument is checked: a
failure after the index was created releases it and clears the field again. -/
theorem attachIndex_undone {source : SyncM σ (Except Int Unit)}
    (hsrc : ∀ s₁ : Sys σ, Wp source s₁ (fun _ s₂ => Undone s₁ s₂) fun _ _ => False) :
    Wp (attachIndex E source) s (fun _ _ => True) fun _ s' => Undone s s' := by
  simp only [attachIndex, allocateIndex, Wp.bind_iff, Wp.getSync_iff, Wp.ite_iff, Wp.fail_iff,
    Wp.pure_iff, Wp.modifySync_iff]
  refine ⟨fun _ => Undone.refl s, fun hix => ?_⟩
  simp only [Bool.not_eq_true] at hix
  split <;> simp only [Wp.bind_iff, Wp.call_iff, Wp.ite_iff, Wp.fail_iff, Wp.pure_iff,
    Wp.modifySync_iff]
  all_goals
    refine ⟨fun hn => ?_, fun hn => (hsrc _).mono (fun r s₂ hu => ?_) fun _ _ => False.elim⟩ <;>
      simp only [Bool.not_eq_true', Bool.not_eq_eq_eq_not, Bool.not_true] at hn
    · exact ⟨rfl, by simp [Event.indexHeld, hn], by simp [Event.storeHeld]⟩
    split
    · trivial
    · simp only [Wp.bind_iff, Wp.call_iff, Wp.modifySync_iff, Wp.fail_iff]
      refine ⟨?_, by simp [hu.2.1, Event.indexHeld, hn], by simp [hu.2.2, Event.storeHeld]⟩
      show { s₂.sync with index := false } = s.sync
      rw [hu.1, ← hix]

/-- Every configuration call that fails leaves the driver as it found it, from a record whose
descriptors are open or `-1`. -/
theorem setter_undone (h : FdsNormal s.sync) (c : Setter) :
    Wp (c.run E) s (fun _ _ => True) fun _ s' => Undone s s' := by
  have hcall : ∀ (c : Call) (s₁ : Sys σ), Event.indexHeld ⟨c, E.answer s₁.log c⟩ = 0 →
      Event.storeHeld ⟨c, E.answer s₁.log c⟩ = 0 →
      Wp (call E c) s₁ (fun _ s₂ => Undone s₁ s₂) fun _ _ => False :=
    fun _ _ hi hs => ⟨rfl, by simp [hi], by simp [hs]⟩
  cases c with
  | indexFd fd =>
      simp only [Setter.run, setIndexFd, Wp.bind_iff, Wp.ite_iff, Wp.fail_iff, Wp.pure_iff]
      exact ⟨fun _ => Undone.refl s, fun _ => attachIndex_undone fun s₁ => hcall _ s₁ rfl rfl⟩
  | indexPath path =>
      rcases path with _ | p
      · exact Undone.refl s
      exact attachIndex_undone fun s₁ => hcall _ s₁ rfl rfl
  | baseFd fd => exact setBaseFd_undone fd
  | basePath path => exact setBasePath_undone h path
  | makePermMode m => exact setMakePermMode_undone m
  | baseMode m => exact setBaseMode_undone m
  | archiveFd fd => exact setArchiveFd_undone fd
  | archivePath path => exact setArchivePath_undone h path
  | storeLocal path => exact setStoreLocal_undone path
  | seedStoreLocal path => exact addSeedStoreLocal_undone path

end Setters

section Reachable

/-- A function whose frame leaves both descriptor fields alone keeps them open or `-1`. -/
theorem keeps_fds_of_footprint {K : List CallKind} {F : List Field} {α : Type} {m : SyncM σ α}
    (h : Footprint K F m) (hb : .baseFd ∉ F) (ha : .archiveFd ∉ F) : Keeps FdsNormal m :=
  Keeps.of_footprint h fun c c' hO hc => by
    rw [FdsNormal, hO.field CaSync.baseFd fun _ => by simp [CaSync.restore, hb],
      hO.field CaSync.archiveFd fun _ => by simp [CaSync.restore, ha]]
    exact hc

/-- A descriptor field is given `-1` or a descriptor the system returned. -/
theorem keeps_fds_baseFd {v : Int} (hv : -1 ≤ v) :
    Keeps FdsNormal (modifySync fun c : CaSync σ => { c with baseFd := v }) :=
  .modify fun _ h => ⟨hv, h.2⟩

theorem keeps_fds_archiveFd {v : Int} (hv : -1 ≤ v) :
    Keeps FdsNormal (modifySync fun c : CaSync σ => { c with archiveFd := v }) :=
  .modify fun _ h => ⟨h.1, hv⟩

theorem openInto_keeps_fds {P : CaSync σ → Prop} (path : String) (how : OpenHow)
    {setFd : Int → CaSync σ → CaSync σ} (h : ∀ fd : Nat, Keeps P (modifySync (setFd fd)))
    (h₁ : Keeps P (modifySync (setFd (-1)))) : Keeps P (openInto E path how setFd) :=
  .bind (.call E _) fun
    | .ok _ => h _
    | .error _ => .bind h₁ fun _ => .fail _

theorem createTemporary_keeps_fds {P : CaSync σ → Prop} (target : String) (tmp : Option String)
    (perm : UInt32) {setTmp : Option String → CaSync σ → CaSync σ}
    {setFd : Int → CaSync σ → CaSync σ} (hT : ∀ t, Keeps P (modifySync (setTmp t)))
    (h : ∀ fd : Nat, Keeps P (modifySync (setFd fd)))
    (h₁ : Keeps P (modifySync fun c => setTmp none (setFd (-1) c))) :
    Keeps P (createTemporary E target tmp perm setTmp setFd) := by
  unfold createTemporary
  lift_lets
  intro create
  have hcreate : ∀ t, Keeps P (create t) := fun _ => .bind (.call E _) fun
    | .ok _ => h _
    | .error _ => .bind h₁ fun _ => .fail _
  cases tmp
  · exact .bind (.call E _) fun _ => .bind (.orFail _) fun _ => .bind (hT _) fun _ =>
      .bind (.pure _) hcreate
  · exact .bind (.pure _) hcreate

theorem setter_keeps_fds (c : Setter) : Keeps FdsNormal (c.run E) := by
  cases c with
  | baseFd fd =>
      exact .failIf fun h => .bind .getSync fun _ => .failIf fun _ => .failIf fun _ =>
        .failIf fun _ => keeps_fds_baseFd (by omega)
  | basePath path =>
      cases path
      · exact .fail _
      · refine .bind .getSync fun s => .failIf fun _ => .failIf fun _ => .bind (.call E _) fun
          | .ok _ => keeps_fds_baseFd (by omega)
          | .error _ => .bind (keeps_fds_baseFd (Int.le_refl _)) fun _ => ?_
        cases s.direction
        · exact .failIf fun _ => .bind (.call E _) fun
            | .ok _ => keeps_fds_baseFd (by omega)
            | .error _ => .bind (keeps_fds_baseFd (Int.le_refl _)) fun _ => .fail _
        · exact .bind (.call E _) fun _ => .failIf fun _ => .modify fun _ h => h
  | archiveFd fd =>
      exact .failIf fun h => .bind .getSync fun _ => .failIf fun _ => .failIf fun _ =>
        keeps_fds_archiveFd (by omega)
  | archivePath path =>
      cases path
      · exact .fail _
      · refine .bind .getSync fun s => .failIf fun _ => .failIf fun _ => ?_
        cases s.direction
        · exact .bind (.call E _) fun _ => .failIf fun _ => .modify fun _ h => h
        · exact .bind (.call E _) fun
            | .ok _ => keeps_fds_archiveFd (by omega)
            | .error _ => .bind (keeps_fds_archiveFd (Int.le_refl _)) fun _ => .fail _
  | _ => refine keeps_fds_of_footprint (setter_footprint E _) ?_ ?_ <;> simp [setterFields]

theorem start_keeps_fds : Keeps FdsNormal (start E) :=
  have hkeep {g : CaSync σ → CaSync σ} (h : ∀ c, (g c).baseFd = c.baseFd ∧
      (g c).archiveFd = c.archiveFd) : Keeps FdsNormal (modifySync g) :=
    .modify fun c hc => by rw [FdsNormal, (h c).1, (h c).2]; exact hc
  have hopen (path : String) (how : OpenHow) :
      Keeps FdsNormal (openInto E path how fun fd c => { c with baseFd := fd }) :=
    openInto_keeps_fds E _ _ (fun _ => keeps_fds_baseFd (by omega))
      (keeps_fds_baseFd (Int.le_refl _))
  have hbase (path : String) : Keeps FdsNormal (materializeBase E path) :=
    .bind .getSync fun _ => .failIf fun _ => .ite
      (fun _ => .bind (.call E _) fun
        | .ok () => .bind (.pure _) fun _ => hopen _ _
        | .error _ => .failIf fun _ => hopen _ _)
      fun _ => .ite (fun _ => createTemporary_keeps_fds E _ _ _ (fun _ => hkeep fun _ => ⟨rfl, rfl⟩)
          (fun _ => keeps_fds_baseFd (by omega)) (keeps_fds_baseFd (Int.le_refl _)))
        fun _ => .bind (.ite (fun _ => .pure _) fun _ => .throw _) fun _ => hopen _ _
  have hattach : Keeps FdsNormal (attachDecoder E) :=
    .bind (.call E _) fun _ => .failIf fun _ => .bind (hkeep fun _ => ⟨rfl, rfl⟩) fun _ =>
      .bind .getSync fun _ => .ite
        (fun _ => .bind (.call E _) fun _ => .bind (.orFail _) fun _ =>
          keeps_fds_baseFd (Int.le_refl _))
        fun _ => .failIf fun _ => .bind (.call E _) fun _ => .orFail _
  .bind (.bind .getSync fun s => .ite (fun _ => match s.archivePath with
      | some _ => createTemporary_keeps_fds E _ _ _ (fun _ => hkeep fun _ => ⟨rfl, rfl⟩)
          (fun _ => keeps_fds_archiveFd (by omega)) (keeps_fds_archiveFd (Int.le_refl _))
      | none => .pure _) fun _ => .pure _) fun _ =>
    .bind (.bind .getSync fun _ => .ite (fun _ => .failIf fun _ => .bind (.call E _) fun _ =>
        .failIf fun _ => .bind (hkeep fun _ => ⟨rfl, rfl⟩) fun _ => .bind (.call E _) fun
          | .ok () => keeps_fds_baseFd (Int.le_refl _)
          | .error _ => .bind (hkeep fun _ => ⟨rfl, rfl⟩) fun _ => .fail _)
        fun _ => .pure _) fun _ =>
      .bind (.bind .getSync fun s => .ite (fun _ => .ite (fun _ => match s.basePath with
          | some _ => .bind (hbase _) fun _ => hattach
          | none => .bind (.pure _) fun _ => hattach) fun _ => .bind (.pure _) fun _ => hattach)
        fun _ => .pure _) fun _ =>
      keeps_fds_of_footprint (startIndex_footprint E) (by decide) (by decide)

theorem exec_keeps_fds (op : Op) : Keeps FdsNormal (exec E op) := by
  cases op with
  | set c => exact .bind (setter_keeps_fds E c) fun _ => .pure _
  | step =>
      refine .bind (.bind (start_keeps_fds E) fun _ => .bind .getSync fun c => ?_) fun _ => .pure _
      split
      · exact keeps_fds_of_footprint (stepEncode_footprint E) (by decide) (by decide)
      · exact keeps_fds_of_footprint (stepDecode_footprint E) (by decide) (by decide)
  | put id data =>
      exact .bind (keeps_fds_of_footprint (put_footprint E id data) (by decide) (by decide))
        fun _ => .pure _
  | get | makeObjectId | getDigest | currentPath | currentMode =>
      exact keeps_fds_of_footprint (query_footprint E _ trivial) (by decide) (by decide)

/-- In every reachable state each descriptor field is open or `-1`. -/
theorem reachable_fds {s : Sys σ} (hr : Reachable E s) : FdsNormal s.sync := by
  induction hr with
  | new dir => exact ⟨Int.le_refl (-1), Int.le_refl (-1)⟩
  | exec op _ ih => exact exec_keeps_fds E op _ ih

end Reachable

/-- In every reachable state, a configuration call that fails, whatever the answers of the
calls it makes, leaves the driver record exactly as it was, and every index or store it
created has been released again. -/
theorem failed_setter_undone {s : Sys σ} (hr : Reachable E s) (c : Setter) (e : Fault)
    (hfail : outcome (exec E (.set c)) s = .error e) :
    (after (exec E (.set c)) s).sync = s.sync ∧
      heldIndexes (after (exec E (.set c)) s).log = heldIndexes s.log ∧
      heldStores (after (exec E (.set c)) s).log = heldStores s.log := by
  have hw : Wp (exec E (.set c)) s (fun _ _ => True) fun _ s' => Undone s s' := by
    simp only [exec, Wp.bind_iff, Wp.pure_iff]
    exact setter_undone (reachable_fds E hr) c
  have := (@Wp.outcome_iff σ Reply (exec E (.set c)) s fun o s' =>
    ∀ e, o = .error e → Undone s s').mp (hw.mono (fun _ _ _ _ h => nomatch h) fun _ _ h _ _ => h)
  exact this e hfail

/-- Surroundings in which `ca_store_set_local` fails with `-EIO` and everything else succeeds. -/
def storeRefusedEnv : Env Unit := ⟨fun _ c => match c with
  | .storeSetLocal .. => .error (- EIO)
  | c => c.okRet, noCuts, digestStub⟩

/-- A new store that cannot be set up: `ca_sync_set_store_local` fails with `-EIO` after
creating a store, which it releases again. -/
theorem failed_setter_undone_store_refused :
    (after (exec storeRefusedEnv (.set (.storeLocal (some "store"))))
        (Sys.new storeRefusedEnv .decode)).sync = (Sys.new storeRefusedEnv .decode).sync ∧
      heldIndexes (after (exec storeRefusedEnv (.set (.storeLocal (some "store"))))
        (Sys.new storeRefusedEnv .decode)).log = heldIndexes (Sys.new storeRefusedEnv .decode).log ∧
      heldStores (after (exec storeRefusedEnv (.set (.storeLocal (some "store"))))
        (Sys.new storeRefusedEnv .decode)).log = heldStores (Sys.new storeRefusedEnv .decode).log :=
  failed_setter_undone storeRefusedEnv (.new .decode) _ (.ret (- EIO)) (by decide)

end Casync.Proofs.FailedSetters
