import Casync.Proofs.Runs
import Casync.Wp
import Casync.Scenarios

/-!
What configuration establishes before the first `ca_sync_step`: the archive is given either as
a descriptor or as a path, never both, and so is the base, except for its mode.
`ca_sync_set_base_path` does not look at `base_mode`, so in DECODE mode a mode set first
survives a base path that names an existing directory, which is opened at once.
-/

namespace Casync.Proofs.Configure

open Casync.Proofs.Frames Casync.Proofs.Runs

variable {σ : Type} (E : Env σ)

/-- The exclusions configuration keeps: an open archive descriptor has no path, an open base
descriptor has no path, and an ENCODE driver has no base mode. -/
def Exclusive (c : CaSync σ) : Prop :=
  (0 ≤ c.archiveFd → c.archivePath = none) ∧ (0 ≤ c.baseFd → c.basePath = none) ∧
    (c.direction = .encode → c.baseMode = modeUnset)

namespace Exclusive

variable {c : CaSync σ}

theorem baseFd_set (h : Exclusive c) (hp : c.basePath = none) (fd : Int) :
    Exclusive { c with baseFd := fd } :=
  ⟨h.1, fun _ => hp, h.2.2⟩

theorem baseFd_closed (h : Exclusive c) : Exclusive { c with baseFd := -1 } :=
  ⟨h.1, fun h' => absurd h' (by decide : ¬(0 : Int) ≤ -1), h.2.2⟩

theorem basePath_set (h : Exclusive c) (hfd : c.baseFd < 0) (p : String) :
    Exclusive { c with basePath := some p } :=
  ⟨h.1, fun h' => absurd hfd (Int.not_lt.mpr h'), h.2.2⟩

theorem archiveFd_set (h : Exclusive c) (hp : c.archivePath = none) (fd : Int) :
    Exclusive { c with archiveFd := fd } :=
  ⟨fun _ => hp, h.2⟩

theorem archiveFd_closed (h : Exclusive c) : Exclusive { c with archiveFd := -1 } :=
  ⟨fun h' => absurd h' (by decide : ¬(0 : Int) ≤ -1), h.2⟩

theorem archivePath_set (h : Exclusive c) (hfd : c.archiveFd < 0) (p : String) :
    Exclusive { c with archivePath := some p } :=
  ⟨fun h' => absurd hfd (Int.not_lt.mpr h'), h.2⟩

theorem baseMode_set (h : Exclusive c) (hd : c.direction ≠ .encode) (m : UInt32) :
    Exclusive { c with baseMode := m } :=
  ⟨h.1, h.2.1, fun h' => absurd h' hd⟩

/-- The fields it reads. -/
theorem of_only {c' : CaSync σ} (h : Exclusive c) (hO : Only [.index, .makePermMode, .wstore, .rstores] c c') :
    Exclusive c' := by
  rw [Exclusive, hO.field CaSync.archiveFd fun _ => rfl, hO.field CaSync.archivePath fun _ => rfl,
    hO.field CaSync.baseFd fun _ => rfl, hO.field CaSync.basePath fun _ => rfl,
    hO.field CaSync.direction fun _ => rfl, hO.field CaSync.baseMode fun _ => rfl]
  exact h

end Exclusive

section Setters

variable {s : Sys σ}

theorem setBaseFd_exclusive (h : Exclusive s.sync) (fd : Int) :
    Wp (setBaseFd fd) s (fun _ s' => Exclusive s'.sync) fun _ s' => Exclusive s'.sync := by
  simp only [setBaseFd, Wp.bind_iff, Wp.getSync_iff, Wp.ite_iff, Wp.fail_iff, Wp.pure_iff,
    Wp.modifySync_iff]
  exact ⟨fun _ => h, fun _ => ⟨fun _ => h, fun _ => ⟨fun _ => h, fun _ => ⟨fun _ => h,
    fun hp => h.baseFd_set (by simpa using hp) fd⟩⟩⟩⟩

theorem setBasePath_exclusive (h : Exclusive s.sync) (path : Option String) :
    Wp (setBasePath E path) s (fun _ s' => Exclusive s'.sync) fun _ s' => Exclusive s'.sync := by
  rcases path with _ | p
  · exact h
  simp only [setBasePath, Wp.bind_iff, Wp.getSync_iff, Wp.ite_iff, Wp.fail_iff, Wp.pure_iff,
    Wp.call_iff]
  refine ⟨fun _ => h, fun hfd => ⟨fun _ => h, fun hp => ?_⟩⟩
  have hp : s.sync.basePath = none := by simpa using hp
  split
  next => exact h.baseFd_set hp _
  next =>
    simp only [Wp.bind_iff, Wp.modifySync_iff]
    split
    next =>
      simp only [Wp.ite_iff, Wp.bind_iff, Wp.fail_iff, Wp.pure_iff, Wp.call_iff]
      refine ⟨fun _ => h.baseFd_closed, fun _ => ?_⟩
      split
      next => exact h.baseFd_set hp _
      next => simpa only [Wp.bind_iff, Wp.modifySync_iff, Wp.fail_iff] using h.baseFd_closed
    next =>
      simp only [Wp.ite_iff, Wp.bind_iff, Wp.fail_iff, Wp.pure_iff, Wp.call_iff,
        Wp.modifySync_iff]
      exact ⟨fun _ => h.baseFd_closed, fun _ => h.baseFd_closed.basePath_set (by decide : (-1 : Int) < 0) p⟩

theorem setBaseMode_exclusive (h : Exclusive s.sync) (m : UInt32) :
    Wp (setBaseMode m) s (fun _ s' => Exclusive s'.sync) fun _ s' => Exclusive s'.sync := by
  simp only [setBaseMode, Wp.bind_iff, Wp.getSync_iff, Wp.ite_iff, Wp.fail_iff, Wp.pure_iff,
    Wp.modifySync_iff]
  exact ⟨fun _ => h, fun _ => ⟨fun _ => h, fun _ => ⟨fun _ => h, fun hd => ⟨fun _ => h,
    fun _ => ⟨fun _ => h, fun _ => h.baseMode_set hd m⟩⟩⟩⟩⟩

theorem setArchiveFd_exclusive (h : Exclusive s.sync) (fd : Int) :
    Wp (setArchiveFd fd) s (fun _ s' => Exclusive s'.sync) fun _ s' => Exclusive s'.sync := by
  simp only [setArchiveFd, Wp.bind_iff, Wp.getSync_iff, Wp.ite_iff, Wp.fail_iff, Wp.pure_iff,
    Wp.modifySync_iff]
  exact ⟨fun _ => h, fun _ => ⟨fun _ => h, fun _ => ⟨fun _ => h,
    fun hp => h.archiveFd_set (by simpa using hp) fd⟩⟩⟩

theorem setArchivePath_exclusive (h : Exclusive s.sync) (path : Option String) :
    Wp (setArchivePath E path) s (fun _ s' => Exclusive s'.sync) fun _ s' => Exclusive s'.sync := by
  rcases path with _ | p
  · exact h
  simp only [setArchivePath, Wp.bind_iff, Wp.getSync_iff, Wp.ite_iff, Wp.fail_iff, Wp.pure_iff]
  refine ⟨fun _ => h, fun hfd => ⟨fun _ => h, fun hp => ?_⟩⟩
  split
  next =>
    simp only [Wp.bind_iff, Wp.call_iff, Wp.ite_iff, Wp.fail_iff, Wp.pure_iff, Wp.modifySync_iff]
    exact ⟨fun _ => h, fun _ => h.archivePath_set (Int.not_le.mp hfd) p⟩
  next =>
    simp only [Wp.bind_iff, Wp.call_iff]
    split
    next => exact h.archiveFd_set (by simpa using hp) _
    next => simpa only [Wp.bind_iff, Wp.modifySync_iff, Wp.fail_iff] using h.archiveFd_closed

/-- Every configuration call keeps the exclusions, whatever its outcome. -/
theorem setter_exclusive (c : Setter) (h : Exclusive s.sync) :
    Wp (c.run E) s (fun _ s' => Exclusive s'.sync) fun _ s' => Exclusive s'.sync := by
  cases c
  case baseFd fd => exact setBaseFd_exclusive h fd
  case basePath path => exact setBasePath_exclusive E h path
  case baseMode m => exact setBaseMode_exclusive h m
  case archiveFd fd => exact setArchiveFd_exclusive h fd
  case archivePath path => exact setArchivePath_exclusive E h path
  all_goals
    exact ((setter_footprint E _).wp s).mono
      (fun _ _ hO => h.of_only (hO.1.mono (by simp [setterFields])))
      fun _ _ hO => h.of_only (hO.1.mono (by simp [setterFields]))

end Setters

/-- A configured driver has its archive as a descriptor or as a path, never both, and its base
as a descriptor or as a path; an ENCODE driver has no base mode. A DECODE driver can have a
base mode next to an open base descriptor. -/
theorem configured_exclusive (dir : CaDirection) (cfg : List Setter) :
    Exclusive (configure E dir cfg).sync :=
  @configure_invariant σ E (fun s => Exclusive s.sync) dir cfg
    ⟨fun h => absurd h (by decide : ¬(0 : Int) ≤ -1), fun h => absurd h (by decide : ¬(0 : Int) ≤ -1),
      fun _ => rfl⟩ fun s c h => by
      rw [exec, after_bind_pure]
      exact Wp.after_iff.mp (setter_exclusive E c h)

/-- A DECODE driver given the mode of a directory and then the path of an existing one: the
path is opened at once, and the descriptor sits next to the mode. -/
theorem base_mode_beside_base_fd :
    0 ≤ (configure emptyEnv .decode [.baseMode S_IFDIR, .basePath (some "base")]).sync.baseFd ∧
      (configure emptyEnv .decode [.baseMode S_IFDIR, .basePath (some "base")]).sync.baseMode =
        S_IFDIR := by
  decide

end Casync.Proofs.Configure
