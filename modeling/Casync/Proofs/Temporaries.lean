import Casync.Proofs.Runs
import Casync.Wp
import Casync.Scenarios

/-!
The temporary files of a driver. `ca_sync_start` draws a name with `tempfn_random` and creates
the temporary archive (ENCODE) or the temporary regular-file base (DECODE) under it with
`O_CREAT|O_EXCL`; the end of the stream renames it onto its final path, and `ca_sync_unref`
unlinks what is left. The log is read by a walk that keeps the drawn names and the files
created and not yet renamed or unlinked, and that stops at any rename or unlink of another
file: in every reachable state the walk goes through and its files are exactly the temporary
paths the driver records.
-/

namespace Casync.Proofs.Temporaries

open Casync.Proofs.Frames Casync.Proofs.Runs

variable {σ : Type} (E : Env σ)

/-- The temporary files a driver records: the temporary archive, then the temporary base. -/
def temps (c : CaSync σ) : List String :=
  c.temporaryArchivePath.toList ++ c.temporaryBasePath.toList

/-- One call as the bookkeeping of temporary files sees it. The state holds the names drawn by
`tempfn_random` and the files created exclusively under such a name and neither renamed nor
unlinked since; the walk stops (`none`) at a file created under another name, or at a rename
or an unlink of a file not in the list. -/
def tempStep (st : List String × List String) : Event → Option (List String × List String)
  | ⟨.tempfnRandom _, .ok p⟩ => some (st.1 ++ [p], st.2)
  | ⟨.openFile p (.createExcl _), .ok _⟩ => if p ∈ st.1 then some (st.1, st.2 ++ [p]) else none
  | ⟨.rename a _, .ok ()⟩ => if a ∈ st.2 then some (st.1, st.2.erase a) else none
  | ⟨.rename a _, .error _⟩ => if a ∈ st.2 then some st else none
  | ⟨.unlink a, .ok ()⟩ => if a ∈ st.2 then some (st.1, st.2.erase a) else none
  | ⟨.unlink a, .error _⟩ => if a ∈ st.2 then some st else none
  | _ => some st

/-- The bookkeeping over a whole log. -/
def tempWalk (log : List Event) : Option (List String × List String) :=
  log.foldlM tempStep ([], [])

/-- The calls the bookkeeping looks at. -/
abbrev tempCalls : List CallKind := [.tempfnRandom, .create, .rename, .unlink]

theorem tempStep_other {e : Event} (h : e.call.kind ∉ tempCalls) (st : List String × List String) :
    tempStep st e = some st := by
  rcases e with ⟨c, r⟩
  cases c
  case tempfnRandom => exact absurd (by simp only [Call.kind]; decide) h
  case rename => exact absurd (by simp only [Call.kind]; decide) h
  case unlink => exact absurd (by simp only [Call.kind]; decide) h
  case openFile how => cases how <;> first | rfl | exact absurd (by simp only [Call.kind]; decide) h
  all_goals rfl

theorem foldlM_tempStep_other {Δ : List Event} (h : ∀ e ∈ Δ, e.call.kind ∉ tempCalls) :
    ∀ st, Δ.foldlM tempStep st = some st := by
  induction Δ with
  | nil => exact fun _ => rfl
  | cons e Δ ih =>
      intro st
      rw [List.foldlM_cons, tempStep_other (h e (List.mem_cons_self _ _))]
      exact ih (fun e he => h e (List.mem_cons_of_mem _ he)) st

theorem tempWalk_append (l Δ : List Event) :
    tempWalk (l ++ Δ) = tempWalk l >>= fun st => Δ.foldlM tempStep st := by
  simp [tempWalk, List.foldlM_append]

/-- The temporary-file invariant: the walk goes through, its files are the recorded temporary
paths, a temporary archive belongs to an ENCODE driver whose archive descriptor is open, and a
temporary base to a DECODE driver whose base descriptor is open or already handed to the
decoder. The last two keep `ca_sync_start` from creating a recorded file a second time. -/
structure TempInv (s : Sys σ) : Prop where
  walk : ∃ names, tempWalk s.log = some (names, temps s.sync)
  archive : s.sync.temporaryArchivePath.isSome →
    0 ≤ s.sync.archiveFd ∧ s.sync.direction = .encode
  base : s.sync.temporaryBasePath.isSome →
    (0 ≤ s.sync.baseFd ∨ s.sync.decoder = true) ∧ s.sync.direction = .decode

/-- The fields the invariant does not read. -/
abbrev tempFree : List Field :=
  [.encoder, .wstore, .rstores, .chunker, .basePath, .archivePath, .baseMode, .makePermMode,
    .buffer, .objectDigest, .archiveDigest, .index, .eof]

/-- The descriptors change only while they are closed. -/
def FdsKept (c c' : CaSync σ) : Prop :=
  (c'.archiveFd = c.archiveFd ∨ c.archiveFd < 0) ∧ (c'.baseFd = c.baseFd ∨ c.baseFd < 0)

variable {E} {s s' : Sys σ}

/-- A change that keeps the temporary paths and the direction, makes none of the calls the
walk looks at, and leaves each recorded temporary file with its descriptor open (or, for the
base, handed to the decoder) keeps the invariant. -/
theorem TempInv.frame {K : List CallKind} (h : TempInv s)
    (hO : Only (.archiveFd :: .baseFd :: .decoder :: tempFree) s.sync s'.sync)
    (hA : s.sync.temporaryArchivePath.isSome → 0 ≤ s'.sync.archiveFd)
    (hB : s.sync.temporaryBasePath.isSome → 0 ≤ s'.sync.baseFd ∨ s'.sync.decoder = true)
    (hK : ∀ k ∈ K, k ∉ tempCalls) (hΔ : ∃ Δ, s'.log = s.log ++ Δ ∧ ∀ e ∈ Δ, e.call.kind ∈ K) :
    TempInv s' := by
  obtain ⟨Δ, hlog, hk⟩ := hΔ
  have hta := hO.field CaSync.temporaryArchivePath fun _ => rfl
  have htb := hO.field CaSync.temporaryBasePath fun _ => rfl
  have hdir := hO.field CaSync.direction fun _ => rfl
  obtain ⟨names, hw⟩ := h.walk
  refine ⟨⟨names, ?_⟩, fun ht => ?_, fun ht => ?_⟩
  · rw [hlog, tempWalk_append, hw]
    exact (foldlM_tempStep_other (fun e he => hK _ (hk e he)) _).trans
      (by rw [temps, temps, hta, htb])
  · rw [hta] at ht
    exact ⟨hA ht, hdir.trans (h.archive ht).2⟩
  · rw [htb] at ht
    exact ⟨hB ht, hdir.trans (h.base ht).2⟩

theorem TempInv.frame_fds {K : List CallKind} (h : TempInv s)
    (hO : Only (.archiveFd :: .baseFd :: tempFree) s.sync s'.sync) (hfd : FdsKept s.sync s'.sync)
    (hK : ∀ k ∈ K, k ∉ tempCalls) (hΔ : ∃ Δ, s'.log = s.log ++ Δ ∧ ∀ e ∈ Δ, e.call.kind ∈ K) :
    TempInv s' := by
  have hdec := hO.field CaSync.decoder fun _ => rfl
  refine h.frame (hO.mono (by decide)) (fun ht => ?_) (fun ht => ?_) hK hΔ
  · have := (h.archive ht).1
    rcases hfd.1 with h' | h' <;> omega
  · rcases (h.base ht).1 with h₀ | h₀
    · rcases hfd.2 with h' | h'
      exacts [.inl (h' ▸ h₀), absurd h₀ (by omega)]
    · exact .inr (hdec.trans h₀)

theorem TempInv.after_footprint {K : List CallKind} {F : List Field} {α : Type} {m : SyncM σ α}
    (h : TempInv s) (hm : Footprint K F m) (hK : ∀ k ∈ K, k ∉ tempCalls)
    (hF : F ⊆ .archiveFd :: .baseFd :: .decoder :: tempFree)
    (hA : s.sync.temporaryArchivePath.isSome → 0 ≤ (after m s).sync.archiveFd)
    (hB : s.sync.temporaryBasePath.isSome →
      0 ≤ (after m s).sync.baseFd ∨ (after m s).sync.decoder = true) :
    TempInv (after m s) :=
  h.frame ((hm s).1.mono hF) hA hB hK (hm s).2

theorem TempInv.wp {K : List CallKind} {F : List Field} {α : Type} {m : SyncM σ α}
    (h : TempInv s) (hm : Footprint K F m) (hK : ∀ k ∈ K, k ∉ tempCalls) (hF : F ⊆ tempFree) :
    Wp m s (fun _ => TempInv) fun _ => TempInv := by
  have hO := ((hm s).1.mono hF)
  refine Wp.after_iff.mpr (h.after_footprint hm hK (fun _ hf => .tail _ (.tail _ (.tail _ (hF hf))))
    (fun ht => ?_) fun ht => ?_)
  · rw [hO.field CaSync.archiveFd fun _ => rfl]
    exact (h.archive ht).1
  · rw [hO.field CaSync.baseFd fun _ => rfl, hO.field CaSync.decoder fun _ => rfl]
    exact (h.base ht).1

theorem TempInv.call (h : TempInv s) {c : Call} (hc : c.kind ∉ tempCalls) (r : c.Ret) :
    TempInv { s with log := s.log ++ [⟨c, r⟩] } :=
  h.frame (Only.refl _) (fun ht => (h.archive ht).1) (fun ht => (h.base ht).1)
    (List.forall_mem_singleton.mpr hc) ⟨[⟨c, r⟩], rfl, by simp⟩

theorem TempInv.sync_free (h : TempInv s) {c : CaSync σ} (hc : Only tempFree s.sync c) :
    TempInv { s with sync := c } :=
  h.frame (hc.mono fun _ hf => .tail _ (.tail _ (.tail _ hf)))
    (fun ht => (hc.field CaSync.archiveFd fun _ => rfl) ▸ (h.archive ht).1)
    (fun ht => (hc.field CaSync.baseFd fun _ => rfl) ▸ (hc.field CaSync.decoder fun _ => rfl) ▸
      (h.base ht).1) (by simp : ∀ k ∈ ([] : List CallKind), k ∉ tempCalls) ⟨[], by simp, by simp⟩

theorem tempWalk_created {l : List Event} {names live : List String}
    (hw : tempWalk l = some (names, live)) (target p : String) (perm : UInt32)
    (r : Except Int Nat) :
    tempWalk (l ++ [⟨.tempfnRandom target, .ok p⟩, ⟨.openFile p (.createExcl perm), r⟩]) =
      some (names ++ [p], match r with | .ok _ => live ++ [p] | .error _ => live) := by
  rw [tempWalk_append, hw]
  have hp : p ∈ names ++ [p] := List.mem_append_right _ (List.mem_singleton_self p)
  cases r
  · rfl
  · show ((if p ∈ names ++ [p] then some (names ++ [p], live ++ [p]) else none) >>= pure) = _
    rw [if_pos hp]
    rfl

theorem tempWalk_not_drawn {l : List Event} {names live : List String}
    (hw : tempWalk l = some (names, live)) (target : String) (r : Int) :
    tempWalk (l ++ [⟨.tempfnRandom target, .error r⟩]) = some (names, live) := by
  rw [tempWalk_append, hw]
  rfl

section Create

variable (E)
variable (target : String) (perm : UInt32) (setTmp : Option String → CaSync σ → CaSync σ)
  (setFd : Int → CaSync σ → CaSync σ) (s : Sys σ)

/-- Creating a temporary file with no name yet: a name is drawn and recorded, and the file
created with it; if the creation fails the name is forgotten again and the descriptor
reset, and if the draw fails nothing changes. -/
theorem createTemporary_fresh :
    Wp (createTemporary E target none perm setTmp setFd) s
      (fun _ s' => ∃ (p : String) (fd : Nat), s'.sync = setFd fd (setTmp (some p) s.sync) ∧
        s'.log = s.log ++ [⟨.tempfnRandom target, .ok p⟩, ⟨.openFile p (.createExcl perm), .ok fd⟩])
      fun _ s' => (s'.sync = s.sync ∧ ∃ r, s'.log = s.log ++ [⟨.tempfnRandom target, .error r⟩]) ∨
        ∃ (p : String) (r : Int), s'.sync = setTmp none (setFd (-1) (setTmp (some p) s.sync)) ∧
          s'.log = s.log ++ [⟨.tempfnRandom target, .ok p⟩, ⟨.openFile p (.createExcl perm), .error r⟩] := by
  simp only [createTemporary, Wp.bind_iff, Wp.call_iff, Wp.orFail_iff, Wp.modifySync_iff,
    Wp.pure_iff]
  refine ⟨fun p hp => ?_, fun r hr => .inl ⟨trivial, r, by rw [hr]⟩⟩
  split
  · rename_i fd hfd
    exact ⟨p, fd, rfl, by rw [hfd, hp, List.append_assoc]; rfl⟩
  · rename_i r hr
    exact .inr ⟨p, r, rfl, by rw [hr, hp, List.append_assoc]; rfl⟩

end Create

namespace TempInv

theorem archive_none (h : TempInv s) (hfd : s.sync.archiveFd < 0) :
    s.sync.temporaryArchivePath = none :=
  Option.not_isSome_iff_eq_none.mp fun ht => absurd (h.archive ht).1 (by omega)

theorem base_none (h : TempInv s) (hfd : s.sync.baseFd < 0) (hd : s.sync.decoder = false) :
    s.sync.temporaryBasePath = none :=
  Option.not_isSome_iff_eq_none.mp fun ht => by
    rcases (h.base ht).1 with h' | h'
    · omega
    · simp [hd] at h'

theorem archive_none_of_decode (h : TempInv s) (hd : s.sync.direction = .decode) :
    s.sync.temporaryArchivePath = none :=
  Option.not_isSome_iff_eq_none.mp fun ht => by simpa [hd] using (h.archive ht).2

theorem base_none_of_encode (h : TempInv s) (hd : s.sync.direction = .encode) :
    s.sync.temporaryBasePath = none :=
  Option.not_isSome_iff_eq_none.mp fun ht => by simpa [hd] using (h.base ht).2

theorem of_none {names : List String} (hw : tempWalk s.log = some (names, []))
    (hA : s.sync.temporaryArchivePath = none) (hB : s.sync.temporaryBasePath = none) :
    TempInv s :=
  ⟨⟨names, by rw [hw, temps, hA, hB]; rfl⟩, fun ht => by simp [hA] at ht,
    fun ht => by simp [hB] at ht⟩

end TempInv

theorem startArchive_tempInv (h : TempInv s) :
    Wp (startArchive E) s (fun _ => TempInv) fun _ => TempInv := by
  simp only [startArchive, Wp.bind_iff, Wp.getSync_iff, Wp.ite_iff]
  refine ⟨fun ⟨hd, hfd⟩ => ?_, fun _ => h⟩
  have hA := h.archive_none hfd
  have hB := h.base_none_of_encode hd
  obtain ⟨names, hw⟩ := h.walk
  replace hw : tempWalk s.log = some (names, []) := by rw [hw, temps, hA, hB]; rfl
  split
  · rw [hA]
    refine (createTemporary_fresh E _ _ _ _ s).mono ?_ ?_
    · rintro _ s' ⟨p, fd, hs, hl⟩
      exact ⟨⟨names ++ [p], by rw [hl, tempWalk_created hw]; simp [temps, hs, hB]⟩,
        fun _ => ⟨by rw [hs]; exact Int.ofNat_nonneg fd, by rw [hs]; exact hd⟩,
        fun ht => by simp [hs, hB] at ht⟩
    · rintro _ s' (⟨hs, r, hl⟩ | ⟨p, r, hs, hl⟩)
      · exact .of_none (by rw [hl, tempWalk_not_drawn hw]) (by rw [hs, hA]) (by rw [hs, hB])
      · exact .of_none (by rw [hl, tempWalk_created hw]) (by rw [hs]) (by rw [hs, hB])
  · exact h

theorem startEncoder_tempInv (h : TempInv s) :
    Wp (startEncoder E) s (fun _ => TempInv) fun _ => TempInv := by
  by_cases hg : s.sync.direction = .encode ∧ s.sync.encoder = false
  · have hfd := (startEncoder_footprint E s).1.field CaSync.archiveFd fun _ => rfl
    exact Wp.after_iff.mpr (h.after_footprint (startEncoder_footprint E) (by decide) (by decide)
      (fun ht => hfd ▸ (h.archive ht).1) fun ht => by simp [h.base_none_of_encode hg.1] at ht)
  · simp only [startEncoder, Wp.bind_iff, Wp.getSync_iff, Wp.ite_iff]
    exact ⟨fun h' => absurd h' hg, fun _ => h⟩

theorem openBase_tempInv (h : TempInv s) (hB : s.sync.temporaryBasePath = none) (path : String)
    {how : OpenHow} (hk : (Call.openFile path how).kind ∉ tempCalls) :
    Wp (openInto E path how fun fd s => { s with baseFd := fd }) s
      (fun _ => TempInv) fun _ => TempInv := by
  have hB' : s.sync.temporaryBasePath.isSome → False := by simp [hB]
  simp only [openInto, Wp.bind_iff, Wp.call_iff]
  split <;> simp only [Wp.bind_iff, Wp.modifySync_iff, Wp.fail_iff] <;>
    exact h.frame rfl (fun ht => (h.archive ht).1) (fun ht => (hB' ht).elim)
      (List.forall_mem_singleton.mpr hk) ⟨_, rfl, by simp⟩

/-- A base made from its path while no temporary base is recorded: a directory or a block
device is opened under the path itself, a regular file is created as a fresh temporary. -/
theorem materializeBase_tempInv (h : TempInv s) (hd : s.sync.direction = .decode)
    (hB : s.sync.temporaryBasePath = none) (path : String) :
    Wp (materializeBase E path) s (fun _ => TempInv) fun _ => TempInv := by
  have hA := h.archive_none_of_decode hd
  obtain ⟨names, hw⟩ := h.walk
  replace hw : tempWalk s.log = some (names, []) := by rw [hw, temps, hA, hB]; rfl
  have h₁ := h.call (by simp [Call.kind] : (Call.mkdir path).kind ∉ tempCalls) (E.answer s.log (.mkdir path))
  simp only [materializeBase, assert, Wp.bind_iff, Wp.getSync_iff, Wp.ite_iff, Wp.fail_iff,
    Wp.pure_iff, Wp.throw_iff, Wp.call_iff]
  refine ⟨fun _ => h, fun _ => ⟨fun _ => ?_, fun _ => ⟨fun _ => ?_, fun _ => ⟨fun _ =>
    openBase_tempInv h hB path (by simp [Call.kind]), fun _ => h⟩⟩⟩⟩
  · split <;> simp only [Wp.ite_iff, Wp.bind_iff, Wp.fail_iff, Wp.pure_iff]
    · exact openBase_tempInv h₁ hB path (by simp [Call.kind])
    · exact ⟨fun _ => h₁, fun _ => openBase_tempInv h₁ hB path (by simp [Call.kind])⟩
  · rw [hB]
    refine (createTemporary_fresh E _ _ _ _ s).mono ?_ ?_
    · rintro _ s' ⟨p, fd, hs, hl⟩
      exact ⟨⟨names ++ [p], by rw [hl, tempWalk_created hw]; simp [temps, hs, hA]⟩,
        fun ht => by simp [hs, hA] at ht,
        fun _ => ⟨.inl (by rw [hs]; exact Int.ofNat_nonneg fd), by rw [hs]; exact hd⟩⟩
    · rintro _ s' (⟨hs, r, hl⟩ | ⟨p, r, hs, hl⟩)
      · exact .of_none (by rw [hl, tempWalk_not_drawn hw]) (by rw [hs, hA]) (by rw [hs, hB])
      · exact .of_none (by rw [hl, tempWalk_created hw]) (by rw [hs, hA]) (by rw [hs])

theorem attachDecoder_tempInv (h : TempInv s) :
    Wp (attachDecoder E) s (fun _ => TempInv) fun _ => TempInv := by
  have hflow : Wp (attachDecoder E) s (fun _ s' => s'.sync.decoder = true)
      fun _ s' => s'.sync = s.sync ∨ s'.sync.decoder = true := by
    simp only [attachDecoder, Wp.bind_iff, Wp.call_iff, Wp.ite_iff, Wp.fail_iff, Wp.pure_iff,
      Wp.modifySync_iff, Wp.getSync_iff, Wp.orFail_iff]
    simp
  have hO := (attachDecoder_footprint E).wp s
  refine (hflow.and hO).mono (fun _ s' ⟨hd, hF, hΔ⟩ => ?_) (fun _ s' ⟨hd, hF, hΔ⟩ => ?_) <;>
    refine h.frame (hF.mono (by decide))
      (fun ht => (hF.field CaSync.archiveFd fun _ => rfl) ▸ (h.archive ht).1) (fun ht => ?_)
      (by decide) hΔ
  · exact .inr hd
  · rcases hd with hs | hd
    exacts [hs ▸ (h.base ht).1, .inr hd]

theorem startDecoder_tempInv (h : TempInv s) :
    Wp (startDecoder E) s (fun _ => TempInv) fun _ => TempInv := by
  simp only [startDecoder, Wp.bind_iff, Wp.getSync_iff, Wp.ite_iff, Wp.pure_iff]
  refine ⟨fun ⟨hd, hdec⟩ => ⟨fun hfd => ?_, fun _ => attachDecoder_tempInv h⟩, fun _ => h⟩
  split <;> simp only [Wp.bind_iff, Wp.pure_iff]
  · exact (materializeBase_tempInv h hd (h.base_none hfd hdec) _).mono
      (fun _ _ h₁ => attachDecoder_tempInv h₁) fun _ _ => id
  · exact attachDecoder_tempInv h

theorem start_tempInv (h : TempInv s) : Wp (start E) s (fun _ => TempInv) fun _ => TempInv :=
  Wp.bind_keeps (startArchive_tempInv h) fun _ _ h₁ =>
    Wp.bind_keeps (startEncoder_tempInv h₁) fun _ _ h₂ =>
      Wp.bind_keeps (startDecoder_tempInv h₂) fun _ _ h₃ =>
        h₃.wp (startIndex_footprint E) (by decide) (by decide)

theorem tempWalk_renamed {l : List Event} {names live : List String}
    (hw : tempWalk l = some (names, live)) {a : String} (ha : a ∈ live) (b : String)
    (r : Except Int Unit) :
    tempWalk (l ++ [⟨.rename a b, r⟩]) =
      some (names, match r with | .ok _ => live.erase a | .error _ => live) := by
  rw [tempWalk_append, hw]
  cases r <;> simp [tempStep, ha]

theorem erase_toList_append (o : Option String) (b : String) : (o.toList ++ [b]).erase b = o.toList := by
  cases o with
  | none => simp
  | some a => by_cases hab : a = b <;> simp [List.erase_cons, hab]

theorem installArchive_tempInv (h : TempInv s) :
    Wp (installTemporary E s.sync.temporaryArchivePath s.sync.archivePath
      fun c => { c with temporaryArchivePath := none }) s (fun _ => TempInv) fun _ => TempInv := by
  obtain ⟨names, hw⟩ := h.walk
  unfold installTemporary
  split
  · rename_i a b ha _
    simp only [Wp.bind_iff, Wp.call_iff, Wp.orFail_iff, Wp.modifySync_iff]
    have hlive : a ∈ temps s.sync := by simp [temps, ha]
    refine ⟨fun u hr => ⟨⟨names, ?_⟩, fun ht => by simp at ht, fun ht => (h.base ht)⟩,
      fun r hr => ⟨⟨names, ?_⟩, h.archive, h.base⟩⟩
    · rw [hr, tempWalk_renamed hw hlive]
      simp [temps, ha]
    · rw [hr, tempWalk_renamed hw hlive]
  · exact h

theorem installBase_tempInv (h : TempInv s) :
    Wp (installTemporary E s.sync.temporaryBasePath s.sync.basePath
      fun c => { c with temporaryBasePath := none }) s (fun _ => TempInv) fun _ => TempInv := by
  obtain ⟨names, hw⟩ := h.walk
  unfold installTemporary
  split
  · rename_i a b ha _
    simp only [Wp.bind_iff, Wp.call_iff, Wp.orFail_iff, Wp.modifySync_iff]
    have hlive : a ∈ temps s.sync := by simp [temps, ha]
    refine ⟨fun u hr => ⟨⟨names, ?_⟩, fun ht => (h.archive ht), fun ht => by simp at ht⟩,
      fun r hr => ⟨⟨names, ?_⟩, h.archive, h.base⟩⟩
    · rw [hr, tempWalk_renamed hw hlive]
      simp only [temps, ha, Option.toList_some, Option.toList_none, List.append_nil,
        erase_toList_append]
    · rw [hr, tempWalk_renamed hw hlive]
  · exact h

theorem encodeFinished_tempInv (h : TempInv s) :
    Wp (encodeFinished E) s (fun _ => TempInv) fun _ => TempInv := by
  simp only [encodeFinished, Wp.bind_iff, Wp.getSync_iff]
  refine (installArchive_tempInv h).mono (fun _ s₁ h₁ => ?_) fun _ _ => id
  simp only [Wp.bind_iff, Wp.modifySync_iff, Wp.pure_iff]
  exact (h₁.wp (writeFinalChunk_footprint E) (by decide) (by decide)).mono
    (fun _ _ h₂ => h₂.sync_free rfl) fun _ _ => id

theorem stepEncode_tempInv (h : TempInv s) :
    Wp (stepEncode E) s (fun _ => TempInv) fun _ => TempInv := by
  simp only [stepEncode, abort, Wp.bind_iff, Wp.getSync_iff, Wp.ite_iff, Wp.fail_iff,
    Wp.throw_iff, Wp.call_iff, Wp.orFail_iff]
  have h₁ := h.call (by decide : Call.encoderStep.kind ∉ tempCalls) (E.answer s.log .encoderStep)
  refine ⟨fun _ => h, fun _ => ⟨fun _ => ⟨fun st _ => ?_, fun _ _ => h₁⟩, fun _ => h⟩⟩
  cases st with
  | finished => exact encodeFinished_tempInv h₁
  | nextFile | data =>
      simp only [Wp.bind_iff, Wp.pure_iff]
      exact h₁.wp (encodeData_footprint E) (by decide) (by decide)
  | other => exact h₁

theorem stepDecode_tempInv (h : TempInv s) :
    Wp (stepDecode E) s (fun _ => TempInv) fun _ => TempInv := by
  simp only [stepDecode, Wp.bind_iff, Wp.getSync_iff, Wp.ite_iff, Wp.fail_iff, Wp.call_iff,
    Wp.orFail_iff, Wp.pure_iff]
  have h₁ := h.call (by decide : Call.decoderStep.kind ∉ tempCalls) (E.answer s.log .decoderStep)
  refine ⟨fun _ => h, fun _ => ⟨fun _ => h, fun _ => ⟨fun st _ => ?_, fun _ _ => h₁⟩⟩⟩
  cases st with
  | finished =>
      simp only [decodeFinished, Wp.bind_iff, Wp.getSync_iff, Wp.map_iff, Wp.modifySync_iff,
        Wp.pure_iff]
      exact (installBase_tempInv h₁).mono (fun _ _ h₂ => h₂.sync_free rfl) fun _ _ => id
  | request =>
      simp only [Wp.bind_iff, Wp.pure_iff]
      exact h₁.wp (processDecoderRequest_footprint E) (by decide) (by decide)
  | nextFile | step | payload | other => simp [h₁]

theorem step_tempInv (h : TempInv s) : Wp (step E) s (fun _ => TempInv) fun _ => TempInv := by
  refine Wp.bind_keeps (start_tempInv h) fun _ s₁ h₁ => ?_
  simp only [Wp.bind_iff, Wp.getSync_iff]
  split
  exacts [stepEncode_tempInv h₁, stepDecode_tempInv h₁]

/-- A setter leaves an open base descriptor alone: the two that set it refuse one that is
already open. -/
theorem setter_keeps_open_base (c : Setter) (hfd : 0 ≤ s.sync.baseFd) :
    Wp (c.run E) s (fun _ s' => s'.sync.baseFd = s.sync.baseFd)
      fun _ s' => s'.sync.baseFd = s.sync.baseFd := by
  cases c
  case baseFd =>
    simp only [Setter.run, setBaseFd, Wp.ite_iff, Wp.bind_iff, Wp.fail_iff, Wp.pure_iff,
      Wp.getSync_iff, ge_iff_le, hfd, if_true, ite_self, implies_true, not_true_eq_false,
      false_implies, and_self]
  case basePath path =>
    cases path <;>
    simp only [Setter.run, setBasePath, Wp.ite_iff, Wp.bind_iff, Wp.fail_iff, Wp.pure_iff,
      Wp.getSync_iff, ge_iff_le, hfd, if_true, ite_self, implies_true, not_true_eq_false,
      false_implies, and_self]
  all_goals
    exact ((setter_footprint E _).wp s).mono (fun _ _ h => h.1.field CaSync.baseFd fun _ => rfl)
      fun _ _ h => h.1.field CaSync.baseFd fun _ => rfl

theorem setter_keeps_open_archive (c : Setter) (hfd : 0 ≤ s.sync.archiveFd) :
    Wp (c.run E) s (fun _ s' => s'.sync.archiveFd = s.sync.archiveFd)
      fun _ s' => s'.sync.archiveFd = s.sync.archiveFd := by
  cases c
  case archiveFd =>
    simp only [Setter.run, setArchiveFd, Wp.ite_iff, Wp.bind_iff, Wp.fail_iff, Wp.pure_iff,
      Wp.getSync_iff, ge_iff_le, hfd, if_true, ite_self, implies_true, not_true_eq_false,
      false_implies, and_self]
  case archivePath path =>
    cases path <;>
    simp only [Setter.run, setArchivePath, Wp.ite_iff, Wp.bind_iff, Wp.fail_iff, Wp.pure_iff,
      Wp.getSync_iff, ge_iff_le, hfd, if_true, ite_self, implies_true, not_true_eq_false,
      false_implies, and_self]
  all_goals
    exact ((setter_footprint E _).wp s).mono (fun _ _ h => h.1.field CaSync.archiveFd fun _ => rfl)
      fun _ _ h => h.1.field CaSync.archiveFd fun _ => rfl

theorem setter_fdsKept (c : Setter) : FdsKept s.sync (after (c.run E) s).sync := by
  refine ⟨?_, ?_⟩
  · by_cases hfd : s.sync.archiveFd < 0
    exacts [.inr hfd, .inl (Wp.after_iff.mp (setter_keeps_open_archive c (by omega)))]
  · by_cases hfd : s.sync.baseFd < 0
    exacts [.inr hfd, .inl (Wp.after_iff.mp (setter_keeps_open_base c (by omega)))]

theorem exec_tempInv (op : Op) (h : TempInv s) : TempInv (after (exec E op) s) := by
  cases op
  case set c =>
    rw [exec, after_bind_pure]
    exact h.frame_fds ((setter_footprint E c s).1.mono (List.Subset.trans (setterFields_subset c) (by decide)))
      (setter_fdsKept c) (by decide) (setter_footprint E c s).2
  case step =>
    rw [exec, after_bind_pure]
    exact Wp.after_iff.mp (step_tempInv h)
  case put =>
    rw [exec, after_bind_pure]
    exact Wp.after_iff.mp (h.wp (put_footprint E _ _) (by decide) (by decide))
  all_goals exact Wp.after_iff.mp (h.wp (query_footprint E _ trivial) (by decide) (by decide))

theorem reachable_tempInv (hr : Reachable E s) : TempInv s := by
  induction hr with
  | new dir => exact .of_none rfl rfl rfl
  | exec op _ ih => exact exec_tempInv op ih

theorem tempWalk_unlinked {l : List Event} {names live : List String}
    (hw : tempWalk l = some (names, live)) {a : String} (ha : a ∈ live) (r : Except Int Unit) :
    tempWalk (l ++ [⟨.unlink a, r⟩]) =
      some (names, match r with | .ok _ => live.erase a | .error _ => live) := by
  rw [tempWalk_append, hw]
  cases r <;> simp [tempStep, ha]

/-- What `ca_sync_unref` leaves from `s`: it has unlinked the recorded temporary files, the base
first, and a file is still live only if its unlink failed. -/
def Unlinked (s s' : Sys σ) : Prop :=
  ∃ Δ, s'.log = s.log ++ Δ ∧ Δ.map Event.call = (temps s.sync).reverse.map .unlink ∧
    ∃ names live, tempWalk s'.log = some (names, live) ∧
      ∀ p ∈ live, ∃ r, (⟨.unlink p, .error r⟩ : Event) ∈ Δ

theorem unlinked_one {names : List String} {p : String}
    (hw : tempWalk s.log = some (names, temps s.sync)) (ht : temps s.sync = [p])
    (r : Except Int Unit) : Unlinked s { s with log := s.log ++ [⟨.unlink p, r⟩] } := by
  refine ⟨[⟨.unlink p, r⟩], rfl, by simp [ht], names, _,
    tempWalk_unlinked hw (by simp [ht]) r, ?_⟩
  cases r <;> simp [ht]

/-- `ca_sync_unref` unlinks the one temporary file a driver may hold. -/
theorem unref_unlinks (h : TempInv s) : Unlinked s (after (unref E) s) := by
  obtain ⟨names, hw⟩ := h.walk
  refine Wp.after_iff.mp (?_ : Wp (unref E) s (fun _ => Unlinked s) fun _ => Unlinked s)
  simp only [unref, Wp.bind_iff, Wp.getSync_iff]
  rcases hA : s.sync.temporaryArchivePath with _ | a <;>
    rcases hB : s.sync.temporaryBasePath with _ | b <;>
    simp only [Wp.bind_iff, Wp.call_iff, Wp.pure_iff]
  · exact ⟨[], by simp, by simp [temps, hA, hB], names, [], by rw [hw, temps, hA, hB]; rfl,
      by simp⟩
  · exact unlinked_one hw (by simp [temps, hA, hB]) _
  · exact unlinked_one hw (by simp [temps, hA, hB]) _
  · have hd := (h.archive (by simp [hA])).2
    simp [(h.base (by simp [hB])).2] at hd

/-- In every reachable state the walk over the log goes through: every file the driver created
exclusively was under a name drawn by `tempfn_random`, every rename and every unlink it made
was of such a file not yet moved or removed, and the files created and still in place are
exactly the recorded temporary paths. `ca_sync_unref` unlinks each of them, and a file
survives it only if its unlink failed. -/
theorem temporaries_owned (hr : Reachable E s) :
    (∃ names, tempWalk s.log = some (names, temps s.sync)) ∧ Unlinked s (after (unref E) s) :=
  ⟨(reachable_tempInv hr).walk, unref_unlinks (reachable_tempInv hr)⟩

/-- An ENCODE run to the path `out` whose first step left the temporary archive in place. -/
theorem temporaries_owned_after_first_step :
    (∃ names, tempWalk (runOps (storeDownEnv [1, 2, 3])
        (configure (storeDownEnv [1, 2, 3]) .encode archiveConfig) [.step]).1.log =
        some (names, temps (runOps (storeDownEnv [1, 2, 3])
          (configure (storeDownEnv [1, 2, 3]) .encode archiveConfig) [.step]).1.sync)) ∧
      Unlinked (runOps (storeDownEnv [1, 2, 3])
          (configure (storeDownEnv [1, 2, 3]) .encode archiveConfig) [.step]).1
        (after (unref (storeDownEnv [1, 2, 3])) (runOps (storeDownEnv [1, 2, 3])
          (configure (storeDownEnv [1, 2, 3]) .encode archiveConfig) [.step]).1) :=
  temporaries_owned (runOps_reachable _ _ (configure_reachable _ _ _))

end Casync.Proofs.Temporaries
