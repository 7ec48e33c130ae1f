import Casync.Proofs.ChunkPartition
import Casync.Scenarios

/-!
What an ENCODE run writes to its archive and feeds to the archive digest. While every step
succeeds, the archive descriptor receives exactly the concatenation of the slices the encoder
returned (once it is open, which happens at the first step when the archive is given as a
path) and the archive digest has absorbed exactly those bytes, whatever the chunker, the store
and the index do. `ca_sync_get_digest` after the end then returns SHA-256 of them, unless the
hasher was never opened during the run and `md_open` fails there.
-/

namespace Casync.Proofs.ArchiveDigest

open Casync.Proofs.Frames Casync.Proofs.EncodeSpec Casync.Proofs.Runs
  Casync.Proofs.ChunkPartition Casync.Proofs.Slices

variable {σ : Type} (E : Env σ)

section Start

variable (s : Sys σ)

theorem createTemporary_ok (target : String) (tmp : Option String) (perm : UInt32)
    (setTmp : Option String → CaSync σ → CaSync σ) (setFd : Int → CaSync σ → CaSync σ) :
    OnOk (createTemporary E target tmp perm setTmp setFd) s fun _ s' =>
      ∃ (fd : Nat) (sync : CaSync σ), s'.sync = setFd fd sync := by
  unfold createTemporary
  cases tmp <;> simp only [OnOk.bind_iff, OnOk.call_iff, OnOk.orFail_iff, OnOk.modifySync_iff,
    OnOk.pure_iff]
  · intro t _
    split <;> simp
    exact ⟨_, _, rfl⟩
  · split <;> simp
    exact ⟨_, _, rfl⟩

/-- The archive block of `ca_sync_start` leaves the descriptor alone, or opens the
temporary file of an archive given as a path; an ENCODE archive path is open after it. -/
theorem startArchive_ok : OnOk (startArchive E) s fun _ s' =>
    (s'.sync.archiveFd = s.sync.archiveFd ∨
      s.sync.archiveFd < 0 ∧ s.sync.archivePath.isSome ∧ 0 ≤ s'.sync.archiveFd) ∧
    (s.sync.direction = .encode → s.sync.archivePath.isSome → 0 ≤ s'.sync.archiveFd) := by
  simp only [startArchive, OnOk.bind_iff, OnOk.getSync_iff, OnOk.ite_iff]
  refine ⟨fun h => ?_, fun h => ?_⟩
  · cases hp : s.sync.archivePath with
    | none => simp
    | some path =>
        refine (createTemporary_ok E s _ _ _ _ _).mono ?_
        rintro _ s' ⟨fd, _, h'⟩
        simp only [h', Option.isSome_some, true_and, true_implies]
        omega
  · simp only [OnOk.pure_iff, true_or, true_and]
    intro hd _
    simp only [hd, true_and] at h
    omega

theorem start_archive : OnOk (start E) s fun _ s' =>
    Only startFields s.sync s'.sync ∧ Grows s.log s'.log [] [] [] [] ∧
    (s'.sync.archiveFd = s.sync.archiveFd ∨
      s.sync.archiveFd < 0 ∧ s.sync.archivePath.isSome ∧ 0 ≤ s'.sync.archiveFd) ∧
    (s.sync.direction = .encode → s.sync.archivePath.isSome → 0 ≤ s'.sync.archiveFd) := by
  refine (OnOk.and (Footprint.quiet (start_footprint E) (by decide) s) ?_).mono
    fun _ _ ⟨⟨hF, hg⟩, h⟩ => ⟨hF, hg, h⟩
  have hrest : Footprint startCalls [.encoder, .baseFd, .temporaryBasePath, .decoder]
      (do startEncoder E; startDecoder E; startIndex E) :=
    .bind ((startEncoder_footprint E).mono (by decide) (by decide)) fun _ =>
      .bind ((startDecoder_footprint E).mono (by decide) (by decide)) fun _ =>
        (startIndex_footprint E).mono (by decide) (by decide)
  unfold start
  rw [OnOk.bind_iff]
  refine (startArchive_ok E s).mono fun _ s₁ h₁ => (hrest.onOk s₁).mono ?_
  rintro _ s' ⟨hF, -⟩
  rw [hF.field CaSync.archiveFd fun _ => rfl]
  exact h₁

end Start

theorem getDigest_keeps (s : Sys σ) :
    (after (getDigest E) s).sync.archiveDigest.getD [] = s.sync.archiveDigest.getD [] := by
  unfold after getDigest
  cases he : s.sync.eof
  · simp [run_bind, he]
  cases hd : s.sync.archiveDigest
  · cases hm : E.answer s.log .mdOpen <;> simp [allocateArchiveDigest, run_bind, run_map, he, hd, hm]
  · simp [allocateArchiveDigest, run_bind, run_map, he, hd]

/-- `ca_sync_get_digest` once `eof` is latched: SHA-256 of what the archive digest has
absorbed, unless the hasher was never opened and `md_open` fails now. -/
theorem getDigest_outcome (s : Sys σ) (he : s.sync.eof = true) :
    outcome (getDigest E) s =
      if s.sync.archiveDigest.isNone && !E.answer s.log .mdOpen then
        .error (.ret (- EIO))
      else .ok (E.sha256 (s.sync.archiveDigest.getD [])) := by
  unfold outcome getDigest
  cases hd : s.sync.archiveDigest
  · cases hm : E.answer s.log .mdOpen <;> simp [allocateArchiveDigest, run_bind, run_map, he, hd, hm]
  · simp [allocateArchiveDigest, run_bind, run_map, he, hd]

/-- No query changes what the archive digest has absorbed. -/
theorem query_keeps_digest {op : Op} (hq : IsQuery op) (s : Sys σ) :
    (after (exec E op) s).sync.archiveDigest.getD [] = s.sync.archiveDigest.getD [] := by
  cases op <;> simp only [IsQuery] at hq <;> simp only [exec, after_bind_pure]
  · rw [((get_footprint E _) s).1.field CaSync.archiveDigest fun _ => rfl]
  · rw [((makeObjectId_footprint E _) s).1.field CaSync.archiveDigest fun _ => rfl]
  · exact getDigest_keeps E s
  · rw [((currentPath_footprint E) s).1.field CaSync.archiveDigest fun _ => rfl]
  · rw [((currentMode_footprint E) s).1.field CaSync.archiveDigest fun _ => rfl]

/-- The archive invariant of an ENCODE run: the digest has absorbed the stream, the
archive descriptor has received it once open, and an archive given as a path is still
unopened only while the stream is empty. -/
structure ArchiveInv (s : Sys σ) : Prop where
  direction : s.sync.direction = .encode
  digest : s.sync.archiveDigest.getD [] = stream s.log
  archive : archived s.log = if s.sync.archiveFd < 0 then [] else stream s.log
  unopened : s.sync.archiveFd < 0 → s.sync.archivePath = none ∨ stream s.log = []

/-- The fields the archive invariant does not read. -/
abbrev archiveFree : List Field :=
  [.encoder, .decoder, .wstore, .rstores, .chunker, .baseFd, .basePath, .temporaryBasePath,
    .temporaryArchivePath, .baseMode, .makePermMode, .buffer, .objectDigest, .index, .eof]

variable {E} {s s' : Sys σ}

theorem ArchiveInv.frame (h : ArchiveInv s) (hF : Only (.archiveDigest :: archiveFree) s.sync s'.sync)
    (hd : s'.sync.archiveDigest.getD [] = s.sync.archiveDigest.getD [])
    {ps : List (Option String × ObjectId × Bytes)} {iw : List (ObjectId × Nat)}
    (hg : Grows s.log s'.log [] ps iw []) : ArchiveInv s' := by
  obtain ⟨hst, -, -, har⟩ := hg
  simp only [List.append_nil] at hst har
  have hfd := hF.field CaSync.archiveFd fun _ => rfl
  have hp := hF.field CaSync.archivePath fun _ => rfl
  refine ⟨(hF.field CaSync.direction fun _ => rfl).trans h.direction, ?_, ?_, ?_⟩
  · rw [hd, hst, h.digest]
  · rw [har, hst, hfd, h.archive]
  · rw [hfd, hp, hst]
    exact h.unopened

/-- After a successful `ca_sync_start` the invariant holds and an ENCODE archive path is
open. -/
theorem start_archiveInv (h : ArchiveInv s) : OnOk (start E) s fun _ s' =>
    ArchiveInv s' ∧ (s'.sync.archiveFd < 0 → s'.sync.archivePath = none) := by
  refine (start_archive E s).mono ?_
  rintro _ s' ⟨hF, hg, hfd, hopen⟩
  obtain ⟨hst, -, -, har⟩ := hg
  simp only [List.append_nil] at hst har
  have hdir := (hF.field CaSync.direction fun _ => rfl).trans h.direction
  have hp := hF.field CaSync.archivePath fun _ => rfl
  have hd := hF.field CaSync.archiveDigest fun _ => rfl
  have hopen' : s'.sync.archiveFd < 0 → s'.sync.archivePath = none := by
    intro hlt
    rw [hp]
    cases hpath : s.sync.archivePath
    · rfl
    · have := hopen h.direction (by simp [hpath])
      omega
  refine ⟨⟨hdir, by rw [hd, hst, h.digest], ?_, fun hlt => .inl (hopen' hlt)⟩, hopen'⟩
  rw [har, hst, h.archive]
  rcases hfd with hfd | ⟨hlt, hsome, hge⟩
  · rw [hfd]
  · have hnil : stream s.log = [] := by
      rcases h.unopened hlt with hn | hn
      · simp [hn] at hsome
      · exact hn
    simp [hnil]

theorem encodeData_archiveInv (h : ArchiveInv s)
    (hopen : s.sync.archiveFd < 0 → s.sync.archivePath = none) :
    OnOk (encodeData E) s fun _ s' => ArchiveInv s' := by
  refine (encodeData_ok E s).mono ?_
  rintro _ s' ⟨p, hF, hd, -, -, hst, -, -, har⟩
  have hfd := hF.field CaSync.archiveFd fun _ => rfl
  have hp := hF.field CaSync.archivePath fun _ => rfl
  refine ⟨(hF.field CaSync.direction fun _ => rfl).trans h.direction, ?_, ?_, ?_⟩
  · rw [hd, hst, Option.getD_some, h.digest]
  · rw [har, hst, hfd, h.archive]
    split <;> simp
  · rw [hfd, hp]
    exact fun hlt => .inl (hopen hlt)

theorem stepEncode_archiveInv (h : ArchiveInv s)
    (hopen : s.sync.archiveFd < 0 → s.sync.archivePath = none) :
    OnOk (stepEncode E) s fun _ s' => ArchiveInv s' := by
  simp only [stepEncode, abort, OnOk.bind_iff, OnOk.getSync_iff, OnOk.ite_iff, OnOk.call_iff,
    OnOk.orFail_iff, OnOk.throw_true, OnOk.fail_true, OnOk.pure_iff, implies_true, true_and,
    and_true]
  intro _ _ st _
  have h₁ : ArchiveInv { s with log := s.log ++ [⟨.encoderStep, E.answer s.log .encoderStep⟩] } :=
    h.frame (Only.refl _) rfl (grows_of_quiet (by simp; decide) s.log)
  cases st with
  | finished =>
      refine (encodeFinished_ok E _).mono ?_
      rintro _ s' ⟨-, -, hF, hd, hg⟩
      exact h₁.frame (hF.mono (by decide)) hd hg
  | nextFile | data =>
      simp only [OnOk.bind_iff, OnOk.pure_iff]
      exact encodeData_archiveInv h₁ hopen
  | other => exact OnOk.throw_true

theorem step_archiveInv (h : ArchiveInv s) : OnOk (step E) s fun _ s' => ArchiveInv s' := by
  simp only [step, OnOk.bind_iff]
  refine (start_archiveInv h).mono ?_
  rintro _ s₁ ⟨h₁, hopen⟩
  simp only [OnOk.getSync_iff, h₁.direction]
  exact stepEncode_archiveInv h₁ hopen

theorem exec_archiveInv (h : ArchiveInv s) {op : Op}
    (hop : Drives op (outcome (exec E op) s)) : ArchiveInv (after (exec E op) s) := by
  obtain ⟨rfl | hq, hok⟩ := hop
  · obtain ⟨r, hr⟩ := hok rfl
    have h' : OnOk (exec E .step) s fun _ s' => ArchiveInv s' := by
      simp only [exec, OnOk.bind_iff, OnOk.pure_iff]
      exact step_archiveInv h
    exact h'.of_outcome hr
  · obtain ⟨hF, hg⟩ := Footprint.quiet_after (query_footprint E op hq) (by decide) s
    exact h.frame (hF.mono (by decide)) (query_keeps_digest E hq s) hg

theorem configure_archiveInv (cfg : List Setter) : ArchiveInv (configure E .encode cfg) := by
  obtain ⟨hF, hst, -, -, har⟩ := configure_frame E .encode cfg
  simp only [stream_nil, archived_nil, List.nil_append] at hst har
  refine ⟨hF.field CaSync.direction fun _ => rfl, ?_, by simp [har, hst], fun _ => .inr hst⟩
  rw [hst, hF.field CaSync.archiveDigest fun _ => rfl]
  rfl

/-- In an ENCODE run configured by `cfg` and then driven by steps that all succeed and by
any queries, the encoder returned the slices `ds`, each handed out and read once, in order.
The archive digest has absorbed exactly their concatenation; the archive descriptor has
received exactly those bytes once it is open, and an archive given as a path is unopened only
while they are empty; and once a step has reported `CA_SYNC_FINISHED`, `ca_sync_get_digest`
returns SHA-256 of them, unless the hasher was never opened during the run and `md_open`
fails, when it returns `-EIO`. -/
theorem archive_digest_absorbs_stream (cfg : List Setter) (ops : List Op) (s : Sys σ)
    (outs : List (Op × Except Fault Reply))
    (hrun : runOps E (configure E .encode cfg) ops = (s, outs))
    (hops : ∀ op ∈ ops, op = .step ∨ IsQuery op)
    (hok : ∀ o ∈ outs, o.1 = .step → ∃ r, o.2 = .ok r) :
    ∃ ds : List Bytes, offered E.answer [] s.log = ds.map .ok ∧ stream s.log = ds.flatten ∧
      s.sync.archiveDigest.getD [] = ds.flatten ∧
      archived s.log = (if s.sync.archiveFd < 0 then [] else ds.flatten) ∧
      (s.sync.archiveFd < 0 → s.sync.archivePath = none ∨ ds.flatten = []) ∧
      ((Op.step, .ok (.status .finished)) ∈ outs →
        outcome (getDigest E) s =
          if s.sync.archiveDigest.isNone && !E.answer s.log .mdOpen then .error (.ret (- EIO))
          else .ok (E.sha256 ds.flatten)) := by
  obtain ⟨ds, hoff, hds⟩ := runOps_served E hrun hops hok
  have hgood := runOps_drives E hrun hops hok
  have hinv := runOps_invariant E (fun _ _ h hop => exec_archiveInv h hop)
    (configure_archiveInv cfg) hgood
  rw [hrun] at hinv
  refine ⟨ds, hoff, hds, ?_⟩
  rw [← hds]
  refine ⟨hinv.digest, hinv.archive, hinv.unopened, fun hfin => ?_⟩
  rw [getDigest_outcome E s (runOps_eof E hrun hgood hfin), hinv.digest]

/-- An ENCODE run with the archive path `out` whose encoder hands out `[1, 2, 3]` and finishes,
in two steps. -/
def archivedRun : Sys Unit × List (Op × Except Fault Reply) :=
  runOps (sliceEnv [1, 2, 3]) (configure (sliceEnv [1, 2, 3]) .encode
    [.baseFd 5, .archivePath (some "out")]) [.step, .step]

theorem archive_digest_absorbs_stream_once :
    ∃ ds : List Bytes, offered (sliceEnv [1, 2, 3]).answer [] archivedRun.1.log = ds.map .ok ∧
      archivedRun.1.sync.archiveDigest.getD [] = ds.flatten := by
  have hr : archivedRun.2 = [(.step, .ok (.status .step)), (.step, .ok (.status .finished))] := by
    decide
  obtain ⟨ds, hoff, -, hd, -⟩ := archive_digest_absorbs_stream (E := sliceEnv [1, 2, 3])
    [.baseFd 5, .archivePath (some "out")] [.step, .step] archivedRun.1 archivedRun.2
    Prod.mk.eta.symm (by simp) (by rw [hr]; simp)
  exact ⟨ds, hoff, hd⟩

/-- Surroundings in which `md_open` fails and everything else succeeds; the encoder finishes at
once. -/
def hasherDownEnv : Env Unit := ⟨fun _ c => match c with
  | .mdOpen => false
  | c => c.okRet, noCuts, digestStub⟩

/-- With the hasher down, a run whose encoder finishes at once reaches `CA_SYNC_FINISHED`,
and `ca_sync_get_digest` then fails with `-EIO`. -/
theorem getDigest_fails_after_finished :
    (runOps hasherDownEnv (configure hasherDownEnv .encode [.baseFd 5]) [.step]).2 =
        [(.step, .ok (.status .finished))] ∧
      outcome (getDigest hasherDownEnv)
          (runOps hasherDownEnv (configure hasherDownEnv .encode [.baseFd 5]) [.step]).1 =
        .error (.ret (- EIO)) := by
  decide

end Casync.Proofs.ArchiveDigest
