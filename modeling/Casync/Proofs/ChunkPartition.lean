import Casync.Proofs.Slices
import Casync.Scenarios

/-!
The chunks an ENCODE run hands to its writable store partition the concatenation of the
slices its encoder returned. While the run goes on, the puts are the completed cuts of the
bytes read so far and the pending buffer with the chunker's state is what `Chunker.cuts`
leaves after them; the final step adds the non-empty tail. Each chunk is stored under its
SHA-256 and, with an index, recorded with its size, in the same order.
-/

namespace Casync.Proofs.ChunkPartition

open Casync.Proofs.Frames Casync.Proofs.EncodeSpec Casync.Proofs.Runs Casync.Proofs.Slices

variable {σ : Type} (E : Env σ)

/-- The chunks stored so far: the completed cuts of the stream while the run goes on, all
of its payloads once `eof` is latched. -/
def stored (s : Sys σ) : List Bytes :=
  if s.sync.eof then E.chunker.payloads (stream s.log)
  else (E.chunker.cuts E.chunker.init [] (stream s.log)).1

/-- The chunking invariant of an ENCODE run with writable store `w` and index flag `ix`. -/
structure ChunkInv (w : String) (ix : Bool) (s : Sys σ) : Prop where
  direction : s.sync.direction = .encode
  wstore : s.sync.wstore = some w
  index : s.sync.index = ix
  pending : s.sync.eof = false →
    s.sync.buffer = (E.chunker.cuts E.chunker.init [] (stream s.log)).2.1 ∧
      s.sync.chunker = (E.chunker.cuts E.chunker.init [] (stream s.log)).2.2
  puts : puts s.log = chunkPuts E (some w) (stored E s)
  indexWrites : indexWrites s.log = chunkIndex E ix (stored E s)

/-- The fields the chunking invariant does not read. -/
abbrev chunkFree : List Field :=
  [.encoder, .decoder, .rstores, .baseFd, .archiveFd, .basePath, .archivePath,
    .temporaryBasePath, .temporaryArchivePath, .baseMode, .makePermMode, .objectDigest,
    .archiveDigest]

variable {E} {w : String} {ix : Bool} {s s' : Sys σ}

/-- What changes only fields the invariant does not read, and adds nothing to the stream,
the puts or the index records, keeps it. -/
theorem ChunkInv.frame (h : ChunkInv E w ix s) (hF : Only chunkFree s.sync s'.sync) {ar : Bytes}
    (hg : Grows s.log s'.log [] [] [] ar) : ChunkInv E w ix s' := by
  obtain ⟨hst, hpu, hiw, -⟩ := hg
  have he := hF.field CaSync.eof fun _ => rfl
  have hb := hF.field CaSync.buffer fun _ => rfl
  have hc := hF.field CaSync.chunker fun _ => rfl
  simp only [List.append_nil] at hst hpu hiw
  refine ⟨(hF.field CaSync.direction fun _ => rfl).trans h.direction,
    (hF.field CaSync.wstore fun _ => rfl).trans h.wstore,
    (hF.field CaSync.index fun _ => rfl).trans h.index, ?_, ?_, ?_⟩
  · rw [he, hb, hc, hst]
    exact h.pending
  · rw [hpu, h.puts, stored, stored, he, hst]
  · rw [hiw, h.indexWrites, stored, stored, he, hst]

/-- A slice of the encoder's output extends the cuts: the chunks it completes are stored,
and the buffer and chunker follow the longer stream. -/
theorem encodeData_chunkInv (h : ChunkInv E w ix s) (heof : s.sync.eof = false) :
    OnOk (encodeData E) s fun _ s' => ChunkInv E w ix s' ∧ s'.sync.eof = false := by
  refine (encodeData_ok E s).mono ?_
  rintro _ s' ⟨p, hF, -, hb, hc, hst, hpu, hiw, -⟩
  have hsplit : chunkSplit E s.sync p = E.chunker.cuts s.sync.chunker s.sync.buffer p := by
    simp [chunkSplit, h.wstore]
  have hpend := h.pending heof
  have he : s'.sync.eof = false := (hF.field CaSync.eof fun _ => rfl).trans heof
  have hcut := E.chunker.cuts_append E.chunker.init [] (stream s.log) p
  rw [← hpend.1, ← hpend.2] at hcut
  refine ⟨⟨(hF.field CaSync.direction fun _ => rfl).trans h.direction,
    (hF.field CaSync.wstore fun _ => rfl).trans h.wstore,
    (hF.field CaSync.index fun _ => rfl).trans h.index, fun _ => ?_, ?_, ?_⟩, he⟩
  · rw [hb, hc, hsplit, hst, hcut]
    exact ⟨rfl, rfl⟩
  · rw [hpu, h.puts, stored, stored, heof, he, hst, hcut, hsplit, h.wstore]
    simp
  · rw [hiw, h.indexWrites, stored, stored, heof, he, hst, hcut, hsplit, h.index]
    simp

/-- The end of the stream stores the pending tail, if any, so that the stored chunks
become all payloads of the stream. -/
theorem encodeFinished_chunkInv (h : ChunkInv E w ix s) (heof : s.sync.eof = false) :
    OnOk (encodeFinished E) s fun _ s' => ChunkInv E w ix s' := by
  refine (encodeFinished_ok E s).mono ?_
  rintro _ s' ⟨-, he, hF, -, hst, hpu, hiw, -⟩
  have hpend := h.pending heof
  have hfinal : finalChunk s.sync = if (E.chunker.cuts E.chunker.init [] (stream s.log)).2.1 = []
      then [] else [(E.chunker.cuts E.chunker.init [] (stream s.log)).2.1] := by
    simp [finalChunk, h.wstore, hpend.1]
  simp only [List.append_nil] at hst
  refine ⟨(hF.field CaSync.direction fun _ => rfl).trans h.direction,
    (hF.field CaSync.wstore fun _ => rfl).trans h.wstore,
    (hF.field CaSync.index fun _ => rfl).trans h.index, fun h' => absurd he (by simp [h']),
    ?_, ?_⟩
  · rw [hpu, h.puts, stored, stored, heof, he, hst, hfinal, h.wstore, Chunker.payloads]
    simp
  · rw [hiw, h.indexWrites, stored, stored, heof, he, hst, hfinal, h.index, Chunker.payloads]
    simp

/-- A quiet call, whatever it returns, keeps the invariant. -/
theorem ChunkInv.call (h : ChunkInv E w ix s) {c : Call} (hc : Quiet c.kind) (r : c.Ret) :
    ChunkInv E w ix { s with log := s.log ++ [⟨c, r⟩] } :=
  h.frame (Only.refl _) (grows_of_quiet (by simpa using hc) s.log)

theorem stepEncode_chunkInv (h : ChunkInv E w ix s) :
    OnOk (stepEncode E) s fun _ s' => ChunkInv E w ix s' := by
  simp only [stepEncode, abort, OnOk.bind_iff, OnOk.getSync_iff, OnOk.ite_iff, OnOk.call_iff,
    OnOk.orFail_iff, OnOk.throw_true, OnOk.fail_true, OnOk.pure_iff, implies_true, true_and,
    and_true]
  intro heof _ st _
  have h₁ : ChunkInv E w ix { s with log := s.log ++ [⟨.encoderStep, _⟩] } :=
    h.call (by decide) (E.answer s.log .encoderStep)
  have heof₁ : s.sync.eof = false := by simpa using heof
  cases st with
  | finished => exact encodeFinished_chunkInv h₁ heof₁
  | nextFile | data =>
      simp only [OnOk.bind_iff, OnOk.pure_iff]
      exact (encodeData_chunkInv h₁ heof₁).mono fun _ _ h' => h'.1
  | other => exact OnOk.throw_true

theorem step_chunkInv (h : ChunkInv E w ix s) :
    OnOk (step E) s fun _ s' => ChunkInv E w ix s' := by
  simp only [step, OnOk.bind_iff]
  refine (Footprint.quiet (start_footprint E) (by decide) s).mono ?_
  rintro _ s₁ ⟨hF, hg⟩
  have h₁ := h.frame (hF.mono (by decide)) hg
  simp only [OnOk.getSync_iff, h₁.direction]
  exact stepEncode_chunkInv h₁

theorem exec_chunkInv (h : ChunkInv E w ix s) {op : Op}
    (hop : Drives op (outcome (exec E op) s)) : ChunkInv E w ix (after (exec E op) s) := by
  obtain ⟨rfl | hq, hok⟩ := hop
  · obtain ⟨r, hr⟩ := hok rfl
    have h' : OnOk (exec E .step) s fun _ s' => ChunkInv E w ix s' := by
      simp only [exec, OnOk.bind_iff, OnOk.pure_iff]
      exact step_chunkInv h
    exact h'.of_outcome hr
  · obtain ⟨hF, hg⟩ := Footprint.quiet_after (query_footprint E op hq) (by decide) s
    exact h.frame (hF.mono (by decide)) hg

theorem configure_chunkInv (cfg : List Setter)
    (hw : (configure E .encode cfg).sync.wstore = some w) :
    ChunkInv E w (configure E .encode cfg).sync.index (configure E .encode cfg) := by
  obtain ⟨hF, hst, hpu, hiw, -⟩ := configure_frame E .encode cfg
  have he : (configure E .encode cfg).sync.eof = false := hF.field CaSync.eof fun _ => rfl
  simp only [stream_nil, puts_nil, indexWrites_nil, List.nil_append] at hst hpu hiw
  refine ⟨hF.field CaSync.direction fun _ => rfl, hw, rfl, fun _ => ?_, ?_, ?_⟩
  · rw [hst]
    exact ⟨hF.field CaSync.buffer fun _ => rfl, hF.field CaSync.chunker fun _ => rfl⟩
  · simp [stored, he, hst, hpu, Chunker.cuts]
  · simp [stored, he, hst, hiw, Chunker.cuts]

end Casync.Proofs.ChunkPartition
