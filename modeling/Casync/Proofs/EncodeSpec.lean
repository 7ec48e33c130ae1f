import Casync.Proofs.Frames
import Casync.OnOk

/-!
What the functions of the ENCODE path do when they succeed: how each moves the buffer and
the chunker, and by how much it grows the encoder's stream, the store puts, the index
records and the archive bytes in the log. The chunking loop is matched against
`Chunker.cuts`, the spec-level split of a stream.
-/

namespace Casync.Proofs.EncodeSpec

open Casync.Proofs.Frames

variable {σ : Type} (E : Env σ)

section Views

variable {e : Event} {Δ : List Event}

theorem encoded_of_kind (h : e.call.kind ≠ .encoderGetData) : e.encoded = [] := by
  rcases e with ⟨c, r⟩
  cases c <;> first | rfl | exact absurd rfl h

theorem putOf_of_kind (h : e.call.kind ≠ .storePut) : e.putOf = none := by
  rcases e with ⟨c, r⟩
  cases c <;> first | rfl | exact absurd rfl h

theorem indexWriteOf_of_kind (h : e.call.kind ≠ .indexWriteObject) : e.indexWriteOf = none := by
  rcases e with ⟨c, r⟩
  cases c <;> first | rfl | exact absurd rfl h

theorem archived_of_kind (h : e.call.kind ≠ .loopWrite) : e.archived = [] := by
  rcases e with ⟨c, r⟩
  cases c <;> first | rfl | exact absurd rfl h

/-- A call kind that adds nothing to the stream, the puts, the index records or the
archive bytes. -/
def Quiet (k : CallKind) : Prop :=
  k ≠ .encoderGetData ∧ k ≠ .storePut ∧ k ≠ .indexWriteObject ∧ k ≠ .loopWrite

instance (k : CallKind) : Decidable (Quiet k) := inferInstanceAs (Decidable (_ ∧ _))

/-- One more event grows each view by what that event shows. -/
theorem grows_snoc (l : List Event) (e : Event) :
    Grows l (l ++ [e]) e.encoded e.putOf.toList e.indexWriteOf.toList e.archived :=
  ⟨by rw [stream_append, stream_singleton], by rw [puts_append, puts_singleton],
    by rw [indexWrites_append, indexWrites_singleton], by rw [archived_append, archived_singleton]⟩

theorem Grows.snoc_quiet {l l' : List Event} {st ar : Bytes}
    {ps : List (Option String × ObjectId × Bytes)} {iw : List (ObjectId × Nat)}
    (h : Grows l l' st ps iw ar) (he : Quiet e.call.kind) : Grows l (l' ++ [e]) st ps iw ar := by
  simpa only [encoded_of_kind he.1, putOf_of_kind he.2.1, indexWriteOf_of_kind he.2.2.1,
    archived_of_kind he.2.2.2, Option.toList_none, List.append_nil] using h.trans (grows_snoc l' e)

theorem grows_of_quiet (h : ∀ e ∈ Δ, Quiet e.call.kind) (l : List Event) :
    Grows l (l ++ Δ) [] [] [] [] := by
  induction Δ generalizing l with
  | nil => simpa using Grows.refl l
  | cons e Δ ih =>
      have := (Grows.snoc_quiet (Grows.refl l) (h e (List.mem_cons_self _ _))).trans
        (ih (fun e' he' => h e' (List.mem_cons_of_mem _ he')) (l ++ [e]))
      simpa only [List.append_nil, List.append_assoc, List.singleton_append] using this

/-- A function whose calls are all quiet changes the fields of its frame and none of the
views, whatever its outcome. -/
theorem Footprint.quiet_after {K : List CallKind} {F : List Field} {α : Type} {m : SyncM σ α}
    (h : Footprint K F m) (hK : ∀ k ∈ K, Quiet k) (s : Sys σ) :
    Only F s.sync (after m s).sync ∧ Grows s.log (after m s).log [] [] [] [] := by
  obtain ⟨hF, Δ, hΔ, hk⟩ := h s
  exact ⟨hF, hΔ ▸ grows_of_quiet (fun e he => hK _ (hk e he)) _⟩

theorem Footprint.quiet {K : List CallKind} {F : List Field} {α : Type} {m : SyncM σ α}
    (h : Footprint K F m) (hK : ∀ k ∈ K, Quiet k) (s : Sys σ) :
    OnOk m s fun _ s' => Only F s.sync s'.sync ∧ Grows s.log s'.log [] [] [] [] := by
  intro a s' hr
  have := Footprint.quiet_after h hK s
  simp only [after, hr] at this
  exact this

end Views

/-- The store puts of the chunks `cs` into the store slot `w`. -/
def chunkPuts (w : Option String) (cs : List Bytes) : List (Option String × ObjectId × Bytes) :=
  cs.map fun c => (w, E.sha256 c, c)

/-- The index records of the chunks `cs`, if there is an index. -/
def chunkIndex (ix : Bool) (cs : List Bytes) : List (ObjectId × Nat) :=
  if ix then cs.map fun c => (E.sha256 c, c.length) else []

@[simp] theorem chunkPuts_nil (w : Option String) : chunkPuts E w [] = [] := rfl

@[simp] theorem chunkIndex_nil (ix : Bool) : chunkIndex E ix [] = [] := by
  cases ix <;> rfl

@[simp] theorem chunkPuts_append (w : Option String) (cs cs' : List Bytes) :
    chunkPuts E w (cs ++ cs') = chunkPuts E w cs ++ chunkPuts E w cs' := List.map_append _ _ _

@[simp] theorem chunkIndex_append (ix : Bool) (cs cs' : List Bytes) :
    chunkIndex E ix (cs ++ cs') = chunkIndex E ix cs ++ chunkIndex E ix cs' := by
  cases ix <;> simp [chunkIndex]

theorem chunkIndex_cons (ix : Bool) (c : Bytes) (cs : List Bytes) :
    chunkIndex E ix (c :: cs) = chunkIndex E ix [c] ++ chunkIndex E ix cs :=
  chunkIndex_append E ix [c] cs

/-- What `ca_sync_write_chunks` makes of `p` from the driver state `s`: the chunks it
completes, the pending tail and the chunker state after it; nothing without a writable
store. -/
def chunkSplit (s : CaSync σ) (p : Bytes) : List Bytes × Bytes × σ :=
  if s.wstore.isNone then ([], s.buffer, s.chunker) else E.chunker.cuts s.chunker s.buffer p

/-- The chunk `ca_sync_write_final_chunk` stores: the pending tail, if there is a writable
store and the tail is not empty. -/
def finalChunk (s : CaSync σ) : List Bytes :=
  if s.wstore.isNone ∨ s.buffer = [] then [] else [s.buffer]

section Specs

variable (s : Sys σ)

theorem makeObjectId_ok (p : Bytes) : OnOk (makeObjectId E p) s fun id s' =>
    id = E.sha256 p ∧ s'.sync = { s.sync with objectDigest := some p } ∧
      Grows s.log s'.log [] [] [] [] := by
  have h : OnOk (makeObjectId E p) s fun id s' =>
      id = E.sha256 p ∧ s'.sync = { s.sync with objectDigest := some p } := by
    simp only [makeObjectId, OnOk.bind_iff, OnOk.getSync_iff, OnOk.modifySync_iff, OnOk.pure_iff]
    split <;> simp
  exact ((Footprint.quiet (makeObjectId_footprint E p) (by decide) s).and h).mono
    fun _ _ h => ⟨h.2.1, h.2.2, h.1.2⟩

theorem allocateArchiveDigest_ok : OnOk (allocateArchiveDigest E) s fun _ s' =>
    s'.sync = { s.sync with archiveDigest := some (s.sync.archiveDigest.getD []) } ∧
      Grows s.log s'.log [] [] [] [] := by
  have h : OnOk (allocateArchiveDigest E) s fun _ s' =>
      s'.sync = { s.sync with archiveDigest := some (s.sync.archiveDigest.getD []) } := by
    cases hd : s.sync.archiveDigest
    · simp [allocateArchiveDigest, hd]
    · simp only [allocateArchiveDigest, OnOk.bind_iff, OnOk.getSync_iff, hd, Option.isSome_some,
        if_true, OnOk.pure_iff, Option.getD_some]
      rw [← hd]
  exact ((Footprint.quiet (allocateArchiveDigest_footprint E) (by decide) s).and h).mono
    fun _ _ h => ⟨h.2, h.1.2⟩

theorem writeArchiveDigest_ok (p : Bytes) : OnOk (writeArchiveDigest E p) s fun _ s' =>
    s'.sync = { s.sync with archiveDigest := some (s.sync.archiveDigest.getD [] ++ p) } ∧
      Grows s.log s'.log [] [] [] [] := by
  simp only [writeArchiveDigest, OnOk.bind_iff, OnOk.modifySync_iff]
  refine (allocateArchiveDigest_ok E s).mono ?_
  rintro _ ⟨sync₁, log₁⟩ ⟨rfl, hg⟩
  exact ⟨rfl, hg⟩

theorem writeArchive_ok (p : Bytes) : OnOk (writeArchive E p) s fun _ s' =>
    s'.sync = s.sync ∧ Grows s.log s'.log [] [] [] (if s.sync.archiveFd < 0 then [] else p) := by
  simp only [writeArchive, OnOk.bind_iff, OnOk.getSync_iff]
  by_cases h : s.sync.archiveFd < 0
  · simp only [h, if_true, pure_bind, OnOk.pure_iff]
    exact ⟨trivial, Grows.refl _⟩
  · simp only [h, if_false, pure_bind, OnOk.bind_iff, OnOk.call_iff, OnOk.orFail_iff]
    exact fun _ _ => ⟨trivial, grows_snoc s.log _⟩

theorem appendBuffer_ok (d : Bytes) : OnOk (appendBuffer E d) s fun _ s' =>
    s'.sync = { s.sync with buffer := s.sync.buffer ++ d } ∧ Grows s.log s'.log [] [] [] [] := by
  simp only [appendBuffer, OnOk.bind_iff, OnOk.call_iff]
  split
  · exact OnOk.fail_true
  · simp only [pure_bind, OnOk.modifySync_iff]
    exact ⟨trivial, grows_snoc s.log _⟩

theorem writeOneChunk_ok (p : Bytes) : OnOk (writeOneChunk E p) s fun _ s' =>
    s'.sync = { s.sync with objectDigest := some p } ∧
      Grows s.log s'.log [] (chunkPuts E s.sync.wstore [p]) (chunkIndex E s.sync.index [p]) [] := by
  simp only [writeOneChunk, OnOk.bind_iff]
  refine (makeObjectId_ok E s p).mono ?_
  rintro _ ⟨sync₁, log₁⟩ ⟨rfl, rfl, hg⟩
  simp only [OnOk.bind_iff, OnOk.getSync_iff, OnOk.call_iff, OnOk.orFail_iff]
  intro _ _
  have hput := hg.trans (grows_snoc log₁ ⟨_, E.answer log₁ (.storePut s.sync.wstore (E.sha256 p) p)⟩)
  cases hi : s.sync.index
  · simpa [hi, chunkPuts, chunkIndex] using hput
  · simp only [hi, if_true, OnOk.bind_iff, OnOk.call_iff, OnOk.orFail_iff, OnOk.pure_iff]
    intro _ _
    simpa [chunkPuts, chunkIndex] using hput.trans (grows_snoc _
      ⟨_, E.answer _ (.indexWriteObject (E.sha256 p) p.length)⟩)

/-- The object a cut completes is the pending buffer topped up with the bytes up to the
cut. -/
theorem cutObject_ok (k : Nat) (p : Bytes) : OnOk (if s.sync.buffer = [] then pure (p.take k) else do
      appendBuffer E (p.take k)
      pure (← getSync).buffer) s fun obj s' =>
    obj = s.sync.buffer ++ p.take k ∧ (∃ buf, s'.sync = { s.sync with buffer := buf }) ∧
      Grows s.log s'.log [] [] [] [] := by
  by_cases hb : s.sync.buffer = []
  · simp only [hb, if_true, OnOk.pure_iff]
    exact ⟨by simp, ⟨_, rfl⟩, Grows.refl _⟩
  · simp only [hb, if_false, OnOk.bind_iff, OnOk.getSync_iff, OnOk.pure_iff]
    refine (appendBuffer_ok E s _).mono ?_
    rintro _ s' ⟨hs, hg⟩
    exact ⟨by rw [hs], ⟨_, hs⟩, hg⟩

/-- With fuel for every byte, the chunking loop stores exactly the chunks `Chunker.cuts`
completes from the pending buffer and the chunker state, and leaves its tail and state
behind. -/
theorem writeChunksLoop_ok (fuel : Nat) (p : Bytes) (hp : p.length ≤ fuel) :
    OnOk (writeChunksLoop E fuel p) s fun _ s' =>
      s'.sync.buffer = (E.chunker.cuts s.sync.chunker s.sync.buffer p).2.1 ∧
      s'.sync.chunker = (E.chunker.cuts s.sync.chunker s.sync.buffer p).2.2 ∧
      Grows s.log s'.log []
        (chunkPuts E s.sync.wstore (E.chunker.cuts s.sync.chunker s.sync.buffer p).1)
        (chunkIndex E s.sync.index (E.chunker.cuts s.sync.chunker s.sync.buffer p).1) [] := by
  induction fuel generalizing p s with
  | zero =>
      obtain rfl : p = [] := List.eq_nil_of_length_eq_zero (by omega)
      simp [writeChunksLoop, Chunker.cuts, Grows.refl]
  | succ fuel ih =>
      cases p with
      | nil => simp [writeChunksLoop, Chunker.cuts, Grows.refl]
      | cons b bs =>
          simp only [writeChunksLoop, OnOk.bind_iff, OnOk.getSync_iff, OnOk.modifySync_iff]
          rcases hscan : E.chunker.scan s.sync.chunker (b :: bs) with ⟨st, _ | k⟩
          · rw [E.chunker.scan_none hscan s.sync.buffer]
            refine (appendBuffer_ok E _ _).mono ?_
            rintro _ s' ⟨hs, hg⟩
            simpa [hs] using hg
          · obtain ⟨hk, hkl, rfl, hcut⟩ := E.chunker.scan_some hscan s.sync.buffer
            rw [hcut]
            simp only [OnOk.bind_iff]
            refine (cutObject_ok E ⟨{ s.sync with chunker := E.chunker.init }, s.log⟩ k _).mono ?_
            rintro _ s₁ ⟨rfl, ⟨buf, hs₁⟩, hg₁⟩
            refine (writeOneChunk_ok E s₁ _).mono ?_
            rintro _ s₂ ⟨hs₂, hg₂⟩
            simp only [OnOk.modifySync_iff]
            refine (ih _ _ (by simp at hp ⊢; omega)).mono ?_
            rintro _ s₃ ⟨h₁, h₂, hg₃⟩
            simp only [hs₂, hs₁] at h₁ h₂ hg₂ hg₃ ⊢
            refine ⟨h₁, h₂, ?_⟩
            rw [chunkIndex_cons]
            simpa using (hg₁.trans hg₂).trans hg₃

theorem writeChunks_ok (p : Bytes) : OnOk (writeChunks E p) s fun _ s' =>
    Only [.objectDigest, .buffer, .chunker] s.sync s'.sync ∧
      s'.sync.buffer = (chunkSplit E s.sync p).2.1 ∧ s'.sync.chunker = (chunkSplit E s.sync p).2.2 ∧
      Grows s.log s'.log [] (chunkPuts E s.sync.wstore (chunkSplit E s.sync p).1)
        (chunkIndex E s.sync.index (chunkSplit E s.sync p).1) [] := by
  refine OnOk.mono (((writeChunks_footprint E p).onOk s).and ?_) fun _ _ h => ⟨h.1.1, h.2⟩
  cases hw : s.sync.wstore
  · simp [writeChunks, chunkSplit, hw, Grows.refl]
  · simpa [writeChunks, chunkSplit, hw] using writeChunksLoop_ok E s _ p le_rfl

theorem writeFinalChunk_ok : OnOk (writeFinalChunk E) s fun _ s' =>
    Only [.objectDigest, .archiveDigest] s.sync s'.sync ∧
      s'.sync.archiveDigest.getD [] = s.sync.archiveDigest.getD [] ∧
      Grows s.log s'.log [] (chunkPuts E s.sync.wstore (finalChunk s.sync))
        (chunkIndex E s.sync.index (finalChunk s.sync)) [] := by
  refine OnOk.mono (((writeFinalChunk_footprint E).onOk s).and ?_) fun _ _ h => ⟨h.1.1, h.2⟩
  simp only [writeFinalChunk, finalChunk, Option.isNone_iff_eq_none, OnOk.bind_iff,
    OnOk.getSync_iff]
  by_cases hw : s.sync.wstore = none
  · simp only [hw, if_true, true_or, OnOk.pure_iff, chunkPuts_nil, chunkIndex_nil]
    exact ⟨trivial, Grows.refl _⟩
  by_cases hb : s.sync.buffer = []
  · simp only [hw, hb, if_true, if_false, or_true, pure_bind, OnOk.pure_iff, chunkPuts_nil,
      chunkIndex_nil]
    exact ⟨trivial, Grows.refl _⟩
  · simp only [hw, hb, or_self, if_false, OnOk.bind_iff, OnOk.getSync_iff, OnOk.pure_iff]
    refine (writeOneChunk_ok E s _).mono ?_
    rintro _ ⟨sync₁, log₁⟩ ⟨rfl, hg₁⟩
    cases hi : s.sync.index
    · simpa [hi] using hg₁
    · simp only [hi, if_true, OnOk.bind_iff, OnOk.getSync_iff]
      refine (allocateArchiveDigest_ok E _).mono ?_
      rintro _ ⟨sync₂, log₂⟩ ⟨rfl, hg₂⟩
      simp only [OnOk.bind_iff, OnOk.call_iff, OnOk.orFail_iff, OnOk.pure_iff]
      intro _ _ _ _ _ _
      refine ⟨rfl, Grows.snoc_quiet (Grows.snoc_quiet (Grows.snoc_quiet ?_ ?_) ?_) ?_⟩
      · simpa only [List.append_nil, hi] using hg₁.trans hg₂
      all_goals exact ⟨nofun, nofun, nofun, nofun⟩

theorem encodeData_ok : OnOk (encodeData E) s fun _ s' => ∃ p,
    Only [.objectDigest, .archiveDigest, .buffer, .chunker] s.sync s'.sync ∧
      s'.sync.archiveDigest = some (s.sync.archiveDigest.getD [] ++ p) ∧
      s'.sync.buffer = (chunkSplit E s.sync p).2.1 ∧ s'.sync.chunker = (chunkSplit E s.sync p).2.2 ∧
      Grows s.log s'.log p (chunkPuts E s.sync.wstore (chunkSplit E s.sync p).1)
        (chunkIndex E s.sync.index (chunkSplit E s.sync p).1)
        (if s.sync.archiveFd < 0 then [] else p) := by
  simp only [encodeData, OnOk.bind_iff, OnOk.call_iff, OnOk.orFail_iff]
  intro p hp
  refine (writeArchive_ok E _ p).mono ?_
  rintro _ ⟨sync₁, log₁⟩ ⟨rfl, hg₁⟩
  refine (writeArchiveDigest_ok E _ p).mono ?_
  rintro _ ⟨sync₂, log₂⟩ ⟨rfl, hg₂⟩
  refine (writeChunks_ok E _ p).mono ?_
  rintro _ ⟨sync₃, log₃⟩ ⟨hF, h₁, h₂, hg₃⟩
  refine ⟨p, ?_, ?_, h₁, h₂, ?_⟩
  · have h₀ : Only [.objectDigest, .archiveDigest, .buffer, .chunker] s.sync
        { s.sync with archiveDigest := some (s.sync.archiveDigest.getD [] ++ p) } := rfl
    exact h₀.trans (hF.mono (by decide))
  · exact hF.field CaSync.archiveDigest fun _ => rfl
  · have := (hg₁.trans hg₂).trans hg₃
    simpa [hp, Event.encoded, Grows] using this

theorem encodeFinished_ok : OnOk (encodeFinished E) s fun st s' =>
    st = .finished ∧ s'.sync.eof = true ∧
      Only [.temporaryArchivePath, .eof, .objectDigest, .archiveDigest] s.sync s'.sync ∧
      s'.sync.archiveDigest.getD [] = s.sync.archiveDigest.getD [] ∧
      Grows s.log s'.log [] (chunkPuts E s.sync.wstore (finalChunk s.sync))
        (chunkIndex E s.sync.index (finalChunk s.sync)) [] := by
  simp only [encodeFinished, OnOk.bind_iff, OnOk.getSync_iff]
  refine (Footprint.quiet (installTemporary_footprint E [.temporaryArchivePath] _ _ ?_)
    (by decide) s).mono ?_
  · exact fun _ => rfl
  rintro _ s₁ ⟨hF₁, hg₁⟩
  refine (writeFinalChunk_ok E s₁).mono ?_
  rintro _ s₂ ⟨hF₂, hd₂, hg₂⟩
  simp only [OnOk.modifySync_iff, OnOk.pure_iff]
  have hw := hF₁.field CaSync.wstore fun _ => rfl
  have hb := hF₁.field CaSync.buffer fun _ => rfl
  have hi := hF₁.field CaSync.index fun _ => rfl
  have hd := hF₁.field CaSync.archiveDigest fun _ => rfl
  have hF₃ : Only [.temporaryArchivePath, .eof, .objectDigest, .archiveDigest] s₂.sync
      { s₂.sync with eof := true } := rfl
  refine ⟨trivial, trivial, (hF₁.mono (by decide)).trans ((hF₂.mono (by decide)).trans hF₃), ?_, ?_⟩
  · simpa [hd] using hd₂
  · simpa [finalChunk, hw, hb, hi] using hg₁.trans hg₂

end Specs

end Casync.Proofs.EncodeSpec
