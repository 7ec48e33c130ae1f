import Casync.Start

/-!
The ENCODE pipeline of `src/casync.c`: the two SHA-256 hashers, the chunking of the
encoder's bytes through the pending buffer into the writable store and the index, and
`ca_sync_step_encode`.
-/

namespace Casync

variable {σ : Type} (E : Env σ)

/-- `assert(false)`. -/
def abort {α : Type} : SyncM σ α := throw .abort

/-- `ca_sync_allocate_archive_digest`. -/
def allocateArchiveDigest : SyncM σ Unit := do
  if (← getSync).archiveDigest.isSome then return
  if !(← call E .mdOpen) then fail (- EIO)
  modifySync fun s => { s with archiveDigest := some [] }

/-- `ca_sync_write_archive_digest`. -/
def writeArchiveDigest (p : Bytes) : SyncM σ Unit := do
  allocateArchiveDigest E
  modifySync fun s => { s with archiveDigest := some (s.archiveDigest.getD [] ++ p) }

/-- `ca_sync_make_object_id`: the per-chunk hasher is opened on first use and reset
otherwise, fed `p`, and read. -/
def makeObjectId (p : Bytes) : SyncM σ ObjectId := do
  if (← getSync).objectDigest.isNone then
    if !(← call E .mdOpen) then fail (- EIO)
  modifySync fun s => { s with objectDigest := some p }
  pure (E.sha256 p)

/-- `ca_sync_write_archive`. -/
def writeArchive (p : Bytes) : SyncM σ Unit := do
  let s ← getSync
  if s.archiveFd < 0 then return
  orFail (← call E (.loopWrite s.archiveFd p))

/-- `ca_sync_write_one_chunk`. -/
def writeOneChunk (p : Bytes) : SyncM σ Unit := do
  let id ← makeObjectId E p
  orFail (← call E (.storePut (← getSync).wstore id p))
  if (← getSync).index then orFail (← call E (.indexWriteObject id p.length))

/-- `realloc_buffer_append` on the pending buffer. -/
def appendBuffer (data : Bytes) : SyncM σ Unit := do
  if !(← call E (.reallocBufferAppend data)) then fail (-ENOMEM)
  modifySync fun s => { s with buffer := s.buffer ++ data }

/-- The loop of `ca_sync_write_chunks` over the bytes `p` still to be scanned; `fuel`
bounds their number, and each pass consumes at least one. -/
def writeChunksLoop : Nat → Bytes → SyncM σ Unit
  | 0, _ => pure ()
  | _ + 1, [] => pure ()
  | fuel + 1, p@(_ :: _) => do
      let s ← getSync
      let (st, k) := E.chunker.scan s.chunker p
      modifySync fun s => { s with chunker := st }
      match k with
      | none => appendBuffer E p
      | some k =>
          let object ← (if s.buffer = [] then pure (p.take k) else do
            appendBuffer E (p.take k)
            pure (← getSync).buffer)
          writeOneChunk E object
          modifySync fun s => { s with buffer := [] }
          writeChunksLoop fuel (p.drop k)

/-- The bound on the loop's passes is never what stops it: each pass consumes at least one
byte, so any two bounds that cover every byte run the same computation, and the loop is the
`while (l > 0)` of the source. -/
theorem writeChunksLoop_fuel_indep : ∀ (fuel fuel' : Nat) (p : Bytes), p.length ≤ fuel →
    p.length ≤ fuel' → writeChunksLoop E fuel p = writeChunksLoop E fuel' p
  | 0, 0, _, _, _ | 0, _ + 1, [], _, _ | _ + 1, 0, [], _, _ | _ + 1, _ + 1, [], _, _ => rfl
  | 0, _, _ :: _, h, _ | _, 0, _ :: _, _, h => absurd h (Nat.not_succ_le_zero _)
  | fuel + 1, fuel' + 1, b :: bs, h, h' => by
      simp only [writeChunksLoop]
      congr 1
      funext c
      rcases hscan : E.chunker.scan c.chunker (b :: bs) with ⟨st, _ | k⟩
      · rfl
      · obtain ⟨hk, hkl, -⟩ := E.chunker.scan_some hscan []
        have hd : ((b :: bs).drop k).length < (b :: bs).length := by
          rw [List.length_drop]; omega
        dsimp only
        rw [writeChunksLoop_fuel_indep fuel fuel' _ (by simp only [List.length_cons] at h hd; omega)
          (by simp only [List.length_cons] at h' hd; omega)]

/-- `ca_sync_write_chunks`. -/
def writeChunks (p : Bytes) : SyncM σ Unit := do
  if (← getSync).wstore.isNone then return
  writeChunksLoop E p.length p

/-- `ca_sync_write_final_chunk`: the pending tail becomes the last chunk, and the index
receives the archive digest, its EOF record, and is closed. -/
def writeFinalChunk : SyncM σ Unit := do
  let s ← getSync
  if s.wstore.isNone then return
  if s.buffer = [] then return
  writeOneChunk E s.buffer
  if (← getSync).index then
    allocateArchiveDigest E
    orFail (← call E (.indexSetDigest (E.sha256 ((← getSync).archiveDigest.getD []))))
    orFail (← call E .indexWriteEof)
    orFail (← call E .indexClose)

/-- The `CA_ENCODER_FINISHED` case of `ca_sync_step_encode`. -/
def encodeFinished : SyncM σ SyncStatus := do
  let s ← getSync
  installTemporary E s.temporaryArchivePath s.archivePath
    fun s => { s with temporaryArchivePath := none }
  writeFinalChunk E
  modifySync fun s => { s with eof := true }
  pure .finished

/-- The `CA_ENCODER_NEXT_FILE` and `CA_ENCODER_DATA` cases: the encoder's bytes go to the
archive, to the archive digest and to the chunker, in that order. -/
def encodeData : SyncM σ Unit := do
  let p ← orFail (← call E .encoderGetData)
  writeArchive E p
  writeArchiveDigest E p
  writeChunks E p

/-- `ca_sync_step_encode`. -/
def stepEncode : SyncM σ SyncStatus := do
  let s ← getSync
  if s.eof then fail (-EPIPE)
  if s.encoder then
    match ← orFail (← call E .encoderStep) with
    | .finished => encodeFinished E
    | .nextFile => do encodeData E; pure .nextFile
    | .data => do encodeData E; pure .step
    | .other _ => abort
  else
    abort

end Casync
