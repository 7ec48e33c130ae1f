import Casync.Encode

/-!
The DECODE pipeline of `src/casync.c`: the store fan-in of `ca_sync_get`, the answer to a
decoder's request for input, and `ca_sync_step_decode`.
-/

namespace Casync

variable {σ : Type} (E : Env σ)

/-- The lookup of `ca_sync_get` over a list of store slots: the first answer other than
`-ENOENT` is the result. -/
def storesGet (id : ObjectId) : List (Option String) → SyncM σ Bytes
  | [] => fail (-ENOENT)
  | store :: stores => do
      match ← call E (.storeGet store id) with
      | .ok p => pure p
      | .error r => if r = -ENOENT then storesGet id stores else fail r

/-- `ca_sync_get`: the writable store slot first, whether a store is configured in it or
not, then the seed stores in the order they were added. -/
def get (id : ObjectId) : SyncM σ Bytes := do
  let s ← getSync
  storesGet E id (s.wstore :: s.rstores.map some)

/-- `ca_sync_process_decoder_request`. With an index, the next record's object is looked
up and handed to the decoder, and the archive digest is then fed from the object's buffer
after `free` has released it; without one, the decoder reads the archive descriptor. -/
def processDecoderRequest : SyncM σ Unit := do
  let s ← getSync
  if s.index then
    match ← orFail (← call E .indexReadObject) with
    | none => orFail (← call E .decoderPutEof)
    | some (id, indexSize) =>
        let p ← get E id
        if indexSize ≠ p.length then
          let _ ← call E (.free p)
          fail (-EBADMSG)
        let r ← call E (.decoderPutData p)
        let freed : Nat → UInt8 ← call E (.free p)
        orFail r
        writeArchiveDigest E ((List.range indexSize).map freed)
  else if s.archiveFd ≥ 0 then
    orFail (← call E (.decoderPutDataFd s.archiveFd))
  else
    fail (-ENOTTY)

/-- The `CA_DECODER_FINISHED` case of `ca_sync_step_decode`. -/
def decodeFinished : SyncM σ SyncStatus := do
  let s ← getSync
  installTemporary E s.temporaryBasePath s.basePath fun s => { s with temporaryBasePath := none }
  modifySync fun s => { s with eof := true }
  pure .finished

/-- `ca_sync_step_decode`. -/
def stepDecode : SyncM σ SyncStatus := do
  let s ← getSync
  if s.eof then fail (-EPIPE)
  if s.decoder = false then fail (-ENOTTY)
  match ← orFail (← call E .decoderStep) with
  | .finished => decodeFinished E
  | .nextFile => pure .nextFile
  | .step | .payload => pure .step
  | .request => do processDecoderRequest E; pure .step
  | .other _ => fail (-ENOTTY)

end Casync
