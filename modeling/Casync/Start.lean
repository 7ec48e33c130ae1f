import Casync.Config

/-!
`ca_sync_start`, which runs before every step: it creates the temporary archive of an
ENCODE run, creates the encoder or the decoder on first use and hands it the base, and
opens the index.
-/

namespace Casync

variable {σ : Type} (E : Env σ)

/-- `fd = open(path, how); if (fd < 0) return -errno;`, the descriptor going to the field
`setFd`. -/
def openInto (path : String) (how : OpenHow) (setFd : Int → CaSync σ → CaSync σ) :
    SyncM σ Unit := do
  match ← call E (.openFile path how) with
  | .ok fd => modifySync (setFd fd)
  | .error r =>
      modifySync (setFd (-1))
      fail r

/-- How `ca_sync_start` makes an output file: reuse the temporary path `tmp` or draw one
next to `target` with `tempfn_random`, recording it with `setTmp`; create it exclusively
with mode `perm`; on failure forget the temporary path again. -/
def createTemporary (target : String) (tmp : Option String) (perm : UInt32)
    (setTmp : Option String → CaSync σ → CaSync σ) (setFd : Int → CaSync σ → CaSync σ) :
    SyncM σ Unit := do
  let tmp ← match tmp with
    | some tmp => pure tmp
    | none => do
        let tmp ← orFail (← call E (.tempfnRandom target))
        modifySync (setTmp (some tmp))
        pure tmp
  match ← call E (.openFile tmp (.createExcl perm)) with
  | .ok fd => modifySync (setFd fd)
  | .error r =>
      modifySync fun s => setTmp none (setFd (-1) s)
      fail r

/-- How a finished step moves an output file into place: `rename(tmp, path)` when both are
set, after which the temporary path is forgotten with `clearTmp`. -/
def installTemporary (tmp path : Option String) (clearTmp : CaSync σ → CaSync σ) :
    SyncM σ Unit :=
  match tmp, path with
  | some tmp, some path => do
      orFail (← call E (.rename tmp path))
      modifySync clearTmp
  | _, _ => pure ()

/-- The first block of `ca_sync_start`: an ENCODE archive given as a path is written to a
temporary file next to it, created with `make_perm_mode & 0666`. -/
def startArchive : SyncM σ Unit := do
  let s ← getSync
  if s.direction = .encode ∧ s.archiveFd < 0 then
    if let some path := s.archivePath then
      createTemporary E path s.temporaryArchivePath (s.makePermMode &&& 0o666)
        (fun t s => { s with temporaryArchivePath := t }) (fun fd s => { s with archiveFd := fd })

/-- The second block of `ca_sync_start`: the encoder is created on first use and takes
over the base descriptor. -/
def startEncoder : SyncM σ Unit := do
  let s ← getSync
  if s.direction = .encode ∧ s.encoder = false then
    if s.baseFd < 0 then fail (-EUNATCH)
    if !(← call E .encoderNew) then fail (-ENOMEM)
    modifySync fun s => { s with encoder := true }
    match ← call E (.encoderSetBaseFd s.baseFd) with
    | .ok () => modifySync fun s => { s with baseFd := -1 }
    | .error r =>
        modifySync fun s => { s with encoder := false }
        fail r

/-- A DECODE base given only as a path and a mode: a directory is created (or reused) and
opened, a regular file is created as a temporary next to the path, a block device is
opened for writing. -/
def materializeBase (basePath : String) : SyncM σ Unit := do
  let s ← getSync
  if s.baseMode = modeUnset then fail (-EUNATCH)
  if S_ISDIR s.baseMode then
    match ← call E (.mkdir basePath) with
    | .ok () => pure ()
    | .error r => if r ≠ -EEXIST then fail r
    openInto E basePath .directory fun fd s => { s with baseFd := fd }
  else if S_ISREG s.baseMode then
    createTemporary E basePath s.temporaryBasePath 0o777
      (fun t s => { s with temporaryBasePath := t }) (fun fd s => { s with baseFd := fd })
  else
    assert (S_ISBLK s.baseMode)
    openInto E basePath .writeOnly fun fd s => { s with baseFd := fd }

/-- The end of the third block of `ca_sync_start`: the decoder is created and given the
base, as a descriptor or as a mode. -/
def attachDecoder : SyncM σ Unit := do
  if !(← call E .decoderNew) then fail (-ENOMEM)
  modifySync fun s => { s with decoder := true }
  let s ← getSync
  if s.baseFd ≥ 0 then
    orFail (← call E (.decoderSetBaseFd s.baseFd))
    modifySync fun s => { s with baseFd := -1 }
  else
    if s.baseMode = modeUnset then fail (-EUNATCH)
    orFail (← call E (.decoderSetBaseMode s.baseMode))

/-- The third block of `ca_sync_start`: on first use the base is made from its path if it
has no descriptor, and the decoder is created and given it. -/
def startDecoder : SyncM σ Unit := do
  let s ← getSync
  if s.direction = .decode ∧ s.decoder = false then
    if s.baseFd < 0 then
      if let some basePath := s.basePath then materializeBase E basePath
    attachDecoder E

/-- The last block of `ca_sync_start`. -/
def startIndex : SyncM σ Unit := do
  if (← getSync).index then orFail (← call E .indexOpen)

/-- `ca_sync_start`. -/
def start : SyncM σ Unit := do
  startArchive E
  startEncoder E
  startDecoder E
  startIndex E

end Casync
