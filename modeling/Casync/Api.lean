import Casync.Decode

/-!
The public calls of `casync.h` on one driver, and the runs and reachable states they
generate from a new driver.
-/

namespace Casync

variable {σ : Type} (E : Env σ)

/-- `ca_sync_step`. -/
def step : SyncM σ SyncStatus := do
  start E
  match (← getSync).direction with
  | .encode => stepEncode E
  | .decode => stepDecode E

/-- `ca_sync_put`. -/
def put (id : ObjectId) (data : Bytes) : SyncM σ Unit := do
  let s ← getSync
  if s.wstore.isNone then fail (-EROFS)
  orFail (← call E (.storePut s.wstore id data))

/-- `ca_sync_get_digest`. -/
def getDigest : SyncM σ ObjectId := do
  if (← getSync).eof = false then fail (-EBUSY)
  allocateArchiveDigest E
  pure (E.sha256 ((← getSync).archiveDigest.getD []))

/-- `ca_sync_current_path`. -/
def currentPath : SyncM σ String := do
  let s ← getSync
  if s.direction = .encode ∧ s.encoder then orFail (← call E .encoderCurrentPath)
  else if s.direction = .decode ∧ s.decoder then orFail (← call E .decoderCurrentPath)
  else fail (-ENOTTY)

/-- `ca_sync_current_mode`. -/
def currentMode : SyncM σ UInt32 := do
  let s ← getSync
  if s.direction = .encode ∧ s.encoder then orFail (← call E .encoderCurrentMode)
  else if s.direction = .decode ∧ s.decoder then orFail (← call E .decoderCurrentMode)
  else fail (-ENOTTY)

/-- `ca_sync_unref`, as far as the file system sees it: the temporary files still
recorded are unlinked. -/
def unref : SyncM σ Unit := do
  let s ← getSync
  if let some p := s.temporaryBasePath then
    let _ ← call E (.unlink p)
  if let some p := s.temporaryArchivePath then
    let _ ← call E (.unlink p)

/-- The configuration calls, with their arguments. -/
inductive Setter
  | indexFd (fd : Int)
  | indexPath (path : Option String)
  | baseFd (fd : Int)
  | basePath (path : Option String)
  | makePermMode (m : UInt32)
  | baseMode (m : UInt32)
  | archiveFd (fd : Int)
  | archivePath (path : Option String)
  | storeLocal (path : Option String)
  | seedStoreLocal (path : Option String)
  deriving DecidableEq

/-- The setter a configuration call runs. -/
def Setter.run : Setter → SyncM σ Unit
  | .indexFd fd => setIndexFd E fd
  | .indexPath path => setIndexPath E path
  | .baseFd fd => setBaseFd fd
  | .basePath path => setBasePath E path
  | .makePermMode m => setMakePermMode m
  | .baseMode m => setBaseMode m
  | .archiveFd fd => setArchiveFd fd
  | .archivePath path => setArchivePath E path
  | .storeLocal path => setStoreLocal E path
  | .seedStoreLocal path => addSeedStoreLocal E path

/-- A public call on a driver. -/
inductive Op
  | set (c : Setter)
  | step
  | get (id : ObjectId)
  | put (id : ObjectId) (data : Bytes)
  | makeObjectId (p : Bytes)
  | getDigest
  | currentPath
  | currentMode
  deriving DecidableEq

/-- What a public call hands back when it succeeds. -/
inductive Reply
  | none
  | status (st : SyncStatus)
  | bytes (p : Bytes)
  | id (id : ObjectId)
  | path (p : String)
  | mode (m : UInt32)
  deriving DecidableEq

/-- Run a public call. -/
def exec : Op → SyncM σ Reply
  | .set c => do c.run E; pure .none
  | .step => do pure (.status (← step E))
  | .get id => do pure (.bytes (← get E id))
  | .put id data => do put E id data; pure .none
  | .makeObjectId p => do pure (.id (← makeObjectId E p))
  | .getDigest => do pure (.id (← getDigest E))
  | .currentPath => do pure (.path (← currentPath E))
  | .currentMode => do pure (.mode (← currentMode E))

/-- A new driver (`ca_sync_new_encode`, `ca_sync_new_decode`) that has made no call. -/
def Sys.new (dir : CaDirection) : Sys σ := ⟨caSyncNew E.chunker.init dir, []⟩

/-- Issue `ops` in order from `s`: the final state, and each call with its outcome. -/
def runOps : Sys σ → List Op → Sys σ × List (Op × Except Fault Reply)
  | s, [] => (s, [])
  | s, op :: ops =>
      match (exec E op).run s with
      | .ok r s' => Prod.map id (List.cons (op, .ok r)) (runOps s' ops)
      | .error e s' => Prod.map id (List.cons (op, .error e)) (runOps s' ops)

/-- A new driver configured by the calls `cfg`. -/
def configure (dir : CaDirection) (cfg : List Setter) : Sys σ :=
  (runOps E (Sys.new E dir) (cfg.map .set)).1

/-- The states a driver reaches by any sequence of public calls. -/
inductive Reachable : Sys σ → Prop
  | new (dir : CaDirection) : Reachable (Sys.new E dir)
  | exec {s : Sys σ} (op : Op) : Reachable s → Reachable (after (exec E op) s)

end Casync
