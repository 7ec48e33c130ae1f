import Casync.Machine

/-!
The configuration calls of `src/casync.c`: the setters a caller makes before the first
`ca_sync_step`, each validating its argument, refusing a slot already filled with
`-EBUSY`, and filling it.
-/

namespace Casync

variable {σ : Type} (E : Env σ)

/-- `ca_sync_allocate_index`. -/
def allocateIndex : SyncM σ Unit := do
  let s ← getSync
  if s.index then fail (-EBUSY)
  let ok : Bool ← match s.direction with
    | .encode => call E .indexNewWrite
    | .decode => call E .indexNewRead
  if !ok then fail (-ENOMEM)
  modifySync fun s => { s with index := true }

/-- What `ca_sync_set_index_fd` and `ca_sync_set_index_path` do once their argument is
checked: allocate the index, give it its source, and release it if that fails. -/
def attachIndex (source : SyncM σ (Except Int Unit)) : SyncM σ Unit := do
  allocateIndex E
  match ← source with
  | .ok () => pure ()
  | .error r =>
      call E .indexUnref
      modifySync fun s => { s with index := false }
      fail r

/-- `ca_sync_set_index_fd`. -/
def setIndexFd (fd : Int) : SyncM σ Unit := do
  if fd < 0 then fail (-EINVAL)
  attachIndex E (call E (.indexSetFd fd))

/-- `ca_sync_set_index_path`. -/
def setIndexPath (path : Option String) : SyncM σ Unit := do
  let some path := path | fail (-EINVAL)
  attachIndex E (call E (.indexSetPath path))

/-- `ca_sync_set_base_fd`. -/
def setBaseFd (fd : Int) : SyncM σ Unit := do
  if fd < 0 then fail (-EINVAL)
  let s ← getSync
  if s.baseFd ≥ 0 then fail (-EBUSY)
  if s.baseMode ≠ modeUnset then fail (-EBUSY)
  if s.basePath.isSome then fail (-EBUSY)
  modifySync fun s => { s with baseFd := fd }

/-- `ca_sync_set_base_path`: an existing directory is opened at once; in ENCODE mode
anything else is opened as a file, in DECODE mode the path is kept for `ca_sync_start`. -/
def setBasePath (path : Option String) : SyncM σ Unit := do
  let some path := path | fail (-EINVAL)
  let s ← getSync
  if s.baseFd ≥ 0 then fail (-EBUSY)
  if s.basePath.isSome then fail (-EBUSY)
  match ← call E (.openFile path .directory) with
  | .ok fd => modifySync fun s => { s with baseFd := fd }
  | .error r =>
      modifySync fun s => { s with baseFd := -1 }
      match s.direction with
      | .encode =>
          if r ≠ -ENOTDIR then fail r
          match ← call E (.openFile path .readOnly) with
          | .ok fd => modifySync fun s => { s with baseFd := fd }
          | .error r =>
              modifySync fun s => { s with baseFd := -1 }
              fail r
      | .decode =>
          if !(← call E (.strdup path)) then fail (-ENOMEM)
          modifySync fun s => { s with basePath := some path }

/-- `ca_sync_set_make_perm_mode`. -/
def setMakePermMode (m : UInt32) : SyncM σ Unit := do
  if m &&& ~~~(S_IRUSR ||| S_IWUSR ||| S_IRGRP ||| S_IWGRP ||| S_IROTH ||| S_IWOTH) ≠ 0 then
    fail (-EINVAL)
  let s ← getSync
  if s.direction ≠ .encode then fail (-ENOTTY)
  if s.makePermMode ≠ modeUnset then fail (-EBUSY)
  modifySync fun s => { s with makePermMode := m }

/-- `ca_sync_set_base_mode`. -/
def setBaseMode (m : UInt32) : SyncM σ Unit := do
  if m &&& ~~~(0o7777 ||| S_IFMT) ≠ 0 then fail (-EINVAL)
  if !S_ISREG m && !S_ISDIR m && !S_ISBLK m then fail (-ENOTTY)
  let s ← getSync
  if s.direction = .encode then fail (-ENOTTY)
  if s.baseFd ≥ 0 then fail (-EBUSY)
  if s.baseMode ≠ modeUnset then fail (-EBUSY)
  modifySync fun s => { s with baseMode := m }

/-- `ca_sync_set_archive_fd`. -/
def setArchiveFd (fd : Int) : SyncM σ Unit := do
  if fd < 0 then fail (-EINVAL)
  let s ← getSync
  if s.archiveFd ≥ 0 then fail (-EBUSY)
  if s.archivePath.isSome then fail (-EBUSY)
  modifySync fun s => { s with archiveFd := fd }

/-- `ca_sync_set_archive_path`: kept for `ca_sync_start` in ENCODE mode, opened for
reading at once in DECODE mode. -/
def setArchivePath (path : Option String) : SyncM σ Unit := do
  let some path := path | fail (-EINVAL)
  let s ← getSync
  if s.archiveFd ≥ 0 then fail (-EBUSY)
  if s.archivePath.isSome then fail (-EBUSY)
  match s.direction with
  | .encode =>
      if !(← call E (.strdup path)) then fail (-ENOMEM)
      modifySync fun s => { s with archivePath := some path }
  | .decode =>
      match ← call E (.openFile path .readOnly) with
      | .ok fd => modifySync fun s => { s with archiveFd := fd }
      | .error r =>
          modifySync fun s => { s with archiveFd := -1 }
          fail r

/-- `if (r < 0) { ca_store_unref(store); return r; }` after configuring a new store. -/
def orReleaseStore : Except Int Unit → SyncM σ Unit
  | .ok () => pure ()
  | .error r => do
      call E .storeUnref
      fail r

/-- `ca_sync_set_store_local`: the new store is released again if it cannot be set up. -/
def setStoreLocal (path : Option String) : SyncM σ Unit := do
  let some path := path | fail (-EINVAL)
  if (← getSync).wstore.isSome then fail (-EBUSY)
  if !(← call E .storeNew) then fail (-ENOMEM)
  orReleaseStore E (← call E (.storeSetLocal path))
  modifySync fun s => { s with wstore := some path }

/-- `ca_sync_add_seed_store_local`: the new store is released again if it cannot be set up or
the array of seed stores cannot grow. -/
def addSeedStoreLocal (path : Option String) : SyncM σ Unit := do
  let some path := path | fail (-EINVAL)
  if !(← call E .storeNew) then fail (-ENOMEM)
  orReleaseStore E (← call E (.storeSetLocal path))
  if !(← call E (.realloc ((← getSync).rstores.length + 1))) then
    call E .storeUnref
    fail (-ENOMEM)
  modifySync fun s => { s with rstores := s.rstores ++ [path] }

end Casync
