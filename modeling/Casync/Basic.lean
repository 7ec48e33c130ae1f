import Mathlib.Data.List.Basic

/-!
The data of the synchronization driver of `src/casync.c`: the `CaSync` record and the
values it exchanges with its collaborators. Lengths are `Nat`, descriptors and return
values `Int`, `mode_t` is `UInt32`.
-/

namespace Casync

/-- A byte buffer `(const void *p, size_t l)`. -/
abbrev Bytes := List UInt8

/-- `ObjectID`: a 32-byte SHA-256 value. -/
def ObjectId := { bytes : List UInt8 // bytes.length = 32 }

instance : DecidableEq ObjectId :=
  inferInstanceAs (DecidableEq { bytes : List UInt8 // bytes.length = 32 })

/-! Error numbers (`<errno.h>`); the driver returns them negated. -/

def EIO : Int := 5
def ENOENT : Int := 2
def ENOMEM : Int := 12
def EBUSY : Int := 16
def EEXIST : Int := 17
def ENOTDIR : Int := 20
def EINVAL : Int := 22
def ENOTTY : Int := 25
def EROFS : Int := 30
def EPIPE : Int := 32
def EUNATCH : Int := 49
def EBADMSG : Int := 74

/-! File modes (`<sys/stat.h>`). -/

def S_IFMT : UInt32 := 0o170000
def S_IFDIR : UInt32 := 0o040000
def S_IFBLK : UInt32 := 0o060000
def S_IFREG : UInt32 := 0o100000
def S_IRUSR : UInt32 := 0o400
def S_IWUSR : UInt32 := 0o200
def S_IRGRP : UInt32 := 0o040
def S_IWGRP : UInt32 := 0o020
def S_IROTH : UInt32 := 0o004
def S_IWOTH : UInt32 := 0o002

def S_ISREG (m : UInt32) : Bool := m &&& S_IFMT == S_IFREG
def S_ISDIR (m : UInt32) : Bool := m &&& S_IFMT == S_IFDIR
def S_ISBLK (m : UInt32) : Bool := m &&& S_IFMT == S_IFBLK

/-- `(mode_t) -1`: no mode configured. -/
def modeUnset : UInt32 := 0xFFFFFFFF

/-- `CaDirection`. -/
inductive CaDirection
  | encode
  | decode
  deriving DecidableEq, Repr

/-- The non-negative results of `ca_encoder_step`; `other` is a code the driver's
`switch` does not list. -/
inductive EncoderStatus
  | finished
  | nextFile
  | data
  | other (code : Nat)
  deriving DecidableEq, Repr

/-- The non-negative results of `ca_decoder_step`. -/
inductive DecoderStatus
  | finished
  | nextFile
  | step
  | payload
  | request
  | other (code : Nat)
  deriving DecidableEq, Repr

/-- The non-negative results of `ca_sync_step`. -/
inductive SyncStatus
  | finished
  | nextFile
  | step
  deriving DecidableEq, Repr

/-- `struct CaSync`. A collaborator object is present or not (`encoder`, `decoder`,
`index`); a store is named by the local path it was set to; a hasher holds the bytes
written to it since it was opened or reset. -/
structure CaSync (σ : Type) where
  direction : CaDirection
  encoder : Bool
  decoder : Bool
  wstore : Option String
  rstores : List String
  chunker : σ
  baseFd : Int
  archiveFd : Int
  basePath : Option String
  archivePath : Option String
  temporaryBasePath : Option String
  temporaryArchivePath : Option String
  baseMode : UInt32
  makePermMode : UInt32
  buffer : Bytes
  objectDigest : Option Bytes
  archiveDigest : Option Bytes
  index : Bool
  eof : Bool

/-- `ca_sync_new`: a zeroed record with both descriptors `-1` and both modes unset;
`chunker` is the chunker's initial state. -/
def caSyncNew {σ : Type} (chunker : σ) (direction : CaDirection) : CaSync σ where
  direction := direction
  encoder := false
  decoder := false
  wstore := none
  rstores := []
  chunker := chunker
  baseFd := -1
  archiveFd := -1
  basePath := none
  archivePath := none
  temporaryBasePath := none
  temporaryArchivePath := none
  baseMode := modeUnset
  makePermMode := modeUnset
  buffer := []
  objectDigest := none
  archiveDigest := none
  index := false
  eof := false

end Casync
