import Casync.Frame

/-!
Concrete surroundings for exhibiting runs of the driver: every call succeeds with nothing
to report, and a scenario overrides the calls it is about (an encoder that hands out given
slices, a store that fails, a hasher that cannot be opened).
-/

namespace Casync

/-- An encoder that hands out the slice `d` with `CA_ENCODER_DATA` at its first step and
reports `CA_ENCODER_FINISHED` afterwards; every other call succeeds. -/
def sliceOnce (d : Bytes) : List Event → (c : Call) → c.Ret
  | log, .encoderStep => if countCalls .encoderStep log = 0 then .ok .data else .ok .finished
  | _, .encoderGetData => .ok d
  | _, c => c.okRet

/-- A chunker that never cuts: a stream is stored as one chunk. -/
def noCuts : Chunker Unit := ⟨(), fun _ _ => some ()⟩

/-- A stand-in for SHA-256 in concrete runs: the first 32 bytes, padded with zeros. -/
def digestStub (p : Bytes) : ObjectId := ⟨(p ++ List.replicate 32 0).take 32, by simp⟩

/-- Surroundings in which the encoder hands out the one slice `d`, with the chunker
`noCuts`. -/
def sliceEnv (d : Bytes) : Env Unit := ⟨sliceOnce d, noCuts, digestStub⟩

/-- An ENCODE configuration with base descriptor 5, the local store `store` and the index on
descriptor 7. -/
def indexConfig : List Setter := [.baseFd 5, .storeLocal (some "store"), .indexFd 7]

/-- Surroundings in which every call succeeds and the encoder finishes at once, with an
empty stream. -/
def emptyEnv : Env Unit := ⟨fun _ c => c.okRet, noCuts, digestStub⟩

/-- An ENCODE configuration with base descriptor 5, the local store `store` and the archive path
`out`. -/
def archiveConfig : List Setter := [.baseFd 5, .storeLocal (some "store"), .archivePath (some "out")]

/-- Surroundings in which the encoder hands out the one slice `d` and every `ca_store_put`
fails with `-EIO`. -/
def storeDownEnv (d : Bytes) : Env Unit := ⟨fun log c => match c with
  | .storePut .. => .error (- EIO)
  | c => sliceOnce d log c, noCuts, digestStub⟩

/-- A DECODE configuration: base descriptor 5, the local store `store` and the index on
descriptor 7. -/
def decodeConfig : List Setter := [.baseFd 5, .storeLocal (some "store"), .indexFd 7]

/-- A DECODE run fed from the archive descriptor: the decoder asks for input at its first
step and finishes at the next. -/
def archiveFedEnv : Env Unit := ⟨fun log c => match c with
  | .decoderStep => if countCalls .decoderStep log = 0 then .ok .request else .ok .finished
  | c => c.okRet, noCuts, digestStub⟩

/-- A DECODE configuration with base descriptor 5 and the archive on descriptor 9. -/
def archiveDecodeConfig : List Setter := [.baseFd 5, .archiveFd 9]

end Casync
