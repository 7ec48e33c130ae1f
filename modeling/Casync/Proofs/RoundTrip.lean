import Casync.Proofs.Replay
import Casync.Proofs.ChunkPartition

/-!
ENCODE followed by DECODE. The index and the store an ENCODE run wrote are read back by a
DECODE run whose decoder asks for data until its input is ended. When SHA-256 tells the stored
chunks apart, every record's object is found with its recorded size, the DECODE run finishes,
and the decoder receives the encoder's stream, chunk by chunk. The archive digest of the DECODE
run, though, is fed from released buffers, so `ca_sync_get_digest` need not agree between the
two runs.
-/

namespace Casync.Proofs.RoundTrip

open Casync.Proofs.Frames Casync.Proofs.EncodeSpec Casync.Proofs.Runs Casync.Proofs.Stores
  Casync.Proofs.Requests Casync.Proofs.ChunkPartition Casync.Proofs.Replay Casync.Proofs.Slices

variable {σ : Type} (E : Env σ)

/-- What a store that received the puts `ps` answers, whatever its slot: the bytes of the first
put under `id`, or `-ENOENT`. -/
def storeOf (ps : List (Option String × ObjectId × Bytes)) (_ : Option String) (id : ObjectId) :
    Except Int Bytes :=
  match ps.find? (·.2.1 = id) with
  | some (_, _, p) => .ok p
  | none => .error (-ENOENT)

/-- The DECODE surroundings that read back the index records and the store that the ENCODE log
`log` wrote. -/
def replayOf (log : List Event) : Env Unit := replayEnv (indexWrites log) (storeOf (puts log))

/-- The ENCODE run of `[1, 2, 3]` with the store `store` and an index, in two steps. -/
def encodeOnce : Sys Unit × List (Op × Except Fault Reply) :=
  runOps (sliceEnv [1, 2, 3]) (configure (sliceEnv [1, 2, 3]) .encode indexConfig) [.step, .step]

/-- The DECODE run over what `encodeOnce` wrote, in three steps. -/
def decodeReplay : Sys Unit × List (Op × Except Fault Reply) :=
  runOps (replayOf encodeOnce.1.log) (configure (replayOf encodeOnce.1.log) .decode decodeConfig)
    [.step, .step, .step]

/-- Both runs reach `CA_SYNC_FINISHED`, the decoder receives the stream `[1, 2, 3]` and then the
end of its input, yet `ca_sync_get_digest` returns SHA-256 of the stream after ENCODE and of the
zeroed released block after DECODE. -/
theorem round_trip_digests_differ :
    encodeOnce.2 = [(.step, .ok (.status .step)), (.step, .ok (.status .finished))] ∧
      decodeReplay.2 = [(.step, .ok (.status .step)), (.step, .ok (.status .step)),
        (.step, .ok (.status .finished))] ∧
      (handed decodeReplay.1.log).flatten = stream encodeOnce.1.log ∧
      countCalls .decoderPutEof decodeReplay.1.log = 1 ∧
      outcome (getDigest (sliceEnv [1, 2, 3])) encodeOnce.1 = .ok (digestStub [1, 2, 3]) ∧
      outcome (getDigest (replayOf encodeOnce.1.log)) decodeReplay.1 =
        .ok (digestStub [0, 0, 0]) ∧
      digestStub [0, 0, 0] ≠ digestStub [1, 2, 3] := by
  decide

end Casync.Proofs.RoundTrip
