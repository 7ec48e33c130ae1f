import Casync.Api
import Casync.Trace
import Casync.Frame
import Casync.OnOk
import Casync.Scenarios
import Casync.Proofs.Frames
import Casync.Proofs.EncodeSpec
import Casync.Proofs.Runs
import Casync.Proofs.Slices
import Casync.Proofs.ChunkPartition
import Casync.Proofs.ArchiveDigest
import Casync.Proofs.IndexFinal
import Casync.Wp
import Casync.Proofs.Atomic
import Casync.Proofs.Latch
import Casync.Proofs.Temporaries
import Casync.Proofs.Configure
import Casync.Proofs.Stores
import Casync.Proofs.Requests
import Casync.Proofs.RoundTrip
import Casync.Proofs.FailedSetters
import Casync.Proofs.Assertions
import Casync.Proofs.Replay
import Casync.Proofs.IndexBacked
import Casync.Proofs.Sides
import Casync.Proofs.Handover
import Casync.Proofs.Forward
import Casync.Proofs.Storeless
import Casync.Proofs.DecodeDigest
import Casync.Proofs.DecodeForward
