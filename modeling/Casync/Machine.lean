import Casync.Chunker

/-!
How the driver meets the rest of the system. Every call to the file system, the
allocator, libgcrypt, the index, the stores, the encoder or the decoder is an entry of
a log, answered by an environment that may depend on all earlier calls; a driver
function is a computation over the `CaSync` record and that log.
-/

namespace Casync

/-- The flags (and creation mode) of an `open(2)` call: `directory` is
`O_RDONLY|O_CLOEXEC|O_NOCTTY|O_DIRECTORY`, `readOnly` drops `O_DIRECTORY`, `writeOnly` is
`O_WRONLY|O_CLOEXEC|O_NOCTTY`, and `createExcl perm` adds `O_CREAT|O_EXCL` with mode
`perm`. -/
inductive OpenHow
  | directory
  | readOnly
  | writeOnly
  | createExcl (perm : UInt32)
  deriving DecidableEq, Repr

/-- A call out of the driver, with its arguments. -/
inductive Call
  | openFile (path : String) (how : OpenHow)
  | mkdir (path : String)
  | rename (oldpath newpath : String)
  | unlink (path : String)
  | tempfnRandom (path : String)
  | loopWrite (fd : Int) (data : Bytes)
  | strdup (s : String)
  | realloc (n : Nat)
  | reallocBufferAppend (data : Bytes)
  | free (data : Bytes)
  | mdOpen
  | indexNewWrite
  | indexNewRead
  | indexSetFd (fd : Int)
  | indexSetPath (path : String)
  | indexOpen
  | indexWriteObject (id : ObjectId) (size : Nat)
  | indexSetDigest (digest : ObjectId)
  | indexWriteEof
  | indexClose
  | indexReadObject
  | indexUnref
  | storeNew
  | storeSetLocal (path : String)
  | storeGet (store : Option String) (id : ObjectId)
  | storePut (store : Option String) (id : ObjectId) (data : Bytes)
  | storeUnref
  | encoderNew
  | encoderSetBaseFd (fd : Int)
  | encoderStep
  | encoderGetData
  | encoderCurrentPath
  | encoderCurrentMode
  | decoderNew
  | decoderSetBaseFd (fd : Int)
  | decoderSetBaseMode (mode : UInt32)
  | decoderStep
  | decoderPutData (data : Bytes)
  | decoderPutDataFd (fd : Int)
  | decoderPutEof
  | decoderCurrentPath
  | decoderCurrentMode

/-- What a call returns. `.error r` is a failure the driver passes on as `r` (`-errno`
for a system call); an allocation returns `false` for `NULL`; `free` returns the bytes
the freed block holds afterwards, at each offset; releasing an index or a store returns
nothing. -/
def Call.Ret : Call → Type
  | .openFile .. => Except Int Nat
  | .tempfnRandom .. => Except Int String
  | .strdup .. | .realloc .. | .reallocBufferAppend .. | .mdOpen | .indexNewWrite
  | .indexNewRead | .storeNew | .encoderNew | .decoderNew => Bool
  | .free .. => Nat → UInt8
  | .indexUnref | .storeUnref => Unit
  | .indexReadObject => Except Int (Option (ObjectId × Nat))
  | .storeGet .. | .encoderGetData => Except Int Bytes
  | .encoderStep => Except Int EncoderStatus
  | .decoderStep => Except Int DecoderStatus
  | .encoderCurrentPath | .decoderCurrentPath => Except Int String
  | .encoderCurrentMode | .decoderCurrentMode => Except Int UInt32
  | _ => Except Int Unit

/-- What a call returns when it succeeds with nothing to report: descriptor 3 for an open,
`path ++ "~"` from `tempfn_random`, success for allocations and `md_open`, no data, EOF from
the index, `-ENOENT` from a store, `CA_ENCODER_FINISHED` and `CA_DECODER_FINISHED`, and a
zeroed block after `free`. -/
def Call.okRet : (c : Call) → c.Ret
  | .openFile .. => .ok 3
  | .tempfnRandom p => .ok (p ++ "~")
  | .strdup .. | .realloc .. | .reallocBufferAppend .. | .mdOpen | .indexNewWrite
  | .indexNewRead | .storeNew | .encoderNew | .decoderNew => true
  | .free .. => fun _ => 0
  | .indexUnref | .storeUnref => ()
  | .indexReadObject => .ok none
  | .storeGet .. => .error (-ENOENT)
  | .encoderGetData => .ok []
  | .encoderStep => .ok .finished
  | .decoderStep => .ok .finished
  | .encoderCurrentPath | .decoderCurrentPath => .ok ""
  | .encoderCurrentMode | .decoderCurrentMode => .ok 0
  | .mkdir .. | .rename .. | .unlink .. | .loopWrite .. | .indexSetFd .. | .indexSetPath ..
  | .indexOpen | .indexWriteObject .. | .indexSetDigest .. | .indexWriteEof | .indexClose
  | .storeSetLocal .. | .storePut .. | .encoderSetBaseFd .. | .decoderSetBaseFd ..
  | .decoderSetBaseMode .. | .decoderPutData .. | .decoderPutDataFd .. | .decoderPutEof => .ok ()

/-- One entry of the log: a call and what it returned. -/
structure Event where
  call : Call
  ret : call.Ret

/-- The driver's surroundings: the answer to each call given the calls before it, the
chunker, and SHA-256. -/
structure Env (σ : Type) where
  answer : List Event → (c : Call) → c.Ret
  chunker : Chunker σ
  sha256 : Bytes → ObjectId

/-- A driver with the log of the calls it has made. -/
structure Sys (σ : Type) where
  sync : CaSync σ
  log : List Event

/-- How a driver function stops short: it returns the negative value `r`, or an `assert`
fails and the process aborts. -/
inductive Fault
  | ret (r : Int)
  | abort
  deriving DecidableEq, Repr

instance decEqExcept {ε α : Type} [DecidableEq ε] [DecidableEq α] : DecidableEq (Except ε α)
  | .ok a, .ok b => decidable_of_iff (a = b) (by simp)
  | .error a, .error b => decidable_of_iff (a = b) (by simp)
  | .ok _, .error _ => isFalse (by simp)
  | .error _, .ok _ => isFalse (by simp)

/-- A driver function. -/
abbrev SyncM (σ α : Type) := EStateM Fault (Sys σ) α

variable {σ α β : Type}

def getSync : SyncM σ (CaSync σ) := fun s => .ok s.sync s

def modifySync (f : CaSync σ → CaSync σ) : SyncM σ Unit := fun s =>
  .ok () { s with sync := f s.sync }

/-- Make the call `c`, log it with its answer, and return the answer. -/
def call (E : Env σ) (c : Call) : SyncM σ c.Ret := fun s =>
  .ok (E.answer s.log c) { s with log := s.log ++ [⟨c, E.answer s.log c⟩] }

/-- `return r;` for a negative `r`. -/
def fail (r : Int) : SyncM σ α := throw (.ret r)

/-- `if (r < 0) return r;` after a call. -/
def orFail : Except Int α → SyncM σ α
  | .ok a => pure a
  | .error r => fail r

def assert (c : Bool) : SyncM σ Unit := if c then pure () else throw .abort

/-- The state a computation leaves, whatever its outcome. -/
def after (m : SyncM σ α) (s : Sys σ) : Sys σ :=
  match m.run s with
  | .ok _ s' => s'
  | .error _ s' => s'

/-- The outcome of a computation. -/
def outcome (m : SyncM σ α) (s : Sys σ) : Except Fault α :=
  match m.run s with
  | .ok a _ => .ok a
  | .error e _ => .error e

section Lemmas

variable {m : SyncM σ α} {f : α → SyncM σ β} {s s' : Sys σ} {a : α} {b : β} {e : Fault}

@[simp] theorem run_pure : (pure a : SyncM σ α).run s = .ok a s := rfl

@[simp] theorem run_getSync : (getSync : SyncM σ _).run s = .ok s.sync s := rfl

@[simp] theorem run_modifySync (g : CaSync σ → CaSync σ) :
    (modifySync g).run s = .ok () { s with sync := g s.sync } := rfl

@[simp] theorem run_call (E : Env σ) (c : Call) :
    (call E c).run s = .ok (E.answer s.log c) { s with log := s.log ++ [⟨c, E.answer s.log c⟩] } :=
  rfl

@[simp] theorem run_fail (r : Int) : (fail r : SyncM σ α).run s = .error (.ret r) s := rfl

@[simp] theorem run_orFail_ok : (orFail (.ok a) : SyncM σ α).run s = .ok a s := rfl

@[simp] theorem run_orFail_error (r : Int) :
    (orFail (.error r) : SyncM σ α).run s = .error (.ret r) s := rfl

theorem run_bind :
    (m >>= f).run s = match m.run s with
      | .ok a s' => (f a).run s'
      | .error e s' => .error e s' := by
  delta EStateM.run
  simp only [bind, EStateM.bind]
  split <;> simp_all

theorem run_map (g : α → β) :
    (g <$> m).run s = match m.run s with
      | .ok a s' => .ok (g a) s'
      | .error e s' => .error e s' := by
  show (m >>= fun a => pure (g a)).run s = _
  rw [run_bind]
  cases m.run s <;> rfl

@[simp] theorem run_bind_ok (h : m.run s = .ok a s') : (m >>= f).run s = (f a).run s' := by
  rw [run_bind, h]

@[simp] theorem run_bind_error (h : m.run s = .error e s') :
    (m >>= f).run s = .error e s' := by
  rw [run_bind, h]

/-- A bound computation that succeeds ran both halves successfully. -/
theorem bind_ok (h : (m >>= f).run s = .ok b s') :
    ∃ a s₁, m.run s = .ok a s₁ ∧ (f a).run s₁ = .ok b s' := by
  rw [run_bind] at h
  split at h
  · exact ⟨_, _, ‹_›, h⟩
  · cases h

/-- A bound computation that fails failed in its first half or in its second. -/
theorem bind_error (h : (m >>= f).run s = .error e s') :
    m.run s = .error e s' ∨ ∃ a s₁, m.run s = .ok a s₁ ∧ (f a).run s₁ = .error e s' := by
  rw [run_bind] at h
  split at h
  · exact .inr ⟨_, _, ‹_›, h⟩
  · cases h
    exact .inl ‹_›

end Lemmas

end Casync
