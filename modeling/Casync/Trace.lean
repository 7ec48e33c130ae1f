import Mathlib.Algebra.Ring.Int.Defs
import Casync.Api

/-!
What the log of calls shows: the byte stream the encoder handed out, the objects put to a
store, the records written to the index, the bytes written to the archive; and on the
DECODE side the records read from the index, the bytes handed to the decoder and the bytes
read back from released buffers.
-/

namespace Casync

/-- The bytes a successful `ca_encoder_get_data` handed out. -/
def Event.encoded : Event → Bytes
  | ⟨.encoderGetData, .ok p⟩ => p
  | _ => []

/-- A `ca_store_put` call: the store, the object id and the bytes. -/
def Event.putOf : Event → Option (Option String × ObjectId × Bytes)
  | ⟨.storePut store id p, _⟩ => some (store, id, p)
  | _ => none

/-- A `ca_index_write_object` call: the id and the size. -/
def Event.indexWriteOf : Event → Option (ObjectId × Nat)
  | ⟨.indexWriteObject id size, _⟩ => some (id, size)
  | _ => none

/-- The bytes of a `loop_write` call on the archive descriptor. -/
def Event.archived : Event → Bytes
  | ⟨.loopWrite _ p, _⟩ => p
  | _ => []

/-- A `rename` that succeeded: the file moved and where to. -/
def Event.movedOf : Event → Option (String × String)
  | ⟨.rename a b, .ok ()⟩ => some (a, b)
  | _ => none

/-- What a successful `ca_index_read_object` reported: a record, or `none` at the end. -/
def Event.readOf : Event → Option (Option (ObjectId × Nat))
  | ⟨.indexReadObject, .ok r⟩ => some r
  | _ => none

/-- The bytes of a `ca_decoder_put_data` call. -/
def Event.handedOf : Event → Option Bytes
  | ⟨.decoderPutData p, _⟩ => some p
  | _ => none

/-- What the block released by `free p` holds afterwards, at the offsets of `p`. -/
def Event.freedOf : Event → Bytes
  | ⟨.free p, freed⟩ => (List.range p.length).map freed
  | _ => []

/-- Whether a `ca_decoder_step` asked for data. -/
def Event.requested : Event → Bool
  | ⟨.decoderStep, .ok .request⟩ => true
  | _ => false

/-- The indexes a call leaves the driver holding: one more for an index created, one fewer for
one released. -/
def Event.indexHeld : Event → Int
  | ⟨.indexNewWrite, true⟩ | ⟨.indexNewRead, true⟩ => 1
  | ⟨.indexUnref, _⟩ => -1
  | _ => 0

/-- The stores a call leaves the driver holding: one more for a store created, one fewer for one
released. -/
def Event.storeHeld : Event → Int
  | ⟨.storeNew, true⟩ => 1
  | ⟨.storeUnref, _⟩ => -1
  | _ => 0

/-- Whether a `ca_encoder_step` returned `CA_ENCODER_DATA` or `CA_ENCODER_NEXT_FILE`, after which
the encoder holds a slice for `ca_encoder_get_data`. -/
def Event.handsData : Event → Bool
  | ⟨.encoderStep, .ok .data⟩ | ⟨.encoderStep, .ok .nextFile⟩ => true
  | _ => false

/-- The bytes the driver fetched from the encoder, in order. -/
def stream (log : List Event) : Bytes := (log.map Event.encoded).flatten

/-- The slices the encoder returned over `log`, in order: after each `ca_encoder_step` that
returned `CA_ENCODER_DATA` or `CA_ENCODER_NEXT_FILE`, what `ca_encoder_get_data` answers
against the log up to that step, whether the driver asks for it or not. `pre` is the log
before `log`. -/
def offered (answer : List Event → (c : Call) → c.Ret) :
    List Event → List Event → List (Except Int Bytes)
  | _, [] => []
  | pre, e :: log =>
      (if e.handsData then [answer (pre ++ [e]) .encoderGetData] else [] : List (Except Int Bytes)) ++
        offered answer (pre ++ [e]) log

/-- The calls to `ca_store_put`, in order. -/
def puts (log : List Event) : List (Option String × ObjectId × Bytes) := log.filterMap Event.putOf

/-- The calls to `ca_index_write_object`, in order. -/
def indexWrites (log : List Event) : List (ObjectId × Nat) := log.filterMap Event.indexWriteOf

/-- The bytes written to the archive, in order. -/
def archived (log : List Event) : Bytes := (log.map Event.archived).flatten

/-- The files moved by `rename`, in order. -/
def moved (log : List Event) : List (String × String) := log.filterMap Event.movedOf

/-- The index reads that succeeded, in order. -/
def reads (log : List Event) : List (Option (ObjectId × Nat)) := log.filterMap Event.readOf

/-- The byte slices handed to the decoder, in order. -/
def handed (log : List Event) : List Bytes := log.filterMap Event.handedOf

/-- The bytes read back from released buffers, in order. -/
def freedBytes (log : List Event) : Bytes := (log.map Event.freedOf).flatten

/-- How many times the decoder asked for data. -/
def requests (log : List Event) : Nat := (log.filter Event.requested).length

/-- The indexes created and not released again. -/
def heldIndexes (log : List Event) : Int := (log.map Event.indexHeld).sum

/-- The stores created and not released again. -/
def heldStores (log : List Event) : Int := (log.map Event.storeHeld).sum

@[simp] theorem heldIndexes_append (l l' : List Event) :
    heldIndexes (l ++ l') = heldIndexes l + heldIndexes l' := by
  induction l <;> simp_all [heldIndexes, Int.add_assoc]

@[simp] theorem heldStores_append (l l' : List Event) :
    heldStores (l ++ l') = heldStores l + heldStores l' := by
  induction l <;> simp_all [heldStores, Int.add_assoc]

@[simp] theorem heldIndexes_nil : heldIndexes [] = 0 := rfl

@[simp] theorem heldStores_nil : heldStores [] = 0 := rfl

@[simp] theorem heldIndexes_cons (e : Event) (l : List Event) :
    heldIndexes (e :: l) = e.indexHeld + heldIndexes l := by
  simp [heldIndexes]

@[simp] theorem heldStores_cons (e : Event) (l : List Event) :
    heldStores (e :: l) = e.storeHeld + heldStores l := by
  simp [heldStores]

@[simp] theorem requests_append (l l' : List Event) :
    requests (l ++ l') = requests l + requests l' := by
  simp [requests]

@[simp] theorem requests_nil : requests [] = 0 := rfl

@[simp] theorem requests_singleton (e : Event) :
    requests [e] = if e.requested then 1 else 0 := by
  cases h : e.requested <;> simp [requests, h]

@[simp] theorem reads_append (l l' : List Event) : reads (l ++ l') = reads l ++ reads l' := by
  simp [reads]

@[simp] theorem handed_append (l l' : List Event) : handed (l ++ l') = handed l ++ handed l' := by
  simp [handed]

@[simp] theorem freedBytes_append (l l' : List Event) :
    freedBytes (l ++ l') = freedBytes l ++ freedBytes l' := by
  simp [freedBytes]

@[simp] theorem reads_nil : reads [] = [] := rfl
@[simp] theorem handed_nil : handed [] = [] := rfl
@[simp] theorem freedBytes_nil : freedBytes [] = [] := rfl

@[simp] theorem reads_singleton (e : Event) : reads [e] = e.readOf.toList := by
  cases h : e.readOf <;> simp [reads, h]
@[simp] theorem handed_singleton (e : Event) : handed [e] = e.handedOf.toList := by
  cases h : e.handedOf <;> simp [handed, h]
@[simp] theorem freedBytes_singleton (e : Event) : freedBytes [e] = e.freedOf := by
  simp [freedBytes]

@[simp] theorem moved_append (l l' : List Event) : moved (l ++ l') = moved l ++ moved l' := by
  simp [moved]

@[simp] theorem moved_nil : moved [] = [] := rfl

@[simp] theorem moved_singleton (e : Event) : moved [e] = e.movedOf.toList := by
  cases h : e.movedOf <;> simp [moved, h]

@[simp] theorem stream_append (l l' : List Event) : stream (l ++ l') = stream l ++ stream l' := by
  simp [stream]

@[simp] theorem puts_append (l l' : List Event) : puts (l ++ l') = puts l ++ puts l' := by
  simp [puts]

@[simp] theorem indexWrites_append (l l' : List Event) :
    indexWrites (l ++ l') = indexWrites l ++ indexWrites l' := by
  simp [indexWrites]

@[simp] theorem archived_append (l l' : List Event) :
    archived (l ++ l') = archived l ++ archived l' := by
  simp [archived]

@[simp] theorem offered_nil (answer : List Event → (c : Call) → c.Ret) (pre : List Event) :
    offered answer pre [] = [] := rfl

@[simp] theorem offered_append (answer : List Event → (c : Call) → c.Ret) :
    ∀ (pre l l' : List Event),
      offered answer pre (l ++ l') = offered answer pre l ++ offered answer (pre ++ l) l'
  | _, [], _ => by simp
  | pre, e :: l, l' => by
      rw [List.cons_append, offered, offered, offered_append _ (pre ++ [e]) l l',
        List.append_assoc, List.append_assoc, List.singleton_append]

@[simp] theorem offered_singleton (answer : List Event → (c : Call) → c.Ret) (pre : List Event)
    (e : Event) : offered answer pre [e] =
      (if e.handsData then [answer (pre ++ [e]) .encoderGetData] else [] : List (Except Int Bytes)) := by
  simp [offered]

@[simp] theorem stream_nil : stream [] = [] := rfl
@[simp] theorem puts_nil : puts [] = [] := rfl
@[simp] theorem indexWrites_nil : indexWrites [] = [] := rfl
@[simp] theorem archived_nil : archived [] = [] := rfl

@[simp] theorem stream_singleton (e : Event) : stream [e] = e.encoded := by simp [stream]
@[simp] theorem puts_singleton (e : Event) : puts [e] = e.putOf.toList := by
  cases h : e.putOf <;> simp [puts, h]
@[simp] theorem indexWrites_singleton (e : Event) : indexWrites [e] = e.indexWriteOf.toList := by
  cases h : e.indexWriteOf <;> simp [indexWrites, h]
@[simp] theorem archived_singleton (e : Event) : archived [e] = e.archived := by
  simp [archived]

/-- From `l` to `l'` the log grew and its four views grew by `st`, `ps`, `iw` and `ar`. -/
def Grows (l l' : List Event) (st : Bytes) (ps : List (Option String × ObjectId × Bytes))
    (iw : List (ObjectId × Nat)) (ar : Bytes) : Prop :=
  stream l' = stream l ++ st ∧ puts l' = puts l ++ ps ∧ indexWrites l' = indexWrites l ++ iw ∧
    archived l' = archived l ++ ar

namespace Grows

variable {l₁ l₂ l₃ : List Event} {st st' ar ar' : Bytes}
  {ps ps' : List (Option String × ObjectId × Bytes)} {iw iw' : List (ObjectId × Nat)}

theorem refl (l : List Event) : Grows l l [] [] [] [] := by simp [Grows]

theorem trans (h : Grows l₁ l₂ st ps iw ar) (h' : Grows l₂ l₃ st' ps' iw' ar') :
    Grows l₁ l₃ (st ++ st') (ps ++ ps') (iw ++ iw') (ar ++ ar') := by
  obtain ⟨h₁, h₂, h₃, h₄⟩ := h
  obtain ⟨h₁', h₂', h₃', h₄'⟩ := h'
  simp [Grows, *]

end Grows

end Casync
