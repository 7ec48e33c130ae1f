import Casync.Trace

/-!
Frame conditions for driver functions: which fields of `CaSync` a function may change and
which kinds of call it may make, whatever its outcome. A function's frame is proved once,
by the composition rules below, and every invariant that only reads other fields and other
calls is then kept by it without looking inside.
-/

namespace Casync

/-- The kind of a call, forgetting its arguments; an exclusive creation (`O_CREAT|O_EXCL`)
is told apart from other opens. -/
inductive CallKind
  | openFile | create | mkdir | rename | unlink | tempfnRandom | loopWrite | strdup | realloc
  | reallocBufferAppend | free | mdOpen | indexNewWrite | indexNewRead | indexSetFd
  | indexSetPath | indexOpen | indexWriteObject | indexSetDigest | indexWriteEof | indexClose
  | indexReadObject | indexUnref | storeNew | storeSetLocal | storeGet | storePut | storeUnref
  | encoderNew
  | encoderSetBaseFd | encoderStep | encoderGetData | encoderCurrentPath | encoderCurrentMode
  | decoderNew | decoderSetBaseFd | decoderSetBaseMode | decoderStep | decoderPutData
  | decoderPutDataFd | decoderPutEof | decoderCurrentPath | decoderCurrentMode
  deriving DecidableEq, Repr

def Call.kind : Call → CallKind
  | .openFile _ (.createExcl _) => .create
  | .openFile .. => .openFile
  | .mkdir .. => .mkdir
  | .rename .. => .rename
  | .unlink .. => .unlink
  | .tempfnRandom .. => .tempfnRandom
  | .loopWrite .. => .loopWrite
  | .strdup .. => .strdup
  | .realloc .. => .realloc
  | .reallocBufferAppend .. => .reallocBufferAppend
  | .free .. => .free
  | .mdOpen => .mdOpen
  | .indexNewWrite => .indexNewWrite
  | .indexNewRead => .indexNewRead
  | .indexSetFd .. => .indexSetFd
  | .indexSetPath .. => .indexSetPath
  | .indexOpen => .indexOpen
  | .indexWriteObject .. => .indexWriteObject
  | .indexSetDigest .. => .indexSetDigest
  | .indexWriteEof => .indexWriteEof
  | .indexClose => .indexClose
  | .indexReadObject => .indexReadObject
  | .indexUnref => .indexUnref
  | .storeNew => .storeNew
  | .storeSetLocal .. => .storeSetLocal
  | .storeGet .. => .storeGet
  | .storePut .. => .storePut
  | .storeUnref => .storeUnref
  | .encoderNew => .encoderNew
  | .encoderSetBaseFd .. => .encoderSetBaseFd
  | .encoderStep => .encoderStep
  | .encoderGetData => .encoderGetData
  | .encoderCurrentPath => .encoderCurrentPath
  | .encoderCurrentMode => .encoderCurrentMode
  | .decoderNew => .decoderNew
  | .decoderSetBaseFd .. => .decoderSetBaseFd
  | .decoderSetBaseMode .. => .decoderSetBaseMode
  | .decoderStep => .decoderStep
  | .decoderPutData .. => .decoderPutData
  | .decoderPutDataFd .. => .decoderPutDataFd
  | .decoderPutEof => .decoderPutEof
  | .decoderCurrentPath => .decoderCurrentPath
  | .decoderCurrentMode => .decoderCurrentMode

/-- The fields of `CaSync`. -/
inductive Field
  | direction | encoder | decoder | wstore | rstores | chunker | baseFd | archiveFd | basePath
  | archivePath | temporaryBasePath | temporaryArchivePath | baseMode | makePermMode | buffer
  | objectDigest | archiveDigest | index | eof
  deriving DecidableEq, Repr

variable {σ α β : Type}

/-- `t` with every field outside `F` taken back from `s`. -/
def CaSync.restore (F : List Field) (s t : CaSync σ) : CaSync σ where
  direction := if .direction ∈ F then t.direction else s.direction
  encoder := if .encoder ∈ F then t.encoder else s.encoder
  decoder := if .decoder ∈ F then t.decoder else s.decoder
  wstore := if .wstore ∈ F then t.wstore else s.wstore
  rstores := if .rstores ∈ F then t.rstores else s.rstores
  chunker := if .chunker ∈ F then t.chunker else s.chunker
  baseFd := if .baseFd ∈ F then t.baseFd else s.baseFd
  archiveFd := if .archiveFd ∈ F then t.archiveFd else s.archiveFd
  basePath := if .basePath ∈ F then t.basePath else s.basePath
  archivePath := if .archivePath ∈ F then t.archivePath else s.archivePath
  temporaryBasePath := if .temporaryBasePath ∈ F then t.temporaryBasePath else s.temporaryBasePath
  temporaryArchivePath :=
    if .temporaryArchivePath ∈ F then t.temporaryArchivePath else s.temporaryArchivePath
  baseMode := if .baseMode ∈ F then t.baseMode else s.baseMode
  makePermMode := if .makePermMode ∈ F then t.makePermMode else s.makePermMode
  buffer := if .buffer ∈ F then t.buffer else s.buffer
  objectDigest := if .objectDigest ∈ F then t.objectDigest else s.objectDigest
  archiveDigest := if .archiveDigest ∈ F then t.archiveDigest else s.archiveDigest
  index := if .index ∈ F then t.index else s.index
  eof := if .eof ∈ F then t.eof else s.eof

/-- `s'` agrees with `s` on every field outside `F`. -/
def Only (F : List Field) (s s' : CaSync σ) : Prop := CaSync.restore F s s' = s'

namespace Only

variable {F G : List Field} {s s' s'' : CaSync σ}

/-- Field by field: `s'` keeps each field of `s` that is not in `F`. -/
theorem iff : Only F s s' ↔
    (.direction ∉ F → s'.direction = s.direction) ∧ (.encoder ∉ F → s'.encoder = s.encoder) ∧
    (.decoder ∉ F → s'.decoder = s.decoder) ∧ (.wstore ∉ F → s'.wstore = s.wstore) ∧
    (.rstores ∉ F → s'.rstores = s.rstores) ∧ (.chunker ∉ F → s'.chunker = s.chunker) ∧
    (.baseFd ∉ F → s'.baseFd = s.baseFd) ∧ (.archiveFd ∉ F → s'.archiveFd = s.archiveFd) ∧
    (.basePath ∉ F → s'.basePath = s.basePath) ∧
    (.archivePath ∉ F → s'.archivePath = s.archivePath) ∧
    (.temporaryBasePath ∉ F → s'.temporaryBasePath = s.temporaryBasePath) ∧
    (.temporaryArchivePath ∉ F → s'.temporaryArchivePath = s.temporaryArchivePath) ∧
    (.baseMode ∉ F → s'.baseMode = s.baseMode) ∧
    (.makePermMode ∉ F → s'.makePermMode = s.makePermMode) ∧
    (.buffer ∉ F → s'.buffer = s.buffer) ∧
    (.objectDigest ∉ F → s'.objectDigest = s.objectDigest) ∧
    (.archiveDigest ∉ F → s'.archiveDigest = s.archiveDigest) ∧
    (.index ∉ F → s'.index = s.index) ∧ (.eof ∉ F → s'.eof = s.eof) := by
  cases s
  cases s'
  simp only [Only, CaSync.restore, CaSync.mk.injEq, ite_eq_left_iff]
  simp only [eq_comm]

theorem refl (s : CaSync σ) : Only F s s := by
  cases s
  simp only [Only, CaSync.restore, ite_self]

theorem trans (h : Only F s s') (h' : Only F s' s'') : Only F s s'' := by
  rw [iff] at *
  obtain ⟨_, _, _, _, _, _, _, _, _, _, _, _, _, _, _, _, _, _, _⟩ := h
  obtain ⟨_, _, _, _, _, _, _, _, _, _, _, _, _, _, _, _, _, _, _⟩ := h'
  simp_all

theorem mono (h : Only F s s') (hFG : F ⊆ G) : Only G s s' := by
  rw [iff] at *
  obtain ⟨_, _, _, _, _, _, _, _, _, _, _, _, _, _, _, _, _, _, _⟩ := h
  refine ⟨?_, ?_, ?_, ?_, ?_, ?_, ?_, ?_, ?_, ?_, ?_, ?_, ?_, ?_, ?_, ?_, ?_, ?_, ?_⟩ <;>
    intro hf <;> simp_all [fun f => mt (@hFG f)]

/-- A field outside `F`, read through `get`, is the same in `s'` as in `s`; `hget` is
closed by `rfl` once `F` is known. -/
theorem field {β : Type} (h : Only F s s') (get : CaSync σ → β)
    (hget : ∀ t, get (CaSync.restore F s t) = get s) : get s' = get s := by
  rw [← h]
  exact hget s'

end Only

/-- `m` changes only the fields `F` and makes only calls of the kinds `K`, whatever its
outcome. -/
def Footprint (K : List CallKind) (F : List Field) (m : SyncM σ α) : Prop :=
  ∀ s, Only F s.sync (after m s).sync ∧
    ∃ Δ, (after m s).log = s.log ++ Δ ∧ ∀ e ∈ Δ, e.call.kind ∈ K

theorem after_bind (m : SyncM σ α) (f : α → SyncM σ β) (s : Sys σ) :
    after (m >>= f) s = match m.run s with
      | .ok a s' => after (f a) s'
      | .error _ s' => s' := by
  unfold after
  rw [run_bind]
  cases m.run s <;> rfl

theorem after_bind_pure (m : SyncM σ α) (g : α → β) (s : Sys σ) :
    after (m >>= fun a => pure (g a)) s = after m s := by
  rw [after_bind]
  unfold after
  cases m.run s <;> rfl

namespace Footprint

variable {K : List CallKind} {F : List Field} {m : SyncM σ α} {f : α → SyncM σ β}

theorem pure (a : α) : Footprint K F (Pure.pure a : SyncM σ α) :=
  fun s => ⟨Only.refl _, [], by simp [after], by simp⟩

theorem getSync : Footprint K F (Casync.getSync : SyncM σ _) :=
  fun s => ⟨Only.refl _, [], by simp [after], by simp⟩

theorem throw (e : Fault) : Footprint K F (MonadExcept.throw e : SyncM σ α) :=
  fun s => ⟨Only.refl _, [], by rw [List.append_nil]; rfl, by simp⟩

theorem fail (r : Int) : Footprint K F (Casync.fail r : SyncM σ α) := throw _

theorem orFail (x : Except Int α) : Footprint K F (Casync.orFail x : SyncM σ α) := by
  cases x
  · exact fail _
  · exact pure _

theorem modify {g : CaSync σ → CaSync σ} (h : ∀ s, Only F s (g s)) :
    Footprint K F (modifySync g) :=
  fun s => ⟨h s.sync, [], by simp [after], by simp⟩

theorem call (E : Env σ) {c : Call} (h : K.elem c.kind = true) :
    Footprint K F (Casync.call E c) :=
  fun s => ⟨Only.refl _, [⟨c, E.answer s.log c⟩], by simp [after],
    by simpa using List.mem_of_elem_eq_true h⟩

theorem bind (hm : Footprint K F m) (hf : ∀ a, Footprint K F (f a)) :
    Footprint K F (m >>= f) := by
  intro s
  rw [after_bind]
  split
  · rename_i a s₁ h
    obtain ⟨h₁, Δ₁, hΔ₁, hK₁⟩ := hm s
    obtain ⟨h₂, Δ₂, hΔ₂, hK₂⟩ := hf a s₁
    simp only [after, h] at h₁ hΔ₁
    refine ⟨Only.trans h₁ h₂, Δ₁ ++ Δ₂, by simp [hΔ₂, hΔ₁], ?_⟩
    intro e he
    rcases List.mem_append.mp he with he | he
    exacts [hK₁ e he, hK₂ e he]
  · rename_i h
    have := hm s
    simpa only [after, h] using this

theorem ite {c : Prop} [Decidable c] {a b : SyncM σ α} (ha : Footprint K F a)
    (hb : Footprint K F b) : Footprint K F (if c then a else b) := by
  split
  exacts [ha, hb]

theorem mono {K' : List CallKind} {F' : List Field} (h : Footprint K F m) (hK : K ⊆ K')
    (hF : F ⊆ F') : Footprint K' F' m := fun s =>
  ⟨(h s).1.mono hF, (h s).2.imp fun _ ⟨h₁, h₂⟩ => ⟨h₁, fun e he => hK (h₂ e he)⟩⟩

end Footprint

/-- `m` keeps the property `P` of the driver record, whatever its outcome. -/
def Keeps (P : CaSync σ → Prop) (m : SyncM σ α) : Prop :=
  ∀ s, P s.sync → P (after m s).sync

namespace Keeps

variable {P : CaSync σ → Prop} {m : SyncM σ α} {f : α → SyncM σ β}

theorem pure (a : α) : Keeps P (Pure.pure a : SyncM σ α) := fun _ h => h

theorem getSync : Keeps P (Casync.getSync : SyncM σ _) := fun _ h => h

theorem throw (e : Fault) : Keeps P (MonadExcept.throw e : SyncM σ α) := fun _ h => h

theorem fail (r : Int) : Keeps P (Casync.fail r : SyncM σ α) := throw _

theorem fail_bind (r : Int) : Keeps P (Casync.fail r >>= f) := fun _ h => h

theorem orFail (x : Except Int α) : Keeps P (Casync.orFail x : SyncM σ α) := by
  cases x
  · exact fail _
  · exact pure _

theorem call (E : Env σ) (c : Call) : Keeps P (Casync.call E c) := fun _ h => h

theorem modify {g : CaSync σ → CaSync σ} (h : ∀ c, P c → P (g c)) : Keeps P (modifySync g) :=
  fun _ hs => h _ hs

theorem bind (hm : Keeps P m) (hf : ∀ a, Keeps P (f a)) : Keeps P (m >>= f) := by
  intro s hs
  have h₁ := hm s hs
  rw [after_bind]
  unfold after at h₁
  split <;> rename_i h <;> rw [h] at h₁
  · exact hf _ _ h₁
  · exact h₁

theorem orReleaseStore (E : Env σ) (x : Except Int Unit) : Keeps P (Casync.orReleaseStore E x) := by
  cases x
  exacts [bind (call E _) fun _ => fail _, pure _]

theorem ite {c : Prop} [Decidable c] {x y : SyncM σ α} (hx : c → Keeps P x) (hy : ¬c → Keeps P y) :
    Keeps P (if c then x else y) := by
  split
  exacts [hx ‹_›, hy ‹_›]

/-- A function keeps every property that only reads fields outside its frame. -/
theorem of_footprint {K : List CallKind} {F : List Field} (h : Footprint K F m)
    (hP : ∀ c c', Only F c c' → P c → P c') : Keeps P m :=
  fun s hs => hP _ _ (h s).1 hs

/-- `if (c) return r;` followed by the rest `k`, which may use that `c` failed. -/
theorem failIf {c : Prop} {_ : Decidable c} {r : Int} {k : PUnit → SyncM σ α}
    (hk : ¬c → Keeps P (k ⟨⟩)) :
    Keeps P (if c then Casync.fail r >>= k else Pure.pure PUnit.unit >>= k) :=
  ite (fun _ => fail_bind _) fun h => bind (pure _) fun ⟨⟩ => hk h

end Keeps

/-- How many calls of kind `k` the log holds. -/
def countCalls (k : CallKind) (log : List Event) : Nat :=
  (log.filter fun e => e.call.kind = k).length

theorem countCalls_snoc (k : CallKind) (log : List Event) (e : Event) :
    countCalls k (log ++ [e]) = countCalls k log + if e.call.kind = k then 1 else 0 := by
  simp only [countCalls, List.filter_append, List.length_append, List.filter_cons,
    List.filter_nil, decide_eq_true_eq]
  split <;> rfl

/-- The calls of the kinds `K` in a log, in order. -/
def callsIn (K : List CallKind) (log : List Event) : List Call :=
  (log.filter fun e => K.elem e.call.kind).map Event.call

@[simp] theorem callsIn_nil (K : List CallKind) : callsIn K [] = [] := rfl

@[simp] theorem callsIn_append (K : List CallKind) (l l' : List Event) :
    callsIn K (l ++ l') = callsIn K l ++ callsIn K l' := by
  simp [callsIn]

@[simp] theorem callsIn_singleton (K : List CallKind) (e : Event) :
    callsIn K [e] = if K.elem e.call.kind then [e.call] else [] := by
  simp only [callsIn, List.filter]
  split <;> simp_all

theorem callsIn_eq_nil {K K' : List CallKind} {Δ : List Event} (hΔ : ∀ e ∈ Δ, e.call.kind ∈ K)
    (hK : ∀ k ∈ K, k ∉ K') : callsIn K' Δ = [] := by
  simp only [callsIn, List.map_eq_nil_iff, List.filter_eq_nil_iff, List.elem_iff]
  exact fun e he => hK _ (hΔ e he)

theorem Event.movedOf_of_kind {e : Event} (h : e.call.kind ≠ .rename) : e.movedOf = none := by
  rcases e with ⟨c, r⟩
  cases c <;> first | rfl | exact absurd rfl h

theorem Footprint.moved_after {K : List CallKind} {F : List Field} {m : SyncM σ α}
    (h : Footprint K F m) (hK : .rename ∉ K) (s : Sys σ) : moved (after m s).log = moved s.log := by
  obtain ⟨-, Δ, hΔ, hk⟩ := h s
  rw [hΔ, moved_append, List.append_right_eq_self, moved, List.filterMap_eq_nil_iff]
  exact fun e he => Event.movedOf_of_kind fun h' => hK (h' ▸ hk e he)

/-- A function whose frame has none of the kinds `K'` leaves the calls of those kinds as
they were, whatever its outcome. -/
theorem Footprint.callsIn_after {K K' : List CallKind} {F : List Field} {m : SyncM σ α}
    (h : Footprint K F m) (hK : ∀ k ∈ K, k ∉ K') (s : Sys σ) :
    callsIn K' (after m s).log = callsIn K' s.log := by
  obtain ⟨-, Δ, hΔ, hk⟩ := h s
  rw [hΔ, callsIn_append, callsIn_eq_nil hk hK, List.append_nil]

/-- From a record with the property `P`, `m` keeps `P` and makes no call of the kinds `K`,
whatever its outcome. -/
def Guarded (P : CaSync σ → Prop) (K : List CallKind) (m : SyncM σ α) : Prop :=
  ∀ s, P s.sync → P (after m s).sync ∧ ∃ Δ, (after m s).log = s.log ++ Δ ∧ callsIn K Δ = []

namespace Guarded

variable {P : CaSync σ → Prop} {K : List CallKind} {m : SyncM σ α} {f : α → SyncM σ β}

theorem of_footprint {K' : List CallKind} {F : List Field} (h : Footprint K' F m)
    (hP : ∀ c c', Only F c c' → P c → P c') (hK : ∀ k ∈ K', k ∉ K) : Guarded P K m := fun s hs =>
  ⟨hP _ _ (h s).1 hs, (h s).2.imp fun _ ⟨hΔ, hk⟩ => ⟨hΔ, callsIn_eq_nil hk hK⟩⟩

/-- The common case: `P` fixes the value of fields outside the frame. -/
theorem of_frame {K' : List CallKind} {F : List Field} {γ : Type} {get : CaSync σ → γ} {b : γ}
    (h : Footprint K' F m) (hget : ∀ s t, get (CaSync.restore F s t) = get s)
    (hK : ∀ k ∈ K', k ∉ K) : Guarded (fun c => get c = b) K m :=
  of_footprint h (fun _ _ hc hb => (hc.field get (hget _)).trans hb) hK

theorem bind (hm : Guarded P K m) (hf : ∀ a, Guarded P K (f a)) : Guarded P K (m >>= f) := by
  intro s hs
  rw [after_bind]
  obtain ⟨hs₁, Δ₁, hΔ₁, hc₁⟩ := hm s hs
  unfold after at hs₁ hΔ₁
  split <;> rename_i h <;> rw [h] at hs₁ hΔ₁
  · obtain ⟨hs₂, Δ₂, hΔ₂, hc₂⟩ := hf _ _ hs₁
    exact ⟨hs₂, Δ₁ ++ Δ₂, by rw [hΔ₂, hΔ₁, List.append_assoc], by rw [callsIn_append, hc₁, hc₂]; rfl⟩
  · exact ⟨hs₁, Δ₁, hΔ₁, hc₁⟩

theorem getSync_bind {f : CaSync σ → SyncM σ β} (hf : ∀ c, P c → Guarded P K (f c)) :
    Guarded P K (Casync.getSync >>= f) := fun s hs => hf s.sync hs s hs

theorem ite {c : Prop} {_ : Decidable c} {x y : SyncM σ α} (hx : c → Guarded P K x)
    (hy : ¬c → Guarded P K y) : Guarded P K (if c then x else y) := by
  split
  exacts [hx ‹_›, hy ‹_›]

theorem pure (a : α) : Guarded P K (Pure.pure a : SyncM σ α) :=
  fun _ hs => ⟨hs, [], (List.append_nil _).symm, rfl⟩

theorem getSync : Guarded P K (Casync.getSync : SyncM σ _) :=
  fun _ hs => ⟨hs, [], (List.append_nil _).symm, rfl⟩

theorem modify {g : CaSync σ → CaSync σ} (h : ∀ c, P c → P (g c)) : Guarded P K (modifySync g) :=
  fun s hs => ⟨h s.sync hs, [], by simp [after], rfl⟩

theorem throw (e : Fault) : Guarded P K (MonadExcept.throw e : SyncM σ α) :=
  fun _ hs => ⟨hs, [], (List.append_nil _).symm, rfl⟩

theorem fail (r : Int) : Guarded P K (Casync.fail r : SyncM σ α) := throw _

theorem fail_bind (r : Int) : Guarded P K (Casync.fail r >>= f) :=
  fun _ hs => ⟨hs, [], (List.append_nil _).symm, rfl⟩

theorem orFail (x : Except Int α) : Guarded P K (Casync.orFail x : SyncM σ α) := by
  cases x
  exacts [fail _, pure _]

theorem call (E : Env σ) {c : Call} (h : K.elem c.kind = false) : Guarded P K (Casync.call E c) :=
  fun _ hs => ⟨hs, _, rfl, by rw [callsIn_singleton, h]; rfl⟩

theorem absurd (h : False) : Guarded P K m := h.elim

theorem failIf {c : Prop} {_ : Decidable c} {r : Int} {k : PUnit → SyncM σ α}
    (hk : ¬c → Guarded P K (k ⟨⟩)) :
    Guarded P K (if c then Casync.fail r >>= k else Pure.pure PUnit.unit >>= k) :=
  ite (fun _ => fail_bind _) fun h => bind (pure _) fun ⟨⟩ => hk h

end Guarded

/-- The composition rules of a property `P` of driver functions whose calls are of the kinds
`K` and whose updates change only the fields `F`. Each driver function is shown once to be built
by these rules from its calls, its updates and the functions it calls, and every property that
follows the rules then holds of it. -/
structure Rules (E : Env σ) (P : ∀ {α : Type}, SyncM σ α → Prop) (K : List CallKind)
    (F : List Field) : Prop where
  pure {α : Type} (a : α) : P (Pure.pure a : SyncM σ α)
  getSync : P Casync.getSync
  fail {α : Type} (r : Int) : P (Casync.fail r : SyncM σ α)
  call {c : Call} : K.elem c.kind = true → P (Casync.call E c)
  modify {g : CaSync σ → CaSync σ} : (∀ s, Only F s (g s)) → P (modifySync g)
  bind {α β : Type} {m : SyncM σ α} {f : α → SyncM σ β} : P m → (∀ a, P (f a)) → P (m >>= f)
  ite {α : Type} {c : Prop} {_ : Decidable c} {x y : SyncM σ α} : P x → P y →
    P (if c then x else y)

namespace Rules

variable {E : Env σ} {P : ∀ {α : Type}, SyncM σ α → Prop} {K : List CallKind} {F : List Field}
  (R : Rules E P K F)

include R

theorem mono {K' : List CallKind} {F' : List Field} (hK : K' ⊆ K) (hF : F' ⊆ F) :
    Rules E P K' F' where
  pure := R.pure
  getSync := R.getSync
  fail := R.fail
  call h := R.call (List.elem_iff.mpr (hK (List.elem_iff.mp h)))
  modify h := R.modify fun s => (h s).mono hF
  bind := R.bind
  ite := R.ite

theorem orFail (x : Except Int α) : P (Casync.orFail x : SyncM σ α) := by
  cases x
  exacts [R.fail _, R.pure _]

/-- `if (c) return r;` followed by the rest `k` of the body. -/
theorem failIf {c : Prop} {_ : Decidable c} {r : Int} {k : PUnit → SyncM σ α} (hk : P (k ⟨⟩)) :
    P (if c then Casync.fail r >>= k else Pure.pure PUnit.unit >>= k) :=
  R.ite (R.bind (R.fail _) fun ⟨⟩ => hk) (R.bind (R.pure _) fun ⟨⟩ => hk)

/-- `if (c) return 0;` followed by the rest `k` of the body. -/
theorem returnIf {c : Prop} {_ : Decidable c} {k : PUnit → SyncM σ Unit} (hk : P (k ⟨⟩)) :
    P (if c then Pure.pure PUnit.unit else Pure.pure PUnit.unit >>= k) :=
  R.ite (R.pure _) (R.bind (R.pure _) fun ⟨⟩ => hk)

end Rules

theorem Footprint.rules (E : Env σ) (K : List CallKind) (F : List Field) :
    Rules E (Footprint K F) K F :=
  ⟨.pure, .getSync, .fail, .call E, .modify, .bind, .ite⟩

/-- A property that updates outside `F` keep, with none of the kinds `K'` among the calls. -/
theorem Guarded.rules (E : Env σ) {P : CaSync σ → Prop} {K K' : List CallKind} {F : List Field}
    (hP : ∀ c c', Only F c c' → P c → P c') (hK : ∀ k ∈ K', k ∉ K) : Rules E (Guarded P K) K' F :=
  ⟨.pure, .getSync, .fail,
    fun h => .call E (Bool.eq_false_iff.mpr fun h' =>
      hK _ (List.elem_iff.mp h) (List.elem_iff.mp h')),
    fun h => .modify fun c => hP c _ (h c), .bind, fun hx hy => .ite (fun _ => hx) fun _ => hy⟩

end Casync
