import Mathlib.Data.List.ReduceOption
import Casync.Proofs.ArchiveDigest
import Casync.Proofs.Stores

/-!
The requests of a DECODE run with an index. When the decoder asks for data,
`ca_sync_process_decoder_request` reads the next index record, looks its object up with
`ca_sync_get`, checks its size against the record, hands it to the decoder, releases the
buffer and feeds the archive digest from it. Over a run whose steps all succeed, and with
stores whose answers do not depend on earlier calls, each request made one index read, the
decoder received the objects of the records read, in order, each of the size its record
gives, and its input was ended once per end-of-index read. The archive digest, though, has
absorbed what the released buffers held after `free`, not the bytes handed to the decoder.
-/

namespace Casync.Proofs.Requests

open Casync.Proofs.Frames Casync.Proofs.EncodeSpec Casync.Proofs.Runs Casync.Proofs.Stores
  Casync.Proofs.ArchiveDigest

variable {σ : Type} (E : Env σ)

/-- The DECODE views of a log: how often the decoder asked for data, how many index reads
were made and what those that succeeded reported, the slices handed to the decoder, the bytes
read back from released buffers, and how often the decoder's input was ended. -/
structure Views where
  requests : Nat
  indexReads : Nat
  reads : List (Option (ObjectId × Nat))
  handed : List Bytes
  freed : Bytes
  eofs : Nat

def views (log : List Event) : Views :=
  ⟨requests log, (callsIn [.indexReadObject] log).length, reads log, handed log, freedBytes log,
    (callsIn [.decoderPutEof] log).length⟩

/-- The views of two logs one after the other. -/
def Views.add (a b : Views) : Views :=
  ⟨a.requests + b.requests, a.indexReads + b.indexReads, a.reads ++ b.reads,
    a.handed ++ b.handed, a.freed ++ b.freed, a.eofs + b.eofs⟩

/-- The views of a log that shows none of these calls. -/
def Views.none : Views := ⟨0, 0, [], [], [], 0⟩

/-- The views of the decoder's step call when it asks for data. -/
def Views.request : Views := ⟨1, 0, [], [], [], 0⟩

@[simp] theorem views_append (l l' : List Event) : views (l ++ l') = (views l).add (views l') := by
  simp [views, Views.add]

@[simp] theorem Views.add_none (a : Views) : a.add .none = a := by
  simp [Views.add, Views.none]

@[simp] theorem views_indexRead_ok (r : Option (ObjectId × Nat)) :
    views [⟨.indexReadObject, .ok r⟩] = ⟨0, 1, [r], [], [], 0⟩ := rfl

@[simp] theorem views_indexRead_error (r : Int) :
    views [⟨.indexReadObject, .error r⟩] = ⟨0, 1, [], [], [], 0⟩ := rfl

@[simp] theorem views_putEof (r : Except Int Unit) :
    views [⟨.decoderPutEof, r⟩] = ⟨0, 0, [], [], [], 1⟩ := rfl

@[simp] theorem views_putData (p : Bytes) (r : Except Int Unit) :
    views [⟨.decoderPutData p, r⟩] = ⟨0, 0, [], [p], [], 0⟩ := rfl

@[simp] theorem views_free (p : Bytes) (freed : Nat → UInt8) :
    views [⟨.free p, freed⟩] = ⟨0, 0, [], [], (List.range p.length).map freed, 0⟩ := by
  simp [views, Event.requested, Event.readOf, Event.handedOf, Event.freedOf, Call.kind]

theorem Views.add_assoc (a b c : Views) : (a.add b).add c = a.add (b.add c) := by
  simp [Views.add, Nat.add_assoc]

theorem views_decoderStep (st : DecoderStatus) :
    views [⟨.decoderStep, .ok st⟩] = if st = .request then Views.request else .none := by
  cases st <;> rfl

/-- The calls the views look at. -/
abbrev viewCalls : List CallKind :=
  [.decoderStep, .indexReadObject, .decoderPutData, .free, .decoderPutEof]

theorem views_event_other {e : Event} (h : e.call.kind ∉ viewCalls) : views [e] = .none := by
  rcases e with ⟨c, r⟩
  cases c
  case decoderStep => exact absurd (by simp only [Call.kind]; decide) h
  case indexReadObject => exact absurd (by simp only [Call.kind]; decide) h
  case decoderPutData => exact absurd (by simp only [Call.kind]; decide) h
  case free => exact absurd (by simp only [Call.kind]; decide) h
  case decoderPutEof => exact absurd (by simp only [Call.kind]; decide) h
  case openFile how => cases how <;> rfl
  all_goals rfl

theorem views_quiet {Δ : List Event} (h : ∀ e ∈ Δ, e.call.kind ∉ viewCalls) : views Δ = .none := by
  induction Δ with
  | nil => rfl
  | cons e Δ ih =>
      rw [← List.singleton_append, views_append, views_event_other (h e (List.mem_cons_self _ _)),
        ih fun e he => h e (List.mem_cons_of_mem _ he)]
      rfl

theorem views_append_quiet (l : List Event) {Δ : List Event}
    (h : ∀ e ∈ Δ, e.call.kind ∉ viewCalls) : views (l ++ Δ) = views l := by
  rw [views_append, views_quiet h, Views.add_none]

/-- A function whose calls the views ignore changes the fields of its frame and none of the
views, whatever its outcome. -/
theorem footprint_views {K : List CallKind} {F : List Field} {α : Type} {m : SyncM σ α}
    (h : Footprint K F m) (hK : ∀ k ∈ K, k ∉ viewCalls) (s : Sys σ) :
    Only F s.sync (after m s).sync ∧ views (after m s).log = views s.log := by
  obtain ⟨hF, Δ, hΔ, hk⟩ := h s
  rw [hΔ, views_append_quiet _ fun e he => hK _ (hk e he)]
  exact ⟨hF, rfl⟩

theorem footprint_views_wp {K : List CallKind} {F : List Field} {α : Type} {m : SyncM σ α}
    (h : Footprint K F m) (hK : ∀ k ∈ K, k ∉ viewCalls) (s : Sys σ) :
    Wp m s (fun _ s' => Only F s.sync s'.sync ∧ views s'.log = views s.log)
      fun _ s' => Only F s.sync s'.sync ∧ views s'.log = views s.log :=
  Wp.after_iff.mpr (footprint_views h hK s)

theorem footprint_views_onOk {K : List CallKind} {F : List Field} {α : Type} {m : SyncM σ α}
    (h : Footprint K F m) (hK : ∀ k ∈ K, k ∉ viewCalls) (s : Sys σ) :
    OnOk m s fun _ s' => Only F s.sync s'.sync ∧ views s'.log = views s.log :=
  (footprint_views_wp h hK s).onOk

section Requests

variable {E} (ans : Option String → ObjectId → Except Int Bytes)

/-- The object `ca_sync_get` finds for `id` in the slots `slots`. -/
def found (slots : List (Option String)) (id : ObjectId) : Bytes :=
  match firstAnswer (slots.map (ans · id)) with
  | .ok p => p
  | .error _ => []

/-- The store slots of a driver, in the order `ca_sync_get` consults them. -/
def slots (c : CaSync σ) : List (Option String) := c.wstore :: c.rstores.map some

/-- What one request adds to the views when it succeeds: one index read, and either the end of
the index and of the decoder's input, or a record whose object, of the size the record gives,
was handed to the decoder. -/
def Served (slots : List (Option String)) (v : Views) : Prop :=
  v.requests = 0 ∧ v.indexReads = 1 ∧
    (v.reads = [none] ∧ v.handed = [] ∧ v.freed = [] ∧ v.eofs = 1 ∨
      ∃ id, v.reads = [some (id, (found ans slots id).length)] ∧ v.handed = [found ans slots id] ∧
        v.eofs = 0)

/-- The views of a log in which every request was served: one index read per request, each
answered; the decoder received the object found for every record read, in order, each of the
size its record gives; and its input was ended once per end-of-index read. -/
structure Balanced (sl : List (Option String)) (v : Views) : Prop where
  reads : v.indexReads = v.requests
  answered : v.reads.length = v.requests
  handed : v.handed = v.reads.reduceOption.map (found ans sl ∘ Prod.fst)
  sizes : ∀ r ∈ v.reads.reduceOption, (found ans sl r.1).length = r.2
  eofs : v.eofs = (v.reads.filter Option.isNone).length

/-- The request invariant of a DECODE run with an index, over the store slots `sl`: the views
of its log are balanced, and the archive digest has absorbed exactly the bytes read back from
released buffers. -/
structure RequestInv (sl : List (Option String)) (s : Sys σ) : Prop where
  direction : s.sync.direction = .decode
  index : s.sync.index = true
  stores : slots s.sync = sl
  balanced : Balanced ans sl (views s.log)
  digest : s.sync.archiveDigest.getD [] = (views s.log).freed

/-- The fields the request invariant does not read. -/
abbrev requestFree : List Field :=
  [.encoder, .decoder, .chunker, .baseFd, .archiveFd, .basePath, .archivePath,
    .temporaryBasePath, .temporaryArchivePath, .baseMode, .makePermMode, .buffer, .objectDigest,
    .eof]


theorem Balanced.none (sl : List (Option String)) : Balanced ans sl .none :=
  ⟨rfl, rfl, rfl, by simp [Views.none, List.reduceOption_nil], rfl⟩

/-- What a step adds to the views whatever its outcome: one index read per request, an end of
input only after an end-of-index read, and to the decoder only the object found for a record
read, of the size the record gives. -/
structure Sound (sl : List (Option String)) (v : Views) : Prop where
  reads : v.indexReads = v.requests
  eofs : v.eofs = (v.reads.filter Option.isNone).length
  handed : ∀ p ∈ v.handed, ∃ id, some (id, p.length) ∈ v.reads ∧ p = found ans sl id

theorem Sound.none (sl : List (Option String)) : Sound ans sl .none :=
  ⟨rfl, rfl, by simp [Views.none]⟩

/-- From the log `l` to the state `s'`, sound views were added. -/
def AddsSound (sl : List (Option String)) (l : List Event) (s' : Sys σ) : Prop :=
  ∃ v, views s'.log = (views l).add v ∧ Sound ans sl v

/-- A request adds, together with the decoder's call that made it, sound views. -/
def RequestSound (sl : List (Option String)) (l : List Event) (s' : Sys σ) : Prop :=
  ∃ w, views s'.log = (views l).add w ∧ Sound ans sl (Views.request.add w)

variable {ans}

theorem Balanced.add {sl : List (Option String)} {a b : Views} (ha : Balanced ans sl a)
    (hb : Balanced ans sl b) : Balanced ans sl (a.add b) := by
  refine ⟨?_, ?_, ?_, ?_, ?_⟩ <;>
    simp only [Views.add, List.length_append, List.reduceOption_append, List.map_append,
      List.filter_append, List.mem_append]
  · rw [ha.reads, hb.reads]
  · rw [ha.answered, hb.answered]
  · rw [ha.handed, hb.handed]
  · exact fun r hr => hr.elim (ha.sizes r) (hb.sizes r)
  · rw [ha.eofs, hb.eofs]

theorem Served.balanced {sl : List (Option String)} {w : Views} (h : Served ans sl w) :
    Balanced ans sl (Views.request.add w) := by
  obtain ⟨hq, hi, ⟨hr, hh, -, he⟩ | ⟨id, hr, hh, he⟩⟩ := h <;>
    refine ⟨?_, ?_, ?_, ?_, ?_⟩ <;>
    simp [Views.request, Views.add, hq, hi, hr, hh, he, List.reduceOption_singleton]

section Invariant

variable {sl : List (Option String)} {s s' : Sys σ}

/-- The invariant survives a change of the fields it does not read, balanced views added to
the log, and the digest absorbing what they show freed. -/
theorem RequestInv.grow (h : RequestInv ans sl s)
    (hF : Only (.archiveDigest :: requestFree) s.sync s'.sync) {v : Views}
    (hv : views s'.log = (views s.log).add v) (hb : Balanced ans sl v)
    (hd : s'.sync.archiveDigest.getD [] = s.sync.archiveDigest.getD [] ++ v.freed) :
    RequestInv ans sl s' := by
  refine ⟨(hF.field CaSync.direction fun _ => rfl).trans h.direction,
    (hF.field CaSync.index fun _ => rfl).trans h.index,
    (hF.field slots fun _ => rfl).trans h.stores, by rw [hv]; exact h.balanced.add hb, ?_⟩
  rw [hd, hv, h.digest]
  rfl

theorem configure_requestInv (cfg : List Setter)
    (hix : (configure E .decode cfg).sync.index = true) :
    RequestInv ans (slots (configure E .decode cfg).sync) (configure E .decode cfg) := by
  obtain ⟨hF, hK⟩ := configure_calls E .decode cfg
  have hv : views (configure E .decode cfg).log = .none :=
    views_quiet fun e he => (by decide : ∀ k ∈ configCalls, k ∉ viewCalls) _ (hK e he)
  refine ⟨hF.field CaSync.direction fun _ => rfl, hix, rfl, hv ▸ Balanced.none ans _, ?_⟩
  rw [hv, hF.field CaSync.archiveDigest fun _ => rfl]
  rfl

end Invariant

variable (hE : ∀ log st id, E.answer log (.storeGet st id) = ans st id)
include hE

theorem get_ok (id : ObjectId) (s : Sys σ) :
    OnOk (get E id) s fun p s' => p = found ans (slots s.sync) id ∧ s'.sync = s.sync ∧
      views s'.log = views s.log := by
  intro p s' hr
  obtain ⟨ho, ha⟩ := get_lookup (fun st => ans st id) id (fun log st => hE log st id) s
  simp only [outcome, after, hr] at ho ha
  refine ⟨by rw [found, slots, ← ho], by rw [ha]; rfl, ?_⟩
  rw [ha, lookupState, views_append_quiet _ (by simp [Call.kind])]

theorem get_wp (id : ObjectId) (s : Sys σ) :
    Wp (get E id) s (fun p s' => p = found ans (slots s.sync) id ∧ views s'.log = views s.log)
      fun _ s' => views s'.log = views s.log := by
  obtain ⟨ho, ha⟩ := get_lookup (fun st => ans st id) id (fun log st => hE log st id) s
  have hv : views (after (get E id) s).log = views s.log := by
    rw [ha, lookupState, views_append_quiet _ (by simp [Call.kind])]
  refine ((@Wp.outcome_iff σ Bytes (get E id) s fun o s' =>
    (∀ p, o = .ok p → p = found ans (slots s.sync) id) ∧ views s'.log = views s.log).mpr
      ⟨fun p hp => ?_, hv⟩).mono (fun p _ h => ⟨h.1 p rfl, h.2⟩) fun _ _ h => h.2
  rw [found, slots, ← ho, hp]

theorem processDecoderRequest_sound (s : Sys σ) (hix : s.sync.index = true) :
    RequestSound ans (slots s.sync) s.log (after (processDecoderRequest E) s) := by
  refine Wp.after_iff.mp ?_
  simp only [processDecoderRequest, Wp.bind_iff, Wp.getSync_iff, hix, if_true, Wp.call_iff,
    Wp.orFail_iff]
  refine ⟨fun a ha => ?_, fun r hr => ⟨_, by rw [views_append, hr, views_indexRead_error],
    by exact ⟨rfl, rfl, by simp [Views.request, Views.add]⟩⟩⟩
  rw [ha]
  rcases a with _ | ⟨id, n⟩
  · simp only [Wp.bind_iff, Wp.call_iff, Wp.orFail_keeps]
    exact ⟨_, by rw [views_append, views_append, views_indexRead_ok, views_putEof, Views.add_assoc],
      by exact ⟨rfl, rfl, by simp [Views.request, Views.add]⟩⟩
  simp only [Wp.bind_iff]
  refine (get_wp hE id _).mono ?_ fun _ s₂ hv₂ => ⟨_, by rw [hv₂, views_append, views_indexRead_ok],
    by exact ⟨rfl, rfl, by simp [Views.request, Views.add]⟩⟩
  rintro p s₂ ⟨rfl, hv₂⟩
  dsimp only at hv₂
  simp only [Wp.ite_iff, Wp.bind_iff, Wp.call_iff, Wp.fail_iff, Wp.pure_iff, ne_eq, not_not]
  refine ⟨fun _ => ⟨_, by rw [views_append, hv₂, views_append, views_indexRead_ok, views_free,
    Views.add_assoc], by exact ⟨rfl, rfl, by simp [Views.request, Views.add]⟩⟩, fun hn => ?_⟩
  subst hn
  refine Wp.mono ((@Wp.orFail_keeps σ Unit _ _ (RequestSound ans (slots s.sync) s.log)).mpr
    ⟨_, by rw [views_append, views_append, hv₂, views_append, views_indexRead_ok, views_putData,
      views_free, Views.add_assoc, Views.add_assoc],
      by exact ⟨rfl, rfl, by simp [Views.request, Views.add]⟩⟩) (fun _ s₃ h => ?_) fun _ _ h => h
  obtain ⟨w, hw, hs⟩ := h
  exact Wp.after_iff.mpr
    ⟨w, (footprint_views (writeArchiveDigest_footprint E _) (by decide) s₃).2.trans hw, hs⟩

theorem stepDecode_sound (s : Sys σ) (hix : s.sync.index = true) :
    AddsSound ans (slots s.sync) s.log (after (stepDecode E) s) := by
  have hkeep : ∀ s' : Sys σ, views s'.log = views s.log → AddsSound ans (slots s.sync) s.log s' :=
    fun _ h => ⟨.none, by rw [h, Views.add_none], Sound.none ans _⟩
  refine Wp.after_iff.mp ?_
  simp only [stepDecode, Wp.bind_iff, Wp.getSync_iff, Wp.ite_iff, Wp.fail_iff, Wp.call_iff,
    Wp.orFail_iff, Wp.pure_iff]
  refine ⟨fun _ => hkeep s rfl, fun _ => ⟨fun _ => hkeep s rfl, fun _ => ⟨fun st hst => ?_,
    fun r hr => hkeep _ (by rw [views_append, hr]; exact Views.add_none _)⟩⟩⟩
  have hv : views (s.log ++ [⟨.decoderStep, E.answer s.log .decoderStep⟩]) =
      (views s.log).add (if st = .request then Views.request else .none) := by
    rw [views_append, hst, views_decoderStep]
  cases st with
  | request =>
      simp only [Wp.bind_iff, Wp.pure_iff]
      obtain ⟨w, hw, hs⟩ := processDecoderRequest_sound hE
        ⟨s.sync, s.log ++ [⟨.decoderStep, E.answer s.log .decoderStep⟩]⟩ hix
      refine Wp.after_iff.mpr ⟨Views.request.add w, ?_, hs⟩
      rw [hw, hv, if_pos rfl, Views.add_assoc]
  | finished =>
      refine Wp.after_iff.mpr (hkeep _ ?_)
      rw [(footprint_views (decodeFinished_footprint E) (by decide) _).2, hv, if_neg (by simp),
        Views.add_none]
  | nextFile | step | payload | other =>
      exact hkeep _ (by rw [hv, if_neg (by simp), Views.add_none])

theorem step_sound (s : Sys σ) (hdir : s.sync.direction = .decode) (hix : s.sync.index = true) :
    AddsSound ans (slots s.sync) s.log (after (step E) s) := by
  refine Wp.after_iff.mp ?_
  simp only [step, Wp.bind_iff]
  refine (footprint_views_wp (start_footprint E) (by decide) s).mono
    (fun _ s₁ ⟨hF, hv⟩ => ?_) fun _ _ h => ⟨.none, by rw [h.2, Views.add_none], Sound.none ans _⟩
  have hslots : slots s₁.sync = slots s.sync := hF.field slots fun _ => rfl
  simp only [Wp.getSync_iff, (hF.field CaSync.direction fun _ => rfl).trans hdir]
  obtain ⟨v, hv', hs⟩ := stepDecode_sound hE s₁ ((hF.field CaSync.index fun _ => rfl).trans hix)
  exact Wp.after_iff.mpr ⟨v, by rw [hv', hv], hslots ▸ hs⟩

theorem processDecoderRequest_mismatch (s : Sys σ) (hix : s.sync.index = true) {id : ObjectId}
    {n : Nat} {p : Bytes} (hr : E.answer s.log .indexReadObject = .ok (some (id, n)))
    (hp : firstAnswer ((slots s.sync).map (ans · id)) = .ok p) (hn : n ≠ p.length) :
    outcome (processDecoderRequest E) s = .error (.ret (-EBADMSG)) ∧
      handed (after (processDecoderRequest E) s).log = handed s.log := by
  refine (@Wp.outcome_iff σ Unit (processDecoderRequest E) s fun o s' =>
    o = .error (.ret (-EBADMSG)) ∧ handed s'.log = handed s.log).mp ?_
  simp only [processDecoderRequest, Wp.bind_iff, Wp.getSync_iff, hix, if_true, Wp.call_iff,
    Wp.orFail_iff, hr, Except.ok.injEq, forall_eq', reduceCtorEq, false_implies, implies_true,
    and_true]
  set s₁ : Sys σ := ⟨s.sync, s.log ++ [⟨.indexReadObject, .ok (some (id, n))⟩]⟩
  obtain ⟨ho, -⟩ := get_lookup (fun st => ans st id) id (fun log st => hE log st id) s₁
  have hv : views (after (get E id) s₁).log = views s₁.log :=
    Wp.after_iff.mp ((get_wp hE id s₁).mono (fun _ _ h => h.2) fun _ _ h => h)
  rw [Wp.ok_iff (ho.trans hp), if_pos hn]
  simp only [Wp.bind_iff, Wp.call_iff, Wp.fail_iff, true_and]
  have := congrArg Views.handed hv
  simp only [views_append, Views.add, views_indexRead_ok, List.append_nil] at this
  rw [handed_append, handed_singleton]
  exact (List.append_nil _).trans this

/-- A successful request with an index: the views grow as `Served` says, and the archive digest
absorbs what they show read back from the released buffer. -/
theorem processDecoderRequest_ok (s : Sys σ) (hix : s.sync.index = true) :
    OnOk (processDecoderRequest E) s fun _ s' => Only [.archiveDigest] s.sync s'.sync ∧
      ∃ v, views s'.log = (views s.log).add v ∧ Served ans (slots s.sync) v ∧
        s'.sync.archiveDigest.getD [] = s.sync.archiveDigest.getD [] ++ v.freed := by
  simp only [processDecoderRequest, OnOk.bind_iff, OnOk.getSync_iff, hix, if_true,
    OnOk.call_iff, OnOk.orFail_iff]
  rintro (_ | ⟨id, n⟩) hr
  · simp only [OnOk.bind_iff, OnOk.call_iff, OnOk.orFail_iff]
    intro u hu
    refine ⟨Only.refl _, ⟨0, 1, [none], [], [], 1⟩, ?_, by simp [Served], by simp⟩
    rw [hr, List.append_assoc, views_append]
    rfl
  · simp only [OnOk.bind_iff]
    refine (get_ok hE id _).mono ?_
    rintro p s₁ ⟨rfl, hs₁, hv₁⟩
    simp only [OnOk.bind_iff, OnOk.ite_iff, OnOk.call_iff, OnOk.fail_true, OnOk.orFail_iff]
    refine ⟨fun _ => trivial, fun hn => ?_⟩
    rw [ne_eq, not_not] at hn
    subst hn
    simp only [OnOk.pure_iff]
    intro u hu
    refine ((writeArchiveDigest_ok E _ _).and
      (footprint_views_onOk (writeArchiveDigest_footprint E _) (by decide) _)).mono ?_
    rintro _ s₂ ⟨⟨hs₂, -⟩, -, hv₂⟩
    dsimp only at hs₁ hv₁ hs₂ hv₂
    set p := found ans (slots s.sync) id
    let put : Event := ⟨.decoderPutData p, E.answer s₁.log (.decoderPutData p)⟩
    refine ⟨?_, ⟨0, 1, [some (id, p.length)], [p],
      freedBytes [⟨.free p, E.answer (s₁.log ++ [put]) (.free p)⟩], 0⟩,
      ?_, ⟨rfl, rfl, .inr ⟨id, rfl, rfl, rfl⟩⟩, ?_⟩
    · rw [hs₂, hs₁]
      exact rfl
    · rw [hv₂, views_append, views_append, hv₁, views_append]
      simp [Views.add, views, hr, Event.requested, Event.readOf, Event.handedOf, Event.freedOf,
        Call.kind]
    · rw [hs₂, hs₁, freedBytes_singleton]
      rfl

theorem stepDecode_ok (s : Sys σ) (hix : s.sync.index = true) :
    OnOk (stepDecode E) s fun _ s' => ∃ v, views s'.log = (views s.log).add v ∧
      Balanced ans (slots s.sync) v ∧
        s'.sync.archiveDigest.getD [] = s.sync.archiveDigest.getD [] ++ v.freed := by
  simp only [stepDecode, OnOk.bind_iff, OnOk.getSync_iff, OnOk.ite_iff, OnOk.fail_true,
    OnOk.call_iff, OnOk.orFail_iff, OnOk.pure_iff, implies_true, true_and]
  intro _ _ st hst
  have hv : views (s.log ++ [⟨.decoderStep, E.answer s.log .decoderStep⟩]) =
      (views s.log).add (if st = .request then Views.request else .none) := by
    rw [views_append, hst, views_decoderStep]
  cases st with
  | request =>
      simp only [OnOk.bind_iff, OnOk.pure_iff]
      refine (processDecoderRequest_ok hE ⟨s.sync, s.log ++ [⟨.decoderStep, _⟩]⟩ hix).mono ?_
      rintro _ s' ⟨-, w, hw, hserved, hd⟩
      refine ⟨Views.request.add w, ?_, hserved.balanced, hd⟩
      rw [hw, hv, if_pos rfl, Views.add_assoc]
  | finished =>
      refine (footprint_views_onOk (decodeFinished_footprint E) (by decide) _).mono ?_
      rintro _ s' ⟨hF, hw⟩
      refine ⟨.none, by rw [hw, hv]; rfl, Balanced.none ans _, ?_⟩
      rw [hF.field CaSync.archiveDigest fun _ => rfl]
      exact (List.append_nil _).symm
  | nextFile | step | payload =>
      exact OnOk.pure_iff.mpr ⟨.none, by rw [hv]; rfl, Balanced.none ans _, (List.append_nil _).symm⟩
  | other => exact OnOk.fail_true

variable {sl : List (Option String)} {s : Sys σ}

theorem step_requestInv (h : RequestInv ans sl s) :
    OnOk (step E) s fun _ s' => RequestInv ans sl s' := by
  simp only [step, OnOk.bind_iff]
  refine (footprint_views_onOk (start_footprint E) (by decide) s).mono ?_
  rintro _ s₁ ⟨hF, hv⟩
  have h₁ : RequestInv ans sl s₁ :=
    h.grow (hF.mono (by decide)) (by rw [hv, Views.add_none]) (Balanced.none ans sl)
      (by rw [hF.field CaSync.archiveDigest fun _ => rfl]; exact (List.append_nil _).symm)
  simp only [OnOk.getSync_iff, h₁.direction]
  refine ((stepDecode_ok hE s₁ h₁.index).and ((stepDecode_footprint E).onOk s₁)).mono ?_
  rintro _ s' ⟨⟨v, hv', hb, hd⟩, hF', -⟩
  exact h₁.grow (hF'.mono (by decide)) hv' (h₁.stores ▸ hb) hd

theorem exec_requestInv (h : RequestInv ans sl s) {op : Op}
    (hop : Drives op (outcome (exec E op) s)) : RequestInv ans sl (after (exec E op) s) := by
  obtain ⟨rfl | hq, hok⟩ := hop
  · obtain ⟨r, hr⟩ := hok rfl
    have h' : OnOk (exec E .step) s fun _ s' => RequestInv ans sl s' := by
      simp only [exec, OnOk.bind_iff, OnOk.pure_iff]
      exact step_requestInv hE h
    exact h'.of_outcome hr
  · obtain ⟨hF, hv⟩ := footprint_views (query_footprint E op hq) (by decide) s
    exact h.grow (hF.mono (by decide)) (by rw [hv, Views.add_none]) (Balanced.none ans sl)
      (by rw [query_keeps_digest E hq s]; exact (List.append_nil _).symm)

/-- The run lemma: in a configured DECODE run with an index whose steps all succeed, the views
are balanced over the configured store slots and the archive digest has absorbed the bytes read
back from the released buffers. -/
theorem run_requests_served (cfg : List Setter) (ops : List Op) (s : Sys σ)
    (outs : List (Op × Except Fault Reply)) (hix : (configure E .decode cfg).sync.index = true)
    (hrun : runOps E (configure E .decode cfg) ops = (s, outs))
    (hops : ∀ op ∈ ops, op = .step ∨ IsQuery op)
    (hok : ∀ o ∈ outs, o.1 = .step → ∃ r, o.2 = .ok r) :
    Balanced ans (slots (configure E .decode cfg).sync) (views s.log) ∧
      s.sync.archiveDigest.getD [] = freedBytes s.log ∧
      ((Op.step, .ok (.status .finished)) ∈ outs →
        outcome (getDigest E) s =
          if s.sync.archiveDigest.isNone && !E.answer s.log .mdOpen then .error (.ret (- EIO))
          else .ok (E.sha256 (freedBytes s.log))) := by
  have hgood := runOps_drives E hrun hops hok
  have hinv := runOps_invariant E (fun _ _ h hop => exec_requestInv hE h hop)
    (configure_requestInv cfg hix) hgood
  rw [hrun] at hinv
  refine ⟨hinv.balanced, hinv.digest, fun hfin => ?_⟩
  rw [getDigest_outcome E s (runOps_eof E hrun hgood hfin), hinv.digest]
  rfl

/-- The requests of a DECODE driver with an index, whose stores answer as `ans`. Every step,
from any state and whatever its outcome, adds sound views: one index read per request of the
decoder, an end of the decoder's input only after an end-of-index read, and to the decoder only
the object found for a record read, of the size the record gives. A record whose object has
another size makes the request fail with `-EBADMSG` before the object is handed over. And in a
configured run whose steps all succeed, the views are balanced, the archive digest has absorbed
the bytes read back from the released buffers, and `ca_sync_get_digest` after
`CA_SYNC_FINISHED` is SHA-256 of those bytes (or `-EIO` when the hasher was never opened and
`md_open` fails). -/
theorem decode_requests_served :
    (∀ s : Sys σ, s.sync.direction = .decode → s.sync.index = true →
      AddsSound ans (slots s.sync) s.log (after (step E) s)) ∧
    (∀ (s : Sys σ) (id : ObjectId) (n : Nat) (p : Bytes), s.sync.index = true →
      E.answer s.log .indexReadObject = .ok (some (id, n)) →
      firstAnswer ((slots s.sync).map (ans · id)) = .ok p → n ≠ p.length →
      outcome (processDecoderRequest E) s = .error (.ret (-EBADMSG)) ∧
        handed (after (processDecoderRequest E) s).log = handed s.log) ∧
    (∀ (cfg : List Setter) (ops : List Op) (s : Sys σ) (outs : List (Op × Except Fault Reply)),
      (configure E .decode cfg).sync.index = true →
      runOps E (configure E .decode cfg) ops = (s, outs) →
      (∀ op ∈ ops, op = .step ∨ IsQuery op) → (∀ o ∈ outs, o.1 = .step → ∃ r, o.2 = .ok r) →
      Balanced ans (slots (configure E .decode cfg).sync) (views s.log) ∧
        s.sync.archiveDigest.getD [] = freedBytes s.log ∧
        ((Op.step, .ok (.status .finished)) ∈ outs →
          outcome (getDigest E) s =
            if s.sync.archiveDigest.isNone && !E.answer s.log .mdOpen then .error (.ret (- EIO))
            else .ok (E.sha256 (freedBytes s.log)))) :=
  ⟨fun s hdir hix => step_sound hE s hdir hix,
    fun s _ _ _ hix hr hp hn => processDecoderRequest_mismatch hE s hix hr hp hn,
    fun cfg ops s outs hix hrun hops hok => run_requests_served hE cfg ops s outs hix hrun hops hok⟩

end Requests

/-- Surroundings of a DECODE run whose index reads back the records `records` and then EOF,
whose stores answer as `answer` says, and whose decoder asks for data until its input has been
ended and then finishes; every other call succeeds, and `free` leaves a zeroed block. -/
def replayEnv (records : List (ObjectId × Nat))
    (answer : Option String → ObjectId → Except Int Bytes) : Env Unit := ⟨fun log c => match c with
  | .decoderStep => if countCalls .decoderPutEof log = 0 then .ok .request else .ok .finished
  | .indexReadObject => .ok records[countCalls .indexReadObject log]?
  | .storeGet st id => answer st id
  | c => c.okRet, noCuts, digestStub⟩

/-- A DECODE run over an index with the one record of `[1, 2, 3]`, whose stores hold those bytes
under every id. -/
def oneRecordEnv : Env Unit := replayEnv [(digestStub [1, 2, 3], 3)] fun _ _ => .ok [1, 2, 3]

theorem decode_requests_served_once :
    (runOps oneRecordEnv (configure oneRecordEnv .decode decodeConfig)
        [.step, .step, .step]).1.sync.archiveDigest.getD [] =
      freedBytes (runOps oneRecordEnv (configure oneRecordEnv .decode decodeConfig)
        [.step, .step, .step]).1.log := by
  have hr : (runOps oneRecordEnv (configure oneRecordEnv .decode decodeConfig)
      [.step, .step, .step]).2 = [(.step, .ok (.status .step)), (.step, .ok (.status .step)),
        (.step, .ok (.status .finished))] := by
    decide
  exact ((decode_requests_served (fun _ _ _ => rfl)).2.2 decodeConfig [.step, .step, .step] _ _
    (by decide) Prod.mk.eta.symm (by simp) (by rw [hr]; simp)).2.1

/-- The buffer of a retrieved object is read after `free`: with an allocator that zeroes a
released block, the decoder receives `[1, 2, 3]` while the archive digest absorbs `[0, 0, 0]`,
so `ca_sync_get_digest` after `CA_SYNC_FINISHED` is not SHA-256 of the bytes handed over. -/
theorem digest_absorbs_freed_buffer :
    (runOps oneRecordEnv (configure oneRecordEnv .decode decodeConfig) [.step, .step, .step]).2 =
        [(.step, .ok (.status .step)), (.step, .ok (.status .step)),
          (.step, .ok (.status .finished))] ∧
      handed (runOps oneRecordEnv (configure oneRecordEnv .decode decodeConfig)
        [.step, .step, .step]).1.log = [[1, 2, 3]] ∧
      outcome (getDigest oneRecordEnv) (runOps oneRecordEnv
        (configure oneRecordEnv .decode decodeConfig) [.step, .step, .step]).1 =
        .ok (digestStub [0, 0, 0]) ∧
      digestStub [0, 0, 0] ≠ digestStub [1, 2, 3] := by
  decide

end Casync.Proofs.Requests
