import Mathlib.Tactic.LiftLets
import Casync.Frame

/-!
What each driver function can do, and its frame. For each function, a lemma shows once that
it is built by the composition rules (`Rules`) from its calls, its updates of the record and the
functions it calls; its frame, the fields it may change and the kinds of call it may make, is
the instance of that lemma for `Footprint`, and the later modules instantiate the same lemmas
for their own properties.
-/

namespace Casync.Proofs.Frames

variable {σ : Type} (E : Env σ)

/-- The calls and fields of the configuration surface. -/
abbrev configCalls : List CallKind :=
  [.openFile, .strdup, .realloc, .storeNew, .storeSetLocal, .storeUnref, .indexNewWrite,
    .indexNewRead, .indexSetFd, .indexSetPath, .indexUnref]

abbrev configFields : List Field :=
  [.baseFd, .basePath, .baseMode, .makePermMode, .archiveFd, .archivePath, .wstore, .rstores,
    .index]

/-- The fields each setter fills. -/
def setterFields : Setter → List Field
  | .indexFd _ | .indexPath _ => [.index]
  | .baseFd _ => [.baseFd]
  | .basePath _ => [.baseFd, .basePath]
  | .makePermMode _ => [.makePermMode]
  | .baseMode _ => [.baseMode]
  | .archiveFd _ => [.archiveFd]
  | .archivePath _ => [.archiveFd, .archivePath]
  | .storeLocal _ => [.wstore]
  | .seedStoreLocal _ => [.rstores]

/-- The kinds of call each setter makes. -/
def setterCalls : Setter → List CallKind
  | .indexFd _ => [.indexNewWrite, .indexNewRead, .indexSetFd, .indexUnref]
  | .indexPath _ => [.indexNewWrite, .indexNewRead, .indexSetPath, .indexUnref]
  | .baseFd _ | .makePermMode _ | .baseMode _ | .archiveFd _ => []
  | .basePath _ | .archivePath _ => [.openFile, .strdup]
  | .storeLocal _ => [.storeNew, .storeSetLocal, .storeUnref]
  | .seedStoreLocal _ => [.storeNew, .storeSetLocal, .storeUnref, .realloc]

theorem setterFields_subset (c : Setter) : setterFields c ⊆ configFields := by
  cases c <;> simp only [setterFields] <;> decide

theorem setterCalls_subset (c : Setter) : setterCalls c ⊆ configCalls := by
  cases c <;> simp only [setterCalls] <;> decide

section Rules

variable {P : ∀ {α : Type}, SyncM σ α → Prop}

theorem orReleaseStore_rules (R : Rules E P [.storeUnref] []) (x : Except Int Unit) :
    P (orReleaseStore E x) := by
  cases x
  exacts [R.bind (R.call rfl) fun _ => R.fail _, R.pure _]

theorem allocateIndex_rules (R : Rules E P [.indexNewWrite, .indexNewRead] [.index]) :
    P (allocateIndex E) :=
  R.bind R.getSync fun s => R.failIf <| match s.direction with
    | .encode => R.bind (R.call rfl) fun _ => R.failIf <| R.modify fun _ => rfl
    | .decode => R.bind (R.call rfl) fun _ => R.failIf <| R.modify fun _ => rfl

theorem attachIndex_rules (R : Rules E P [.indexUnref] [.index]) (halloc : P (allocateIndex E))
    {source : SyncM σ (Except Int Unit)} (hsource : P source) : P (attachIndex E source) :=
  R.bind halloc fun _ => R.bind hsource fun
    | .ok () => R.pure _
    | .error _ => R.bind (R.call rfl) fun _ => R.bind (R.modify fun _ => rfl) fun _ => R.fail _

theorem setter_rules (c : Setter) (R : Rules E P (setterCalls c) (setterFields c)) :
    P (c.run E) := by
  cases c <;> dsimp only [setterCalls, setterFields] at R
  case indexFd fd =>
    exact R.failIf <| attachIndex_rules E (R.mono (by decide) (List.Subset.refl _))
      (allocateIndex_rules E (R.mono (by decide) (List.Subset.refl _))) (R.call rfl)
  case indexPath path =>
    cases path
    exacts [R.fail _, attachIndex_rules E (R.mono (by decide) (List.Subset.refl _))
      (allocateIndex_rules E (R.mono (by decide) (List.Subset.refl _))) (R.call rfl)]
  case baseFd fd =>
    exact R.failIf <| R.bind R.getSync fun _ => R.failIf <| R.failIf <| R.failIf <|
      R.modify fun _ => rfl
  case basePath path =>
    cases path
    · exact R.fail _
    · refine R.bind R.getSync fun s => R.failIf <| R.failIf <| R.bind (R.call rfl) fun
        | .ok _ => R.modify fun _ => rfl
        | .error _ => R.bind (R.modify fun _ => rfl) fun _ => ?_
      cases s.direction
      · exact R.failIf <| R.bind (R.call rfl) fun
          | .ok _ => R.modify fun _ => rfl
          | .error _ => R.bind (R.modify fun _ => rfl) fun _ => R.fail _
      · exact R.bind (R.call rfl) fun _ => R.failIf <| R.modify fun _ => rfl
  case makePermMode m =>
    exact R.failIf <| R.bind R.getSync fun _ => R.failIf <| R.failIf <| R.modify fun _ => rfl
  case baseMode m =>
    exact R.failIf <| R.failIf <| R.bind R.getSync fun _ => R.failIf <| R.failIf <| R.failIf <|
      R.modify fun _ => rfl
  case archiveFd fd =>
    exact R.failIf <| R.bind R.getSync fun _ => R.failIf <| R.failIf <| R.modify fun _ => rfl
  case archivePath path =>
    cases path
    · exact R.fail _
    · refine R.bind R.getSync fun s => R.failIf <| R.failIf ?_
      cases s.direction
      · exact R.bind (R.call rfl) fun _ => R.failIf <| R.modify fun _ => rfl
      · exact R.bind (R.call rfl) fun
          | .ok _ => R.modify fun _ => rfl
          | .error _ => R.bind (R.modify fun _ => rfl) fun _ => R.fail _
  case storeLocal path =>
    cases path
    · exact R.fail _
    · exact R.bind R.getSync fun _ => R.failIf <| R.bind (R.call rfl) fun _ => R.failIf <|
        R.bind (R.call rfl) fun _ =>
          R.bind (orReleaseStore_rules E (R.mono (by decide) (List.nil_subset _)) _) fun _ =>
            R.modify fun _ => rfl
  case seedStoreLocal path =>
    cases path with
    | none => exact R.fail _
    | some path =>
      have hadd : P (modifySync fun s : CaSync σ => { s with rstores := s.rstores ++ [path] }) :=
        R.modify fun _ => rfl
      exact R.bind (R.call rfl) fun _ => R.failIf <| R.bind (R.call rfl) fun _ =>
        R.bind (orReleaseStore_rules E (R.mono (by decide) (List.nil_subset _)) _) fun _ =>
          R.bind R.getSync fun _ => R.bind (R.call rfl) fun _ =>
            R.ite (R.bind (R.call rfl) fun _ => R.bind (R.fail _) fun _ => hadd)
              (R.bind (R.pure _) fun _ => hadd)

variable {K : List CallKind} {F : List Field}

theorem openInto_rules (R : Rules E P K F) (path : String) (how : OpenHow)
    {setFd : Int → CaSync σ → CaSync σ} (hk : K.elem (Call.openFile path how).kind = true)
    (h : ∀ fd s, Only F s (setFd fd s)) : P (openInto E path how setFd) :=
  R.bind (R.call hk) fun
    | .ok _ => R.modify (h _)
    | .error _ => R.bind (R.modify (h _)) fun _ => R.fail _

theorem createTemporary_rules (R : Rules E P [.tempfnRandom, .create] F) (target : String)
    (tmp : Option String) (perm : UInt32) {setTmp : Option String → CaSync σ → CaSync σ}
    {setFd : Int → CaSync σ → CaSync σ} (hT : ∀ t s, Only F s (setTmp t s))
    (hF : ∀ fd s, Only F s (setFd fd s)) :
    P (createTemporary E target tmp perm setTmp setFd) := by
  unfold createTemporary
  lift_lets
  intro create
  have hcreate : ∀ t, P (create t) := fun _ => R.bind (R.call rfl) fun
    | .ok _ => R.modify (hF _)
    | .error _ => R.bind (R.modify fun s => (hF _ s).trans (hT _ _)) fun _ => R.fail _
  cases tmp
  · exact R.bind (R.call rfl) fun _ => R.bind (R.orFail _) fun _ =>
      R.bind (R.modify (hT _)) fun _ => R.bind (R.pure _) hcreate
  · exact R.bind (R.pure _) hcreate

theorem startArchive_rules
    (R : Rules E P [.tempfnRandom, .create] [.archiveFd, .temporaryArchivePath]) :
    P (startArchive E) :=
  R.bind R.getSync fun s => R.ite (match s.archivePath with
    | some _ => createTemporary_rules E R _ _ _ (fun _ _ => by rfl) fun _ _ => by rfl
    | none => R.pure _) (R.pure _)

theorem startEncoder_rules (R : Rules E P [.encoderNew, .encoderSetBaseFd] [.encoder, .baseFd]) :
    P (startEncoder E) :=
  R.bind R.getSync fun _ => R.ite (R.failIf <| R.bind (R.call rfl) fun _ => R.failIf <|
    R.bind (R.modify fun _ => rfl) fun _ => R.bind (R.call rfl) fun
      | .ok () => R.modify fun _ => rfl
      | .error _ => R.bind (R.modify fun _ => rfl) fun _ => R.fail _) (R.pure _)

/-- The base is made from its path; `assert` is the one step the rules do not cover. -/
theorem materializeBase_rules
    (R : Rules E P [.mkdir, .openFile, .tempfnRandom, .create] [.baseFd, .temporaryBasePath])
    (hassert : ∀ b, P (assert b)) (path : String) : P (materializeBase E path) :=
  have hopen (how : OpenHow) (hk : Call.kind (.openFile path how) = .openFile) :
      P (openInto E path how fun fd s => { s with baseFd := fd }) :=
    openInto_rules E R path how (by rw [hk]; rfl) fun _ _ => rfl
  R.bind R.getSync fun _ => R.failIf <| R.ite
    (R.bind (R.call rfl) fun
      | .ok () => R.bind (R.pure _) fun _ => hopen _ rfl
      | .error _ => R.failIf (hopen _ rfl))
    (R.ite (createTemporary_rules E (R.mono (by decide) (List.Subset.refl _)) _ _ _
        (fun _ _ => by rfl) fun _ _ => by rfl)
      (R.bind (hassert _) fun _ => hopen _ rfl))

theorem attachDecoder_rules
    (R : Rules E P [.decoderNew, .decoderSetBaseFd, .decoderSetBaseMode] [.baseFd, .decoder]) :
    P (attachDecoder E) :=
  R.bind (R.call rfl) fun _ => R.failIf <| R.bind (R.modify fun _ => rfl) fun _ =>
    R.bind R.getSync fun _ => R.ite
      (R.bind (R.call rfl) fun _ => R.bind (R.orFail _) fun _ => R.modify fun _ => rfl)
      (R.failIf <| R.bind (R.call rfl) fun _ => R.orFail _)

theorem startDecoder_rules (R : Rules E P [] []) (hbase : ∀ path, P (materializeBase E path))
    (hattach : P (attachDecoder E)) : P (startDecoder E) :=
  R.bind R.getSync fun s => R.ite
    (R.ite (match s.basePath with
        | some _ => R.bind (hbase _) fun _ => hattach
        | none => R.bind (R.pure _) fun _ => hattach)
      (R.bind (R.pure _) fun _ => hattach))
    (R.pure _)

theorem startIndex_rules (R : Rules E P [.indexOpen] []) : P (startIndex E) :=
  R.bind R.getSync fun _ => R.ite (R.bind (R.call rfl) fun _ => R.orFail _) (R.pure _)

theorem allocateArchiveDigest_rules (R : Rules E P [.mdOpen] [.archiveDigest]) :
    P (allocateArchiveDigest E) :=
  R.bind R.getSync fun _ => R.returnIf <| R.bind (R.call rfl) fun _ => R.failIf <|
    R.modify fun _ => rfl

theorem writeArchiveDigest_rules (R : Rules E P [] [.archiveDigest])
    (halloc : P (allocateArchiveDigest E)) (p : Bytes) : P (writeArchiveDigest E p) :=
  R.bind halloc fun _ => R.modify fun _ => rfl

theorem makeObjectId_rules (R : Rules E P [.mdOpen] [.objectDigest]) (p : Bytes) :
    P (makeObjectId E p) :=
  have hset : P (do
      modifySync fun s : CaSync σ => { s with objectDigest := some p }
      pure (E.sha256 p)) := R.bind (R.modify fun _ => rfl) fun _ => R.pure _
  R.bind R.getSync fun _ => R.ite (R.bind (R.call rfl) fun _ => R.failIf hset)
    (R.bind (R.pure _) fun _ => hset)

theorem writeArchive_rules (R : Rules E P [.loopWrite] []) (p : Bytes) : P (writeArchive E p) :=
  R.bind R.getSync fun _ => R.returnIf <| R.bind (R.call rfl) fun _ => R.orFail _

theorem writeOneChunk_rules (R : Rules E P [.storePut, .indexWriteObject] [])
    (hid : ∀ p, P (makeObjectId E p)) (p : Bytes) : P (writeOneChunk E p) :=
  R.bind (hid p) fun _ => R.bind R.getSync fun _ => R.bind (R.call rfl) fun _ =>
    R.bind (R.orFail _) fun _ => R.bind R.getSync fun _ =>
      R.ite (R.bind (R.call rfl) fun _ => R.orFail _) (R.pure _)

theorem appendBuffer_rules (R : Rules E P [.reallocBufferAppend] [.buffer]) (p : Bytes) :
    P (appendBuffer E p) :=
  R.bind (R.call rfl) fun _ => R.failIf <| R.modify fun _ => rfl

/-- The chunking loop, one pass per recursive call. -/
theorem writeChunksLoop_rules (R : Rules E P [] [.buffer, .chunker])
    (happend : ∀ p, P (appendBuffer E p)) (hone : ∀ p, P (writeOneChunk E p)) :
    ∀ (fuel : Nat) (p : Bytes), P (writeChunksLoop E fuel p)
  | 0, _ => R.pure _
  | _ + 1, [] => R.pure _
  | fuel + 1, b :: p =>
      R.bind R.getSync fun s => match E.chunker.scan s.chunker (b :: p) with
        | (_, none) => R.bind (R.modify fun _ => rfl) fun _ => happend _
        | (_, some _) => R.bind (R.modify fun _ => rfl) fun _ =>
            R.bind (R.ite (R.pure _) (R.bind (happend _) fun _ => R.bind R.getSync fun _ =>
              R.pure _)) fun _ => R.bind (hone _) fun _ => R.bind (R.modify fun _ => rfl) fun _ =>
                writeChunksLoop_rules R happend hone fuel _

theorem writeChunks_rules (R : Rules E P [] []) (hloop : ∀ fuel p, P (writeChunksLoop E fuel p))
    (p : Bytes) : P (writeChunks E p) :=
  R.bind R.getSync fun _ => R.returnIf (hloop _ _)

theorem writeFinalChunk_rules (R : Rules E P [.indexSetDigest, .indexWriteEof, .indexClose] [])
    (hone : ∀ p, P (writeOneChunk E p)) (halloc : P (allocateArchiveDigest E)) :
    P (writeFinalChunk E) :=
  R.bind R.getSync fun _ => R.returnIf <| R.returnIf <| R.bind (hone _) fun _ =>
    R.bind R.getSync fun _ => R.ite
      (R.bind halloc fun _ => R.bind R.getSync fun _ => R.bind (R.call rfl) fun _ =>
        R.bind (R.orFail _) fun _ => R.bind (R.call rfl) fun _ => R.bind (R.orFail _) fun _ =>
          R.bind (R.call rfl) fun _ => R.orFail _)
      (R.pure _)

theorem installTemporary_rules (R : Rules E P [.rename] F) (tmp path : Option String)
    {clearTmp : CaSync σ → CaSync σ} (h : ∀ s, Only F s (clearTmp s)) :
    P (installTemporary E tmp path clearTmp) := by
  unfold installTemporary
  split
  · exact R.bind (R.call rfl) fun _ => R.bind (R.orFail _) fun _ => R.modify h
  · exact R.pure _

theorem encodeFinished_rules (R : Rules E P [] [.eof])
    (hinstall : ∀ tmp path, P (installTemporary E tmp path fun s =>
      { s with temporaryArchivePath := none }))
    (hfinal : P (writeFinalChunk E)) : P (encodeFinished E) :=
  R.bind R.getSync fun _ => R.bind (hinstall _ _) fun _ => R.bind hfinal fun _ =>
    R.bind (R.modify fun _ => rfl) fun _ => R.pure _

theorem encodeData_rules (R : Rules E P [.encoderGetData] [])
    (harchive : ∀ p, P (writeArchive E p)) (hdigest : ∀ p, P (writeArchiveDigest E p))
    (hchunks : ∀ p, P (writeChunks E p)) : P (encodeData E) :=
  R.bind (R.call rfl) fun _ => R.bind (R.orFail _) fun _ => R.bind (harchive _) fun _ =>
    R.bind (hdigest _) fun _ => hchunks _

/-- `ca_sync_step_encode`; its `assert(false)` is the one step the rules do not cover. -/
theorem stepEncode_rules (R : Rules E P [.encoderStep] []) (hfinished : P (encodeFinished E))
    (hdata : P (encodeData E)) (habort : ∀ {α : Type}, P (abort : SyncM σ α)) :
    P (stepEncode E) :=
  R.bind R.getSync fun _ => R.failIf <| R.ite
    (R.bind (R.call rfl) fun _ => R.bind (R.orFail _) fun
      | .finished => hfinished
      | .nextFile => R.bind hdata fun _ => R.pure _
      | .data => R.bind hdata fun _ => R.pure _
      | .other _ => habort)
    habort

theorem decodeFinished_rules (R : Rules E P [] [.eof])
    (hinstall : ∀ tmp path, P (installTemporary E tmp path fun s =>
      { s with temporaryBasePath := none })) : P (decodeFinished E) :=
  R.bind R.getSync fun _ => R.bind (hinstall _ _) fun _ =>
    R.bind (R.modify fun _ => rfl) fun _ => R.pure _

theorem storesGet_rules (R : Rules E P [.storeGet] []) (id : ObjectId) :
    ∀ stores, P (storesGet E id stores)
  | [] => R.fail _
  | _ :: stores => R.bind (R.call rfl) fun
      | .ok _ => R.pure _
      | .error _ => R.ite (storesGet_rules R id stores) (R.fail _)

theorem get_rules (R : Rules E P [.storeGet] []) (id : ObjectId) : P (get E id) :=
  R.bind R.getSync fun _ => storesGet_rules E R id _

theorem processDecoderRequest_rules
    (R : Rules E P [.indexReadObject, .decoderPutEof, .free, .decoderPutData, .decoderPutDataFd] [])
    (hget : ∀ id, P (get E id)) (hdigest : ∀ p, P (writeArchiveDigest E p)) :
    P (processDecoderRequest E) :=
  R.bind R.getSync fun _ => R.ite
    (R.bind (R.call rfl) fun _ => R.bind (R.orFail _) fun
      | none => R.bind (R.call rfl) fun _ => R.orFail _
      | some _ =>
          have hput : ∀ p n, P (do
              let r ← call E (.decoderPutData p)
              let freed : Nat → UInt8 ← call E (.free p)
              orFail r
              writeArchiveDigest E ((List.range n).map freed)) := fun _ _ =>
            R.bind (R.call rfl) fun _ => R.bind (R.call rfl) fun _ => R.bind (R.orFail _) fun _ =>
              hdigest _
          R.bind (hget _) fun _ => R.ite
            (R.bind (R.call rfl) fun _ => R.bind (R.fail _) fun _ => hput _ _)
            (R.bind (R.pure _) fun _ => hput _ _))
    (R.ite (R.bind (R.call rfl) fun _ => R.orFail _) (R.fail _))

theorem stepDecode_rules (R : Rules E P [.decoderStep] []) (hfinished : P (decodeFinished E))
    (hrequest : P (processDecoderRequest E)) : P (stepDecode E) :=
  R.bind R.getSync fun _ => R.failIf <| R.failIf <| R.bind (R.call rfl) fun _ =>
    R.bind (R.orFail _) fun
      | .finished => hfinished
      | .nextFile | .step | .payload => R.pure _
      | .request => R.bind hrequest fun _ => R.pure _
      | .other _ => R.fail _

theorem getDigest_rules (R : Rules E P [] []) (halloc : P (allocateArchiveDigest E)) :
    P (getDigest E) :=
  R.bind R.getSync fun _ => R.failIf <| R.bind halloc fun _ => R.bind R.getSync fun _ => R.pure _

theorem currentPath_rules (R : Rules E P [.encoderCurrentPath, .decoderCurrentPath] []) :
    P (currentPath E) :=
  R.bind R.getSync fun _ => R.ite (R.bind (R.call rfl) fun _ => R.orFail _)
    (R.ite (R.bind (R.call rfl) fun _ => R.orFail _) (R.fail _))

theorem currentMode_rules (R : Rules E P [.encoderCurrentMode, .decoderCurrentMode] []) :
    P (currentMode E) :=
  R.bind R.getSync fun _ => R.ite (R.bind (R.call rfl) fun _ => R.orFail _)
    (R.ite (R.bind (R.call rfl) fun _ => R.orFail _) (R.fail _))

theorem put_rules (R : Rules E P [.storePut] []) (id : ObjectId) (data : Bytes) :
    P (put E id data) :=
  R.bind R.getSync fun _ => R.failIf <| R.bind (R.call rfl) fun _ => R.orFail _

end Rules

theorem setter_footprint (c : Setter) : Footprint configCalls (setterFields c) (c.run E) :=
  setter_rules E c ((Footprint.rules E _ _).mono (setterCalls_subset c) (List.Subset.refl _))

theorem exec_set_fields (c : Setter) :
    Footprint configCalls (setterFields c) (exec E (.set c)) :=
  .bind (setter_footprint E c) fun _ => .pure _

theorem exec_set_footprint (c : Setter) :
    Footprint configCalls configFields (exec E (.set c)) :=
  (exec_set_fields E c).mono (List.Subset.refl _) (setterFields_subset c)

theorem startArchive_footprint :
    Footprint [.tempfnRandom, .create] [.archiveFd, .temporaryArchivePath] (startArchive E) :=
  startArchive_rules E (Footprint.rules E _ _)

theorem startEncoder_footprint :
    Footprint [.encoderNew, .encoderSetBaseFd] [.encoder, .baseFd] (startEncoder E) :=
  startEncoder_rules E (Footprint.rules E _ _)

theorem materializeBase_footprint (path : String) :
    Footprint [.mkdir, .openFile, .tempfnRandom, .create] [.baseFd, .temporaryBasePath]
      (materializeBase E path) :=
  materializeBase_rules E (Footprint.rules E _ _) (fun _ => .ite (.pure _) (.throw _)) path

theorem attachDecoder_footprint :
    Footprint [.decoderNew, .decoderSetBaseFd, .decoderSetBaseMode] [.baseFd, .decoder]
      (attachDecoder E) :=
  attachDecoder_rules E (Footprint.rules E _ _)

theorem startDecoder_footprint :
    Footprint [.mkdir, .openFile, .tempfnRandom, .create, .decoderNew, .decoderSetBaseFd,
      .decoderSetBaseMode] [.baseFd, .temporaryBasePath, .decoder] (startDecoder E) :=
  startDecoder_rules E ((Footprint.rules E _ _).mono (List.nil_subset _) (List.nil_subset _))
    (fun _ => (materializeBase_footprint E _).mono (by decide) (by decide))
    ((attachDecoder_footprint E).mono (by decide) (by decide))

theorem startIndex_footprint : Footprint [.indexOpen] [] (startIndex E) :=
  startIndex_rules E (Footprint.rules E _ _)

theorem allocateArchiveDigest_footprint :
    Footprint [.mdOpen] [.archiveDigest] (allocateArchiveDigest E) :=
  allocateArchiveDigest_rules E (Footprint.rules E _ _)

theorem writeArchiveDigest_footprint (p : Bytes) :
    Footprint [.mdOpen] [.archiveDigest] (writeArchiveDigest E p) :=
  writeArchiveDigest_rules E ((Footprint.rules E _ _).mono (List.nil_subset _) (List.Subset.refl _))
    (allocateArchiveDigest_footprint E) p

theorem makeObjectId_footprint (p : Bytes) :
    Footprint [.mdOpen] [.objectDigest] (makeObjectId E p) :=
  makeObjectId_rules E (Footprint.rules E _ _) p

theorem writeArchive_footprint (p : Bytes) : Footprint [.loopWrite] [] (writeArchive E p) :=
  writeArchive_rules E (Footprint.rules E _ _) p

theorem writeOneChunk_footprint (p : Bytes) :
    Footprint [.mdOpen, .storePut, .indexWriteObject] [.objectDigest] (writeOneChunk E p) :=
  writeOneChunk_rules E ((Footprint.rules E _ _).mono (by decide) (List.nil_subset _))
    (fun _ => (makeObjectId_footprint E _).mono (by decide) (List.Subset.refl _)) p

theorem storesGet_footprint (id : ObjectId) (stores : List (Option String)) :
    Footprint [.storeGet] [] (storesGet E id stores) :=
  storesGet_rules E (Footprint.rules E _ _) id stores

theorem get_footprint (id : ObjectId) : Footprint [.storeGet] [] (get E id) :=
  get_rules E (Footprint.rules E _ _) id

/-- The calls and fields of `ca_sync_start`. -/
abbrev startCalls : List CallKind :=
  [.tempfnRandom, .create, .encoderNew, .encoderSetBaseFd, .mkdir, .openFile, .decoderNew,
    .decoderSetBaseFd, .decoderSetBaseMode, .indexOpen]

abbrev startFields : List Field :=
  [.archiveFd, .temporaryArchivePath, .encoder, .baseFd, .temporaryBasePath, .decoder]

theorem start_footprint : Footprint startCalls startFields (start E) :=
  .bind ((startArchive_footprint E).mono (by decide) (by decide)) fun _ =>
    .bind ((startEncoder_footprint E).mono (by decide) (by decide)) fun _ =>
      .bind ((startDecoder_footprint E).mono (by decide) (by decide)) fun _ =>
        (startIndex_footprint E).mono (by decide) (by decide)

theorem appendBuffer_footprint (p : Bytes) :
    Footprint [.reallocBufferAppend] [.buffer] (appendBuffer E p) :=
  appendBuffer_rules E (Footprint.rules E _ _) p

/-- The calls of the chunking loop. -/
abbrev chunkCalls : List CallKind := [.mdOpen, .storePut, .indexWriteObject, .reallocBufferAppend]

theorem writeChunksLoop_footprint (fuel : Nat) (p : Bytes) :
    Footprint chunkCalls [.objectDigest, .buffer, .chunker] (writeChunksLoop E fuel p) :=
  writeChunksLoop_rules E ((Footprint.rules E _ _).mono (List.nil_subset _) (by decide))
    (fun _ => (appendBuffer_footprint E _).mono (by decide) (by decide))
    (fun _ => (writeOneChunk_footprint E _).mono (by decide) (by decide)) fuel p

theorem writeChunks_footprint (p : Bytes) :
    Footprint chunkCalls [.objectDigest, .buffer, .chunker] (writeChunks E p) :=
  writeChunks_rules E ((Footprint.rules E _ _).mono (List.nil_subset _) (List.nil_subset _))
    (writeChunksLoop_footprint E) p

/-- The calls of `ca_sync_write_final_chunk`. -/
abbrev finalCalls : List CallKind :=
  [.mdOpen, .storePut, .indexWriteObject, .indexSetDigest, .indexWriteEof, .indexClose]

theorem writeFinalChunk_footprint :
    Footprint finalCalls [.objectDigest, .archiveDigest] (writeFinalChunk E) :=
  writeFinalChunk_rules E ((Footprint.rules E _ _).mono (by decide) (List.nil_subset _))
    (fun _ => (writeOneChunk_footprint E _).mono (by decide) (by decide))
    ((allocateArchiveDigest_footprint E).mono (by decide) (by decide))

theorem installTemporary_footprint (F : List Field) (tmp path : Option String)
    {clearTmp : CaSync σ → CaSync σ} (h : ∀ s, Only F s (clearTmp s)) :
    Footprint [.rename] F (installTemporary E tmp path clearTmp) :=
  installTemporary_rules E (Footprint.rules E _ _) tmp path h

/-- The calls and fields of `ca_sync_step_encode`. -/
abbrev encodeCalls : List CallKind :=
  [.encoderStep, .rename, .encoderGetData, .loopWrite, .mdOpen, .storePut, .indexWriteObject,
    .reallocBufferAppend, .indexSetDigest, .indexWriteEof, .indexClose]

abbrev encodeFields : List Field :=
  [.temporaryArchivePath, .eof, .objectDigest, .archiveDigest, .buffer, .chunker]

theorem encodeFinished_footprint :
    Footprint (.rename :: finalCalls) encodeFields (encodeFinished E) :=
  encodeFinished_rules E ((Footprint.rules E _ _).mono (List.nil_subset _) (by decide))
    (fun _ _ => (installTemporary_footprint E [.temporaryArchivePath] _ _ fun _ => by rfl).mono
      (by decide) (by decide))
    ((writeFinalChunk_footprint E).mono (by decide) (by decide))

/-- The calls of the `CA_ENCODER_DATA` case: those of the chunking loop, the read of the
encoder's bytes and the archive write. -/
abbrev dataCalls : List CallKind := .encoderGetData :: .loopWrite :: chunkCalls

theorem encodeData_footprint :
    Footprint dataCalls [.objectDigest, .archiveDigest, .buffer, .chunker] (encodeData E) :=
  encodeData_rules E ((Footprint.rules E _ _).mono (by decide) (List.nil_subset _))
    (fun _ => (writeArchive_footprint E _).mono (by decide) (by decide))
    (fun _ => (writeArchiveDigest_footprint E _).mono (by decide) (by decide))
    (fun _ => (writeChunks_footprint E _).mono (by decide) (by decide))

theorem stepEncode_footprint : Footprint encodeCalls encodeFields (stepEncode E) :=
  stepEncode_rules E ((Footprint.rules E _ _).mono (by decide) (List.nil_subset _))
    ((encodeFinished_footprint E).mono (by decide) (List.Subset.refl _))
    ((encodeData_footprint E).mono (by decide) (by decide)) (.throw _)

theorem decodeFinished_footprint :
    Footprint [.rename] [.temporaryBasePath, .eof] (decodeFinished E) :=
  decodeFinished_rules E ((Footprint.rules E _ _).mono (List.nil_subset _) (by decide))
    fun _ _ => (installTemporary_footprint E [.temporaryBasePath] _ _ fun _ => by rfl).mono
      (List.Subset.refl _) (by decide)

/-- The calls and fields of `ca_sync_step_decode`. -/
abbrev decodeCalls : List CallKind :=
  [.decoderStep, .rename, .indexReadObject, .decoderPutEof, .storeGet, .free, .decoderPutData,
    .mdOpen, .decoderPutDataFd]

abbrev decodeFields : List Field := [.temporaryBasePath, .eof, .archiveDigest]

/-- The calls of `ca_sync_process_decoder_request`. -/
abbrev requestCalls : List CallKind :=
  [.indexReadObject, .decoderPutEof, .storeGet, .free, .decoderPutData, .mdOpen, .decoderPutDataFd]

theorem processDecoderRequest_footprint :
    Footprint requestCalls [.archiveDigest] (processDecoderRequest E) :=
  processDecoderRequest_rules E ((Footprint.rules E _ _).mono (by decide) (List.nil_subset _))
    (fun _ => (get_footprint E _).mono (by decide) (by decide))
    (fun _ => (writeArchiveDigest_footprint E _).mono (by decide) (List.Subset.refl _))

theorem stepDecode_footprint : Footprint decodeCalls decodeFields (stepDecode E) :=
  stepDecode_rules E ((Footprint.rules E _ _).mono (by decide) (List.nil_subset _))
    ((decodeFinished_footprint E).mono (by decide) (by decide))
    ((processDecoderRequest_footprint E).mono (by decide) (by decide))

theorem getDigest_footprint : Footprint [.mdOpen] [.archiveDigest] (getDigest E) :=
  getDigest_rules E ((Footprint.rules E _ _).mono (List.nil_subset _) (List.nil_subset _))
    (allocateArchiveDigest_footprint E)

theorem currentPath_footprint :
    Footprint [.encoderCurrentPath, .decoderCurrentPath] [] (currentPath E) :=
  currentPath_rules E (Footprint.rules E _ _)

theorem currentMode_footprint :
    Footprint [.encoderCurrentMode, .decoderCurrentMode] [] (currentMode E) :=
  currentMode_rules E (Footprint.rules E _ _)

/-- The public calls that read from a driver without driving it: `ca_sync_get`,
`ca_sync_make_object_id`, `ca_sync_get_digest`, `ca_sync_current_path` and
`ca_sync_current_mode`. -/
def IsQuery : Op → Prop
  | .get _ | .makeObjectId _ | .getDigest | .currentPath | .currentMode => True
  | .set _ | .step | .put _ _ => False

/-- The calls and fields of the queries. -/
abbrev queryCalls : List CallKind :=
  [.storeGet, .mdOpen, .encoderCurrentPath, .encoderCurrentMode, .decoderCurrentPath,
    .decoderCurrentMode]

abbrev queryFields : List Field := [.objectDigest, .archiveDigest]

theorem query_footprint (op : Op) (h : IsQuery op) :
    Footprint queryCalls queryFields (exec E op) := by
  cases op <;> simp only [IsQuery] at h <;> refine .bind ?_ fun _ => .pure _
  · exact (get_footprint E _).mono (by decide) (by decide)
  · exact (makeObjectId_footprint E _).mono (by decide) (by decide)
  · exact (getDigest_footprint E).mono (by decide) (by decide)
  · exact (currentPath_footprint E).mono (by decide) (by decide)
  · exact (currentMode_footprint E).mono (by decide) (by decide)

theorem put_footprint (id : ObjectId) (data : Bytes) : Footprint [.storePut] [] (put E id data) :=
  put_rules E (Footprint.rules E _ _) id data

/-- The calls and fields of `ca_sync_step`, in either direction. -/
abbrev stepCalls : List CallKind := startCalls ++ encodeCalls ++ decodeCalls

abbrev stepFields : List Field := startFields ++ encodeFields ++ decodeFields

theorem step_footprint : Footprint stepCalls stepFields (step E) :=
  .bind ((start_footprint E).mono (by decide) (by decide)) fun _ => .bind .getSync fun _ => by
    split
    exacts [(stepEncode_footprint E).mono (by decide) (by decide),
      (stepDecode_footprint E).mono (by decide) (by decide)]

/-- Every public call but the setters changes only the fields of a step or of a query. -/
theorem exec_footprint {op : Op} (hop : ∀ c, op ≠ .set c) :
    Footprint (.storePut :: stepCalls ++ queryCalls) (stepFields ++ queryFields) (exec E op) := by
  cases op with
  | set c => exact absurd rfl (hop c)
  | step => exact .bind ((step_footprint E).mono (by decide) (by decide)) fun _ => .pure _
  | put id data =>
      exact .bind ((put_footprint E id data).mono (by decide) (by decide)) fun _ => .pure _
  | _ => exact (query_footprint E _ (by trivial)).mono (by decide) (by decide)

end Casync.Proofs.Frames
