import Pyjamaz.Refinement.DataStore
import Pyjamaz.Runtime.ExtrinsicCollector

/-!
# The refine pipeline

A work package that comes to a node waits until the node is assigned to a core that authorizes it.  Then
one worker refines the packages, one after another: it takes in what the computation needs, computes in a
thread of its own, and files the report with a first credential.  Another worker makes a guarantee of a
report with enough credentials; it is part of `Extrinsics.Node`, which this model runs on.

While a report is computed the node goes on: blocks are imported, packages come, also the same one again.
So a report is filed only when the state root, the validators and the core are still those that were
captured, and no block is half imported.

The queues are bounded, and a put into a full one waits.  The timeslot worker changes the status of a
submission before it waits to put it into the refine queue, and goes on with its loop over the packages
afterwards, unless a package has come in the meantime; the refine worker waits with a credential that it
has added.

The module has the model and the invariant of its lists, `Scheduled`: the status of a submission says where
the submission is.  What is settled at once about one submission is `Scheduled.settle`, and `Scheduled.act`
assembles the steps.
-/

namespace Refinement

open Octets Services

/-! ## Data -/

/-- `WorkPackageStatus`; a failure is kept as the error and not as its text. -/
inductive WorkPackageStatus where
  | reportable (remainingBlocks : ℕ)
  | reporting
  | reported (slot : ℕ) (headerHash : Octets32) (core : ℕ) (reportHash : Octets32)
  | failed (reason : ReportError)
  deriving DecidableEq

structure GuarantorAssignment where
  validatorEd25519 : Octets32
  coreIndex : ℕ

/-- What the pipeline reads of the node: the working state with its storage, the block context, and the
hashes of the stored blocks by their slots. -/
structure NodeView where
  stateRoot : Octets32
  timeslot : ℕ
  /-- the Ed25519 keys of the validator pool -/
  validatorKeys : List Octets32
  /-- the place of the node in the pool -/
  authorIndex : Option ℕ
  authorizerPools : List (List Octets32)
  /-- the packages that the recent blocks report, with the roots of their exports -/
  recentReports : List (Octets32 × Octets32)
  services : ServicesState
  /-- whether the storage has an open transaction -/
  transaction : Bool
  /-- the block that the storage stands at -/
  blockHash : Option Octets32
  guarantorAssignments : List GuarantorAssignment
  retrieveBlockHash : ℕ → Option Octets32

/-- The constants of the chain, what comes from other packages, and the keys of the node. -/
structure Environment (Signature : Type) where
  config : Config
  primitives : Primitives
  d3lCodec : D3LCodec
  invocations : Invocations
  collector : Extrinsics.Environment WorkReport Octets32 Signature
  publicKey : Octets32
  /-- the signature of a report with the key of the node, or with that of a validator by its index -/
  signReport : Option ℕ → WorkReport → Signature
  /-- `queue_size`: the queues of the pipeline hold at most this much -/
  queueSize : ℕ

/-- What the worker captures before it computes. -/
structure Job where
  index : ℕ
  package : WorkPackage
  core : ℕ
  headRoot : Octets32
  slot : ℕ
  headHash : Octets32
  validatorKeys : List Octets32
  services : ServicesState
  mappings : Dict Octets32 Octets32
  data : BundleData

/-- Where the refine worker is. -/
inductive RefineWorker (Signature : Type) where
  /-- it waits for the queue -/
  | idle
  /-- the thread computes -/
  | computing (job : Job)
  /-- the report is filed, its status is being published -/
  | publishing (job : Job) (report : WorkReport)
  /-- a credential is added, and its package waits for a place in the guarantee queue; the credentials
  that follow are not chosen before the first one is through -/
  | signing (job : Job) (report : WorkReport) (packageHash : Octets32)
      (others : Option (List (Assurances.Credential Signature)))
  | cancelled

/-- Where the timeslot worker is. -/
inductive TimeslotWorker where
  /-- it waits for a timeslot -/
  | idle
  /-- it waits to put a submission into the refine queue; its loop began with `size` packages and has
  `left` of them to come -/
  | putting (index size left : ℕ)

/-- The pipeline, with the node it runs on.  A work package is known by its place in the lists: its
report and credentials are in the node. -/
structure RefinePipeline (Signature : Type) where
  view : NodeView
  d3lStore : Option DataAvailabilityStore
  node : Extrinsics.Node WorkReport Octets32 Signature
  packages : List WorkPackage
  statuses : List WorkPackageStatus
  extrinsics : WorkpackageExtrinsicCollector
  timeslotQueue : List ℕ
  timeslotWorker : TimeslotWorker
  refineQueue : List ℕ
  worker : RefineWorker Signature

variable {Signature : Type} (env : Environment Signature)

/-- `WorkPackage.hash`, or nothing when the package does not encode. -/
def packageHash (package : WorkPackage) : Option Octets32 :=
  (package.toJamBytes env.primitives.codec).map env.primitives.blake2b256Hash

/-- `WorkPackage.authorizer_hash` -/
def authorizerHash (package : WorkPackage) : Octets32 :=
  env.primitives.blake2b256Hash (package.authCodeHash.toList ++ package.authorizerConfig)

/-- `AuthorizerPools.is_authorized`, or nothing when there is no pool of the core. -/
def isAuthorized (pools : List (List Octets32)) (package : WorkPackage) (core : ℕ) : Option Bool :=
  if core > pools.length then some false
  else pools[core]?.map (fun pool => decide (authorizerHash env package ∈ pool))

namespace NodeView

variable (view : NodeView)

/-- `get_core_assigment` -/
def coreAssignment : Option ℕ :=
  (view.guarantorAssignments.find? (fun assignment =>
    assignment.validatorEd25519 = env.publicKey)).map GuarantorAssignment.coreIndex

/-- `_view_is_committed` -/
def isCommitted (headHash : Octets32) : Bool :=
  !view.transaction && (view.blockHash = none ∨ view.blockHash = some headHash)

/-- What is captured and what the node is at now agree. -/
def agrees (job : Job) : Bool :=
  view.stateRoot = job.headRoot ∧ view.coreAssignment env = some job.core ∧
    view.validatorKeys = job.validatorKeys ∧ view.isCommitted job.headHash

end NodeView

/-! ## The steps -/

namespace RefinePipeline

variable (p : RefinePipeline Signature)

def init (view : NodeView) (d3lStore : Option DataAvailabilityStore) : RefinePipeline Signature where
  view := view
  d3lStore := d3lStore
  node := .init
  packages := []
  statuses := []
  extrinsics := .init
  timeslotQueue := []
  timeslotWorker := .idle
  refineQueue := []
  worker := .idle

def setStatus (index : ℕ) (status : WorkPackageStatus) : RefinePipeline Signature :=
  { p with statuses := p.statuses.set index status }

/-- `add_work_package` -/
def addWorkPackage (package : WorkPackage) (extrinsics : List Octets) : RefinePipeline Signature :=
  (packageHash env package).elim p (fun hash => { p with
    node := p.node.act env.collector (.addWorkPackage hash)
    packages := p.packages ++ [package]
    statuses := p.statuses ++ [.reportable 4]
    extrinsics := p.extrinsics.add env.primitives.blake2b256Hash hash extrinsics })

/-- The loop of `_timeslot_worker` over the packages that are left of `size`.  No core and no pool end
it, and a full queue makes it wait. -/
def enqueueAuthorized (size : ℕ) : List ℕ → RefinePipeline Signature → RefinePipeline Signature
  | [], p => p
  | index :: rest, p =>
    match p.statuses[index]?, p.packages[index]? with
    | some (.reportable _), some package =>
      match (p.view.coreAssignment env).bind (isAuthorized env p.view.authorizerPools package) with
      | none => p
      | some false => enqueueAuthorized size rest p
      | some true =>
        if p.refineQueue.length < env.queueSize then
          enqueueAuthorized size rest
            { p.setStatus index .reporting with refineQueue := p.refineQueue ++ [index] }
        else
          { p.setStatus index .reporting with timeslotWorker := .putting index size rest.length }
    | _, _ => enqueueAuthorized size rest p

/-- `notify_timeslot`, which waits while the queue is full. -/
def notifyTimeslot (timeslot : ℕ) : RefinePipeline Signature :=
  if p.timeslotQueue.length < env.queueSize then
    { p with timeslotQueue := p.timeslotQueue ++ [timeslot] }
  else p

/-- `_timeslot_worker` with the next timeslot. -/
def takeTimeslot : RefinePipeline Signature :=
  match p.timeslotWorker, p.timeslotQueue with
  | .idle, _ :: rest =>
    let p := { p with timeslotQueue := rest }
    match p.view.coreAssignment env with
    | none => p
    | some _ =>
      let packages := p.node.pendingWorkPackages.values
      p.enqueueAuthorized env packages.length packages
  | _, _ => p

/-- `_timeslot_worker` after it has waited.  A loop over a dictionary that has grown raises. -/
def endPut : RefinePipeline Signature :=
  match p.timeslotWorker with
  | .idle => p
  | .putting index size left =>
    if p.refineQueue.length < env.queueSize then
      let p := { p with timeslotWorker := .idle, refineQueue := p.refineQueue ++ [index] }
      let packages := p.node.pendingWorkPackages.values
      if packages.length = size then p.enqueueAuthorized env size (packages.drop (size - left))
      else p
    else p

/-- `_retry` -/
def retry (index : ℕ) : RefinePipeline Signature :=
  { p with node := p.node.act env.collector (.retry index) }.setStatus index (.reportable 4)

/-- What the worker does about an error. -/
def reject (index : ℕ) (reason : ReportError) : RefinePipeline Signature :=
  (p.retry env index).setStatus index (.failed reason)

def handle (index : ℕ) : RefineError → RefinePipeline Signature
  | .dataUnavailable _ => p.retry env index
  | .report reason => p.reject env index reason

/-- The roots that the node knows: those of the recent blocks, and over them those of its reports. -/
def known : Dict Octets32 Octets32 :=
  ((∅ : Dict Octets32 Octets32).assign p.view.recentReports).assign
    (p.node.pendingWorkPackages.values.filterMap (fun index =>
      ((p.node.items[index]?).bind Extrinsics.WorkPackageQueueItem.workReport).map (fun report =>
        (report.packageSpec.hash, toDigest report.packageSpec.exportsRoot))))

/-- The first part of `_refine_work_package`: nothing when the package has to wait for the node. -/
def capture (index : ℕ) (package : WorkPackage) : Except RefineError (Option Job) := do
  (validateWorkPackage env.config package).mapError .report
  match p.view.coreAssignment env, p.view.retrieveBlockHash p.view.timeslot with
  | some core, some headHash =>
    if ¬ p.view.isCommitted headHash then return none
    else do
      let mappings ← segmentRootLookup p.known p.d3lStore package
      let hash ← (packageHash env package).elim (.error (.report .raised)) .ok
      let data ← bundleData env.primitives env.d3lCodec p.d3lStore p.extrinsics hash package mappings
      return some {
        index := index
        package := package
        core := core
        headRoot := p.view.stateRoot
        slot := p.view.timeslot
        headHash := headHash
        validatorKeys := p.view.validatorKeys
        services := p.view.services
        mappings := mappings
        data := data }
  | _, _ => return none

/-- The worker takes the next package and starts its computation. -/
def takeItem : RefinePipeline Signature :=
  match p.worker, p.refineQueue with
  | .idle, index :: rest =>
    let p := { p with refineQueue := rest }
    match p.packages[index]? with
    | none => p
    | some package =>
      match p.capture env index package with
      | .error e => p.handle env index e
      | .ok none => p.retry env index
      | .ok (some job) => { p with worker := .computing job }
  | _, _ => p

/-- `compute_work_report` in the thread. -/
def compute (job : Job) : Except ReportError RefinementOutput :=
  computeWorkReport env.config env.primitives env.invocations job.services job.data job.package
    job.core job.mappings job.validatorKeys.length

/-- The store with a report, where there is a store. -/
def storeReport (out : RefinementOutput) : Except ReportError (Option DataAvailabilityStore) :=
  match p.d3lStore with
  | none => .ok none
  | some store =>
    (store.storeWorkReport env.d3lCodec out.report out.bundle out.exportedSegments).map some

/-- The computation is done: the report is filed when the view has not changed. -/
def endCompute : RefinePipeline Signature :=
  match p.worker with
  | .computing job =>
    let p := { p with worker := .idle }
    match compute env job with
    | .error e => p.reject env job.index e
    | .ok out =>
      if ¬ p.view.agrees env job then p.retry env job.index
      else
        match p.storeReport env out with
        | .error e => p.reject env job.index e
        | .ok d3lStore =>
          { p with
            d3lStore := d3lStore
            node := p.node.act env.collector (.report job.index out.report)
            worker := .publishing job out.report }.setStatus job.index
              (.reported job.slot job.headHash job.core (env.collector.report.hash out.report))
  | _ => p

/-- The credentials of the other guarantors of the core, which a node in solo mode makes as well. -/
def otherCredentials (core : ℕ) (report : WorkReport) : List (Assurances.Credential Signature) :=
  if env.collector.config.soloMode then
    (p.view.guarantorAssignments.zipIdx.filter (fun assignment =>
      assignment.1.validatorEd25519 ≠ env.publicKey ∧ assignment.1.coreIndex = core)).map
        (fun assignment => ⟨assignment.2, env.signReport (some assignment.2) report⟩)
  else []

/-- `add_signature` up to the place where it may wait. -/
def appendSignature (hash : Octets32) (credential : Assurances.Credential Signature) :
    RefinePipeline Signature :=
  { p with node := { p.node.act env.collector (.addSignature hash credential) with
      guaranteeQueue := p.node.guaranteeQueue } }

/-- The end of `add_signature`. -/
def putGuarantee (hash : Octets32) : RefinePipeline Signature :=
  { p with node := { p.node with guaranteeQueue := p.node.guaranteeQueue ++ [hash] } }

/-- `add_signature` for each of some credentials, and the end of `_refine_work_package`. -/
def addSignatures (job : Job) (report : WorkReport) (hash : Octets32) :
    List (Assurances.Credential Signature) → RefinePipeline Signature → RefinePipeline Signature
  | [], p => { p with worker := .idle, extrinsics := p.extrinsics.clear hash }
  | credential :: rest, p =>
    let p := p.appendSignature env hash credential
    if p.node.guaranteeQueue.length < env.queueSize then
      addSignatures job report hash rest (p.putGuarantee hash)
    else { p with worker := .signing job report hash (some rest) }

/-- `add_signature` for a first credential, then for those of the other guarantors. -/
def sign (job : Job) (report : WorkReport) (hash : Octets32)
    (credential : Assurances.Credential Signature) : RefinePipeline Signature :=
  let p := p.appendSignature env hash credential
  if p.node.guaranteeQueue.length < env.queueSize then
    (p.putGuarantee hash).addSignatures env job report hash (p.otherCredentials env job.core report)
  else { p with worker := .signing job report hash none }

/-- The status is published, or that raises; then the report is signed. -/
def endPublish (raised : Bool) : RefinePipeline Signature :=
  match p.worker with
  | .publishing job report =>
    match raised, p.view.authorIndex with
    | false, some authorIndex =>
      (packageHash env job.package).elim ({ p with worker := .idle }.reject env job.index .raised)
        (fun hash => p.sign env job report hash ⟨authorIndex, env.signReport none report⟩)
    | _, _ => { p with worker := .idle }.reject env job.index .raised
  | _ => p

/-- The worker goes on after it has waited with a credential. -/
def endSign : RefinePipeline Signature :=
  match p.worker with
  | .signing job report hash others =>
    if p.node.guaranteeQueue.length < env.queueSize then
      (p.putGuarantee hash).addSignatures env job report hash
        (others.getD (p.otherCredentials env job.core report))
    else p
  | _ => p

/-- The worker is cancelled. -/
def cancel : RefinePipeline Signature :=
  match p.worker with
  | .computing job => { p with worker := .cancelled }.retry env job.index
  | .publishing job _ => { p with worker := .cancelled }.retry env job.index
  | .signing job _ _ _ => { p with worker := .cancelled }.retry env job.index
  | _ => { p with worker := .cancelled }

end RefinePipeline

/-! ## Runs -/

/-- What happens between two places where the tasks of the node wait. -/
inductive PipelineAction (Signature : Type) where
  /-- the node goes on: a block is imported, or half of it -/
  | changeView (view : NodeView)
  /-- the collector of extrinsics, with the worker that makes guarantees -/
  | collect (action : Extrinsics.Action WorkReport Octets32 Signature)
  | addWorkPackage (package : WorkPackage) (extrinsics : List Octets)
  | notifyTimeslot (timeslot : ℕ)
  | takeTimeslot
  | endPut
  | takeItem
  | endCompute
  | endPublish (raised : Bool)
  | endSign
  | cancel

/-- The steps of the collector that only the pipeline takes. -/
def isPipelineStep : Extrinsics.Action WorkReport Octets32 Signature → Bool
  | .addWorkPackage _ => true
  | .report _ _ => true
  | .retry _ => true
  | .addSignature _ _ => true
  | _ => false

namespace RefinePipeline

def act (p : RefinePipeline Signature) : PipelineAction Signature → RefinePipeline Signature
  | .changeView view => { p with view := view }
  | .collect action =>
    if isPipelineStep action then p else { p with node := p.node.act env.collector action }
  | .addWorkPackage package extrinsics => p.addWorkPackage env package extrinsics
  | .notifyTimeslot timeslot => p.notifyTimeslot env timeslot
  | .takeTimeslot => p.takeTimeslot env
  | .endPut => p.endPut env
  | .takeItem => p.takeItem env
  | .endCompute => p.endCompute env
  | .endPublish raised => p.endPublish env raised
  | .endSign => p.endSign env
  | .cancel => p.cancel env

/-- The pipeline after some steps. -/
def run (p : RefinePipeline Signature) : List (PipelineAction Signature) → RefinePipeline Signature
  | [] => p
  | action :: actions => run (p.act env action) actions

end RefinePipeline

/-! ## What the collector leaves alone -/

section Collector

variable {collector : Extrinsics.Environment WorkReport Octets32 Signature}
  {n : Extrinsics.Node WorkReport Octets32 Signature}

lemma ingest_items (index slot : ℕ) : (n.ingest collector index slot).items = n.items ∧
    (n.ingest collector index slot).pendingWorkPackages = n.pendingWorkPackages := by
  rw [Extrinsics.Node.ingest]
  split <;> exact ⟨rfl, rfl⟩

lemma takePackage_items (package : Octets32) (slot : ℕ) :
    (n.takePackage collector package slot).items = n.items ∧
      (n.takePackage collector package slot).pendingWorkPackages = n.pendingWorkPackages := by
  rw [Extrinsics.Node.takePackage]
  split
  · exact ⟨rfl, rfl⟩
  split
  · exact ⟨rfl, rfl⟩
  split
  · exact ⟨rfl, rfl⟩
  split
  · exact ⟨rfl, rfl⟩
  · exact ingest_items _ slot

lemma produceBlock_items (chain : Extrinsics.ChainState) :
    (n.produceBlock collector chain).1.items = n.items ∧
      (n.produceBlock collector chain).1.pendingWorkPackages = n.pendingWorkPackages := by
  rw [Extrinsics.Node.produceBlock]
  dsimp only
  split
  · exact ⟨rfl, rfl⟩
  split <;> exact ⟨rfl, rfl⟩

/-- The work packages change in the steps of the pipeline only. -/
lemma act_items (collector : Extrinsics.Environment WorkReport Octets32 Signature)
    (n : Extrinsics.Node WorkReport Octets32 Signature)
    {action : Extrinsics.Action WorkReport Octets32 Signature} (h : isPipelineStep action = false) :
    (n.act collector action).items = n.items ∧
      (n.act collector action).pendingWorkPackages = n.pendingWorkPackages := by
  cases action with
  | addTicket ticket ringPublicKeys entropy =>
    rw [Extrinsics.Node.act]
    split <;> exact ⟨rfl, rfl⟩
  | addOwnTicket id signature validatorCount =>
    rw [Extrinsics.Node.act]
    split
    · split <;> exact ⟨rfl, rfl⟩
    · exact ⟨rfl, rfl⟩
  | addWorkPackage package => cases h
  | report index workReport => cases h
  | retry index => cases h
  | addSignature package credential => cases h
  | takeGuarantee slot =>
    rw [Extrinsics.Node.act]
    split
    · exact takePackage_items _ slot
    · exact ⟨rfl, rfl⟩
  | endWait slot =>
    rw [Extrinsics.Node.act]
    split
    · exact ingest_items _ slot
    · exact ⟨rfl, rfl⟩
  | produceBlock chain => exact produceBlock_items chain
  | _ => exact ⟨rfl, rfl⟩

lemma act_addWorkPackage (collector : Extrinsics.Environment WorkReport Octets32 Signature)
    (n : Extrinsics.Node WorkReport Octets32 Signature) (hash : Octets32) :
    (n.act collector (.addWorkPackage hash)).items = n.items ++ [⟨none, []⟩] ∧
      (n.act collector (.addWorkPackage hash)).pendingWorkPackages =
        n.pendingWorkPackages.insert hash n.items.length :=
  ⟨rfl, rfl⟩

end Collector

/-! ## The submissions -/

namespace RefinePipeline

variable {env : Environment Signature} {p : RefinePipeline Signature}

/-- The report of a submission. -/
def report? (p : RefinePipeline Signature) (index : ℕ) : Option WorkReport :=
  (p.node.items[index]?).bind Extrinsics.WorkPackageQueueItem.workReport

/-- The submission that the timeslot worker holds. -/
def putting (p : RefinePipeline Signature) : List ℕ :=
  match p.timeslotWorker with
  | .putting index _ _ => [index]
  | .idle => []

/-- The submissions that are in the refine queue, or with the timeslot worker on their way there. -/
def queued (p : RefinePipeline Signature) : List ℕ := p.refineQueue ++ p.putting

/-- The submissions that wait to be refined or are being refined. -/
def waiting (p : RefinePipeline Signature) : List ℕ :=
  match p.worker with
  | .computing job => job.index :: p.queued
  | _ => p.queued

/-- The submissions are where their statuses say they are; one may be left out of it. -/
structure Scheduled (env : Environment Signature) (p : RefinePipeline Signature)
    (skip : Option ℕ) : Prop where
  items_length : p.node.items.length = p.packages.length
  statuses_length : p.statuses.length = p.packages.length
  nodup : p.waiting.Nodup
  reporting : ∀ index, skip ≠ some index →
    (p.statuses[index]? = some .reporting ↔ index ∈ p.waiting)
  reported : ∀ index, skip ≠ some index →
    ((∃ slot headerHash core reportHash,
      p.statuses[index]? = some (.reported slot headerHash core reportHash)) ↔
        (p.report? index).isSome)
  skipped : ∀ index, skip = some index → index ∉ p.waiting ∧ index < p.packages.length
  pending : ∀ {hash index}, p.node.pendingWorkPackages.get? hash = some index →
    ∃ package, p.packages[index]? = some package ∧ packageHash env package = some hash
  computing : ∀ {job}, p.worker = .computing job → p.packages[job.index]? = some job.package
  publishing : ∀ {job report}, p.worker = .publishing job report →
    p.packages[job.index]? = some job.package ∧ p.report? job.index = some report
  signing : ∀ {job report hash others}, p.worker = .signing job report hash others →
    packageHash env job.package = some hash ∧ p.packages[job.index]? = some job.package ∧
      p.report? job.index = some report

lemma scheduled_init (view : NodeView) (d3lStore : Option DataAvailabilityStore) :
    (init view d3lStore : RefinePipeline Signature).Scheduled env none where
  items_length := rfl
  statuses_length := rfl
  nodup := List.nodup_nil
  reporting index _ := by simp [init, waiting, queued, putting]
  reported index _ := by simp [init, report?, Extrinsics.Node.init]
  skipped index h := by cases h
  pending h := by cases h
  computing h := by cases h
  publishing h := by cases h
  signing h := by cases h

lemma Scheduled.lt_length {skip : Option ℕ} (h : p.Scheduled env skip) {index : ℕ}
    (hindex : index ∈ p.waiting) (hskip : skip ≠ some index) : index < p.packages.length := by
  have hstatus := (h.reporting index hskip).mpr hindex
  have hlt := (List.getElem?_eq_some_iff.mp hstatus).1
  rwa [h.statuses_length] at hlt

/-! ### One submission changes -/

lemma report?_eq {p q : RefinePipeline Signature} (h : q.node.items = p.node.items) (index : ℕ) :
    q.report? index = p.report? index := by
  rw [report?, report?, h]

lemma waiting_of_done (h : p.worker = .idle ∨ p.worker = .cancelled) :
    p.waiting = p.queued := by
  rcases h with h | h <;> rw [waiting, h]

/-- A submission that was left out gets a report or loses it, with the status that goes with that. -/
lemma Scheduled.settle {index : ℕ} (h : p.Scheduled env (some index))
    (hdone : p.worker = .idle ∨ p.worker = .cancelled) (status : WorkPackageStatus)
    (report : Option WorkReport) {q : RefinePipeline Signature}
    (hpackages : q.packages = p.packages) (hwaiting : q.waiting = p.queued)
    (hpending : q.node.pendingWorkPackages = p.node.pendingWorkPackages)
    (hlength : q.node.items.length = p.node.items.length)
    (hstatuses : q.statuses = p.statuses.set index status) (hstatus : status ≠ .reporting)
    (hreports : ∀ j, q.report? j = if j = index then report else p.report? j)
    (hreported : (∃ slot headerHash core reportHash,
      status = .reported slot headerHash core reportHash) ↔ report.isSome)
    (hcomputing : ∀ job, q.worker ≠ .computing job)
    (hpublishing : ∀ job r, q.worker = .publishing job r →
      job.index = index ∧ p.packages[index]? = some job.package ∧ report = some r)
    (hsigning : ∀ job r hash others, q.worker ≠ .signing job r hash others) :
    q.Scheduled env none := by
  obtain ⟨hfresh, hlt⟩ := h.skipped index rfl
  have hgone := waiting_of_done hdone
  have hself : q.statuses[index]? = some status := by
    rw [hstatuses, List.getElem?_set_self (by rw [h.statuses_length]; exact hlt)]
  have hother : ∀ j, j ≠ index → q.statuses[j]? = p.statuses[j]? := by
    intro j hj
    rw [hstatuses, List.getElem?_set_ne (fun heq => hj heq.symm)]
  refine ⟨?_, ?_, ?_, ?_, ?_, fun j hj => (by cases hj), ?_, ?_, ?_,
    fun hjob => absurd hjob (hsigning _ _ _ _)⟩
  · rw [hlength, hpackages, h.items_length]
  · rw [hstatuses, List.length_set, hpackages, h.statuses_length]
  · rw [hwaiting, ← hgone]
    exact h.nodup
  · intro j _
    by_cases hj : j = index
    · rw [hj, hself, hwaiting, ← hgone]
      exact iff_of_false (fun heq => hstatus (Option.some.inj heq)) hfresh
    · rw [hother j hj, hwaiting, ← hgone]
      exact h.reporting j (fun heq => hj (Option.some.inj heq).symm)
  · intro j _
    by_cases hj : j = index
    · rw [hj, hself, hreports index, if_pos rfl, ← hreported]
      simp only [Option.some.injEq]
    · rw [hother j hj, hreports j, if_neg hj]
      exact h.reported j (fun heq => hj (Option.some.inj heq).symm)
  · intro hash j hj
    rw [hpending] at hj
    rw [hpackages]
    exact h.pending hj
  · intro job hjob
    exact absurd hjob (hcomputing job)
  · intro job r hjob
    obtain ⟨hindex, hpackage, hreport⟩ := hpublishing job r hjob
    rw [hindex, hpackages, hreports index, if_pos rfl]
    exact ⟨hpackage, hreport⟩

/-- The report of a submission after a change to one of them. -/
lemma bind_workReport_changeItem (n : Extrinsics.Node WorkReport Octets32 Signature) (index : ℕ)
    (change : Extrinsics.WorkPackageQueueItem WorkReport Signature →
      Extrinsics.WorkPackageQueueItem WorkReport Signature) (j : ℕ) :
    (((n.changeItem index change).items[j]?).bind Extrinsics.WorkPackageQueueItem.workReport) =
      if j = index then (n.items[j]?).bind (fun item => (change item).workReport)
      else (n.items[j]?).bind Extrinsics.WorkPackageQueueItem.workReport := by
  rw [Extrinsics.Node.changeItem, List.getElem?_modify]
  by_cases hj : j = index
  · rw [if_pos hj]
    cases n.items[j]? with
    | none => rfl
    | some item => simp [hj]
  · rw [if_neg hj]
    cases n.items[j]? with
    | none => rfl
    | some item => simp [Ne.symm hj]

lemma report?_retry (env : Environment Signature) (p : RefinePipeline Signature) (index j : ℕ) :
    (p.retry env index).report? j = if j = index then none else p.report? j := by
  have h := bind_workReport_changeItem p.node index (fun _ => ⟨none, []⟩) j
  rw [report?, report?]
  refine h.trans ?_
  split
  · cases p.node.items[j]? <;> rfl
  · rfl

lemma length_items_retry (env : Environment Signature) (p : RefinePipeline Signature) (index : ℕ) :
    (p.retry env index).node.items.length = p.node.items.length :=
  List.length_modify ..

lemma reject_statuses (index : ℕ) (reason : ReportError) :
    (p.reject env index reason).statuses = p.statuses.set index (.failed reason) := by
  rw [reject, setStatus, retry, setStatus, List.set_set]

lemma Scheduled.retry {index : ℕ} (h : p.Scheduled env (some index))
    (hdone : p.worker = .idle ∨ p.worker = .cancelled) :
    (p.retry env index).Scheduled env none := by
  refine h.settle hdone (.reportable 4) none rfl
    (waiting_of_done (p := p.retry env index) hdone) rfl (length_items_retry env p index) rfl (by simp)
    (report?_retry env p index) (by simp) ?_ ?_ ?_
  · intro job hjob
    rcases hdone with hdone | hdone <;> cases hdone.symm.trans hjob
  · intro job r hjob
    rcases hdone with hdone | hdone <;> cases hdone.symm.trans hjob
  · intro job r hash others hjob
    rcases hdone with hdone | hdone <;> cases hdone.symm.trans hjob

lemma Scheduled.reject {index : ℕ} (h : p.Scheduled env (some index))
    (hdone : p.worker = .idle ∨ p.worker = .cancelled) (reason : ReportError) :
    (p.reject env index reason).Scheduled env none := by
  refine h.settle hdone (.failed reason) none rfl
    (waiting_of_done (p := p.reject env index reason) hdone) rfl
    (length_items_retry env p index) (reject_statuses index reason) (by simp)
    (report?_retry env p index) (by simp) ?_ ?_ ?_
  · intro job hjob
    rcases hdone with hdone | hdone <;> cases hdone.symm.trans hjob
  · intro job r hjob
    rcases hdone with hdone | hdone <;> cases hdone.symm.trans hjob
  · intro job r hash others hjob
    rcases hdone with hdone | hdone <;> cases hdone.symm.trans hjob

lemma Scheduled.handle {index : ℕ} (h : p.Scheduled env (some index))
    (hdone : p.worker = .idle ∨ p.worker = .cancelled) (e : RefineError) :
    (p.handle env index e).Scheduled env none := by
  cases e with
  | dataUnavailable message => exact h.retry hdone
  | report reason => exact h.reject hdone reason

/-! ### Steps that leave the submissions alone -/

lemma Scheduled.congr {skip : Option ℕ} (h : p.Scheduled env skip) {q : RefinePipeline Signature}
    (hpackages : q.packages = p.packages) (hstatuses : q.statuses = p.statuses)
    (hqueue : q.queued = p.queued) (hworker : q.worker = p.worker)
    (hpending : q.node.pendingWorkPackages = p.node.pendingWorkPackages)
    (hlength : q.node.items.length = p.node.items.length)
    (hreports : ∀ j, q.report? j = p.report? j) : q.Scheduled env skip := by
  have hwaiting : q.waiting = p.waiting := by rw [waiting, waiting, hworker, hqueue]
  refine ⟨?_, ?_, ?_, ?_, ?_, ?_, ?_, ?_, ?_, ?_⟩
  · rw [hlength, hpackages, h.items_length]
  · rw [hstatuses, hpackages, h.statuses_length]
  · rw [hwaiting]
    exact h.nodup
  · rw [hstatuses, hwaiting]
    exact h.reporting
  · intro j hj
    rw [hstatuses, hreports]
    exact h.reported j hj
  · rw [hwaiting, hpackages]
    exact h.skipped
  · intro hash index hindex
    rw [hpending] at hindex
    rw [hpackages]
    exact h.pending hindex
  · intro job hjob
    rw [hworker] at hjob
    rw [hpackages]
    exact h.computing hjob
  · intro job report hjob
    rw [hworker] at hjob
    rw [hpackages, hreports]
    exact h.publishing hjob
  · intro job report hash others hjob
    rw [hworker] at hjob
    rw [hpackages, hreports]
    exact h.signing hjob

lemma Scheduled.changeView {skip : Option ℕ} (h : p.Scheduled env skip) (view : NodeView) :
    ({ p with view := view } : RefinePipeline Signature).Scheduled env skip :=
  h.congr rfl rfl rfl rfl rfl rfl (fun _ => rfl)

lemma Scheduled.collect {skip : Option ℕ} (h : p.Scheduled env skip)
    {action : Extrinsics.Action WorkReport Octets32 Signature}
    (haction : isPipelineStep action = false) :
    ({ p with node := p.node.act env.collector action } : RefinePipeline Signature).Scheduled env
      skip := by
  obtain ⟨hitems, hpending⟩ := act_items env.collector p.node haction
  exact h.congr rfl rfl rfl rfl hpending (congrArg List.length hitems) (report?_eq hitems)

/-- The credentials of a submission after a change to one of them. -/
lemma credentials_changeItem (n : Extrinsics.Node WorkReport Octets32 Signature) (index : ℕ)
    (change : Extrinsics.WorkPackageQueueItem WorkReport Signature →
      Extrinsics.WorkPackageQueueItem WorkReport Signature) (j : ℕ) :
    (n.changeItem index change).credentials (.item j) =
      if j = index then (n.items[j]?).elim [] (fun item => (change item).signatures)
      else n.credentials (.item j) := by
  rw [Extrinsics.Node.credentials, Extrinsics.Node.changeItem, List.getElem?_modify]
  by_cases hj : j = index
  · rw [if_pos hj]
    cases n.items[j]? with
    | none => rfl
    | some item => simp [hj]
  · rw [if_neg hj, Extrinsics.Node.credentials]
    cases n.items[j]? with
    | none => rfl
    | some item => simp [Ne.symm hj]

/-- A credential changes no report. -/
lemma act_addSignature (n : Extrinsics.Node WorkReport Octets32 Signature)
    (collector : Extrinsics.Environment WorkReport Octets32 Signature) (hash : Octets32)
    (credential : Assurances.Credential Signature) :
    (n.act collector (.addSignature hash credential)).pendingWorkPackages = n.pendingWorkPackages ∧
      (n.act collector (.addSignature hash credential)).items.length = n.items.length ∧
      (n.act collector (.addSignature hash credential)).guarenteesQueue = n.guarenteesQueue ∧
      (n.act collector (.addSignature hash credential)).waiting = n.waiting ∧
      ∀ j : ℕ, (((n.act collector (.addSignature hash credential)).items[j]?).bind
        Extrinsics.WorkPackageQueueItem.workReport) =
          (n.items[j]?).bind Extrinsics.WorkPackageQueueItem.workReport := by
  rw [Extrinsics.Node.act]
  split
  · next index _ =>
    refine ⟨rfl, List.length_modify .., rfl, rfl, fun j => ?_⟩
    refine (bind_workReport_changeItem _ index _ j).trans ?_
    split <;> rfl
  · exact ⟨rfl, rfl, rfl, rfl, fun _ => rfl⟩

/-- A credential goes to the submission that its package has now. -/
lemma credentials_addSignature (n : Extrinsics.Node WorkReport Octets32 Signature)
    (collector : Extrinsics.Environment WorkReport Octets32 Signature) {hash : Octets32}
    {credential c : Assurances.Credential Signature} {j : ℕ}
    (h : c ∈ (n.act collector (.addSignature hash credential)).credentials (.item j)) :
    c ∈ n.credentials (.item j) ∨ c = credential ∧ n.pendingWorkPackages.get? hash = some j := by
  rw [Extrinsics.Node.act] at h
  split at h
  · next index hindex =>
    rw [credentials_changeItem] at h
    split at h
    · next hj =>
      rw [Extrinsics.Node.credentials]
      cases hitem : n.items[j]? with
      | none =>
        rw [hitem] at h
        cases h
      | some item =>
        rw [hitem] at h
        rcases List.mem_append.mp h with h | h
        · exact .inl h
        · exact .inr ⟨List.mem_singleton.mp h, hj ▸ hindex⟩
    · exact .inl h
  · exact .inl h

/-- The worker signs: it adds some credentials to the submission that the package has now, and is done
or waits with the others. -/
structure Signing (p : RefinePipeline Signature) (job : Job) (report : WorkReport) (hash : Octets32)
    (credentials : List (Assurances.Credential Signature)) (q : RefinePipeline Signature) : Prop where
  packages : q.packages = p.packages
  statuses : q.statuses = p.statuses
  d3lStore : q.d3lStore = p.d3lStore
  extrinsics : q.extrinsics = p.extrinsics ∨ q.extrinsics = p.extrinsics.clear hash
  queued : q.queued = p.queued
  pending : q.node.pendingWorkPackages = p.node.pendingWorkPackages
  length_items : q.node.items.length = p.node.items.length
  guarantees : q.node.guarenteesQueue = p.node.guarenteesQueue
  waiting : q.node.waiting = p.node.waiting
  reports : ∀ index, q.report? index = p.report? index
  added : ∀ {index c}, c ∈ q.node.credentials (.item index) →
    c ∈ p.node.credentials (.item index) ∨
      c ∈ credentials ∧ p.node.pendingWorkPackages.get? hash = some index
  worker : q.worker = .idle ∨ ∃ others, q.worker = .signing job report hash others ∧
    ∀ c ∈ others.getD [], c ∈ credentials

section Signing

variable {job : Job} {report : WorkReport} {hash : Octets32}
  {credential : Assurances.Credential Signature}
  {credentials : List (Assurances.Credential Signature)}

/-- The worker waits with a credential. -/
lemma signing_append (others : Option (List (Assurances.Credential Signature)))
    (hothers : ∀ c ∈ others.getD [], c ∈ credentials) :
    p.Signing job report hash (credential :: credentials)
      { p.appendSignature env hash credential with worker := .signing job report hash others } := by
  obtain ⟨hpending, hlength, hguarantees, hwaiting, hreports⟩ :=
    act_addSignature p.node env.collector hash credential
  refine ⟨rfl, rfl, rfl, .inl rfl, rfl, hpending, hlength, hguarantees, hwaiting, hreports,
    fun hc => ?_, .inr ⟨others, rfl, fun c hc => List.mem_cons_of_mem _ (hothers c hc)⟩⟩
  rcases credentials_addSignature p.node env.collector hc with hc | ⟨rfl, hindex⟩
  · exact .inl hc
  · exact .inr ⟨List.mem_cons_self .., hindex⟩

/-- The worker adds a credential and goes on. -/
lemma Signing.cons {q : RefinePipeline Signature}
    (h : ((p.appendSignature env hash credential).putGuarantee hash).Signing job report hash
      credentials q) : p.Signing job report hash (credential :: credentials) q := by
  obtain ⟨hpending, hlength, hguarantees, hwaiting, hreports⟩ :=
    act_addSignature p.node env.collector hash credential
  refine ⟨h.packages, h.statuses, h.d3lStore, h.extrinsics, h.queued, h.pending.trans hpending,
    h.length_items.trans hlength, h.guarantees.trans hguarantees, h.waiting.trans hwaiting,
    fun index => (h.reports index).trans (hreports index), fun hc => ?_, ?_⟩
  · rcases h.added hc with hc | ⟨hmem, hindex⟩
    · rcases credentials_addSignature p.node env.collector hc with hc | ⟨rfl, hindex⟩
      · exact .inl hc
      · exact .inr ⟨List.mem_cons_self .., hindex⟩
    · exact .inr ⟨List.mem_cons_of_mem _ hmem, hpending ▸ hindex⟩
  · exact h.worker.imp_right (fun ⟨others, hworker, hmem⟩ =>
      ⟨others, hworker, fun c hc => List.mem_cons_of_mem _ (hmem c hc)⟩)

/-- The package goes into the guarantee queue first. -/
lemma Signing.put {q : RefinePipeline Signature}
    (h : (p.putGuarantee hash).Signing job report hash credentials q) :
    p.Signing job report hash credentials q :=
  ⟨h.packages, h.statuses, h.d3lStore, h.extrinsics, h.queued, h.pending, h.length_items, h.guarantees,
    h.waiting, h.reports, h.added, h.worker⟩

lemma signing_addSignatures (credentials : List (Assurances.Credential Signature)) :
    p.Signing job report hash credentials (p.addSignatures env job report hash credentials) := by
  induction credentials generalizing p with
  | nil =>
    exact ⟨rfl, rfl, rfl, .inr rfl, rfl, rfl, rfl, rfl, rfl, fun _ => rfl, .inl, .inl rfl⟩
  | cons credential rest ih =>
    rw [addSignatures]
    split
    · exact ih.cons
    · exact signing_append (some rest) (fun c hc => hc)

lemma signing_sign (p : RefinePipeline Signature) (credential : Assurances.Credential Signature) :
    p.Signing job report hash (credential :: p.otherCredentials env job.core report)
      (p.sign env job report hash credential) := by
  unfold sign
  dsimp only
  split
  · exact (signing_addSignatures _).cons
  · exact signing_append none (fun c hc => absurd hc List.not_mem_nil)

end Signing

/-! ### Steps of the pipeline -/

/-- The items of a list that has got one more. -/
lemma getElem?_concat {α : Type} (xs : List α) (x : α) (index : ℕ) :
    (xs ++ [x])[index]? = if index = xs.length then some x else xs[index]? := by
  rcases lt_trichotomy index xs.length with hlt | heq | hgt
  · rw [List.getElem?_append_left hlt, if_neg hlt.ne]
  · rw [heq, List.getElem?_concat_length, if_pos rfl]
  · rw [List.getElem?_eq_none (by rw [List.length_append, List.length_singleton]; omega),
      if_neg hgt.ne', List.getElem?_eq_none hgt.le]

/-- A submission comes without a report. -/
lemma report?_append {q : RefinePipeline Signature}
    (hitems : q.node.items = p.node.items ++ [⟨none, []⟩]) (index : ℕ) :
    q.report? index = p.report? index := by
  rw [report?, report?, hitems, getElem?_concat]
  split
  · next heq =>
    rw [heq, List.getElem?_eq_none le_rfl]
    rfl
  · rfl

/-- A submission that is added. -/
lemma Scheduled.append (h : p.Scheduled env none) {q : RefinePipeline Signature}
    {package : WorkPackage} {hash : Octets32} {remaining : ℕ}
    (hhash : packageHash env package = some hash)
    (hpackages : q.packages = p.packages ++ [package])
    (hstatuses : q.statuses = p.statuses ++ [.reportable remaining])
    (hitems : q.node.items = p.node.items ++ [⟨none, []⟩])
    (hpending : q.node.pendingWorkPackages =
      p.node.pendingWorkPackages.insert hash p.node.items.length)
    (hqueue : q.queued = p.queued) (hworker : q.worker = p.worker) :
    q.Scheduled env none := by
  have hwaiting : q.waiting = p.waiting := by rw [waiting, waiting, hworker, hqueue]
  have hold : ∀ {index : ℕ} {x : WorkPackage}, p.packages[index]? = some x →
      q.packages[index]? = some x := by
    intro index x hx
    rw [hpackages, List.getElem?_append_left (List.getElem?_eq_some_iff.mp hx).1, hx]
  have hreport : ∀ index, q.report? index = p.report? index := report?_append hitems
  have hstatus : ∀ index, q.statuses[index]? =
      if index = p.packages.length then some (.reportable remaining) else p.statuses[index]? := by
    intro index
    rw [hstatuses, getElem?_concat, h.statuses_length]
  refine ⟨?_, ?_, ?_, ?_, ?_, fun _ hskip => (by cases hskip), ?_, ?_, ?_, ?_⟩
  · rw [hitems, hpackages, List.length_append, List.length_append, h.items_length,
      List.length_singleton, List.length_singleton]
  · rw [hstatuses, hpackages, List.length_append, List.length_append, h.statuses_length,
      List.length_singleton, List.length_singleton]
  · rw [hwaiting]
    exact h.nodup
  · intro index _
    rw [hstatus, hwaiting]
    split
    · next heq =>
      refine iff_of_false (by simp) (fun hmem => ?_)
      have := h.lt_length hmem (by simp)
      omega
    · exact h.reporting index (by simp)
  · intro index _
    rw [hstatus, hreport]
    split
    · next heq =>
      have hfresh : p.report? index = none := by
        rw [report?, heq, ← h.items_length, List.getElem?_eq_none le_rfl]
        rfl
      rw [hfresh]
      simp
    · exact h.reported index (by simp)
  · intro other index hindex
    rw [hpending] at hindex
    by_cases heq : other = hash
    · rw [heq, Dict.get?_insert_self] at hindex
      refine ⟨package, ?_, heq ▸ hhash⟩
      rw [← Option.some.inj hindex, h.items_length, hpackages]
      exact List.getElem?_concat_length
    · rw [Dict.get?_insert_of_ne _ heq] at hindex
      obtain ⟨x, hx, hhash'⟩ := h.pending hindex
      exact ⟨x, hold hx, hhash'⟩
  · intro job hjob
    rw [hworker] at hjob
    exact hold (h.computing hjob)
  · intro job report hjob
    rw [hworker] at hjob
    obtain ⟨hx, hr⟩ := h.publishing hjob
    exact ⟨hold hx, (hreport _).trans hr⟩
  · intro job report other others hjob
    rw [hworker] at hjob
    obtain ⟨hhash', hx, hr⟩ := h.signing hjob
    exact ⟨hhash', hold hx, (hreport _).trans hr⟩

lemma Scheduled.addWorkPackage (h : p.Scheduled env none) (package : WorkPackage)
    (extrinsics : List Octets) : (p.addWorkPackage env package extrinsics).Scheduled env none := by
  rw [RefinePipeline.addWorkPackage]
  cases hhash : packageHash env package with
  | none => exact h
  | some hash =>
    obtain ⟨hitems, hpending⟩ := act_addWorkPackage env.collector p.node hash
    rw [Option.elim_some]
    exact h.append hhash rfl rfl hitems hpending rfl rfl

/-- A submission that is put into the queue. -/
lemma Scheduled.enqueue (h : p.Scheduled env none) {q : RefinePipeline Signature}
    {index remaining : ℕ} (hstatus : p.statuses[index]? = some (.reportable remaining))
    (hpackages : q.packages = p.packages)
    (hstatuses : q.statuses = p.statuses.set index .reporting) (hnode : q.node = p.node)
    (hqueue : q.queued = p.queued ++ [index]) (hworker : q.worker = p.worker) :
    q.Scheduled env none := by
  have hwaiting : q.waiting = p.waiting ++ [index] := by
    rw [waiting, waiting, hworker, hqueue]
    cases p.worker <;> rfl
  have hfresh : index ∉ p.waiting := by
    intro hmem
    have hreporting := (h.reporting index (by simp)).mpr hmem
    rw [hstatus] at hreporting
    cases hreporting
  have hlt : index < p.statuses.length := (List.getElem?_eq_some_iff.mp hstatus).1
  have hreport : ∀ j, q.report? j = p.report? j := report?_eq (congrArg _ hnode)
  have hnone : p.report? index = none := by
    cases hr : p.report? index with
    | none => rfl
    | some report =>
      obtain ⟨_, _, _, _, hreported⟩ := (h.reported index (by simp)).mpr (by rw [hr]; rfl)
      rw [hstatus] at hreported
      cases hreported
  have hset : ∀ j, q.statuses[j]? =
      if j = index then some .reporting else p.statuses[j]? := by
    intro j
    rw [hstatuses, List.getElem?_set]
    by_cases hj : j = index
    · rw [if_pos hj.symm, if_pos hlt, if_pos hj]
    · rw [if_neg (fun heq => hj heq.symm), if_neg hj]
  refine ⟨?_, ?_, ?_, ?_, ?_, fun _ hskip => (by cases hskip), ?_, ?_, ?_, ?_⟩
  · rw [hnode, hpackages, h.items_length]
  · rw [hstatuses, List.length_set, hpackages, h.statuses_length]
  · rw [hwaiting, List.nodup_append]
    refine ⟨h.nodup, List.nodup_singleton _, ?_⟩
    rintro a ha b hb rfl
    exact hfresh (List.mem_singleton.mp hb ▸ ha)
  · intro j _
    rw [hset, hwaiting, List.mem_append, List.mem_singleton]
    split
    · next heq => exact iff_of_true rfl (.inr heq)
    · next hne =>
      rw [h.reporting j (by simp)]
      exact ⟨.inl, fun hor => hor.resolve_right hne⟩
  · intro j _
    rw [hset, hreport]
    split
    · next heq =>
      rw [heq, hnone]
      simp
    · exact h.reported j (by simp)
  · rw [hnode, hpackages]
    exact h.pending
  · rw [hworker, hpackages]
    exact h.computing
  · intro job report hjob
    rw [hworker] at hjob
    rw [hpackages, hreport]
    exact h.publishing hjob
  · intro job report hash others hjob
    rw [hworker] at hjob
    rw [hpackages, hreport]
    exact h.signing hjob

lemma queued_of_idle (h : p.timeslotWorker = .idle) : p.queued = p.refineQueue := by
  rw [queued, putting, h, List.append_nil]

lemma Scheduled.enqueueAuthorized (size : ℕ) (indices : List ℕ) (h : p.Scheduled env none)
    (hidle : p.timeslotWorker = .idle) :
    (p.enqueueAuthorized env size indices).Scheduled env none := by
  have hqueued := queued_of_idle hidle
  induction indices generalizing p with
  | nil => exact h
  | cons index rest ih =>
    rw [RefinePipeline.enqueueAuthorized]
    split
    · next hstatus _ =>
      split
      · exact h
      · exact ih h hidle hqueued
      · split
        · refine ih (h.enqueue hstatus rfl rfl rfl ?_ rfl) hidle (queued_of_idle hidle)
          change p.refineQueue ++ [index] ++ p.putting = p.queued ++ [index]
          rw [putting, hidle, hqueued, List.append_nil]
        · refine h.enqueue hstatus rfl rfl rfl ?_ rfl
          rw [hqueued]
          rfl
    · exact ih h hidle hqueued

lemma Scheduled.notifyTimeslot (h : p.Scheduled env none) (timeslot : ℕ) :
    (p.notifyTimeslot env timeslot).Scheduled env none := by
  unfold RefinePipeline.notifyTimeslot
  split
  · exact h.congr rfl rfl rfl rfl rfl rfl (fun _ => rfl)
  · exact h

lemma Scheduled.takeTimeslot (h : p.Scheduled env none) :
    (p.takeTimeslot env).Scheduled env none := by
  unfold RefinePipeline.takeTimeslot
  split
  · next rest hidle _ =>
    have htaken : ({ p with timeslotQueue := rest } : RefinePipeline Signature).Scheduled env none :=
      h.congr rfl rfl rfl rfl rfl rfl (fun _ => rfl)
    dsimp only
    split
    · exact htaken
    · exact htaken.enqueueAuthorized _ _ hidle
  · exact h

/-- The submission goes from the timeslot worker into the queue. -/
lemma Scheduled.endPut (h : p.Scheduled env none) : (p.endPut env).Scheduled env none := by
  unfold RefinePipeline.endPut
  split
  · exact h
  · next index size left hputting =>
    split
    · have hput : ({ p with timeslotWorker := .idle, refineQueue := p.refineQueue ++ [index] } :
          RefinePipeline Signature).Scheduled env none := by
        refine h.congr rfl rfl ?_ rfl rfl rfl (fun _ => rfl)
        rw [queued_of_idle rfl, queued, putting, hputting]
      dsimp only
      split
      · exact hput.enqueueAuthorized _ _ rfl
      · exact hput
    · exact h

/-! ### Steps of the worker -/

/-- A submission that comes out of the queue or of the worker. -/
lemma Scheduled.leave {index : ℕ} (h : p.Scheduled env none) {q : RefinePipeline Signature}
    (hpackages : q.packages = p.packages) (hstatuses : q.statuses = p.statuses)
    (hnode : q.node = p.node) (hworker : q.worker = .idle ∨ q.worker = .cancelled)
    (hwaiting : p.waiting = index :: q.waiting) : q.Scheduled env (some index) := by
  have hnodup := h.nodup
  rw [hwaiting, List.nodup_cons] at hnodup
  refine ⟨?_, ?_, hnodup.2, ?_, ?_, ?_, ?_, ?_, ?_, ?_⟩
  · rw [hnode, hpackages, h.items_length]
  · rw [hstatuses, hpackages, h.statuses_length]
  · intro j hj
    rw [hstatuses, h.reporting j (by simp), hwaiting, List.mem_cons]
    exact ⟨fun hor => hor.resolve_left (fun heq => hj (congrArg some heq.symm)), .inr⟩
  · intro j _
    rw [hstatuses, report?_eq (congrArg _ hnode)]
    exact h.reported j (by simp)
  · intro j hj
    obtain rfl := Option.some.inj hj
    rw [hpackages]
    exact ⟨hnodup.1, h.lt_length (by rw [hwaiting]; exact List.mem_cons_self ..) (by simp)⟩
  · rw [hnode, hpackages]
    exact h.pending
  · intro job hjob
    rcases hworker with hworker | hworker <;> cases hworker.symm.trans hjob
  · intro job report hjob
    rcases hworker with hworker | hworker <;> cases hworker.symm.trans hjob
  · intro job report hash others hjob
    rcases hworker with hworker | hworker <;> cases hworker.symm.trans hjob

/-- The worker stops, and it did not compute. -/
lemma Scheduled.finish (h : p.Scheduled env none) {worker : RefineWorker Signature}
    (hworker : worker = .idle ∨ worker = .cancelled) (hbusy : ∀ job, p.worker ≠ .computing job) :
    ({ p with worker := worker } : RefinePipeline Signature).Scheduled env none := by
  have hwaiting : ({ p with worker := worker } : RefinePipeline Signature).waiting = p.waiting := by
    rw [waiting_of_done (p := { p with worker := worker }) hworker, waiting]
    cases hp : p.worker with
    | computing job => exact absurd hp (hbusy job)
    | _ => rfl
  refine ⟨h.items_length, h.statuses_length, ?_, ?_, h.reported, fun j hj => (by cases hj),
    h.pending, ?_, ?_, ?_⟩
  · rw [hwaiting]
    exact h.nodup
  · rw [hwaiting]
    exact h.reporting
  · intro job hjob
    rcases hworker with hworker | hworker <;> cases hworker.symm.trans hjob
  · intro job report hjob
    rcases hworker with hworker | hworker <;> cases hworker.symm.trans hjob
  · intro job report hash others hjob
    rcases hworker with hworker | hworker <;> cases hworker.symm.trans hjob

/-- A submission that does not wait may be left out. -/
lemma Scheduled.except {index : ℕ} (h : p.Scheduled env none) (hfresh : index ∉ p.waiting)
    (hlt : index < p.packages.length) : p.Scheduled env (some index) where
  items_length := h.items_length
  statuses_length := h.statuses_length
  nodup := h.nodup
  reporting j _ := h.reporting j (by simp)
  reported j _ := h.reported j (by simp)
  skipped j hj := by
    obtain rfl := Option.some.inj hj
    exact ⟨hfresh, hlt⟩
  pending := h.pending
  computing := h.computing
  publishing := h.publishing
  signing := h.signing

/-- A submission with a report does not wait. -/
lemma Scheduled.not_mem_waiting {index : ℕ} {report : WorkReport} (h : p.Scheduled env none)
    (hreport : p.report? index = some report) : index ∉ p.waiting := by
  intro hmem
  obtain ⟨_, _, _, _, hreported⟩ := (h.reported index (by simp)).mpr (by rw [hreport]; rfl)
  rw [(h.reporting index (by simp)).mpr hmem] at hreported
  cases hreported

/-- The submission whose report is published or signed may be left out when the worker stops. -/
lemma Scheduled.published {job : Job} {report : WorkReport} (h : p.Scheduled env none)
    (hpackage : p.packages[job.index]? = some job.package)
    (hreport : p.report? job.index = some report) (hbusy : ∀ job, p.worker ≠ .computing job)
    {worker : RefineWorker Signature} (hworker : worker = .idle ∨ worker = .cancelled) :
    ({ p with worker := worker } : RefinePipeline Signature).Scheduled env (some job.index) :=
  (h.finish hworker hbusy).except ((h.finish hworker hbusy).not_mem_waiting hreport)
    (List.getElem?_eq_some_iff.mp hpackage).1

/-- The worker signs the report of the submission. -/
lemma Scheduled.sign (h : p.Scheduled env none) {job : Job} {report : WorkReport} {hash : Octets32}
    {credentials : List (Assurances.Credential Signature)} {q : RefinePipeline Signature}
    (hsigning : p.Signing job report hash credentials q)
    (hhash : packageHash env job.package = some hash)
    (hpackage : p.packages[job.index]? = some job.package)
    (hreport : p.report? job.index = some report) (hbusy : ∀ job, p.worker ≠ .computing job) :
    q.Scheduled env none := by
  have hqueued : q.waiting = q.queued := by
    rcases hsigning.worker with hworker | ⟨others, hworker, -⟩ <;> rw [waiting, hworker]
  have hwaiting : q.waiting = p.waiting := by
    rw [hqueued, hsigning.queued, waiting]
    cases hp : p.worker with
    | computing job => exact absurd hp (hbusy job)
    | _ => rfl
  refine ⟨?_, ?_, ?_, ?_, ?_, fun j hj => (by cases hj), ?_, ?_, ?_, ?_⟩
  · rw [hsigning.length_items, hsigning.packages, h.items_length]
  · rw [hsigning.statuses, hsigning.packages, h.statuses_length]
  · rw [hwaiting]
    exact h.nodup
  · rw [hwaiting, hsigning.statuses]
    exact h.reporting
  · intro index
    rw [hsigning.statuses, hsigning.reports]
    exact h.reported index
  · rw [hsigning.pending, hsigning.packages]
    exact h.pending
  · intro other hother
    rcases hsigning.worker with hworker | ⟨others, hworker, -⟩ <;> cases hworker.symm.trans hother
  · intro other r hother
    rcases hsigning.worker with hworker | ⟨others, hworker, -⟩ <;> cases hworker.symm.trans hother
  · intro other r otherHash others' hother
    rcases hsigning.worker with hworker | ⟨others, hworker, -⟩
    · cases hworker.symm.trans hother
    · cases hworker.symm.trans hother
      rw [hsigning.packages, hsigning.reports]
      exact ⟨hhash, hpackage, hreport⟩

/-- What a job holds of the pipeline that it was captured from. -/
structure Captured (env : Environment Signature) (p : RefinePipeline Signature) (job : Job) :
    Prop where
  valid : validateWorkPackage env.config job.package = .ok ()
  core : p.view.coreAssignment env = some job.core
  head : p.view.retrieveBlockHash p.view.timeslot = some job.headHash
  committed : p.view.isCommitted job.headHash = true
  headRoot : job.headRoot = p.view.stateRoot
  slot : job.slot = p.view.timeslot
  validatorKeys : job.validatorKeys = p.view.validatorKeys
  services : job.services = p.view.services
  mappings : segmentRootLookup p.known p.d3lStore job.package = .ok job.mappings
  data : ∃ hash, packageHash env job.package = some hash ∧
    bundleData env.primitives env.d3lCodec p.d3lStore p.extrinsics hash job.package job.mappings =
      .ok job.data

lemma capture_eq_some {index : ℕ} {package : WorkPackage} {job : Job}
    (h : p.capture env index package = .ok (some job)) :
    job.index = index ∧ job.package = package ∧ p.Captured env job := by
  unfold capture at h
  obtain ⟨_, hvalid, h⟩ := Except.bind_eq_ok.mp h
  split at h
  · next core headHash hcore hhead =>
    split at h
    · cases h
    · next hcommitted =>
      obtain ⟨mappings, hmappings, h⟩ := Except.bind_eq_ok.mp h
      obtain ⟨hash, hhash, h⟩ := Except.bind_eq_ok.mp h
      obtain ⟨data, hdata, h⟩ := Except.bind_eq_ok.mp h
      cases h
      refine ⟨rfl, rfl, ?_, hcore, hhead, not_not.mp hcommitted, rfl, rfl, rfl, rfl, hmappings,
        hash, ?_, hdata⟩
      · cases hvalidate : validateWorkPackage env.config package with
        | error e =>
          rw [hvalidate] at hvalid
          cases hvalid
        | ok _ => rfl
      · cases hpackage : packageHash env package with
        | none =>
          rw [hpackage] at hhash
          cases hhash
        | some found =>
          rw [hpackage] at hhash
          cases hhash
          rfl
  · cases h

lemma Scheduled.takeItem (h : p.Scheduled env none) : (p.takeItem env).Scheduled env none := by
  unfold RefinePipeline.takeItem
  split
  · next index rest hworker hqueue =>
    have hwaiting : p.waiting = index :: (rest ++ p.putting) := by
      rw [waiting_of_done (.inl hworker), queued, hqueue, List.cons_append]
    have hidle : ({ p with refineQueue := rest } : RefinePipeline Signature).waiting =
        rest ++ p.putting := waiting_of_done (.inl hworker)
    have hleft : ({ p with refineQueue := rest } : RefinePipeline Signature).Scheduled env
        (some index) := h.leave rfl rfl rfl (.inl hworker) (hwaiting.trans (congrArg _ hidle.symm))
    dsimp only
    split
    · next hnone =>
      rw [List.getElem?_eq_getElem (hleft.skipped index rfl).2] at hnone
      cases hnone
    · next package hpackage =>
      split
      · exact hleft.handle (.inl hworker) _
      · exact hleft.retry (.inl hworker)
      · next job hjob =>
        obtain ⟨rfl, rfl, -⟩ := capture_eq_some hjob
        have hsame : ({ p with refineQueue := rest, worker := .computing job } :
            RefinePipeline Signature).waiting = p.waiting := hwaiting.symm
        refine ⟨h.items_length, h.statuses_length, ?_, ?_, h.reported, fun j hj => (by cases hj),
          h.pending, ?_, fun hpublish => (by cases hpublish), fun hsign => (by cases hsign)⟩
        · rw [hsame]
          exact h.nodup
        · rw [hsame]
          exact h.reporting
        · intro other hother
          cases hother
          exact hpackage
  · exact h

/-- The worker stops, and it computed. -/
lemma Scheduled.stop {job : Job} (h : p.Scheduled env none) (hjob : p.worker = .computing job)
    {worker : RefineWorker Signature} (hworker : worker = .idle ∨ worker = .cancelled) :
    ({ p with worker := worker } : RefinePipeline Signature).Scheduled env (some job.index) := by
  have hdone : ({ p with worker := worker } : RefinePipeline Signature).waiting = p.queued :=
    waiting_of_done hworker
  refine h.leave rfl rfl rfl hworker ?_
  rw [hdone, waiting, hjob]

/-- A report that is filed is the report of its submission. -/
lemma bind_workReport_report (n : Extrinsics.Node WorkReport Octets32 Signature)
    (collector : Extrinsics.Environment WorkReport Octets32 Signature) {index : ℕ}
    (hlt : index < n.items.length) (report : WorkReport) (j : ℕ) :
    (((n.act collector (.report index report)).items[j]?).bind
      Extrinsics.WorkPackageQueueItem.workReport) =
        if j = index then some report
        else (n.items[j]?).bind Extrinsics.WorkPackageQueueItem.workReport := by
  refine (bind_workReport_changeItem n index _ j).trans ?_
  split
  · next heq =>
    rw [heq, List.getElem?_eq_getElem hlt]
    rfl
  · rfl

lemma Scheduled.endCompute (h : p.Scheduled env none) : (p.endCompute env).Scheduled env none := by
  unfold RefinePipeline.endCompute
  split
  · next job hjob =>
    have hstop : ({ p with worker := .idle } : RefinePipeline Signature).Scheduled env
        (some job.index) := h.stop hjob (.inl rfl)
    have hlt : job.index < p.node.items.length := by
      rw [h.items_length]
      exact (hstop.skipped _ rfl).2
    dsimp only
    split
    · exact hstop.reject (.inl rfl) _
    · next out hout =>
      split
      · exact hstop.retry (.inl rfl)
      · split
        · exact hstop.reject (.inl rfl) _
        · next d3lStore hstore =>
          refine hstop.settle (.inl rfl) (.reported job.slot job.headHash job.core
            (env.collector.report.hash out.report)) (some out.report) rfl rfl rfl
            (List.length_modify ..) rfl (by simp)
            (bind_workReport_report p.node env.collector hlt out.report) ?_
            (fun other hother => (by cases hother)) ?_ ?_
          · exact iff_of_true ⟨_, _, _, _, rfl⟩ rfl
          · intro other report hother
            cases hother
            exact ⟨rfl, h.computing hjob, rfl⟩
          · intro other r hash others hother
            cases hother
  · exact h

lemma Scheduled.endPublish (h : p.Scheduled env none) (raised : Bool) :
    (p.endPublish env raised).Scheduled env none := by
  unfold RefinePipeline.endPublish
  split
  · next job report hworker =>
    have hbusy : ∀ other, p.worker ≠ .computing other :=
      fun other hother => (by cases hworker.symm.trans hother)
    obtain ⟨hpackage, hreport⟩ := h.publishing hworker
    have hleft := h.published hpackage hreport hbusy (.inl rfl)
    split
    · cases hhash : packageHash env job.package with
      | none => exact hleft.reject (.inl rfl) _
      | some hash =>
        exact h.sign (signing_sign p _) hhash hpackage hreport hbusy
    · exact hleft.reject (.inl rfl) _
  · exact h

lemma Scheduled.endSign (h : p.Scheduled env none) : (p.endSign env).Scheduled env none := by
  unfold RefinePipeline.endSign
  split
  · next job report hash others hworker =>
    obtain ⟨hhash, hpackage, hreport⟩ := h.signing hworker
    split
    · exact h.sign (signing_addSignatures _).put hhash hpackage hreport
        (fun other hother => (by cases hworker.symm.trans hother))
    · exact h
  · exact h

lemma Scheduled.cancel (h : p.Scheduled env none) : (p.cancel env).Scheduled env none := by
  unfold RefinePipeline.cancel
  split
  · next job hjob => exact (h.stop hjob (.inr rfl)).retry (.inr rfl)
  · next job report hworker =>
    obtain ⟨hpackage, hreport⟩ := h.publishing hworker
    exact (h.published hpackage hreport (fun other hother => (by cases hworker.symm.trans hother))
      (.inr rfl)).retry (.inr rfl)
  · next job report hash others hworker =>
    obtain ⟨-, hpackage, hreport⟩ := h.signing hworker
    exact (h.published hpackage hreport (fun other hother => (by cases hworker.symm.trans hother))
      (.inr rfl)).retry (.inr rfl)
  · next hcomputing _ _ => exact h.finish (.inr rfl) hcomputing

/-! ### Over a run -/

lemma Scheduled.act (h : p.Scheduled env none) (action : PipelineAction Signature) :
    (p.act env action).Scheduled env none := by
  cases action with
  | changeView view => exact h.changeView view
  | collect action =>
    rw [RefinePipeline.act]
    split
    · exact h
    · next haction => exact h.collect (eq_false_of_ne_true haction)
  | addWorkPackage package extrinsics => exact h.addWorkPackage package extrinsics
  | notifyTimeslot timeslot => exact h.notifyTimeslot timeslot
  | takeTimeslot => exact h.takeTimeslot
  | endPut => exact h.endPut
  | takeItem => exact h.takeItem
  | endCompute => exact h.endCompute
  | endPublish raised => exact h.endPublish raised
  | endSign => exact h.endSign
  | cancel => exact h.cancel

lemma Scheduled.run (h : p.Scheduled env none) (actions : List (PipelineAction Signature)) :
    (p.run env actions).Scheduled env none := by
  induction actions generalizing p with
  | nil => exact h
  | cons action actions ih => exact ih (h.act action)

end RefinePipeline

end Refinement
