import Pyjamaz.Accumulation.Preimages
import Pyjamaz.Assurances.Transition
import Pyjamaz.Safrole.TicketAccumulator

/-!
# Collecting extrinsics

Between two of its blocks a node gathers what its next block will carry.  Tickets wait in a dictionary
under their ids and guarantees in one under the hash of their report, assurances and preimages in
lists.  They are fed by other nodes and by clients, by the loop that assures the reports on the cores,
and by the worker that makes a guarantee of a report once it has two credentials.  That guarantee
shares its list of credentials with the work package it was made for, so a credential that comes
later still gets into a guarantee that waits.
-/

namespace Extrinsics

open Octets Safrole Services
open Assurances (AssuranceStateItem Credential Guarantee ReportFields areAssurancesSorted
  areGuarantorsUnqiueAndSorted areGuarenteesSorted hasDuplicatedGuarentees hasDuplicatedValidators)

/-! ## Data -/

/-- An assurance as the node makes it: a node that is not in the validator pool has no index. -/
structure Assurance (Hash Signature : Type) where
  anchor : Hash
  bitfield : List Bool
  validatorIndex : Option ℕ
  signature : Signature

/-- An item of the preimages extrinsic. -/
structure Preimage where
  requester : ℕ
  blob : Octets
  deriving DecidableEq

/-- `sort_key`; the requester has four bytes. -/
def Preimage.sortKey (p : Preimage) : Octets := (littleEndian 4 p.requester).reverse ++ p.blob

/-- The list object that holds the credentials of a guarantee: one of its own, or that of a work
package. -/
inductive CredentialList (Signature : Type) where
  | own (credentials : List (Credential Signature))
  | item (index : ℕ)

/-- A guarantee that waits for a block. -/
structure QueuedGuarantee (Report Signature : Type) where
  report : Report
  slot : ℕ
  signatures : CredentialList Signature

/-- `WorkPackageQueueItem` -/
structure WorkPackageQueueItem (Report Signature : Type) where
  workReport : Option Report
  signatures : List (Credential Signature)

/-- The collector and the part of the refine pipeline that makes guarantees. -/
structure Node (Report Hash Signature : Type) where
  ticketsQueue : Dict ℕ TicketEnvelope
  ownTicketsNext : List ℕ
  ownTicketsCurrent : List ℕ
  guarenteesQueue : Dict Hash (QueuedGuarantee Report Signature)
  assurancesQueue : List (Assurance Hash Signature)
  preimageQueue : List Preimage
  /-- all work packages that have been added, the replaced ones included -/
  items : List (WorkPackageQueueItem Report Signature)
  /-- the places of the current ones in `items` -/
  pendingWorkPackages : Dict Hash ℕ
  guaranteeQueue : List Hash
  /-- the work package that the worker waits on, for a third credential -/
  waiting : Option ℕ

/-- The constants of the chain, what comes from other packages, and the key of the node. -/
structure Environment (Report Hash Signature : Type) where
  config : Config
  vrf : Safrole.Primitives
  primitives : Services.Primitives
  report : ReportFields Report Hash
  sign : Option ℕ → Hash → List Bool → Signature

/-- What a block is collected for. -/
structure ChainState where
  timeslot : ℕ
  ticketAccumulator : List TicketBody
  services : ServicesState

/-- The extrinsics of a block, each ticket with the id it was queued under. -/
structure Extrinsic (Report Hash Signature : Type) where
  tickets : List (ℕ × TicketEnvelope)
  preimages : List Preimage
  assurances : List (Assurance Hash Signature)
  guarantees : List (Guarantee Report Signature)

variable {Report Hash Signature : Type} [DecidableEq Hash]

/-- A node at its start. -/
def Node.init : Node Report Hash Signature := ⟨∅, [], [], ∅, [], [], [], ∅, [], none⟩

/-! ## Tickets -/

/-- The ids that survive the selection of the accumulator. -/
def winningIds (cfg : Config) (accumulatorIds queuedIds : List ℕ) : List ℕ :=
  (sortedSet (accumulatorIds ++ queuedIds)).take cfg.epochTimeslots

/-- The tickets that are left in the queue when a block is collected. -/
def candidates (cfg : Config) (accumulator : List TicketBody) (queue : Dict ℕ TicketEnvelope) :
    Dict ℕ TicketEnvelope :=
  let accumulatorIds := accumulator.map TicketBody.id
  queue.filterKeys fun id =>
    id ∉ accumulatorIds && id ∈ winningIds cfg accumulatorIds queue.keys

/-- `collect_tickets`: the tickets, and the queue without them. -/
def collectTickets (cfg : Config) (accumulator : List TicketBody) (submissionAllowed : Bool)
    (queue : Dict ℕ TicketEnvelope) : List (ℕ × TicketEnvelope) × Dict ℕ TicketEnvelope :=
  if !submissionAllowed then ([], queue)
  else
    let queue := candidates cfg accumulator queue
    let collected :=
      (queue.entries.insertionSort (fun a b => a.1 ≤ b.1)).take cfg.maximumExtrinsicTickets
    (collected, queue.filterKeys (fun id => id ∉ collected.map Prod.fst))

/-! ## Preimages -/

/-- `is_preimage_needed` -/
def isPreimageNeeded (P : Services.Primitives) (st : ServicesState) (p : Preimage) :
    Except ServiceError Bool := do
  let preimageHash := P.blake2b256Hash p.blob
  let known ← Accumulation.preimageExists st p.requester preimageHash
  if known then return false
  else Accumulation.isNewlyRequested P st p.requester preimageHash p.blob.length

/-- `sorted(preimage_queue, key=sort_key)`; it raises when a requester does not fit four bytes. -/
def sortedPreimages (queue : List Preimage) : Except ServiceError (List Preimage) :=
  if queue.all (fun p => p.requester < 2 ^ 32) then
    .ok (queue.insertionSort (fun p q => p.sortKey ≤ q.sortKey))
  else .error .overflow

/-- The loop over the queue: the preimages that are needed, and the others. -/
def splitNeeded (P : Services.Primitives) (st : ServicesState) :
    List Preimage → Except ServiceError (List Preimage × List Preimage)
  | [] => .ok ([], [])
  | p :: rest => do
    let needed ← isPreimageNeeded P st p
    let (taken, left) ← splitNeeded P st rest
    return if needed then (p :: taken, left) else (taken, p :: left)

/-- `are_preimages_unique` -/
def arePreimagesUnique (preimages : List Preimage) : Bool := decide preimages.Nodup

/-- `are_preimages_sorted` -/
def arePreimagesSorted (preimages : List Preimage) : Bool :=
  decide ((preimages.map Preimage.sortKey).IsChain (· ≤ ·))

/-! ## Assurances -/

section Assurances

variable (env : Environment Report Hash Signature)

/-- `create_assurance` and `create_assurance_for_validator_index` -/
def createAssurance (anchor : Hash) (cores : List ℕ) (validatorIndex : Option ℕ) :
    Assurance Hash Signature :=
  let bitfield := cores.foldl (fun bits core => bits.set core true)
    (List.replicate env.config.coreCount false)
  ⟨anchor, bitfield, validatorIndex, env.sign validatorIndex anchor bitfield⟩

/-- The cores with a report. -/
def engagedCores (assignments : List (Option (AssuranceStateItem Report Signature))) : List ℕ :=
  assignments.zipIdx.filterMap fun slot => slot.1.map (fun _ => slot.2)

/-- The validators that assure a core: in solo mode the node does it for the other ones too. -/
def assurers (validatorIndex : Option ℕ) : List (Option ℕ) :=
  validatorIndex ::
    if env.config.soloMode then
      ((List.range 6).map some).filter (fun index => index ≠ validatorIndex)
    else []

/-- The assurances that `process_assurances` adds. -/
def processAssurances (anchor : Hash) (validatorIndex : Option ℕ)
    (assignments : List (Option (AssuranceStateItem Report Signature))) :
    List (Assurance Hash Signature) :=
  (engagedCores assignments).flatMap fun core =>
    (assurers env validatorIndex).map (createAssurance env anchor [core])

end Assurances

/-! ## Guarantees -/

namespace Node

variable (env : Environment Report Hash Signature) (n : Node Report Hash Signature)

/-- The credentials that a guarantee has now. -/
def credentials : CredentialList Signature → List (Credential Signature)
  | .own credentials => credentials
  | .item index => (n.items[index]?).elim [] WorkPackageQueueItem.signatures

/-- `add_guarantee` -/
def addGuarantee (g : QueuedGuarantee Report Signature) : Node Report Hash Signature :=
  { n with guarenteesQueue := n.guarenteesQueue.insert (env.report.hash g.report) g }

/-- `collect_guarantees` -/
def collectGuarantees : List (Guarantee Report Signature) :=
  n.guarenteesQueue.values.map fun g => ⟨g.report, g.slot, n.credentials g.signatures⟩

/-- The worker makes a guarantee of a work package and adds it.  A report that was withdrawn while it
waited has no hash: it raises. -/
def ingest (index slot : ℕ) : Node Report Hash Signature :=
  match (n.items[index]?).bind WorkPackageQueueItem.workReport with
  | some report => n.addGuarantee env ⟨report, slot, .item index⟩
  | none => n

/-- The worker with a package from its queue: two credentials make it wait, more do not. -/
def takePackage (package : Hash) (slot : ℕ) : Node Report Hash Signature :=
  match n.pendingWorkPackages.get? package with
  | none => n
  | some index =>
    match n.items[index]? with
    | none => n
    | some item =>
      if item.workReport.isNone ∨ item.signatures.length < 2 then n
      else if item.signatures.length = 2 then { n with waiting := some index }
      else n.ingest env index slot

/-- A change to one of the work packages. -/
def changeItem (index : ℕ) (change : WorkPackageQueueItem Report Signature →
    WorkPackageQueueItem Report Signature) : Node Report Hash Signature :=
  { n with items := n.items.modify index change }

end Node

/-! ## A run of the node -/

/-- What happens at a node between two places where its tasks wait. -/
inductive Action (Report Hash Signature : Type) where
  | addTicket (ticket : TicketEnvelope) (ringPublicKeys : List Octets32) (entropy : Octets32)
  /-- `add_own_ticket`, with the id and the proof that the node's key gives -/
  | addOwnTicket (ticketId : ℕ) (signature : Octets) (validatorCount : ℕ)
  | clearTickets
  | processEpochChange
  | addGuarantee (report : Report) (slot : ℕ) (signatures : List (Credential Signature))
  | addAssurance (assurance : Assurance Hash Signature)
  | addPreimage (preimage : Preimage)
  | processAssurances (anchor : Hash) (validatorIndex : Option ℕ)
      (assignments : List (Option (AssuranceStateItem Report Signature)))
  | addWorkPackage (package : Hash)
  /-- the refine worker is done with a work package -/
  | report (index : ℕ) (workReport : Report)
  /-- `_retry` -/
  | retry (index : ℕ)
  | addSignature (package : Hash) (credential : Credential Signature)
  /-- the guarantee worker takes the next package -/
  | takeGuarantee (slot : ℕ)
  /-- the guarantee worker has waited -/
  | endWait (slot : ℕ)
  | produceBlock (chain : ChainState)

namespace Node

variable (env : Environment Report Hash Signature) (n : Node Report Hash Signature)

/-- The part of `produce_block` that collects the extrinsics.  What has been collected before a
preimage raises is lost. -/
def produceBlock (chain : ChainState) :
    Node Report Hash Signature × Except ServiceError (Extrinsic Report Hash Signature) :=
  let (tickets, ticketsQueue) := collectTickets env.config chain.ticketAccumulator
    (slotPhaseIndex env.config chain.timeslot < env.config.ticketSubmissionEndSlot) n.ticketsQueue
  let n := { n with ticketsQueue := ticketsQueue }
  match sortedPreimages n.preimageQueue with
  | .error e => (n, .error e)
  | .ok queue =>
    match splitNeeded env.primitives chain.services queue with
    | .error e => ({ n with preimageQueue := queue }, .error e)
    | .ok (preimages, left) =>
      ({ n with preimageQueue := left, assurancesQueue := [], guarenteesQueue := ∅ },
        .ok ⟨tickets, preimages, n.assurancesQueue, n.collectGuarantees⟩)

/-- One step; what raises changes nothing. -/
def act : Action Report Hash Signature → Node Report Hash Signature
  | .addTicket ticket ringPublicKeys entropy =>
    match createTicketBody env.config env.vrf ringPublicKeys.length ringPublicKeys entropy ticket with
    | .ok body => { n with ticketsQueue := n.ticketsQueue.insert body.id ticket }
    | .error _ => n
  | .addOwnTicket ticketId signature validatorCount =>
    match ticketEntries env.config validatorCount with
    | .ok entries =>
      if entries ≤ n.ownTicketsNext.length then n
      else { n with
        ticketsQueue := n.ticketsQueue.insert ticketId ⟨n.ownTicketsNext.length, signature⟩
        ownTicketsNext := n.ownTicketsNext ++ [ticketId] }
    | .error _ => n
  | .clearTickets => { n with ticketsQueue := ∅, ownTicketsNext := [] }
  | .processEpochChange =>
    { n with ticketsQueue := ∅, ownTicketsNext := [], ownTicketsCurrent := n.ownTicketsNext }
  | .addGuarantee report slot signatures => n.addGuarantee env ⟨report, slot, .own signatures⟩
  | .addAssurance assurance => { n with assurancesQueue := n.assurancesQueue ++ [assurance] }
  | .addPreimage preimage => { n with preimageQueue := n.preimageQueue ++ [preimage] }
  | .processAssurances anchor validatorIndex assignments =>
    { n with assurancesQueue :=
        n.assurancesQueue ++ Extrinsics.processAssurances env anchor validatorIndex assignments }
  | .addWorkPackage package =>
    { n with
      items := n.items ++ [⟨none, []⟩]
      pendingWorkPackages := n.pendingWorkPackages.insert package n.items.length }
  | .report index workReport =>
    n.changeItem index (fun item => { item with workReport := some workReport })
  | .retry index =>
    n.changeItem index (fun _ => ⟨none, []⟩)
  | .addSignature package credential =>
    match n.pendingWorkPackages.get? package with
    | some index =>
      { n with guaranteeQueue := n.guaranteeQueue ++ [package] }.changeItem index
        (fun item => { item with signatures := item.signatures ++ [credential] })
    | none => n
  | .takeGuarantee slot =>
    match n.waiting, n.guaranteeQueue with
    | none, package :: rest => { n with guaranteeQueue := rest }.takePackage env package slot
    | _, _ => n
  | .endWait slot =>
    match n.waiting with
    | some index => { n with waiting := none }.ingest env index slot
    | none => n
  | .produceBlock chain => (n.produceBlock env chain).1

/-- The node after some steps. -/
def run : Node Report Hash Signature → List (Action Report Hash Signature) →
    Node Report Hash Signature
  | n, [] => n
  | n, action :: actions => run (n.act env action) actions

end Node

end Extrinsics
