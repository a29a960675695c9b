import Pyjamaz.Disputes.Verdicts
import Pyjamaz.Pipeline.Reports

/-!
# The reports on the cores

A core holds at most one guaranteed report that is not available yet.  A block changes the cores in
three steps: verdicts clear reports, assurances make reports available and old reports are given up,
and guarantees put new reports on cores.  The extrinsics of the three steps are checked apart from
them.

Of a work report the steps read a few fields; a report is anything with these fields
(`ReportFields`).  The validity of signatures is a parameter, and so are the checks of a guarantee
that read neither cores nor the order of guarantees and credentials.
-/

namespace Assurances

open Disputes (SigningContext ExtrinsicDisputes DisputesState DisputesError assurancesAfterDisputes
  applyDisputes)
open Pipeline (unavailableWorkReplacementPeriod)

/-! ## Data -/

/-- What is read of a work report: its hash, its core, and the number of erasure shards of its
package. -/
structure ReportFields (Report Hash : Type) where
  hash : Report → Hash
  coreIndex : Report → ℕ
  erasureShards : Report → ℕ

/-- An item of the assurances extrinsic: the parent of the block, one bit for each core, and who
assures. -/
structure Assurance (Hash Signature : Type) where
  anchor : Hash
  bitfield : List Bool
  validatorIndex : ℕ
  signature : Signature

structure Credential (Signature : Type) where
  validatorIndex : ℕ
  signature : Signature
  deriving DecidableEq

structure Guarantee (Report Signature : Type) where
  report : Report
  slot : ℕ
  signatures : List (Credential Signature)
  deriving DecidableEq

/-- What the state keeps for a core. -/
structure AssuranceStateItem (Report Signature : Type) where
  guarantee : Guarantee Report Signature
  registeredSlot : ℕ
  deriving DecidableEq

variable {Report Hash Key Signature : Type}

def AssuranceStateItem.report (p : AssuranceStateItem Report Signature) : Report :=
  p.guarantee.report

def AssuranceStateItem.timeout (p : AssuranceStateItem Report Signature) : ℕ := p.registeredSlot

/-- The cores whose bit is set. -/
def Assurance.coresEngaged (a : Assurance Hash Signature) : List ℕ :=
  (List.range a.bitfield.length).filter (fun core => a.bitfield.getD core false)

/-- The exceptions that refuse a block. -/
inductive BlockError where
  | badSlot
  | disputes (error : DisputesError)
  | badAttestationParent
  | badValidatorIndex
  | coreNotEngaged
  | badSignature
  | notSortedOrUniqueAssurers
  | outOfOrderGuarantee
  | badCoreIndex
  | badErasureShards
  | notSortedOrUniqueGuarantors
  | insufficientGuarantees
  | coreEngaged
  | otherCheck
  deriving DecidableEq, Repr

/-! ## The assurances extrinsic -/

def haveValidValidators (assurances : List (Assurance Hash Signature)) (validators : List Key) :
    Bool :=
  assurances.all (fun a => a.validatorIndex < validators.length)

def areAssurancesSorted (assurances : List (Assurance Hash Signature)) : Bool :=
  decide ((assurances.map Assurance.validatorIndex).IsChain (· ≤ ·))

def hasDuplicatedValidators (assurances : List (Assurance Hash Signature)) : Bool :=
  !decide (assurances.map Assurance.validatorIndex).Nodup

/-- The check of one assurance: its anchor, and its signature. -/
def validateAssurance [DecidableEq Hash] (hasValidSignature : Key → Assurance Hash Signature → Bool)
    (validators : List Key) (parent : Hash) (a : Assurance Hash Signature) :
    Except BlockError Unit :=
  if a.anchor ≠ parent then .error .badAttestationParent
  else
    match validators[a.validatorIndex]? with
    | none => .error .badValidatorIndex
    | some key => if hasValidSignature key a then .ok () else .error .badSignature

/-- `validate_after_disputes` -/
def validateAfterDisputes [DecidableEq Hash]
    (hasValidSignature : Key → Assurance Hash Signature → Bool)
    (assurances : List (Assurance Hash Signature)) (validators : List Key) (parent : Hash) :
    Except BlockError Unit :=
  if !haveValidValidators assurances validators then .error .badValidatorIndex
  else if !areAssurancesSorted assurances then .error .notSortedOrUniqueAssurers
  else if hasDuplicatedValidators assurances then .error .notSortedOrUniqueAssurers
  else assurances.forM (validateAssurance hasValidSignature validators parent)

/-- `total_assurances_per_core` -/
def totalAssurances (assurances : List (Assurance Hash Signature)) (core : ℕ) : ℕ :=
  (assurances.flatMap Assurance.coresEngaged).count core

/-- Whether the assurances of a core are enough for a set of `validatorCount` validators. -/
def isAvailable (assurances : List (Assurance Hash Signature)) (validatorCount core : ℕ) : Bool :=
  validatorCount * 2 / 3 + 1 ≤ totalAssurances assurances core

/-- Whether a pending report is given up. -/
def isReplaceable (validatorCount postValidatorCount timeslot : ℕ)
    (p : AssuranceStateItem Report Signature) : Bool :=
  postValidatorCount ≠ validatorCount || p.timeout + unavailableWorkReplacementPeriod ≤ timeslot

/-- The reports that become available, in the order of their cores. -/
def reportedReports (assurances : List (Assurance Hash Signature)) (validatorCount : ℕ)
    (cores : List (Option (AssuranceStateItem Report Signature))) : List Report :=
  cores.zipIdx.filterMap fun slot =>
    if isAvailable assurances validatorCount slot.2 then slot.1.map AssuranceStateItem.report
    else none

/-- What is left on the cores. -/
def keptReports (assurances : List (Assurance Hash Signature))
    (validatorCount postValidatorCount timeslot : ℕ)
    (cores : List (Option (AssuranceStateItem Report Signature))) :
    List (Option (AssuranceStateItem Report Signature)) :=
  cores.zipIdx.map fun slot => slot.1.filter fun p =>
    !isAvailable assurances validatorCount slot.2 &&
      !isReplaceable validatorCount postValidatorCount timeslot p

/-- `state_transition_after_assurances`: the available reports, and what is left on the cores. -/
def stateTransitionAfterAssurances (assurances : List (Assurance Hash Signature))
    (cores : List (Option (AssuranceStateItem Report Signature))) (timeslot : ℕ)
    (validatorCount postValidatorCount : ℕ) :
    Except BlockError (List Report × List (Option (AssuranceStateItem Report Signature))) :=
  if (assurances.flatMap Assurance.coresEngaged).any (fun core => (cores[core]?.join).isNone) then
    .error .coreNotEngaged
  else .ok (reportedReports assurances validatorCount cores,
    keptReports assurances validatorCount postValidatorCount timeslot cores)

/-! ## The guarantees extrinsic -/

section Guarantees

variable (F : ReportFields Report Hash)

def areGuarenteesSorted (guarantees : List (Guarantee Report Signature)) : Bool :=
  decide ((guarantees.map (fun g => F.coreIndex g.report)).IsChain (· ≤ ·))

def hasDuplicatedGuarentees (guarantees : List (Guarantee Report Signature)) : Bool :=
  !decide (guarantees.map (fun g => F.coreIndex g.report)).Nodup

def areGuarantorsUnqiueAndSorted (signatures : List (Credential Signature)) : Bool :=
  decide ((signatures.map Credential.validatorIndex).IsChain (· < ·))

/-- The checks of one guarantee that read the cores, the number of validators and the order of the
credentials. -/
def validateGuarantee (cores : List (Option (AssuranceStateItem Report Signature)))
    (postValidatorCount : ℕ) (g : Guarantee Report Signature) : Except BlockError Unit :=
  if cores.length ≤ F.coreIndex g.report then .error .badCoreIndex
  else if postValidatorCount / 3 ≤ F.coreIndex g.report then .error .badCoreIndex
  else if F.erasureShards g.report ≠ postValidatorCount then .error .badErasureShards
  else if !areGuarantorsUnqiueAndSorted g.signatures then .error .notSortedOrUniqueGuarantors
  else if g.signatures.length < 2 || 3 < g.signatures.length then .error .insufficientGuarantees
  else if (cores[F.coreIndex g.report]?.join).isSome then .error .coreEngaged
  else .ok ()

/-- The part of `validate_guarantees` that is about cores and credentials. -/
def validateGuarantees (guarantees : List (Guarantee Report Signature))
    (cores : List (Option (AssuranceStateItem Report Signature))) (postValidatorCount : ℕ) :
    Except BlockError Unit :=
  if !areGuarenteesSorted F guarantees then .error .outOfOrderGuarantee
  else if hasDuplicatedGuarentees F guarantees then .error .outOfOrderGuarantee
  else guarantees.forM (validateGuarantee F cores postValidatorCount)

/-- `state_transition_after_guarantees` -/
def stateTransitionAfterGuarantees (guarantees : List (Guarantee Report Signature))
    (cores : List (Option (AssuranceStateItem Report Signature))) (timeslot : ℕ) :
    List (Option (AssuranceStateItem Report Signature)) :=
  guarantees.foldl (fun cores g => cores.set (F.coreIndex g.report) (some ⟨g, timeslot⟩)) cores

end Guarantees

/-! ## A block -/

/-- The parts of the state that the cores depend on. -/
structure State (Report Hash Key Signature : Type) where
  timeslot : ℕ
  validatorPool : List Key
  validatorArchive : List Key
  disputes : DisputesState Hash Key
  assurances : List (Option (AssuranceStateItem Report Signature))

/-- What a block brings, with the validators of the state after it. -/
structure Block (Report Hash Key Signature : Type) where
  parent : Hash
  timeslot : ℕ
  offendersMarker : List Key
  disputes : ExtrinsicDisputes Hash Key Signature
  assurances : List (Assurance Hash Signature)
  guarantees : List (Guarantee Report Signature)
  postValidatorPool : List Key
  postValidatorArchive : List Key

/-- What a block does to the cores: the reports it hands to accumulation, the cores on which the
guarantees are put, and the state after it. -/
structure Outcome (Report Hash Key Signature : Type) where
  reported : List Report
  kept : List (Option (AssuranceStateItem Report Signature))
  post : State Report Hash Key Signature

/-- What is outside the model: the constants of the chain, the validity of signatures, and the other
checks of the guarantees, which may read all of the state and of the block. -/
structure Chain (Report Hash Key Signature : Type) where
  epochTimeslots : ℕ
  fields : ReportFields Report Hash
  verify : Key → SigningContext → Hash → Signature → Bool
  hasValidSignature : Key → Assurance Hash Signature → Bool
  otherChecks : State Report Hash Key Signature → Block Report Hash Key Signature → Bool

section Block

variable [LinearOrder Hash] [LinearOrder Key] (chain : Chain Report Hash Key Signature)

/-- The dispute part of a block on a state. -/
def Block.toDisputes (s : State Report Hash Key Signature) (b : Block Report Hash Key Signature) :
    Disputes.Block Hash Key Signature where
  extrinsic := b.disputes
  offendersMarker := b.offendersMarker
  timeslot := s.timeslot
  validatorPool := s.validatorPool
  validatorArchive := s.validatorArchive

/-- The cores after the verdicts of a block. -/
def afterDisputes (s : State Report Hash Key Signature) (b : Block Report Hash Key Signature) :
    List (Option (AssuranceStateItem Report Signature)) :=
  assurancesAfterDisputes (fun p => chain.fields.hash p.report) b.disputes s.assurances

/-- The transition of a block, as far as the cores go. -/
def applyBlock (s : State Report Hash Key Signature) (b : Block Report Hash Key Signature) :
    Except BlockError (Outcome Report Hash Key Signature) :=
  if b.timeslot ≤ s.timeslot then .error .badSlot
  else if !chain.otherChecks s b then .error .otherCheck
  else do
    let disputes ← (applyDisputes chain.verify chain.epochTimeslots (b.toDisputes s)
      s.disputes).mapError .disputes
    validateAfterDisputes chain.hasValidSignature b.assurances s.validatorPool b.parent
    let (reported, kept) ← stateTransitionAfterAssurances b.assurances (afterDisputes chain s b)
      b.timeslot s.validatorPool.length b.postValidatorPool.length
    validateGuarantees chain.fields b.guarantees kept b.postValidatorPool.length
    return ⟨reported, kept, {
      timeslot := b.timeslot
      validatorPool := b.postValidatorPool
      validatorArchive := b.postValidatorArchive
      disputes := disputes
      assurances := stateTransitionAfterGuarantees chain.fields b.guarantees kept b.timeslot }⟩

/-- A run of accepted blocks. -/
inductive Run : State Report Hash Key Signature → State Report Hash Key Signature → Prop
  | none (s : State Report Hash Key Signature) : Run s s
  | block {s s' : State Report Hash Key Signature} {b : Block Report Hash Key Signature}
      {out : Outcome Report Hash Key Signature} (hrun : Run s s')
      (hblock : applyBlock chain s' b = .ok out) : Run s out.post

end Block

end Assurances
