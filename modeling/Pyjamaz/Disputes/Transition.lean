import Mathlib.Data.List.Chain
import Mathlib.Data.List.Sort
import Pyjamaz.Library.Result
import Pyjamaz.Library.SortedSet

/-!
# Disputes

Validators judge work reports, and a block brings the judgements on-chain: verdicts on reports, the
culprits that guaranteed a bad report, and the faults that judged a report wrongly.  The state keeps
the reports with a good, a bad and a wonky verdict and the keys of the offenders, each in ascending
order.  The pass over an extrinsic writes the verdicts into the state that the checks of culprits and
faults then read; prior offenders are looked up in the state before the block.

Hashes and keys are byte strings of one length, of which the code uses the order only.  Whether a
signature is valid is a parameter.
-/

namespace Disputes

/-! ## The extrinsic -/

/-- What is signed, ahead of the hash of the report. -/
inductive SigningContext where
  | jamValid
  | jamInvalid
  | jamGuarantee
  deriving DecidableEq, Repr

structure Judgement (Signature : Type) where
  vote : Bool
  index : ℕ
  signature : Signature

structure Verdict (Hash Signature : Type) where
  target : Hash
  age : ℕ
  votes : List (Judgement Signature)

structure Culprit (Hash Key Signature : Type) where
  target : Hash
  key : Key
  signature : Signature

structure Fault (Hash Key Signature : Type) where
  target : Hash
  vote : Bool
  key : Key
  signature : Signature

structure ExtrinsicDisputes (Hash Key Signature : Type) where
  verdicts : List (Verdict Hash Signature)
  culprits : List (Culprit Hash Key Signature)
  faults : List (Fault Hash Key Signature)

variable {Hash Key Signature : Type}

def Judgement.getSigningContext (j : Judgement Signature) : SigningContext :=
  if j.vote then .jamValid else .jamInvalid

def Verdict.totalPositiveVotes (v : Verdict Hash Signature) : ℕ := v.votes.countP (·.vote)

def Verdict.isGood (v : Verdict Hash Signature) : Bool := v.totalPositiveVotes = v.votes.length

def Verdict.isBad (v : Verdict Hash Signature) : Bool := v.totalPositiveVotes = 0

def Verdict.isWonky (v : Verdict Hash Signature) : Bool :=
  (v.totalPositiveVotes : ℤ) = ((v.votes.length : ℤ) - 1) / 2

/-! ## The state -/

structure DisputesState (Hash Key : Type) where
  goodSet : List Hash
  badSet : List Hash
  wonkySet : List Hash
  offenders : List Key
  deriving DecidableEq

def DisputesState.empty : DisputesState Hash Key := ⟨[], [], [], []⟩

structure DisputesOutput (Hash Key : Type) where
  postState : DisputesState Hash Key
  offendersMark : List Key
  deriving DecidableEq

inductive DisputesErrorCode where
  | alreadyJudged
  | badVoteSplit
  | verdictsNotSortedUnique
  | judgementsNotSortedUnique
  | culpritsNotSortedUnique
  | faultsNotSortedUnique
  | notEnoughFaults
  | culpritsVerdictNotBad
  | faultVerdictWrong
  | offenderAlreadyReported
  | badJudgementAge
  | badValidatorIndex
  | badSignature
  | badGuarantorKey
  | badAuditorKey
  | badVotesCount
  deriving DecidableEq, Repr

/-- The exceptions that refuse a block for its disputes. -/
inductive DisputesError where
  | blockValidationError (code : DisputesErrorCode)
  | stateTransitionError (code : DisputesErrorCode)
  | badOffenderMarkerData
  deriving DecidableEq, Repr

/-! ## The checks before the transition -/

section Signatures

variable (verify : Key → SigningContext → Hash → Signature → Bool)

def Culprit.hasValidSignature (c : Culprit Hash Key Signature) : Bool :=
  verify c.key .jamGuarantee c.target c.signature

def Fault.hasValidSignature (f : Fault Hash Key Signature) : Bool :=
  verify f.key (if f.vote then .jamValid else .jamInvalid) f.target f.signature

/-- The judgements of a verdict on `target`, one after the other. -/
def hasValidJudgementSignatures (target : Hash) (validators : List Key) :
    List (Judgement Signature) → Except DisputesError Bool
  | [] => .ok true
  | j :: votes =>
    match validators[j.index]? with
    | none => .error (.blockValidationError .badValidatorIndex)
    | some key =>
      if verify key j.getSigningContext target j.signature then
        hasValidJudgementSignatures target validators votes
      else .ok false

/-- The validators of the epoch of a verdict. -/
def verdictValidators (currentEpoch : ℕ) (validatorPool validatorArchive : List Key)
    (v : Verdict Hash Signature) : Except DisputesError (List Key) :=
  if (currentEpoch : ℤ) - v.age = 0 then .ok validatorPool
  else if (currentEpoch : ℤ) - v.age = 1 then .ok validatorArchive
  else .error (.blockValidationError .badJudgementAge)

def validateVerdict (currentEpoch : ℕ) (validatorPool validatorArchive : List Key)
    (v : Verdict Hash Signature) : Except DisputesError Unit := do
  let validators ← verdictValidators currentEpoch validatorPool validatorArchive v
  if v.votes.length ≠ 2 * validators.length / 3 + 1 then
    .error (.blockValidationError .badVotesCount)
  else do
    let valid ← hasValidJudgementSignatures verify v.target validators v.votes
    if valid then .ok () else .error (.blockValidationError .badSignature)

variable [DecidableEq Key]

def validateExtrinsicDisputes (epochTimeslots : ℕ) (d : ExtrinsicDisputes Hash Key Signature)
    (timeslot : ℕ) (validatorPool validatorArchive : List Key) : Except DisputesError Unit := do
  d.verdicts.forM (validateVerdict verify (timeslot / epochTimeslots) validatorPool validatorArchive)
  if d.culprits.any (fun c => c.key ∉ validatorPool ++ validatorArchive) then
    .error (.blockValidationError .badGuarantorKey)
  else if d.faults.any (fun f => f.key ∉ validatorPool ++ validatorArchive) then
    .error (.blockValidationError .badAuditorKey)
  else .ok ()

end Signatures

/-! ## The transition -/

section Transition

variable [LinearOrder Hash] [LinearOrder Key]

def isAlreadyJudged (s : DisputesState Hash Key) (v : Verdict Hash Signature) : Bool :=
  v.target ∈ s.goodSet || v.target ∈ s.badSet || v.target ∈ s.wonkySet

def areJudgementsSorted (votes : List (Judgement Signature)) : Bool :=
  decide ((votes.map Judgement.index).IsChain (· ≤ ·))

def hasDuplicateJudgements (votes : List (Judgement Signature)) : Bool :=
  !decide (votes.map Judgement.index).Nodup

def areVerdictsSorted (verdicts : List (Verdict Hash Signature)) : Bool :=
  decide ((verdicts.map Verdict.target).IsChain (· ≤ ·))

def hasDuplicateReportHashes (verdicts : List (Verdict Hash Signature)) : Bool :=
  !decide (verdicts.map Verdict.target).Nodup

def areCulpritsSorted (culprits : List (Culprit Hash Key Signature)) : Bool :=
  decide ((culprits.map Culprit.key).IsChain (· < ·))

def areFaultsSorted (faults : List (Fault Hash Key Signature)) : Bool :=
  decide ((faults.map Fault.key).IsChain (· < ·))

/-- `check_valid_faults_count` -/
def checkValidFaultsCount (faults : List (Fault Hash Key Signature)) (reportHash : Hash) :
    Except DisputesError Unit :=
  if faults.countP (fun f => f.target = reportHash) = 0 then
    .error (.stateTransitionError .notEnoughFaults)
  else .ok ()

/-- One turn of the loop over the verdicts. -/
def processVerdict (faults : List (Fault Hash Key Signature)) (s : DisputesState Hash Key)
    (v : Verdict Hash Signature) : Except DisputesError (DisputesState Hash Key) :=
  if isAlreadyJudged s v then .error (.stateTransitionError .alreadyJudged)
  else if !areJudgementsSorted v.votes || hasDuplicateJudgements v.votes then
    .error (.stateTransitionError .judgementsNotSortedUnique)
  else if v.isGood then do
    checkValidFaultsCount faults v.target
    return { s with goodSet := insort s.goodSet v.target }
  else if v.isBad then .ok { s with badSet := insort s.badSet v.target }
  else if v.isWonky then .ok { s with wonkySet := insort s.wonkySet v.target }
  else .error (.stateTransitionError .badVoteSplit)

def addOffender (priorOffenders : List Key) (out : DisputesOutput Hash Key) (offenderKey : Key) :
    Except DisputesError (DisputesOutput Hash Key) :=
  if offenderKey ∈ priorOffenders then .error (.stateTransitionError .offenderAlreadyReported)
  else .ok
    { postState :=
        if offenderKey ∈ out.postState.offenders then out.postState
        else { out.postState with offenders := insort out.postState.offenders offenderKey }
      offendersMark := out.offendersMark ++ [offenderKey] }

def addCulprit (priorOffenders : List Key) (out : DisputesOutput Hash Key)
    (c : Culprit Hash Key Signature) : Except DisputesError (DisputesOutput Hash Key) :=
  if c.target ∈ out.postState.badSet then addOffender priorOffenders out c.key
  else .error (.stateTransitionError .culpritsVerdictNotBad)

def addFault (priorOffenders : List Key) (out : DisputesOutput Hash Key)
    (f : Fault Hash Key Signature) : Except DisputesError (DisputesOutput Hash Key) :=
  if (f.target ∈ out.postState.goodSet && !f.vote) || (f.target ∈ out.postState.badSet && f.vote)
  then addOffender priorOffenders out f.key
  else .error (.stateTransitionError .faultVerdictWrong)

/-- The part of the transition that is about the culprits. -/
def processCulprits (priorOffenders : List Key) (culprits : List (Culprit Hash Key Signature))
    (out : DisputesOutput Hash Key) : Except DisputesError (DisputesOutput Hash Key) :=
  if !areCulpritsSorted culprits then .error (.stateTransitionError .culpritsNotSortedUnique)
  else culprits.foldlM (addCulprit priorOffenders) out

/-- The part of the transition that is about the faults. -/
def processFaults (priorOffenders : List Key) (faults : List (Fault Hash Key Signature))
    (out : DisputesOutput Hash Key) : Except DisputesError (DisputesOutput Hash Key) :=
  if !areFaultsSorted faults then .error (.stateTransitionError .faultsNotSortedUnique)
  else faults.foldlM (addFault priorOffenders) out

variable (verify : Key → SigningContext → Hash → Signature → Bool)

/-- `Disputes.state_transition` -/
def stateTransition (d : ExtrinsicDisputes Hash Key Signature) (preState : DisputesState Hash Key) :
    Except DisputesError (DisputesOutput Hash Key) :=
  if !d.culprits.all (fun c => c.hasValidSignature verify) then
    .error (.stateTransitionError .badSignature)
  else if !d.faults.all (fun f => f.hasValidSignature verify) then
    .error (.stateTransitionError .badSignature)
  else if !areVerdictsSorted d.verdicts then
    .error (.stateTransitionError .verdictsNotSortedUnique)
  else if hasDuplicateReportHashes d.verdicts then
    .error (.stateTransitionError .verdictsNotSortedUnique)
  else do
    let judged ← d.verdicts.foldlM (processVerdict d.faults) preState
    let out ← processCulprits preState.offenders d.culprits ⟨judged, []⟩
    processFaults preState.offenders d.faults out

/-- The reports whose verdict is not good. -/
def rejectedReports (d : ExtrinsicDisputes Hash Key Signature) : List Hash :=
  (d.verdicts.filter (fun v => !v.isGood)).map Verdict.target

/-- `Assurances.state_transition_after_disputes`, for pending reports with the hash
`reportHash`. -/
def assurancesAfterDisputes {Pending : Type} (reportHash : Pending → Hash)
    (d : ExtrinsicDisputes Hash Key Signature) (assurances : List (Option Pending)) :
    List (Option Pending) :=
  assurances.map (Option.filter (fun pending => reportHash pending ∉ rejectedReports d))

/-! ## A block -/

/-- What a block and the state before it bring to the disputes: the extrinsic and the header's mark,
the timeslot and the validators. -/
structure Block (Hash Key Signature : Type) where
  extrinsic : ExtrinsicDisputes Hash Key Signature
  offendersMarker : List Key
  timeslot : ℕ
  validatorPool : List Key
  validatorArchive : List Key

/-- The disputes of a block: the checks, the transition, and the comparison with the header. -/
def applyDisputes (epochTimeslots : ℕ) (b : Block Hash Key Signature)
    (s : DisputesState Hash Key) : Except DisputesError (DisputesState Hash Key) := do
  validateExtrinsicDisputes verify epochTimeslots b.extrinsic b.timeslot b.validatorPool
    b.validatorArchive
  let out ← stateTransition verify b.extrinsic s
  if b.offendersMarker ≠ out.offendersMark then .error .badOffenderMarkerData
  else .ok out.postState

/-- A run of accepted blocks. -/
inductive Run (epochTimeslots : ℕ) : DisputesState Hash Key → DisputesState Hash Key → Prop
  | none (s : DisputesState Hash Key) : Run epochTimeslots s s
  | block {s s' s'' : DisputesState Hash Key} {b : Block Hash Key Signature}
      (hrun : Run epochTimeslots s s')
      (hblock : applyDisputes verify epochTimeslots b s' = .ok s'') : Run epochTimeslots s s''

end Transition

end Disputes
