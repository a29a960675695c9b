import Mathlib.Algebra.BigOperators.Group.List.Basic
import Pyjamaz.Accumulation.Merge

/-!
# One round of accumulation

`parallel_accumulation` runs every service that has something to accumulate on its own copy of the
state and folds the outputs, in ascending order of service ids, into the next state: gas, transfers
and commitments are collected, privileges and queues are taken from their holders, the merged service
changes are written to the store, and preimages that were provided are integrated.  Last, the changes
are added to the accounts in memory; an item of an account that is not there ends the round.

The invocation of the virtual machine is a parameter (`Invoke`); `none` stands for an exception.
-/

namespace Accumulation

open Services

variable {coreCount : ℕ}

/-! ## Running the services -/

/-- `pvm_invoke_accumulate` at a fixed timeslot and entropy: state, service, gas limit, inputs. -/
abbrev Invoke (coreCount : ℕ) :=
  AccumulationStateComponents coreCount → ℕ → ℕ → List AccumulationInput →
    Option (PvmAccumulateOutput coreCount)

/-- What a round is given besides the state. -/
structure RoundInput where
  deferredTransfers : List DeferredTransfer
  workReports : List WorkReport
  autoAccumulateServices : Dict ℕ ℕ

/-- `service_ids`: the services with a result, an allowance or an incoming transfer. -/
def RoundInput.serviceIds (input : RoundInput) : List ℕ :=
  sortedSet (input.workReports.flatMap (fun w => w.results.map WorkResult.serviceId) ++
    input.autoAccumulateServices.keys ++ input.deferredTransfers.map DeferredTransfer.receiver)

/-- The transfers that a service receives. -/
def RoundInput.transfersTo (input : RoundInput) (service : ℕ) : List DeferredTransfer :=
  input.deferredTransfers.filter (fun t => t.receiver = service)

/-- The results for a service, each with its report. -/
def RoundInput.resultsFor (input : RoundInput) (service : ℕ) : List (WorkReport × WorkResult) :=
  input.workReports.flatMap (fun w =>
    (w.results.filter (fun r => r.serviceId = service)).map (fun r => (w, r)))

/-- `g`: the gas supplied to a service. -/
def RoundInput.gasFor (input : RoundInput) (service : ℕ) : ℕ :=
  (input.autoAccumulateServices.get? service).getD 0 +
    ((input.transfersTo service).map DeferredTransfer.gasLimit).sum +
    ((input.resultsFor service).map (fun wr => wr.2.accumulateGas)).sum

/-- `i`: the inputs of a service, transfers first. -/
def RoundInput.inputsFor (input : RoundInput) (service : ℕ) : List AccumulationInput :=
  (input.transfersTo service).map .deferredTransfer ++
    (input.resultsFor service).map (fun (w, r) => .accumulationOperand {
      workReportHash := w.packageHash
      workReportExportsRoot := w.exportsRoot
      workReportAuthorizerHash := w.authorizerHash
      workReportAuthOutput := w.authOutput
      workResultPayloadHash := r.payloadHash
      workResultGasLimit := r.accumulateGas
      workExecResult := r.result })

/-- `single_step_accumulation` -/
def singleStepAccumulation (invoke : Invoke coreCount)
    (state : AccumulationStateComponents coreCount) (input : RoundInput) (service : ℕ) :
    Option (PvmAccumulateOutput coreCount) :=
  invoke { state with services := { state.services with pendingChanges := .empty } } service
    (input.gasFor service) (input.inputsFor service)

/-- The outputs of the services of a list, in the order of the list. -/
def runServices (invoke : Invoke coreCount) (state : AccumulationStateComponents coreCount)
    (input : RoundInput) (services : List ℕ) : Option (Outputs coreCount) :=
  services.mapM (fun s => (singleStepAccumulation invoke state input s).map (fun o => (s, o)))

/-! ## Folding the outputs -/

/-- What the loop over the outputs works on. -/
structure RoundState (coreCount : ℕ) where
  privilegedServices : PrivilegedServices coreCount
  validatorQueue : List Octets
  authorizerQueues : Vector (List Octets) coreCount
  managerAssigners : Vector ℕ coreCount
  managerDelegator : ℕ
  managerRegistrar : ℕ
  accumulationGasUtilized : Dict ℕ ℤ
  deferredTransfers : List DeferredTransfer
  beefyCommitmentMap : Finset (ℕ × Octets)

/-- The values before the loop. -/
def RoundState.init (state : AccumulationStateComponents coreCount) : RoundState coreCount where
  privilegedServices := state.privilegedServices
  validatorQueue := state.validatorQueue
  authorizerQueues := state.authorizerQueues
  managerAssigners := state.privilegedServices.assigners
  managerDelegator := state.privilegedServices.delegator
  managerRegistrar := state.privilegedServices.registrar
  accumulationGasUtilized := ∅
  deferredTransfers := []
  beefyCommitmentMap := ∅

/-- The manager's own changes: `m'`, `z'`, and the values `a*`, `v*`, `r*` kept for the end. -/
def applyManager (pre : PrivilegedServices coreCount) (service : ℕ)
    (out : PrivilegedServices coreCount) (acc : RoundState coreCount) : RoundState coreCount :=
  if service = pre.manager then
    { acc with
      privilegedServices := { acc.privilegedServices with
        manager := out.manager
        alwaysAccumulators := out.alwaysAccumulators }
      managerAssigners := out.assigners
      managerDelegator := out.delegator
      managerRegistrar := out.registrar }
  else acc

/-- A role passes to the holder's choice when the service is its *current* holder. -/
def passRole (service current out : ℕ) : ℕ := if service = current then out else current

/-- The updates of `a'`, `v'` and `r'`. -/
def applyRoles (service : ℕ) (out : PrivilegedServices coreCount)
    (current : PrivilegedServices coreCount) : PrivilegedServices coreCount :=
  { current with
    assigners := Vector.ofFn (fun c => passRole service current.assigners[c] out.assigners[c])
    delegator := passRole service current.delegator out.delegator
    registrar := passRole service current.registrar out.registrar }

/-- The validator queue and the authorizer queues, from the *prior* holders. -/
def applyQueues (pre : PrivilegedServices coreCount) (service : ℕ)
    (out : AccumulationStateComponents coreCount) (acc : RoundState coreCount) :
    RoundState coreCount :=
  { acc with
    validatorQueue := if service = pre.delegator then out.validatorQueue else acc.validatorQueue
    authorizerQueues := Vector.ofFn (fun c =>
      if service = pre.assigners[c] then out.authorizerQueues[c] else acc.authorizerQueues[c]) }

/-- The body of the loop over the outputs. -/
def applyOutput (pre : PrivilegedServices coreCount) (acc : RoundState coreCount)
    (entry : ℕ × PvmAccumulateOutput coreCount) : RoundState coreCount :=
  let (service, output) := entry
  let acc := { acc with
    accumulationGasUtilized := acc.accumulationGasUtilized.insert service output.gasUsed
    deferredTransfers := acc.deferredTransfers ++ output.deferredTransfers
    beefyCommitmentMap := match output.accumulationOutput with
      | some hash => insert (service, hash) acc.beefyCommitmentMap
      | none => acc.beefyCommitmentMap }
  let acc := applyManager pre service output.stateContext.privilegedServices acc
  let acc := { acc with
    privilegedServices :=
      applyRoles service output.stateContext.privilegedServices acc.privilegedServices }
  applyQueues pre service output.stateContext acc

/-- The override at the end of the round: where the manager changed a value, its choice counts. -/
def overrideRole (pre managerValue current : ℕ) : ℕ :=
  if pre ≠ managerValue then managerValue else current

def overrideByManager (pre : PrivilegedServices coreCount) (acc : RoundState coreCount) :
    PrivilegedServices coreCount :=
  { acc.privilegedServices with
    assigners := Vector.ofFn (fun c =>
      overrideRole pre.assigners[c] acc.managerAssigners[c] acc.privilegedServices.assigners[c])
    delegator :=
      overrideRole pre.delegator acc.managerDelegator acc.privilegedServices.delegator
    registrar :=
      overrideRole pre.registrar acc.managerRegistrar acc.privilegedServices.registrar }

/-! ## Committing the service changes -/

def commitServiceAccounts (st : ServicesState) : Except AccumulationError ServicesState :=
  st.pendingChanges.serviceAccounts.entries.foldlM (fun st (s, account) =>
    liftServices (match account with
      | none => st.deleteServiceAccount s true
      | some a => st.storeServiceAccount s a true)) st

def commitStorageItems (st : ServicesState) : Except AccumulationError ServicesState :=
  st.pendingChanges.storageItems.entries.foldlM (fun st (key, value) =>
    liftServices (match value with
      | none => st.deleteStorageItem key.1 key.2 true
      | some v => st.storeStorageItem key.1 key.2 v true)) st

/-- One preimage.  `store_preimage` files a blob under its own hash, in the dictionary that is being
iterated over: the value read is the current one, and a new key raises. -/
def commitPreimage (P : Primitives) (st : ServicesState) (key : ℕ × Octets32) :
    Except AccumulationError ServicesState :=
  match (st.pendingChanges.preimages.get? key).join with
  | none => liftServices (st.deletePreimage key.1 key.2 true)
  | some v => do
    let st' ← liftServices (st.storePreimage P key.1 v true)
    if st'.pendingChanges.preimages.entries.length ≠ st.pendingChanges.preimages.entries.length then
      throw .runtimeError
    else return st'

def commitPreimages (P : Primitives) (st : ServicesState) : Except AccumulationError ServicesState :=
  st.pendingChanges.preimages.keys.foldlM (commitPreimage P) st

def commitPreimagesAvailability (P : Primitives) (st : ServicesState) :
    Except AccumulationError ServicesState :=
  st.pendingChanges.preimagesAvailability.entries.foldlM (fun st (key, value) =>
    liftServices (match value with
      | none => st.deletePreimageAvailability key.1 key.2.1 key.2.2 true
      | some v => st.storePreimageAvailability P key.1 key.2.1 key.2.2 v true)) st

/-- The four loops that write the merged changes to the store. -/
def commitChanges (P : Primitives) (st : ServicesState) : Except AccumulationError ServicesState := do
  let st ← commitServiceAccounts st
  let st ← commitStorageItems st
  let st ← commitPreimages P st
  commitPreimagesAvailability P st

/-- One provided preimage: it is kept when the account and its request have survived the merge.  The
account is then in memory as well. -/
def integrateProvision (P : Primitives) (timeslot : ℕ) (st : ServicesState)
    (provision : ℕ × Octets) : Except AccumulationError ServicesState := do
  let (s, preimage) := provision
  if !(← liftServices (st.serviceExists s)) then return st
  else
    let preimageHash := P.blake2b256Hash preimage
    match st.retrievePreimageAvailability P s preimageHash preimage.length with
    | .error .noResult => return st
    | .error e => throw (.services e)
    | .ok availability =>
      if availability = [] then
        let st := { st with services := insert s st.services }
        let st ← liftServices
          (st.storePreimageAvailability P s preimageHash preimage.length [timeslot] true)
        liftServices (st.storePreimage P s preimage true)
      else return st

/-- The provisions of all outputs. -/
def integrateProvisions (P : Primitives) (timeslot : ℕ) (outputs : Outputs coreCount)
    (st : ServicesState) : Except AccumulationError ServicesState :=
  (outputs.flatMap (fun (_, output) => output.preimages)).foldlM (integrateProvision P timeslot) st

/-! ## The accounts in memory -/

/-- The first loop of `add_pending_changes`. -/
def addServiceAccounts (changes : PendingChanges) (services : Finset ℕ) : Finset ℕ :=
  changes.serviceAccounts.entries.foldl (fun services (s, account) =>
    match account with
    | none => services.erase s
    | some _ => insert s services) services

/-- The services with an item that is stored and not deleted, in the order of the other loops. -/
def itemOwners (changes : PendingChanges) : List ℕ :=
  (changes.storageItems.entries.filter (fun e => e.2.isSome)).map (fun e => e.1.1) ++
    (changes.preimages.entries.filter (fun e => e.2.isSome)).map (fun e => e.1.1) ++
    (changes.preimagesAvailability.entries.filter (fun e => e.2.isSome)).map (fun e => e.1.1)

/-- `add_pending_changes`: an item is stored in its account, which has to be in memory. -/
def addPendingChanges (st : ServicesState) : Except AccumulationError ServicesState :=
  let services := addServiceAccounts st.pendingChanges st.services
  if ∀ s ∈ itemOwners st.pendingChanges, s ∈ services then .ok { st with services := services }
  else .error .keyError

lemma addPendingChanges_eq_ok {st st' : ServicesState} (h : addPendingChanges st = .ok st') :
    st' = { st with services := st'.services } := by
  rw [addPendingChanges] at h
  split at h
  · cases h
    rfl
  · cases h

/-- A history of an account that is only in the store. -/
example : addPendingChanges ⟨.init ∅, { PendingChanges.empty with
      preimagesAvailability := Dict.insert ∅ (5, Vector.replicate 32 0, 1) (some [0, 1]) }, ∅⟩ =
    .error .keyError := rfl

/-! ## The round -/

/-- `ParallelAccumulationOutput` -/
structure ParallelAccumulationOutput (coreCount : ℕ) where
  accumulationState : AccumulationStateComponents coreCount
  deferredTransfers : List DeferredTransfer
  accumulationCommitment : Finset (ℕ × Octets)
  accumulationGasUtilized : Dict ℕ ℤ

/-- `parallel_accumulation` from the point where the outputs are known. -/
def finishRound (P : Primitives) (timeslot : ℕ) (state : AccumulationStateComponents coreCount)
    (outputs : Outputs coreCount) :
    Except AccumulationError (ParallelAccumulationOutput coreCount) := do
  let pending ← mergeAccumulationServiceChanges state.services outputs
  let acc := outputs.foldl (applyOutput state.privilegedServices) (.init state)
  let services ← commitChanges P { state.services with pendingChanges := pending }
  let services ← integrateProvisions P timeslot outputs services
  let services ← addPendingChanges services
  return {
    accumulationState := {
      services := services
      validatorQueue := acc.validatorQueue
      authorizerQueues := acc.authorizerQueues
      privilegedServices := overrideByManager state.privilegedServices acc }
    deferredTransfers := acc.deferredTransfers
    accumulationCommitment := acc.beefyCommitmentMap
    accumulationGasUtilized := acc.accumulationGasUtilized }

/-- The steps of a round that succeeds. -/
lemma finishRound_eq_ok {P : Primitives} {timeslot : ℕ}
    {state : AccumulationStateComponents coreCount} {outputs : Outputs coreCount}
    {out : ParallelAccumulationOutput coreCount}
    (h : finishRound P timeslot state outputs = .ok out) :
    ∃ pending committed provided services,
      mergeAccumulationServiceChanges state.services outputs = .ok pending ∧
      commitChanges P { state.services with pendingChanges := pending } = .ok committed ∧
      integrateProvisions P timeslot outputs committed = .ok provided ∧
      out = {
        accumulationState := {
          services := { provided with services := services }
          validatorQueue :=
            (outputs.foldl (applyOutput state.privilegedServices) (.init state)).validatorQueue
          authorizerQueues :=
            (outputs.foldl (applyOutput state.privilegedServices) (.init state)).authorizerQueues
          privilegedServices := overrideByManager state.privilegedServices
            (outputs.foldl (applyOutput state.privilegedServices) (.init state)) }
        deferredTransfers :=
          (outputs.foldl (applyOutput state.privilegedServices) (.init state)).deferredTransfers
        accumulationCommitment :=
          (outputs.foldl (applyOutput state.privilegedServices) (.init state)).beefyCommitmentMap
        accumulationGasUtilized :=
          (outputs.foldl (applyOutput state.privilegedServices)
            (.init state)).accumulationGasUtilized } := by
  rw [finishRound, Except.bind_eq_ok] at h
  obtain ⟨pending, hpending, h⟩ := h
  obtain ⟨committed, hcommitted, h⟩ := Except.bind_eq_ok.mp h
  obtain ⟨provided, hprovided, h⟩ := Except.bind_eq_ok.mp h
  obtain ⟨services, hservices, h⟩ := Except.bind_eq_ok.mp h
  rw [addPendingChanges_eq_ok hservices] at h
  cases h
  exact ⟨pending, committed, provided, services.services, hpending, hcommitted, hprovided, rfl⟩

/-- `parallel_accumulation` without a thread pool. -/
def parallelAccumulation (P : Primitives) (timeslot : ℕ) (invoke : Invoke coreCount)
    (state : AccumulationStateComponents coreCount) (input : RoundInput) :
    Except AccumulationError (ParallelAccumulationOutput coreCount) :=
  match runServices invoke state input input.serviceIds with
  | none => .error .invocation
  | some outputs => finishRound P timeslot state outputs

/-- `parallel_accumulation` with a thread pool whose futures complete in the given order; the outputs
are sorted again. -/
def threadPoolAccumulation (P : Primitives) (timeslot : ℕ) (invoke : Invoke coreCount)
    (state : AccumulationStateComponents coreCount) (input : RoundInput) (completion : List ℕ) :
    Except AccumulationError (ParallelAccumulationOutput coreCount) :=
  match runServices invoke state input completion with
  | none => .error .invocation
  | some outputs => finishRound P timeslot state (outputs.insertionSort (fun p q => p.1 ≤ q.1))

end Accumulation
