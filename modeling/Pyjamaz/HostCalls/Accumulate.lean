import Pyjamaz.HostCalls.Context

/-!
# The host calls of accumulation

The calls that an accumulating service can make to change the state it works on: the thirteen calls of
the accumulation group, and `write` of the general group.  The remaining general calls (`gas`,
`grow_heap`, `fetch`, `lookup`, `read`, `info`) only write registers and memory.
-/

namespace HostCalls

open Accumulation Services Octets

variable {coreCount : ℕ}

/-! ## Privileges, queues and checkpoints -/

/-- `GP080_NON_MANAGER_BLESS_COMPAT`: services other than the manager may call `bless`. -/
def nonManagerBlessCompat : Bool := true

/-- The assigners that `bless` reads. -/
def readAssigners (memory : Memory) (a : ℕ) : Option (Vector ℕ coreCount) :=
  if memory.isAccessible a (4 * coreCount) then
    Vector.ofFnM (fun c : Fin coreCount => memory.readUint (a + c * 4) 4)
  else none

/-- The dictionary of always-accumulating services that `bless` reads. -/
def readAlwaysAccumulators (memory : Memory) (o n : ℕ) : Option (Dict ℕ ℕ) :=
  if memory.isAccessible o (12 * n) then
    (List.range n).foldlM (fun acc idx => do
      let service ← memory.readUint (o + idx * 12) 4
      let gas ← memory.readUint (o + idx * 12 + 4) 8
      return acc.insert service gas) ∅
  else none

def hcBless (registers : Registers) (memory : Memory) (x : AccumulateInvocationContext coreCount)
    (out : InvocationMutationOutput) : Except HostError (CallResult coreCount) :=
  hostcall (422 + 20 * registers.get 12) out x fun out =>
    let m := registers.get 7
    let v := registers.get 9
    let r := registers.get 10
    match readAlwaysAccumulators memory (registers.get 11) (registers.get 12),
        readAssigners memory (registers.get 8) with
    | some alwaysAccumulators, some assigners =>
      if x.context.serviceAccountId ≠ x.context.stateContext.privilegedServices.manager ∧
          nonManagerBlessCompat = false then
        .ok (out.answer .huh, x)
      else if 2 ^ 32 ≤ m ∨ 2 ^ 32 ≤ v ∨ 2 ^ 32 ≤ r then .ok (out.answer .who, x)
      else .ok (out.answer .ok, x.setPrivileged ⟨m, assigners, v, r, alwaysAccumulators⟩)
    | _, _ => .ok (out.panic, x)

/-- A sequence of equally long blobs. -/
def readBlobs (memory : Memory) (address size count : ℕ) : Option (List Octets) :=
  (List.range count).mapM (fun idx => memory.readBytes (address + idx * size) size)

def hcAssign (registers : Registers) (memory : Memory) (x : AccumulateInvocationContext coreCount)
    (out : InvocationMutationOutput) : Except HostError (CallResult coreCount) :=
  hostcall 1818 out x fun out =>
    let core := registers.get 7
    let o := registers.get 8
    let a := registers.get 9
    match if memory.isAccessible o (32 * 80) then readBlobs memory o 32 80 else none with
    | none => .ok (out.panic, x)
    | some authorizationQueue =>
      if h : core < coreCount then
        let st := x.context.stateContext
        if x.context.serviceAccountId ≠ st.privilegedServices.assigners[core] then
          .ok (out.answer .huh, x)
        else if 2 ^ 32 ≤ a then .ok (out.answer .who, x)
        else .ok (out.answer .ok, { x with context := { x.context with stateContext := { st with
          authorizerQueues := st.authorizerQueues.set core authorizationQueue
          privilegedServices := { st.privilegedServices with
            assigners := st.privilegedServices.assigners.set core a } } } })
      else .ok (out.answer .core, x)

def hcDesignate (registers : Registers) (memory : Memory) (x : AccumulateInvocationContext coreCount)
    (out : InvocationMutationOutput) : Except HostError (CallResult coreCount) :=
  hostcall (1100 + 302 * registers.get 8) out x fun out =>
    let o := registers.get 7
    let count := registers.get 8
    if !memory.isAccessible o (336 * count) then .ok (out.panic, x)
    else if count < 6 ∨ count > 3 * coreCount ∨ count % 3 ≠ 0 then .ok (out.answer .huh, x)
    else match readBlobs memory o 336 count with
      | none => .ok (out.panic, x)
      | some validatorQueue =>
        if x.context.serviceAccountId ≠ x.context.stateContext.privilegedServices.delegator then
          .ok (out.answer .huh, x)
        else .ok (out.answer .ok, { x with context := { x.context with
          stateContext := { x.context.stateContext with validatorQueue := validatorQueue } } })

def hcCheckpoint (x : AccumulateInvocationContext coreCount) (out : InvocationMutationOutput) :
    Except HostError (CallResult coreCount) :=
  hostcall 103 out x fun out =>
    let gasValue := if out.gasLimit < 0 then 2 ^ 64 + out.gasLimit else out.gasLimit
    .ok (out.resumeWith gasValue.toNat, { x with savepointContext := x.context })

/-! ## Accounts -/

/-- The account that `new` creates, with the deposit for its code. -/
def newAccount (codeHash : Octets32) (l g m f timeslot parent : ℕ) : ServiceAccount :=
  let account := ServiceAccount.updateFootprintAddPreimage {
    codeHash := codeHash
    balance := 0
    gasLimitAccumulate := g
    gasLimitOnTransfer := m
    footprintStorageBytes := 0
    depositOffset := f
    footprintStorageItems := 0
    creationSlot := timeslot
    lastAccumulationSlot := 0
    parentService := parent } l
  { account with balance := account.thresholdBalance }

/-- The account and its code request are stored, and the creator pays the deposit. -/
def storeNew (services : ServicesState) (env : Environment) (service newService : ℕ)
    (account newAccount : ServiceAccount) (codeHash : Octets32) (l : ℕ) :
    Except ServiceError ServicesState := do
  let services ← services.storeServiceAccount service account false
  let services ← services.storeServiceAccount newService newAccount false
  services.storePreimageAvailability env.primitives newService codeHash l [] false

def hcNew (env : Environment) (registers : Registers) (memory : Memory)
    (x : AccumulateInvocationContext coreCount) (out : InvocationMutationOutput) :
    Except HostError (CallResult coreCount) :=
  hostcall 3855 out x fun out => do
    let o := registers.get 7
    let l := registers.get 8
    let f := registers.get 11
    let i := registers.get 12
    let service := x.context.serviceAccountId
    let privileged := x.context.stateContext.privilegedServices
    match if 0 < l ∧ l < 2 ^ 32 ∧ memory.isAccessible o 32 then memory.readHash o else none with
    | none => return (out.panic, x)
    | some codeHash =>
      let created := newAccount codeHash l (registers.get 9) (registers.get 10) f x.timeslot service
      let account ← liftHost (x.services.retrieveServiceAccount service)
      let deducted := account.balance - created.thresholdBalance
      if f ≠ 0 ∧ service ≠ privileged.manager then return (out.answer .huh, x)
      else if deducted < account.thresholdBalance then return (out.answer .cash, x)
      else if service = privileged.registrar ∧ i < 2 ^ 16 then
        -- the registrar chooses the id
        if ← liftHost (x.services.serviceExists i) then return (out.answer .full, x)
        else
          let services ← liftHost (storeNew x.services env service i
            { account with balance := deducted } created codeHash l)
          return (out.resumeWith i, x.setServices services)
      else
        let newService := x.context.newServiceAccountId
        let next ← checkServiceId x.services env.recursionDepth (shiftServiceId newService 42)
        let services ← liftHost (storeNew x.services env service newService
          { account with balance := deducted } created codeHash l)
        let x := x.setServices services
        return (out.resumeWith newService,
          { x with context := { x.context with newServiceAccountId := next } })

def hcUpgrade (registers : Registers) (memory : Memory) (x : AccumulateInvocationContext coreCount)
    (out : InvocationMutationOutput) : Except HostError (CallResult coreCount) :=
  hostcall 1028 out x fun out => do
    let service := x.context.serviceAccountId
    let account ← liftHost (x.services.retrieveServiceAccount service)
    match memory.readHash (registers.get 7) with
    | none => return (out.panic, x)
    | some codeHash =>
      let services ← liftHost (x.services.storeServiceAccount service { account with
        codeHash := codeHash
        gasLimitAccumulate := registers.get 8
        gasLimitOnTransfer := registers.get 9 } false)
      return (out.answer .ok, x.setServices services)

/-- The gas that a transfer forwards, if it is valid. -/
def transferForwarded (account : ServiceAccount) (memo : Option Octets)
    (destination : Option ServiceAccount) (l : ℕ) (b : ℤ) : ℕ :=
  match memo, destination with
  | some _, some receiver =>
    if receiver.gasLimitOnTransfer ≤ l ∧ account.thresholdBalance ≤ b then l else 0
  | _, _ => 0

/-- `hc_transfer`: the forwarded gas is charged with the cost of the call. -/
def hcTransfer (registers : Registers) (memory : Memory) (x : AccumulateInvocationContext coreCount)
    (out : InvocationMutationOutput) : Except HostError (CallResult coreCount) := do
  let d := registers.get 7
  let a := registers.get 8
  let l := registers.get 9
  let service := x.context.serviceAccountId
  let account ← liftHost (x.services.retrieveServiceAccount service)
  let destination ← orNone (x.services.retrieveServiceAccount d)
  let memo := memory.readBytes (registers.get 10) 128
  let b := account.balance - a
  let out : InvocationMutationOutput := { out with
    gasLimit := out.gasLimit - 575 - transferForwarded account memo destination l b }
  if out.gasLimit < 0 then return ({ out with exitCondition := .outOfGas }, x)
  else match memo, destination with
    | none, _ => return (out.panic, x)
    | some _, none => return (out.answer .who, x)
    | some memo, some receiver =>
      if l < receiver.gasLimitOnTransfer then return (out.answer .low, x)
      else if b < account.thresholdBalance then return (out.answer .cash, x)
      else
        let services ← liftHost
          (x.services.storeServiceAccount service { account with balance := b } false)
        let x := x.setServices services
        return (out.answer .ok, { x with context := { x.context with
          deferredTransfers := x.context.deferredTransfers ++ [⟨service, d, a, memo, l⟩] } })

/-- The ejected account and its code request are removed, and its balance goes to the caller. -/
def storeEjection (services : ServicesState) (service ejected : ℕ) (account : ServiceAccount)
    (preimageHash : Octets32) (l : ℕ) : Except ServiceError ServicesState := do
  let services ← services.deletePreimage ejected preimageHash false
  let services ← services.deletePreimageAvailability ejected preimageHash l false
  let services ← services.deleteServiceAccount ejected false
  services.storeServiceAccount service account false

/-- The account to eject; a service cannot eject itself. -/
def retrieveEjected (services : ServicesState) (service d : ℕ) :
    Except HostError (Option ServiceAccount) :=
  if d ≠ service then orNone (services.retrieveServiceAccount d) else .ok none

def hcEject (env : Environment) (registers : Registers) (memory : Memory)
    (x : AccumulateInvocationContext coreCount) (out : InvocationMutationOutput) :
    Except HostError (CallResult coreCount) :=
  hostcall 458 out x fun out => do
    let d := registers.get 7
    let service := x.context.serviceAccountId
    let account ← liftHost (x.services.retrieveServiceAccount service)
    match memory.readHash (registers.get 8) with
    | none => return (out.panic, x)
    | some preimageHash =>
      match ← retrieveEjected x.services service d with
      | none => return (out.answer .who, x)
      | some ejected =>
        let l := (max 81 ejected.footprintStorageBytes - 81).toNat
        let availability ←
          orNone (x.services.retrievePreimageAvailability env.primitives d preimageHash l)
        if ejected.codeHash.toList ≠ littleEndian 32 service then return (out.answer .who, x)
        else match ejected.footprintStorageItems == 2, availability with
          | true, some [_, y] =>
            if (y : ℤ) < x.timeslot - env.expungePeriod then
              let services ← liftHost (storeEjection x.services service d
                { account with balance := account.balance + ejected.balance } preimageHash l)
              return (out.answer .ok, x.setServices services)
            else return (out.answer .huh, x)
          | _, _ => return (out.answer .huh, x)

/-! ## Preimages -/

/-- Registers 7 and 8 for the history of a preimage. -/
def queryAnswer : Option (List ℕ) → Option (ℕ × ℕ)
  | none => some (HostCallResult.none.value, 0)
  | some [] => some (0, 0)
  | some [a] => some (1 + 2 ^ 32 * a, 0)
  | some [a, b] => some (2 + 2 ^ 32 * a, b)
  | some [a, b, c] => some (3 + 2 ^ 32 * a, b + 2 ^ 32 * c)
  | some _ => none

def hcQuery (env : Environment) (registers : Registers) (memory : Memory)
    (x : AccumulateInvocationContext coreCount) (out : InvocationMutationOutput) :
    Except HostError (CallResult coreCount) :=
  hostcall 643 out x fun out => do
    let z := registers.get 8
    if 2 ^ 32 ≤ z then return (out.answer .huh, x)
    else match memory.readHash (registers.get 7) with
      | none => return (out.panic, x)
      | some preimageHash =>
        let availability ← orNone (x.services.retrievePreimageAvailability env.primitives
          x.context.serviceAccountId preimageHash z)
        match queryAnswer availability with
        | none => return (out.panic, x)
        | some (r7, r8) =>
          let out := out.resumeWith r7
          return ({ out with registers := out.registers.assign 8 r8 }, x)

def hcSolicit (env : Environment) (registers : Registers) (memory : Memory)
    (x : AccumulateInvocationContext coreCount) (out : InvocationMutationOutput) :
    Except HostError (CallResult coreCount) :=
  hostcall 2193 out x fun out => do
    let z := registers.get 8
    if 2 ^ 32 ≤ z then return (out.answer .huh, x)
    else
      let service := x.context.serviceAccountId
      let account ← liftHost (x.services.retrieveServiceAccount service)
      match memory.readHash (registers.get 7) with
      | none => return (out.panic, x)
      | some preimageHash =>
        let availability ← orNone
          (x.services.retrievePreimageAvailability env.primitives service preimageHash z)
        -- the footprint grows with a new request
        let account := if availability.isNone then account.updateFootprintAddPreimage z else account
        if availability.any (fun history => history.length ≠ 2) then return (out.answer .huh, x)
        else if account.balance < account.thresholdBalance then return (out.answer .full, x)
        else
          let history := match availability with
            | none => []
            | some history => history ++ [x.timeslot]
          let services ← liftHost (x.services.storePreimageAvailability env.primitives service
            preimageHash z history false)
          let services ← liftHost (services.storeServiceAccount service account false)
          return (out.answer .ok, x.setServices services)

/-- What `forget` does to a history: remove it, or replace it. -/
inductive Forget where
  | remove
  | replace (history : List ℕ)
  | refuse
  deriving DecidableEq, Repr

/-- The decision of `forget`, by the number of timeslots in the history. -/
def forgetDecision (env : Environment) (timeslot : ℕ) : List ℕ → Forget
  | [] => .remove
  | [a] => .replace [a, timeslot]
  | [_, b] => if (b : ℤ) < timeslot - env.expungePeriod then .remove else .refuse
  | [_, b, c] =>
    if (b : ℤ) < timeslot - env.expungePeriod then .replace [c, timeslot] else .refuse
  | _ => .refuse

/-- A forgotten request: the history, the preimage and their footprint go. -/
def storeForgotten (services : ServicesState) (service : ℕ) (account : ServiceAccount)
    (preimageHash : Octets32) (z : ℕ) : Except ServiceError ServicesState := do
  let services ← services.deletePreimageAvailability service preimageHash z false
  let services ← services.deletePreimage service preimageHash false
  services.storeServiceAccount service (account.updateFootprintRemovePreimage z) false

def hcForget (env : Environment) (registers : Registers) (memory : Memory)
    (x : AccumulateInvocationContext coreCount) (out : InvocationMutationOutput) :
    Except HostError (CallResult coreCount) :=
  hostcall 3250 out x fun out => do
    let z := registers.get 8
    if 2 ^ 32 ≤ z then return (out.answer .huh, x)
    else
      let service := x.context.serviceAccountId
      let account ← liftHost (x.services.retrieveServiceAccount service)
      match memory.readHash (registers.get 7) with
      | none => return (out.panic, x)
      | some preimageHash =>
        let availability ← orNone
          (x.services.retrievePreimageAvailability env.primitives service preimageHash z)
        match availability.map (forgetDecision env x.timeslot) with
        | some .remove =>
          let services ← liftHost (storeForgotten x.services service account preimageHash z)
          return (out.answer .ok, x.setServices services)
        | some (.replace history) =>
          let services ← liftHost (x.services.storePreimageAvailability env.primitives service
            preimageHash z history false)
          return (out.answer .ok, x.setServices services)
        | _ => return (out.answer .huh, x)

def hcYield (registers : Registers) (memory : Memory) (x : AccumulateInvocationContext coreCount)
    (out : InvocationMutationOutput) : Except HostError (CallResult coreCount) :=
  hostcall 98 out x fun out =>
    let o := registers.get 7
    if memory.isAccessible o 32 then
      match memory.readBytes o 32 with
      | none => .error .memory
      | some data => .ok (out.answer .ok, { x with context := { x.context with
          invocationOutput := some data } })
    else .ok (out.panic, x)

/-- The blob that `provide` reads.  No byte at all is accessible everywhere, but cannot be read
outside the address space. -/
def readProvided (memory : Memory) (address length : ℕ) : Except HostError (Option Octets) :=
  if memory.isAccessible address length then
    match memory.readBytes address length with
    | none => .error .memory
    | some blob => .ok (some blob)
  else .ok none

/-- The service that a preimage is provided for; all ones stand for the caller. -/
def provideService (x : AccumulateInvocationContext coreCount) (r7 : ℕ) : ℕ :=
  if r7 = 2 ^ 64 - 1 then x.context.serviceAccountId else r7

def hcProvide (env : Environment) (registers : Registers) (memory : Memory)
    (x : AccumulateInvocationContext coreCount) (out : InvocationMutationOutput) :
    Except HostError (CallResult coreCount) :=
  hostcall (3980 + gasCostForOctets 2264 (registers.get 9)) out x fun out => do
    let z := registers.get 9
    if 2 ^ 32 ≤ z then return (out.answer .huh, x)
    else
      let service := provideService x (registers.get 7)
      let blob ← readProvided memory (registers.get 8) z
      let account ← orNone (x.services.retrieveServiceAccount service)
      match blob with
      | none => return (out.panic, x)
      | some blob =>
        let availability ← orNone (x.services.retrievePreimageAvailability env.primitives service
          (env.primitives.blake2b256Hash blob) z)
        if account.isNone then return (out.answer .who, x)
        else if availability ≠ some [] then return (out.answer .huh, x)
        else if (service, blob) ∈ x.context.preimages then return (out.answer .huh, x)
        else return (out.answer .ok, { x with context := { x.context with
          preimages := x.context.preimages ++ [(service, blob)] } })

/-! ## Storage -/

/-- The footprint with an item replaced by another one, or removed.  An item of no bytes counts as
absent when another one takes its place. -/
def writeFootprint (account : ServiceAccount) (key : Octets) (old new : Option Octets) :
    ServiceAccount :=
  match new with
  | none =>
    match old with
    | none => account
    | some old => account.updateFootprintRemoveStorageItem key.length old.length
  | some value =>
    if (old.getD []).length = 0 then account.updateFootprintAddStorageItem key.length value.length
    else account.updateFootprintUpdateStorageItem (old.getD []).length value.length

/-- The item is stored, or removed, and with it the account. -/
def storeWrite (services : ServicesState) (service : ℕ) (account : ServiceAccount) (key : Octets)
    (value : Option Octets) : Except ServiceError ServicesState := do
  let services ← match value with
    | none => services.deleteStorageItem service key false
    | some value => services.storeStorageItem service key value false
  services.storeServiceAccount service account false

/-- The value that `write` reads: `none` for a memory error, `some none` for a deletion. -/
def readWriteValue (memory : Memory) (address length : ℕ) : Option (Option Octets) :=
  if length = 0 then some none else (memory.readBytes address length).map some

def hcWrite (registers : Registers) (memory : Memory) (x : AccumulateInvocationContext coreCount)
    (out : InvocationMutationOutput) : Except HostError (CallResult coreCount) :=
  hostcall
      (2442 + (gasCostForOctets 3358 (registers.get 8) + gasCostForOctets 216 (registers.get 10))) out x
    fun out => do
      let service := x.context.serviceAccountId
      let account ← liftHost (x.services.retrieveServiceAccount service)
      match memory.readBytes (registers.get 7) (registers.get 8) with
      | none => return (out.panic, x)
      | some key =>
        let old ← orNone (x.services.retrieveStorageItem service key)
        match readWriteValue memory (registers.get 9) (registers.get 10) with
        | none => return (out.panic, x)
        | some value =>
          let account := writeFootprint account key old value
          if account.thresholdBalance > account.balance then return (out.answer .full, x)
          else
            let services ← liftHost (storeWrite x.services service account key value)
            let l := match old with
              | none => HostCallResult.none.value
              | some old => old.length
            return (out.resumeWith l, x.setServices services)

/-! ## Dispatch -/

/-- A host call that can change the context. -/
inductive HostCall where
  | bless
  | assign
  | designate
  | checkpoint
  | new
  | upgrade
  | transfer
  | eject
  | query
  | solicit
  | forget
  | yield
  | provide
  | write
  deriving DecidableEq, Repr

/-- `AccumulateInvocationMutator.execute` -/
def execute (env : Environment) (call : HostCall) (gasLimit : ℤ) (registers : Registers)
    (memory : Memory) (x : AccumulateInvocationContext coreCount) :
    Except HostError (CallResult coreCount) :=
  let out : InvocationMutationOutput := ⟨.panic, gasLimit, registers⟩
  match call with
  | .bless => hcBless registers memory x out
  | .assign => hcAssign registers memory x out
  | .designate => hcDesignate registers memory x out
  | .checkpoint => hcCheckpoint x out
  | .new => hcNew env registers memory x out
  | .upgrade => hcUpgrade registers memory x out
  | .transfer => hcTransfer registers memory x out
  | .eject => hcEject env registers memory x out
  | .query => hcQuery env registers memory x out
  | .solicit => hcSolicit env registers memory x out
  | .forget => hcForget env registers memory x out
  | .yield => hcYield registers memory x out
  | .provide => hcProvide env registers memory x out
  | .write => hcWrite registers memory x out

end HostCalls
