import Pyjamaz.Accumulation.Components
import Pyjamaz.Pvm.Machine

/-!
# The environment of a host call

A host call reads the registers and the memory of the machine, changes the context of the invocation
and leaves an exit condition, the remaining gas and new registers.  Registers hold natural numbers; no
call depends on their width.

A call that raises does so before it has changed the context, so an `Except` without a context in the
error case is faithful.
-/

namespace HostCalls

open Accumulation Services Octets

/-! ## Memory -/

/-- `PVMMemory`, as far as host calls read it: the readable pages and the bytes. -/
structure Memory where
  pagesR : ℕ → Bool
  byte : ℕ → UInt8

namespace Memory

/-- The pages that an access of a positive length touches. -/
def pages (address length : ℕ) : List ℕ :=
  List.range' (address / 2 ^ 12) ((address + length - 1) / 2 ^ 12 - address / 2 ^ 12 + 1)

/-- `is_accessible` for reading -/
def isAccessible (memory : Memory) (address length : ℕ) : Bool :=
  if length = 0 then true
  else if address + length > 2 ^ 32 then false
  else (pages address length).all memory.pagesR

/-- `read_bytes`; `none` is a `PVMMemoryError`. -/
def readBytes (memory : Memory) (address length : ℕ) : Option Octets :=
  if 2 ^ 32 ≤ address then none
  else if length = 0 then some []
  else if (pages address length).all (fun page => page < 2 ^ 20 && memory.pagesR page) then
    some ((List.range length).map (fun i => memory.byte (address + i)))
  else none

lemma length_of_readBytes {memory : Memory} {address length : ℕ} {data : Octets}
    (h : memory.readBytes address length = some data) : data.length = length := by
  unfold readBytes at h
  split_ifs at h with haddress hzero hpages
  · cases h
    exact hzero.symm
  · cases h
    simp

/-- Thirty-two bytes. -/
def readHash (memory : Memory) (address : ℕ) : Option Octets32 :=
  match h : memory.readBytes address 32 with
  | some data => some ⟨data.toArray, by simpa using length_of_readBytes h⟩
  | none => none

/-- A little-endian number of some bytes. -/
def readUint (memory : Memory) (address width : ℕ) : Option ℕ :=
  (memory.readBytes address width).map ofLittleEndian

end Memory

/-! ## Registers, results and exit conditions -/

abbrev Registers := Vector ℕ 13

/-- `registers[r] = value` -/
def Registers.assign (registers : Registers) (r : Fin 13) (value : ℕ) : Registers :=
  registers.set r value r.isLt

@[simp] lemma Registers.get_assign (registers : Registers) (r : Fin 13) (value : ℕ) :
    (registers.assign r value).get r = value :=
  Vector.getElem_set_self _

/-- `HostCallResult` -/
inductive HostCallResult where
  | none
  | what
  | oob
  | who
  | full
  | core
  | cash
  | low
  | huh
  | ok
  deriving DecidableEq, Repr

def HostCallResult.value : HostCallResult → ℕ
  | .none => 2 ^ 64 - 1
  | .what => 2 ^ 64 - 2
  | .oob => 2 ^ 64 - 3
  | .who => 2 ^ 64 - 4
  | .full => 2 ^ 64 - 5
  | .core => 2 ^ 64 - 6
  | .cash => 2 ^ 64 - 7
  | .low => 2 ^ 64 - 8
  | .huh => 2 ^ 64 - 9
  | .ok => 0

/-- The exit conditions that a host call can leave. -/
inductive ExitReason where
  | resume
  | panic
  | outOfGas
  deriving DecidableEq, Repr

/-- `InvocationMutationOutput` -/
structure InvocationMutationOutput where
  exitCondition : ExitReason
  gasLimit : ℤ
  registers : Registers

def InvocationMutationOutput.panic (out : InvocationMutationOutput) : InvocationMutationOutput :=
  { out with exitCondition := .panic }

/-- Resume with a value in register 7. -/
def InvocationMutationOutput.resumeWith (out : InvocationMutationOutput) (value : ℕ) :
    InvocationMutationOutput :=
  { out with exitCondition := .resume, registers := out.registers.assign 7 value }

def InvocationMutationOutput.answer (out : InvocationMutationOutput) (result : HostCallResult) :
    InvocationMutationOutput :=
  out.resumeWith result.value

/-! ## The context of an invocation -/

/-- `AccumulateContextItem` -/
structure AccumulateContextItem (coreCount : ℕ) where
  serviceAccountId : ℕ
  stateContext : AccumulationStateComponents coreCount
  newServiceAccountId : ℕ
  deferredTransfers : List DeferredTransfer
  invocationOutput : Option Octets
  preimages : List (ℕ × Octets)

/-- The services of a context. -/
def AccumulateContextItem.services {coreCount : ℕ} (c : AccumulateContextItem coreCount) :
    ServicesState :=
  c.stateContext.services

/-- A context with other services. -/
def AccumulateContextItem.setServices {coreCount : ℕ} (c : AccumulateContextItem coreCount)
    (services : ServicesState) : AccumulateContextItem coreCount :=
  { c with stateContext := { c.stateContext with services := services } }

/-- `AccumulateInvocationContext` -/
structure AccumulateInvocationContext (coreCount : ℕ) where
  context : AccumulateContextItem coreCount
  savepointContext : AccumulateContextItem coreCount
  timeslot : ℕ

/-- What a host call depends on besides its arguments: the primitives, the expunge period of the chain
(`PREIMAGE_EXPUNGE_TIMESLOTS`) and the depth of recursion that Python still allows. -/
structure Environment where
  primitives : Primitives
  expungePeriod : ℕ
  recursionDepth : ℕ
  recursionDepth_le : recursionDepth ≤ 1000

/-- The exceptions that leave a host call. -/
inductive HostError where
  | services (e : ServiceError)
  | memory
  | recursion
  | interpreter
  deriving DecidableEq, Repr

/-- An access to the services state. -/
def liftHost {α : Type} (x : Except ServiceError α) : Except HostError α :=
  match x with
  | .ok a => .ok a
  | .error e => .error (.services e)

/-- `try … except StateKeyNoResult` around a read. -/
def orNone {α : Type} (x : Except ServiceError α) : Except HostError (Option α) :=
  match x with
  | .ok a => .ok (some a)
  | .error .noResult => .ok none
  | .error e => .error (.services e)

/-- The output and the context after a call. -/
abbrev CallResult (coreCount : ℕ) :=
  InvocationMutationOutput × AccumulateInvocationContext coreCount

/-- The `hostcall` decorator: the cost is charged first, and a call that cannot pay does nothing. -/
def hostcall {coreCount : ℕ} (cost : ℕ) (out : InvocationMutationOutput)
    (x : AccumulateInvocationContext coreCount)
    (body : InvocationMutationOutput → Except HostError (CallResult coreCount)) :
    Except HostError (CallResult coreCount) :=
  let out := { out with gasLimit := out.gasLimit - cost }
  if out.gasLimit < 0 then .ok ({ out with exitCondition := .outOfGas }, x) else body out

/-- `gas_cost_for_octets` -/
def gasCostForOctets (rate octets : ℕ) : ℕ := (rate * octets + 1023) / 1024

namespace AccumulateInvocationContext

variable {coreCount : ℕ}

/-- The services of the context. -/
def services (x : AccumulateInvocationContext coreCount) : ServicesState :=
  x.context.services

/-- The context with other services. -/
def setServices (x : AccumulateInvocationContext coreCount) (services : ServicesState) :
    AccumulateInvocationContext coreCount :=
  { x with context := x.context.setServices services }

/-- The context with other privileged services. -/
def setPrivileged (x : AccumulateInvocationContext coreCount)
    (privileged : PrivilegedServices coreCount) : AccumulateInvocationContext coreCount :=
  { x with context := { x.context with
      stateContext := { x.context.stateContext with privilegedServices := privileged } } }

end AccumulateInvocationContext

/-! ## Unused service ids -/

/-- The number of ids that new accounts get. -/
def publicIds : ℕ := 2 ^ 32 - 2 ^ 16 - 2 ^ 8

/-- An id at a distance from another one, among the public ids. -/
def shiftServiceId (service : ℤ) (distance : ℕ) : ℕ :=
  ((service - 2 ^ 16 + distance) % publicIds + 2 ^ 16).toNat

/-- `check_service_id`: the first unused id from a given one on.  The recursion ends with a
`RecursionError` when it gets too deep. -/
def checkServiceId (services : ServicesState) : ℕ → ℕ → Except HostError ℕ
  | 0, _ => .error .recursion
  | depth + 1, service =>
    match services.retrieveServiceAccount service with
    | .ok _ => checkServiceId services depth (shiftServiceId service 1)
    | .error .noResult => .ok service
    | .error e => .error (.services e)

end HostCalls
