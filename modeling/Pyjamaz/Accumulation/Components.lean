import Mathlib.Data.Finset.Insert
import Pyjamaz.Library.Result
import Pyjamaz.Services.State

/-!
# What accumulation works on

The state components that accumulation may change, the transfers and reports that drive it, and the
output of one service's invocation.  The number of cores is a parameter of the chain specification, so
everything that has one entry per core is a vector of that length.
-/

namespace Accumulation

open Services

/-- `PrivilegedServicesState` -/
structure PrivilegedServices (coreCount : ℕ) where
  manager : ℕ
  assigners : Vector ℕ coreCount
  delegator : ℕ
  registrar : ℕ
  alwaysAccumulators : Dict ℕ ℕ
  deriving DecidableEq

/-- `AccumulationStateComponents` -/
structure AccumulationStateComponents (coreCount : ℕ) where
  services : ServicesState
  validatorQueue : List Octets
  authorizerQueues : Vector (List Octets) coreCount
  privilegedServices : PrivilegedServices coreCount
  deriving DecidableEq

/-- `DeferredTransfer` -/
structure DeferredTransfer where
  sender : ℕ
  receiver : ℕ
  amount : ℕ
  memo : Octets
  gasLimit : ℕ
  deriving DecidableEq, Repr

/-- A work result, as far as accumulation reads it. -/
structure WorkResult where
  serviceId : ℕ
  accumulateGas : ℕ
  payloadHash : Octets32
  result : Octets
  deriving DecidableEq, Repr

/-- A work report, as far as accumulation reads it. -/
structure WorkReport where
  packageHash : Octets32
  exportsRoot : Octets32
  authorizerHash : Octets32
  authOutput : Octets
  results : List WorkResult
  deriving DecidableEq, Repr

/-- `AccumulationOperand` -/
structure AccumulationOperand where
  workReportHash : Octets32
  workReportExportsRoot : Octets32
  workReportAuthorizerHash : Octets32
  workReportAuthOutput : Octets
  workResultPayloadHash : Octets32
  workResultGasLimit : ℕ
  workExecResult : Octets
  deriving DecidableEq, Repr

/-- `AccumulationInput` -/
inductive AccumulationInput where
  | deferredTransfer (t : DeferredTransfer)
  | accumulationOperand (o : AccumulationOperand)
  deriving DecidableEq, Repr

/-- `PvmAccumulateOutput` -/
structure PvmAccumulateOutput (coreCount : ℕ) where
  stateContext : AccumulationStateComponents coreCount
  deferredTransfers : List DeferredTransfer
  accumulationOutput : Option Octets
  gasUsed : ℤ
  preimages : List (ℕ × Octets)
  deriving DecidableEq

/-- The pending changes of an output. -/
def PvmAccumulateOutput.pending {coreCount : ℕ} (o : PvmAccumulateOutput coreCount) :
    PendingChanges :=
  o.stateContext.services.pendingChanges

/-- The outputs of a round, each with the service that produced it. -/
abbrev Outputs (coreCount : ℕ) := List (ℕ × PvmAccumulateOutput coreCount)

/-- What can stop a round. -/
inductive AccumulationError where
  /-- `Conflicting new service account IDs during accumulation` -/
  | conflict
  /-- an exception of one of the invocations -/
  | invocation
  /-- a dictionary that changed its size while it was iterated over -/
  | runtimeError
  /-- an item of an account that is not in memory -/
  | keyError
  | services (e : ServiceError)
  deriving DecidableEq, Repr

/-- An access to the services state inside a round. -/
def liftServices {α : Type} (x : Except ServiceError α) : Except AccumulationError α :=
  match x with
  | .ok a => .ok a
  | .error e => .error (.services e)

end Accumulation
