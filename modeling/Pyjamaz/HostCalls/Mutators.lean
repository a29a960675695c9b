import Pyjamaz.HostCalls.Driver
import Pyjamaz.HostCalls.RefineCalls

/-!
# The three mutators

`execute` of the three invocations: which numbers stand for which calls, and what each call is given.
The number of a call is an integer, since Numba hands it over as a signed one.

The calls of an accumulation see the memory as its readable pages and its bytes.  They change the
context and the registers, never the memory.
-/

namespace HostCalls

open Pvm Services Octets Accumulation

variable {B : Backend} {coreCount : ℕ}

/-! ## Inputs and outputs -/

/-- What a call gets from the machine. -/
def callInput (gas : ℕ) (data : MachineData B.Memory) : CallInput B := ⟨data.reg, data.mem, gas⟩

/-- What it leaves to the machine. -/
def CallOutput.mutation {χ : Type} (out : CallOutput B) (x : χ) :
    MutationOutput (MachineData B.Memory) χ where
  exitCondition := out.exitCondition
  gasLimit := out.gasLimit
  data := ⟨fun i => BitVec.ofInt 64 (out.registers i), out.memory⟩
  context := x

lemma ofInt_get (registers : Regs) (i : Fin 13) :
    BitVec.ofInt 64 (registers.get i : ℤ) = registers i := by
  rw [BitVec.ofInt_natCast, Regs.get, BitVec.ofNat_toNat, BitVec.setWidth_eq]

/-- The memory, as the calls of an accumulation read it. -/
def readableMemory (m : B.Memory) : Memory :=
  ⟨fun page => page ∈ (B.access.layout m).pagesR, B.access.byte m⟩

/-! ## The calls that all invocations offer -/

section

variable (codec : Codec) (F : FetchData)

/-- `log`, `grow_heap`, `gas` and `fetch`. -/
def commonCall (n : ℤ) (s : CallInput B) : Option (Except RefineError (CallOutput B)) :=
  match n with
  | 0 => some (hcGas s)
  | 1 => some (growHeap s)
  | 2 => some (hcFetch codec F s)
  | 100 => some (hcLog s)
  | _ => none

/-- `IsAuthorizedInvocationMutator.execute` -/
def isAuthorizedMutator : Mutator (MachineData B.Memory) Unit := fun n gas data x =>
  let s := callInput gas data
  some (((commonCall codec F n s).getD (hcNotFound s)).map fun out => out.mutation x)

end

/-! ## Accumulation -/

/-- The account of the service itself, which the mutator retrieves for a call. -/
def ownAccount (x : AccumulateInvocationContext coreCount) : Except RefineError ServiceAccount :=
  (x.services.retrieveServiceAccount x.context.serviceAccountId).mapError fun _ => .raised

/-- `lookup`, `read` and `info`. -/
def serviceCall (codec : Codec) (n : ℤ) (s : CallInput B)
    (x : AccumulateInvocationContext coreCount) : Option (Except RefineError (CallOutput B)) :=
  let service := x.context.serviceAccountId
  match n with
  | 3 => some (do
      let account ← ownAccount x
      hcLookup account service x.services s)
  | 4 => some (do
      let account ← ownAccount x
      hcRead account service x.services s)
  | 6 => some (do
      let _ ← ownAccount x
      hcInfo codec service x.services s)
  | _ => none

/-- A call that can change the context. -/
def contextCall (env : Environment) (n : ℤ) (s : CallInput B)
    (x : AccumulateInvocationContext coreCount) :
    Option (Except RefineError (CallOutput B × AccumulateInvocationContext coreCount)) :=
  (if n < 0 then none else hostCallOf n.toNat).map fun call =>
    match execute env call s.gasLimit (toRegisters s.registers) (readableMemory s.memory) x with
    | .error _ => .error .raised
    | .ok (out, x) =>
      .ok (⟨out.exitCondition, out.gasLimit, fun i => out.registers.get i, s.memory⟩, x)

/-- `AccumulateInvocationMutator.execute` -/
def accumulateMutator (env : Environment) (codec : Codec) (F : FetchData) :
    Mutator (MachineData B.Memory) (AccumulateInvocationContext coreCount) := fun n gas data x =>
  let s := callInput gas data
  let plain := (commonCall codec F n s).or (serviceCall codec n s x)
  some (match plain, contextCall env n s x with
    | some out, _ => out.map fun out => out.mutation x
    | none, some result => result.map fun (out, x) => out.mutation x
    | none, none => (hcNotFound s).map fun out => out.mutation x)

/-! ## Refinement -/

/-- What `RefineInvocationMutator` holds, and the inner machines' interpreter. -/
structure RefineEnvironment where
  primitives : Primitives
  codec : Codec
  fetchData : FetchData
  exportSegmentOffset : ℕ
  services : ServicesState
  serviceAccountId : ℕ
  timeslot : ℕ
  deblob : Octets → Option PVMCode
  decode : PVMCode → Decode
  gasModel : PVMCode → GasModel
  fuel : ℕ

/-- The calls with a context of machines and segments. -/
def refineCall (R : RefineEnvironment) (n : ℤ) (s : CallInput B) (x : RefineContext B) :
    Option (Option (RefineResult B)) :=
  match n with
  | 8 => some (some (hcExport R.exportSegmentOffset s x))
  | 9 => some (some (hcMachine R.deblob s x))
  | 10 => some (some (hcPeek s x))
  | 11 => some (some (hcPoke s x))
  | 12 => some (some (hcPages s x))
  | 13 => some (invokeIn R.decode R.gasModel R.fuel s x)
  | 14 => some (some (hcExpunge s x))
  | _ => none

/-- `historical_lookup`, if it is the call. -/
def historicalCall (R : RefineEnvironment) (n : ℤ) (s : CallInput B) :
    Option (Except RefineError (CallOutput B)) :=
  if n = 7 then
    some (hcHistoricalLookup R.primitives R.services R.serviceAccountId R.timeslot s)
  else none

/-- `RefineInvocationMutator.execute` -/
def refineMutator (R : RefineEnvironment) : Mutator (MachineData B.Memory) (RefineContext B) :=
  fun n gas data x =>
    let s := callInput gas data
    match (commonCall R.codec R.fetchData n s).or (historicalCall R n s), refineCall R n s x with
    | some out, _ => some (out.map fun out => out.mutation x)
    | none, some result => result.map (Except.map fun (out, x) => out.mutation x)
    | none, none => some ((hcNotFound s).map fun out => out.mutation x)

end HostCalls
