import Pyjamaz.HostCalls.GrowHeap
import Pyjamaz.HostCalls.Lookups
import Pyjamaz.Refinement.WorkPackage

/-!
# General calls

The calls that every invocation offers: `gas`, `grow_heap`, `fetch`, the log call, and what is answered
to a number that no call has.  The last one charges without the decorator, and `grow_heap` as well.

What `fetch` gets depends on the invocation: a field that an invocation does not have is `None`.
-/

namespace HostCalls

open Pvm Services Octets

variable {B : Backend}

/-! ## Gas -/

/-- `GAS_QUERY_COST` -/
def gasQueryCost : ℕ := 48

def hcGas (s : CallInput B) : Except RefineError (CallOutput B) :=
  s.charged gasQueryCost fun gasLimit => s.answer gasLimit gasLimit.toNat

/-! ## The heap -/

/-- The registers as numbers. -/
def toRegisters (registers : Regs) : Registers := Vector.ofFn fun i => registers.get i

/-- A memory with other permissions. -/
def setLayout : (B : Backend) → B.Memory → Layout → B.Memory
  | .graypaper, (m : Graypaper.Memory), layout => { m with toLayout := layout }
  | .cpython, (m : CPython.Memory), layout => { m with toLayout := layout }
  | .numba _, (m : CPython.Memory), layout => { m with toLayout := layout }

/-- `hc_grow_heap` on the machine, under the settings of the repository. -/
def growHeap (s : CallInput B) : Except RefineError (CallOutput B) :=
  let registers := toRegisters s.registers
  (hcGrowHeap .default registers (B.access.layout s.memory) ⟨.panic, s.gasLimit, registers⟩).elim
    (.error .raised) fun (out, layout) => .ok {
      exitCondition := out.exitCondition
      gasLimit := out.gasLimit
      registers := fun i => out.registers.get i
      memory := setLayout B s.memory layout }

/-! ## Fetching -/

/-- What an invocation has to fetch.  The accumulation inputs are encoded one by one. -/
structure FetchData where
  constants : List ℕ
  workPackage : Option Refinement.WorkPackage
  entropy : Option Octets
  authorizerOutput : Option Octets
  workItemIndex : Option ℕ
  workItemSegs : Option (List (List Octets))
  extrinsics : Option (List (List Octets))
  accumulationInputs : Option (List Octets)

/-- The widths of the constants, in the order in which they are encoded. -/
def constantWidths : List ℕ :=
  [8, 8, 8, 2, 4, 4, 8, 8, 8, 8, 2, 2, 2, 2, 4, 2, 2, 2, 2, 2, 2, 4, 4, 4, 4, 4, 4, 4, 4]

/-- The constants one after another. -/
def constBytes (codec : Codec) (constants : List ℕ) : Option Octets :=
  encodeItems (fun (width, value) => codec.uint width value) (constantWidths.zip constants)

/-- `serialize_work_item` -/
def serializeWorkItem (item : Refinement.WorkItem) : Option Octets := do
  let service ← encodeUint 4 item.service
  let refineGasLimit ← encodeUint 8 item.refineGasLimit
  let accumulateGasLimit ← encodeUint 8 item.accumulateGasLimit
  let exportCount ← encodeUint 2 item.exportCount
  let importSegments ← encodeUint 2 item.importSegments.length
  let extrinsic ← encodeUint 2 item.extrinsic.length
  let payload ← encodeUint 4 item.payload.length
  return service ++ item.codeHash.toList ++ refineGasLimit ++ accumulateGasLimit ++ exportCount ++
    importSegments ++ extrinsic ++ payload

/-- The work items of a package with their number. -/
def serializedWorkItems (codec : Codec) (items : List Refinement.WorkItem) : Option Octets := do
  let serialized ← encodeItems serializeWorkItem items
  return codec.varInt items.length ++ serialized

/-- An encoding; a value that does not fit its type raises. -/
def encoded (bytes : Option Octets) : Except RefineError (Option Octets) :=
  bytes.elim (.error .raised) fun bytes => .ok (some bytes)

/-- The entry of a list of lists, if there is one. -/
def entryAt (rows : Option (List (List Octets))) (i j : ℕ) : Option Octets := do
  let rows ← rows
  let row ← rows[i]?
  row[j]?

/-- An extrinsic of the own work item; an item that the list does not have raises. -/
def ownExtrinsic (F : FetchData) (j : ℕ) : Except RefineError (Option Octets) :=
  match F.extrinsics, F.workItemIndex with
  | some rows, some i => rows[i]?.elim (.error .raised) fun row => .ok row[j]?
  | _, _ => .ok none

/-- `bold_v`: what `fetch` finds under a selector and two indices. -/
def fetched (codec : Codec) (F : FetchData) (selector i j : ℕ) :
    Except RefineError (Option Octets) :=
  match selector, F.workPackage with
  | 0, _ => encoded (constBytes codec F.constants)
  | 1, _ => .ok F.entropy
  | 2, _ => .ok F.authorizerOutput
  | 3, _ => .ok (entryAt F.extrinsics i j)
  | 4, _ => ownExtrinsic F i
  | 5, _ => .ok (entryAt F.workItemSegs i j)
  | 6, _ => .ok (F.workItemIndex.bind fun own => entryAt F.workItemSegs own i)
  | 7, some package => encoded (package.toJamBytes codec)
  | 8, some package => .ok (some package.authorizerConfig)
  | 9, some package => .ok (some package.authorization)
  | 10, some package => encoded (package.context.toJamBytes codec)
  | 11, some package => encoded (serializedWorkItems codec package.items)
  | 12, some package => package.items[i]?.elim (.ok none) fun item => encoded (serializeWorkItem item)
  | 13, some package => .ok (package.items[i]?.map fun item => item.payload)
  | 14, _ => .ok (F.accumulationInputs.map codec.vec)
  | 15, _ => .ok (F.accumulationInputs.bind fun inputs => inputs[i]?)
  | _, _ => .ok none

/-- `FETCH_COSTS`: the base and the gas for 1024 octets, by selector. -/
def fetchCosts : List (ℕ × ℕ) :=
  [(390, 0), (103, 0), (80, 96), (85, 96), (85, 96), (171, 0), (171, 0), (85, 96), (84, 0), (88, 0),
    (111, 0), (317, 0), (250, 0), (95, 96), (287, 400), (355, 344)]

/-- `fetch_cost` -/
def fetchCost (s : CallInput B) : ℕ :=
  let (base, rate) := fetchCosts.getD (s.registers.get 10) (80, 0)
  base + gasCostForOctets rate (s.registers.get 9)

def hcFetch (codec : Codec) (F : FetchData) (s : CallInput B) :
    Except RefineError (CallOutput B) :=
  s.charged (fetchCost s) fun gasLimit => do
    let data ← fetched codec F (s.registers.get 10) (s.registers.get 11) (s.registers.get 12)
    s.deliver gasLimit false data (s.registers.get 7) (s.registers.get 8) (s.registers.get 9)

/-! ## Other numbers -/

/-- `hc_log`: the message that it reads goes to the logger. -/
def hcLog (s : CallInput B) : Except RefineError (CallOutput B) :=
  s.charged 1000 fun gasLimit => s.answer gasLimit HostCallResult.what.value

/-- `hc_not_found`: register 7 is written whether the gas suffices or not. -/
def hcNotFound (s : CallInput B) : Except RefineError (CallOutput B) := do
  let gasLimit : ℤ := s.gasLimit - 1000
  let out ← s.answer gasLimit HostCallResult.what.value
  return { out with exitCondition := if gasLimit < 0 then .outOfGas else .resume }

end HostCalls
