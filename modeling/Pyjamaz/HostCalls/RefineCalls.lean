import Pyjamaz.HostCalls.General

/-!
# Calls of a refinement

A refinement exports segments and runs machines of its own.  The context has both: the segments in
their order, and the inner machines under the numbers 0 to 62.  `invoke` is in a file of its own.
-/

namespace HostCalls

open Pvm Services Octets

variable {B : Backend}

/-- `RefineInvocationContext` -/
structure RefineContext (B : Backend) where
  innerPvmLookup : ℕ → Option (InnerMachine B)
  exportSegments : List Octets

/-- The output of a call and the context after it. -/
abbrev RefineResult (B : Backend) := Except RefineError (CallOutput B × RefineContext B)

/-- The decorator `hostcall` around a call that changes the context. -/
def CallInput.chargedIn (s : CallInput B) (x : RefineContext B) (cost : ℕ)
    (body : ℤ → RefineResult B) : RefineResult B :=
  let gasLimit : ℤ := s.gasLimit - cost
  if gasLimit < 0 then .ok (s.output .outOfGas gasLimit, x) else body gasLimit

/-- Resume with a value in register 7 and a new context. -/
def CallInput.answerIn (s : CallInput B) (gasLimit : ℤ) (value : ℕ) (x : RefineContext B) :
    RefineResult B := do
  let out ← s.answer gasLimit value
  return (out, x)

/-- Nothing but a panic. -/
def CallInput.panicIn (s : CallInput B) (gasLimit : ℤ) (x : RefineContext B) : RefineResult B :=
  .ok (s.output .panic gasLimit, x)

/-! ## Exports -/

/-- `ljust`: filled up with zeros on the right. -/
def padded (data : Octets) (size : ℕ) : Octets := data ++ List.replicate (size - data.length) 0

def hcExport (exportSegmentOffset : ℕ) (s : CallInput B) (x : RefineContext B) : RefineResult B :=
  s.chargedIn x 3521 fun gasLimit => do
    let p := s.registers.get 7
    let z := min (s.registers.get 8) Refinement.ecSegmentSize
    if !(B.access.layout s.memory).isReadable p z then s.panicIn gasLimit x
    else do
      let dataSegment ← orRaise (B.access.readBytes s.memory p z)
      let n := exportSegmentOffset + x.exportSegments.length
      if Refinement.maximumNumberExportsWorkPackage ≤ n then
        s.answerIn gasLimit HostCallResult.full.value x
      else s.answerIn gasLimit n { x with
        exportSegments := x.exportSegments ++ [padded dataSegment Refinement.ecSegmentSize] }

/-! ## Inner machines -/

/-- The numbers below 63 without a machine. -/
def freeNumbers (x : RefineContext B) : List ℕ :=
  (List.range 63).filter fun n => (x.innerPvmLookup n).isNone

/-- The memory of a new machine: `type(memory)()`. -/
def emptyMemory : (B : Backend) → B.Memory
  | .graypaper => Graypaper.Memory.empty
  | .cpython | .numba _ => CPython.Memory.empty

/-- The program that is to run, if it can be read. -/
def readProgram (s : CallInput B) : Except RefineError (Option Octets) :=
  if (B.access.layout s.memory).isReadable (s.registers.get 7) (s.registers.get 8) then
    (orRaise (B.access.readBytes s.memory (s.registers.get 7) (s.registers.get 8))).map some
  else .ok none

/-- `hc_machine` once the program is read.  All machines have numbers below 63, so there are 63 of them
when none of these is free. -/
def startMachine (deblob : Octets → Option PVMCode) (s : CallInput B) (x : RefineContext B)
    (gasLimit : ℤ) (programBlob : Option Octets) : RefineResult B :=
  let i := s.registers.get 9
  match freeNumbers x with
  | [] => s.answerIn gasLimit HostCallResult.full.value x
  | n :: _ =>
    match programBlob, programBlob.bind deblob with
    | none, _ => s.panicIn gasLimit x
    | some _, none => s.answerIn gasLimit HostCallResult.huh.value x
    | some _, some code =>
      if !(code.valid && (code.instArgLen i).isSome) then
        s.answerIn gasLimit HostCallResult.huh.value x
      else s.answerIn gasLimit n { x with
        innerPvmLookup :=
          Function.update x.innerPvmLookup n (some ⟨⟨i, false⟩, code, emptyMemory B⟩) }

/-- `hc_machine`; `deblob` is `PVMCode.from_jam_bytes`. -/
def hcMachine (deblob : Octets → Option PVMCode) (s : CallInput B) (x : RefineContext B) :
    RefineResult B :=
  s.chargedIn x (1862 + gasCostForOctets 112 (s.registers.get 8)) fun gasLimit => do
    let programBlob ← readProgram s
    startMachine deblob s x gasLimit programBlob

def hcPeek (s : CallInput B) (x : RefineContext B) : RefineResult B :=
  s.chargedIn x (377 + gasCostForOctets 336 (s.registers.get 10)) fun gasLimit =>
    let o := s.registers.get 8
    let i := s.registers.get 9
    let z := s.registers.get 10
    if !(B.access.layout s.memory).isWritable o z then s.panicIn gasLimit x
    else match x.innerPvmLookup (s.registers.get 7) with
      | none => s.answerIn gasLimit HostCallResult.who.value x
      | some inner =>
        if !(B.access.layout inner.memory).isReadable i z then
          s.answerIn gasLimit HostCallResult.oob.value x
        else do
          let data ← orRaise (B.access.readBytes inner.memory i z)
          let memory ← orRaise (B.access.writeBytes s.memory o data)
          let out ← s.answer gasLimit HostCallResult.ok.value
          return ({ out with memory := memory }, x)

def hcPoke (s : CallInput B) (x : RefineContext B) : RefineResult B :=
  s.chargedIn x (297 + gasCostForOctets 224 (s.registers.get 10)) fun gasLimit =>
    let n := s.registers.get 7
    let i := s.registers.get 8
    let o := s.registers.get 9
    let z := s.registers.get 10
    if !(B.access.layout s.memory).isReadable i z then s.panicIn gasLimit x
    else match x.innerPvmLookup n with
      | none => s.answerIn gasLimit HostCallResult.who.value x
      | some inner =>
        if !(B.access.layout inner.memory).isWritable o z then
          s.answerIn gasLimit HostCallResult.oob.value x
        else do
          let data ← orRaise (B.access.readBytes s.memory i z)
          let memory ← orRaise (B.access.writeBytes inner.memory o data)
          s.answerIn gasLimit HostCallResult.ok.value { x with
            innerPvmLookup :=
              Function.update x.innerPvmLookup n (some { inner with memory := memory }) }

/-- `pages_cost`; an unknown mode has a fixed price. -/
def pagesCost (s : CallInput B) : ℕ :=
  let count := s.registers.get 9
  match s.registers.get 10 with
  | 0 => 212 + 118 * count
  | 1 | 2 => 275 + 121 * count
  | 3 | 4 => 130 + 29 * count
  | _ => 80

/-- `hc_pages` on a memory. -/
def setPages : (B : Backend) → B.Memory → ℕ → ℕ → ℕ → B.Memory
  | .graypaper, (m : Graypaper.Memory), p, c, r => m.hcPages p c r
  | .cpython, (m : CPython.Memory), p, c, r => m.hcPages p c r
  | .numba _, (m : CPython.Memory), p, c, r => m.hcPages p c r

def hcPages (s : CallInput B) (x : RefineContext B) : RefineResult B :=
  s.chargedIn x (pagesCost s) fun gasLimit =>
    let n := s.registers.get 7
    let p := s.registers.get 8
    let c := s.registers.get 9
    let r := s.registers.get 10
    match x.innerPvmLookup n with
    | none => s.answerIn gasLimit HostCallResult.who.value x
    | some inner =>
      if !(B.access.layout inner.memory).pagesAllowed p c r then
        s.answerIn gasLimit HostCallResult.huh.value x
      else
        let inner := { inner with memory := setPages B inner.memory p c r }
        s.answerIn gasLimit HostCallResult.ok.value { x with
          innerPvmLookup := Function.update x.innerPvmLookup n (some inner) }

def hcExpunge (s : CallInput B) (x : RefineContext B) : RefineResult B :=
  s.chargedIn x 335 fun gasLimit =>
    let n := s.registers.get 7
    match x.innerPvmLookup n with
    | none => s.answerIn gasLimit HostCallResult.who.value x
    | some inner => s.answerIn gasLimit inner.programCounter { x with
        innerPvmLookup := Function.update x.innerPvmLookup n none }

/-- `hc_invoke`, as a call with a context. -/
def invokeIn (decode : PVMCode → Decode) (gm : PVMCode → GasModel) (fuel : ℕ) (s : CallInput B)
    (x : RefineContext B) : Option (RefineResult B) :=
  (hcInvoke decode gm fuel ⟨s.registers, s.memory, s.gasLimit, x.innerPvmLookup⟩).map
    (Except.map fun out => (⟨out.exitCondition, out.gasLimit, out.registers, out.memory⟩,
      { x with innerPvmLookup := out.innerPvmLookup }))

end HostCalls
