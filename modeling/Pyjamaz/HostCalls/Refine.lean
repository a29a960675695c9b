import Pyjamaz.HostCalls.Context
import Pyjamaz.Pvm.BlockGasPruning
import Pyjamaz.Pvm.DataAccess

/-!
# Running an inner machine

`hc_invoke` runs a machine inside a machine.  The frame in the outer memory brings the gas and the
registers of the inner machine and takes them back.  The decorator reserves the base cost and all the
requested gas, and what the inner run leaves is given back at the end.

The reason for which the inner run stopped goes into register 7, and the number of a host call or the
address of a page fault into register 8.  `registers` is the register array of the outer interpreter:
a list in CPython, and in the other two an array of `np.uint64`, which refuses a number outside its
range.  Numba hands the number of a host call over as a signed 64-bit integer.
-/

namespace HostCalls

open Pvm Octets

/-! ## The call -/

/-- `IntegratedPVM` -/
structure InnerMachine (B : Backend) extends IntegratedPVM where
  code : PVMCode
  memory : B.Memory

/-- What `hc_invoke` gets: the registers, the memory and the gas of the outer machine, and
`inner_pvm_lookup` of the context. -/
structure RefineInput (B : Backend) where
  registers : Regs
  memory : B.Memory
  gasLimit : ℕ
  innerPvmLookup : ℕ → Option (InnerMachine B)

/-- What it leaves: `InvocationMutationOutput` and the inner machines. -/
structure RefineOutput (B : Backend) where
  exitCondition : ExitReason
  gasLimit : ℤ
  registers : Fin 13 → ℤ
  memory : B.Memory
  innerPvmLookup : ℕ → Option (InnerMachine B)

/-- The ways in which the call can fail to answer: an exception, or a read outside an array in
compiled code. -/
inductive RefineError where
  | raised
  | undefined
  deriving DecidableEq, Repr

/-- `InnerPVMResult` -/
inductive InnerPVMResult where
  | halt
  | panic
  | fault
  | host
  | oog
  deriving DecidableEq, Repr

def InnerPVMResult.value : InnerPVMResult → ℕ
  | .halt => 0
  | .panic => 1
  | .fault => 2
  | .host => 3
  | .oog => 4

/-- `registers[r] = value` -/
def setRegister (B : Backend) (registers : Fin 13 → ℤ) (r : Fin 13) (value : ℤ) :
    Except RefineError (Fin 13 → ℤ) :=
  match B with
  | .cpython => .ok (Function.update registers r value)
  | .graypaper | .numba _ =>
    if 0 ≤ value ∧ value < 2 ^ 64 then .ok (Function.update registers r value) else .error .raised

/-- `int(n).to_bytes(8, 'little')` -/
def toBytes (n : ℕ) : Except RefineError Octets :=
  (encodeUint 8 n).elim (.error .raised) .ok

/-- An exception of the memory reaches the caller. -/
def orRaise {α : Type} : Except AccessError α → Except RefineError α :=
  Except.mapError fun _ => .raised

section Call

variable {B : Backend} (decode : PVMCode → Decode) (gm : PVMCode → GasModel)

/-- `M_K` -/
def invokeBaseCost : ℕ := 968

/-- The frame is 8 bytes of gas and 13 registers. -/
def frameSize : ℕ := 112

/-- `invoke_cost` -/
def invokeCost (s : RefineInput B) : Except AccessError ℕ := do
  let offset := s.registers.get 8
  if (B.access.layout s.memory).isWritable offset frameSize then
    let bytes ← B.access.readBytes s.memory offset 8
    return invokeBaseCost + ofLittleEndian bytes
  else return invokeBaseCost

/-- The registers in a frame. -/
def frameRegisters (frame : Octets) : Regs := fun r =>
  BitVec.ofNat 64 (ofLittleEndian (slice frame (8 + 8 * r) (16 + 8 * r)))

/-- `PVMInterpreter(PVMProgram(...))`: Numba builds its jump table as an array of `np.int32`. -/
def canBuild : Backend → PVMCode → Bool
  | .graypaper, _ | .cpython, _ => true
  | .numba _, p => (Numba.jumpTableArray p).isSome

/-- The new interpreter with the saved `gas_paid`. -/
def newInterpreter (inner : InnerMachine B) (frame : Octets) : Loop (MachineData B.Memory) where
  pc := 0
  gas := 0
  currentBlockStart := paidBlock inner.gasPaid
  skipLen := 0
  lookupBlock := true
  data := ⟨frameRegisters frame, inner.memory⟩

/-- `pvm.invoke(inner.program_counter, gas)` -/
def invokeInner (fuel : ℕ) (inner : InnerMachine B) (frame : Octets) :
    Option (Invocation (MachineData B.Memory)) :=
  B.invoke (B.access.dataPath (decode inner.code)) (gm inner.code) inner.code fuel
    (newInterpreter inner frame) inner.programCounter (ofLittleEndian (frame.take 8))

/-- The frame that is written back. -/
def frameBytes (gas : ℕ) (reg : Regs) : Except RefineError Octets := do
  let gas ← toBytes gas
  let registers ← (List.finRange 13).mapM (fun r => toBytes (reg.get r))
  return gas ++ registers.flatten

/-- `inner` after the run, at a program counter. -/
def InnerMachine.after (inner : InnerMachine B) (r : Invocation (MachineData B.Memory))
    (programCounter : ℕ) : InnerMachine B :=
  { inner with
    memory := r.self.data.mem
    gasPaid := r.self.gasPaid
    programCounter := programCounter }

/-- The results of an inner run: the entry of `outcomes`, `result.value` where it goes into
register 8, and the program counter to go on with. -/
def outcome (r : Invocation (MachineData B.Memory)) :
    Except RefineError (InnerPVMResult × Option ℤ × ℕ) :=
  match r.exit with
  | .hostHalt exitValue => .ok (.host, some exitValue, r.self.pc + r.self.skipLen)
  | .pageFault (some exitValue) => .ok (.fault, some exitValue, r.self.pc)
  | .outOfGas => .ok (.oog, none, r.self.pc)
  | .panic => .ok (.panic, none, 0)
  | .halt => .ok (.halt, none, 0)
  -- a page fault without an address cannot be converted to a number
  | .pageFault none | .raised => .error .raised
  | .undefined => .error .undefined

/-- `result.value` goes into register 8 after a host call and a page fault. -/
def reportValue (B : Backend) (registers : Fin 13 → ℤ) :
    Option ℤ → Except RefineError (Fin 13 → ℤ)
  | some value => setRegister B registers 8 value
  | none => .ok registers

/-- The lines of `hc_invoke` after the inner run. -/
def finishInvoke (s : RefineInput B) (gasLimit : ℤ) (n : ℕ) (inner : InnerMachine B)
    (r : Invocation (MachineData B.Memory)) : Except RefineError (RefineOutput B) := do
  let (result, value, programCounter) ← outcome r
  let frame ← frameBytes r.self.gas r.self.data.reg
  let memory ← orRaise (B.access.writeBytes s.memory (s.registers.get 8) frame)
  let registers ← setRegister B (fun i => s.registers.get i) 7 result.value
  let registers ← reportValue B registers value
  return {
    exitCondition := .resume
    gasLimit := gasLimit + r.self.gas
    registers := registers
    memory := memory
    innerPvmLookup := Function.update s.innerPvmLookup n (some (inner.after r programCounter)) }

/-- The output before anything was done. -/
def RefineInput.output (s : RefineInput B) (exitCondition : ExitReason) (gasLimit : ℤ) :
    RefineOutput B where
  exitCondition := exitCondition
  gasLimit := gasLimit
  registers := fun i => s.registers.get i
  memory := s.memory
  innerPvmLookup := s.innerPvmLookup

/-- `hc_invoke` under its decorator; `none` when the fuel for the inner run does not suffice. -/
def hcInvoke (fuel : ℕ) (s : RefineInput B) : Option (Except RefineError (RefineOutput B)) :=
  match invokeCost s with
  | .error _ => some (.error .raised)
  | .ok cost =>
    let gasLimit : ℤ := s.gasLimit - cost
    if gasLimit < 0 then some (.ok (s.output .outOfGas gasLimit))
    else
      let n := s.registers.get 7
      let o := s.registers.get 8
      if !(B.access.layout s.memory).isWritable o frameSize then
        some (.ok (s.output .panic gasLimit))
      else
        match s.innerPvmLookup n with
        | none =>
          some (do
            let registers ← setRegister B (fun i => s.registers.get i) 7 HostCallResult.who.value
            return { s.output .resume gasLimit with registers := registers })
        | some inner =>
          match B.access.readBytes s.memory o frameSize with
          | .error _ => some (.error .raised)
          | .ok frame =>
            if !canBuild B inner.code then some (.error .raised)
            else (invokeInner decode gm fuel inner frame).map (finishInvoke s gasLimit n inner)

end Call

/-! ## What the call should answer -/

/-- The number of the host call at a position: the immediate of the `ecalli`, sign-extended to a word
of 64 bits. -/
def callNumber (p : PVMCode) (pc : ℕ) : ℕ :=
  immediate p.code (pc + 1) (min 4 ((p.instArgLen pc).getD 0))

/-- The gas that a run of the inner machine consumes: the price of the blocks that it enters, the
first one only if it was not paid, and the fees of host calls served inside. -/
def consumedGas {B : Backend} (gm : PVMCode → GasModel) (inner : InnerMachine B)
    (r : Invocation (MachineData B.Memory)) : ℕ :=
  inner.code.blockCosts (gm inner.code) (entriesFrom (!inner.gasPaid) r.path) + hostGas r.path

section Answer

variable {B : Backend} (decode : PVMCode → Decode) (gm : PVMCode → GasModel)

/-- The frame that the call reads. -/
def RefineInput.frame (s : RefineInput B) : Octets :=
  Paged.read (B.access.byte s.memory) (s.registers.get 8) frameSize

/-- The gas that the inner machine is to get. -/
def RefineInput.requested (s : RefineInput B) : ℕ := ofLittleEndian (s.frame.take 8)

/-- Every memory in play is one that a machine can have. -/
structure RefineInput.Reachable (s : RefineInput B) : Prop where
  memory : B.HasMemory s.memory
  inner : ∀ n inner, s.innerPvmLookup n = some inner → B.HasMemory inner.memory

/-- The call runs an inner machine. -/
structure RefineInput.Runs (s : RefineInput B) (fuel : ℕ) (inner : InnerMachine B)
    (r : Invocation (MachineData B.Memory)) : Prop where
  lookup : s.innerPvmLookup (s.registers.get 7) = some inner
  writable : (B.access.layout s.memory).isWritable (s.registers.get 8) frameSize = true
  affordable : invokeBaseCost + s.requested ≤ s.gasLimit
  run : invokeInner decode gm fuel inner s.frame = some r

/-- The call answers as it should: it charges the base cost and what the inner run consumed, the gas
written back and the gas consumed make up the gas requested, and register 8 is the number of the host
call or the address of the fault. -/
structure Answered (s : RefineInput B) (inner : InnerMachine B)
    (r : Invocation (MachineData B.Memory)) (out : RefineOutput B) : Prop where
  resumes : out.exitCondition = .resume
  charged : out.gasLimit = s.gasLimit - (invokeBaseCost + consumedGas gm inner r : ℕ)
  nonneg : 0 ≤ out.gasLimit
  writtenBack : ∃ bytes, B.access.readBytes out.memory (s.registers.get 8) 8 = .ok bytes ∧
    ofLittleEndian bytes + consumedGas gm inner r = s.requested
  hostHalt : ∀ v, r.exit = .hostHalt v → out.registers 8 = callNumber inner.code r.self.pc
  pageFault : ∀ v, r.exit = .pageFault v →
    ∃ addr : ℕ, v = some (addr : ℤ) ∧ addr < 2 ^ 64 ∧ out.registers 8 = addr

/-- Whether the compiled interpreter runs the machines. -/
def isNumba : Backend → Bool
  | .numba _ => true
  | .graypaper | .cpython => false

/-- The runs that Numba gives an answer to: no instruction raises or reads outside an array, the jump
table of the machine fits into an array of `np.int32`, and the number of a host call reads as a signed
number that is not negative. -/
def Representable (B : Backend) (p : PVMCode) (exit : Exit) (pc : ℕ) : Prop :=
  isNumba B = true → exit.Answers ∧ (∀ e ∈ p.jumpTable, e < 2 ^ 31) ∧
    ((∃ v, exit = .hostHalt v) → callNumber p pc < 2 ^ 63)

end Answer

/-! ## Host calls and faults of the inner machine -/

lemma callNumber_eq {p : PVMCode} {pc argLen : ℕ} (h : p.instArgLen pc = some argLen) :
    callNumber p pc = immediate p.code (pc + 1) (min 4 argLen) := by
  rw [callNumber, h]
  rfl

lemma callNumber_lt (p : PVMCode) (pc : ℕ) : callNumber p pc < 2 ^ 64 :=
  immediate_lt p.code (pc + 1) (min_le_left _ _)

/-- The exit value of a host call: the number itself, or the same word read as a signed number. -/
lemma exitValue_of_ecalli {B : Backend} {p : PVMCode} {pc argLen : ℕ} {reg : Regs} {v : ℤ}
    (hlen : p.instArgLen pc = some argLen)
    (h : (B.controlStep p pc argLen reg .ecalli).next = .hostHalt v) :
    v = if isNumba B then TwosComplement.signed 64 (callNumber p pc) else callNumber p pc := by
  have hmin : min 4 argLen ≤ 4 := min_le_left _ _
  rw [callNumber_eq hlen]
  cases B with
  | graypaper =>
    rw [Backend.controlStep, Graypaper.controlStep, Graypaper.withImmediate_eq _ _ hmin] at h
    exact (Next.hostHalt.inj h).symm
  | cpython =>
    rw [Backend.controlStep, CPython.controlStep, CPython.readImmediate_eq _ _ hmin] at h
    exact (Next.hostHalt.inj h).symm
  | numba _ =>
    rw [Backend.controlStep, Numba.controlStep] at h
    split at h
    · cases h
    · rw [Numba.readImmediate_eq _ _ hmin] at h
      exact (Next.hostHalt.inj h).symm

/-- A word below `2 ^ 63` is its own signed value, and no other word has one that is not negative. -/
lemma signed_nonneg_iff {n : ℕ} (hn : n < 2 ^ 64) :
    0 ≤ TwosComplement.signed 64 n ↔ n < 2 ^ 63 := by
  rw [TwosComplement.signed]
  split <;> omega

/-- The value of a page fault is an address of the space. -/
lemma faultExit_eq_pageFault {a : ℤ} {v : Option ℤ} (h0 : 0 ≤ a) (ha : a < 2 ^ 32)
    (h : faultExit (some a) = .pageFault v) : ∃ addr : ℕ, v = some (addr : ℤ) ∧ addr < 2 ^ 32 := by
  rw [faultExit, if_neg (not_lt.mpr h0)] at h
  split at h
  · cases h
  · cases h
    refine ⟨(a - a % 4096).toNat, ?_, by omega⟩
    rw [Int.toNat_of_nonneg (by omega)]

section Inner

variable {B : Backend} {decode : PVMCode → Decode} {gm : PVMCode → GasModel}

/-- What is known of an inner run from the way it ended. -/
lemma invokeInner_ended {fuel : ℕ} {inner : InnerMachine B} {frame : Octets}
    {r : Invocation (MachineData B.Memory)} (hmemory : B.HasMemory inner.memory)
    (h : invokeInner decode gm fuel inner frame = some r) :
    (∀ v, r.exit = .hostHalt v → v = if isNumba B then
      TwosComplement.signed 64 (callNumber inner.code r.self.pc)
      else callNumber inner.code r.self.pc) ∧
    ∀ v, r.exit = .pageFault v → ∃ addr : ℕ, v = some (addr : ℤ) ∧ addr < 2 ^ 32 := by
  have hlawful := B.access_lawful
  have hended := B.invoke_ended (gm inner.code) (hlawful.keeps (decode inner.code))
    hmemory.wellFormed h
  refine ⟨?_, ?_⟩
  · intro v hv
    obtain ⟨argLen, reg, hfetch, hnext⟩ := hended.hostHalt v hv
    exact exitValue_of_ecalli (PVMCode.fetch_eq_some.mp hfetch).1 hnext
  · intro v hv
    obtain ⟨opcode, pc, argLen, data, addr, data', hdata, hrun, hexit⟩ := hended.pageFault v hv
    obtain ⟨a, rfl, h0, ha⟩ := hlawful.perform_fault hdata hrun
    exact faultExit_eq_pageFault h0 ha hexit

/-- Only compiled code raises or reads outside an array. -/
lemma invokeInner_answers (hB : isNumba B = false) {fuel : ℕ} {inner : InnerMachine B}
    {frame : Octets} {r : Invocation (MachineData B.Memory)}
    (h : invokeInner decode gm fuel inner frame = some r) : r.exit.Answers := by
  have hcases : B = .graypaper ∨ B = .cpython := by
    cases B with
    | graypaper => exact .inl rfl
    | cpython => exact .inr rfl
    | numba _ => cases hB
  have hcatches : B.access.catches = true := by
    rcases hcases with rfl | rfl <;> rfl
  exact Backend.invoke_answers hcases (MemoryAccess.catches_dataPath hcatches (decode inner.code)) _ h

/-- The gas left and the gas consumed make up the gas given. -/
lemma invokeInner_gas {fuel : ℕ} {inner : InnerMachine B} {frame : Octets}
    {r : Invocation (MachineData B.Memory)} (h : invokeInner decode gm fuel inner frame = some r) :
    r.self.gas + consumedGas gm inner r = ofLittleEndian (frame.take 8) := by
  rw [consumedGas, ← Nat.add_assoc]
  by_cases hvalid : inner.code.valid = true
  · have hpays := B.invoke_pays _ _ hvalid h
    simp only [Loop.gasPaid, newInterpreter, isSome_paidBlock] at hpays
    exact hpays.gas_eq
  · rw [invokeInner, Backend.invoke, if_neg (fun hstart => hvalid hstart.1)] at h
    obtain rfl := Option.some.inj h
    rfl

/-- The inner run and the change of the inner machine are one step of the driver whose runs
`Pvm.Session` describes. -/
lemma invokeInner_driver {fuel : ℕ} {inner : InnerMachine B} {frame : Octets}
    {r : Invocation (MachineData B.Memory)} (h : invokeInner decode gm fuel inner frame = some r)
    {result : InnerPVMResult} {value : Option ℤ} {programCounter : ℕ}
    (houtcome : outcome r = .ok (result, value, programCounter)) :
    Pvm.hcInvoke B (B.access.dataPath (decode inner.code)) (gm inner.code) inner.code fuel
      inner.toIntegratedPVM (ofLittleEndian (frame.take 8))
      ⟨frameRegisters frame, inner.memory⟩ =
        some (r, (inner.after r programCounter).toIntegratedPVM) := by
  rw [Pvm.hcInvoke]
  refine Option.bind_eq_some_iff.mpr ⟨r, h, ?_⟩
  cases hexit : r.exit with
  | hostHalt v | halt | panic | outOfGas =>
    rw [outcome, hexit] at houtcome
    cases houtcome
    rfl
  | pageFault v =>
    rw [outcome, hexit] at houtcome
    cases v <;> cases houtcome
    rfl
  | raised | undefined =>
    rw [outcome, hexit] at houtcome
    cases houtcome

/-- Every inner run ends. -/
lemma exists_invokeInner (decode : PVMCode → Decode) (gm : PVMCode → GasModel)
    (inner : InnerMachine B) (frame : Octets) :
    ∃ fuel, (invokeInner decode gm fuel inner frame).isSome :=
  ⟨_, B.invoke_isSome _ _ _ _ _ _ le_rfl⟩

end Inner

/-! ## The frame -/

lemma toBytes_of_lt {n : ℕ} (h : n < 2 ^ 64) : toBytes n = .ok (littleEndian 8 n) := by
  have hlt : (n : ℤ) < 2 ^ (8 * 8) := by
    norm_num
    omega
  have hencode : encodeUint 8 n = some (littleEndian 8 n) := by
    rw [encodeUint, if_pos ⟨Int.natCast_nonneg n, hlt⟩, Int.toNat_natCast]
  rw [toBytes, hencode, Option.elim_some]

lemma mapM_toBytes (reg : Regs) (rs : List (Fin 13)) :
    rs.mapM (fun r => toBytes (reg.get r)) = .ok (rs.map (fun r => littleEndian 8 (reg.get r))) := by
  induction rs with
  | nil => rfl
  | cons r rs ih =>
    rw [List.mapM_cons, ih, toBytes_of_lt (reg.get_lt r)]
    rfl

/-- The frame of a run whose gas fits begins with the gas and is as long as the old one. -/
lemma frameBytes_of_lt {gas : ℕ} (h : gas < 2 ^ 64) (reg : Regs) :
    ∃ frame, frameBytes gas reg = .ok frame ∧ frame.length = frameSize ∧
      frame.take 8 = littleEndian 8 gas := by
  refine ⟨littleEndian 8 gas ++
    ((List.finRange 13).map (fun r => littleEndian 8 (reg.get r))).flatten, ?_, ?_, ?_⟩
  · rw [frameBytes, toBytes_of_lt h, mapM_toBytes]
    rfl
  · simp [frameSize, Function.comp_def]
  · rw [List.take_left' (length_littleEndian 8 gas)]

lemma setRegister_of_lt {B : Backend} (registers : Fin 13 → ℤ) (r : Fin 13) {value : ℕ}
    (h : value < 2 ^ 64) :
    setRegister B registers r value = .ok (Function.update registers r (value : ℤ)) := by
  have hrange : 0 ≤ (value : ℤ) ∧ (value : ℤ) < 2 ^ 64 := by omega
  cases B with
  | cpython => rfl
  | graypaper | numba _ => rw [setRegister, if_pos hrange]

lemma setRegister_neg {B : Backend} (hB : isNumba B = true) (registers : Fin 13 → ℤ) (r : Fin 13)
    {value : ℤ} (h : value < 0) : setRegister B registers r value = .error .raised := by
  cases B with
  | graypaper | cpython => cases hB
  | numba _ => rw [setRegister, if_neg (fun hrange => by omega)]

lemma InnerPVMResult.value_lt (result : InnerPVMResult) : result.value < 2 ^ 64 := by
  cases result <;> decide

/-! ## The answer -/

section Answer

variable {B : Backend} {decode : PVMCode → Decode} {gm : PVMCode → GasModel}

lemma invokeCost_eq {s : RefineInput B} (hs : s.Reachable)
    (h : (B.access.layout s.memory).isWritable (s.registers.get 8) frameSize = true) :
    invokeCost s = .ok (invokeBaseCost + s.requested) := by
  have hread := B.access_lawful.readBytes (n := 8) hs.memory.wellFormed (by decide) (by decide) h
  rw [invokeCost]
  simp only [h, if_true, hread, Except.ok_bind]
  rw [RefineInput.requested, RefineInput.frame, Paged.take_read _ _ (by decide)]
  rfl

/-- A machine can be built when Numba has room for the entries of its jump table. -/
lemma canBuild_iff (B : Backend) (p : PVMCode) :
    canBuild B p = true ↔ (isNumba B = true → ∀ e ∈ p.jumpTable, e < 2 ^ 31) := by
  cases B with
  | graypaper | cpython => exact iff_of_true rfl nofun
  | numba _ =>
    rw [canBuild]
    by_cases h : ∀ e ∈ p.jumpTable, e < 2 ^ 31
    · rw [Numba.jumpTableArray_of_lt p h]
      exact iff_of_true rfl (fun _ => h)
    · rw [Numba.jumpTableArray_of_not_lt p h]
      exact iff_of_false nofun (fun htable => h (htable rfl))

/-- A call that runs an inner machine answers with what comes after the run, if the machine can be
built. -/
lemma hcInvoke_eq {s : RefineInput B} (hs : s.Reachable) {fuel : ℕ} {inner : InnerMachine B}
    {r : Invocation (MachineData B.Memory)} (h : s.Runs decode gm fuel inner r) :
    hcInvoke decode gm fuel s = some (if canBuild B inner.code then
      finishInvoke s (s.gasLimit - (invokeBaseCost + s.requested : ℕ)) (s.registers.get 7) inner r
      else .error .raised) := by
  have hread := B.access_lawful.readBytes (n := frameSize) hs.memory.wellFormed (by decide) le_rfl
    h.writable
  have hgas : ¬ (s.gasLimit : ℤ) - (invokeBaseCost + s.requested : ℕ) < 0 := by
    have := h.affordable
    omega
  have hrun := h.run
  rw [RefineInput.frame] at hrun
  rw [hcInvoke, invokeCost_eq hs h.writable]
  simp only [if_neg hgas, h.writable, h.lookup, hread, hrun, Bool.not_true, Bool.false_eq_true,
    if_false, Option.map_some]
  cases canBuild B inner.code <;> rfl

/-- What comes after a run: everything succeeds but the write to register 8, which may be refused. -/
lemma finishInvoke_eq {s : RefineInput B} (hs : s.Reachable) {fuel : ℕ} {inner : InnerMachine B}
    {r : Invocation (MachineData B.Memory)} (h : s.Runs decode gm fuel inner r) (gasLimit : ℤ)
    {result : InnerPVMResult} {value : Option ℤ} {programCounter : ℕ}
    (houtcome : outcome r = .ok (result, value, programCounter)) :
    ∃ memory registers,
      (∃ bytes, B.access.readBytes memory (s.registers.get 8) 8 = .ok bytes ∧
        ofLittleEndian bytes = r.self.gas) ∧
      finishInvoke s gasLimit (s.registers.get 7) inner r = (do
        let registers ← reportValue B registers value
        return {
          exitCondition := .resume
          gasLimit := gasLimit + r.self.gas
          registers := registers
          memory := memory
          innerPvmLookup := Function.update s.innerPvmLookup (s.registers.get 7)
            (some (inner.after r programCounter)) }) := by
  have hwf := hs.memory.wellFormed
  have hgas : r.self.gas < 2 ^ 64 := by
    have hbalance := invokeInner_gas h.run
    have hlt := ofLittleEndian_lt (s.frame.take 8)
    rw [RefineInput.frame, Paged.take_read _ _ (by decide), Paged.length_read] at hlt
    rw [RefineInput.frame, Paged.take_read _ _ (by decide)] at hbalance
    norm_num at hlt
    omega
  obtain ⟨frame, hframe, hlength, htake⟩ := frameBytes_of_lt hgas r.self.data.reg
  have hne : frame ≠ [] := by
    rw [← List.length_pos_iff, hlength]
    decide
  have hwritable := h.writable
  rw [← hlength] at hwritable
  obtain ⟨memory, hwrite, hlayout, hbyte⟩ := B.access_lawful.writeBytes hwf hne hwritable
  refine ⟨memory, Function.update (fun i => (s.registers.get i : ℤ)) 7 (result.value : ℤ), ?_, ?_⟩
  · rw [← hlayout] at hwf hwritable
    have hread := B.access_lawful.readBytes (n := 8) hwf (by decide) (by rw [hlength]; decide)
      hwritable
    rw [hbyte, Paged.read_write_take _ _ (by rw [hlength]; decide), htake] at hread
    exact ⟨_, hread, ofLittleEndian_littleEndian 8 hgas⟩
  · rw [finishInvoke]
    simp only [houtcome, hframe, hwrite, orRaise, Except.mapError, Except.ok_bind,
      setRegister_of_lt _ _ result.value_lt]

/-- The answer once register 8 is written. -/
lemma answered_of_registers {s : RefineInput B} {fuel : ℕ} {inner : InnerMachine B}
    {r : Invocation (MachineData B.Memory)} (h : s.Runs decode gm fuel inner r) {memory : B.Memory}
    (hwritten : ∃ bytes, B.access.readBytes memory (s.registers.get 8) 8 = .ok bytes ∧
      ofLittleEndian bytes = r.self.gas) (registers : Fin 13 → ℤ)
    (innerPvmLookup : ℕ → Option (InnerMachine B))
    (hhost : ∀ v, r.exit = .hostHalt v → registers 8 = callNumber inner.code r.self.pc)
    (hfault : ∀ v, r.exit = .pageFault v →
      ∃ addr : ℕ, v = some (addr : ℤ) ∧ addr < 2 ^ 64 ∧ registers 8 = addr) :
    Answered gm s inner r {
      exitCondition := .resume
      gasLimit := s.gasLimit - (invokeBaseCost + s.requested : ℕ) + r.self.gas
      registers := registers
      memory := memory
      innerPvmLookup := innerPvmLookup } := by
  have hbalance : r.self.gas + consumedGas gm inner r = s.requested := invokeInner_gas h.run
  have haffordable := h.affordable
  obtain ⟨bytes, hread, hbytes⟩ := hwritten
  refine ⟨rfl, ?_, ?_, ⟨bytes, hread, by omega⟩, hhost, hfault⟩
  · simp only
    omega
  · simp only
    omega

/-- A run that ends without a number to report is answered. -/
lemma answers_of_quiet {s : RefineInput B} (hs : s.Reachable) {fuel : ℕ} {inner : InnerMachine B}
    {r : Invocation (MachineData B.Memory)} (h : s.Runs decode gm fuel inner r)
    (hhost : ∀ v, r.exit ≠ .hostHalt v) (hfault : ∀ v, r.exit ≠ .pageFault v)
    {result : InnerPVMResult} {programCounter : ℕ}
    (houtcome : outcome r = .ok (result, none, programCounter)) :
    ∃ out, finishInvoke s (s.gasLimit - (invokeBaseCost + s.requested : ℕ)) (s.registers.get 7)
      inner r = .ok out ∧ Answered gm s inner r out := by
  obtain ⟨memory, registers, hwritten, hfinish⟩ := finishInvoke_eq hs h _ houtcome
  exact ⟨_, hfinish, answered_of_registers h hwritten registers _
    (fun v hv => absurd hv (hhost v)) (fun v hv => absurd hv (hfault v))⟩

/-- A run that ends at an unmapped page is answered with the address of the page. -/
lemma answers_of_pageFault {s : RefineInput B} (hs : s.Reachable) {fuel : ℕ}
    {inner : InnerMachine B} {r : Invocation (MachineData B.Memory)}
    (h : s.Runs decode gm fuel inner r) {v : Option ℤ} (hexit : r.exit = .pageFault v) :
    ∃ out, finishInvoke s (s.gasLimit - (invokeBaseCost + s.requested : ℕ)) (s.registers.get 7)
      inner r = .ok out ∧ Answered gm s inner r out := by
  obtain ⟨addr, rfl, haddr⟩ := (invokeInner_ended (hs.inner _ _ h.lookup) h.run).2 v hexit
  obtain ⟨memory, registers, hwritten, hfinish⟩ := finishInvoke_eq hs h
    (s.gasLimit - (invokeBaseCost + s.requested : ℕ))
    (show outcome r = .ok (.fault, some (addr : ℤ), r.self.pc) by rw [outcome, hexit])
  rw [reportValue, setRegister_of_lt registers 8 (by omega)] at hfinish
  refine ⟨_, hfinish, answered_of_registers h hwritten _ _ ?_ ?_⟩
  · intro v hv
    rw [hexit] at hv
    cases hv
  · intro v hv
    rw [hexit] at hv
    cases hv
    exact ⟨addr, rfl, by omega, Function.update_self ..⟩

/-- A run that ends at a host call is answered unless Numba hands out a negative number for it. -/
lemma answers_iff_of_hostHalt {s : RefineInput B} (hs : s.Reachable) {fuel : ℕ}
    {inner : InnerMachine B} {r : Invocation (MachineData B.Memory)}
    (h : s.Runs decode gm fuel inner r) {v : ℤ} (hexit : r.exit = .hostHalt v) :
    (∃ out, finishInvoke s (s.gasLimit - (invokeBaseCost + s.requested : ℕ)) (s.registers.get 7)
        inner r = .ok out ∧ Answered gm s inner r out) ↔
      (isNumba B = true → callNumber inner.code r.self.pc < 2 ^ 63) := by
  have hv := (invokeInner_ended (hs.inner _ _ h.lookup) h.run).1 v hexit
  have hnumber := callNumber_lt inner.code r.self.pc
  obtain ⟨memory, registers, hwritten, hfinish⟩ := finishInvoke_eq hs h
    (s.gasLimit - (invokeBaseCost + s.requested : ℕ))
    (show outcome r = .ok (.host, some v, r.self.pc + r.self.skipLen) by rw [outcome, hexit])
  by_cases hneg : isNumba B = true ∧ 2 ^ 63 ≤ callNumber inner.code r.self.pc
  · -- the signed number is negative, and the register array refuses it
    have hlt : v < 0 := by
      rw [hv, if_pos hneg.1, ← not_le, signed_nonneg_iff hnumber]
      omega
    rw [reportValue, setRegister_neg hneg.1 registers 8 hlt] at hfinish
    refine iff_of_false ?_ ?_
    · rintro ⟨out, hok, -⟩
      rw [hfinish] at hok
      cases hok
    · intro hcond
      have := hcond hneg.1
      omega
  · have hnat : v = (callNumber inner.code r.self.pc : ℤ) := by
      rw [hv]
      split
      · next hnumba =>
        rw [TwosComplement.signed, if_pos]
        by_contra hle
        exact hneg ⟨hnumba, by omega⟩
      · rfl
    rw [hnat, reportValue, setRegister_of_lt registers 8 hnumber] at hfinish
    refine iff_of_true ⟨_, hfinish, answered_of_registers h hwritten _ _ ?_ ?_⟩ ?_
    · intro v' _
      exact Function.update_self ..
    · intro v' hv'
      rw [hexit] at hv'
      cases hv'
    · intro hnumba
      by_contra hle
      exact hneg ⟨hnumba, by omega⟩

/-- A run that raised is not answered. -/
lemma not_answers_of_raised {s : RefineInput B} {inner : InnerMachine B} {gasLimit : ℤ} {n : ℕ}
    {r : Invocation (MachineData B.Memory)} (h : ¬ r.exit.Answers) (out : RefineOutput B) :
    finishInvoke s gasLimit n inner r ≠ .ok out := by
  have houtcome : ∃ e, outcome r = .error e := by
    rw [outcome]
    cases hexit : r.exit with
    | raised => exact ⟨.raised, rfl⟩
    | undefined => exact ⟨.undefined, rfl⟩
    | halt | panic | outOfGas | pageFault v | hostHalt v =>
      rw [hexit] at h
      exact absurd ⟨nofun, nofun⟩ h
  obtain ⟨e, houtcome⟩ := houtcome
  rw [finishInvoke, houtcome]
  exact nofun

/-- A call on a machine that can be built answers as it should exactly when Numba, if it is Numba,
raises nothing and hands out the number of a host call as a number that is not negative. -/
lemma answered_iff_of_canBuild {s : RefineInput B} (hs : s.Reachable) {fuel : ℕ}
    {inner : InnerMachine B} {r : Invocation (MachineData B.Memory)}
    (h : s.Runs decode gm fuel inner r) :
    (∃ out, finishInvoke s (s.gasLimit - (invokeBaseCost + s.requested : ℕ)) (s.registers.get 7)
        inner r = .ok out ∧ Answered gm s inner r out) ↔
      (isNumba B = true → r.exit.Answers ∧
        ((∃ v, r.exit = .hostHalt v) → callNumber inner.code r.self.pc < 2 ^ 63)) := by
  by_cases hanswers : r.exit.Answers
  · simp only [hanswers, true_and]
    -- only a run that ended at a host call can fail
    have hquiet : (∀ v, r.exit ≠ .hostHalt v) → isNumba B = true → (∃ v, r.exit = .hostHalt v) →
        callNumber inner.code r.self.pc < 2 ^ 63 := by
      rintro hhost - ⟨v, hv⟩
      exact absurd hv (hhost v)
    cases hexit : r.exit with
    | halt =>
      exact hexit ▸ iff_of_true (answers_of_quiet hs h (by simp [hexit]) (by simp [hexit])
        (show outcome r = .ok (.halt, none, 0) by rw [outcome, hexit])) (hquiet (by simp [hexit]))
    | panic =>
      exact hexit ▸ iff_of_true (answers_of_quiet hs h (by simp [hexit]) (by simp [hexit])
        (show outcome r = .ok (.panic, none, 0) by rw [outcome, hexit])) (hquiet (by simp [hexit]))
    | outOfGas =>
      exact hexit ▸ iff_of_true (answers_of_quiet hs h (by simp [hexit]) (by simp [hexit])
        (show outcome r = .ok (.oog, none, _) by rw [outcome, hexit])) (hquiet (by simp [hexit]))
    | raised => exact absurd hexit hanswers.1
    | undefined => exact absurd hexit hanswers.2
    | pageFault v =>
      exact hexit ▸ iff_of_true (answers_of_pageFault hs h hexit) (hquiet (by simp [hexit]))
    | hostHalt v =>
      rw [answers_iff_of_hostHalt hs h hexit]
      simp
  · refine iff_of_false ?_ (fun hcond => hanswers ?_)
    · rintro ⟨out, hok, -⟩
      exact not_answers_of_raised hanswers out hok
    · cases hB : isNumba B with
      | true => exact (hcond hB).1
      | false => exact invokeInner_answers hB h.run

/-- An answer resumes with what the inner machine left of the gas. -/
lemma finishInvoke_eq_ok {s : RefineInput B} {gasLimit : ℤ} {n : ℕ} {inner : InnerMachine B}
    {r : Invocation (MachineData B.Memory)} {out : RefineOutput B}
    (h : finishInvoke s gasLimit n inner r = .ok out) :
    out.exitCondition = .resume ∧ out.gasLimit = gasLimit + r.self.gas := by
  rw [finishInvoke] at h
  obtain ⟨x, -, h⟩ := Except.bind_eq_ok.mp h
  obtain ⟨frame, -, h⟩ := Except.bind_eq_ok.mp h
  obtain ⟨memory, -, h⟩ := Except.bind_eq_ok.mp h
  obtain ⟨registers, -, h⟩ := Except.bind_eq_ok.mp h
  obtain ⟨registers', -, h⟩ := Except.bind_eq_ok.mp h
  cases h
  exact ⟨rfl, rfl⟩

/-- An answer leaves the inner machine where the run ended. -/
lemma finishInvoke_after {s : RefineInput B} {gasLimit : ℤ} {n : ℕ} {inner : InnerMachine B}
    {r : Invocation (MachineData B.Memory)} {out : RefineOutput B}
    (h : finishInvoke s gasLimit n inner r = .ok out) :
    ∃ result value programCounter, outcome r = .ok (result, value, programCounter) ∧
      out.innerPvmLookup n = some (inner.after r programCounter) := by
  rw [finishInvoke] at h
  obtain ⟨⟨result, value, programCounter⟩, houtcome, h⟩ := Except.bind_eq_ok.mp h
  obtain ⟨frame, -, h⟩ := Except.bind_eq_ok.mp h
  obtain ⟨memory, -, h⟩ := Except.bind_eq_ok.mp h
  obtain ⟨registers, -, h⟩ := Except.bind_eq_ok.mp h
  obtain ⟨registers', -, h⟩ := Except.bind_eq_ok.mp h
  cases h
  exact ⟨result, value, programCounter, houtcome, Function.update_self ..⟩

/-- What a call that answers leaves of the inner machine is one step of a session. -/
lemma hcInvoke_after {s : RefineInput B} (hs : s.Reachable) {fuel : ℕ} {inner : InnerMachine B}
    {r : Invocation (MachineData B.Memory)} {out : RefineOutput B} (h : s.Runs decode gm fuel inner r)
    (hok : hcInvoke decode gm fuel s = some (.ok out)) :
    ∃ programCounter,
      out.innerPvmLookup (s.registers.get 7) = some (inner.after r programCounter) ∧
      Pvm.hcInvoke B (B.access.dataPath (decode inner.code)) (gm inner.code) inner.code fuel
          inner.toIntegratedPVM s.requested ⟨frameRegisters s.frame, inner.memory⟩ =
        some (r, (inner.after r programCounter).toIntegratedPVM) := by
  rw [hcInvoke_eq hs h] at hok
  by_cases hbuild : canBuild B inner.code = true
  · rw [if_pos hbuild] at hok
    obtain ⟨result, value, programCounter, houtcome, hleft⟩ := finishInvoke_after (Option.some.inj hok)
    exact ⟨programCounter, hleft, invokeInner_driver h.run houtcome⟩
  · rw [if_neg hbuild] at hok
    cases hok

/-- Whenever the call resumes, it leaves gas. -/
lemma nonneg_of_resume {fuel : ℕ} {s : RefineInput B} {out : RefineOutput B}
    (h : hcInvoke decode gm fuel s = some (.ok out)) (hresume : out.exitCondition = .resume) :
    0 ≤ out.gasLimit := by
  rw [hcInvoke] at h
  split at h
  · cases h
  · next cost _ =>
    simp only at h
    split at h
    · cases h
      cases hresume
    · next hgas =>
      split at h
      · cases h
        cases hresume
      · split at h
        · obtain ⟨registers, -, heq⟩ := Except.bind_eq_ok.mp (Option.some.inj h)
          cases heq
          exact not_lt.mp hgas
        · split at h
          · cases h
          · split at h
            · cases h
            · obtain ⟨r, -, hfinish⟩ := Option.map_eq_some_iff.mp h
              rw [(finishInvoke_eq_ok hfinish).2]
              omega

/-- The call ends, whatever the inner machine does. -/
lemma exists_hcInvoke (decode : PVMCode → Decode) (gm : PVMCode → GasModel) (s : RefineInput B) :
    ∃ fuel, (hcInvoke decode gm fuel s).isSome := by
  have hinner : ∃ fuel, ∀ inner frame, s.innerPvmLookup (s.registers.get 7) = some inner →
      B.access.readBytes s.memory (s.registers.get 8) frameSize = .ok frame →
      (invokeInner decode gm fuel inner frame).isSome := by
    cases hlookup : s.innerPvmLookup (s.registers.get 7) with
    | none => exact ⟨0, fun inner frame h => by cases h⟩
    | some inner =>
      cases hread : B.access.readBytes s.memory (s.registers.get 8) frameSize with
      | error e => exact ⟨0, fun inner frame _ h => by cases h⟩
      | ok frame =>
        obtain ⟨fuel, hfuel⟩ := exists_invokeInner decode gm inner frame
        refine ⟨fuel, fun inner' frame' h h' => ?_⟩
        cases h
        cases h'
        exact hfuel
  obtain ⟨fuel, hfuel⟩ := hinner
  refine ⟨fuel, ?_⟩
  rw [hcInvoke]
  split
  · rfl
  · simp only
    split
    · rfl
    · split
      · rfl
      · split
        · rfl
        · next inner hlookup =>
          split
          · rfl
          · next frame hread =>
            split
            · rfl
            · rw [Option.isSome_map]
              exact hfuel inner frame hlookup hread

/-- `hc_invoke` ends; where it resumes, the outer gas is not negative; and where it runs an inner
machine, it charges the base cost and the gas consumed, writes the rest back and reports the number
of the host call or the address of the fault as a word, except that Numba's outer machine raises when
the number of a host call is `2 ^ 63` or more, when the jump table of the inner machine does not fit
into its array, and when an instruction of the inner machine raises.  What it leaves of the inner machine
is one step of a session, as the charges of the machine are counted in. -/
theorem hcInvoke_answers_iff (decode : PVMCode → Decode) (gm : PVMCode → GasModel)
    {s : RefineInput B} (hs : s.Reachable) :
    (∃ fuel, (hcInvoke decode gm fuel s).isSome) ∧
      (∀ fuel out, hcInvoke decode gm fuel s = some (.ok out) → out.exitCondition = .resume →
        0 ≤ out.gasLimit) ∧
      (∀ fuel inner r, s.Runs decode gm fuel inner r →
        ((∃ out, hcInvoke decode gm fuel s = some (.ok out) ∧ Answered gm s inner r out) ↔
          Representable B inner.code r.exit r.self.pc)) ∧
      ∀ fuel inner r out, s.Runs decode gm fuel inner r → hcInvoke decode gm fuel s = some (.ok out) →
        ∃ programCounter,
          out.innerPvmLookup (s.registers.get 7) = some (inner.after r programCounter) ∧
          Pvm.hcInvoke B (B.access.dataPath (decode inner.code)) (gm inner.code) inner.code fuel
              inner.toIntegratedPVM s.requested ⟨frameRegisters s.frame, inner.memory⟩ =
            some (r, (inner.after r programCounter).toIntegratedPVM) := by
  refine ⟨exists_hcInvoke decode gm s, fun fuel out h hresume => nonneg_of_resume h hresume,
    fun fuel inner r h => ?_, fun fuel inner r out h hok => hcInvoke_after hs h hok⟩
  have hanswer := answered_iff_of_canBuild hs h
  rw [hcInvoke_eq hs h]
  by_cases hbuild : canBuild B inner.code = true
  · have htable := (canBuild_iff B inner.code).mp hbuild
    simp only [hbuild, if_true, Option.some.injEq]
    rw [hanswer]
    constructor
    · intro hcond hnumba
      exact ⟨(hcond hnumba).1, htable hnumba, (hcond hnumba).2⟩
    · intro hrep hnumba
      exact ⟨(hrep hnumba).1, (hrep hnumba).2.2⟩
  · refine iff_of_false ?_ ?_
    · rintro ⟨out, hok, -⟩
      rw [if_neg hbuild] at hok
      cases hok
    · exact fun hrep => hbuild ((canBuild_iff B inner.code).mpr fun hnumba => (hrep hnumba).2.1)

end Answer

/-- An `ecalli` with the immediate -1, which calls the host with the number `2 ^ 64 - 1`, and a
trap. -/
def sampleCaller : PVMCode where
  code := [10, 255, 0]
  opcodeBitmask := [true, false, true]
  jumpTable := []
  code_length_le := by simp
  jumpTable_length_le := nil_length_le

/-- What its one block costs. -/
lemma sampleCaller_cost : sampleCaller.gasModel.computeBlockGasCost 0 = 100 := by
  have hvalid : sampleCaller.valid = true := by decide
  exact PVMCode.gasModel_eq hvalid (sampleCaller.zero_mem_basicBlockStarts hvalid) le_rfl
    (by decide +kernel)

/-- The memories of a machine with one writable page, and a frame with 200 units of gas there. -/
def sampleMemories : Memories where
  graypaper := (Graypaper.Memory.empty.hcPages 16 1 2).hostWrite 65536 [200]
  cpython := (CPython.Memory.empty.hcPages 16 1 2).hostWrite 65536 [200]
  numba := (CPython.Memory.empty.hcPages 16 1 2).hostWrite 65536 [200]

lemma sampleMemories_reachable : sampleMemories.Reachable :=
  .hostWrite (.pages .fresh 16 1 2) 65536 [200]

/-- Inner machine 0 is to run with the frame at 65536. -/
def sampleInvoke (B : Backend) : RefineInput B where
  registers := fun r => if r = 8 then 65536 else 0
  memory := B.memoryOf sampleMemories
  gasLimit := 2000
  innerPvmLookup := fun n =>
    if n = 0 then some ⟨⟨0, false⟩, sampleCaller, B.memoryOf sampleMemories⟩ else none

/-- No instruction does anything. -/
def sampleDecode : Decode := fun _ _ _ reg => .write reg

lemma sampleInvoke_reachable (B : Backend) : (sampleInvoke B).Reachable where
  memory := ⟨sampleMemories, sampleMemories_reachable, rfl⟩
  inner := by
    intro n inner h
    simp only [sampleInvoke] at h
    split at h
    · cases h
      exact ⟨sampleMemories, sampleMemories_reachable, rfl⟩
    · cases h

/-- The inner machine of the samples. -/
def sampleInner (B : Backend) : InnerMachine B :=
  ⟨⟨0, false⟩, sampleCaller, B.memoryOf sampleMemories⟩

/-- Its run: a hundred units of gas for the block, and the host is called. -/
def sampleInnerRun (B : Backend) (exitValue : ℤ) : Invocation (MachineData B.Memory) where
  path := [.instr 0 false 0, .exit (.hostHalt exitValue)]
  exit := .hostHalt exitValue
  self := ⟨0, 100, some 0, 2, isNumba B = false,
    ⟨frameRegisters (sampleInvoke B).frame, B.memoryOf sampleMemories⟩⟩

lemma sampleInvoke_runs_numba : (sampleInvoke (.numba 0)).Runs (fun _ => sampleDecode)
    PVMCode.gasModel 1 (sampleInner (.numba 0)) (sampleInnerRun (.numba 0) (-1)) where
  lookup := rfl
  writable := by decide +kernel
  affordable := by decide +kernel
  run := by
    have hgas : ofLittleEndian ((sampleInvoke (.numba 0)).frame.take 8) = 200 := by decide +kernel
    rw [invokeInner, hgas]
    rfl

lemma sampleInvoke_runs_cpython : (sampleInvoke .cpython).Runs (fun _ => sampleDecode)
    PVMCode.gasModel 1 (sampleInner .cpython) (sampleInnerRun .cpython (2 ^ 64 - 1)) where
  lookup := rfl
  writable := by decide +kernel
  affordable := by decide +kernel
  run := by
    have hgas : ofLittleEndian ((sampleInvoke .cpython).frame.take 8) = 200 := by decide +kernel
    rw [invokeInner, hgas]
    rfl

/-- In CPython the call reports the number `2 ^ 64 - 1`. -/
theorem sampleInvoke_answers :
    ∃ out, hcInvoke (fun _ => sampleDecode) PVMCode.gasModel 1 (sampleInvoke .cpython) =
        some (.ok out) ∧
      Answered PVMCode.gasModel (sampleInvoke .cpython) (sampleInner .cpython)
        (sampleInnerRun .cpython (2 ^ 64 - 1)) out :=
  ((hcInvoke_answers_iff (fun _ => sampleDecode) PVMCode.gasModel
    (sampleInvoke_reachable .cpython)).2.2.1 1 _ _ sampleInvoke_runs_cpython).mpr
    (fun hnumba => by cases hnumba)

/-- In Numba the run pays a hundred units for its block and hands out -1, and writing that to a register
raises. -/
theorem sampleInvoke_raises :
    (sampleInvoke (.numba 0)).Reachable ∧
      sampleCaller.gasModel.computeBlockGasCost 0 = 100 ∧
      (sampleInvoke (.numba 0)).Runs (fun _ => sampleDecode) PVMCode.gasModel 1
        (sampleInner (.numba 0)) (sampleInnerRun (.numba 0) (-1)) ∧
      callNumber sampleCaller 0 = 2 ^ 64 - 1 ∧
      hcInvoke (fun _ => sampleDecode) PVMCode.gasModel 1 (sampleInvoke (.numba 0)) =
        some (.error .raised) := by
  have hs := sampleInvoke_reachable (.numba 0)
  have hruns := sampleInvoke_runs_numba
  have hbuild : canBuild (.numba 0) (sampleInner (.numba 0)).code = true := rfl
  refine ⟨hs, sampleCaller_cost, hruns, by decide +kernel, ?_⟩
  obtain ⟨memory, registers, -, hfinish⟩ := finishInvoke_eq hs hruns
    ((sampleInvoke (.numba 0)).gasLimit - (invokeBaseCost + (sampleInvoke (.numba 0)).requested : ℕ))
    (show outcome (sampleInnerRun (.numba 0) (-1)) = .ok (.host, some (-1), 2) from rfl)
  rw [hcInvoke_eq hs hruns, hbuild, if_pos rfl, hfinish, reportValue,
    setRegister_neg rfl registers 8 (by decide)]
  rfl

end HostCalls
