import Pyjamaz.Pvm.ControlAgreement

/-!
# The invocation loop of the three interpreters

`invoke` runs a program from a program counter with an amount of gas until something stops it.  Gas
is charged by the basic block: the interpreter remembers in `current_block_start` that the block it
is in has been paid, charges when the field is empty and clears it after a terminator.  The field is
not touched by any exit, so that a resumed run does not pay twice for one block.

The loop is written three times.  The Graypaper interpreter charges before it looks up the
instruction, the other two after; Numba looks up the block only on entry and serves the gas host call
itself when `native_gas_cost` is set.

What a load, a store or a register instruction does to the registers and the memory has no bearing on
gas, so the loop is modelled over an arbitrary `DataPath`.  The price of a block is that of an
arbitrary `GasModel`, which `calculate_block_gas` makes at least one.
-/

namespace Pvm

variable {σ : Type*}

/-- Why `invoke` stopped.  `raised` is an exception that reaches the caller, `undefined` a read
outside an array in compiled code. -/
inductive Exit where
  | halt
  | panic
  | outOfGas
  | pageFault (exitValue : Option ℤ)
  | hostHalt (exitValue : ℤ)
  | raised
  | undefined
  deriving DecidableEq, Repr

/-- After a halt or a panic the machine starts again at the beginning of the code. -/
def Exit.restarts : Exit → Bool
  | .halt | .panic => true
  | _ => false

/-- What an instruction that moves no control does: it completes, raises `PVMMemoryError` with the
address left in `_mem_addr`, or raises another exception, which the loop turns into a panic
(`panicError`) or, in compiled code, leaves to the caller of `invoke` (`raised`). -/
inductive DataResult (σ : Type*) where
  | ok (data : σ)
  | memoryError (faultAddr : Option ℤ) (data : σ)
  | panicError (data : σ)
  | raised (data : σ)

/-- Registers and memory, and what the instructions that move no control do to them. -/
structure DataPath (σ : Type*) where
  regs : σ → Regs
  setReg : σ → Write → σ
  run : Opcode → ℕ → ℕ → σ → DataResult σ

/-- `GasModel` of a program: the price of the block that starts at a position.
`calculate_block_gas` returns `max(cycles - 3, 1)`. -/
structure GasModel where
  computeBlockGasCost : ℕ → ℕ
  one_le_cost : ∀ start, 1 ≤ computeBlockGasCost start

/-! ## One instruction -/

/-- The control-flow instruction of an opcode, if it is one. -/
def ControlOp.ofOpcode : Opcode → Option ControlOp
  | .noArg .fallthrough => some .fallthrough
  | .ecalli => some .ecalli
  | .jump => some .jump
  | .regImm .jumpInd => some .jumpInd
  | .regImmOffset o => some (.regImmOffset o)
  | .regRegOffset o => some (.regRegOffset o)
  | .loadImmJumpInd => some .loadImmJumpInd
  | _ => none

/-- What an instruction leaves behind: the next program counter, or the reason to stop. -/
inductive Executed (σ : Type*) where
  | continue (pc : ℕ) (data : σ)
  | stop (exit : Exit) (data : σ)

def Executed.ofNext : Next → σ → Executed σ
  | .continue pc, data => .continue pc data
  | .halt, data => .stop .halt data
  | .panic, data => .stop .panic data
  | .hostHalt exitValue, data => .stop (.hostHalt exitValue) data
  | .raised, data => .stop .raised data
  | .undefined, data => .stop .undefined data

/-- The handler of `PVMMemoryError`: an address below `2 ** 16` panics, any other is rounded down to
its page. -/
def faultExit : Option ℤ → Exit
  | none => .pageFault none
  | some addr =>
    if addr < 0 then .pageFault (some addr)
    else if addr < 2 ^ 16 then .panic
    else .pageFault (some (addr - addr % 4096))

/-- The body of the loop for one fetched instruction, given the interpreter's control-flow
instructions and its way to add to the program counter. -/
def execute (control : PVMCode → ℕ → ℕ → Regs → ControlOp → ControlStep)
    (advance : ℕ → ℤ → Next) (D : DataPath σ) (p : PVMCode) (pc argLen : ℕ) (opcode : Opcode)
    (data : σ) : Executed σ :=
  match opcode with
  | .noArg .trap => .stop .panic data
  | .noArg .unlikely => .ofNext (advance pc (argLen + 1 : ℕ)) data
  | _ =>
    match ControlOp.ofOpcode opcode with
    | some op =>
      let step := control p pc argLen (D.regs data) op
      .ofNext step.next (step.write.elim data (D.setReg data))
    | none =>
      match D.run opcode pc argLen data with
      | .ok data => .ofNext (advance pc (argLen + 1 : ℕ)) data
      | .memoryError faultAddr data => .stop (faultExit faultAddr) data
      | .panicError data => .stop .panic data
      | .raised data => .stop .raised data

/-! ## Charging -/

/-- An interpreter: its program counter, the gas left, the block that has been paid for, the length
of the instruction fetched last and the registers and memory.  `lookupBlock` is a local of Numba's
loop, which the other two do without. -/
structure Loop (σ : Type*) where
  pc : ℕ
  gas : ℕ
  currentBlockStart : Option ℕ
  skipLen : ℕ
  lookupBlock : Bool
  data : σ

/-- `gas_paid` -/
def Loop.gasPaid (s : Loop σ) : Bool := s.currentBlockStart.isSome

/-- `basic_block_starts_sorted`, as a set: invalid code has no blocks. -/
def PVMCode.blocks (p : PVMCode) : List ℕ := if p.valid then p.basicBlockStarts else []

/-- `get_block_start`: bisection finds the last block that starts at or before `pc`. -/
def PVMCode.getBlockStart (p : PVMCode) (pc : ℕ) : ℕ :=
  (p.blocks.filter (fun start => start ≤ pc)).foldr max 0

/-- The price of the block a position lies in. -/
def PVMCode.blockCost (p : PVMCode) (gm : GasModel) (pc : ℕ) : ℕ :=
  gm.computeBlockGasCost (p.getBlockStart pc)

/-- Charging for the block at the program counter; `none` when the gas does not suffice. -/
def charge (p : PVMCode) (gm : GasModel) (s : Loop σ) : Option (Loop σ) :=
  if p.blocks = [] then some s
  else
    match s.currentBlockStart with
    | some _ => some { s with currentBlockStart := some (p.getBlockStart s.pc) }
    | none =>
      if s.gas < p.blockCost gm s.pc then none
      else some { s with
        gas := s.gas - p.blockCost gm s.pc
        currentBlockStart := some (p.getBlockStart s.pc) }

/-- One round of the loop.  It is refused before an instruction is executed, or executes one that
stops the machine, or executes one and goes on; `hostGas` is the fee of a gas host call that the
loop served itself. -/
inductive Step (σ : Type*) where
  | refuse (exit : Exit) (s : Loop σ)
  | exit (exit : Exit) (s : Loop σ)
  | next (hostGas : ℕ) (s : Loop σ)

/-- The end of the loop body: the program counter moves and a terminator clears the paid block. -/
def finish (s : Loop σ) (opcode : Opcode) (argLen : ℕ) : Executed σ → Step σ
  | .continue pc data =>
    .next 0 { s with
      pc := pc
      currentBlockStart := if opcode.isTermination then none else s.currentBlockStart
      skipLen := argLen + 1
      data := data }
  | .stop exit data => .exit exit { s with skipLen := argLen + 1, data := data }

namespace Graypaper

/-- The loop body of the Graypaper interpreter. -/
def step (D : DataPath σ) (gm : GasModel) (p : PVMCode) (s : Loop σ) : Step σ :=
  match charge p gm s with
  | none => .refuse .outOfGas s
  | some s =>
    match p.fetch s.pc with
    | none => .refuse .panic s
    | some (opcode, argLen) =>
      finish s opcode argLen (execute controlStep advance D p s.pc argLen opcode s.data)

end Graypaper

namespace CPython

/-- The loop body of the CPython interpreter. -/
def step (D : DataPath σ) (gm : GasModel) (p : PVMCode) (s : Loop σ) : Step σ :=
  match p.fetch s.pc with
  | none => .refuse .panic s
  | some (opcode, argLen) =>
    match charge p gm s with
    | none => .refuse .outOfGas s
    | some s => finish s opcode argLen (execute controlStep advance D p s.pc argLen opcode s.data)

end CPython

namespace Numba

/-- The block is looked up on entry and after a terminator only. -/
def chargeOnEntry (p : PVMCode) (gm : GasModel) (s : Loop σ) : Option (Loop σ) :=
  if s.lookupBlock ∨ s.currentBlockStart = none then
    (charge p gm s).map (fun s => { s with lookupBlock := false })
  else some { s with lookupBlock := false }

/-- The host call that the loop may serve itself: number zero, with enough gas for the fee. -/
def servesGas (nativeGasCost : ℕ) (p : PVMCode) (s : Loop σ) (opcode : Opcode) (argLen : ℕ) : Bool :=
  opcode = .ecalli ∧ readImmediate p.code (s.pc + 1) (min 4 argLen) = 0 ∧ 0 < nativeGasCost ∧
    nativeGasCost ≤ s.gas

/-- The loop body of `invoke_native`.  `reg[7]` of a served gas host call is the gas left. -/
def step (nativeGasCost : ℕ) (D : DataPath σ) (gm : GasModel) (p : PVMCode) (s : Loop σ) : Step σ :=
  match p.fetch s.pc with
  | none => .refuse .panic s
  | some (opcode, argLen) =>
    match chargeOnEntry p gm s with
    | none => .refuse .outOfGas s
    | some s =>
      if servesGas nativeGasCost p s opcode argLen then
        .next nativeGasCost { s with
          pc := (s.pc + argLen + 1) % 2 ^ 32
          gas := s.gas - nativeGasCost
          skipLen := argLen + 1
          data := D.setReg s.data ⟨7, (s.gas - nativeGasCost : ℕ)⟩ }
      else finish s opcode argLen (execute controlStep advance D p s.pc argLen opcode s.data)

end Numba

/-- The three interpreters; `native_gas_cost` configures Numba's. -/
inductive Backend where
  | graypaper
  | cpython
  | numba (nativeGasCost : ℕ)
  deriving DecidableEq, Repr

/-- The loop body of an interpreter. -/
def Backend.step : Backend → DataPath σ → GasModel → PVMCode → Loop σ → Step σ
  | .graypaper => Graypaper.step
  | .cpython => CPython.step
  | .numba nativeGasCost => Numba.step nativeGasCost

/-! ## Invocations -/

/-- What happens along a run: an instruction at `pc` is executed, with `ended` when it was a
terminator that was taken or fell through; or the run stops. -/
inductive Event where
  | instr (pc : ℕ) (ended : Bool) (hostGas : ℕ)
  | exit (exit : Exit)
  deriving DecidableEq, Repr

/-- The result of an invocation: the executed path, the reason to stop, and the interpreter. -/
structure Invocation (σ : Type*) where
  path : List Event
  exit : Exit
  self : Loop σ

/-- The instruction at a position ends its block. -/
def PVMCode.endsBlock (p : PVMCode) (pc : ℕ) : Bool :=
  (Opcode.ofValue (byteAt p.code pc)).any Opcode.isTermination

/-- The loop of `invoke`, for at most `fuel` rounds. -/
def loop (p : PVMCode) (step : Loop σ → Step σ) : ℕ → Loop σ → Option (Invocation σ)
  | 0, _ => none
  | fuel + 1, s =>
    match step s with
    | .refuse exit s' => some ⟨[.exit exit], exit, s'⟩
    | .exit exit s' => some ⟨[.instr s.pc false 0, .exit exit], exit, s'⟩
    | .next hostGas s' =>
      (loop p step fuel s').map (fun r =>
        { r with path := .instr s.pc (p.endsBlock s.pc) hostGas :: r.path })

/-- `invoke`: code that is not valid and a program counter that is not an instruction panic at once;
otherwise the loop runs with the paid block of the last invocation. -/
def Backend.invoke (B : Backend) (D : DataPath σ) (gm : GasModel) (p : PVMCode) (fuel : ℕ)
    (self : Loop σ) (pc gas : ℕ) : Option (Invocation σ) :=
  let self := { self with pc := pc, gas := gas, lookupBlock := true }
  if p.valid ∧ (p.instArgLen pc).isSome then loop p (B.step D gm p) fuel self
  else some ⟨[.exit .panic], .panic, self⟩

end Pvm
