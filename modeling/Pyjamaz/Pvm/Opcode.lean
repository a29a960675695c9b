import Mathlib.Data.Nat.Notation

/-!
# The instruction set

The opcodes of the virtual machine, grouped by the shape of their arguments exactly as
`InstructionType` groups them.  Inside a group the source numbers the opcodes consecutively in the
order of declaration, so an opcode's number is the group's first number plus its position.

The group of two registers and one immediate is split in two: the half that only computes on
registers (`RegRegImmOp`) and the half that reads or writes memory (`RegRegMemOp`).
-/

namespace Pvm

/-- Instructions without arguments, numbered from 0. -/
inductive NoneOp where
  | trap | fallthrough | unlikely
  deriving DecidableEq, Repr

/-- Instructions with two immediates, numbered from 30. -/
inductive ImmImmOp where
  | storeImmU8 | storeImmU16 | storeImmU32 | storeImmU64
  deriving DecidableEq, Repr

/-- Instructions with one register and one immediate, numbered from 50. -/
inductive RegImmOp where
  | jumpInd | loadImm | loadU8 | loadI8 | loadU16 | loadI16 | loadU32 | loadI32 | loadU64
  | storeU8 | storeU16 | storeU32 | storeU64
  deriving DecidableEq, Repr

/-- Instructions with one register and two immediates, numbered from 70. -/
inductive RegImmImmOp where
  | storeImmIndU8 | storeImmIndU16 | storeImmIndU32 | storeImmIndU64
  deriving DecidableEq, Repr

/-- Instructions with one register, one immediate and one offset, numbered from 80. -/
inductive RegImmOffsetOp where
  | loadImmJump | branchEqImm | branchNeImm | branchLtUImm | branchLeUImm | branchGeUImm
  | branchGtUImm | branchLtSImm | branchLeSImm | branchGeSImm | branchGtSImm
  deriving DecidableEq, Repr

/-- Instructions with two registers, numbered from 100. -/
inductive RegRegOp where
  | moveReg | countSetBits64 | countSetBits32 | leadingZeroBits64 | leadingZeroBits32
  | trailingZeroBits64 | trailingZeroBits32 | signExtend8 | signExtend16 | zeroExtend16
  | reverseBytes
  deriving DecidableEq, Repr

/-- The memory half of the instructions with two registers and one immediate, numbered from 120. -/
inductive RegRegMemOp where
  | storeIndU8 | storeIndU16 | storeIndU32 | storeIndU64 | loadIndU8 | loadIndI8 | loadIndU16
  | loadIndI16 | loadIndU32 | loadIndI32 | loadIndU64
  deriving DecidableEq, Repr

/-- The register-only half of the instructions with two registers and one immediate, numbered
from 131. -/
inductive RegRegImmOp where
  | addImm32 | andImm | xorImm | orImm | mulImm32 | setLtUImm | setLtSImm | shloLImm32
  | shloRImm32 | sharRImm32 | negAddImm32 | setGtUImm | setGtSImm | shloLImmAlt32 | shloRImmAlt32
  | sharRImmAlt32 | cmovIzImm | cmovNzImm | addImm64 | mulImm64 | shloLImm64 | shloRImm64
  | sharRImm64 | negAddImm64 | shloLImmAlt64 | shloRImmAlt64 | sharRImmAlt64 | rotR64Imm
  | rotR64ImmAlt | rotR32Imm | rotR32ImmAlt
  deriving DecidableEq, Repr

/-- Instructions with two registers and one offset, numbered from 170. -/
inductive RegRegOffsetOp where
  | branchEq | branchNe | branchLtU | branchLtS | branchGeU | branchGeS
  deriving DecidableEq, Repr

/-- Instructions with three registers, numbered from 190. -/
inductive RegRegRegOp where
  | add32 | sub32 | mul32 | divU32 | divS32 | remU32 | remS32 | shloL32 | shloR32 | sharR32
  | add64 | sub64 | mul64 | divU64 | divS64 | remU64 | remS64 | shloL64 | shloR64 | sharR64 | and
  | xor | or | mulUpperSS | mulUpperUU | mulUpperSU | setLtU | setLtS | cmovIz | cmovNz | rotL64
  | rotL32 | rotR64 | rotR32 | andInv | orInv | xnor | max | maxU | min | minU
  deriving DecidableEq, Repr

/-- Every opcode of the machine. -/
inductive Opcode where
  | noArg (o : NoneOp)
  | ecalli
  | loadImm64
  | immImm (o : ImmImmOp)
  | jump
  | regImm (o : RegImmOp)
  | regImmImm (o : RegImmImmOp)
  | regImmOffset (o : RegImmOffsetOp)
  | regReg (o : RegRegOp)
  | regRegMem (o : RegRegMemOp)
  | regRegImm (o : RegRegImmOp)
  | regRegOffset (o : RegRegOffsetOp)
  | loadImmJumpInd
  | regRegReg (o : RegRegRegOp)
  deriving DecidableEq, Repr

namespace Opcode

/-- The number of an opcode, as it stands in the code. -/
def value : Opcode → ℕ
  | .noArg o => o.ctorIdx
  | .ecalli => 10
  | .loadImm64 => 20
  | .immImm o => 30 + o.ctorIdx
  | .jump => 40
  | .regImm o => 50 + o.ctorIdx
  | .regImmImm o => 70 + o.ctorIdx
  | .regImmOffset o => 80 + o.ctorIdx
  | .regReg o => 100 + o.ctorIdx
  | .regRegMem o => 120 + o.ctorIdx
  | .regRegImm o => 131 + o.ctorIdx
  | .regRegOffset o => 170 + o.ctorIdx
  | .loadImmJumpInd => 180
  | .regRegReg o => 190 + o.ctorIdx

/-- All opcodes in the order of their numbers. -/
def all : List Opcode :=
  [.trap, .fallthrough, .unlikely].map noArg ++
  [ecalli, loadImm64] ++
  [.storeImmU8, .storeImmU16, .storeImmU32, .storeImmU64].map immImm ++
  [jump] ++
  [.jumpInd, .loadImm, .loadU8, .loadI8, .loadU16, .loadI16, .loadU32, .loadI32, .loadU64,
    .storeU8, .storeU16, .storeU32, .storeU64].map regImm ++
  [.storeImmIndU8, .storeImmIndU16, .storeImmIndU32, .storeImmIndU64].map regImmImm ++
  [.loadImmJump, .branchEqImm, .branchNeImm, .branchLtUImm, .branchLeUImm, .branchGeUImm,
    .branchGtUImm, .branchLtSImm, .branchLeSImm, .branchGeSImm, .branchGtSImm].map regImmOffset ++
  [.moveReg, .countSetBits64, .countSetBits32, .leadingZeroBits64, .leadingZeroBits32,
    .trailingZeroBits64, .trailingZeroBits32, .signExtend8, .signExtend16, .zeroExtend16,
    .reverseBytes].map regReg ++
  [.storeIndU8, .storeIndU16, .storeIndU32, .storeIndU64, .loadIndU8, .loadIndI8, .loadIndU16,
    .loadIndI16, .loadIndU32, .loadIndI32, .loadIndU64].map regRegMem ++
  [.addImm32, .andImm, .xorImm, .orImm, .mulImm32, .setLtUImm, .setLtSImm, .shloLImm32,
    .shloRImm32, .sharRImm32, .negAddImm32, .setGtUImm, .setGtSImm, .shloLImmAlt32,
    .shloRImmAlt32, .sharRImmAlt32, .cmovIzImm, .cmovNzImm, .addImm64, .mulImm64, .shloLImm64,
    .shloRImm64, .sharRImm64, .negAddImm64, .shloLImmAlt64, .shloRImmAlt64, .sharRImmAlt64,
    .rotR64Imm, .rotR64ImmAlt, .rotR32Imm, .rotR32ImmAlt].map regRegImm ++
  [.branchEq, .branchNe, .branchLtU, .branchLtS, .branchGeU, .branchGeS].map regRegOffset ++
  [loadImmJumpInd] ++
  [.add32, .sub32, .mul32, .divU32, .divS32, .remU32, .remS32, .shloL32, .shloR32, .sharR32,
    .add64, .sub64, .mul64, .divU64, .divS64, .remU64, .remS64, .shloL64, .shloR64, .sharR64,
    .and, .xor, .or, .mulUpperSS, .mulUpperUU, .mulUpperSU, .setLtU, .setLtS, .cmovIz, .cmovNz,
    .rotL64, .rotL32, .rotR64, .rotR32, .andInv, .orInv, .xnor, .max, .maxU, .min, .minU].map
    regRegReg

/-- The opcode a code byte stands for, if it is one. -/
def ofValue (b : ℕ) : Option Opcode := all.find? (fun o => o.value = b)

/-- `TERMINATION_OPCODES`: the opcodes after which a basic block ends. -/
def isTermination : Opcode → Bool
  | .noArg .trap | .noArg .fallthrough | .jump | .regImm .jumpInd | .regImmOffset _
  | .regRegOffset _ | .loadImmJumpInd => true
  | _ => false

lemma ofValue_value (o : Opcode) : ofValue o.value = some o := by
  cases o with
  | ecalli | loadImm64 | jump | loadImmJumpInd => decide
  | noArg o | immImm o | regImm o | regImmImm o | regImmOffset o | regReg o | regRegMem o
  | regRegImm o | regRegOffset o | regRegReg o => cases o <;> decide

lemma value_of_ofValue {b : ℕ} {o : Opcode} (h : ofValue b = some o) : o.value = b := by
  have hfound := List.find?_some h
  simpa using hfound

end Opcode

end Pvm
