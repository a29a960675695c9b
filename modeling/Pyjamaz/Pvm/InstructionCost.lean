import Mathlib.Algebra.BigOperators.Group.List.Basic
import Mathlib.Data.Fin.VecNotation
import Mathlib.Data.Int.Notation
import Pyjamaz.Pvm.Program

/-!
# What the gas model knows of an instruction

The gas model never executes an instruction.  From the bytes of the code it reads which registers an
instruction reads and writes (`instructionRegisters`), and from a table how many cycles it takes, how
many decoding slots, and which execution units (`instructionCost`).  Branches are cheap when one of
the two places they lead to is a trap or marked as unlikely.

Register sets are bit masks over the thirteen registers.
-/

namespace Pvm

/-- The exceptions of the gas model. -/
inductive ValueError where
  | invalidOpcode (opcode : ℕ)
  | invalidBasicBlockStart (start : ℕ)
  | invalidInstructionPosition (pc : ℕ)
  | invalidInstructionSkipDistance (argLen : ℕ)
  deriving DecidableEq, Repr

/-- `_byte`: zero outside the code. -/
def byte (code : List UInt8) (index : ℤ) : ℕ :=
  if 0 ≤ index ∧ index < code.length then byteAt code index.toNat else 0

/-! ## Registers -/

/-- A set of registers as a bit mask. -/
abbrev RegMask := BitVec 13

/-- `1 << r` -/
def regBit (r : Fin 13) : RegMask := BitVec.twoPow 13 r

/-- The opcodes that write memory among those with one register and one immediate. -/
def RegImmOp.isStore : RegImmOp → Bool
  | .storeU8 | .storeU16 | .storeU32 | .storeU64 => true
  | _ => false

/-- The opcodes that write memory among those with two registers and one immediate. -/
def RegRegMemOp.isStore : RegRegMemOp → Bool
  | .storeIndU8 | .storeIndU16 | .storeIndU32 | .storeIndU64 => true
  | _ => false

/-- `_CONDITIONAL_IMMEDIATES` -/
def RegRegImmOp.isConditional : RegRegImmOp → Bool
  | .cmovIzImm | .cmovNzImm => true
  | _ => false

/-- `_CONDITIONAL_MOVES` -/
def RegRegRegOp.isConditional : RegRegRegOp → Bool
  | .cmovIz | .cmovNz => true
  | _ => false

/-- The source and destination registers of an opcode with the given register operands. -/
def Opcode.registers (opcode : Opcode) (r : RegOperands) (polkavmCmov : Bool) : RegMask × RegMask :=
  let a := regBit r.low
  let b := regBit r.high
  match opcode with
  | .noArg _ | .ecalli | .immImm _ | .jump => (0, 0)
  | .loadImm64 => (0, a)
  | .regImm o => if o = .jumpInd || o.isStore then (a, 0) else (0, a)
  | .regImmImm _ => (a, 0)
  | .regImmOffset o => if o = .loadImmJump then (0, a) else (a, 0)
  | .regReg _ => (b, a)
  | .regRegMem o => if o.isStore then (a ||| b, 0) else (b, a)
  | .regRegImm o => (if o.isConditional && !polkavmCmov then a ||| b else b, a)
  | .regRegOffset _ => (a ||| b, 0)
  | .loadImmJumpInd => (b, a)
  | .regRegReg o =>
    let dest := regBit r.third
    (if o.isConditional && !polkavmCmov then a ||| b ||| dest else a ||| b, dest)

/-- `instruction_registers` -/
def instructionRegisters (code : List UInt8) (pc : ℕ) (polkavmCmov : Bool) :
    Except ValueError (RegMask × RegMask) :=
  match Opcode.ofValue (byteAt code pc) with
  | none => .error (.invalidOpcode (byteAt code pc))
  | some opcode => .ok (opcode.registers (fetchRegs code pc) polkavmCmov)

/-! ## Costs -/

/-- `Units`: how many execution units of each of the five kinds. -/
abbrev Units := Fin 5 → ℤ

namespace Units

def alu : Units := ![1, 0, 0, 0, 0]
def none : Units := ![0, 0, 0, 0, 0]
def load : Units := ![1, 1, 0, 0, 0]
def store : Units := ![1, 0, 1, 0, 0]
def multiply : Units := ![1, 0, 0, 1, 0]
def divide : Units := ![1, 0, 0, 0, 1]

/-- The units there are. -/
def capacity : Units := ![4, 4, 4, 1, 1]

end Units

/-- `_CostRule` -/
structure CostRule where
  cycles : ℕ
  decodeSlots : ℕ
  units : Units := Units.alu
  overlapSlots : Option ℕ := none
  firstSourceOnly : Bool := false

/-- `_cost_rules` -/
def costRule : Opcode → CostRule
  | .regReg .moveReg => { cycles := 0, decodeSlots := 1, units := .none }
  | .regRegReg .and | .regRegReg .xor | .regRegReg .or | .regRegReg .add64 | .regRegReg .sub64 =>
    { cycles := 1, decodeSlots := 2, overlapSlots := some 1 }
  | .regRegReg .add32 | .regRegReg .sub32 =>
    { cycles := 2, decodeSlots := 3, overlapSlots := some 2 }
  | .regRegImm .andImm | .regRegImm .xorImm | .regRegImm .orImm | .regRegImm .addImm64
  | .regRegImm .shloRImm64 | .regRegImm .sharRImm64 | .regRegImm .shloLImm64
  | .regRegImm .rotR64Imm | .regReg .reverseBytes =>
    { cycles := 1, decodeSlots := 2, overlapSlots := some 1 }
  | .regRegImm .addImm32 | .regRegImm .shloRImm32 | .regRegImm .sharRImm32
  | .regRegImm .shloLImm32 | .regRegImm .rotR32Imm =>
    { cycles := 2, decodeSlots := 3, overlapSlots := some 2 }
  | .regReg .countSetBits64 | .regReg .countSetBits32 | .regReg .leadingZeroBits64
  | .regReg .leadingZeroBits32 | .regReg .signExtend8 | .regReg .signExtend16
  | .regReg .zeroExtend16 => { cycles := 1, decodeSlots := 1 }
  | .regReg .trailingZeroBits64 | .regReg .trailingZeroBits32 =>
    { cycles := 2, decodeSlots := 1, units := ![2, 0, 0, 0, 0] }
  | .regRegReg .shloL64 | .regRegReg .shloR64 | .regRegReg .sharR64 | .regRegReg .rotL64
  | .regRegReg .rotR64 =>
    { cycles := 1, decodeSlots := 3, overlapSlots := some 2, firstSourceOnly := true }
  | .regRegReg .shloL32 | .regRegReg .shloR32 | .regRegReg .sharR32 | .regRegReg .rotL32
  | .regRegReg .rotR32 =>
    { cycles := 2, decodeSlots := 4, overlapSlots := some 3, firstSourceOnly := true }
  | .regRegImm .shloLImmAlt64 | .regRegImm .shloRImmAlt64 | .regRegImm .sharRImmAlt64
  | .regRegImm .rotR64ImmAlt => { cycles := 1, decodeSlots := 3 }
  | .regRegImm .shloLImmAlt32 | .regRegImm .shloRImmAlt32 | .regRegImm .sharRImmAlt32
  | .regRegImm .rotR32ImmAlt => { cycles := 2, decodeSlots := 4 }
  | .regRegReg .setLtU | .regRegReg .setLtS | .regRegImm .setLtUImm | .regRegImm .setLtSImm
  | .regRegImm .setGtUImm | .regRegImm .setGtSImm => { cycles := 3, decodeSlots := 3 }
  | .regRegReg .cmovIz | .regRegReg .cmovNz => { cycles := 2, decodeSlots := 2 }
  | .regRegImm .cmovIzImm | .regRegImm .cmovNzImm => { cycles := 2, decodeSlots := 3 }
  | .regRegReg .max | .regRegReg .maxU | .regRegReg .min | .regRegReg .minU =>
    { cycles := 3, decodeSlots := 3, overlapSlots := some 2 }
  | .regRegMem .loadIndU8 | .regRegMem .loadIndI8 | .regRegMem .loadIndU16
  | .regRegMem .loadIndI16 | .regRegMem .loadIndU32 | .regRegMem .loadIndI32
  | .regRegMem .loadIndU64 | .regImm .loadU8 | .regImm .loadI8 | .regImm .loadU16
  | .regImm .loadI16 | .regImm .loadU32 | .regImm .loadI32 | .regImm .loadU64 =>
    { cycles := 25, decodeSlots := 1, units := .load }
  | .regImmImm _ | .regRegMem _ | .immImm _ | .regImm .storeU8 | .regImm .storeU16
  | .regImm .storeU32 | .regImm .storeU64 => { cycles := 25, decodeSlots := 1, units := .store }
  | .jump | .regImmOffset .loadImmJump => { cycles := 15, decodeSlots := 1, units := .none }
  | .regRegOffset _ | .regImmOffset _ => { cycles := 20, decodeSlots := 1 }
  | .regRegReg .divU32 | .regRegReg .divS32 | .regRegReg .remU32 | .regRegReg .remS32
  | .regRegReg .divU64 | .regRegReg .divS64 | .regRegReg .remU64 | .regRegReg .remS64 =>
    { cycles := 60, decodeSlots := 4, units := .divide }
  | .regRegReg .andInv | .regRegReg .orInv | .regRegImm .negAddImm64 =>
    { cycles := 2, decodeSlots := 3 }
  | .regRegReg .xnor => { cycles := 2, decodeSlots := 3, overlapSlots := some 2 }
  | .regRegImm .negAddImm32 => { cycles := 3, decodeSlots := 4 }
  | .regImm .loadImm => { cycles := 1, decodeSlots := 1, units := .none }
  | .loadImm64 => { cycles := 1, decodeSlots := 2, units := .none }
  | .regRegReg .mul64 | .regRegImm .mulImm64 =>
    { cycles := 3, decodeSlots := 2, units := .multiply, overlapSlots := some 1 }
  | .regRegReg .mul32 | .regRegImm .mulImm32 =>
    { cycles := 4, decodeSlots := 3, units := .multiply, overlapSlots := some 2 }
  | .regRegReg .mulUpperSS | .regRegReg .mulUpperUU =>
    { cycles := 4, decodeSlots := 4, units := .multiply }
  | .regRegReg .mulUpperSU => { cycles := 6, decodeSlots := 4, units := .multiply }
  | .noArg .trap | .noArg .fallthrough => { cycles := 2, decodeSlots := 1, units := .none }
  | .noArg .unlikely => { cycles := 40, decodeSlots := 1, units := .none }
  | .regImm .jumpInd | .loadImmJumpInd => { cycles := 22, decodeSlots := 1, units := .none }
  | .ecalli => { cycles := 100, decodeSlots := 4 }

/-- `_signed_offset` -/
def signedOffset (code : List UInt8) (start size : ℕ) : ℤ :=
  if size = 0 then 0
  else
    let value := ((List.range size).map (fun i => byteAt code (start + i) <<< (8 * i))).sum
    if value.testBit (8 * size - 1) then (value : ℤ) - 2 ^ (8 * size) else value

/-- `InstructionCost` -/
structure InstructionCost where
  cycles : ℕ
  decodeSlots : ℕ
  units : Units

/-- The decoding slots: fewer when a source is also the destination. -/
def decodeSlots (code : List UInt8) (pc : ℕ) (opcode : Opcode) : ℕ :=
  let rule := costRule opcode
  match rule.overlapSlots with
  | none => rule.decodeSlots
  | some overlapSlots =>
    let r := fetchRegs code pc
    let registers := opcode.registers r false
    let sources := if rule.firstSourceOnly then regBit r.low else registers.1
    if sources &&& registers.2 ≠ 0 then overlapSlots else rule.decodeSlots

/-- The target of a branch, if the instruction is one. -/
def branchTarget (code : List UInt8) (pc argLen : ℕ) : Opcode → Option ℤ
  | .regRegOffset _ => some (pc + signedOffset code (pc + 2) (min 4 (argLen - 1)))
  | .regImmOffset o =>
    if o = .loadImmJump then none
    else
      let immediateLen := min 4 (byteAt code (pc + 1) / 16 % 8)
      let offsetLen := min 4 (argLen - immediateLen - 1)
      some (pc + signedOffset code (pc + 2 + immediateLen) offsetLen)
  | _ => none

/-- The byte is a trap or the mark of an unlikely path. -/
def isUnlikely (b : ℕ) : Bool := b = Opcode.value (.noArg .trap) || b = Opcode.value (.noArg .unlikely)

/-- `instruction_cost` -/
def instructionCost (code : List UInt8) (pc argLen : ℕ) : Except ValueError InstructionCost :=
  match Opcode.ofValue (byteAt code pc) with
  | none => .error (.invalidOpcode (byteAt code pc))
  | some opcode =>
    let rule := costRule opcode
    let cycles :=
      match branchTarget code pc argLen opcode with
      | none => rule.cycles
      | some target =>
        if isUnlikely (byte code target) || isUnlikely (byteAt code (pc + 1 + argLen)) then 1
        else rule.cycles
    .ok ⟨cycles, decodeSlots code pc opcode, rule.units⟩

/-! ## Bounds of the table -/

/-- Every instruction fits into an empty machine: it takes at most four decoding slots and a hundred
cycles, and no more units than there are; only register moves take no cycle. -/
structure CostRule.Sensible (rule : CostRule) : Prop where
  cycles_le : rule.cycles ≤ 100
  decodeSlots_le : rule.decodeSlots ≤ 4
  overlapSlots_le : ∀ slots ∈ rule.overlapSlots, slots ≤ 4
  units_nonneg : ∀ i, 0 ≤ rule.units i
  units_le : ∀ i, rule.units i ≤ Units.capacity i

instance (rule : CostRule) : Decidable rule.Sensible :=
  decidable_of_iff
    (rule.cycles ≤ 100 ∧ rule.decodeSlots ≤ 4 ∧ (∀ slots ∈ rule.overlapSlots, slots ≤ 4) ∧
      (∀ i, 0 ≤ rule.units i) ∧ ∀ i, rule.units i ≤ Units.capacity i)
    ⟨fun ⟨h₁, h₂, h₃, h₄, h₅⟩ => ⟨h₁, h₂, h₃, h₄, h₅⟩,
      fun h => ⟨h.1, h.2, h.3, h.4, h.5⟩⟩

lemma costRule_sensible (opcode : Opcode) : (costRule opcode).Sensible := by
  cases opcode with
  | ecalli | loadImm64 | jump | loadImmJumpInd => decide
  | noArg o | immImm o | regImm o | regImmImm o | regImmOffset o | regReg o | regRegMem o
  | regRegImm o | regRegOffset o | regRegReg o => cases o <;> decide

lemma one_le_cycles (opcode : Opcode) (h : opcode ≠ .regReg .moveReg) :
    1 ≤ (costRule opcode).cycles := by
  cases opcode with
  | ecalli | loadImm64 | jump | loadImmJumpInd => decide
  | regReg o =>
    cases o with
    | moveReg => exact absurd rfl h
    | _ => decide
  | noArg o | immImm o | regImm o | regImmImm o | regImmOffset o | regRegMem o | regRegImm o
  | regRegOffset o | regRegReg o => cases o <;> decide

/-- What is needed of the cost of an instruction. -/
structure InstructionCost.Sensible (cost : InstructionCost) : Prop where
  cycles_le : cost.cycles ≤ 100
  decodeSlots_le : cost.decodeSlots ≤ 4
  units_nonneg : ∀ i, 0 ≤ cost.units i
  units_le : ∀ i, cost.units i ≤ Units.capacity i

lemma decodeSlots_le (code : List UInt8) (pc : ℕ) (opcode : Opcode) :
    decodeSlots code pc opcode ≤ 4 := by
  have hrule := costRule_sensible opcode
  have hall := hrule.decodeSlots_le
  cases hslots : (costRule opcode).overlapSlots with
  | none => simpa only [decodeSlots, hslots] using hall
  | some slots =>
    have hoverlap := hrule.overlapSlots_le slots hslots
    simp only [decodeSlots, hslots]
    split_ifs <;> assumption

/-- The cost of a defined opcode. -/
lemma exists_instructionCost {code : List UInt8} {pc argLen : ℕ} {opcode : Opcode}
    (h : Opcode.ofValue (byteAt code pc) = some opcode) :
    ∃ cost, instructionCost code pc argLen = .ok cost ∧ cost.Sensible ∧
      (opcode ≠ .regReg .moveReg → 1 ≤ cost.cycles) := by
  have hrule := costRule_sensible opcode
  rw [instructionCost, h]
  refine ⟨_, rfl, ⟨?_, decodeSlots_le _ _ _, hrule.units_nonneg, hrule.units_le⟩, fun hmove => ?_⟩
  · have hle := hrule.cycles_le
    simp only
    split
    · exact hle
    · split <;> omega
  · have hle := one_le_cycles opcode hmove
    simp only
    split
    · exact hle
    · split <;> omega

end Pvm
