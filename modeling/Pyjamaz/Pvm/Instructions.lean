import Pyjamaz.Pvm.DataAccess
import Pyjamaz.Pvm.InstructionCost
import Pyjamaz.Pvm.RegisterAgreement

/-!
# Whole instructions

The instructions that move no control, with what each does to the registers and the memory: constants,
loads, stores and the register instructions.  The three interpreters decode them by the same scheme
and differ in the helpers they call, so the scheme is written once over a `Dialect` of helpers.

Compiled code computes two things that nothing defines: a rotation by an amount that is not masked,
and the second register of `load_imm_jump_ind`, whose nibble is not clamped, so that the words behind
the register array are read.  `junk` is the word that is found there.
-/

namespace Pvm

/-! ## Loads and stores -/

/-- The widths of loads and stores. -/
inductive Width where
  | u8 | u16 | u32 | u64
  deriving DecidableEq, Repr

def Width.bytes : Width → ℕ
  | .u8 => 1
  | .u16 => 2
  | .u32 => 4
  | .u64 => 8

/-- The value that is stored: a word of eight bytes goes as it is. -/
def Width.truncate (w : Width) (v : ℕ) : ℕ :=
  match w with
  | .u64 => v
  | w => v % 2 ^ (8 * w.bytes)

/-- What an instruction does at its address.  A signed load extends the value it reads. -/
inductive Access where
  | load (w : Width) (isSigned : Bool)
  | store (w : Width)
  deriving DecidableEq, Repr

def ImmImmOp.width : ImmImmOp → Width
  | .storeImmU8 => .u8
  | .storeImmU16 => .u16
  | .storeImmU32 => .u32
  | .storeImmU64 => .u64

def RegImmImmOp.width : RegImmImmOp → Width
  | .storeImmIndU8 => .u8
  | .storeImmIndU16 => .u16
  | .storeImmIndU32 => .u32
  | .storeImmIndU64 => .u64

def RegImmOp.access : RegImmOp → Option Access
  | .jumpInd | .loadImm => none
  | .loadU8 => some (.load .u8 false)
  | .loadI8 => some (.load .u8 true)
  | .loadU16 => some (.load .u16 false)
  | .loadI16 => some (.load .u16 true)
  | .loadU32 => some (.load .u32 false)
  | .loadI32 => some (.load .u32 true)
  | .loadU64 => some (.load .u64 false)
  | .storeU8 => some (.store .u8)
  | .storeU16 => some (.store .u16)
  | .storeU32 => some (.store .u32)
  | .storeU64 => some (.store .u64)

def RegRegMemOp.access : RegRegMemOp → Access
  | .storeIndU8 => .store .u8
  | .storeIndU16 => .store .u16
  | .storeIndU32 => .store .u32
  | .storeIndU64 => .store .u64
  | .loadIndU8 => .load .u8 false
  | .loadIndI8 => .load .u8 true
  | .loadIndU16 => .load .u16 false
  | .loadIndI16 => .load .u16 true
  | .loadIndU32 => .load .u32 false
  | .loadIndI32 => .load .u32 true
  | .loadIndU64 => .load .u64 false

/-! ## The scheme of an instruction -/

/-- The helpers of an interpreter: `readWord` is `read_uint` of eight bytes, `immediate` is
`pvm_X(read_uint(..))`, `extend` and `extendInd` extend what the loads of the two schemes read,
`address` reduces the sum of a register and an immediate, and `setReg` is what assigning to a register
checks. -/
structure Dialect where
  readWord : List UInt8 → ℕ → ℕ
  immediate : List UInt8 → ℕ → ℕ → Except Fault ℕ
  extend : ℕ → ℕ → Except Fault ℕ
  extendInd : ℕ → ℕ → ℕ
  address : ℕ → ℕ
  setReg : Option ℤ → Value
  regRegValue : RegRegOp → ℕ → Value
  regRegImmValue : RegRegImmOp → ℕ → ℕ → Value
  regRegRegValue : RegRegRegOp → ℕ → ℕ → Value

/-- What an instruction that moves no control asks for: the outcome for the registers, a load that
goes on with the value read, or a store. -/
inductive DataStep where
  | register (outcome : Outcome)
  | load (addr : ℕ) (w : Width) (loaded : ℕ → Outcome)
  | store (addr value : ℕ) (w : Width)

/-- An instruction reads its immediate; an exception in that ends it. -/
def DataStep.withImmediate (immediate : Except Fault ℕ) (k : ℕ → DataStep) : DataStep :=
  match immediate with
  | .ok v => k v
  | .error e => .register (.error e)

namespace Dialect

variable (d : Dialect)

/-- The assignment of a computed value to a register. -/
def assign (r : Fin 13) (v : Value) : Outcome := Value.writeTo r (v >>= d.setReg)

/-- A load with its extension, or a store of a register. -/
def atAddress (addr value : ℕ) (dest : Fin 13) (extended : ℕ → ℕ → Except Fault ℕ) :
    Access → DataStep
  | .load w isSigned => .load addr w (fun v =>
      d.assign dest (do
        let v ← if isSigned then extended v w.bytes else .ok v
        pure (some (v : ℤ))))
  | .store w => .store addr (w.truncate value) w

/-- The instructions that move no control, by the scheme of their arguments. -/
def dataStep (code : List UInt8) (pc argLen : ℕ) (reg : Regs) : Opcode → DataStep
  | .loadImm64 =>
    .register (d.assign (fetchRegs code pc).low (.ok (some (d.readWord code (pc + 2) : ℤ))))
  | .immImm o =>
    let l_x := min 4 (byteAt code (pc + 1) % 8)
    let l_y := min 4 (argLen - l_x - 1)
    .withImmediate (d.immediate code (pc + 2) l_x) (fun v_x =>
      .withImmediate (d.immediate code (pc + 2 + l_x) l_y) (fun v_y =>
        .store v_x (o.width.truncate v_y) o.width))
  | .regImm o =>
    let r_a := (fetchRegs code pc).low
    .withImmediate (d.immediate code (pc + 2) (immWidth argLen)) (fun v_x =>
      match o.access with
      | none => .register (d.assign r_a (.ok (some (v_x : ℤ))))
      | some access => d.atAddress v_x (reg.get r_a) r_a d.extend access)
  | .regImmImm o =>
    let w_a := reg.get (fetchRegs code pc).low
    let l_x := branchImmWidth code pc
    let l_y := branchImmOffsetWidth code pc argLen
    .withImmediate (d.immediate code (pc + 2) l_x) (fun v_x =>
      .withImmediate (d.immediate code (pc + 2 + l_x) l_y) (fun v_y =>
        .store (d.address (w_a + v_x)) (o.width.truncate v_y) o.width))
  | .regRegMem o =>
    let r := fetchRegs code pc
    .withImmediate (d.immediate code (pc + 2) (immWidth argLen)) (fun v_x =>
      d.atAddress (d.address (reg.get r.high + v_x)) (reg.get r.low) r.low
        (fun v n => .ok (d.extendInd v n)) o.access)
  | .regReg o =>
    let r := fetchRegs code pc
    .register (d.assign r.low (d.regRegValue o (reg.get r.high)))
  | .regRegImm o =>
    let r := fetchRegs code pc
    .withImmediate (d.immediate code (pc + 2) (immWidth argLen)) (fun v_x =>
      .register (d.assign r.low (d.regRegImmValue o (reg.get r.high) v_x)))
  | .regRegReg o =>
    let r := fetchRegs code pc
    .register (d.assign r.third (d.regRegRegValue o (reg.get r.low) (reg.get r.high)))
  -- the instructions that move control
  | .noArg _ | .ecalli | .jump | .regImmOffset _ | .regRegOffset _ | .loadImmJumpInd =>
    .register (.ok none)

end Dialect

namespace Graypaper

/-- `read_uint` of eight bytes. -/
def readWord (code : List UInt8) (addr : ℕ) : ℕ :=
  byteAt code (addr + 7) <<< 56 + byteAt code (addr + 6) <<< 48 + byteAt code (addr + 5) <<< 40 +
  byteAt code (addr + 4) <<< 32 + byteAt code (addr + 3) <<< 24 + byteAt code (addr + 2) <<< 16 +
  byteAt code (addr + 1) <<< 8 + byteAt code addr

def dialect : Dialect where
  readWord := readWord
  immediate code addr l := pvmX (readUint code addr l) l
  extend := pvmX
  extendInd v n := pvmZInv (pvmZ v n) 8
  address a := a % 2 ^ 64
  setReg := setReg
  regRegValue o w := .ok (some (regRegValue o w))
  regRegImmValue := regRegImmValue
  regRegRegValue := regRegRegValue

end Graypaper

namespace CPython

/-- `read_uint` of eight bytes, unpacked as a little-endian word. -/
def readWord (code : List UInt8) (addr : ℕ) : ℕ :=
  ((List.range 8).map (fun i => 2 ^ (8 * i) * byteAt code (addr + i))).sum

def dialect : Dialect where
  readWord := readWord
  immediate code addr l := .ok (readImmediate code addr l)
  extend v n := .ok (pvmX v n)
  extendInd v n := pvmZInv (pvmZ v n) 8
  address a := a % 2 ^ 32
  setReg := .ok
  regRegValue o w := .ok (some (regRegValue o w))
  regRegImmValue := regRegImmValue
  regRegRegValue := regRegRegValue

end CPython

namespace Numba

/-- `read_uint_jit` of eight bytes. -/
def readWord (code : List UInt8) (addr : ℕ) : ℕ :=
  byteAt code addr ||| byteAt code (addr + 1) <<< 8 ||| byteAt code (addr + 2) <<< 16 |||
    byteAt code (addr + 3) <<< 24 ||| byteAt code (addr + 4) <<< 32 |||
    byteAt code (addr + 5) <<< 40 ||| byteAt code (addr + 6) <<< 48 |||
    byteAt code (addr + 7) <<< 56

/-- The value of an expression with an undefined shift in it is whatever is found. -/
def settle (junk : BitVec 64) : Value → Value
  | .error .poison => .ok (some (junk.toNat : ℤ))
  | v => v

def dialect (t : ShiftTarget) (junk : BitVec 64) : Dialect where
  readWord := readWord
  immediate code addr l := .ok (readImmediate code addr l)
  extend v n := .ok (pvmX v n)
  extendInd v n := pvmZInv (pvmZ v n) 8
  address a := a % 2 ^ 64
  setReg := .ok
  regRegValue o w := .ok (some (regRegValue o w))
  regRegImmValue o w_b v_x := settle junk (regRegImmValue t o w_b v_x)
  regRegRegValue o w_a w_b := settle junk (regRegRegValue t o w_a w_b)

/-- `load_imm_jump_ind` with the word that is read for the second register. -/
def loadImmJumpInd (p : PVMCode) (jumpTable : List ℕ) (pc argLen w_b : ℕ) : ControlStep :=
  let l_x := jumpIndWidth p.code pc
  let v_x := readImmediate p.code (pc + 3) l_x
  let v_y := readImmediate p.code (pc + 3 + l_x) (jumpIndOffsetWidth p.code pc argLen)
  ⟨djump jumpTable (basicBlockStartMask p) pc ((w_b + v_y) % 2 ^ 64 % 2 ^ 32),
    some ⟨(fetchRegs p.code pc).low, v_x⟩⟩

/-- A control-flow instruction, with a word behind the register array where one is read. -/
def controlStepBeyond (junk : BitVec 64) (p : PVMCode) (pc argLen : ℕ) (reg : Regs)
    (op : ControlOp) : ControlStep :=
  match op, jumpTableArray p with
  | .loadImmJumpInd, some jumpTable =>
    if 12 < byteAt p.code (pc + 1) / 16 then loadImmJumpInd p jumpTable pc argLen junk.toNat
    else controlStep p pc argLen reg .loadImmJumpInd
  | op, _ => controlStep p pc argLen reg op

end Numba

/-! ## One instruction of a machine -/

/-- The helpers of an interpreter. -/
def Backend.dialect (t : ShiftTarget) (junk : BitVec 64) : Backend → Dialect
  | .graypaper => Graypaper.dialect
  | .cpython => CPython.dialect
  | .numba _ => Numba.dialect t junk

/-- The control-flow instructions of an interpreter, with the word that compiled code may read. -/
def Backend.control (junk : BitVec 64) :
    Backend → PVMCode → ℕ → ℕ → Regs → ControlOp → ControlStep
  | .graypaper => Graypaper.controlStep
  | .cpython => CPython.controlStep
  | .numba _ => Numba.controlStepBeyond junk

/-- Two of the interpreters catch every exception of an instruction and panic; compiled code leaves
it to the caller. -/
def Backend.onFault : Backend → Exit
  | .graypaper | .cpython => .panic
  | .numba _ => .raised

/-- The registers after a write, if there is one. -/
def Regs.write (reg : Regs) (w : Option Write) : Regs := w.elim reg reg.set

section Machine

variable {μ : Type} (A : MemoryAccess μ)

/-- The end of an instruction: it goes on with the next one unless it failed. -/
def MachineData.complete (next : Next) (onFault : Exit) (data : MachineData μ) :
    Outcome → Executed (MachineData μ)
  | .ok w => .ofNext next { data with reg := data.reg.write w }
  | .error _ => .stop onFault data

/-- An instruction that moves no control. -/
def MemoryAccess.executeData (next : Next) (onFault : Exit) (data : MachineData μ) :
    DataStep → Executed (MachineData μ)
  | .register outcome => data.complete next onFault outcome
  | .load addr w loaded =>
    match A.memRead data.mem addr w.bytes with
    | .ok v => data.complete next onFault (loaded v)
    | .error .panicError => .stop .panic data
    | .error (.memoryError a) => .stop (faultExit (some a)) data
  | .store addr value w =>
    match A.memWrite data.mem addr value w.bytes with
    | .ok mem => .ofNext next { data with mem := mem }
    | .error .panicError => .stop .panic data
    | .error (.memoryError a) => .stop (faultExit (some a)) data

end Machine

/-- One instruction of an interpreter on its registers and its memory. -/
def Backend.instruction (B : Backend) (t : ShiftTarget) (junk : BitVec 64) (p : PVMCode)
    (pc argLen : ℕ) (opcode : Opcode) (data : MachineData B.Memory) :
    Executed (MachineData B.Memory) :=
  let next := B.advance pc (argLen + 1 : ℕ)
  match opcode with
  | .noArg .trap => .stop .panic data
  | .noArg .unlikely => .ofNext next data
  | opcode =>
    match ControlOp.ofOpcode opcode with
    | some op =>
      let step := B.control junk p pc argLen data.reg op
      .ofNext step.next { data with reg := data.reg.write step.write }
    | none =>
      B.access.executeData next B.onFault data
        ((B.dialect t junk).dataStep p.code pc argLen data.reg opcode)

end Pvm
