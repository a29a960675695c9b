import Pyjamaz.Pvm.Helpers
import Pyjamaz.Pvm.Program

/-!
# Control-flow instructions in the three interpreters

One step of a jump, branch, fallthrough, dynamic jump or host call, as each interpreter takes it.
The Graypaper and CPython interpreters keep the set of basic-block starts and work with exact
integers.  Numba keeps a byte mask over the instruction positions and an `int32` copy of the jump
table, and its `djump_jit` returns one signed number that is either a relative distance or one of the
codes `-1` (halt) and `-2` (panic).

Gas is not part of a step.  Numba's shortcut for the gas host call is off, as it is in an interpreter
that was constructed and not reconfigured (`native_gas_cost = 0`).
-/

namespace Pvm

open TwosComplement

/-- Where a control-flow instruction leads.  `raised` is an exception that reaches the caller of the
interpreter, `undefined` a read outside an array in compiled code. -/
inductive Next where
  | continue (pc : ℕ)
  | halt
  | panic
  | hostHalt (exitValue : ℤ)
  | raised
  | undefined
  deriving DecidableEq, Repr

/-- A control-flow step: where it leads and the register it wrote on the way. -/
structure ControlStep where
  next : Next
  write : Option Write
  deriving DecidableEq, Repr

/-- The control-flow instructions. -/
inductive ControlOp where
  | fallthrough
  | ecalli
  | jump
  | jumpInd
  | regImmOffset (o : RegImmOffsetOp)
  | regRegOffset (o : RegRegOffsetOp)
  | loadImmJumpInd
  deriving DecidableEq, Repr

/-- The opcode of a control-flow instruction. -/
def ControlOp.opcode : ControlOp → Opcode
  | .fallthrough => .noArg .fallthrough
  | .ecalli => .ecalli
  | .jump => .jump
  | .jumpInd => .regImm .jumpInd
  | .regImmOffset o => .regImmOffset o
  | .regRegOffset o => .regRegOffset o
  | .loadImmJumpInd => .loadImmJumpInd

/-- Membership of an integer in `basic_block_starts_set`. -/
def PVMCode.isBlockStart (p : PVMCode) (target : ℤ) : Bool :=
  p.basicBlockStarts.any (fun s => (s : ℤ) = target)

/-- The comparison of a branch with an immediate, given the reading of signed operands. -/
def branchImmCondition (Z : ℕ → ℤ) (o : RegImmOffsetOp) (w_a v_x : ℕ) : Bool :=
  match o with
  | .loadImmJump => true
  | .branchEqImm => w_a = v_x
  | .branchNeImm => w_a ≠ v_x
  | .branchLtUImm => w_a < v_x
  | .branchLeUImm => w_a ≤ v_x
  | .branchGeUImm => v_x ≤ w_a
  | .branchGtUImm => v_x < w_a
  | .branchLtSImm => Z w_a < Z v_x
  | .branchLeSImm => Z w_a ≤ Z v_x
  | .branchGeSImm => Z v_x ≤ Z w_a
  | .branchGtSImm => Z v_x < Z w_a

/-- The comparison of a branch on two registers, given the reading of signed operands. -/
def branchCondition (Z : ℕ → ℤ) (o : RegRegOffsetOp) (w_a w_b : ℕ) : Bool :=
  match o with
  | .branchEq => w_a = w_b
  | .branchNe => w_a ≠ w_b
  | .branchLtU => w_a < w_b
  | .branchLtS => Z w_a < Z w_b
  | .branchGeU => w_b ≤ w_a
  | .branchGeS => Z w_b ≤ Z w_a

/-! ## Operand widths, decoded by the same expressions everywhere -/

/-- `l_x` of the one-register, one-immediate, one-offset format. -/
def branchImmWidth (code : List UInt8) (pc : ℕ) : ℕ := min 4 (byteAt code (pc + 1) / 16 % 8)

/-- `l_y` of the same format. -/
def branchImmOffsetWidth (code : List UInt8) (pc argLen : ℕ) : ℕ :=
  min 4 (argLen - branchImmWidth code pc - 1)

/-- `l_x` of the two-register, two-immediate format. -/
def jumpIndWidth (code : List UInt8) (pc : ℕ) : ℕ := min 4 (byteAt code (pc + 2) % 8)

/-- `l_y` of the same format. -/
def jumpIndOffsetWidth (code : List UInt8) (pc argLen : ℕ) : ℕ :=
  min 4 (argLen - jumpIndWidth code pc - 2)

namespace Graypaper

/-- `int(u32(pc + skip_len))`; a value outside the range raises. -/
def advance (pc : ℕ) (skipLen : ℤ) : Next :=
  if 0 ≤ pc + skipLen ∧ pc + skipLen < 2 ^ 32 then .continue (pc + skipLen).toNat else .raised

def sjump (p : PVMCode) (pc : ℕ) (offset : ℤ) : Next :=
  if p.isBlockStart (pc + offset) then advance pc offset else .panic

def branch (p : PVMCode) (pc argLen : ℕ) (b : ℤ) (C : Bool) : Next :=
  if !p.isBlockStart (pc + b) || !p.isBlockStart (pc + (argLen + 1 : ℕ)) then .panic
  else advance pc (if C then b else (argLen + 1 : ℕ))

def djump (p : PVMCode) (pc a : ℕ) : Next :=
  if a = 2 ^ 32 - 2 ^ 16 then .halt
  else if a = 0 ∨ a % 2 ≠ 0 then .panic
  else match p.jumpTable[a / 2 - 1]? with
    | none => .panic
    | some destination =>
      if p.isBlockStart destination then advance pc (destination - pc) else .panic

/-- The immediate `pvm_X(read_uint(..))`; an assertion failure is caught and panics. -/
def withImmediate (code : List UInt8) (addr l : ℕ) (k : ℕ → ControlStep) : ControlStep :=
  match pvmX (readUint code addr l) l with
  | .ok v => k v
  | .error _ => ⟨.panic, none⟩

/-- The offset `pvm_Z(read_uint(..))`. -/
def offset (code : List UInt8) (addr l : ℕ) : ℤ := pvmZ (readUint code addr l) l

/-- `invoke` on a control-flow instruction. -/
def controlStep (p : PVMCode) (pc argLen : ℕ) (reg : Regs) (op : ControlOp) : ControlStep :=
  let b1 := byteAt p.code (pc + 1)
  match op with
  | .fallthrough => ⟨sjump p pc (argLen + 1 : ℕ), none⟩
  | .ecalli =>
    withImmediate p.code (pc + 1) (min 4 argLen) (fun v_x => ⟨.hostHalt v_x, none⟩)
  | .jump => ⟨sjump p pc (offset p.code (pc + 1) (min 4 argLen)), none⟩
  | .jumpInd =>
    let r_a := clampReg (b1 % 16)
    withImmediate p.code (pc + 2) (immWidth argLen) (fun v_x =>
      ⟨djump p pc ((reg.get r_a + v_x) % 2 ^ 32), none⟩)
  | .regImmOffset o =>
    let r_a := clampReg (b1 % 16)
    let w_a := reg.get r_a
    let l_x := branchImmWidth p.code pc
    let l_y := branchImmOffsetWidth p.code pc argLen
    let v_y := offset p.code (pc + 2 + l_x) l_y
    withImmediate p.code (pc + 2) l_x (fun v_x =>
      match o with
      | .loadImmJump => ⟨sjump p pc v_y, some ⟨r_a, v_x⟩⟩
      | _ => ⟨branch p pc argLen v_y (branchImmCondition (fun n => pvmZ n 8) o w_a v_x), none⟩)
  | .regRegOffset o =>
    let w_a := reg.get (clampReg (b1 % 16))
    let w_b := reg.get (clampReg (b1 / 16))
    let v_x := offset p.code (pc + 2) (immWidth argLen)
    ⟨branch p pc argLen v_x (branchCondition (fun n => pvmZ n 8) o w_a w_b), none⟩
  | .loadImmJumpInd =>
    let r_a := clampReg (b1 % 16)
    -- the second register is not clamped; the array access raises and the step panics
    if 12 < b1 / 16 then ⟨.panic, none⟩
    else
      let w_b := reg.get (clampReg (b1 / 16))
      let l_x := jumpIndWidth p.code pc
      let l_y := jumpIndOffsetWidth p.code pc argLen
      withImmediate p.code (pc + 3) l_x (fun v_x =>
        withImmediate p.code (pc + 3 + l_x) l_y (fun v_y =>
          ⟨djump p pc ((w_b + v_y) % 2 ^ 32), some ⟨r_a, v_x⟩⟩))

end Graypaper

namespace CPython

/-- `u32(pc + skip_len)` -/
def advance (pc : ℕ) (skipLen : ℤ) : Next := .continue (unsigned 32 (pc + skipLen))

def sjump (p : PVMCode) (pc : ℕ) (offset : ℤ) : Next :=
  if p.isBlockStart (pc + offset) then advance pc offset else .panic

def branch (p : PVMCode) (pc argLen : ℕ) (b : ℤ) (C : Bool) : Next :=
  if !p.isBlockStart (pc + b) || !p.isBlockStart (pc + (argLen + 1 : ℕ)) then .panic
  else advance pc (if C then b else (argLen + 1 : ℕ))

def djump (p : PVMCode) (pc a : ℕ) : Next :=
  if a = 2 ^ 32 - 2 ^ 16 then .halt
  else if a = 0 ∨ a % 2 ≠ 0 then .panic
  else match p.jumpTable[a / 2 - 1]? with
    | none => .panic
    | some destination =>
      if p.isBlockStart destination then advance pc (destination - pc) else .panic

/-- The immediate `pvm_X(read_uint(..))`. -/
def readImmediate (code : List UInt8) (addr l : ℕ) : ℕ := pvmX (readUint code addr l) l

/-- The offset `pvm_Z(read_uint(..))`. -/
def offset (code : List UInt8) (addr l : ℕ) : ℤ := pvmZ (readUint code addr l) l

/-- The opcode functions of the control-flow instructions. -/
def controlStep (p : PVMCode) (pc argLen : ℕ) (reg : Regs) (op : ControlOp) : ControlStep :=
  let b1 := byteAt p.code (pc + 1)
  match op with
  | .fallthrough => ⟨sjump p pc (argLen + 1 : ℕ), none⟩
  | .ecalli => ⟨.hostHalt (readImmediate p.code (pc + 1) (min 4 argLen)), none⟩
  | .jump => ⟨sjump p pc (offset p.code (pc + 1) (min 4 argLen)), none⟩
  | .jumpInd =>
    let r_a := clampReg (b1 % 16)
    let v_x := readImmediate p.code (pc + 2) (immWidth argLen)
    ⟨djump p pc ((reg.get r_a + v_x) % 2 ^ 32), none⟩
  | .regImmOffset o =>
    let r_a := clampReg (b1 % 16)
    let w_a := reg.get r_a
    let l_x := branchImmWidth p.code pc
    let v_x := readImmediate p.code (pc + 2) l_x
    let l_y := branchImmOffsetWidth p.code pc argLen
    let v_y := offset p.code (pc + 2 + l_x) l_y
    match o with
    | .loadImmJump => ⟨sjump p pc v_y, some ⟨r_a, v_x⟩⟩
    | _ => ⟨branch p pc argLen v_y (branchImmCondition (fun n => pvmZ n 8) o w_a v_x), none⟩
  | .regRegOffset o =>
    let w_a := reg.get (clampReg (b1 % 16))
    let w_b := reg.get (clampReg (b1 / 16))
    let v_x := offset p.code (pc + 2) (immWidth argLen)
    ⟨branch p pc argLen v_x (branchCondition (fun n => pvmZ n 8) o w_a w_b), none⟩
  | .loadImmJumpInd =>
    let r_a := clampReg (b1 % 16)
    let w_b := reg.get (clampReg (b1 / 16))
    let l_x := jumpIndWidth p.code pc
    let v_x := readImmediate p.code (pc + 3) l_x
    let l_y := jumpIndOffsetWidth p.code pc argLen
    let v_y := readImmediate p.code (pc + 3 + l_x) l_y
    ⟨djump p pc ((w_b + v_y) % 2 ^ 32), some ⟨r_a, v_x⟩⟩

end CPython

namespace Numba

/-- `basic_block_start_mask`, as long as the last instruction position requires. -/
def basicBlockStartMask (p : PVMCode) : List Bool :=
  let positions := (decodeInstructions p.code p.opcodeBitmask).1.map Prod.fst
  let size := if positions = [] then p.code.length + 25 else positions.foldr max 0 + 1
  (List.range size).map (fun i => decide (i ∈ p.basicBlockStarts))

/-- `0 <= target < len(mask) and mask[target]` -/
def maskAt (mask : List Bool) (target : ℤ) : Bool :=
  0 ≤ target ∧ target < mask.length ∧ mask.getD target.toNat false = true

/-- `np.array(jump_table, dtype=np.int32)`; an entry that does not fit raises. -/
def jumpTableArray (p : PVMCode) : Option (List ℕ) :=
  if p.jumpTable.all (fun x => decide (x < 2 ^ 31)) then some p.jumpTable else none

/-- `branch_jit`: `-1` for an invalid target or fallthrough, else the condition; a negative
fallthrough is not checked. -/
def branchJit (mask : List Bool) (pc : ℕ) (offset : ℤ) (condition : Bool) (fallthrough : ℤ) : ℤ :=
  if !maskAt mask (pc + offset) then -1
  else if 0 ≤ fallthrough ∧ !(fallthrough < mask.length ∧ mask.getD fallthrough.toNat false) then -1
  else if condition then 1 else 0

/-- `djump_jit`: `-1` to halt, `-2` to panic, else the distance to the destination as an `int32`. -/
def djumpJit (jumpTable : List ℕ) (mask : List Bool) (a pc : ℕ) : ℤ :=
  if a = 2 ^ 32 - 2 ^ 16 then -1
  else if a = 0 ∨ jumpTable.length * 2 < a ∨ a % 2 ≠ 0 then -2
  else match jumpTable[a / 2 - 1]? with
    | none => -2
    | some targetPc =>
      if !maskAt mask targetPc then -2
      else signed 32 (unsigned 32 ((targetPc : ℤ) - pc))

/-- `pc = U32(pc + skip_len)` -/
def advance (pc : ℕ) (skipLen : ℤ) : Next := .continue (unsigned 32 (pc + skipLen))

/-- The code around `branch_jit` for an unconditional jump. -/
def sjump (mask : List Bool) (pc : ℕ) (v : ℤ) : Next :=
  if branchJit mask pc v true (-1) = -1 then .panic else advance pc v

/-- The code around `branch_jit` for a branch. -/
def branch (mask : List Bool) (pc argLen : ℕ) (v : ℤ) (C : Bool) : Next :=
  if branchJit mask pc v C (pc + (argLen + 1 : ℕ)) = -1 then .panic
  else advance pc (if C then v else (argLen + 1 : ℕ))

/-- The code around `djump_jit`. -/
def djump (jumpTable : List ℕ) (mask : List Bool) (pc a : ℕ) : Next :=
  let result := djumpJit jumpTable mask a pc
  if result = -1 then .halt else if result = -2 then .panic else advance pc result

/-- The immediate `pvm_X_jit(read_uint_jit(..))`. -/
def readImmediate (code : List UInt8) (addr l : ℕ) : ℕ := pvmX (readUint code addr l) l

/-- The offset `pvm_Z_jit(read_uint_jit(..))`. -/
def offset (code : List UInt8) (addr l : ℕ) : ℤ := pvmZ (readUint code addr l) l

/-- `invoke_native` on a control-flow instruction of an interpreter built for `p`. -/
def controlStep (p : PVMCode) (pc argLen : ℕ) (reg : Regs) (op : ControlOp) : ControlStep :=
  match jumpTableArray p with
  | none => ⟨.raised, none⟩
  | some jumpTable =>
  let mask := basicBlockStartMask p
  let b1 := byteAt p.code (pc + 1)
  match op with
  | .fallthrough => ⟨sjump mask pc (argLen + 1 : ℕ), none⟩
  | .ecalli => ⟨.hostHalt (signed 64 (readImmediate p.code (pc + 1) (min 4 argLen))), none⟩
  | .jump => ⟨sjump mask pc (offset p.code (pc + 1) (min 4 argLen)), none⟩
  | .jumpInd =>
    let r_a := clampReg (b1 % 16)
    let v_x := readImmediate p.code (pc + 2) (immWidth argLen)
    ⟨djump jumpTable mask pc ((reg.get r_a + v_x) % 2 ^ 64 % 2 ^ 32), none⟩
  | .regImmOffset o =>
    let r_a := clampReg (b1 % 16)
    let w_a := reg.get r_a
    let l_x := branchImmWidth p.code pc
    let v_x := readImmediate p.code (pc + 2) l_x
    let l_y := branchImmOffsetWidth p.code pc argLen
    let v_y := offset p.code (pc + 2 + l_x) l_y
    match o with
    | .loadImmJump => ⟨sjump mask pc v_y, some ⟨r_a, v_x⟩⟩
    | _ => ⟨branch mask pc argLen v_y (branchImmCondition (fun n => pvmZ n 8) o w_a v_x), none⟩
  | .regRegOffset o =>
    let w_a := reg.get (clampReg (b1 % 16))
    let w_b := reg.get (clampReg (b1 / 16))
    let v_x := offset p.code (pc + 2) (immWidth argLen)
    ⟨branch mask pc argLen v_x (branchCondition (fun n => pvmZ n 8) o w_a w_b), none⟩
  | .loadImmJumpInd =>
    let r_a := clampReg (b1 % 16)
    -- the second register is not clamped; compiled code reads past the register array
    if 12 < b1 / 16 then ⟨.undefined, none⟩
    else
      let w_b := reg.get (clampReg (b1 / 16))
      let l_x := jumpIndWidth p.code pc
      let v_x := readImmediate p.code (pc + 3) l_x
      let l_y := jumpIndOffsetWidth p.code pc argLen
      let v_y := readImmediate p.code (pc + 3 + l_x) l_y
      ⟨djump jumpTable mask pc ((w_b + v_y) % 2 ^ 64 % 2 ^ 32), some ⟨r_a, v_x⟩⟩

end Numba

end Pvm
