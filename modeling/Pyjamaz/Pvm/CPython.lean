import Mathlib.Data.Int.Bitwise
import Pyjamaz.Library.TwosComplement
import Pyjamaz.Pvm.Machine

/-!
# The CPython interpreter

`interpreters/cpython`: one Python function per opcode, over plain Python integers.  Registers are
elements of a Python list, so nothing checks that a written value fits in 64 bits; every function
has to mask its own result.  `u32`, `u64` and masking with `2 ^ k - 1` are written as reduction
modulo `2 ^ k`.  A division by zero raises `ZeroDivisionError`.
-/

namespace Pvm

namespace CPython

open TwosComplement

/-! ## Helper functions (`cpython/defs.py`) -/

/-- `pvm_X`: sign extension by bit operations; widths one to seven share one form. -/
def pvmX (x n : ℕ) : ℕ :=
  if 1 ≤ n ∧ n ≤ 7 then
    let masked := x % 2 ^ (8 * n)
    if masked &&& 2 ^ (8 * n - 1) ≠ 0 then masked ||| (2 ^ 64 - 2 ^ (8 * n)) else masked
  else if n = 8 then x % 2 ^ 64
  else x

/-- `pvm_Z`: `(u ^ sign) - sign` on the low `n` bytes. -/
def pvmZ (a n : ℕ) : ℤ :=
  if n = 0 then 0 else (((a % 2 ^ (8 * n)) ^^^ 2 ^ (8 * n - 1) : ℕ) : ℤ) - 2 ^ (8 * n - 1)

/-- `pvm_Z_inv` -/
def pvmZInv (a : ℤ) (n : ℕ) : ℕ := if n = 0 then 0 else unsigned 64 a % 2 ^ (8 * n)

def rori64 (x shiftAmount : ℕ) : ℕ :=
  let x := x % 2 ^ 64
  (x >>> (shiftAmount % 64) ||| x <<< (64 - shiftAmount % 64)) % 2 ^ 64

def roli64 (x shiftAmount : ℕ) : ℕ :=
  let x := x % 2 ^ 64
  (x <<< (shiftAmount % 64) ||| x >>> (64 - shiftAmount % 64)) % 2 ^ 64

/-- `rotl32` -/
def rotl32 (x s : ℕ) : ℕ :=
  let x := x % 2 ^ 32
  (x <<< (s % 32) ||| x >>> (32 - s % 32)) % 2 ^ 32

/-- `rotr32` -/
def rotr32 (x s : ℕ) : ℕ :=
  let x := x % 2 ^ 32
  (x >>> (s % 32) ||| x <<< (32 - s % 32)) % 2 ^ 32

/-- `rori32`: the same body under a second name. -/
def rori32 (x shiftAmount : ℕ) : ℕ := rotr32 x shiftAmount

/-- `struct.pack('>Q', x)` -/
def packBigEndian (x : ℕ) : List ℕ :=
  [7, 6, 5, 4, 3, 2, 1, 0].map (fun i => x / 2 ^ (8 * i) % 2 ^ 8)

/-- `struct.unpack('<Q', bs)[0]` -/
def unpackLittleEndian : List ℕ → ℕ
  | [] => 0
  | b :: bs => b + 2 ^ 8 * unpackLittleEndian bs

def reverseBytes (x : ℕ) : ℕ := unpackLittleEndian (packBigEndian x)

def countTrailingZeroes (value maxBits : ℕ) : ℕ :=
  if value = 0 then maxBits else bitLength (Int.land value (-value)).toNat - 1

def countLeadingZeroes (value maxBits : ℕ) : ℕ :=
  if value % 2 ^ maxBits = 0 then maxBits else maxBits - bitLength (value % 2 ^ maxBits)

def pvmSmod (a b : ℤ) : ℤ :=
  if b = 0 then a
  else if 0 ≤ a then
    if 0 ≤ b then a.fmod b else a.fmod (-b)
  else
    if 0 ≤ b then -((-a).fmod b) else -((-a).fmod (-b))

def pvmRtzDiv (a b : ℤ) : ℤ :=
  if 0 ≤ a then
    if 0 < b then a.fdiv b else -(a.fdiv (-b))
  else
    if 0 < b then -((-a).fdiv b) else (-a).fdiv (-b)

/-- `read_uint`: little-endian read of at most four code bytes. -/
def readUint (code : List UInt8) (addr : ℕ) : ℕ → ℕ
  | 0 => 0
  | 1 => byteAt code addr
  | 2 => byteAt code addr + 2 ^ 8 * byteAt code (addr + 1)
  | 3 => (byteAt code addr + 2 ^ 8 * byteAt code (addr + 1)) ||| byteAt code (addr + 2) <<< 16
  | _ => byteAt code addr + 2 ^ 8 * byteAt code (addr + 1) + 2 ^ 16 * byteAt code (addr + 2) +
      2 ^ 24 * byteAt code (addr + 3)

/-! ## Register instructions (`cpython/opcodes`) -/

/-- `opcodes/reg_reg.py` -/
def regRegValue (o : RegRegOp) (w_a : ℕ) : ℤ :=
  match o with
  | .moveReg => w_a
  | .countSetBits64 => bitCount (w_a % 2 ^ 64)
  | .countSetBits32 => bitCount (w_a % 2 ^ 32)
  | .leadingZeroBits64 => countLeadingZeroes w_a 64
  | .leadingZeroBits32 => countLeadingZeroes w_a 32
  | .trailingZeroBits64 => countTrailingZeroes w_a 64
  -- unlike the other 32-bit counts, nothing masks the operand here
  | .trailingZeroBits32 => countTrailingZeroes w_a 32
  | .signExtend8 => pvmZInv (pvmZ (w_a % 2 ^ 8) 1) 8
  | .signExtend16 => pvmZInv (pvmZ (w_a % 2 ^ 16) 2) 8
  | .zeroExtend16 => (w_a % 2 ^ 16 : ℕ)
  | .reverseBytes => reverseBytes (w_a % 2 ^ 64)

/-- `opcodes/reg_reg_imm.py` -/
def regRegImmValue (o : RegRegImmOp) (w_b v_x : ℕ) : Value :=
  let ok (v : ℤ) : Value := .ok (some v)
  match o with
  | .addImm32 => ok (pvmX ((w_b + v_x) % 2 ^ 32) 4)
  | .andImm => ok (w_b &&& v_x : ℕ)
  | .xorImm => ok (w_b ^^^ v_x : ℕ)
  | .orImm => ok (w_b ||| v_x : ℕ)
  | .mulImm32 => ok (pvmX (w_b * v_x % 2 ^ 32) 4)
  | .setLtUImm => ok (if w_b < v_x then 1 else 0)
  | .setLtSImm => ok (if pvmZ w_b 8 < pvmZ v_x 8 then 1 else 0)
  | .shloLImm32 => ok (pvmX (w_b <<< (v_x % 32) % 2 ^ 32) 4)
  | .shloRImm32 => ok (pvmX ((w_b % 2 ^ 32) >>> (v_x % 32)) 4)
  | .sharRImm32 => ok (pvmZInv (pvmZ (w_b % 2 ^ 32) 4 >>> (v_x % 32)) 8)
  | .negAddImm32 => ok (pvmX (unsigned 32 (v_x + 2 ^ 32 - w_b)) 4)
  | .setGtUImm => ok (if v_x < w_b then 1 else 0)
  | .setGtSImm => ok (if pvmZ v_x 8 < pvmZ w_b 8 then 1 else 0)
  | .shloLImmAlt32 => ok (pvmX (v_x <<< (w_b % 32) % 2 ^ 32) 4)
  | .shloRImmAlt32 => ok (pvmX ((v_x % 2 ^ 32) >>> (w_b % 32)) 4)
  | .sharRImmAlt32 => ok (pvmZInv (pvmZ (v_x % 2 ^ 32) 4 >>> (w_b % 32)) 8)
  | .cmovIzImm => if w_b = 0 then ok v_x else .ok none
  | .cmovNzImm => if w_b ≠ 0 then ok v_x else .ok none
  | .addImm64 => ok ((w_b + v_x) % 2 ^ 64 : ℕ)
  | .mulImm64 => ok (w_b * v_x % 2 ^ 64 : ℕ)
  | .shloLImm64 => ok (pvmX (w_b <<< (v_x % 64)) 8)
  | .shloRImm64 => ok (pvmX (w_b >>> (v_x % 64)) 8)
  | .sharRImm64 => ok (pvmZInv (pvmZ w_b 8 >>> (v_x % 64)) 8)
  | .negAddImm64 => ok (unsigned 64 (v_x + 2 ^ 64 - w_b))
  | .shloLImmAlt64 => ok (v_x <<< (w_b % 64) % 2 ^ 64 : ℕ)
  | .shloRImmAlt64 => ok (v_x >>> (w_b % 64) : ℕ)
  | .sharRImmAlt64 =>
    let shifted := pvmZ v_x 8 >>> (w_b % 64)
    let shifted := if shifted < 0 then shifted + 2 ^ 64 else shifted
    ok (unsigned 64 shifted)
  | .rotR64Imm => ok (rori64 w_b v_x)
  | .rotR64ImmAlt => ok (rori64 v_x w_b)
  | .rotR32Imm => ok (pvmX (rori32 w_b v_x) 4)
  | .rotR32ImmAlt => ok (pvmX (rori32 v_x w_b) 4)

/-- `opcodes/reg_reg_reg.py` -/
def regRegRegValue (o : RegRegRegOp) (a b : ℕ) : Value :=
  let ok (v : ℤ) : Value := .ok (some v)
  match o with
  | .add32 => ok (pvmX ((a + b) % 2 ^ 32) 4)
  | .sub32 => ok (pvmX (unsigned 32 (a + 2 ^ 32 - (b % 2 ^ 32 : ℕ))) 4)
  | .mul32 => ok (pvmX (a * b % 2 ^ 32) 4)
  | .divU32 =>
    -- the guard looks at the whole register, the division at its low half
    if b = 0 then ok (2 ^ 64 - 1)
    else if b % 2 ^ 32 = 0 then .error .zeroDivisionError
    else ok (pvmX (a % 2 ^ 32 / (b % 2 ^ 32)) 4)
  | .divS32 =>
    let a_s32 := pvmZ (a % 2 ^ 32) 4
    let b_s32 := pvmZ (b % 2 ^ 32) 4
    if b_s32 = 0 then ok (2 ^ 64 - 1)
    else if a_s32 = -2 ^ 31 ∧ b_s32 = -1 then ok (pvmZInv a_s32 8)
    else ok (pvmZInv (pvmRtzDiv a_s32 b_s32) 8)
  | .remU32 =>
    if b % 2 ^ 32 = 0 then ok (pvmX (a % 2 ^ 32) 4)
    else ok (pvmX (a % 2 ^ 32 % (b % 2 ^ 32)) 4)
  | .remS32 =>
    let a_s32 := pvmZ (a % 2 ^ 32) 4
    let b_s32 := pvmZ (b % 2 ^ 32) 4
    if b_s32 = 0 then ok (pvmZInv a_s32 8)
    else if a_s32 = -2 ^ 31 ∧ b_s32 = -1 then ok 0
    else ok (pvmZInv (pvmSmod a_s32 b_s32) 8)
  | .shloL32 => ok (pvmX (a <<< (b % 32) % 2 ^ 32) 4)
  | .shloR32 => ok (pvmX ((a % 2 ^ 32) >>> (b % 32)) 4)
  | .sharR32 =>
    let val_32 : ℤ := (a % 2 ^ 32 : ℕ)
    let val_32 := if 2 ^ 31 ≤ val_32 then val_32 - 2 ^ 32 else val_32
    let result := val_32 >>> (b % 32)
    let result := if result < 0 then result + 2 ^ 64 else result
    ok (pvmZInv result 8)
  | .add64 => ok ((a + b) % 2 ^ 64 : ℕ)
  | .sub64 => ok (unsigned 64 (a + 2 ^ 64 - b))
  | .mul64 => ok (a * b % 2 ^ 64 : ℕ)
  | .divU64 => if b = 0 then ok (2 ^ 64 - 1) else ok (a / b : ℕ)
  | .divS64 =>
    if b = 0 then ok (2 ^ 64 - 1)
    else if pvmZ a 8 = -2 ^ 63 ∧ pvmZ b 8 = -1 then ok a
    else ok (pvmZInv (pvmRtzDiv (pvmZ a 8) (pvmZ b 8)) 8)
  | .remU64 => if b = 0 then ok a else ok (a % b : ℕ)
  | .remS64 =>
    if b = 0 then ok a
    else if pvmZ a 8 = -2 ^ 63 ∧ pvmZ b 8 = -1 then ok 0
    else ok (pvmZInv (pvmSmod (pvmZ a 8) (pvmZ b 8)) 8)
  | .shloL64 => ok (a <<< (b % 64) % 2 ^ 64 : ℕ)
  | .shloR64 => ok (a >>> (b % 64) : ℕ)
  | .sharR64 => ok (pvmZInv (pvmZ a 8 >>> (b % 64)) 8)
  | .and => ok (a &&& b : ℕ)
  | .xor => ok (a ^^^ b : ℕ)
  | .or => ok (a ||| b : ℕ)
  | .mulUpperSS => ok (pvmZInv ((pvmZ a 8 * pvmZ b 8) >>> (64 : ℕ)) 8)
  | .mulUpperUU => ok ((a * b) >>> 64 : ℕ)
  | .mulUpperSU => ok (pvmZInv ((pvmZ a 8 * b) >>> (64 : ℕ)) 8)
  | .setLtU => ok (if a < b then 1 else 0)
  | .setLtS => ok (if pvmZ a 8 < pvmZ b 8 then 1 else 0)
  | .cmovIz => if b = 0 then ok a else .ok none
  | .cmovNz => if b ≠ 0 then ok a else .ok none
  | .rotL64 => ok (roli64 a (b % 64))
  | .rotL32 => ok (pvmX (rotl32 a b) 4)
  | .rotR64 => ok (rori64 a (b % 64))
  | .rotR32 => ok (pvmX (rotr32 a b) 4)
  -- Python's `~n` is `-n - 1`
  | .andInv => ok (a &&& unsigned 64 (-(b : ℤ) - 1) : ℕ)
  | .orInv => ok (a ||| unsigned 64 (-(b : ℤ) - 1) : ℕ)
  | .xnor => ok (unsigned 64 (-((a ^^^ b : ℕ) : ℤ) - 1))
  | .max => ok (pvmZInv (max (pvmZ a 8) (pvmZ b 8)) 8)
  | .maxU => ok (max a b : ℕ)
  | .min => ok (pvmZInv (min (pvmZ a 8) (pvmZ b 8)) 8)
  | .minU => ok (min a b : ℕ)

/-- The immediate of the two-register format. -/
def fetchImm (code : List UInt8) (pc argLen : ℕ) : ℕ :=
  pvmX (readUint code (pc + 2) (immWidth argLen)) (immWidth argLen)

/-- One `reg_reg` instruction. -/
def stepRegReg (o : RegRegOp) (code : List UInt8) (pc : ℕ) (reg : Regs) : Outcome :=
  let r := fetchRegs code pc
  Value.writeTo r.low (.ok (some (regRegValue o (reg.get r.high))))

/-- One register-only `reg_reg_imm` instruction. -/
def stepRegRegImm (o : RegRegImmOp) (code : List UInt8) (pc argLen : ℕ) (reg : Regs) : Outcome :=
  let r := fetchRegs code pc
  (regRegImmValue o (reg.get r.high) (fetchImm code pc argLen)).writeTo r.low

/-- One `reg_reg_reg` instruction. -/
def stepRegRegReg (o : RegRegRegOp) (code : List UInt8) (pc : ℕ) (reg : Regs) : Outcome :=
  let r := fetchRegs code pc
  (regRegRegValue o (reg.get r.low) (reg.get r.high)).writeTo r.third

end CPython

end Pvm
