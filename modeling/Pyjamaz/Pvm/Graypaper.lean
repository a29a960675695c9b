import Mathlib.Data.Int.Bitwise
import Pyjamaz.Library.TwosComplement
import Pyjamaz.Pvm.Machine

/-!
# The Graypaper interpreter

`interpreters/graypaper`: the interpreter that follows the specification's formulas.  Registers are
NumPy `uint64` scalars, so sums and products of registers wrap modulo `2 ^ 64`, a shift by 64 or more
gives zero, and assigning a Python integer outside the unsigned range to a register raises
`OverflowError` (`setReg`).  Where the source converts a register with `int(..)` the arithmetic is
exact.  Masking with `2 ^ k - 1` is written as reduction modulo `2 ^ k`, which is what Python's `&`
computes on integers of either sign.
-/

namespace Pvm

namespace Graypaper

open TwosComplement

/-! ## Helper functions (`graypaper/defs.py`) -/

/-- `pvm_X`: sign extension of an `n`-byte value, which must fit.  At `n = 0` the source divides by
the float `2 ** -1`; the only value that fits is zero, which stays zero. -/
def pvmX (x n : ℕ) : Except Fault ℕ :=
  if x < 2 ^ (8 * n) ∧ 2 ^ (8 * n) ≤ 2 ^ 64 then
    .ok (x + x / 2 ^ (8 * n - 1) * (2 ^ 64 - 2 ^ (8 * n)))
  else .error .assertionError

/-- `pvm_Z`: the signed value of an `n`-byte word. -/
def pvmZ (a n : ℕ) : ℤ := if a < 2 ^ (8 * n - 1) then a else (a : ℤ) - 2 ^ (8 * n)

/-- `pvm_Z_inv`: the `n`-byte word of a signed value. -/
def pvmZInv (a : ℤ) (n : ℕ) : ℕ := ((2 ^ (8 * n) + a) % 2 ^ (8 * n)).toNat

/-- `rori64`; NumPy's truncation of the left shift to 64 bits is absorbed by the final mask. -/
def rori64 (x shiftAmount : ℕ) : ℕ :=
  (x >>> (shiftAmount % 64) ||| x <<< (64 - shiftAmount % 64)) % 2 ^ 64

def roli64 (x shiftAmount : ℕ) : ℕ :=
  (x <<< (shiftAmount % 64) ||| x >>> (64 - shiftAmount % 64)) % 2 ^ 64

def rori32 (x shiftAmount : ℕ) : ℕ :=
  (x >>> (shiftAmount % 32) ||| x <<< (32 - shiftAmount % 32)) % 2 ^ 32

def roli32 (x shiftAmount : ℕ) : ℕ :=
  (x <<< (shiftAmount % 32) ||| x >>> (32 - shiftAmount % 32)) % 2 ^ 32

def reverseBytes (x : ℕ) : ℕ :=
  (x &&& 0x00000000000000FF) <<< (8 * 7) ||| (x &&& 0x000000000000FF00) <<< (8 * 5) |||
  (x &&& 0x0000000000FF0000) <<< (8 * 3) ||| (x &&& 0x00000000FF000000) <<< (8 * 1) |||
  (x &&& 0x000000FF00000000) >>> (8 * 1) ||| (x &&& 0x0000FF0000000000) >>> (8 * 3) |||
  (x &&& 0x00FF000000000000) >>> (8 * 5) ||| (x &&& 0xFF00000000000000) >>> (8 * 7)

/-- `count_trailing_zeroes` of a `uint64`, whose negation wraps. -/
def countTrailingZeroes64 (value : ℕ) : ℕ :=
  if value = 0 then 64 else bitLength (value &&& (2 ^ 64 - value)) - 1

/-- `count_trailing_zeroes` of a Python integer, whose negation does not wrap. -/
def countTrailingZeroes (value maxBits : ℕ) : ℕ :=
  if value = 0 then maxBits else bitLength (Int.land value (-value)).toNat - 1

def countLeadingZeroes (value maxBits : ℕ) : ℕ :=
  if value % 2 ^ maxBits = 0 then maxBits else maxBits - bitLength (value % 2 ^ maxBits)

def pvmSmod (a b : ℤ) : ℤ :=
  if b = 0 then a else (if 0 ≤ a then 1 else -1) * (a.natAbs % b.natAbs : ℕ)

def pvmRtzDiv (a b : ℤ) : ℤ :=
  if (decide (0 ≤ a)) = (decide (0 ≤ b)) then ((a.natAbs / b.natAbs : ℕ) : ℤ)
  else -((a.natAbs / b.natAbs : ℕ) : ℤ)

/-- `read_uint`: little-endian read of at most four code bytes. -/
def readUint (code : List UInt8) (addr : ℕ) : ℕ → ℕ
  | 0 => 0
  | 1 => byteAt code addr % 2 ^ 8
  | 2 => (byteAt code (addr + 1) <<< 8 + byteAt code addr) % 2 ^ 16
  | 3 => (byteAt code (addr + 2) <<< 16 + byteAt code (addr + 1) <<< 8 + byteAt code addr) % 2 ^ 32
  | _ => (byteAt code (addr + 3) <<< 24 + byteAt code (addr + 2) <<< 16 +
      byteAt code (addr + 1) <<< 8 + byteAt code addr) % 2 ^ 32

/-- Assignment to an element of the `uint64` register array. -/
def setReg : Option ℤ → Value
  | none => .ok none
  | some v => if 0 ≤ v ∧ v < 2 ^ 64 then .ok (some v) else .error .overflowError

/-! ## Register instructions (`invoke`, groups `reg_reg`, `reg_reg_imm`, `reg_reg_reg`) -/

/-- The right-hand sides of the `reg_reg` group. -/
def regRegValue (o : RegRegOp) (w_a : ℕ) : ℤ :=
  match o with
  | .moveReg => w_a
  | .countSetBits64 => bitCount w_a
  | .countSetBits32 => bitCount (w_a % 2 ^ 32)
  | .leadingZeroBits64 => countLeadingZeroes w_a 64
  | .leadingZeroBits32 => countLeadingZeroes (w_a % 2 ^ 32) 32
  | .trailingZeroBits64 => countTrailingZeroes64 w_a
  | .trailingZeroBits32 => countTrailingZeroes (w_a % 2 ^ 32) 32
  | .signExtend8 => pvmZInv (pvmZ (w_a % 2 ^ 8) 1) 8
  | .signExtend16 => pvmZInv (pvmZ (w_a % 2 ^ 16) 2) 8
  | .zeroExtend16 => (w_a % 2 ^ 16 : ℕ)
  | .reverseBytes => reverseBytes w_a

/-- The right-hand sides of the register-only `reg_reg_imm` group; `none` writes nothing. -/
def regRegImmValue (o : RegRegImmOp) (w_b v_x : ℕ) : Value :=
  let ext (x : ℕ) : Value := do let r ← pvmX x 4; pure (some (r : ℤ))
  let ok (v : ℤ) : Value := .ok (some v)
  match o with
  | .addImm32 => ext ((w_b + v_x) % 2 ^ 32)
  | .andImm => ok (w_b &&& v_x : ℕ)
  | .xorImm => ok (w_b ^^^ v_x : ℕ)
  | .orImm => ok (w_b ||| v_x : ℕ)
  | .mulImm32 => ext (w_b * v_x % 2 ^ 32)
  | .setLtUImm => ok (if w_b < v_x then 1 else 0)
  | .setLtSImm => ok (if pvmZ w_b 8 < pvmZ v_x 8 then 1 else 0)
  | .shloLImm32 => ext (w_b <<< (v_x % 32) % 2 ^ 32)
  | .shloRImm32 => ext ((w_b % 2 ^ 32) >>> (v_x % 32))
  | .sharRImm32 => ok (pvmZInv (pvmZ (w_b % 2 ^ 32) 4 >>> (v_x % 32)) 8)
  | .negAddImm32 => ext (unsigned 32 (v_x + 2 ^ 32 - w_b))
  | .setGtUImm => ok (if v_x < w_b then 1 else 0)
  | .setGtSImm => ok (if pvmZ v_x 8 < pvmZ w_b 8 then 1 else 0)
  | .shloLImmAlt32 => ext (v_x <<< (w_b % 32) % 2 ^ 32)
  | .shloRImmAlt32 => ext ((v_x % 2 ^ 32) >>> (w_b % 32))
  | .sharRImmAlt32 => ok (pvmZInv (pvmZ (v_x % 2 ^ 32) 4 >>> (w_b % 32)) 8)
  | .cmovIzImm => if w_b = 0 then ok v_x else .ok none
  | .cmovNzImm => if w_b ≠ 0 then ok v_x else .ok none
  | .addImm64 => ok ((w_b + v_x) % 2 ^ 64 : ℕ)
  | .mulImm64 => ok (w_b * v_x % 2 ^ 64 : ℕ)
  | .shloLImm64 => do let r ← pvmX (w_b * 2 ^ (v_x % 64) % 2 ^ 64) 8; pure (some (r : ℤ))
  | .shloRImm64 => do let r ← pvmX (w_b / 2 ^ (v_x % 64)) 8; pure (some (r : ℤ))
  | .sharRImm64 => ok (pvmZInv ((pvmZ w_b 8).fdiv (2 ^ (v_x % 64))) 8)
  | .negAddImm64 => ok (((v_x : ℤ) + 2 ^ 64 - w_b) % 2 ^ 64)
  | .shloLImmAlt64 => ok (v_x * 2 ^ (w_b % 64) % 2 ^ 64 : ℕ)
  | .shloRImmAlt64 => ok (v_x / 2 ^ (w_b % 64) : ℕ)
  | .sharRImmAlt64 => ok (pvmZInv ((pvmZ v_x 8).fdiv (2 ^ (w_b % 64))) 8)
  | .rotR64Imm => ok (rori64 w_b v_x)
  | .rotR64ImmAlt => ok (rori64 v_x w_b)
  | .rotR32Imm => ext (rori32 (w_b % 2 ^ 32) v_x)
  | .rotR32ImmAlt => ext (rori32 (v_x % 2 ^ 32) w_b)

/-- The right-hand sides of the `reg_reg_reg` group; `none` writes nothing. -/
def regRegRegValue (o : RegRegRegOp) (w_a w_b : ℕ) : Value :=
  let ext (x : ℕ) : Value := do let r ← pvmX x 4; pure (some (r : ℤ))
  let ok (v : ℤ) : Value := .ok (some v)
  match o with
  | .add32 => ext ((w_a + w_b) % 2 ^ 32)
  | .sub32 => ext (unsigned 32 ((w_a % 2 ^ 32 : ℕ) - (w_b % 2 ^ 32 : ℕ)))
  | .mul32 => ext (w_a * w_b % 2 ^ 32)
  | .divU32 =>
    if w_b % 2 ^ 32 = 0 then ok (2 ^ 64 - 1) else ext (w_a % 2 ^ 32 / (w_b % 2 ^ 32))
  | .divS32 =>
    let a := pvmZ (w_a % 2 ^ 32) 4
    let b := pvmZ (w_b % 2 ^ 32) 4
    if b = 0 then ok (2 ^ 64 - 1)
    else if a = -2 ^ 31 ∧ b = -1 then ok (pvmZInv a 8)
    else ok (pvmZInv (pvmRtzDiv a b) 8)
  | .remU32 =>
    if w_b % 2 ^ 32 = 0 then ext (w_a % 2 ^ 32) else ext (w_a % 2 ^ 32 % (w_b % 2 ^ 32))
  | .remS32 =>
    let a := pvmZ (w_a % 2 ^ 32) 4
    let b := pvmZ (w_b % 2 ^ 32) 4
    if b = 0 then ok (pvmZInv a 8)
    else if a = -2 ^ 31 ∧ b = -1 then ok 0
    else ok (pvmZInv (pvmSmod a b) 8)
  | .shloL32 => ext (w_a <<< (w_b % 32) % 2 ^ 32)
  | .shloR32 => ext ((w_a % 2 ^ 32) >>> (w_b % 32))
  | .sharR32 => ok (pvmZInv (pvmZ (w_a % 2 ^ 32) 4 >>> (w_b % 32)) 8)
  | .add64 => ok ((w_a + w_b) % 2 ^ 64 : ℕ)
  | .sub64 => ok (((w_a : ℤ) + 2 ^ 64 - w_b) % 2 ^ 64)
  | .mul64 => ok (w_a * w_b % 2 ^ 64 : ℕ)
  | .divU64 => if w_b = 0 then ok (2 ^ 64 - 1) else ok (w_a / w_b : ℕ)
  | .divS64 =>
    if w_b = 0 then ok (2 ^ 64 - 1)
    else if pvmZ w_a 8 = -2 ^ 63 ∧ pvmZ w_b 8 = -1 then ok w_a
    else ok (pvmZInv (pvmRtzDiv (pvmZ w_a 8) (pvmZ w_b 8)) 8)
  | .remU64 => if w_b = 0 then ok w_a else ok (w_a % w_b : ℕ)
  | .remS64 =>
    let a := pvmZ w_a 8
    let b := pvmZ w_b 8
    if w_b = 0 then ok w_a
    else if a = -2 ^ 63 ∧ b = -1 then ok 0
    else ok (pvmZInv (pvmSmod a b) 8)
  | .shloL64 => ok (w_a * 2 ^ (w_b % 64) % 2 ^ 64 : ℕ)
  | .shloR64 => ok (w_a / 2 ^ (w_b % 64) : ℕ)
  | .sharR64 => ok (pvmZInv ((pvmZ w_a 8).fdiv (2 ^ (w_b % 64))) 8)
  | .and => ok (w_a &&& w_b : ℕ)
  | .xor => ok (w_a ^^^ w_b : ℕ)
  | .or => ok (w_a ||| w_b : ℕ)
  | .mulUpperSS => ok (pvmZInv ((pvmZ w_a 8 * pvmZ w_b 8).fdiv (2 ^ 64)) 8)
  | .mulUpperUU => ok (w_a * w_b / 2 ^ 64 : ℕ)
  | .mulUpperSU => ok (pvmZInv ((pvmZ w_a 8 * w_b).fdiv (2 ^ 64)) 8)
  | .setLtU => ok (if w_a < w_b then 1 else 0)
  | .setLtS => ok (if pvmZ w_a 8 < pvmZ w_b 8 then 1 else 0)
  | .cmovIz => if w_b = 0 then ok w_a else .ok none
  | .cmovNz => if w_b ≠ 0 then ok w_a else .ok none
  | .rotL64 => ok (roli64 w_a (w_b % 64))
  | .rotL32 => ext (roli32 (w_a % 2 ^ 32) w_b)
  | .rotR64 => ok (rori64 w_a (w_b % 64))
  | .rotR32 => ext (rori32 (w_a % 2 ^ 32) w_b)
  | .andInv => ok (w_a &&& (2 ^ 64 - 1 - w_b) : ℕ)
  | .orInv => ok (w_a ||| (2 ^ 64 - 1 - w_b) : ℕ)
  | .xnor => ok (2 ^ 64 - 1 - (w_a ^^^ w_b) : ℕ)
  | .max => ok (pvmZInv (max (pvmZ w_a 8) (pvmZ w_b 8)) 8)
  | .maxU => ok (max w_a w_b : ℕ)
  | .min => ok (pvmZInv (min (pvmZ w_a 8) (pvmZ w_b 8)) 8)
  | .minU => ok (min w_a w_b : ℕ)

/-- The immediate of the two-register format. -/
def fetchImm (code : List UInt8) (pc argLen : ℕ) : Except Fault ℕ :=
  pvmX (readUint code (pc + 2) (immWidth argLen)) (immWidth argLen)

/-- One `reg_reg` instruction. -/
def stepRegReg (o : RegRegOp) (code : List UInt8) (pc : ℕ) (reg : Regs) : Outcome :=
  let r := fetchRegs code pc
  (setReg (some (regRegValue o (reg.get r.high)))).writeTo r.low

/-- One register-only `reg_reg_imm` instruction. -/
def stepRegRegImm (o : RegRegImmOp) (code : List UInt8) (pc argLen : ℕ) (reg : Regs) : Outcome :=
  let r := fetchRegs code pc
  Value.writeTo r.low (do
    let v_x ← fetchImm code pc argLen
    let v ← regRegImmValue o (reg.get r.high) v_x
    setReg v)

/-- One `reg_reg_reg` instruction. -/
def stepRegRegReg (o : RegRegRegOp) (code : List UInt8) (pc : ℕ) (reg : Regs) : Outcome :=
  let r := fetchRegs code pc
  Value.writeTo r.third (do
    let v ← regRegRegValue o (reg.get r.low) (reg.get r.high)
    setReg v)

end Graypaper

end Pvm
