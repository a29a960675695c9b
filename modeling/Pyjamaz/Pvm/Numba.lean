import Mathlib.Data.Int.Bitwise
import Pyjamaz.Library.TwosComplement
import Pyjamaz.Pvm.Machine

/-!
# The Numba interpreter

`interpreters/numba`: the interpreter compiled to machine code.  `uint64` values are natural numbers
below `2 ^ 64` and every sum, product or left shift of them wraps; `int64` values are integers in the
signed range, and a cast between the two keeps the bits (`signed 64`, `unsigned 64`).  `//` and `%`
of signed values are Python's flooring operations, which Numba keeps, and a zero divisor raises
`ZeroDivisionError`.

## Native shifts

Numba lowers `<<` and `>>` to the bare machine shift on 64-bit operands, 32-bit ones included.  A
shift whose amount is 64 or more is undefined for the compiler (`ShiftTarget.poison`); the shift
instructions of x86-64 and AArch64, where such a shift survives to the hardware, take the amount
modulo 64 (`ShiftTarget.masked`).  The model carries the choice as a parameter.
-/

namespace Pvm

/-- What a native shift by 64 or more gives. -/
inductive ShiftTarget where
  | poison
  | masked
  deriving DecidableEq, Repr

namespace Numba

open TwosComplement

/-! ## Helper functions (`numba/defs.py`) -/

/-- `x << n` on `uint64`. -/
def shl (t : ShiftTarget) (x n : ℕ) : Except Fault ℕ :=
  if n < 64 then .ok (x <<< n % 2 ^ 64)
  else match t with
    | .poison => .error .poison
    | .masked => .ok (x <<< (n % 64) % 2 ^ 64)

/-- `x >> n` on `uint64`. -/
def shr (t : ShiftTarget) (x n : ℕ) : Except Fault ℕ :=
  if n < 64 then .ok (x >>> n)
  else match t with
    | .poison => .error .poison
    | .masked => .ok (x >>> (n % 64))

/-- `umul64wide_jit`: high and low word of an unsigned product, by 32-bit halves. -/
def umul64wide (a b : ℕ) : ℕ × ℕ :=
  let a_lo := a % 2 ^ 32
  let a_hi := a >>> 32
  let b_lo := b % 2 ^ 32
  let b_hi := b >>> 32
  let ll := a_lo * b_lo % 2 ^ 64
  let lh := a_lo * b_hi % 2 ^ 64
  let hl := a_hi * b_lo % 2 ^ 64
  let hh := a_hi * b_hi % 2 ^ 64
  let carry := (ll >>> 32 + lh % 2 ^ 32 + hl % 2 ^ 32) % 2 ^ 64
  let lo := ll % 2 ^ 32 ||| (carry % 2 ^ 32) <<< 32 % 2 ^ 64
  let hi := (hh + lh >>> 32 + hl >>> 32 + carry >>> 32) % 2 ^ 64
  (hi, lo)

/-- Subtraction of `uint64` values. -/
def usub (a b : ℕ) : ℕ := (a + (2 ^ 64 - b)) % 2 ^ 64

/-- `imul64wide_jit`: signed times signed. -/
def imul64wide (a b : ℤ) : ℕ × ℕ :=
  let ua := unsigned 64 a
  let ub := unsigned 64 b
  let (hi, lo) := umul64wide ua ub
  let hi := if a < 0 then usub hi ub else hi
  let hi := if b < 0 then usub hi ua else hi
  (hi, lo)

/-- `smul_u64wide_jit`: signed times unsigned. -/
def smulU64wide (a : ℤ) (b : ℕ) : ℕ × ℕ :=
  let ua := unsigned 64 a
  let (hi, lo) := umul64wide ua b
  let hi := if a < 0 then usub hi b else hi
  (hi, lo)

/-- `rori64_jit`; neither amount is masked, and `64 - amount` is an `int64`. -/
def rori64 (t : ShiftTarget) (x shiftAmount : ℕ) : Except Fault ℕ := do
  let r ← shr t x shiftAmount
  let l ← shl t x (unsigned 64 (64 - shiftAmount))
  pure ((r ||| l) % 2 ^ 64)

/-- `roli64_jit` -/
def roli64 (t : ShiftTarget) (x shiftAmount : ℕ) : Except Fault ℕ := do
  let l ← shl t x shiftAmount
  let r ← shr t x (unsigned 64 (64 - shiftAmount))
  pure ((l ||| r) % 2 ^ 64)

/-- `rori32_jit`; the 32-bit operand is widened before it is shifted. -/
def rori32 (t : ShiftTarget) (x shiftAmount : ℕ) : Except Fault ℕ := do
  let r ← shr t x shiftAmount
  let l ← shl t x (unsigned 64 (32 - shiftAmount))
  pure ((r ||| l) % 2 ^ 32)

/-- `roli32_jit` -/
def roli32 (t : ShiftTarget) (x shiftAmount : ℕ) : Except Fault ℕ := do
  let l ← shl t x shiftAmount
  let r ← shr t x (unsigned 64 (32 - shiftAmount))
  pure ((l ||| r) % 2 ^ 32)

/-- `pvm_smod_jit`: the flooring remainder, moved to the sign of the dividend. -/
def pvmSmod (a b : ℤ) : ℤ :=
  if b = 0 then a
  else
    let r := a.fmod b
    if r ≠ 0 then
      if a < 0 ∧ 0 < r then r - b else if 0 < a ∧ r < 0 then r - b else r
    else r

/-- `pvm_rtz_div_jit`: the flooring quotient, plus one where the exact quotient is negative. -/
def pvmRtzDiv (a b : ℤ) : ℤ :=
  if 0 ≤ a then
    if 0 < b then a.fdiv b else if a.fmod b ≠ 0 then a.fdiv b + 1 else a.fdiv b
  else
    if 0 < b then if a.fmod b ≠ 0 then a.fdiv b + 1 else a.fdiv b else a.fdiv b

/-- `pvm_X_jit`; widths one to seven share one form. -/
def pvmX (x n : ℕ) : ℕ :=
  if 1 ≤ n ∧ n ≤ 7 then
    let masked := x % 2 ^ (8 * n)
    if masked &&& 2 ^ (8 * n - 1) ≠ 0 then masked ||| (2 ^ 64 - 2 ^ (8 * n)) else masked
  else if n = 8 then x % 2 ^ 64
  else x

/-- `pvm_Z_jit` -/
def pvmZ (a n : ℕ) : ℤ :=
  let width := n <<< 3
  if 64 ≤ width then signed 64 a
  else if width = 0 then 0
  else
    let val := a % 2 ^ width
    if val &&& 2 ^ (width - 1) ≠ 0 then signed 64 (val ||| (2 ^ 64 - 2 ^ width))
    else signed 64 val

/-- `pvm_Z_inv_jit`; all widths but eight share one form. -/
def pvmZInv (a : ℤ) (n : ℕ) : ℕ :=
  if n = 8 then unsigned 64 a
  else if 0 ≤ a then unsigned (8 * n) a
  else unsigned (8 * n) (a + 2 ^ (8 * n))

/-- `count_leading_zeroes_jit` -/
def countLeadingZeroes (value maxBits : ℕ) : ℕ :=
  let mb := if 64 ≤ maxBits then 64 else maxBits
  let val := value % 2 ^ mb
  if val = 0 then mb else leadingZerosLoop mb val (2 ^ (mb - 1)) 0

/-- `count_trailing_zeroes_jit`; a nonzero 64-bit value has a one within 64 shifts. -/
def countTrailingZeroes (value maxBits : ℕ) : ℕ :=
  if value = 0 then maxBits else trailingZerosLoop 64 value 0

/-- `reverse_bytes_jit` -/
def reverseBytes (x : ℕ) : ℕ :=
  (List.range 8).foldl
    (fun result i => result ||| (x >>> (i * 8) % 2 ^ 8) <<< ((7 - i) * 8) % 2 ^ 64) 0

/-- `read_uint_jit`: little-endian read of at most four code bytes. -/
def readUint (code : List UInt8) (addr : ℕ) : ℕ → ℕ
  | 0 => 0
  | 1 => byteAt code addr
  | 2 => byteAt code addr ||| byteAt code (addr + 1) <<< 8
  | 3 => byteAt code addr ||| byteAt code (addr + 1) <<< 8 ||| byteAt code (addr + 2) <<< 16
  | _ => byteAt code addr ||| byteAt code (addr + 1) <<< 8 ||| byteAt code (addr + 2) <<< 16 |||
      byteAt code (addr + 3) <<< 24

/-- `I32(z)` of an `int64`. -/
def i32 (z : ℤ) : ℤ := signed 32 (unsigned 32 z)

/-! ## Register instructions (`invoke_native`) -/

/-- The `reg_reg` group.  The counting loops of the two population counts run 64 and 32 times. -/
def regRegValue (o : RegRegOp) (w_a : ℕ) : ℤ :=
  match o with
  | .moveReg => w_a
  | .countSetBits64 => countOnesLoop 64 w_a 0
  | .countSetBits32 => countOnesLoop 32 (w_a % 2 ^ 32) 0
  | .leadingZeroBits64 => countLeadingZeroes w_a 64
  | .leadingZeroBits32 => countLeadingZeroes (w_a % 2 ^ 32) 32
  | .trailingZeroBits64 => countTrailingZeroes w_a 64
  | .trailingZeroBits32 => countTrailingZeroes (w_a % 2 ^ 32) 32
  | .signExtend8 => pvmZInv (pvmZ (w_a % 2 ^ 8) 1) 8
  | .signExtend16 => pvmZInv (pvmZ (w_a % 2 ^ 16) 2) 8
  | .zeroExtend16 => (w_a % 2 ^ 16 : ℕ)
  | .reverseBytes => reverseBytes w_a

/-- The register-only `reg_reg_imm` group. -/
def regRegImmValue (t : ShiftTarget) (o : RegRegImmOp) (w_b v_x : ℕ) : Value :=
  let ok (v : ℤ) : Value := .ok (some v)
  match o with
  | .addImm32 => ok (pvmX ((w_b + v_x) % 2 ^ 64 % 2 ^ 32) 4)
  | .andImm => ok (w_b &&& v_x : ℕ)
  | .xorImm => ok (w_b ^^^ v_x : ℕ)
  | .orImm => ok (w_b ||| v_x : ℕ)
  | .mulImm32 => ok (pvmX (w_b * v_x % 2 ^ 64 % 2 ^ 32) 4)
  | .setLtUImm => ok (if w_b < v_x then 1 else 0)
  | .setLtSImm => ok (if pvmZ w_b 8 < pvmZ v_x 8 then 1 else 0)
  | .shloLImm32 => ok (pvmX (w_b <<< (v_x % 32) % 2 ^ 64 % 2 ^ 32) 4)
  | .shloRImm32 => ok (pvmX ((w_b % 2 ^ 32) >>> (v_x % 2 ^ 32 % 32)) 4)
  | .sharRImm32 => ok (pvmZInv (i32 (pvmZ (w_b % 2 ^ 32) 4) >>> (v_x % 2 ^ 32 % 32)) 8)
  | .negAddImm32 => ok (pvmX (usub v_x w_b % 2 ^ 32) 4)
  | .setGtUImm => ok (if v_x < w_b then 1 else 0)
  | .setGtSImm => ok (if pvmZ v_x 8 < pvmZ w_b 8 then 1 else 0)
  | .shloLImmAlt32 => ok (pvmX (v_x <<< (w_b % 32) % 2 ^ 64 % 2 ^ 32) 4)
  | .shloRImmAlt32 => ok (pvmX ((v_x % 2 ^ 32) >>> (w_b % 2 ^ 32 % 32)) 4)
  | .sharRImmAlt32 => ok (pvmZInv (i32 (pvmZ (v_x % 2 ^ 32) 4) >>> (w_b % 2 ^ 32 % 32)) 8)
  | .cmovIzImm => if w_b = 0 then ok v_x else .ok none
  | .cmovNzImm => if w_b ≠ 0 then ok v_x else .ok none
  | .addImm64 => ok ((w_b + v_x) % 2 ^ 64 : ℕ)
  | .mulImm64 => ok (w_b * v_x % 2 ^ 64 : ℕ)
  | .shloLImm64 => ok (w_b <<< (v_x % 64) % 2 ^ 64 : ℕ)
  | .shloRImm64 => ok (w_b >>> (v_x % 64) : ℕ)
  | .sharRImm64 => ok (pvmZInv (pvmZ w_b 8 >>> (v_x % 64)) 8)
  | .negAddImm64 => ok (usub v_x w_b)
  | .shloLImmAlt64 => ok (v_x <<< (w_b % 64) % 2 ^ 64 : ℕ)
  | .shloRImmAlt64 => ok (v_x >>> (w_b % 64) : ℕ)
  | .sharRImmAlt64 => ok (pvmZInv (pvmZ v_x 8 >>> (w_b % 64)) 8)
  | .rotR64Imm => do let r ← rori64 t w_b v_x; ok r
  | .rotR64ImmAlt => do let r ← rori64 t v_x w_b; ok r
  | .rotR32Imm => do let r ← rori32 t (w_b % 2 ^ 32) (v_x % 2 ^ 32); ok (pvmX r 4)
  | .rotR32ImmAlt => do let r ← rori32 t (v_x % 2 ^ 32) (w_b % 2 ^ 32); ok (pvmX r 4)

/-- The `reg_reg_reg` group. -/
def regRegRegValue (t : ShiftTarget) (o : RegRegRegOp) (w_a w_b : ℕ) : Value :=
  let ok (v : ℤ) : Value := .ok (some v)
  match o with
  | .add32 => ok (pvmX ((w_a + w_b) % 2 ^ 64 % 2 ^ 32) 4)
  | .sub32 => ok (pvmX (usub w_a w_b % 2 ^ 32) 4)
  | .mul32 => ok (pvmX (w_a * w_b % 2 ^ 64 % 2 ^ 32) 4)
  | .divU32 =>
    -- the guard looks at the whole register, the division at its low half
    if w_b = 0 then ok (2 ^ 64 - 1)
    else if w_b % 2 ^ 32 = 0 then .error .zeroDivisionError
    else ok (pvmX (w_a % 2 ^ 32 / (w_b % 2 ^ 32)) 4)
  | .divS32 =>
    let a := i32 (pvmZ (w_a % 2 ^ 32) 4)
    let b := i32 (pvmZ (w_b % 2 ^ 32) 4)
    if b = 0 then ok (2 ^ 64 - 1)
    else if a = -2 ^ 31 ∧ b = -1 then ok (pvmZInv a 8)
    else ok (pvmZInv (pvmRtzDiv a b) 8)
  | .remU32 =>
    if w_b % 2 ^ 32 = 0 then ok (pvmX (w_a % 2 ^ 32) 4)
    else ok (pvmX (w_a % 2 ^ 32 % (w_b % 2 ^ 32)) 4)
  | .remS32 =>
    let a := pvmZ (w_a % 2 ^ 32) 4
    let b := pvmZ (w_b % 2 ^ 32) 4
    if b = 0 then ok (pvmZInv a 8)
    else if a = -2 ^ 31 ∧ b = -1 then ok 0
    else ok (pvmZInv (pvmSmod a b) 8)
  | .shloL32 => ok (pvmX (w_a <<< (w_b % 32) % 2 ^ 64 % 2 ^ 32) 4)
  | .shloR32 => ok (pvmX ((w_a % 2 ^ 32) >>> (w_b % 2 ^ 32 % 32)) 4)
  | .sharR32 => ok (pvmZInv (i32 (pvmZ (w_a % 2 ^ 32) 4) >>> (w_b % 2 ^ 32 % 32)) 8)
  | .add64 => ok ((w_a + w_b) % 2 ^ 64 : ℕ)
  | .sub64 => ok (usub w_a w_b)
  | .mul64 => ok (w_a * w_b % 2 ^ 64 : ℕ)
  | .divU64 => if w_b = 0 then ok (2 ^ 64 - 1) else ok (w_a / w_b : ℕ)
  | .divS64 =>
    if w_b = 0 then ok (2 ^ 64 - 1)
    else if pvmZ w_a 8 = -2 ^ 63 ∧ pvmZ w_b 8 = -1 then ok w_a
    else ok (pvmZInv (pvmRtzDiv (pvmZ w_a 8) (pvmZ w_b 8)) 8)
  | .remU64 => if w_b = 0 then ok w_a else ok (w_a % w_b : ℕ)
  | .remS64 =>
    let a := pvmZ w_a 8
    let b := pvmZ w_b 8
    if b = 0 then ok (pvmZInv a 8)
    else if a = -2 ^ 63 ∧ b = -1 then ok 0
    else ok (pvmZInv (pvmSmod a b) 8)
  | .shloL64 => ok (w_a <<< (w_b % 64) % 2 ^ 64 : ℕ)
  | .shloR64 => ok (w_a >>> (w_b % 64) : ℕ)
  | .sharR64 => ok (pvmZInv (pvmZ w_a 8 >>> (w_b % 64)) 8)
  | .and => ok (w_a &&& w_b : ℕ)
  | .xor => ok (w_a ^^^ w_b : ℕ)
  | .or => ok (w_a ||| w_b : ℕ)
  | .mulUpperSS =>
    ok (pvmZInv (signed 64 (imul64wide (signed 64 w_a) (signed 64 w_b)).1) 8)
  | .mulUpperUU => ok (umul64wide w_a w_b).1
  | .mulUpperSU => ok (pvmZInv (signed 64 (smulU64wide (signed 64 w_a) w_b).1) 8)
  | .setLtU => ok (if w_a < w_b then 1 else 0)
  | .setLtS => ok (if pvmZ w_a 8 < pvmZ w_b 8 then 1 else 0)
  | .cmovIz => if w_b = 0 then ok w_a else .ok none
  | .cmovNz => if w_b ≠ 0 then ok w_a else .ok none
  | .rotL64 => do let r ← roli64 t w_a (w_b % 64); ok r
  | .rotL32 => do let r ← roli32 t (w_a % 2 ^ 32) (w_b % 2 ^ 32 % 32); ok (pvmX r 4)
  | .rotR64 => do let r ← rori64 t w_a (w_b % 64); ok r
  | .rotR32 => do let r ← rori32 t (w_a % 2 ^ 32) (w_b % 2 ^ 32 % 32); ok (pvmX r 4)
  | .andInv => ok (w_a &&& (2 ^ 64 - 1 - w_b) : ℕ)
  | .orInv => ok (w_a ||| (2 ^ 64 - 1 - w_b) : ℕ)
  | .xnor => ok (2 ^ 64 - 1 - (w_a ^^^ w_b) : ℕ)
  | .max => ok (if pvmZ w_b 8 ≤ pvmZ w_a 8 then w_a else w_b)
  | .maxU => ok (if w_b ≤ w_a then w_a else w_b)
  | .min => ok (if pvmZ w_a 8 ≤ pvmZ w_b 8 then w_a else w_b)
  | .minU => ok (if w_a ≤ w_b then w_a else w_b)

/-- The immediate of the two-register format. -/
def fetchImm (code : List UInt8) (pc argLen : ℕ) : ℕ :=
  pvmX (readUint code (pc + 2) (immWidth argLen)) (immWidth argLen)

/-- One `reg_reg` instruction. -/
def stepRegReg (o : RegRegOp) (code : List UInt8) (pc : ℕ) (reg : Regs) : Outcome :=
  let r := fetchRegs code pc
  Value.writeTo r.low (.ok (some (regRegValue o (reg.get r.high))))

/-- One register-only `reg_reg_imm` instruction. -/
def stepRegRegImm (t : ShiftTarget) (o : RegRegImmOp) (code : List UInt8) (pc argLen : ℕ)
    (reg : Regs) : Outcome :=
  let r := fetchRegs code pc
  (regRegImmValue t o (reg.get r.high) (fetchImm code pc argLen)).writeTo r.low

/-- One `reg_reg_reg` instruction. -/
def stepRegRegReg (t : ShiftTarget) (o : RegRegRegOp) (code : List UInt8) (pc : ℕ)
    (reg : Regs) : Outcome :=
  let r := fetchRegs code pc
  (regRegRegValue t o (reg.get r.low) (reg.get r.high)).writeTo r.third

end Numba

end Pvm
