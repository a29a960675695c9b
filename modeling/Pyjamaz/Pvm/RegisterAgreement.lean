import Mathlib.Data.BitVec
import Pyjamaz.Pvm.RegisterOps

/-!
# Do the interpreters agree on register instructions?

The three interpreters should write the same 64-bit value to the same register for every
register-only instruction, on every operand, and none of them should raise.  They do, with three
kinds of exception, each a mask that one implementation has and a sibling lacks:

* `div_u_32` by a register that is zero only in its low half: CPython and Numba guard the whole
  register and then divide by its low half;
* `trailing_zero_bits_32` in CPython, which counts in the whole register;
* rotations in Numba, which do not mask their amount: a 64-bit rotation by 0 or by 64 and more, and a
  32-bit rotation by an immediate or register amount above 32, leave the range of the machine shift.

`registerStep_agree_iff` says that these are all.
-/

namespace Pvm

open TwosComplement

/-! ## Values fit the register -/

/-- A computed value that can be assigned to a register. -/
def Fits : Value → Prop
  | .ok none => True
  | .ok (some v) => 0 ≤ v ∧ v < 2 ^ 64
  | .error _ => False

lemma fits_natCast {n : ℕ} (hn : n < 2 ^ 64) : Fits (.ok (some (n : ℤ))) :=
  ⟨by positivity, by exact_mod_cast hn⟩

lemma fits_extend {x : ℕ} (hx : x < 2 ^ 32) :
    Fits (do let r ← Graypaper.pvmX x 4; pure (some (r : ℤ)) : Value) := by
  rw [extend_agree hx, CPython.pvmX_four hx]
  exact fits_natCast (signExtend_lt (by norm_num) hx)

lemma fits_pvmZInv (z : ℤ) : Fits (.ok (some ((Graypaper.pvmZInv z 8 : ℕ) : ℤ))) := by
  rw [Graypaper.pvmZInv_eq]
  exact fits_natCast (unsigned_lt 64 z)

lemma fits_bool (p : Prop) [Decidable p] : Fits (.ok (some (if p then 1 else 0))) := by
  split <;> simp [Fits]

lemma Fits.setReg {w : Option ℤ} (h : Fits (.ok w)) : Graypaper.setReg w = .ok w := by
  cases w with
  | none => rfl
  | some v => exact if_pos h

lemma mod64_lt (x : ℕ) : x % 2 ^ 64 < 2 ^ 64 := Nat.mod_lt _ (by norm_num)

lemma Graypaper.regRegValue_fits (o : RegRegOp) {w : ℕ} (hw : w < 2 ^ 64) :
    Fits (.ok (some (Graypaper.regRegValue o w))) := by
  have hlow : w % 2 ^ 32 < 2 ^ 64 := lt_of_le_of_lt (Nat.mod_le _ _) hw
  cases o with
  | moveReg => exact fits_natCast hw
  | countSetBits64 => exact fits_natCast (lt_of_le_of_lt (Nat.digit_sum_le 2 w) hw)
  | countSetBits32 => exact fits_natCast (lt_of_le_of_lt (Nat.digit_sum_le 2 _) hlow)
  | leadingZeroBits64 =>
    apply fits_natCast
    rw [Graypaper.countLeadingZeroes]
    split <;> omega
  | leadingZeroBits32 =>
    apply fits_natCast
    rw [Graypaper.countLeadingZeroes]
    split <;> omega
  | trailingZeroBits64 =>
    apply fits_natCast
    rw [← CPython.countTrailingZeroes_eq_graypaper hw]
    exact lt_of_le_of_lt (CPython.countTrailingZeroes_le hw le_rfl) (by norm_num)
  | trailingZeroBits32 =>
    apply fits_natCast
    rw [Graypaper.countTrailingZeroes_eq_cpython]
    exact lt_of_le_of_lt (CPython.countTrailingZeroes_le hlow (by norm_num)) (by norm_num)
  | signExtend8 => exact fits_pvmZInv _
  | signExtend16 => exact fits_pvmZInv _
  | zeroExtend16 => exact fits_natCast (lt_of_le_of_lt (Nat.mod_le _ _) hw)
  | reverseBytes =>
    apply fits_natCast
    rw [Graypaper.reverseBytes_eq]
    exact byteReversal_lt w

/-- The reference never raises on the two-register, one-immediate instructions. -/
lemma Graypaper.regRegImmValue_fits (o : RegRegImmOp) {w_b v_x : ℕ} (hb : w_b < 2 ^ 64)
    (hx : v_x < 2 ^ 64) : Fits (Graypaper.regRegImmValue o w_b v_x) := by
  cases o with
  | addImm32 | mulImm32 | shloLImm32 | shloLImmAlt32 => exact fits_extend (mod32_lt _)
  | shloRImm32 | shloRImmAlt32 => exact fits_extend (shiftRight_lt (mod32_lt _) _)
  | negAddImm32 => exact fits_extend (unsigned_lt 32 _)
  | rotR32Imm | rotR32ImmAlt => exact fits_extend (Graypaper.rori32_lt _ _)
  | andImm => exact fits_natCast (Nat.and_lt_two_pow _ hx)
  | xorImm => exact fits_natCast (Nat.xor_lt_two_pow hb hx)
  | orImm => exact fits_natCast (Nat.or_lt_two_pow hb hx)
  | setLtUImm | setLtSImm | setGtUImm | setGtSImm => exact fits_bool _
  | sharRImm32 | sharRImmAlt32 | sharRImm64 | sharRImmAlt64 => exact fits_pvmZInv _
  | cmovIzImm =>
    rw [Graypaper.regRegImmValue]
    split
    · exact fits_natCast hx
    · trivial
  | cmovNzImm =>
    rw [Graypaper.regRegImmValue]
    split
    · exact fits_natCast hx
    · trivial
  | addImm64 | mulImm64 | shloLImmAlt64 | rotR64Imm | rotR64ImmAlt =>
    exact fits_natCast (mod64_lt _)
  | shloLImm64 =>
    rw [← CPython.regRegImmValue_eq _ hb hx]
    exact fits_natCast (mod64_lt _)
  | shloRImm64 =>
    rw [← CPython.regRegImmValue_eq _ hb hx]
    exact fits_natCast (mod64_lt _)
  | negAddImm64 =>
    exact ⟨Int.emod_nonneg _ (by norm_num), Int.emod_lt_of_pos _ (by norm_num)⟩
  | shloRImmAlt64 => exact fits_natCast (lt_of_le_of_lt (Nat.div_le_self _ _) hx)

/-- The reference never raises on the three-register instructions. -/
lemma Graypaper.regRegRegValue_fits (o : RegRegRegOp) {w_a w_b : ℕ} (ha : w_a < 2 ^ 64)
    (hb : w_b < 2 ^ 64) : Fits (Graypaper.regRegRegValue o w_a w_b) := by
  have hones : Fits (.ok (some (2 ^ 64 - 1))) := ⟨by norm_num, by norm_num⟩
  cases o with
  | add32 | mul32 | shloL32 => exact fits_extend (mod32_lt _)
  | sub32 => exact fits_extend (unsigned_lt 32 _)
  | shloR32 => exact fits_extend (shiftRight_lt (mod32_lt _) _)
  | rotL32 => exact fits_extend (Graypaper.roli32_lt _ _)
  | rotR32 => exact fits_extend (Graypaper.rori32_lt _ _)
  | divU32 =>
    rw [Graypaper.regRegRegValue]
    split
    · exact hones
    · exact fits_extend (lt_of_le_of_lt (Nat.div_le_self _ _) (mod32_lt _))
  | divS32 =>
    simp only [Graypaper.regRegRegValue]
    split_ifs
    · exact hones
    · exact fits_pvmZInv _
    · exact fits_pvmZInv _
  | remU32 =>
    rw [Graypaper.regRegRegValue]
    split
    · exact fits_extend (mod32_lt _)
    · exact fits_extend (lt_of_le_of_lt (Nat.mod_le _ _) (mod32_lt _))
  | remS32 =>
    simp only [Graypaper.regRegRegValue]
    split_ifs
    · exact fits_pvmZInv _
    · exact ⟨le_rfl, by norm_num⟩
    · exact fits_pvmZInv _
  | sharR32 | sharR64 | mulUpperSS | mulUpperSU | max | min => exact fits_pvmZInv _
  | add64 | mul64 | shloL64 | rotL64 | rotR64 => exact fits_natCast (mod64_lt _)
  | sub64 => exact ⟨Int.emod_nonneg _ (by norm_num), Int.emod_lt_of_pos _ (by norm_num)⟩
  | divU64 =>
    rw [Graypaper.regRegRegValue]
    split
    · exact hones
    · exact fits_natCast (lt_of_le_of_lt (Nat.div_le_self _ _) ha)
  | divS64 =>
    rw [Graypaper.regRegRegValue]
    split_ifs
    · exact hones
    · exact fits_natCast ha
    · exact fits_pvmZInv _
  | remU64 =>
    rw [Graypaper.regRegRegValue]
    split
    · exact fits_natCast ha
    · exact fits_natCast (lt_of_le_of_lt (Nat.mod_le _ _) ha)
  | remS64 =>
    simp only [Graypaper.regRegRegValue]
    split_ifs
    · exact fits_natCast ha
    · exact ⟨le_rfl, by norm_num⟩
    · exact fits_pvmZInv _
  | shloR64 => exact fits_natCast (lt_of_le_of_lt (Nat.div_le_self _ _) ha)
  | and => exact fits_natCast (Nat.and_lt_two_pow _ hb)
  | xor => exact fits_natCast (Nat.xor_lt_two_pow ha hb)
  | or => exact fits_natCast (Nat.or_lt_two_pow ha hb)
  | mulUpperUU =>
    apply fits_natCast
    rw [Nat.div_lt_iff_lt_mul (by norm_num)]
    exact Nat.mul_lt_mul'' ha hb
  | setLtU | setLtS => exact fits_bool _
  | cmovIz =>
    rw [Graypaper.regRegRegValue]
    split
    · exact fits_natCast ha
    · trivial
  | cmovNz =>
    rw [Graypaper.regRegRegValue]
    split
    · exact fits_natCast ha
    · trivial
  | andInv => exact fits_natCast (Nat.and_lt_two_pow _ (by omega))
  | orInv => exact fits_natCast (Nat.or_lt_two_pow ha (by omega))
  | xnor =>
    apply fits_natCast
    omega
  | maxU => exact fits_natCast (max_lt ha hb)
  | minU => exact fits_natCast (lt_of_le_of_lt (min_le_left _ _) ha)

/-! ## One step of each interpreter -/

/-- A register-only instruction of one of the three groups. -/
inductive RegisterOp where
  | regReg (o : RegRegOp)
  | regRegImm (o : RegRegImmOp)
  | regRegReg (o : RegRegRegOp)
  deriving DecidableEq, Repr

/-- A register instruction in the Graypaper interpreter; `argLen` is the length of its
arguments. -/
def Graypaper.registerStep (op : RegisterOp) (code : List UInt8) (pc argLen : ℕ)
    (reg : Regs) : Outcome :=
  match op with
  | .regReg o => Graypaper.stepRegReg o code pc reg
  | .regRegImm o => Graypaper.stepRegRegImm o code pc argLen reg
  | .regRegReg o => Graypaper.stepRegRegReg o code pc reg

/-- A register instruction in the CPython interpreter. -/
def CPython.registerStep (op : RegisterOp) (code : List UInt8) (pc argLen : ℕ)
    (reg : Regs) : Outcome :=
  match op with
  | .regReg o => CPython.stepRegReg o code pc reg
  | .regRegImm o => CPython.stepRegRegImm o code pc argLen reg
  | .regRegReg o => CPython.stepRegRegReg o code pc reg

/-- A register instruction in the Numba interpreter. -/
def Numba.registerStep (t : ShiftTarget) (op : RegisterOp) (code : List UInt8) (pc argLen : ℕ)
    (reg : Regs) : Outcome :=
  match op with
  | .regReg o => Numba.stepRegReg o code pc reg
  | .regRegImm o => Numba.stepRegRegImm t o code pc argLen reg
  | .regRegReg o => Numba.stepRegRegReg t o code pc reg

/-- The three interpreters raise nothing and do the same write, of a 64-bit value. -/
def RegisterAgree (t : ShiftTarget) (op : RegisterOp) (code : List UInt8) (pc argLen : ℕ)
    (reg : Regs) : Prop :=
  ∃ w : Option Write, (∀ x ∈ w, 0 ≤ x.value ∧ x.value < 2 ^ 64) ∧
    Graypaper.registerStep op code pc argLen reg = .ok w ∧
    CPython.registerStep op code pc argLen reg = .ok w ∧
    Numba.registerStep t op code pc argLen reg = .ok w

/-- The operands that no implementation forgets to mask. -/
def OperandsOk (t : ShiftTarget) (op : RegisterOp) (code : List UInt8) (pc argLen : ℕ)
    (reg : Regs) : Prop :=
  match op with
  | .regReg o => o = .trailingZeroBits32 → TrailingZerosOk (reg.get (fetchRegs code pc).high)
  | .regRegImm o =>
    o.NativeOk t (reg.get (fetchRegs code pc).high) (immediate code (pc + 2) (immWidth argLen))
  | .regRegReg o => o.NativeOk t (reg.get (fetchRegs code pc).high)

/-- The reference writes a value that fits, and the other two write it exactly when their computed
values are the reference's. -/
lemma writes_agree_iff {r : Fin 13} {g c n : Value} (hg : Fits g) :
    (∃ w : Option Write, (∀ x ∈ w, 0 ≤ x.value ∧ x.value < 2 ^ 64) ∧
      Value.writeTo r (g >>= Graypaper.setReg) = .ok w ∧ c.writeTo r = .ok w ∧
      n.writeTo r = .ok w) ↔ c = g ∧ n = g := by
  have hset : (g >>= Graypaper.setReg) = g := by
    rcases g with e | w
    · exact absurd hg id
    · exact hg.setReg
  rw [hset]
  constructor
  · rintro ⟨w, -, h1, h2, h3⟩
    exact ⟨Value.writeTo_inj (h2.trans h1.symm), Value.writeTo_inj (h3.trans h1.symm)⟩
  · rintro ⟨rfl, rfl⟩
    rcases n with e | _ | v
    · exact absurd hg id
    · exact ⟨none, by simp, rfl, rfl, rfl⟩
    · exact ⟨some ⟨r, v⟩, by simpa [Fits] using hg, rfl, rfl, rfl⟩

lemma RegRegRegOp.divU32_of_nativeOk {t : ShiftTarget} {o : RegRegRegOp} {w : ℕ}
    (h : o.NativeOk t w) : o = .divU32 → w = 0 ∨ w % 2 ^ 32 ≠ 0 := by
  rintro rfl
  exact h

/-- Register instructions agree across the interpreters exactly on the operands that every
implementation masks. -/
theorem registerStep_agree_iff (t : ShiftTarget) (op : RegisterOp) (code : List UInt8)
    (pc argLen : ℕ) (reg : Regs) :
    RegisterAgree t op code pc argLen reg ↔ OperandsOk t op code pc argLen reg := by
  set r := fetchRegs code pc with hr
  have hlow := reg.get_lt r.low
  have hhigh := reg.get_lt r.high
  cases op with
  | regReg o =>
    refine (writes_agree_iff (r := r.low) (c := .ok (some (CPython.regRegValue o (reg.get r.high))))
      (n := .ok (some (Numba.regRegValue o (reg.get r.high))))
      (Graypaper.regRegValue_fits o hhigh)).trans ?_
    rw [Numba.regRegValue_eq o hhigh]
    simp only [Except.ok.injEq, Option.some.injEq, and_true]
    exact CPython.regRegValue_eq_iff o hhigh
  | regRegImm o =>
    have himm := immediate_lt code (pc + 2) (immWidth_le argLen)
    have hg : Graypaper.fetchImm code pc argLen =
        .ok (immediate code (pc + 2) (immWidth argLen)) :=
      Graypaper.pvmX_readUint code (pc + 2) (immWidth_le argLen)
    have hc : CPython.fetchImm code pc argLen = immediate code (pc + 2) (immWidth argLen) :=
      CPython.pvmX_readUint code (pc + 2) (immWidth_le argLen)
    have hn : Numba.fetchImm code pc argLen = immediate code (pc + 2) (immWidth argLen) :=
      Numba.pvmX_readUint code (pc + 2) (immWidth_le argLen)
    simp only [RegisterAgree, Graypaper.registerStep, CPython.registerStep, Numba.registerStep,
      Graypaper.stepRegRegImm, CPython.stepRegRegImm, Numba.stepRegRegImm, hg, hc, hn, Except.ok_bind]
    refine (writes_agree_iff (Graypaper.regRegImmValue_fits o hhigh himm)).trans ?_
    rw [CPython.regRegImmValue_eq o hhigh himm, Numba.regRegImmValue_eq_iff t o hhigh himm]
    exact ⟨fun h => h.2, fun h => ⟨rfl, h⟩⟩
  | regRegReg o =>
    refine (writes_agree_iff (Graypaper.regRegRegValue_fits o hlow hhigh)).trans ?_
    rw [Numba.regRegRegValue_eq_iff t o hlow hhigh]
    constructor
    · exact fun h => h.2
    · intro h
      exact ⟨CPython.regRegRegValue_eq o hlow hhigh (RegRegRegOp.divU32_of_nativeOk h), h⟩

/-- `div_u_32` of a register by one that holds `2 ^ 32`: the reference writes all ones, the other
two divide by zero. -/
theorem divU32_disagrees :
    ¬ RegisterAgree .masked (.regRegReg .divU32) [193, 0x10, 2] 0 2
      (fun r => if r = 1 then 2 ^ 32 else 7) := by
  rintro ⟨w, -, -, hc, -⟩
  have hfault : CPython.registerStep (.regRegReg .divU32) [193, 0x10, 2] 0 2
      (fun r => if r = 1 then 2 ^ 32 else 7) = .error .zeroDivisionError := by decide
  rw [hfault] at hc
  cases hc

end Pvm
