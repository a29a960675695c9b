import Pyjamaz.Pvm.RegisterOps

/-!
# Wide products and signed division in machine words

The Numba interpreter has no integers beyond 64 bits.  A product of two words is put together from four
products of their halves, and the high word of a signed one is corrected for each negative factor;
quotients and remainders toward zero are the flooring ones, moved by one step where the signs ask for
it.  Machine operations wrap, so each of these functions is right only as long as nothing gets lost on
the way.

The functions are therefore written a second time with checked operations, which have no result when
the exact one does not fit.  The checked and the wrapping functions agree (`umul64wideChecked_eq`,
`pvmSmodChecked_eq`, `pvmRtzDivChecked_eq`), and give the words of the product over the integers and
the quotient and the remainder toward zero.
-/

namespace Pvm

open TwosComplement

/-! ## Checked operations -/

/-- The range of `int64`. -/
def IsInt64 (z : ℤ) : Prop := -2 ^ 63 ≤ z ∧ z < 2 ^ 63

instance (z : ℤ) : Decidable (IsInt64 z) := inferInstanceAs (Decidable (_ ∧ _))

/-- The result of an operation on `uint64`, if it is one. -/
def checkUInt64 (n : ℕ) : Option ℕ := if n < 2 ^ 64 then some n else none

/-- The result of an operation on `int64`, if it is one. -/
def checkInt64 (z : ℤ) : Option ℤ := if IsInt64 z then some z else none

lemma checkUInt64_of_lt {n : ℕ} (h : n < 2 ^ 64) : checkUInt64 n = some n := if_pos h

lemma checkInt64_of_isInt64 {z : ℤ} (h : IsInt64 z) : checkInt64 z = some z := if_pos h

namespace Numba

/-- `umul64wide_jit` with checked operations; masks and right shifts need no check. -/
def umul64wideChecked (a b : ℕ) : Option (ℕ × ℕ) := do
  let a_lo := a % 2 ^ 32
  let a_hi := a >>> 32
  let b_lo := b % 2 ^ 32
  let b_hi := b >>> 32
  let ll ← checkUInt64 (a_lo * b_lo)
  let lh ← checkUInt64 (a_lo * b_hi)
  let hl ← checkUInt64 (a_hi * b_lo)
  let hh ← checkUInt64 (a_hi * b_hi)
  let carry ← checkUInt64 (ll >>> 32 + lh % 2 ^ 32)
  let carry ← checkUInt64 (carry + hl % 2 ^ 32)
  let shifted ← checkUInt64 ((carry % 2 ^ 32) <<< 32)
  let lo := ll % 2 ^ 32 ||| shifted
  let hi ← checkUInt64 (hh + lh >>> 32)
  let hi ← checkUInt64 (hi + hl >>> 32)
  let hi ← checkUInt64 (hi + carry >>> 32)
  return (hi, lo)

/-- `a // b` on `int64`. -/
def floorDivChecked (a b : ℤ) : Option ℤ := checkInt64 (a.fdiv b)

/-- `a % b` on `int64`; the machine divides for it. -/
def floorModChecked (a b : ℤ) : Option ℤ := do
  let _ ← floorDivChecked a b
  checkInt64 (a.fmod b)

/-- `pvm_smod_jit` with checked operations. -/
def pvmSmodChecked (a b : ℤ) : Option ℤ :=
  if b = 0 then some a
  else do
    let r ← floorModChecked a b
    if r ≠ 0 then
      if a < 0 ∧ 0 < r then checkInt64 (r - b) else if 0 < a ∧ r < 0 then checkInt64 (r - b) else some r
    else some r

/-- The quotient of `pvm_rtz_div_jit` where the signs differ, with checked operations. -/
def pvmRtzDivStepChecked (a b : ℤ) : Option ℤ := do
  let q ← floorDivChecked a b
  let r ← floorModChecked a b
  if r ≠ 0 then checkInt64 (q + 1) else some q

/-- `pvm_rtz_div_jit` with checked operations. -/
def pvmRtzDivChecked (a b : ℤ) : Option ℤ :=
  if 0 ≤ a then
    if 0 < b then floorDivChecked a b else pvmRtzDivStepChecked a b
  else
    if 0 < b then pvmRtzDivStepChecked a b else floorDivChecked a b

/-! ## Products -/

/-- The high and the low word of a 128-bit number in two's complement. -/
def wideWords (z : ℤ) : ℕ × ℕ := (unsigned 128 z / 2 ^ 64, unsigned 128 z % 2 ^ 64)

/-- The high word of an integer modulo `2 ^ 128` is its quotient modulo `2 ^ 64`. -/
lemma wideWords_eq (z : ℤ) : wideWords z = (unsigned 64 (z / 2 ^ 64), unsigned 64 z) := by
  have h128 : ((unsigned 128 z : ℕ) : ℤ) = z % 2 ^ 128 :=
    Int.toNat_of_nonneg (Int.emod_nonneg z (by norm_num))
  have hhigh : ((unsigned 64 (z / 2 ^ 64) : ℕ) : ℤ) = z / 2 ^ 64 % 2 ^ 64 :=
    Int.toNat_of_nonneg (Int.emod_nonneg _ (by norm_num))
  have hlow : ((unsigned 64 z : ℕ) : ℤ) = z % 2 ^ 64 :=
    Int.toNat_of_nonneg (Int.emod_nonneg z (by norm_num))
  rw [wideWords, Prod.mk.injEq]
  constructor
  · omega
  · omega

/-- The low word of an unsigned product. -/
lemma umul64wide_snd {a b : ℕ} (ha : a < 2 ^ 64) (hb : b < 2 ^ 64) :
    (umul64wide a b).2 = a * b % 2 ^ 64 := by
  have hll := half_mul_le (mod_half_lt a) (mod_half_lt b)
  have hlh := half_mul_le (mod_half_lt a) (shiftRight_half_lt hb)
  have hhl := half_mul_le (shiftRight_half_lt ha) (mod_half_lt b)
  rw [mul_eq_halves]
  dsimp only [umul64wide]
  generalize a % 2 ^ 32 * (b % 2 ^ 32) = ll at *
  generalize a % 2 ^ 32 * (b >>> 32) = lh at *
  generalize a >>> 32 * (b % 2 ^ 32) = hl at *
  generalize a >>> 32 * (b >>> 32) = hh at *
  -- the shifted carry fits above the low half, so putting it there is an addition
  have hfits : ∀ x : ℕ, x % 2 ^ 32 < 2 ^ 32 := mod_half_lt
  have hshift : ∀ x : ℕ, (x % 2 ^ 32) <<< 32 % 2 ^ 64 = (x % 2 ^ 32) <<< 32 := by
    intro x
    rw [Nat.shiftLeft_eq]
    omega
  rw [hshift, lor_shiftLeft _ (hfits _)]
  simp only [Nat.shiftRight_eq_div_pow]
  omega

/-- An unsigned product has the words of the product over the integers. -/
lemma umul64wide_eq {a b : ℕ} (ha : a < 2 ^ 64) (hb : b < 2 ^ 64) :
    umul64wide a b = (a * b / 2 ^ 64, a * b % 2 ^ 64) :=
  Prod.ext (umul64wide_fst ha hb) (umul64wide_snd ha hb)

/-- No operation of an unsigned product leaves 64 bits. -/
lemma umul64wideChecked_eq {a b : ℕ} (ha : a < 2 ^ 64) (hb : b < 2 ^ 64) :
    umul64wideChecked a b = some (umul64wide a b) := by
  have hll := half_mul_le (mod_half_lt a) (mod_half_lt b)
  have hlh := half_mul_le (mod_half_lt a) (shiftRight_half_lt hb)
  have hhl := half_mul_le (shiftRight_half_lt ha) (mod_half_lt b)
  have hhh := half_mul_le (shiftRight_half_lt ha) (shiftRight_half_lt hb)
  dsimp only [umul64wideChecked, umul64wide]
  generalize a % 2 ^ 32 * (b % 2 ^ 32) = ll at *
  generalize a % 2 ^ 32 * (b >>> 32) = lh at *
  generalize a >>> 32 * (b % 2 ^ 32) = hl at *
  generalize a >>> 32 * (b >>> 32) = hh at *
  simp only [Nat.shiftRight_eq_div_pow, Nat.shiftLeft_eq]
  simp (disch := omega) only [checkUInt64_of_lt, Nat.mod_eq_of_lt, Option.bind_eq_bind,
    Option.bind_some]
  rfl

/-- The low word of a product is the same for a factor and its signed reading. -/
lemma unsigned_signed_mul (a : ℕ) (z : ℤ) : unsigned 64 (signed 64 a * z) = unsigned 64 (a * z) := by
  rcases signed_eq_natCast_sub 64 a with h | h
  · rw [h]
  · have hcorrect : ((a : ℤ) - 2 ^ 64) * z = a * z + 2 ^ 64 * (-z) := by ring
    rw [h, hcorrect, unsigned_add_mul]

lemma unsigned_mul_natCast (a b : ℕ) : unsigned 64 ((a : ℤ) * b) = a * b % 2 ^ 64 := by
  rw [unsigned]
  omega

/-- A mixed product has the words of the product over the integers. -/
lemma smulU64wide_eq {a b : ℕ} (ha : a < 2 ^ 64) (hb : b < 2 ^ 64) :
    smulU64wide (signed 64 a) b = wideWords (signed 64 a * b) := by
  rw [wideWords_eq]
  refine Prod.ext (smulU64wide_fst ha hb) ?_
  have hlow : (smulU64wide (signed 64 a) b).2 = (umul64wide a b).2 := by
    simp only [smulU64wide, unsigned_signed ha]
  rw [hlow, umul64wide_snd ha hb, unsigned_signed_mul, unsigned_mul_natCast]

/-- A signed product has the words of the product over the integers. -/
lemma imul64wide_eq {a b : ℕ} (ha : a < 2 ^ 64) (hb : b < 2 ^ 64) :
    imul64wide (signed 64 a) (signed 64 b) = wideWords (signed 64 a * signed 64 b) := by
  rw [wideWords_eq]
  refine Prod.ext (imul64wide_fst ha hb) ?_
  have hlow : (imul64wide (signed 64 a) (signed 64 b)).2 = (umul64wide a b).2 := by
    simp only [imul64wide, unsigned_signed ha, unsigned_signed hb]
  rw [hlow, umul64wide_snd ha hb, unsigned_signed_mul, mul_comm (a : ℤ), unsigned_signed_mul,
    mul_comm (b : ℤ), unsigned_mul_natCast]

/-! ## Quotients and remainders -/

/-- The operands of a signed division that is done by the machine: the divisor is not zero, and the
quotient is not `2 ^ 63`. -/
def Divides (a b : ℤ) : Prop := b ≠ 0 ∧ ¬ (a = -2 ^ 63 ∧ b = -1)

instance (a b : ℤ) : Decidable (Divides a b) := inferInstanceAs (Decidable (_ ∧ _))

section Division

variable {a b : ℤ} (ha : IsInt64 a) (hb : IsInt64 b) (hdivides : Divides a b)
include ha hdivides

/-- The flooring quotient is not larger than the dividend, so only `2 ^ 63` could leave the range. -/
lemma floorDivChecked_eq : floorDivChecked a b = some (a.fdiv b) := by
  obtain ⟨hb0, hpair⟩ := hdivides
  have hsize := Int.natAbs_fdiv_le_natAbs a b
  have hmul := Int.fdiv_mul_self a b
  refine checkInt64_of_isInt64 ⟨?_, ?_⟩
  · unfold IsInt64 at ha
    omega
  · unfold IsInt64 at ha
    by_contra hlarge
    have hquot : a.fdiv b = 2 ^ 63 := by omega
    rw [hquot] at hmul
    rcases fmod_bounds a hb0 with ⟨hpos, hle, hlt⟩ | ⟨hneg, hlt, hle⟩
    · omega
    · omega

include hb

lemma floorModChecked_eq : floorModChecked a b = some (a.fmod b) := by
  rw [floorModChecked, floorDivChecked_eq ha hdivides]
  refine checkInt64_of_isInt64 ?_
  unfold IsInt64 at hb ⊢
  rcases fmod_bounds a hdivides.1 with ⟨hpos, hle, hlt⟩ | ⟨hneg, hlt, hle⟩
  · omega
  · omega

/-- No operation of the remainder leaves the range. -/
lemma pvmSmodChecked_eq : pvmSmodChecked a b = some (pvmSmod a b) := by
  have hbounds := fmod_bounds a hdivides.1
  rw [pvmSmodChecked, pvmSmod, if_neg hdivides.1, if_neg hdivides.1,
    floorModChecked_eq ha hb hdivides, Option.bind_eq_bind, Option.bind_some]
  generalize a.fmod b = r at *
  have hstep : (a < 0 ∧ 0 < r) ∨ (0 < a ∧ r < 0) → checkInt64 (r - b) = some (r - b) := by
    intro hsigns
    refine checkInt64_of_isInt64 ?_
    unfold IsInt64 at hb ⊢
    omega
  dsimp only
  by_cases hr : r ≠ 0
  · rw [if_pos hr, if_pos hr]
    by_cases hneg : a < 0 ∧ 0 < r
    · rw [if_pos hneg, if_pos hneg, hstep (.inl hneg)]
    · rw [if_neg hneg, if_neg hneg]
      by_cases hpos : 0 < a ∧ r < 0
      · rw [if_pos hpos, if_pos hpos, hstep (.inr hpos)]
      · rw [if_neg hpos, if_neg hpos]
  · rw [if_neg hr, if_neg hr]

/-- The quotient that is rounded up is below one when the signs differ. -/
lemma pvmRtzDivStepChecked_eq (hsigns : (0 ≤ a ∧ b ≤ 0) ∨ (a < 0 ∧ 0 < b)) :
    pvmRtzDivStepChecked a b = some (if a.fmod b ≠ 0 then a.fdiv b + 1 else a.fdiv b) := by
  have hquot : a.fdiv b ≤ 0 := by
    rcases hsigns with ⟨hnonneg, hneg⟩ | ⟨hneg, hpos⟩
    · exact Int.fdiv_nonpos_of_nonneg_of_nonpos hnonneg hneg
    · exact (Int.fdiv_neg_of_neg_of_pos hneg hpos).le
  have hsize := Int.natAbs_fdiv_le_natAbs a b
  rw [pvmRtzDivStepChecked, floorDivChecked_eq ha hdivides, floorModChecked_eq ha hb hdivides]
  simp only [Option.bind_eq_bind, Option.bind_some]
  by_cases hr : a.fmod b ≠ 0
  · rw [if_pos hr, if_pos hr]
    refine checkInt64_of_isInt64 ?_
    unfold IsInt64 at ha ⊢
    omega
  · rw [if_neg hr, if_neg hr]

/-- No operation of the quotient leaves the range. -/
lemma pvmRtzDivChecked_eq : pvmRtzDivChecked a b = some (pvmRtzDiv a b) := by
  have hb0 := hdivides.1
  have hfloor := floorDivChecked_eq ha hdivides
  rw [pvmRtzDivChecked, pvmRtzDiv]
  by_cases hnonneg : 0 ≤ a
  · rw [if_pos hnonneg, if_pos hnonneg]
    by_cases hpos : 0 < b
    · rw [if_pos hpos, if_pos hpos, hfloor]
    · rw [if_neg hpos, if_neg hpos,
        pvmRtzDivStepChecked_eq ha hb hdivides (.inl ⟨hnonneg, not_lt.mp hpos⟩)]
  · rw [if_neg hnonneg, if_neg hnonneg]
    by_cases hpos : 0 < b
    · rw [if_pos hpos, if_pos hpos,
        pvmRtzDivStepChecked_eq ha hb hdivides (.inr ⟨not_le.mp hnonneg, hpos⟩)]
    · rw [if_neg hpos, if_neg hpos, hfloor]

end Division

/-! ## The instructions -/

section Instructions

variable (t : ShiftTarget) {w_a w_b : ℕ} (hb : w_b < 2 ^ 64)
include hb

/-- The division of words leaves a zero divisor and the quotient `2 ^ 63` out before it divides. -/
lemma divS64_eq : regRegRegValue t .divS64 w_a w_b = .ok (some (
    if w_b = 0 then (2 ^ 64 - 1 : ℕ)
    else if Divides (signed 64 w_a) (signed 64 w_b) then
      unsigned 64 ((signed 64 w_a).tdiv (signed 64 w_b))
    else w_a)) := by
  rw [regRegRegValue, pvmZInv_eight]
  by_cases hzero : w_b = 0
  · rw [if_pos hzero, if_pos hzero]
    rfl
  · have hb0 : pvmZ w_b 8 ≠ 0 := (signed_eq_zero_iff hb).not.mpr hzero
    rw [if_neg hzero, if_neg hzero, pvmRtzDiv_eq hb0]
    by_cases hpair : pvmZ w_a 8 = -2 ^ 63 ∧ pvmZ w_b 8 = -1
    · rw [if_pos hpair, if_neg (fun h => h.2 hpair)]
    · rw [if_neg hpair, if_pos ⟨hb0, hpair⟩]
      rfl

/-- So does the remainder. -/
lemma remS64_eq (ha : w_a < 2 ^ 64) : regRegRegValue t .remS64 w_a w_b = .ok (some (
    if w_b = 0 then w_a
    else if Divides (signed 64 w_a) (signed 64 w_b) then
      unsigned 64 ((signed 64 w_a).tmod (signed 64 w_b))
    else (0 : ℕ))) := by
  have hzero : pvmZ w_b 8 = 0 ↔ w_b = 0 := signed_eq_zero_iff hb
  have hback : unsigned 64 (pvmZ w_a 8) = w_a := unsigned_signed ha
  rw [regRegRegValue, pvmZInv_eight, pvmZInv_eight, hback]
  by_cases hb0 : pvmZ w_b 8 = 0
  · rw [if_pos hb0, if_pos (hzero.mp hb0)]
  · rw [if_neg hb0, if_neg (hzero.not.mp hb0), pvmSmod_eq hb0]
    by_cases hpair : pvmZ w_a 8 = -2 ^ 63 ∧ pvmZ w_b 8 = -1
    · rw [if_pos hpair, if_neg (fun h => h.2 hpair)]
      rfl
    · rw [if_neg hpair, if_pos ⟨hb0, hpair⟩]
      rfl

end Instructions

/-- The wide products are the words of the unsigned, the signed and the mixed product over the integers,
and no carry of the unsigned one gets lost.  For every divisor but zero, and unless the quotient is
`2 ^ 63`, remainder and quotient are those of the division toward zero, and no operation leaves the
range of `int64`; the instructions divide such operands only. -/
theorem wide_arithmetic_exact :
    (∀ a b : ℕ, a < 2 ^ 64 → b < 2 ^ 64 →
      umul64wide a b = (a * b / 2 ^ 64, a * b % 2 ^ 64) ∧
      umul64wideChecked a b = some (umul64wide a b) ∧
      imul64wide (signed 64 a) (signed 64 b) = wideWords (signed 64 a * signed 64 b) ∧
      smulU64wide (signed 64 a) b = wideWords (signed 64 a * b)) ∧
    (∀ a b : ℤ, IsInt64 a → IsInt64 b → Divides a b →
      pvmSmod a b = a.tmod b ∧ pvmSmodChecked a b = some (pvmSmod a b) ∧
      pvmRtzDiv a b = a.tdiv b ∧ pvmRtzDivChecked a b = some (pvmRtzDiv a b)) ∧
    (∀ (t : ShiftTarget) (w_a w_b : ℕ), w_a < 2 ^ 64 → w_b < 2 ^ 64 →
      regRegRegValue t .divS64 w_a w_b = .ok (some (
        if w_b = 0 then (2 ^ 64 - 1 : ℕ)
        else if Divides (signed 64 w_a) (signed 64 w_b) then
          unsigned 64 ((signed 64 w_a).tdiv (signed 64 w_b))
        else w_a)) ∧
      regRegRegValue t .remS64 w_a w_b = .ok (some (
        if w_b = 0 then w_a
        else if Divides (signed 64 w_a) (signed 64 w_b) then
          unsigned 64 ((signed 64 w_a).tmod (signed 64 w_b))
        else (0 : ℕ)))) := by
  refine ⟨?_, ?_, ?_⟩
  · intro a b ha hb
    exact ⟨umul64wide_eq ha hb, umul64wideChecked_eq ha hb, imul64wide_eq ha hb,
      smulU64wide_eq ha hb⟩
  · intro a b ha hb hdivides
    exact ⟨pvmSmod_eq hdivides.1, pvmSmodChecked_eq ha hb hdivides, pvmRtzDiv_eq hdivides.1,
      pvmRtzDivChecked_eq ha hb hdivides⟩
  · intro t w_a w_b ha hb
    exact ⟨divS64_eq t hb, remS64_eq t hb ha⟩

/-- The word `2 ^ 64 - 1` times itself, where every half carries, and `-7` divided by `2`. -/
theorem wide_arithmetic_sample :
    umul64wide (2 ^ 64 - 1) (2 ^ 64 - 1) = (2 ^ 64 - 2, 1) ∧
    imul64wide (-1) (-1) = (0, 1) ∧ smulU64wide (-1) (2 ^ 64 - 1) = (2 ^ 64 - 1, 1) ∧
    pvmSmodChecked (-7) 2 = some (-1) ∧ pvmRtzDivChecked (-7) 2 = some (-3) ∧
    regRegRegValue .poison .divS64 (2 ^ 64 - 7) 2 = .ok (some (2 ^ 64 - 3)) := by
  obtain ⟨hwide, hdivide, hwords⟩ := wide_arithmetic_exact
  obtain ⟨humul, -, himul, hsmul⟩ := hwide (2 ^ 64 - 1) (2 ^ 64 - 1) (by decide) (by decide)
  obtain ⟨hmod, hmodChecked, hdiv, hdivChecked⟩ := hdivide (-7) 2 (by decide) (by decide) (by decide)
  have hminus : signed 64 (2 ^ 64 - 1) = -1 := by decide
  have hmulUnsigned : wideWords (-1 * ((2 ^ 64 - 1 : ℕ) : ℤ)) = (2 ^ 64 - 1, 1) := by decide
  rw [hminus] at himul hsmul
  refine ⟨humul, himul, hsmul.trans hmulUnsigned, ?_, ?_, ?_⟩
  · rw [hmodChecked, hmod]
    rfl
  · rw [hdivChecked, hdiv]
    rfl
  · exact (hwords .poison (2 ^ 64 - 7) 2 (by decide) (by decide)).1

end Numba

end Pvm
