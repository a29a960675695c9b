import Pyjamaz.Pvm.Graypaper
import Pyjamaz.Pvm.CPython
import Pyjamaz.Pvm.Numba

/-!
# The helper functions of the interpreters

Sign extension, immediates, division, bit counts, wide products, byte reversal and rotations are
written once for every interpreter, on integers of Python or on machine words.  Here each of them gets
one meaning, on natural numbers below `2 ^ 64` and on the integers they stand for; what is proved
about instructions afterwards does not look at the helper functions again.
-/

namespace Pvm

open TwosComplement

/-! ## Sign extension -/

section Helpers

lemma Graypaper.pvmX_eq {x n : ℕ} (hn : 1 ≤ n) (hn8 : n ≤ 8) (hx : x < 2 ^ (8 * n)) :
    Graypaper.pvmX x n = .ok (signExtend (8 * n) x) := by
  have hle : (2 : ℕ) ^ (8 * n) ≤ 2 ^ 64 := Nat.pow_le_pow_right (by norm_num) (by omega)
  have hpos : 0 < 2 ^ (8 * n - 1) := by positivity
  have hhalf : 2 ^ (8 * n) = 2 ^ (8 * n - 1) * 2 := by
    rw [← pow_succ]
    congr 1
    omega
  rw [Graypaper.pvmX, if_pos ⟨hx, hle⟩, signExtend]
  by_cases hlt : x < 2 ^ (8 * n - 1)
  · rw [if_pos hlt, Nat.div_eq_of_lt hlt, zero_mul, add_zero]
  · have hone : x / 2 ^ (8 * n - 1) = 1 := by
      apply Nat.div_eq_of_lt_le
      · omega
      · omega
    rw [if_neg hlt, hone, one_mul]

lemma Graypaper.pvmZ_eq (a n : ℕ) : Graypaper.pvmZ a n = signed (8 * n) a := rfl

lemma Graypaper.pvmZInv_eq (a : ℤ) : Graypaper.pvmZInv a 8 = unsigned 64 a :=
  unsigned_two_pow_add 64 a

lemma CPython.pvmX_eq {x n : ℕ} (hn : 1 ≤ n) (hn7 : n ≤ 7) :
    CPython.pvmX x n = signExtend (8 * n) (x % 2 ^ (8 * n)) := by
  obtain ⟨k, hk⟩ : ∃ k, 8 * n = k + 1 := ⟨8 * n - 1, by omega⟩
  have hlt : x % 2 ^ (8 * n) < 2 ^ (8 * n) := Nat.mod_lt _ (by positivity)
  rw [CPython.pvmX, if_pos ⟨hn, hn7⟩, signExtend]
  rw [hk] at hlt ⊢
  simp only [Nat.add_sub_cancel, land_two_pow_ne_zero hlt]
  by_cases htop : 2 ^ k ≤ x % 2 ^ (k + 1)
  · rw [if_pos htop, if_neg (by omega), lor_high hlt (by omega)]
  · rw [if_neg htop, if_pos (by omega)]

lemma CPython.pvmX_eight (x : ℕ) : CPython.pvmX x 8 = x % 2 ^ 64 := rfl

lemma CPython.pvmZ_eq {a n : ℕ} (hn : n ≠ 0) :
    CPython.pvmZ a n = signed (8 * n) (a % 2 ^ (8 * n)) := by
  obtain ⟨k, hk⟩ : ∃ k, 8 * n = k + 1 := ⟨8 * n - 1, by omega⟩
  have hlt : a % 2 ^ (8 * n) < 2 ^ (8 * n) := Nat.mod_lt _ (by positivity)
  rw [CPython.pvmZ, if_neg hn]
  rw [hk] at hlt ⊢
  rw [Nat.add_sub_cancel, xor_sub_eq_signed hlt]

lemma CPython.pvmZInv_eq (a : ℤ) : CPython.pvmZInv a 8 = unsigned 64 a := by
  rw [CPython.pvmZInv, if_neg (by norm_num)]
  exact Nat.mod_eq_of_lt (unsigned_lt 64 a)

lemma Numba.pvmX_eq_cpython : Numba.pvmX = CPython.pvmX := rfl

lemma Numba.pvmZ_eight (a : ℕ) : Numba.pvmZ a 8 = signed 64 a := rfl

lemma Numba.pvmZ_eq {a n : ℕ} (hn : 1 ≤ n) (hn7 : n ≤ 7) :
    Numba.pvmZ a n = signed (8 * n) (a % 2 ^ (8 * n)) := by
  have hwidth : n <<< 3 = 8 * n := by
    rw [Nat.shiftLeft_eq]
    omega
  have hlt : a % 2 ^ (8 * n) < 2 ^ (8 * n) := Nat.mod_lt _ (by positivity)
  obtain ⟨k, hk⟩ : ∃ k, 8 * n = k + 1 := ⟨8 * n - 1, by omega⟩
  rw [Numba.pvmZ, hwidth, if_neg (by omega), if_neg (by omega), ← signed_signExtend (by omega)
    (by omega), signExtend]
  rw [hk] at hlt ⊢
  simp only [Nat.add_sub_cancel, land_two_pow_ne_zero hlt]
  by_cases htop : 2 ^ k ≤ a % 2 ^ (k + 1)
  · rw [if_pos htop, if_neg (by omega), lor_high hlt (by omega)]
  · rw [if_neg htop, if_pos (by omega)]

lemma Numba.pvmZInv_eight (a : ℤ) : Numba.pvmZInv a 8 = unsigned 64 a := rfl

lemma Numba.i32_signed {n : ℕ} (hn : n < 2 ^ 32) : Numba.i32 (signed 32 n) = signed 32 n := by
  rw [Numba.i32, unsigned_signed hn]

/-! ## Reading immediates -/

/-- The three readers of code bytes agree on the widths an immediate can have. -/
lemma CPython.readUint_eq (code : List UInt8) (addr : ℕ) {l : ℕ} (hl : l ≤ 4) :
    CPython.readUint code addr l = Graypaper.readUint code addr l := by
  have h0 := byteAt_lt code addr
  have h1 := byteAt_lt code (addr + 1)
  have h2 := byteAt_lt code (addr + 2)
  have h3 := byteAt_lt code (addr + 3)
  interval_cases l
  · rfl
  · exact (Nat.mod_eq_of_lt h0).symm
  · simp only [CPython.readUint, Graypaper.readUint, Nat.shiftLeft_eq]
    omega
  · rw [CPython.readUint, Graypaper.readUint, lor_shiftLeft _ (by omega)]
    simp only [Nat.shiftLeft_eq]
    omega
  · simp only [CPython.readUint, Graypaper.readUint, Nat.shiftLeft_eq]
    omega

lemma Numba.readUint_eq (code : List UInt8) (addr : ℕ) {l : ℕ} (hl : l ≤ 4) :
    Numba.readUint code addr l = CPython.readUint code addr l := by
  have h0 := byteAt_lt code addr
  have h1 := byteAt_lt code (addr + 1)
  have h2 := byteAt_lt code (addr + 2)
  have h3 := byteAt_lt code (addr + 3)
  interval_cases l
  · rfl
  · rfl
  · exact lor_shiftLeft _ h0
  · rw [Numba.readUint, CPython.readUint, lor_shiftLeft _ h0]
  · have hlow : byteAt code addr + 2 ^ 8 * byteAt code (addr + 1) < 2 ^ 16 := by omega
    simp only [Numba.readUint, CPython.readUint]
    rw [lor_shiftLeft _ h0, lor_shiftLeft _ hlow, lor_shiftLeft _ (by omega)]

lemma Graypaper.readUint_lt (code : List UInt8) (addr : ℕ) {l : ℕ} (hl : l ≤ 4) :
    Graypaper.readUint code addr l < 2 ^ (8 * l) := by
  have h0 := byteAt_lt code addr
  have h1 := byteAt_lt code (addr + 1)
  have h2 := byteAt_lt code (addr + 2)
  interval_cases l
  · simp [Graypaper.readUint]
  · exact Nat.mod_lt _ (by norm_num)
  · exact Nat.mod_lt _ (by norm_num)
  · simp only [Graypaper.readUint, Nat.shiftLeft_eq]
    omega
  · exact Nat.mod_lt _ (by norm_num)

/-- The sign-extended immediate of at most four bytes, as all three interpreters read it. -/
def immediate (code : List UInt8) (addr l : ℕ) : ℕ :=
  if l = 0 then 0 else signExtend (8 * l) (Graypaper.readUint code addr l)

lemma immediate_lt (code : List UInt8) (addr : ℕ) {l : ℕ} (hl : l ≤ 4) :
    immediate code addr l < 2 ^ 64 := by
  unfold immediate
  split
  · norm_num
  · exact signExtend_lt (by omega) (Graypaper.readUint_lt code addr hl)

lemma Graypaper.pvmX_readUint (code : List UInt8) (addr : ℕ) {l : ℕ} (hl : l ≤ 4) :
    Graypaper.pvmX (Graypaper.readUint code addr l) l = .ok (immediate code addr l) := by
  unfold immediate
  split
  · subst l
    simp [Graypaper.readUint, Graypaper.pvmX]
  · exact Graypaper.pvmX_eq (by omega) (by omega) (Graypaper.readUint_lt code addr hl)

lemma CPython.pvmX_readUint (code : List UInt8) (addr : ℕ) {l : ℕ} (hl : l ≤ 4) :
    CPython.pvmX (CPython.readUint code addr l) l = immediate code addr l := by
  rw [CPython.readUint_eq code addr hl]
  unfold immediate
  split
  · subst l
    rfl
  · rw [CPython.pvmX_eq (by omega) (by omega),
      Nat.mod_eq_of_lt (Graypaper.readUint_lt code addr hl)]

lemma Numba.pvmX_readUint (code : List UInt8) (addr : ℕ) {l : ℕ} (hl : l ≤ 4) :
    Numba.pvmX (Numba.readUint code addr l) l = immediate code addr l := by
  rw [Numba.readUint_eq code addr hl, Numba.pvmX_eq_cpython, CPython.pvmX_readUint code addr hl]

/-! ## Division toward zero -/

lemma Graypaper.pvmRtzDiv_eq (a b : ℤ) : Graypaper.pvmRtzDiv a b = a.tdiv b := by
  have habs : (a.tdiv b).natAbs = a.natAbs / b.natAbs := Int.natAbs_tdiv a b
  unfold Graypaper.pvmRtzDiv
  rw [← habs]
  rcases le_or_gt 0 a with ha | ha
  · rcases le_or_gt 0 b with hb | hb
    · have hq := Int.tdiv_nonneg ha hb
      simp only [ha, hb, decide_true, if_true]
      omega
    · have hq := Int.tdiv_nonpos_of_nonneg_of_nonpos ha hb.le
      simp only [ha, not_le.mpr hb, decide_true, decide_false, Bool.true_eq_false, if_false]
      omega
  · rcases le_or_gt 0 b with hb | hb
    · have hq : a.tdiv b ≤ 0 := by
        have hneg := Int.tdiv_nonneg (by omega : 0 ≤ -a) hb
        rw [Int.neg_tdiv] at hneg
        omega
      simp only [not_le.mpr ha, hb, decide_true, decide_false, Bool.false_eq_true, if_false]
      omega
    · have hq : 0 ≤ a.tdiv b := by
        have hneg := Int.tdiv_nonneg (by omega : 0 ≤ -a) (by omega : 0 ≤ -b)
        rw [Int.neg_tdiv, Int.tdiv_neg] at hneg
        omega
      simp only [not_le.mpr ha, not_le.mpr hb, decide_false, if_true]
      omega

lemma CPython.pvmRtzDiv_eq {a b : ℤ} : CPython.pvmRtzDiv a b = a.tdiv b := by
  unfold CPython.pvmRtzDiv
  split_ifs with ha hb hb
  · exact Int.fdiv_eq_tdiv_of_nonneg ha hb.le
  · rw [Int.fdiv_eq_tdiv_of_nonneg ha (by omega), Int.tdiv_neg, neg_neg]
  · rw [Int.fdiv_eq_tdiv_of_nonneg (by omega) hb.le, Int.neg_tdiv, neg_neg]
  · rw [Int.fdiv_eq_tdiv_of_nonneg (by omega) (by omega), Int.neg_tdiv, Int.tdiv_neg, neg_neg]

lemma Numba.pvmRtzDiv_eq {a b : ℤ} (hb0 : b ≠ 0) : Numba.pvmRtzDiv a b = a.tdiv b := by
  unfold Numba.pvmRtzDiv
  rw [Int.tdiv_eq_fdiv]
  simp only [ne_eq, ← Int.dvd_iff_fmod_eq_zero]
  generalize a.fdiv b = q
  rcases lt_or_gt_of_ne hb0 with hb | hb
  · have hsign := Int.sign_eq_neg_one_of_neg hb
    split_ifs <;> omega
  · have hsign := Int.sign_eq_one_of_pos hb
    split_ifs <;> omega

lemma Graypaper.pvmSmod_eq {a b : ℤ} (hb0 : b ≠ 0) : Graypaper.pvmSmod a b = a.tmod b := by
  have habs := Int.natAbs_tmod a b
  unfold Graypaper.pvmSmod
  rw [if_neg hb0, ← habs]
  rcases le_or_gt 0 a with ha | ha
  · have hr := Int.tmod_nonneg b ha
    rw [if_pos ha]
    omega
  · have hr : a.tmod b ≤ 0 := by
      have hneg := Int.tmod_nonneg b (by omega : 0 ≤ -a)
      rw [Int.neg_tmod] at hneg
      omega
    rw [if_neg (by omega)]
    omega

lemma CPython.pvmSmod_eq {a b : ℤ} (hb0 : b ≠ 0) : CPython.pvmSmod a b = a.tmod b := by
  unfold CPython.pvmSmod
  rw [if_neg hb0]
  split_ifs with ha hb hb
  · exact Int.fmod_eq_tmod_of_nonneg ha hb
  · rw [Int.fmod_eq_tmod_of_nonneg ha (by omega), Int.tmod_neg]
  · rw [Int.fmod_eq_tmod_of_nonneg (by omega) hb, Int.neg_tmod, neg_neg]
  · rw [Int.fmod_eq_tmod_of_nonneg (by omega) (by omega), Int.neg_tmod, Int.tmod_neg, neg_neg]

/-- The flooring remainder has the sign of the divisor and is smaller. -/
lemma fmod_bounds (a : ℤ) {b : ℤ} (hb : b ≠ 0) :
    (0 < b ∧ 0 ≤ a.fmod b ∧ a.fmod b < b) ∨ (b < 0 ∧ b < a.fmod b ∧ a.fmod b ≤ 0) := by
  rcases lt_or_gt_of_ne hb with hneg | hpos
  · have hle := Int.fmod_nonneg_of_pos (-a) (by omega : 0 < -b)
    have hlt := Int.fmod_lt_of_pos (-a) (by omega : 0 < -b)
    rw [Int.neg_fmod_neg] at hle hlt
    exact .inr ⟨hneg, by omega, by omega⟩
  · exact .inl ⟨hpos, Int.fmod_nonneg_of_pos a hpos, Int.fmod_lt_of_pos a hpos⟩

lemma Numba.pvmSmod_eq {a b : ℤ} (hb0 : b ≠ 0) : Numba.pvmSmod a b = a.tmod b := by
  unfold Numba.pvmSmod
  have hzero : a = 0 → a.fmod b = 0 := by
    rintro rfl
    exact Int.zero_fmod b
  rw [if_neg hb0, Int.tmod_eq_fmod]
  simp only [ne_eq, Int.dvd_iff_fmod_eq_zero]
  have hbounds := fmod_bounds a hb0
  generalize a.fmod b = r at *
  rcases hbounds with ⟨hb, hle, hlt⟩ | ⟨hb, hlt, hle⟩
  · split_ifs <;> omega
  · split_ifs <;> omega

/-! ## Counting bits -/

lemma Graypaper.countTrailingZeroes64_two_pow_mul {j m : ℕ} (hm : m % 2 = 1)
    (hlt : 2 ^ j * m < 2 ^ 64) : Graypaper.countTrailingZeroes64 (2 ^ j * m) = j := by
  have hpos : 2 ^ j * m ≠ 0 := by
    have := Nat.mul_pos (Nat.two_pow_pos j) (by omega : 0 < m)
    omega
  rw [Graypaper.countTrailingZeroes64, if_neg hpos, land_two_pow_sub_self hm hlt,
    bitLength_two_pow, Nat.add_sub_cancel]

lemma CPython.countTrailingZeroes_two_pow_mul {j m : ℕ} (hm : m % 2 = 1) (maxBits : ℕ) :
    CPython.countTrailingZeroes (2 ^ j * m) maxBits = j := by
  have hpos : 2 ^ j * m ≠ 0 := by
    have := Nat.mul_pos (Nat.two_pow_pos j) (by omega : 0 < m)
    omega
  rw [CPython.countTrailingZeroes, if_neg hpos, int_land_neg_self hm, Int.toNat_natCast,
    bitLength_two_pow, Nat.add_sub_cancel]

lemma Numba.countTrailingZeroes_two_pow_mul {j m : ℕ} (hm : m % 2 = 1)
    (hlt : 2 ^ j * m < 2 ^ 64) (maxBits : ℕ) :
    Numba.countTrailingZeroes (2 ^ j * m) maxBits = j := by
  have hmpos : 0 < m := by omega
  have hpos : 2 ^ j * m ≠ 0 := by
    have := Nat.mul_pos (Nat.two_pow_pos j) hmpos
    omega
  have hj : j < 64 := by
    by_contra hge
    have h64 : (2 : ℕ) ^ 64 ≤ 2 ^ j := Nat.pow_le_pow_right (by norm_num) (by omega)
    have : 2 ^ j ≤ 2 ^ j * m := Nat.le_mul_of_pos_right _ hmpos
    omega
  rw [Numba.countTrailingZeroes, if_neg hpos, trailingZerosLoop_eq 64 0 hj hm, zero_add]

lemma Graypaper.countTrailingZeroes_eq_cpython :
    Graypaper.countTrailingZeroes = CPython.countTrailingZeroes := rfl

/-- The wrapping and the unbounded negation isolate the same bit. -/
lemma CPython.countTrailingZeroes_eq_graypaper {v : ℕ} (hv : v < 2 ^ 64) :
    CPython.countTrailingZeroes v 64 = Graypaper.countTrailingZeroes64 v := by
  rcases Nat.eq_zero_or_pos v with rfl | hpos
  · rfl
  · obtain ⟨j, m, rfl, hm⟩ := exists_two_pow_mul_odd hpos.ne'
    rw [CPython.countTrailingZeroes_two_pow_mul hm,
      Graypaper.countTrailingZeroes64_two_pow_mul hm hv]

lemma Numba.countTrailingZeroes_eq_cpython {v : ℕ} (hv : v < 2 ^ 64) (maxBits : ℕ) :
    Numba.countTrailingZeroes v maxBits = CPython.countTrailingZeroes v maxBits := by
  rcases Nat.eq_zero_or_pos v with rfl | hpos
  · rfl
  · obtain ⟨j, m, rfl, hm⟩ := exists_two_pow_mul_odd hpos.ne'
    rw [CPython.countTrailingZeroes_two_pow_mul hm,
      Numba.countTrailingZeroes_two_pow_mul hm hv]

lemma CPython.countTrailingZeroes_le {v : ℕ} (hv : v < 2 ^ 64) {maxBits : ℕ} (hb : maxBits ≤ 64) :
    CPython.countTrailingZeroes v maxBits ≤ 64 := by
  rcases Nat.eq_zero_or_pos v with rfl | hpos
  · exact hb
  · obtain ⟨j, m, rfl, hm⟩ := exists_two_pow_mul_odd hpos.ne'
    rw [CPython.countTrailingZeroes_two_pow_mul hm]
    by_contra hgt
    have h64 : (2 : ℕ) ^ 64 ≤ 2 ^ j := Nat.pow_le_pow_right (by norm_num) (by omega)
    have : 2 ^ j ≤ 2 ^ j * m := Nat.le_mul_of_pos_right _ (by omega)
    omega

lemma Numba.countLeadingZeroes_eq {v k : ℕ} (hk : k + 1 ≤ 64) :
    Numba.countLeadingZeroes v (k + 1) = Graypaper.countLeadingZeroes v (k + 1) := by
  have hmb : (if 64 ≤ k + 1 then 64 else k + 1) = k + 1 := by
    split <;> omega
  rw [Numba.countLeadingZeroes, Graypaper.countLeadingZeroes]
  simp only [hmb, Nat.add_sub_cancel]
  by_cases hzero : v % 2 ^ (k + 1) = 0
  · rw [if_pos hzero, if_pos hzero]
  · have hloop := leadingZerosLoop_eq k 0 (Nat.pos_of_ne_zero hzero)
      (Nat.mod_lt v (Nat.two_pow_pos (k + 1)))
    rw [if_neg hzero, if_neg hzero]
    omega

/-! ## Products -/

/-- A product from the products of the halves. -/
lemma mul_eq_halves (a b : ℕ) :
    a * b = a % 2 ^ 32 * (b % 2 ^ 32) + 2 ^ 32 * (a % 2 ^ 32 * (b >>> 32)) +
      2 ^ 32 * (a >>> 32 * (b % 2 ^ 32)) + 2 ^ 64 * (a >>> 32 * (b >>> 32)) := by
  have hsplit : ∀ x : ℕ, x = x % 2 ^ 32 + 2 ^ 32 * (x >>> 32) := by
    intro x
    rw [Nat.shiftRight_eq_div_pow, Nat.mod_add_div]
  conv_lhs => rw [hsplit a, hsplit b]
  ring

lemma mod_half_lt (x : ℕ) : x % 2 ^ 32 < 2 ^ 32 := Nat.mod_lt _ (by norm_num)

lemma shiftRight_half_lt {x : ℕ} (hx : x < 2 ^ 64) : x >>> 32 < 2 ^ 32 := by
  rw [Nat.shiftRight_eq_div_pow]
  omega

lemma half_mul_le {x y : ℕ} (hx : x < 2 ^ 32) (hy : y < 2 ^ 32) :
    x * y ≤ (2 ^ 32 - 1) * (2 ^ 32 - 1) :=
  Nat.mul_le_mul (by omega) (by omega)

/-- The high word of an unsigned product, assembled from four 32-bit products. -/
lemma Numba.umul64wide_fst {a b : ℕ} (ha : a < 2 ^ 64) (hb : b < 2 ^ 64) :
    (Numba.umul64wide a b).1 = a * b / 2 ^ 64 := by
  have hll := half_mul_le (mod_half_lt a) (mod_half_lt b)
  have hlh := half_mul_le (mod_half_lt a) (shiftRight_half_lt hb)
  have hhl := half_mul_le (shiftRight_half_lt ha) (mod_half_lt b)
  have hhh := half_mul_le (shiftRight_half_lt ha) (shiftRight_half_lt hb)
  rw [mul_eq_halves]
  dsimp only [Numba.umul64wide]
  generalize a % 2 ^ 32 * (b % 2 ^ 32) = ll at *
  generalize a % 2 ^ 32 * (b >>> 32) = lh at *
  generalize a >>> 32 * (b % 2 ^ 32) = hl at *
  generalize a >>> 32 * (b >>> 32) = hh at *
  simp only [Nat.shiftRight_eq_div_pow]
  omega

lemma Numba.usub_eq {a b : ℕ} (hb : b < 2 ^ 64) :
    Numba.usub a b = unsigned 64 ((a : ℤ) - b) := by
  have hcast : (a : ℤ) - b = ((a + (2 ^ 64 - b) : ℕ) : ℤ) - 2 ^ 64 := by
    omega
  have hmod : (((a + (2 ^ 64 - b) : ℕ) : ℤ)) % 2 ^ 64 =
      (((a + (2 ^ 64 - b)) % 2 ^ 64 : ℕ) : ℤ) := by
    push_cast
    rfl
  rw [hcast, unsigned_sub_two_pow, unsigned, hmod, Int.toNat_natCast, Numba.usub]

/-- Subtracting a signed operand's correction from the high word. -/
lemma Numba.smulU64wide_fst {a b : ℕ} (ha : a < 2 ^ 64) (hb : b < 2 ^ 64) :
    (Numba.smulU64wide (signed 64 a) b).1 = unsigned 64 ((signed 64 a * b) / 2 ^ 64) := by
  simp only [Numba.smulU64wide, unsigned_signed ha, Numba.umul64wide_fst ha hb]
  have hhi : ((a * b / 2 ^ 64 : ℕ) : ℤ) = (a : ℤ) * b / 2 ^ 64 := by
    push_cast
    rfl
  unfold signed
  by_cases hlt : a < 2 ^ (64 - 1)
  · have hnonneg : ¬ ((a : ℤ) < 0) := by omega
    have hbound : a * b / 2 ^ 64 < 2 ^ 64 := by
      rw [Nat.div_lt_iff_lt_mul (by norm_num)]
      exact Nat.mul_lt_mul'' ha hb
    rw [if_pos hlt, if_neg hnonneg, ← hhi, unsigned_natCast hbound]
  · have hneg : (a : ℤ) - 2 ^ 64 < 0 := by omega
    have hquot : ((a : ℤ) - 2 ^ 64) * b / 2 ^ 64 = (a : ℤ) * b / 2 ^ 64 - b := by
      rw [sub_mul, sub_eq_add_neg, ← mul_neg, Int.add_mul_ediv_left _ _ (by norm_num),
        ← sub_eq_add_neg]
    rw [if_neg hlt, if_pos hneg, Numba.usub_eq hb, hhi, hquot]

/-- The high word of a signed product is the unsigned one less one correction per negative
operand. -/
lemma Numba.imul64wide_fst {a b : ℕ} (ha : a < 2 ^ 64) (hb : b < 2 ^ 64) :
    (Numba.imul64wide (signed 64 a) (signed 64 b)).1 =
      unsigned 64 ((signed 64 a * signed 64 b) / 2 ^ 64) := by
  have hfst : (Numba.imul64wide (signed 64 a) (signed 64 b)).1 =
      if signed 64 b < 0 then Numba.usub (Numba.smulU64wide (signed 64 a) b).1 a
      else (Numba.smulU64wide (signed 64 a) b).1 := by
    simp only [Numba.imul64wide, Numba.smulU64wide, unsigned_signed ha, unsigned_signed hb]
  rw [hfst, Numba.smulU64wide_fst ha hb]
  by_cases hlt : b < 2 ^ (64 - 1)
  · have hsb : signed 64 b = b := if_pos hlt
    rw [hsb, if_neg (by omega)]
  · have hsb : signed 64 b = (b : ℤ) - 2 ^ 64 := if_neg hlt
    have hquot : signed 64 a * ((b : ℤ) - 2 ^ 64) / 2 ^ 64 =
        signed 64 a * b / 2 ^ 64 - signed 64 a := by
      rw [mul_sub, sub_eq_add_neg, mul_comm (signed 64 a) (2 ^ 64), ← mul_neg,
        Int.add_mul_ediv_left _ _ (by norm_num), ← sub_eq_add_neg]
    rw [hsb, if_pos (by omega), Numba.usub_eq ha, hquot]
    apply unsigned_congr
    rcases signed_eq_natCast_sub 64 a with hsa | hsa
    · rw [hsa, unsigned, Int.toNat_of_nonneg (Int.emod_nonneg _ (by norm_num)), Int.emod_sub_emod]
    · rw [unsigned, Int.toNat_of_nonneg (Int.emod_nonneg _ (by norm_num)), Int.emod_sub_emod, hsa]
      omega

/-! ## Byte reversal -/

/-- One byte of a word, masked in place. -/
lemma land_byte_mask (x k : ℕ) : x &&& (2 ^ 8 - 1) <<< k = (x / 2 ^ k % 2 ^ 8) <<< k := by
  apply Nat.eq_of_testBit_eq
  intro i
  rw [Nat.testBit_and, Nat.testBit_shiftLeft, Nat.testBit_shiftLeft, Nat.testBit_mod_two_pow,
    Nat.testBit_div_two_pow, Nat.testBit_two_pow_sub_one]
  by_cases hi : k ≤ i
  · simp [hi, Bool.and_comm]
  · simp [hi]

/-- Byte `i` of a word. -/
def byteOf (x i : ℕ) : ℕ := x / 2 ^ (8 * i) % 2 ^ 8

lemma byteOf_lt (x i : ℕ) : byteOf x i < 2 ^ 8 := Nat.mod_lt _ (by norm_num)

/-- The word with the bytes of `x` in the opposite order, as a disjunction of shifted bytes. -/
def byteReversal (x : ℕ) : ℕ :=
  byteOf x 0 <<< 56 ||| byteOf x 1 <<< 48 ||| byteOf x 2 <<< 40 ||| byteOf x 3 <<< 32 |||
    byteOf x 4 <<< 24 ||| byteOf x 5 <<< 16 ||| byteOf x 6 <<< 8 ||| byteOf x 7

/-- A disjunction of eight numbers in the opposite order. -/
lemma lor_reverse (a b c d e f g h : ℕ) :
    a ||| b ||| c ||| d ||| e ||| f ||| g ||| h = h ||| g ||| f ||| e ||| d ||| c ||| b ||| a := by
  ac_rfl

/-- Disjoint bytes: the disjunction is the sum. -/
lemma byteReversal_eq_sum (x : ℕ) :
    byteReversal x = byteOf x 7 + 2 ^ 8 * byteOf x 6 + 2 ^ 16 * byteOf x 5 + 2 ^ 24 * byteOf x 4 +
      2 ^ 32 * byteOf x 3 + 2 ^ 40 * byteOf x 2 + 2 ^ 48 * byteOf x 1 + 2 ^ 56 * byteOf x 0 := by
  have h7 := byteOf_lt x 7
  have h6 := byteOf_lt x 6
  have h5 := byteOf_lt x 5
  have h4 := byteOf_lt x 4
  have h3 := byteOf_lt x 3
  have h2 := byteOf_lt x 2
  have h1 := byteOf_lt x 1
  rw [byteReversal, lor_reverse]
  generalize byteOf x 0 = b0 at *
  generalize byteOf x 1 = b1 at *
  generalize byteOf x 2 = b2 at *
  generalize byteOf x 3 = b3 at *
  generalize byteOf x 4 = b4 at *
  generalize byteOf x 5 = b5 at *
  generalize byteOf x 6 = b6 at *
  generalize byteOf x 7 = b7 at *
  have s6 : b7 + 2 ^ 8 * b6 < 2 ^ 16 := by omega
  have s5 : b7 + 2 ^ 8 * b6 + 2 ^ 16 * b5 < 2 ^ 24 := by omega
  have s4 : b7 + 2 ^ 8 * b6 + 2 ^ 16 * b5 + 2 ^ 24 * b4 < 2 ^ 32 := by omega
  have s3 : b7 + 2 ^ 8 * b6 + 2 ^ 16 * b5 + 2 ^ 24 * b4 + 2 ^ 32 * b3 < 2 ^ 40 := by omega
  have s2 : b7 + 2 ^ 8 * b6 + 2 ^ 16 * b5 + 2 ^ 24 * b4 + 2 ^ 32 * b3 + 2 ^ 40 * b2 < 2 ^ 48 := by
    omega
  have s1 : b7 + 2 ^ 8 * b6 + 2 ^ 16 * b5 + 2 ^ 24 * b4 + 2 ^ 32 * b3 + 2 ^ 40 * b2 +
      2 ^ 48 * b1 < 2 ^ 56 := by omega
  rw [lor_shiftLeft _ h7, lor_shiftLeft _ s6, lor_shiftLeft _ s5, lor_shiftLeft _ s4,
    lor_shiftLeft _ s3, lor_shiftLeft _ s2, lor_shiftLeft _ s1]

lemma byteReversal_lt (x : ℕ) : byteReversal x < 2 ^ 64 := by
  have h0 := byteOf_lt x 0
  have h1 := byteOf_lt x 1
  have h2 := byteOf_lt x 2
  have h3 := byteOf_lt x 3
  have h4 := byteOf_lt x 4
  have h5 := byteOf_lt x 5
  have h6 := byteOf_lt x 6
  have h7 := byteOf_lt x 7
  rw [byteReversal_eq_sum]
  omega

lemma CPython.reverseBytes_eq (x : ℕ) : CPython.reverseBytes x = byteReversal x := by
  rw [byteReversal_eq_sum]
  simp only [CPython.reverseBytes, CPython.packBigEndian, List.map, CPython.unpackLittleEndian,
    byteOf]
  ring

lemma shiftLeft_shiftRight_of_le (b : ℕ) {m k : ℕ} (h : k ≤ m) : b <<< m >>> k = b <<< (m - k) := by
  obtain ⟨d, rfl⟩ : ∃ d, m = d + k := ⟨m - k, by omega⟩
  rw [Nat.add_sub_cancel, Nat.shiftLeft_add, Nat.shiftLeft_shiftRight]

lemma shiftLeft_shiftLeft_add (b m k : ℕ) : b <<< m <<< k = b <<< (m + k) :=
  (Nat.shiftLeft_add b m k).symm

/-- A byte mask in place, in terms of `byteOf`. -/
lemma land_byteMask (x i : ℕ) : x &&& (2 ^ 8 - 1) <<< (8 * i) = byteOf x i <<< (8 * i) :=
  land_byte_mask x (8 * i)

lemma Graypaper.reverseBytes_eq (x : ℕ) : Graypaper.reverseBytes x = byteReversal x := by
  have h0 : x &&& 0x00000000000000FF = byteOf x 0 <<< 0 := land_byteMask x 0
  have h1 : x &&& 0x000000000000FF00 = byteOf x 1 <<< 8 := land_byteMask x 1
  have h2 : x &&& 0x0000000000FF0000 = byteOf x 2 <<< 16 := land_byteMask x 2
  have h3 : x &&& 0x00000000FF000000 = byteOf x 3 <<< 24 := land_byteMask x 3
  have h4 : x &&& 0x000000FF00000000 = byteOf x 4 <<< 32 := land_byteMask x 4
  have h5 : x &&& 0x0000FF0000000000 = byteOf x 5 <<< 40 := land_byteMask x 5
  have h6 : x &&& 0x00FF000000000000 = byteOf x 6 <<< 48 := land_byteMask x 6
  have h7 : x &&& 0xFF00000000000000 = byteOf x 7 <<< 56 := land_byteMask x 7
  rw [Graypaper.reverseBytes, byteReversal, h0, h1, h2, h3, h4, h5, h6, h7]
  simp only [shiftLeft_shiftLeft_add]
  rw [shiftLeft_shiftRight_of_le _ (by norm_num), shiftLeft_shiftRight_of_le _ (by norm_num),
    shiftLeft_shiftRight_of_le _ (by norm_num), shiftLeft_shiftRight_of_le _ (by norm_num)]
  norm_num

lemma Numba.reverseBytes_eq (x : ℕ) : Numba.reverseBytes x = byteReversal x := by
  have hbyte : ∀ i, x >>> (i * 8) % 2 ^ 8 = byteOf x i := by
    intro i
    rw [Nat.shiftRight_eq_div_pow, byteOf, mul_comm]
  have hshift : ∀ i k, k ≤ 56 → byteOf x i <<< k % 2 ^ 64 = byteOf x i <<< k := by
    intro i k hk
    apply Nat.mod_eq_of_lt
    have hb := byteOf_lt x i
    have hp : (2 : ℕ) ^ k ≤ 2 ^ 56 := Nat.pow_le_pow_right (by norm_num) hk
    rw [Nat.shiftLeft_eq]
    calc byteOf x i * 2 ^ k < 2 ^ 8 * 2 ^ k := by
          exact Nat.mul_lt_mul_of_pos_right hb (Nat.two_pow_pos k)
      _ ≤ 2 ^ 8 * 2 ^ 56 := Nat.mul_le_mul_left _ hp
      _ = 2 ^ 64 := by norm_num
  have hrange : List.range 8 = [0, 1, 2, 3, 4, 5, 6, 7] := rfl
  simp only [Numba.reverseBytes, hrange, List.foldl, hbyte]
  rw [hshift 0 _ (by norm_num), hshift 1 _ (by norm_num), hshift 2 _ (by norm_num),
    hshift 3 _ (by norm_num), hshift 4 _ (by norm_num), hshift 5 _ (by norm_num),
    hshift 6 _ (by norm_num), hshift 7 _ (by norm_num), byteReversal]
  norm_num

/-! ## Rotations -/

/-- When the native 64-bit rotation, whose amount is not masked, computes the rotation. -/
def Rotates64 (t : ShiftTarget) (s : ℕ) : Prop :=
  match t with
  | .poison => 0 < s ∧ s < 64
  | .masked => True

/-- When the native 32-bit rotation, done on widened operands, computes the rotation: on a machine
that masks the amount modulo 64 the operand is shifted out by the amounts above 32. -/
def Rotates32 (t : ShiftTarget) (x s : ℕ) : Prop :=
  match t with
  | .poison => s ≤ 32
  | .masked => s % 64 ≤ 32 ∨ x = 0

lemma CPython.rori64_eq {x : ℕ} (hx : x < 2 ^ 64) (s : ℕ) :
    CPython.rori64 x s = Graypaper.rori64 x s := by
  rw [CPython.rori64, Graypaper.rori64, Nat.mod_eq_of_lt hx]

lemma CPython.roli64_eq {x : ℕ} (hx : x < 2 ^ 64) (s : ℕ) :
    CPython.roli64 x s = Graypaper.roli64 x s := by
  rw [CPython.roli64, Graypaper.roli64, Nat.mod_eq_of_lt hx]

/-- Reducing the shifted-out half before or after the disjunction gives the same low bits. -/
lemma lor_mod_right (a b k : ℕ) {w : ℕ} (hw : k ≤ w) : (a ||| b % 2 ^ w) % 2 ^ k = (a ||| b) % 2 ^ k := by
  rw [Nat.or_mod_two_pow, Nat.or_mod_two_pow (a := a) (b := b),
    Nat.mod_mod_of_dvd _ (pow_dvd_pow 2 hw)]

lemma lor_mod_left (a b k : ℕ) {w : ℕ} (hw : k ≤ w) : (a % 2 ^ w ||| b) % 2 ^ k = (a ||| b) % 2 ^ k := by
  rw [Nat.or_comm, lor_mod_right b a k hw, Nat.or_comm]

/-- The amount of the opposite shift as the machine sees it. -/
lemma unsigned_sub_of_le {w s : ℕ} (hs : s ≤ w) (hw : w < 2 ^ 64) :
    unsigned 64 ((w : ℤ) - s) = w - s := by
  rw [← Nat.cast_sub hs, unsigned_natCast (by omega)]

lemma unsigned_sub_of_lt {w s : ℕ} (hs : w < s) (hs64 : s < 2 ^ 64) :
    unsigned 64 ((w : ℤ) - s) = 2 ^ 64 + w - s := by
  have hcast : (w : ℤ) - s = ((2 ^ 64 + w - s : ℕ) : ℤ) - 2 ^ 64 := by omega
  rw [hcast, unsigned_sub_two_pow, unsigned_natCast (by omega)]

/-- Inside the word the native right rotation is the reference one. -/
lemma Numba.rori64_of_lt (t : ShiftTarget) {x s : ℕ} (hs0 : 0 < s) (hs : s < 64) :
    Numba.rori64 t x s = .ok (Graypaper.rori64 x s) := by
  have hopp : unsigned 64 (64 - (s : ℤ)) = 64 - s := unsigned_sub_of_le (w := 64) hs.le (by norm_num)
  have hlt : 64 - s < 64 := by omega
  simp only [Numba.rori64, Numba.shr, Numba.shl, hopp, if_pos hs, if_pos hlt, Graypaper.rori64,
    Nat.mod_eq_of_lt hs]
  exact congrArg Except.ok (lor_mod_right _ _ 64 le_rfl)

lemma Numba.roli64_of_lt (t : ShiftTarget) {x s : ℕ} (hs0 : 0 < s) (hs : s < 64) :
    Numba.roli64 t x s = .ok (Graypaper.roli64 x s) := by
  have hopp : unsigned 64 (64 - (s : ℤ)) = 64 - s := unsigned_sub_of_le (w := 64) hs.le (by norm_num)
  have hlt : 64 - s < 64 := by omega
  simp only [Numba.roli64, Numba.shr, Numba.shl, hopp, if_pos hs, if_pos hlt, Graypaper.roli64,
    Nat.mod_eq_of_lt hs]
  exact congrArg Except.ok (lor_mod_left _ _ 64 le_rfl)

lemma Numba.shr_masked (x n : ℕ) : Numba.shr .masked x n = .ok (x >>> (n % 64)) := by
  unfold Numba.shr
  split
  · next h => rw [Nat.mod_eq_of_lt h]
  · rfl

lemma Numba.shl_masked (x n : ℕ) : Numba.shl .masked x n = .ok (x <<< (n % 64) % 2 ^ 64) := by
  unfold Numba.shl
  split
  · next h => rw [Nat.mod_eq_of_lt h]
  · rfl

/-- The opposite amount modulo 64, whatever the rotation amount. -/
lemma unsigned_sub_mod {w s : ℕ} (hw : w ≤ 64) (hs : s < 2 ^ 64) :
    unsigned 64 ((w : ℤ) - s) % 64 = (64 + w - s % 64) % 64 := by
  rcases le_or_gt s w with hle | hgt
  · rw [unsigned_sub_of_le hle (by omega)]
    omega
  · rw [unsigned_sub_of_lt hgt hs]
    omega

lemma Graypaper.rori64_zero {x s : ℕ} (hx : x < 2 ^ 64) (hs : s % 64 = 0) :
    Graypaper.rori64 x s = x := by
  have hhigh : x <<< 64 % 2 ^ 64 = 0 := by
    rw [Nat.shiftLeft_eq, Nat.mul_mod_left]
  rw [Graypaper.rori64, hs, Nat.or_mod_two_pow, hhigh, Nat.shiftRight_zero, Nat.or_zero,
    Nat.mod_eq_of_lt hx]

lemma Graypaper.roli64_zero {x s : ℕ} (hx : x < 2 ^ 64) (hs : s % 64 = 0) :
    Graypaper.roli64 x s = x := by
  have hhigh : x >>> 64 = 0 := by
    rw [Nat.shiftRight_eq_div_pow, Nat.div_eq_of_lt hx]
  rw [Graypaper.roli64, hs, hhigh, Nat.shiftLeft_zero, Nat.or_zero, Nat.mod_eq_of_lt hx]

/-- With a masked amount the unmasked source rotates by any amount. -/
lemma Numba.rori64_masked {x s : ℕ} (hx : x < 2 ^ 64) (hs : s < 2 ^ 64) :
    Numba.rori64 .masked x s = .ok (Graypaper.rori64 x s) := by
  have hopp := unsigned_sub_mod (w := 64) le_rfl hs
  push_cast at hopp
  simp only [Numba.rori64, Numba.shr_masked, Numba.shl_masked, hopp]
  apply congrArg Except.ok
  by_cases h0 : s % 64 = 0
  · rw [Graypaper.rori64_zero hx h0, h0, lor_mod_right _ _ 64 le_rfl]
    simpa using hx
  · have hamt : (64 + 64 - s % 64) % 64 = 64 - s % 64 := by omega
    rw [hamt, lor_mod_right _ _ 64 le_rfl, Graypaper.rori64]

lemma Numba.roli64_masked {x s : ℕ} (hx : x < 2 ^ 64) (hs : s < 2 ^ 64) :
    Numba.roli64 .masked x s = .ok (Graypaper.roli64 x s) := by
  have hopp := unsigned_sub_mod (w := 64) le_rfl hs
  push_cast at hopp
  simp only [Numba.roli64, Numba.shr_masked, Numba.shl_masked, hopp]
  apply congrArg Except.ok
  by_cases h0 : s % 64 = 0
  · rw [Graypaper.roli64_zero hx h0, h0, lor_mod_left _ _ 64 le_rfl]
    simpa using hx
  · have hamt : (64 + 64 - s % 64) % 64 = 64 - s % 64 := by omega
    rw [hamt, lor_mod_left _ _ 64 le_rfl, Graypaper.roli64]

lemma Numba.shl_poison_of_le {x n : ℕ} (hn : 64 ≤ n) : Numba.shl .poison x n = .error .poison := by
  rw [Numba.shl, if_neg (by omega)]

lemma Numba.shr_poison_of_le {x n : ℕ} (hn : 64 ≤ n) : Numba.shr .poison x n = .error .poison := by
  rw [Numba.shr, if_neg (by omega)]

lemma Numba.rori64_eq_ok_iff {t : ShiftTarget} {x s : ℕ} (hx : x < 2 ^ 64) (hs : s < 2 ^ 64) :
    Numba.rori64 t x s = .ok (Graypaper.rori64 x s) ↔ Rotates64 t s := by
  cases t with
  | masked => exact iff_of_true (Numba.rori64_masked hx hs) trivial
  | poison =>
    constructor
    · intro h
      by_contra hrange
      rcases Nat.eq_zero_or_pos s with rfl | hpos
      · have herr : Numba.rori64 .poison x 0 = .error .poison := rfl
        rw [herr] at h
        cases h
      · have hge : 64 ≤ s := by
          by_contra hlt
          exact hrange ⟨hpos, by omega⟩
        simp [Numba.rori64, Numba.shr_poison_of_le hge] at h
    · rintro ⟨h0, h64⟩
      exact Numba.rori64_of_lt .poison h0 h64

lemma Numba.roli64_eq_ok_iff {t : ShiftTarget} {x s : ℕ} (hx : x < 2 ^ 64) (hs : s < 2 ^ 64) :
    Numba.roli64 t x s = .ok (Graypaper.roli64 x s) ↔ Rotates64 t s := by
  cases t with
  | masked => exact iff_of_true (Numba.roli64_masked hx hs) trivial
  | poison =>
    constructor
    · intro h
      by_contra hrange
      rcases Nat.eq_zero_or_pos s with rfl | hpos
      · have herr : Numba.roli64 .poison x 0 = .error .poison := rfl
        rw [herr] at h
        cases h
      · have hge : 64 ≤ s := by
          by_contra hlt
          exact hrange ⟨hpos, by omega⟩
        simp [Numba.roli64, Numba.shl_poison_of_le hge] at h
    · rintro ⟨h0, h64⟩
      exact Numba.roli64_of_lt .poison h0 h64

/-- Up to 32 the native 32-bit rotation is the reference one. -/
lemma Numba.rori32_of_le (t : ShiftTarget) {x s : ℕ} (hx : x < 2 ^ 32) (hs : s ≤ 32) :
    Numba.rori32 t x s = .ok (Graypaper.rori32 x s) := by
  have hopp : unsigned 64 (32 - (s : ℤ)) = 32 - s := unsigned_sub_of_le (w := 32) hs (by norm_num)
  have h1 : s < 64 := by omega
  have h2 : 32 - s < 64 := by omega
  simp only [Numba.rori32, Numba.shr, Numba.shl, hopp, if_pos h1, if_pos h2, Graypaper.rori32]
  apply congrArg Except.ok
  rw [lor_mod_right _ _ 32 (by norm_num)]
  rcases Nat.lt_or_eq_of_le hs with hlt | rfl
  · rw [Nat.mod_eq_of_lt hlt]
  · have hhigh : x >>> 32 = 0 := by
      rw [Nat.shiftRight_eq_div_pow, Nat.div_eq_of_lt hx]
    have hshift : x <<< 32 % 2 ^ 32 = 0 := by
      rw [Nat.shiftLeft_eq, Nat.mul_mod_left]
    rw [Nat.mod_self, Nat.sub_self, Nat.sub_zero, hhigh, Nat.or_mod_two_pow (b := x <<< 32), hshift,
      Nat.zero_or, Nat.or_zero, Nat.shiftLeft_zero, Nat.shiftRight_zero]

lemma Numba.roli32_of_lt (t : ShiftTarget) {x s : ℕ} (hs : s < 32) :
    Numba.roli32 t x s = .ok (Graypaper.roli32 x s) := by
  have hopp : unsigned 64 (32 - (s : ℤ)) = 32 - s :=
    unsigned_sub_of_le (w := 32) hs.le (by norm_num)
  have h1 : s < 64 := by omega
  have h2 : 32 - s < 64 := by omega
  simp only [Numba.roli32, Numba.shr, Numba.shl, hopp, if_pos h1, if_pos h2, Graypaper.roli32,
    Nat.mod_eq_of_lt hs]
  exact congrArg Except.ok (lor_mod_left _ _ 32 (by norm_num))

lemma Graypaper.rori32_lt (x s : ℕ) : Graypaper.rori32 x s < 2 ^ 32 := Nat.mod_lt _ (by norm_num)

lemma Graypaper.roli32_lt (x s : ℕ) : Graypaper.roli32 x s < 2 ^ 32 := Nat.mod_lt _ (by norm_num)

/-- A 32-bit rotation only looks at its amount modulo 32. -/
lemma Graypaper.rori32_mod (x s : ℕ) : Graypaper.rori32 x (s % 2 ^ 32) = Graypaper.rori32 x s := by
  have hmod : s % 2 ^ 32 % 32 = s % 32 := Nat.mod_mod_of_dvd s (by norm_num)
  rw [Graypaper.rori32, Graypaper.rori32, hmod]

/-- A rotation moves every bit somewhere, so only zero rotates to zero. -/
lemma Graypaper.rori32_eq_zero_iff {x s : ℕ} (hx : x < 2 ^ 32) :
    Graypaper.rori32 x s = 0 ↔ x = 0 := by
  have hlt : s % 32 < 32 := Nat.mod_lt _ (by norm_num)
  rw [Graypaper.rori32, Nat.or_mod_two_pow, Nat.or_eq_zero_iff]
  constructor
  · rintro ⟨hright, hleft⟩
    have hlow : x < 2 ^ (s % 32) := by
      rw [Nat.shiftRight_eq_div_pow,
        Nat.mod_eq_of_lt (lt_of_le_of_lt (Nat.div_le_self _ _) hx)] at hright
      exact (Nat.div_eq_zero_iff.mp hright).resolve_left (Nat.two_pow_pos _).ne'
    have hfit : x <<< (32 - s % 32) < 2 ^ 32 := by
      rw [Nat.shiftLeft_eq]
      calc x * 2 ^ (32 - s % 32) < 2 ^ (s % 32) * 2 ^ (32 - s % 32) :=
            Nat.mul_lt_mul_of_pos_right hlow (Nat.two_pow_pos _)
        _ = 2 ^ 32 := by
            rw [← pow_add]
            congr 1
            omega
    rw [Nat.mod_eq_of_lt hfit, Nat.shiftLeft_eq] at hleft
    exact (Nat.mul_eq_zero.mp hleft).resolve_right (Nat.two_pow_pos _).ne'
  · rintro rfl
    simp

/-- On a masking machine the amounts above 32 (modulo 64) shift the whole operand out. -/
lemma Numba.rori32_masked_of_gt {x s : ℕ} (hx : x < 2 ^ 32) (hs : s < 2 ^ 64)
    (hgt : 32 < s % 64) : Numba.rori32 .masked x s = .ok 0 := by
  have hopp := unsigned_sub_mod (w := 32) (by norm_num) hs
  push_cast at hopp
  have hamt : (96 - s % 64) % 64 = 96 - s % 64 := by omega
  have hright : x >>> (s % 64) = 0 := by
    rw [Nat.shiftRight_eq_div_pow]
    apply Nat.div_eq_of_lt
    exact lt_of_lt_of_le hx (Nat.pow_le_pow_right (by norm_num) hgt.le)
  have hleft : x <<< (96 - s % 64) % 2 ^ 32 = 0 := by
    obtain ⟨d, hd⟩ : ∃ d, 96 - s % 64 = d + 32 := ⟨96 - s % 64 - 32, by omega⟩
    rw [hd, Nat.shiftLeft_eq, pow_add, ← mul_assoc, Nat.mul_mod_left]
  simp only [Numba.rori32, Numba.shr_masked, Numba.shl_masked, hopp, hamt, hright]
  apply congrArg Except.ok
  rw [lor_mod_right _ _ 32 (by norm_num), Nat.zero_or, hleft]

lemma Numba.rori32_masked_of_le {x s : ℕ} (hx : x < 2 ^ 32) (hs : s < 2 ^ 64)
    (hle : s % 64 ≤ 32) : Numba.rori32 .masked x s = .ok (Graypaper.rori32 x s) := by
  have hopp := unsigned_sub_mod (w := 32) (by norm_num) hs
  push_cast at hopp
  have hopp' : unsigned 64 (32 - ((s % 64 : ℕ) : ℤ)) = 32 - s % 64 :=
    unsigned_sub_of_le (w := 32) hle (by norm_num)
  have hsame : Numba.rori32 .masked x s = Numba.rori32 .masked x (s % 64) := by
    have hamt : (96 - s % 64) % 64 = (32 - s % 64) % 64 := by omega
    simp only [Numba.rori32, Numba.shr_masked, Numba.shl_masked, hopp, hopp', hamt, Nat.mod_mod]
  have hmod : s % 64 % 32 = s % 32 := Nat.mod_mod_of_dvd s (by norm_num)
  rw [hsame, Numba.rori32_of_le .masked hx hle, Graypaper.rori32, Graypaper.rori32, hmod]

lemma Numba.rori32_eq_ok_iff {t : ShiftTarget} {x s : ℕ} (hx : x < 2 ^ 32) (hs : s < 2 ^ 32) :
    Numba.rori32 t x s = .ok (Graypaper.rori32 x s) ↔ Rotates32 t x s := by
  have hs64 : s < 2 ^ 64 := lt_trans hs (by norm_num)
  cases t with
  | poison =>
    constructor
    · intro h
      by_contra hgt
      have hgt' : 32 < s := not_le.mp hgt
      have hopp := unsigned_sub_of_lt hgt' hs64
      push_cast at hopp
      have herr := Numba.shl_poison_of_le (x := x) (n := 18446744073709551648 - s) (by omega)
      by_cases h64 : s < 64
      · simp only [Numba.rori32, Numba.shr, if_pos h64, hopp, herr, Except.ok_bind, Except.error_bind] at h
        cases h
      · simp [Numba.rori32, Numba.shr_poison_of_le (not_lt.mp h64)] at h
    · intro hle
      exact Numba.rori32_of_le .poison hx hle
  | masked =>
    by_cases hle : s % 64 ≤ 32
    · exact iff_of_true (Numba.rori32_masked_of_le hx hs64 hle) (.inl hle)
    · rw [Numba.rori32_masked_of_gt hx hs64 (by omega), Except.ok.injEq, eq_comm,
        Graypaper.rori32_eq_zero_iff hx]
      exact ⟨.inr, fun h => h.resolve_left hle⟩

end Helpers

end Pvm
