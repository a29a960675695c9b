import Mathlib.Data.Int.Bitwise
import Mathlib.Data.Nat.Bitwise
import Mathlib.Data.Nat.Size
import Mathlib.Data.Nat.Digits.Lemmas
import Mathlib.Data.Nat.Factorization.Basic
import Mathlib.Tactic.Ring
import Mathlib.Tactic.NormNum
import Mathlib.Tactic.Linarith

/-!
# Two's complement on natural numbers

A machine word of `w` bits is a natural number below `2 ^ w`.  This file fixes the two readings of
such a number (`signed`, `unsigned`), sign extension between widths, and the arithmetic forms of the
bit operations that interpreters are written with: masking is reduction modulo a power of two,
setting high bits is addition, flipping the sign bit is addition or subtraction of its weight.

Everything is stated over arbitrary widths, so that a 32-bit and a 64-bit instruction use the same
lemma at different numbers.

## Bit counts

`bitLength` and `bitCount` are the length of the binary expansion and the number of its ones; the
three loops below them (`countOnesLoop`, `leadingZerosLoop`, `trailingZerosLoop`) are the usual
bit-at-a-time programs, each proved to compute the closed form.
-/

namespace TwosComplement

/-! ## The two readings of a word -/

/-- The signed value of a `w`-bit word. -/
def signed (w n : ℕ) : ℤ := if n < 2 ^ (w - 1) then n else (n : ℤ) - 2 ^ w

/-- The `w`-bit word that represents an integer. -/
def unsigned (w : ℕ) (z : ℤ) : ℕ := (z % 2 ^ w).toNat

/-- The 64-bit word with the same signed value as a `w`-bit word. -/
def signExtend (w n : ℕ) : ℕ := if n < 2 ^ (w - 1) then n else n + (2 ^ 64 - 2 ^ w)

lemma unsigned_lt (w : ℕ) (z : ℤ) : unsigned w z < 2 ^ w := by
  have hpos : (0 : ℤ) < 2 ^ w := by positivity
  have h0 := Int.emod_nonneg z hpos.ne'
  have h1 := Int.emod_lt_of_pos z hpos
  have h2 : ((unsigned w z : ℕ) : ℤ) < ((2 ^ w : ℕ) : ℤ) := by
    rw [unsigned, Int.toNat_of_nonneg h0]
    push_cast
    exact h1
  exact_mod_cast h2

/-- A word is read back unchanged from its value. -/
lemma unsigned_natCast {w n : ℕ} (hn : n < 2 ^ w) : unsigned w (n : ℤ) = n := by
  have h : ((n : ℤ) % 2 ^ w) = n := by
    have := Int.emod_eq_of_lt (a := (n : ℤ)) (b := 2 ^ w) (by positivity) (by exact_mod_cast hn)
    exact this
  rw [unsigned, h, Int.toNat_natCast]

lemma unsigned_add_mul (w : ℕ) (z k : ℤ) : unsigned w (z + 2 ^ w * k) = unsigned w z := by
  rw [unsigned, Int.add_mul_emod_self_left, unsigned]

lemma unsigned_sub_two_pow (w : ℕ) (z : ℤ) : unsigned w (z - 2 ^ w) = unsigned w z := by
  have h := unsigned_add_mul w z (-1)
  rwa [mul_neg_one, ← sub_eq_add_neg] at h

lemma unsigned_two_pow_add (w : ℕ) (z : ℤ) : unsigned w (2 ^ w + z) = unsigned w z := by
  have h := unsigned_add_mul w z 1
  rwa [mul_one, add_comm] at h

/-- Two integers have the same word when they differ by a multiple of the word size. -/
lemma unsigned_congr {w : ℕ} {y z : ℤ} (h : y % 2 ^ w = z % 2 ^ w) : unsigned w y = unsigned w z := by
  rw [unsigned, unsigned, h]

@[simp] lemma unsigned_signed {w n : ℕ} (hn : n < 2 ^ w) : unsigned w (signed w n) = n := by
  unfold signed
  split
  · exact unsigned_natCast hn
  · rw [unsigned_sub_two_pow, unsigned_natCast hn]

/-- The signed reading stays in the signed range. -/
lemma signed_bounds {w n : ℕ} (hw : 0 < w) (hn : n < 2 ^ w) :
    -(2 ^ (w - 1) : ℤ) ≤ signed w n ∧ signed w n < 2 ^ (w - 1) := by
  obtain ⟨k, rfl⟩ : ∃ k, w = k + 1 := ⟨w - 1, by omega⟩
  have hk : ((2 ^ k : ℕ) : ℤ) = 2 ^ k := by push_cast; rfl
  have h2 : (2 : ℤ) ^ (k + 1) = 2 * 2 ^ k := by ring
  have h3 : (2 : ℕ) ^ (k + 1) = 2 * 2 ^ k := by ring
  unfold signed
  simp only [Nat.add_sub_cancel, h2] at *
  split <;> omega

lemma signed_eq_natCast_sub (w n : ℕ) :
    signed w n = n ∨ signed w n = (n : ℤ) - 2 ^ w := by
  unfold signed
  split
  · exact .inl rfl
  · exact .inr rfl

/-- Sign extension keeps the signed value: it is the 64-bit word of the narrow word's value. -/
lemma unsigned_signed_eq_signExtend {w n : ℕ} (hw : w ≤ 64) (hn : n < 2 ^ w) :
    unsigned 64 (signed w n) = signExtend w n := by
  have hle : (2 : ℕ) ^ w ≤ 2 ^ 64 := Nat.pow_le_pow_right (by norm_num) hw
  unfold signed signExtend
  split
  · exact unsigned_natCast (lt_of_lt_of_le hn hle)
  · have hcast : (n : ℤ) - 2 ^ w = ((n + (2 ^ 64 - 2 ^ w) : ℕ) : ℤ) - 2 ^ 64 := by
      have hsub := Nat.cast_sub (R := ℤ) hle
      push_cast at hsub ⊢
      rw [hsub]
      ring
    rw [hcast, unsigned_sub_two_pow, unsigned_natCast (by omega)]

lemma signExtend_lt {w n : ℕ} (hw : w ≤ 64) (hn : n < 2 ^ w) : signExtend w n < 2 ^ 64 := by
  rw [← unsigned_signed_eq_signExtend hw hn]
  exact unsigned_lt 64 _

/-- Widening a word and reading it signed is reading it signed. -/
lemma signed_signExtend {w n : ℕ} (hw0 : 0 < w) (hw : w ≤ 64) :
    signed 64 (signExtend w n) = signed w n := by
  have hle : (2 : ℕ) ^ w ≤ 2 ^ 64 := Nat.pow_le_pow_right (by norm_num) hw
  have hhalf : (2 : ℕ) ^ w = 2 ^ (w - 1) * 2 := by
    rw [← pow_succ]
    congr 1
    omega
  have hcast : ((2 ^ w : ℕ) : ℤ) = 2 ^ w := by push_cast; rfl
  unfold signed signExtend
  rw [← hcast]
  by_cases hlt : n < 2 ^ (w - 1)
  · have hsmall : n < 2 ^ (64 - 1) := by omega
    rw [if_pos hlt, if_pos hsmall, if_pos hlt]
  · rw [if_neg hlt, if_neg (by omega), if_neg hlt]
    omega

/-- The low bits of a word are enough to find its signed value. -/
lemma signed_unsigned_of_bounds {w : ℕ} (hw : 0 < w) {z : ℤ} (hlo : -(2 ^ (w - 1) : ℤ) ≤ z)
    (hhi : z < 2 ^ (w - 1)) : signed w (unsigned w z) = z := by
  have hpow : (2 : ℤ) ^ w = 2 ^ (w - 1) * 2 := by
    rw [← pow_succ]
    congr 1
    omega
  have hlt := unsigned_lt w z
  have hb := signed_bounds hw hlt
  have hdvd : (2 : ℤ) ^ w ∣ signed w (unsigned w z) - z := by
    have hz : ((unsigned w z : ℕ) : ℤ) = z % 2 ^ w :=
      Int.toNat_of_nonneg (Int.emod_nonneg _ (by positivity))
    have hd := Int.mul_ediv_add_emod z (2 ^ w)
    rcases signed_eq_natCast_sub w (unsigned w z) with h | h
    · exact ⟨-(z / 2 ^ w), by rw [h, hz]; linarith⟩
    · exact ⟨-(z / 2 ^ w) - 1, by rw [h, hz]; linarith⟩
  obtain ⟨c, hc⟩ := hdvd
  have hpos : (0 : ℤ) < 2 ^ (w - 1) := by positivity
  have hc0 : c = 0 := by
    by_contra hne
    rcases lt_or_gt_of_ne hne with hneg | hgt
    · nlinarith
    · nlinarith
  rw [hc0, mul_zero] at hc
  omega

/-! ## Bit operations as arithmetic -/

/-- Testing the top bit of a `k + 1`-bit word. -/
lemma land_two_pow_ne_zero {n k : ℕ} (hn : n < 2 ^ (k + 1)) : n &&& 2 ^ k ≠ 0 ↔ 2 ^ k ≤ n := by
  have hdiv : n / 2 ^ k < 2 := Nat.div_lt_of_lt_mul (by rw [← pow_succ]; exact hn)
  have hpos : 0 < 2 ^ k := by positivity
  rw [Nat.and_two_pow]
  constructor
  · intro h
    by_contra hlt
    have hzero : n.testBit k = false := Nat.testBit_lt_two_pow (by omega)
    simp [hzero] at h
  · intro h
    have hone : n / 2 ^ k = 1 := by
      have : 1 ≤ n / 2 ^ k := (Nat.one_le_div_iff hpos).mpr h
      omega
    have hbit : n.testBit k = true := by
      rw [Nat.testBit_eq_decide_div_mod_eq, hone]
      rfl
    simp [hbit]

/-- Placing a number above a `k`-bit word is adding its shifted value. -/
lemma lor_shiftLeft {n k : ℕ} (b : ℕ) (hn : n < 2 ^ k) : n ||| b <<< k = n + 2 ^ k * b := by
  rw [Nat.or_comm, ← Nat.shiftLeft_add_eq_or_of_lt hn, Nat.shiftLeft_eq, mul_comm, add_comm]

/-- Setting the bits above a `k`-bit word is adding their weight. -/
lemma lor_high {n k m : ℕ} (hn : n < 2 ^ k) (hk : k ≤ m) :
    n ||| (2 ^ m - 2 ^ k) = n + (2 ^ m - 2 ^ k) := by
  have hshift : 2 ^ m - 2 ^ k = (2 ^ (m - k) - 1) <<< k := by
    rw [Nat.shiftLeft_eq, Nat.sub_mul, one_mul, ← pow_add, Nat.sub_add_cancel hk]
  rw [hshift, lor_shiftLeft _ hn, Nat.shiftLeft_eq, mul_comm]

lemma xor_two_pow_of_lt {n k : ℕ} (hn : n < 2 ^ k) : n ^^^ 2 ^ k = n + 2 ^ k := by
  have hand : n &&& 2 ^ k = 0 := by
    have hzero : n.testBit k = false := Nat.testBit_lt_two_pow hn
    rw [Nat.and_two_pow, hzero]
    simp
  have hor : n ||| 2 ^ k = n + 2 ^ k := by
    have h := Nat.two_pow_add_eq_or_of_lt hn 1
    rw [mul_one] at h
    rw [Nat.or_comm, ← h, add_comm]
  rw [← hor]
  apply Nat.eq_of_testBit_eq
  intro i
  have hi : (n &&& 2 ^ k).testBit i = false := by rw [hand, Nat.zero_testBit]
  rw [Nat.testBit_and] at hi
  rw [Nat.testBit_xor, Nat.testBit_or]
  cases h1 : n.testBit i <;> cases h2 : (2 ^ k).testBit i <;> simp_all

/-- Flipping the top bit and subtracting its weight reads a word as signed. -/
lemma xor_sub_eq_signed {n k : ℕ} (hn : n < 2 ^ (k + 1)) :
    ((n ^^^ 2 ^ k : ℕ) : ℤ) - 2 ^ k = signed (k + 1) n := by
  unfold signed
  rw [Nat.add_sub_cancel]
  by_cases h : n < 2 ^ k
  · rw [if_pos h, xor_two_pow_of_lt h]
    push_cast
    ring
  · rw [if_neg h]
    obtain ⟨r, rfl⟩ : ∃ r, n = r + 2 ^ k := ⟨n - 2 ^ k, by omega⟩
    have hr : r < 2 ^ k := by rw [pow_succ] at hn; omega
    rw [← xor_two_pow_of_lt hr, Nat.xor_assoc, Nat.xor_self, Nat.xor_zero,
      xor_two_pow_of_lt hr]
    push_cast
    ring

/-! ## Bit counts -/

/-- Python's `int.bit_length`: the length of the binary expansion. -/
def bitLength (n : ℕ) : ℕ := n.size

/-- Python's `int.bit_count`: the number of ones of the binary expansion. -/
def bitCount (n : ℕ) : ℕ := (Nat.digits 2 n).sum

lemma bitLength_eq_of_bounds {n k : ℕ} (hlo : 2 ^ k ≤ n) (hhi : n < 2 ^ (k + 1)) :
    bitLength n = k + 1 := by
  apply le_antisymm
  · exact Nat.size_le.mpr hhi
  · exact Nat.lt_size.mpr hlo

lemma bitCount_eq_mod_add (n : ℕ) : bitCount n = n % 2 + bitCount (n / 2) := by
  rcases Nat.eq_zero_or_pos n with rfl | hn
  · simp [bitCount]
  · rw [bitCount, Nat.digits_def' (by norm_num) hn, List.sum_cons, bitCount]

/-- Counting ones from the low end, `fuel` bits in all. -/
def countOnesLoop : ℕ → ℕ → ℕ → ℕ
  | 0, _, count => count
  | fuel + 1, val, count => countOnesLoop fuel (val >>> 1) (count + (val &&& 1))

lemma countOnesLoop_eq (fuel : ℕ) : ∀ {val : ℕ} (count : ℕ), val < 2 ^ fuel →
    countOnesLoop fuel val count = count + bitCount val := by
  induction fuel with
  | zero =>
    intro val count hval
    obtain rfl : val = 0 := by simpa using hval
    simp [countOnesLoop, bitCount]
  | succ fuel ih =>
    intro val count hval
    have hhalf : val >>> 1 < 2 ^ fuel := by
      rw [Nat.shiftRight_one]
      rw [pow_succ] at hval
      omega
    rw [countOnesLoop, ih _ hhalf, bitCount_eq_mod_add val, Nat.shiftRight_one, Nat.and_one_is_mod,
      add_assoc]

/-- Scanning down from `testBit` until a one is met or `fuel` bits have been seen. -/
def leadingZerosLoop : ℕ → ℕ → ℕ → ℕ → ℕ
  | 0, _, _, count => count
  | fuel + 1, val, testBit, count =>
    if val &&& testBit = 0 then leadingZerosLoop fuel val (testBit >>> 1) (count + 1) else count

/-- The scan of a nonzero `k`-bit value stops at its top one. -/
lemma leadingZerosLoop_eq (k : ℕ) : ∀ {val : ℕ} (count : ℕ), 0 < val → val < 2 ^ (k + 1) →
    leadingZerosLoop (k + 1) val (2 ^ k) count + bitLength val = count + (k + 1) := by
  induction k with
  | zero =>
    intro val count hpos hval
    obtain rfl : val = 1 := by omega
    simp [leadingZerosLoop, bitLength]
  | succ k ih =>
    intro val count hpos hval
    rw [leadingZerosLoop]
    by_cases htop : 2 ^ (k + 1) ≤ val
    · rw [if_neg ((land_two_pow_ne_zero hval).mpr htop), bitLength_eq_of_bounds htop hval]
    · have hzero : val &&& 2 ^ (k + 1) = 0 := by
        by_contra h
        exact htop ((land_two_pow_ne_zero hval).mp h)
      have hhalf : 2 ^ (k + 1) >>> 1 = 2 ^ k := by
        rw [Nat.shiftRight_one, pow_succ]
        omega
      have hrec := ih (count + 1) hpos (not_le.mp htop)
      rw [if_pos hzero, hhalf]
      omega

/-- Shifting right until the low bit is one; `fuel` bounds the number of shifts. -/
def trailingZerosLoop : ℕ → ℕ → ℕ → ℕ
  | 0, _, count => count
  | fuel + 1, val, count =>
    if val &&& 1 = 0 then trailingZerosLoop fuel (val >>> 1) (count + 1) else count

/-- The loop counts the factors of two of a nonzero value. -/
lemma trailingZerosLoop_eq (fuel : ℕ) : ∀ {m j : ℕ} (count : ℕ), j < fuel → m % 2 = 1 →
    trailingZerosLoop fuel (2 ^ j * m) count = count + j := by
  induction fuel with
  | zero =>
    intro m j count hj _
    omega
  | succ fuel ih =>
    intro m j count hj hm
    rw [trailingZerosLoop]
    cases j with
    | zero =>
      rw [pow_zero, one_mul, Nat.and_one_is_mod, hm, if_neg (by norm_num)]
      rfl
    | succ j =>
      have heven : 2 ^ (j + 1) * m &&& 1 = 0 := by
        rw [Nat.and_one_is_mod, pow_succ', mul_assoc]
        omega
      have hhalf : (2 ^ (j + 1) * m) >>> 1 = 2 ^ j * m := by
        rw [Nat.shiftRight_one, pow_succ', mul_assoc]
        omega
      rw [if_pos heven, hhalf, ih _ (by omega) hm]
      omega

/-- The bit tests of `2 ^ j * m` and its predecessor, `m` odd, first differ at `j`. -/
lemma testBit_two_pow_mul_odd {j m : ℕ} (hm : m % 2 = 1) (i : ℕ) :
    ((2 ^ j * m).testBit i && !(2 ^ j * m - 1).testBit i) = (2 ^ j).testBit i := by
  have hpred : 2 ^ j * m - 1 = 2 ^ j * (m - 1) + (2 ^ j - 1) := by
    obtain ⟨k, rfl⟩ : ∃ k, m = k + 1 := ⟨m - 1, by omega⟩
    have hpos : 0 < 2 ^ j := by positivity
    rw [Nat.add_sub_cancel, Nat.mul_succ]
    omega
  have hlt : 2 ^ j - 1 < 2 ^ j := Nat.sub_lt (by positivity) (by norm_num)
  rw [hpred, Nat.testBit_two_pow_mul_add _ hlt, Nat.testBit_two_pow_mul, Nat.testBit_two_pow,
    Nat.testBit_two_pow_sub_one]
  rcases lt_trichotomy i j with hij | rfl | hij
  · simp [hij, Nat.not_le.mpr hij, hij.ne']
  · have h0 : m.testBit 0 = true := by simp [Nat.testBit_zero, hm]
    have h1 : (m - 1).testBit 0 = false := by
      simp only [Nat.testBit_zero, decide_eq_false_iff_not]
      omega
    simp [h0, h1]
  · obtain ⟨d, hd⟩ : ∃ d, i - j = d + 1 := ⟨i - j - 1, by omega⟩
    have hhalf : (m - 1) / 2 = m / 2 := by omega
    have hsame : (m - 1).testBit (i - j) = m.testBit (i - j) := by
      rw [hd, Nat.testBit_succ, Nat.testBit_succ, hhalf]
    simp [hsame, Nat.not_lt.mpr hij.le, hij.ne]

/-- Isolating the lowest one with a negation that wraps at `2 ^ w`. -/
lemma land_two_pow_sub_self {w j m : ℕ} (hm : m % 2 = 1) (hlt : 2 ^ j * m < 2 ^ w) :
    2 ^ j * m &&& (2 ^ w - 2 ^ j * m) = 2 ^ j := by
  have hpos : 0 < 2 ^ j * m := Nat.mul_pos (by positivity) (by omega)
  apply Nat.eq_of_testBit_eq
  intro i
  have hneg : 2 ^ w - 2 ^ j * m = 2 ^ w - (2 ^ j * m - 1 + 1) := by omega
  rw [Nat.testBit_and, hneg, Nat.testBit_two_pow_sub_succ (by omega), ← testBit_two_pow_mul_odd hm i]
  by_cases hi : i < w
  · simp [hi]
  · have hzero : (2 ^ j * m).testBit i = false :=
      Nat.testBit_lt_two_pow (lt_of_lt_of_le hlt (Nat.pow_le_pow_right (by norm_num) (by omega)))
    simp [hi, hzero]

/-- Isolating the lowest one with the negation of unbounded integers. -/
lemma int_land_neg_self {j m : ℕ} (hm : m % 2 = 1) :
    Int.land ((2 ^ j * m : ℕ) : ℤ) (-((2 ^ j * m : ℕ) : ℤ)) = ((2 ^ j : ℕ) : ℤ) := by
  have hpos : 0 < 2 ^ j * m := Nat.mul_pos (by positivity) (by omega)
  obtain ⟨k, hk⟩ : ∃ k, 2 ^ j * m = k + 1 := ⟨2 ^ j * m - 1, by omega⟩
  have hbits : Nat.ldiff (2 ^ j * m) k = 2 ^ j := by
    apply Nat.eq_of_testBit_eq
    intro i
    have hki : k = 2 ^ j * m - 1 := by omega
    rw [Nat.testBit_ldiff, hki, testBit_two_pow_mul_odd hm]
  have hneg : -((2 ^ j * m : ℕ) : ℤ) = Int.negSucc k := by
    rw [hk]
    rfl
  rw [hneg]
  exact congrArg Int.ofNat hbits

/-- The binary length of a power of two. -/
lemma bitLength_two_pow (j : ℕ) : bitLength (2 ^ j) = j + 1 := Nat.size_pow

/-- Every nonzero number is a power of two times an odd one. -/
lemma exists_two_pow_mul_odd {n : ℕ} (hn : n ≠ 0) : ∃ j m, n = 2 ^ j * m ∧ m % 2 = 1 := by
  obtain ⟨j, m, hodd, rfl⟩ := Nat.exists_eq_two_pow_mul_odd hn
  exact ⟨j, m, rfl, Nat.odd_iff.mp hodd⟩

end TwosComplement
