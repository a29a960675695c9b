import Mathlib.Algebra.Order.Ring.Int
import Mathlib.Tactic.NormNum.Pow
import Mathlib.Tactic.Common
import Mathlib.Tactic.Ring

/-!
# Octet strings

Byte strings as lists, fixed-width little-endian numbers, and slices.  `encodeUint` is the encoder of
a fixed-width unsigned integer: it refuses a number outside the range, and what it accepts decodes to
the same number.
-/

/-- A byte string. -/
abbrev Octets := List UInt8

/-- A byte string of length 32. -/
abbrev Octets32 := Vector UInt8 32

instance lawfulBEq_octets32 : LawfulBEq Octets32 := inferInstance

namespace Octets

/-- The `w` little-endian bytes of a number. -/
def littleEndian : ℕ → ℕ → Octets
  | 0, _ => []
  | w + 1, n => UInt8.ofNat n :: littleEndian w (n / 256)

/-- The number that little-endian bytes stand for. -/
def ofLittleEndian : Octets → ℕ
  | [] => 0
  | b :: bs => b.toNat + 256 * ofLittleEndian bs

@[simp] lemma length_littleEndian (w : ℕ) : ∀ n, (littleEndian w n).length = w := by
  induction w with
  | zero =>
    intro n
    rfl
  | succ w ih =>
    intro n
    rw [littleEndian, List.length_cons, ih]

lemma ofLittleEndian_littleEndian (w : ℕ) :
    ∀ {n : ℕ}, n < 2 ^ (8 * w) → ofLittleEndian (littleEndian w n) = n := by
  induction w with
  | zero =>
    intro n hn
    simp at hn
    simp [littleEndian, ofLittleEndian, hn]
  | succ w ih =>
    intro n hn
    have hpow : 2 ^ (8 * (w + 1)) = 2 ^ (8 * w) * 256 := by
      rw [Nat.mul_succ, pow_add]
      norm_num
    have hquot : n / 256 < 2 ^ (8 * w) := by
      rw [Nat.div_lt_iff_lt_mul (by norm_num)]
      omega
    have hbyte : (UInt8.ofNat n).toNat = n % 256 := UInt8.toNat_ofNat'
    rw [littleEndian, ofLittleEndian, ih hquot, hbyte]
    omega

/-- The last byte of a little-endian number is its most significant one. -/
lemma littleEndian_succ (w : ℕ) :
    ∀ n, littleEndian (w + 1) n = littleEndian w n ++ [UInt8.ofNat (n / 256 ^ w)] := by
  induction w with
  | zero =>
    intro n
    simp [littleEndian]
  | succ w ih =>
    intro n
    have hdiv : n / 256 / 256 ^ w = n / 256 ^ (w + 1) := by
      rw [Nat.div_div_eq_div_mul, Nat.pow_succ']
    rw [littleEndian, ih, littleEndian, hdiv, List.cons_append]

/-- The digits of a number to the base 256. -/
lemma getElem_littleEndian (w : ℕ) : ∀ (n i : ℕ) (h : i < (littleEndian w n).length),
    (littleEndian w n)[i] = UInt8.ofNat (n / 256 ^ i) := by
  induction w with
  | zero => exact fun n i h => absurd h (Nat.not_lt_zero i)
  | succ w ih =>
    intro n i h
    cases i with
    | zero => simp [littleEndian]
    | succ i =>
      simp only [littleEndian, List.getElem_cons_succ]
      rw [ih, Nat.div_div_eq_div_mul, Nat.pow_succ, Nat.mul_comm]

/-- Only the low bytes of a number are written. -/
lemma littleEndian_mod (w : ℕ) : ∀ n, littleEndian w (n % 256 ^ w) = littleEndian w n := by
  induction w with
  | zero =>
    intro n
    rfl
  | succ w ih =>
    intro n
    have hhead : UInt8.ofNat (n % 256 ^ (w + 1)) = UInt8.ofNat n := by
      apply UInt8.toNat_inj.mp
      rw [UInt8.toNat_ofNat', UInt8.toNat_ofNat', Nat.pow_succ']
      exact Nat.mod_mul_right_mod n 256 (256 ^ w)
    have htail : n % 256 ^ (w + 1) / 256 = n / 256 % 256 ^ w := by
      rw [Nat.pow_succ', Nat.mod_mul_right_div_self]
    rw [littleEndian, littleEndian, hhead, htail, ih]

lemma ofLittleEndian_append (bs : Octets) (b : UInt8) :
    ofLittleEndian (bs ++ [b]) = ofLittleEndian bs + b.toNat * 256 ^ bs.length := by
  induction bs with
  | nil => simp [ofLittleEndian]
  | cons c bs ih =>
    simp only [List.cons_append, ofLittleEndian, ih, List.length_cons, Nat.pow_succ']
    ring

lemma ofLittleEndian_lt (bs : Octets) : ofLittleEndian bs < 256 ^ bs.length := by
  induction bs with
  | nil => simp [ofLittleEndian]
  | cons b bs ih =>
    have hb := b.toNat_lt
    rw [ofLittleEndian, List.length_cons, Nat.pow_succ']
    omega

/-- Little-endian numbers of one width are told apart by their bytes. -/
lemma littleEndian_inj {w n m : ℕ} (hn : n < 2 ^ (8 * w)) (hm : m < 2 ^ (8 * w))
    (h : littleEndian w n = littleEndian w m) : n = m := by
  rw [← ofLittleEndian_littleEndian w hn, h, ofLittleEndian_littleEndian w hm]

/-- The bytes of the number that bytes stand for are these bytes. -/
lemma littleEndian_ofLittleEndian (bs : Octets) :
    littleEndian bs.length (ofLittleEndian bs) = bs := by
  induction bs with
  | nil => rfl
  | cons b bs ih =>
    have hb := b.toNat_lt
    have hhead : UInt8.ofNat (b.toNat + 256 * ofLittleEndian bs) = b := by
      apply UInt8.toNat_inj.mp
      rw [UInt8.toNat_ofNat']
      omega
    have htail : (b.toNat + 256 * ofLittleEndian bs) / 256 = ofLittleEndian bs := by omega
    rw [List.length_cons, ofLittleEndian, littleEndian, hhead, htail, ih]

/-- Byte strings of one length are told apart by their numbers. -/
lemma ofLittleEndian_inj {bs cs : Octets} (hlength : bs.length = cs.length)
    (h : ofLittleEndian bs = ofLittleEndian cs) : bs = cs := by
  rw [← littleEndian_ofLittleEndian bs, h, hlength, littleEndian_ofLittleEndian]

/-- `int.to_bytes(w, 'little')`; it raises on a number that does not fit. -/
def encodeUint (w : ℕ) (z : ℤ) : Option Octets :=
  if 0 ≤ z ∧ z < 2 ^ (8 * w) then some (littleEndian w z.toNat) else none

lemma encodeUint_eq_some {w : ℕ} {z : ℤ} {bytes : Octets} (h : encodeUint w z = some bytes) :
    bytes.length = w ∧ (ofLittleEndian bytes : ℤ) = z := by
  unfold encodeUint at h
  split at h
  · next hz =>
    cases h
    have hlt : z.toNat < 2 ^ (8 * w) := by
      have : ((2 ^ (8 * w) : ℕ) : ℤ) = 2 ^ (8 * w) := by push_cast; rfl
      omega
    refine ⟨length_littleEndian w _, ?_⟩
    rw [ofLittleEndian_littleEndian w hlt]
    omega
  · cases h

/-- `data[i:j]` -/
def slice (data : Octets) (i j : ℕ) : Octets := (data.drop i).take (j - i)

/-- A slice that lies behind a prefix. -/
lemma slice_append_right {pre rest : Octets} {i j : ℕ} (hi : pre.length ≤ i) :
    slice (pre ++ rest) i j = slice rest (i - pre.length) (j - pre.length) := by
  have hdrop : (pre ++ rest).drop i = rest.drop (i - pre.length) := by
    rw [List.drop_append, List.drop_eq_nil_of_le hi, List.nil_append]
  rw [slice, slice, hdrop]
  congr 1
  omega

/-- A slice that is exactly the prefix. -/
lemma slice_append_left {pre rest : Octets} {j : ℕ} (hj : j = pre.length) :
    slice (pre ++ rest) 0 j = pre := by
  subst hj
  simp [slice]

/-- A slice that is the whole string. -/
lemma slice_self {data : Octets} {j : ℕ} (hj : j = data.length) : slice data 0 j = data := by
  subst hj
  simp [slice]

/-- A byte string of length 32 as a digest; a longer one is cut off, a shorter one filled up. -/
def toDigest (value : Octets) : Octets32 :=
  ⟨((value ++ List.replicate 32 0).take 32).toArray, by
    rw [List.size_toArray, List.length_take, List.length_append, List.length_replicate]
    omega⟩

lemma toList_toDigest {value : Octets} (h : value.length = 32) : (toDigest value).toList = value :=
  List.take_left' h

lemma toDigest_toList (digest : Octets32) : toDigest digest.toList = digest :=
  Vector.toList_inj.mp (toList_toDigest Vector.length_toList)

end Octets
