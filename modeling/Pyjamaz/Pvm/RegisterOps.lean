import Pyjamaz.Pvm.Helpers

/-!
# Register instructions across the three interpreters
-/

namespace Pvm

open TwosComplement

/-! ## Graypaper and CPython -/

lemma ok_congr {v v' : ℤ} (h : v = v') : (.ok (some v) : Value) = .ok (some v') := by rw [h]

lemma CPython.pvmX_four {x : ℕ} (hx : x < 2 ^ 32) : CPython.pvmX x 4 = signExtend 32 x := by
  rw [CPython.pvmX_eq (by norm_num) (by norm_num), Nat.mod_eq_of_lt hx]

/-- The asserting and the masking sign extension of a 32-bit result agree. -/
lemma extend_agree {x : ℕ} (hx : x < 2 ^ 32) :
    (do let r ← Graypaper.pvmX x 4; pure (some (r : ℤ)) : Value) =
      .ok (some (CPython.pvmX x 4 : ℤ)) := by
  rw [Graypaper.pvmX_eq (by norm_num) (by norm_num) hx, CPython.pvmX_four hx]
  rfl

lemma extend64_agree {x y : ℕ} (hx : x < 2 ^ 64) (hy : x = y % 2 ^ 64) :
    (do let r ← Graypaper.pvmX x 8; pure (some (r : ℤ)) : Value) =
      .ok (some (CPython.pvmX y 8 : ℤ)) := by
  have hself : signExtend 64 x = x := by
    unfold signExtend
    split <;> omega
  rw [Graypaper.pvmX_eq (by norm_num) (by norm_num) hx, CPython.pvmX_eight, ← hy, hself]
  rfl

lemma CPython.pvmZ_eight {a : ℕ} (ha : a < 2 ^ 64) : CPython.pvmZ a 8 = Graypaper.pvmZ a 8 := by
  rw [CPython.pvmZ_eq (by norm_num), Nat.mod_eq_of_lt ha, Graypaper.pvmZ_eq]

lemma CPython.pvmZ_four {a : ℕ} (ha : a < 2 ^ 32) : CPython.pvmZ a 4 = Graypaper.pvmZ a 4 := by
  rw [CPython.pvmZ_eq (by norm_num), Nat.mod_eq_of_lt ha, Graypaper.pvmZ_eq]

lemma CPython.pvmZInv_eq_graypaper (a : ℤ) : CPython.pvmZInv a 8 = Graypaper.pvmZInv a 8 := by
  rw [CPython.pvmZInv_eq, Graypaper.pvmZInv_eq]

lemma shiftRight_eq_fdiv (z : ℤ) (k : ℕ) : z >>> k = z.fdiv (2 ^ k) := by
  rw [Int.shiftRight_eq_div_pow, Int.fdiv_eq_ediv_of_nonneg _ (by positivity)]
  push_cast
  rfl

lemma unsigned_eq_emod (z : ℤ) : ((unsigned 64 z : ℕ) : ℤ) = z % 2 ^ 64 :=
  Int.toNat_of_nonneg (Int.emod_nonneg _ (by norm_num))

lemma mod32_lt (x : ℕ) : x % 2 ^ 32 < 2 ^ 32 := Nat.mod_lt _ (by norm_num)

lemma shiftRight_lt {x w : ℕ} (hx : x < 2 ^ w) (k : ℕ) : x >>> k < 2 ^ w := by
  rw [Nat.shiftRight_eq_div_pow]
  exact lt_of_le_of_lt (Nat.div_le_self _ _) hx

/-- The two-register, one-immediate instructions agree on every operand. -/
lemma CPython.regRegImmValue_eq (o : RegRegImmOp) {w_b v_x : ℕ} (hb : w_b < 2 ^ 64)
    (hx : v_x < 2 ^ 64) :
    CPython.regRegImmValue o w_b v_x = Graypaper.regRegImmValue o w_b v_x := by
  symm
  cases o with
  | addImm32 => exact extend_agree (mod32_lt _)
  | andImm => rfl
  | xorImm => rfl
  | orImm => rfl
  | mulImm32 => exact extend_agree (mod32_lt _)
  | setLtUImm => rfl
  | setLtSImm =>
    rw [Graypaper.regRegImmValue, CPython.regRegImmValue, CPython.pvmZ_eight hb,
      CPython.pvmZ_eight hx]
  | shloLImm32 => exact extend_agree (mod32_lt _)
  | shloRImm32 => exact extend_agree (shiftRight_lt (mod32_lt _) _)
  | sharRImm32 =>
    rw [Graypaper.regRegImmValue, CPython.regRegImmValue, CPython.pvmZ_four (mod32_lt _),
      CPython.pvmZInv_eq_graypaper]
  | negAddImm32 => exact extend_agree (unsigned_lt 32 _)
  | setGtUImm => rfl
  | setGtSImm =>
    rw [Graypaper.regRegImmValue, CPython.regRegImmValue, CPython.pvmZ_eight hb,
      CPython.pvmZ_eight hx]
  | shloLImmAlt32 => exact extend_agree (mod32_lt _)
  | shloRImmAlt32 => exact extend_agree (shiftRight_lt (mod32_lt _) _)
  | sharRImmAlt32 =>
    rw [Graypaper.regRegImmValue, CPython.regRegImmValue, CPython.pvmZ_four (mod32_lt _),
      CPython.pvmZInv_eq_graypaper]
  | cmovIzImm => rfl
  | cmovNzImm => rfl
  | addImm64 => rfl
  | mulImm64 => rfl
  | shloLImm64 =>
    exact extend64_agree (Nat.mod_lt _ (by norm_num)) (by rw [Nat.shiftLeft_eq])
  | shloRImm64 =>
    have hlt := shiftRight_lt hb (v_x % 64)
    rw [Nat.shiftRight_eq_div_pow] at hlt
    exact extend64_agree hlt (by rw [Nat.shiftRight_eq_div_pow, Nat.mod_eq_of_lt hlt])
  | sharRImm64 =>
    rw [Graypaper.regRegImmValue, CPython.regRegImmValue, CPython.pvmZ_eight hb,
      CPython.pvmZInv_eq_graypaper, shiftRight_eq_fdiv]
  | negAddImm64 => exact ok_congr (unsigned_eq_emod _).symm
  | shloLImmAlt64 =>
    rw [Graypaper.regRegImmValue, CPython.regRegImmValue, Nat.shiftLeft_eq]
  | shloRImmAlt64 =>
    rw [Graypaper.regRegImmValue, CPython.regRegImmValue, Nat.shiftRight_eq_div_pow]
  | sharRImmAlt64 =>
    apply ok_congr
    rw [Graypaper.pvmZInv_eq, CPython.pvmZ_eight hx, shiftRight_eq_fdiv]
    split
    · rw [add_comm, unsigned_two_pow_add]
    · rfl
  | rotR64Imm => exact ok_congr (by rw [CPython.rori64_eq hb])
  | rotR64ImmAlt => exact ok_congr (by rw [CPython.rori64_eq hx])
  | rotR32Imm => exact extend_agree (Graypaper.rori32_lt _ _)
  | rotR32ImmAlt => exact extend_agree (Graypaper.rori32_lt _ _)

lemma unsigned_not {b : ℕ} (hb : b < 2 ^ 64) : unsigned 64 (-(b : ℤ) - 1) = 2 ^ 64 - 1 - b := by
  have hcast : -(b : ℤ) - 1 = ((2 ^ 64 - 1 - b : ℕ) : ℤ) - 2 ^ 64 := by omega
  rw [hcast, unsigned_sub_two_pow, unsigned_natCast (by omega)]

lemma signed_eq_zero_iff {w n : ℕ} (hn : n < 2 ^ w) : signed w n = 0 ↔ n = 0 := by
  constructor
  · intro h
    have hback := unsigned_signed hn
    rw [h] at hback
    simpa [unsigned] using hback.symm
  · rintro rfl
    simp [signed]

/-- The three-register instructions agree unless a 32-bit division meets a register whose low half
alone is zero. -/
lemma CPython.regRegRegValue_eq (o : RegRegRegOp) {a b : ℕ} (ha : a < 2 ^ 64) (hb : b < 2 ^ 64)
    (hdiv : o = .divU32 → b = 0 ∨ b % 2 ^ 32 ≠ 0) :
    CPython.regRegRegValue o a b = Graypaper.regRegRegValue o a b := by
  symm
  cases o with
  | add32 => exact extend_agree (mod32_lt _)
  | sub32 =>
    have hsame : unsigned 32 ((a % 2 ^ 32 : ℕ) - (b % 2 ^ 32 : ℕ)) =
        unsigned 32 (a + 2 ^ 32 - (b % 2 ^ 32 : ℕ)) := by
      apply unsigned_congr
      omega
    rw [Graypaper.regRegRegValue, CPython.regRegRegValue, hsame]
    exact extend_agree (unsigned_lt 32 _)
  | mul32 => exact extend_agree (mod32_lt _)
  | divU32 =>
    rw [Graypaper.regRegRegValue, CPython.regRegRegValue]
    rcases hdiv rfl with rfl | hne
    · rfl
    · have hb0 : b ≠ 0 := by
        rintro rfl
        exact hne rfl
      rw [if_neg hne, if_neg hb0, if_neg hne]
      exact extend_agree (lt_of_le_of_lt (Nat.div_le_self _ _) (mod32_lt _))
  | divS32 =>
    rw [Graypaper.regRegRegValue, CPython.regRegRegValue]
    simp only [CPython.pvmZ_four (mod32_lt _), CPython.pvmZInv_eq_graypaper,
      CPython.pvmRtzDiv_eq, Graypaper.pvmRtzDiv_eq]
  | remU32 =>
    rw [Graypaper.regRegRegValue, CPython.regRegRegValue]
    split
    · exact extend_agree (mod32_lt _)
    · exact extend_agree (lt_of_le_of_lt (Nat.mod_le _ _) (mod32_lt _))
  | remS32 =>
    rw [Graypaper.regRegRegValue, CPython.regRegRegValue]
    simp only [CPython.pvmZ_four (mod32_lt _), CPython.pvmZInv_eq_graypaper]
    by_cases h0 : Graypaper.pvmZ (b % 2 ^ 32) 4 = 0
    · rw [if_pos h0, if_pos h0]
    · rw [if_neg h0, if_neg h0, CPython.pvmSmod_eq h0, Graypaper.pvmSmod_eq h0]
  | shloL32 => exact extend_agree (mod32_lt _)
  | shloR32 => exact extend_agree (shiftRight_lt (mod32_lt _) _)
  | sharR32 =>
    have hval : (if (2 : ℤ) ^ 31 ≤ ((a % 2 ^ 32 : ℕ) : ℤ) then ((a % 2 ^ 32 : ℕ) : ℤ) - 2 ^ 32
        else ((a % 2 ^ 32 : ℕ) : ℤ)) = Graypaper.pvmZ (a % 2 ^ 32) 4 := by
      rw [Graypaper.pvmZ]
      split_ifs <;> omega
    simp only [Graypaper.regRegRegValue, CPython.regRegRegValue, hval, Graypaper.pvmZInv_eq, CPython.pvmZInv_eq]
    split
    · rw [add_comm _ ((2 : ℤ) ^ 64), unsigned_two_pow_add]
    · rfl
  | add64 => rfl
  | sub64 => exact ok_congr (unsigned_eq_emod _).symm
  | mul64 => rfl
  | divU64 => rfl
  | divS64 =>
    rw [Graypaper.regRegRegValue, CPython.regRegRegValue, CPython.pvmZ_eight ha,
      CPython.pvmZ_eight hb, CPython.pvmZInv_eq_graypaper, CPython.pvmRtzDiv_eq,
      Graypaper.pvmRtzDiv_eq]
  | remU64 => rfl
  | remS64 =>
    rw [Graypaper.regRegRegValue, CPython.regRegRegValue, CPython.pvmZ_eight ha,
      CPython.pvmZ_eight hb, CPython.pvmZInv_eq_graypaper]
    by_cases h0 : b = 0
    · rw [if_pos h0, if_pos h0]
    · have hs0 : Graypaper.pvmZ b 8 ≠ 0 := (signed_eq_zero_iff hb).not.mpr h0
      rw [if_neg h0, if_neg h0, CPython.pvmSmod_eq hs0, Graypaper.pvmSmod_eq hs0]
  | shloL64 =>
    rw [Graypaper.regRegRegValue, CPython.regRegRegValue, Nat.shiftLeft_eq]
  | shloR64 =>
    rw [Graypaper.regRegRegValue, CPython.regRegRegValue, Nat.shiftRight_eq_div_pow]
  | sharR64 =>
    rw [Graypaper.regRegRegValue, CPython.regRegRegValue, CPython.pvmZ_eight ha,
      CPython.pvmZInv_eq_graypaper, shiftRight_eq_fdiv]
  | and => rfl
  | xor => rfl
  | or => rfl
  | mulUpperSS =>
    rw [Graypaper.regRegRegValue, CPython.regRegRegValue, CPython.pvmZ_eight ha,
      CPython.pvmZ_eight hb, CPython.pvmZInv_eq_graypaper, shiftRight_eq_fdiv]
  | mulUpperUU =>
    rw [Graypaper.regRegRegValue, CPython.regRegRegValue, Nat.shiftRight_eq_div_pow]
  | mulUpperSU =>
    rw [Graypaper.regRegRegValue, CPython.regRegRegValue, CPython.pvmZ_eight ha,
      CPython.pvmZInv_eq_graypaper, shiftRight_eq_fdiv]
  | setLtU => rfl
  | setLtS =>
    rw [Graypaper.regRegRegValue, CPython.regRegRegValue, CPython.pvmZ_eight ha,
      CPython.pvmZ_eight hb]
  | cmovIz => rfl
  | cmovNz => rfl
  | rotL64 => exact ok_congr (by rw [CPython.roli64_eq ha])
  | rotL32 => exact extend_agree (Graypaper.roli32_lt _ _)
  | rotR64 => exact ok_congr (by rw [CPython.rori64_eq ha])
  | rotR32 => exact extend_agree (Graypaper.rori32_lt _ _)
  | andInv => exact ok_congr (by rw [unsigned_not hb])
  | orInv => exact ok_congr (by rw [unsigned_not hb])
  | xnor => exact ok_congr (by rw [unsigned_not (Nat.xor_lt_two_pow ha hb)])
  | max =>
    rw [Graypaper.regRegRegValue, CPython.regRegRegValue, CPython.pvmZ_eight ha,
      CPython.pvmZ_eight hb, CPython.pvmZInv_eq_graypaper]
  | maxU => rfl
  | min =>
    rw [Graypaper.regRegRegValue, CPython.regRegRegValue, CPython.pvmZ_eight ha,
      CPython.pvmZ_eight hb, CPython.pvmZInv_eq_graypaper]
  | minU => rfl

/-! ## Numba and the other two -/

/-- The operands on which a native rotation by an unmasked amount is computed. -/
def RegRegImmOp.NativeOk (t : ShiftTarget) (o : RegRegImmOp) (w_b v_x : ℕ) : Prop :=
  match o with
  | .rotR64Imm => Rotates64 t v_x
  | .rotR64ImmAlt => Rotates64 t w_b
  | .rotR32Imm => Rotates32 t (w_b % 2 ^ 32) (v_x % 2 ^ 32)
  | .rotR32ImmAlt => Rotates32 t (v_x % 2 ^ 32) (w_b % 2 ^ 32)
  | _ => True

lemma unsigned_mod32 (z : ℤ) : unsigned 64 z % 2 ^ 32 = unsigned 32 z := by
  unfold unsigned
  omega

lemma Numba.usub_mod32 {v w : ℕ} (hw : w < 2 ^ 64) :
    Numba.usub v w % 2 ^ 32 = unsigned 32 (v + 2 ^ 32 - w) := by
  rw [Numba.usub_eq hw, unsigned_mod32]
  apply unsigned_congr
  omega

lemma Numba.usub_sub {v w : ℕ} (hw : w < 2 ^ 64) :
    Numba.usub v w = unsigned 64 (v + 2 ^ 64 - w) := by
  rw [Numba.usub_eq hw]
  apply unsigned_congr
  omega

lemma mod64_mod32 (x : ℕ) : x % 2 ^ 64 % 2 ^ 32 = x % 2 ^ 32 := Nat.mod_mod_of_dvd x (by norm_num)

lemma mod32_mod (x : ℕ) : x % 2 ^ 32 % 32 = x % 32 := Nat.mod_mod_of_dvd x (by norm_num)

lemma Numba.pvmZ_four (x : ℕ) :
    Numba.pvmZ (x % 2 ^ 32) 4 = Graypaper.pvmZ (x % 2 ^ 32) 4 := by
  rw [Numba.pvmZ_eq (by norm_num) (by norm_num), Graypaper.pvmZ_eq, Nat.mod_mod]

lemma Numba.i32_pvmZ (x : ℕ) :
    Numba.i32 (Numba.pvmZ (x % 2 ^ 32) 4) = Graypaper.pvmZ (x % 2 ^ 32) 4 := by
  rw [Numba.pvmZ_four, Graypaper.pvmZ_eq]
  exact Numba.i32_signed (mod32_lt x)

lemma Numba.pvmZ_eight_graypaper (x : ℕ) : Numba.pvmZ x 8 = Graypaper.pvmZ x 8 := rfl

lemma Numba.pvmZInv_eq_graypaper (a : ℤ) : Numba.pvmZInv a 8 = Graypaper.pvmZInv a 8 := by
  rw [Numba.pvmZInv_eight, Graypaper.pvmZInv_eq]

/-- A native value that went through sign extension, against the asserting extension. -/
lemma native_extend_agree {x : ℕ} (hx : x < 2 ^ 32) :
    (.ok (some (Numba.pvmX x 4 : ℤ)) : Value) =
      (do let r ← Graypaper.pvmX x 4; pure (some (r : ℤ)) : Value) := by
  rw [extend_agree hx, Numba.pvmX_eq_cpython]

lemma signExtend32_inj {x y : ℕ} (hx : x < 2 ^ 32) (hy : y < 2 ^ 32)
    (h : signExtend 32 x = signExtend 32 y) : x = y := by
  unfold signExtend at h
  split_ifs at h <;> omega

/-- Sign extension after a rotation neither hides nor creates a difference. -/
lemma rotate32_extend_iff {r : Except Fault ℕ} {x : ℕ} (hx : x < 2 ^ 32)
    (hr : ∀ y, r = .ok y → y < 2 ^ 32) :
    ((do let y ← r; .ok (some ((Numba.pvmX y 4 : ℕ) : ℤ))) =
      (do let r ← Graypaper.pvmX x 4; pure (some (r : ℤ)) : Value)) ↔ r = .ok x := by
  rw [extend_agree hx]
  cases r with
  | error e => simp
  | ok y =>
    have hy := hr y rfl
    simp only [Except.ok_bind, Numba.pvmX_eq_cpython, CPython.pvmX_four hx, CPython.pvmX_four hy,
      Except.ok.injEq, Option.some.injEq, Nat.cast_inj]
    exact ⟨signExtend32_inj hy hx, fun h => by rw [h]⟩

lemma Numba.rori32_ok_lt {t : ShiftTarget} {x s y : ℕ} (h : Numba.rori32 t x s = .ok y) :
    y < 2 ^ 32 := by
  unfold Numba.rori32 at h
  cases hr : Numba.shr t x s with
  | error e => simp [hr] at h
  | ok r =>
    cases hl : Numba.shl t x (unsigned 64 (32 - s)) with
    | error e => simp [hr, hl] at h
    | ok l =>
      simp only [hr, hl, Except.ok_bind] at h
      cases h
      exact Nat.mod_lt _ (by norm_num)

lemma rotate64_iff {r : Except Fault ℕ} {x : ℕ} :
    ((do let y ← r; .ok (some (y : ℤ))) = (.ok (some (x : ℤ)) : Value)) ↔ r = .ok x := by
  cases r with
  | error e => simp
  | ok y => simp

/-- The two-register, one-immediate instructions agree exactly when no rotation is left
uncomputed. -/
lemma Numba.regRegImmValue_eq_iff (t : ShiftTarget) (o : RegRegImmOp) {w_b v_x : ℕ}
    (hb : w_b < 2 ^ 64) (hx : v_x < 2 ^ 64) :
    Numba.regRegImmValue t o w_b v_x = Graypaper.regRegImmValue o w_b v_x ↔
      o.NativeOk t w_b v_x := by
  cases o with
  | rotR64Imm => exact rotate64_iff.trans (Numba.rori64_eq_ok_iff hb hx)
  | rotR64ImmAlt => exact rotate64_iff.trans (Numba.rori64_eq_ok_iff hx hb)
  | rotR32Imm =>
    exact (rotate32_extend_iff (Graypaper.rori32_lt _ _) (fun _ => Numba.rori32_ok_lt)).trans
      (by rw [← Graypaper.rori32_mod]; exact Numba.rori32_eq_ok_iff (mod32_lt w_b) (mod32_lt v_x))
  | rotR32ImmAlt =>
    exact (rotate32_extend_iff (Graypaper.rori32_lt _ _) (fun _ => Numba.rori32_ok_lt)).trans
      (by rw [← Graypaper.rori32_mod]; exact Numba.rori32_eq_ok_iff (mod32_lt v_x) (mod32_lt w_b))
  | addImm32 | mulImm32 | shloLImm32 | shloLImmAlt32 =>
    refine iff_of_true ?_ trivial
    rw [Numba.regRegImmValue, mod64_mod32]
    exact native_extend_agree (mod32_lt _)
  | shloRImm32 | shloRImmAlt32 =>
    refine iff_of_true ?_ trivial
    rw [Numba.regRegImmValue, mod32_mod]
    exact native_extend_agree (shiftRight_lt (mod32_lt _) _)
  | sharRImm32 | sharRImmAlt32 =>
    refine iff_of_true ?_ trivial
    rw [Numba.regRegImmValue, mod32_mod, Numba.i32_pvmZ, Numba.pvmZInv_eq_graypaper]
    rfl
  | negAddImm32 =>
    refine iff_of_true ?_ trivial
    rw [Numba.regRegImmValue, Numba.usub_mod32 hb]
    exact native_extend_agree (unsigned_lt 32 _)
  | shloLImm64 | shloLImmAlt64 | shloRImmAlt64 =>
    refine iff_of_true ?_ trivial
    rw [← CPython.regRegImmValue_eq _ hb hx]
    rfl
  | shloRImm64 =>
    refine iff_of_true ?_ trivial
    rw [← CPython.regRegImmValue_eq _ hb hx, Numba.regRegImmValue, CPython.regRegImmValue,
      CPython.pvmX_eight, Nat.mod_eq_of_lt (shiftRight_lt hb _)]
  | sharRImm64 | sharRImmAlt64 =>
    refine iff_of_true ?_ trivial
    rw [Numba.regRegImmValue, Graypaper.regRegImmValue, Numba.pvmZ_eight_graypaper,
      Numba.pvmZInv_eq_graypaper, shiftRight_eq_fdiv]
  | negAddImm64 =>
    refine iff_of_true ?_ trivial
    rw [← CPython.regRegImmValue_eq _ hb hx, Numba.regRegImmValue, CPython.regRegImmValue,
      Numba.usub_sub hb]
  | andImm | xorImm | orImm | setLtUImm | setLtSImm | setGtUImm | setGtSImm | cmovIzImm | cmovNzImm
  | addImm64 | mulImm64 => exact iff_of_true rfl trivial

/-- The operands on which the native three-register instructions compute a value: a 32-bit divisor
is not zero in its low half alone, and no 64-bit rotation is by an uncomputed amount. -/
def RegRegRegOp.NativeOk (t : ShiftTarget) (o : RegRegRegOp) (w_b : ℕ) : Prop :=
  match o with
  | .divU32 => w_b = 0 ∨ w_b % 2 ^ 32 ≠ 0
  | .rotL64 => Rotates64 t (w_b % 64)
  | .rotR64 => Rotates64 t (w_b % 64)
  | _ => True

lemma Graypaper.pvmZInv_pvmZ {w : ℕ} (hw : w < 2 ^ 64) :
    Graypaper.pvmZInv (Graypaper.pvmZ w 8) 8 = w := by
  rw [Graypaper.pvmZInv_eq, Graypaper.pvmZ_eq, unsigned_signed hw]

/-- The high word, cast to signed and back. -/
lemma Numba.pvmZInv_signed {hi : ℕ} (hhi : hi < 2 ^ 64) : Numba.pvmZInv (signed 64 hi) 8 = hi := by
  rw [Numba.pvmZInv_eight, unsigned_signed hhi]

lemma Graypaper.pvmZInv_fdiv (z : ℤ) :
    Graypaper.pvmZInv (z.fdiv (2 ^ 64)) 8 = unsigned 64 (z / 2 ^ 64) := by
  rw [Graypaper.pvmZInv_eq, Int.fdiv_eq_ediv_of_nonneg _ (by norm_num)]

lemma Numba.divU32_eq_iff (t : ShiftTarget) (a b : ℕ) :
    Numba.regRegRegValue t .divU32 a b = Graypaper.regRegRegValue .divU32 a b ↔
      b = 0 ∨ b % 2 ^ 32 ≠ 0 := by
  rw [Numba.regRegRegValue, Graypaper.regRegRegValue]
  by_cases h0 : b = 0
  · subst b
    exact iff_of_true rfl (.inl rfl)
  · by_cases hlow : b % 2 ^ 32 = 0
    · rw [if_neg h0, if_pos hlow, if_pos hlow]
      simpa [h0] using hlow
    · rw [if_neg h0, if_neg hlow, if_neg hlow]
      refine iff_of_true ?_ (.inr hlow)
      exact native_extend_agree (lt_of_le_of_lt (Nat.div_le_self _ _) (mod32_lt _))

/-- The three-register instructions agree exactly on the operands that are computed. -/
lemma Numba.regRegRegValue_eq_iff (t : ShiftTarget) (o : RegRegRegOp) {w_a w_b : ℕ}
    (ha : w_a < 2 ^ 64) (hb : w_b < 2 ^ 64) :
    Numba.regRegRegValue t o w_a w_b = Graypaper.regRegRegValue o w_a w_b ↔ o.NativeOk t w_b := by
  have hamt : w_b % 64 < 2 ^ 64 := lt_of_le_of_lt (Nat.mod_le _ _) hb
  cases o with
  | divU32 => exact Numba.divU32_eq_iff t w_a w_b
  | rotL64 => exact rotate64_iff.trans (Numba.roli64_eq_ok_iff ha hamt)
  | rotR64 => exact rotate64_iff.trans (Numba.rori64_eq_ok_iff ha hamt)
  | rotL32 =>
    refine iff_of_true ?_ trivial
    have hs : w_b % 32 < 32 := Nat.mod_lt _ (by norm_num)
    rw [Numba.regRegRegValue, mod32_mod, Numba.roli32_of_lt t hs, Except.ok_bind]
    have hmod : Graypaper.roli32 (w_a % 2 ^ 32) (w_b % 32) =
        Graypaper.roli32 (w_a % 2 ^ 32) w_b := by
      rw [Graypaper.roli32, Graypaper.roli32, Nat.mod_mod]
    rw [hmod]
    exact native_extend_agree (Graypaper.roli32_lt _ _)
  | rotR32 =>
    refine iff_of_true ?_ trivial
    have hs : w_b % 32 ≤ 32 := (Nat.mod_lt _ (by norm_num)).le
    rw [Numba.regRegRegValue, mod32_mod, Numba.rori32_of_le t (mod32_lt w_a) hs, Except.ok_bind]
    have hmod : Graypaper.rori32 (w_a % 2 ^ 32) (w_b % 32) =
        Graypaper.rori32 (w_a % 2 ^ 32) w_b := by
      rw [Graypaper.rori32, Graypaper.rori32, Nat.mod_mod]
    rw [hmod]
    exact native_extend_agree (Graypaper.rori32_lt _ _)
  | add32 | mul32 | shloL32 =>
    refine iff_of_true ?_ trivial
    rw [Numba.regRegRegValue, mod64_mod32]
    exact native_extend_agree (mod32_lt _)
  | sub32 =>
    refine iff_of_true ?_ trivial
    have hsame : unsigned 32 (w_a + 2 ^ 32 - w_b) =
        unsigned 32 ((w_a % 2 ^ 32 : ℕ) - (w_b % 2 ^ 32 : ℕ)) := by
      apply unsigned_congr
      omega
    rw [Numba.regRegRegValue, Numba.usub_mod32 hb, hsame]
    exact native_extend_agree (unsigned_lt 32 _)
  | shloR32 =>
    refine iff_of_true ?_ trivial
    rw [Numba.regRegRegValue, mod32_mod]
    exact native_extend_agree (shiftRight_lt (mod32_lt _) _)
  | sharR32 =>
    refine iff_of_true ?_ trivial
    rw [Numba.regRegRegValue, mod32_mod, Numba.i32_pvmZ, Numba.pvmZInv_eq_graypaper]
    rfl
  | divS32 =>
    refine iff_of_true ?_ trivial
    rw [Numba.regRegRegValue, Graypaper.regRegRegValue]
    simp only [Numba.i32_pvmZ, Numba.pvmZInv_eq_graypaper]
    by_cases h0 : Graypaper.pvmZ (w_b % 2 ^ 32) 4 = 0
    · rw [if_pos h0, if_pos h0]
    · rw [if_neg h0, if_neg h0, Numba.pvmRtzDiv_eq h0, Graypaper.pvmRtzDiv_eq]
  | remU32 =>
    refine iff_of_true ?_ trivial
    rw [Numba.regRegRegValue, Graypaper.regRegRegValue]
    split
    · exact native_extend_agree (mod32_lt _)
    · exact native_extend_agree (lt_of_le_of_lt (Nat.mod_le _ _) (mod32_lt _))
  | remS32 =>
    refine iff_of_true ?_ trivial
    rw [Numba.regRegRegValue, Graypaper.regRegRegValue]
    simp only [Numba.pvmZ_four, Numba.pvmZInv_eq_graypaper]
    by_cases h0 : Graypaper.pvmZ (w_b % 2 ^ 32) 4 = 0
    · rw [if_pos h0, if_pos h0]
    · rw [if_neg h0, if_neg h0, Numba.pvmSmod_eq h0, Graypaper.pvmSmod_eq h0]
  | sub64 =>
    refine iff_of_true ?_ trivial
    rw [Numba.regRegRegValue, Graypaper.regRegRegValue, Numba.usub_sub hb, unsigned_eq_emod]
  | divS64 =>
    refine iff_of_true ?_ trivial
    rw [Numba.regRegRegValue, Graypaper.regRegRegValue]
    simp only [Numba.pvmZ_eight_graypaper, Numba.pvmZInv_eq_graypaper]
    by_cases h0 : w_b = 0
    · rw [if_pos h0, if_pos h0]
    · have hs0 : Graypaper.pvmZ w_b 8 ≠ 0 := (signed_eq_zero_iff hb).not.mpr h0
      rw [if_neg h0, if_neg h0, Numba.pvmRtzDiv_eq hs0, Graypaper.pvmRtzDiv_eq]
  | remS64 =>
    refine iff_of_true ?_ trivial
    have hzero : Graypaper.pvmZ w_b 8 = 0 ↔ w_b = 0 := signed_eq_zero_iff hb
    rw [Numba.regRegRegValue, Graypaper.regRegRegValue]
    simp only [Numba.pvmZ_eight_graypaper, Numba.pvmZInv_eq_graypaper, hzero,
      Graypaper.pvmZInv_pvmZ ha]
    by_cases h0 : w_b = 0
    · rw [if_pos h0, if_pos h0]
    · have hs0 : Graypaper.pvmZ w_b 8 ≠ 0 := hzero.not.mpr h0
      rw [if_neg h0, if_neg h0, Numba.pvmSmod_eq hs0, Graypaper.pvmSmod_eq hs0]
  | shloL64 =>
    refine iff_of_true ?_ trivial
    rw [Numba.regRegRegValue, Graypaper.regRegRegValue, Nat.shiftLeft_eq]
  | shloR64 =>
    refine iff_of_true ?_ trivial
    rw [Numba.regRegRegValue, Graypaper.regRegRegValue, Nat.shiftRight_eq_div_pow]
  | sharR64 =>
    refine iff_of_true ?_ trivial
    rw [Numba.regRegRegValue, Graypaper.regRegRegValue, Numba.pvmZ_eight_graypaper,
      Numba.pvmZInv_eq_graypaper, shiftRight_eq_fdiv]
  | mulUpperSS =>
    refine iff_of_true ?_ trivial
    rw [Numba.regRegRegValue, Graypaper.regRegRegValue, Numba.imul64wide_fst ha hb,
      Numba.pvmZInv_signed (unsigned_lt 64 _), Graypaper.pvmZInv_fdiv]
    rfl
  | mulUpperUU =>
    refine iff_of_true ?_ trivial
    rw [Numba.regRegRegValue, Graypaper.regRegRegValue, Numba.umul64wide_fst ha hb]
  | mulUpperSU =>
    refine iff_of_true ?_ trivial
    rw [Numba.regRegRegValue, Graypaper.regRegRegValue, Numba.smulU64wide_fst ha hb,
      Numba.pvmZInv_signed (unsigned_lt 64 _), Graypaper.pvmZInv_fdiv]
    rfl
  | max =>
    refine iff_of_true (ok_congr ?_) trivial
    rw [Numba.pvmZ_eight_graypaper, Numba.pvmZ_eight_graypaper]
    split
    · next h => rw [max_eq_left h, Graypaper.pvmZInv_pvmZ ha]
    · next h => rw [max_eq_right (not_le.mp h).le, Graypaper.pvmZInv_pvmZ hb]
  | maxU =>
    refine iff_of_true (ok_congr ?_) trivial
    split
    · next h => rw [max_eq_left h]
    · next h => rw [max_eq_right (not_le.mp h).le]
  | min =>
    refine iff_of_true (ok_congr ?_) trivial
    rw [Numba.pvmZ_eight_graypaper, Numba.pvmZ_eight_graypaper]
    split
    · next h => rw [min_eq_left h, Graypaper.pvmZInv_pvmZ ha]
    · next h => rw [min_eq_right (not_le.mp h).le, Graypaper.pvmZInv_pvmZ hb]
  | minU =>
    refine iff_of_true (ok_congr ?_) trivial
    split
    · next h => rw [min_eq_left h]
    · next h => rw [min_eq_right (not_le.mp h).le]
  | add64 | mul64 | divU64 | remU64 | and | xor | or | setLtU | setLtS | cmovIz | cmovNz | andInv
  | orInv | xnor => exact iff_of_true rfl trivial

/-! ## The two-register group -/

/-- Numba computes every two-register instruction as the reference does. -/
lemma Numba.regRegValue_eq (o : RegRegOp) {w : ℕ} (hw : w < 2 ^ 64) :
    Numba.regRegValue o w = Graypaper.regRegValue o w := by
  cases o with
  | moveReg | zeroExtend16 => rfl
  | countSetBits64 =>
    rw [Numba.regRegValue, Graypaper.regRegValue, countOnesLoop_eq 64 0 hw, zero_add]
  | countSetBits32 =>
    rw [Numba.regRegValue, Graypaper.regRegValue, countOnesLoop_eq 32 0 (mod32_lt w), zero_add]
  | leadingZeroBits64 =>
    rw [Numba.regRegValue, Graypaper.regRegValue, Numba.countLeadingZeroes_eq (by norm_num)]
  | leadingZeroBits32 =>
    rw [Numba.regRegValue, Graypaper.regRegValue, Numba.countLeadingZeroes_eq (by norm_num)]
  | trailingZeroBits64 =>
    rw [Numba.regRegValue, Graypaper.regRegValue, Numba.countTrailingZeroes_eq_cpython hw,
      CPython.countTrailingZeroes_eq_graypaper hw]
  | trailingZeroBits32 =>
    rw [Numba.regRegValue, Graypaper.regRegValue, Graypaper.countTrailingZeroes_eq_cpython,
      Numba.countTrailingZeroes_eq_cpython (lt_trans (mod32_lt w) (by norm_num))]
  | signExtend8 =>
    rw [Numba.regRegValue, Graypaper.regRegValue, Numba.pvmZInv_eq_graypaper,
      Numba.pvmZ_eq (by norm_num) (by norm_num), Graypaper.pvmZ_eq, Nat.mod_mod]
  | signExtend16 =>
    rw [Numba.regRegValue, Graypaper.regRegValue, Numba.pvmZInv_eq_graypaper,
      Numba.pvmZ_eq (by norm_num) (by norm_num), Graypaper.pvmZ_eq, Nat.mod_mod]
  | reverseBytes =>
    rw [Numba.regRegValue, Graypaper.regRegValue, Numba.reverseBytes_eq, Graypaper.reverseBytes_eq]

/-- The operands whose trailing zeros CPython, which does not mask them to 32 bits, counts as the
others do: a one in the low half, no one at all, or the lowest one at bit 32. -/
def TrailingZerosOk (w : ℕ) : Prop := w % 2 ^ 32 ≠ 0 ∨ w = 0 ∨ w / 2 ^ 32 % 2 = 1

/-- The low half of a number whose lowest one is below bit 32. -/
lemma two_pow_mul_mod32 {j m : ℕ} (hj : j < 32) (hm : m % 2 = 1) :
    ∃ m', 2 ^ j * m % 2 ^ 32 = 2 ^ j * m' ∧ m' % 2 = 1 := by
  obtain ⟨d, hd⟩ : ∃ d, 32 - j = d + 1 := ⟨32 - j - 1, by omega⟩
  refine ⟨m % 2 ^ (32 - j), ?_, ?_⟩
  · have hpow : (2 : ℕ) ^ 32 = 2 ^ j * 2 ^ (32 - j) := by
      rw [← pow_add]
      congr 1
      omega
    rw [hpow, Nat.mul_mod_mul_left]
  · rw [hd, Nat.mod_mod_of_dvd _ (dvd_pow_self 2 (by omega)), hm]

lemma CPython.trailingZeroBits32_iff {w : ℕ} (hw : w < 2 ^ 64) :
    CPython.countTrailingZeroes w 32 = CPython.countTrailingZeroes (w % 2 ^ 32) 32 ↔
      TrailingZerosOk w := by
  rcases Nat.eq_zero_or_pos w with rfl | hpos
  · exact iff_of_true rfl (.inr (.inl rfl))
  obtain ⟨j, m, rfl, hm⟩ := exists_two_pow_mul_odd hpos.ne'
  rw [CPython.countTrailingZeroes_two_pow_mul hm]
  by_cases hj : j < 32
  · obtain ⟨m', hlow, hm'⟩ := two_pow_mul_mod32 hj hm
    have hne : 2 ^ j * m' ≠ 0 := (Nat.mul_pos (Nat.two_pow_pos j) (by omega)).ne'
    rw [hlow, CPython.countTrailingZeroes_two_pow_mul hm']
    refine iff_of_true rfl (.inl ?_)
    rw [hlow]
    exact hne
  · obtain ⟨d, rfl⟩ : ∃ d, j = 32 + d := ⟨j - 32, by omega⟩
    have hsplit : 2 ^ (32 + d) * m = 2 ^ 32 * (2 ^ d * m) := by
      rw [pow_add, mul_assoc]
    have hlow : 2 ^ (32 + d) * m % 2 ^ 32 = 0 := by
      rw [hsplit, Nat.mul_mod_right]
    have hhigh : 2 ^ (32 + d) * m / 2 ^ 32 = 2 ^ d * m := by
      rw [hsplit, Nat.mul_div_cancel_left _ (by norm_num)]
    have hcount : CPython.countTrailingZeroes 0 32 = 32 := rfl
    rw [hlow, hcount, TrailingZerosOk, hlow, hhigh]
    constructor
    · intro h
      obtain rfl : d = 0 := by omega
      exact .inr (.inr (by rw [pow_zero, one_mul, hm]))
    · rintro (h | h | h)
      · exact absurd rfl h
      · exact absurd h hpos.ne'
      · cases d with
        | zero => rfl
        | succ d =>
          rw [pow_succ', mul_assoc] at h
          omega

/-- CPython computes every two-register instruction as the reference does, but for the 32-bit
trailing zero count. -/
lemma CPython.regRegValue_eq_iff (o : RegRegOp) {w : ℕ} (hw : w < 2 ^ 64) :
    CPython.regRegValue o w = Graypaper.regRegValue o w ↔
      (o = .trailingZeroBits32 → TrailingZerosOk w) := by
  cases o with
  | trailingZeroBits32 =>
    rw [CPython.regRegValue, Graypaper.regRegValue, Graypaper.countTrailingZeroes_eq_cpython,
      Nat.cast_inj, CPython.trailingZeroBits32_iff hw]
    exact ⟨fun h _ => h, fun h => h rfl⟩
  | moveReg | countSetBits32 | leadingZeroBits64 | zeroExtend16 =>
    exact iff_of_true rfl (fun h => by cases h)
  | countSetBits64 =>
    refine iff_of_true ?_ (fun h => by cases h)
    rw [CPython.regRegValue, Graypaper.regRegValue, Nat.mod_eq_of_lt hw]
  | leadingZeroBits32 =>
    refine iff_of_true ?_ (fun h => by cases h)
    rw [CPython.regRegValue, Graypaper.regRegValue, CPython.countLeadingZeroes,
      Graypaper.countLeadingZeroes, Nat.mod_mod]
  | trailingZeroBits64 =>
    refine iff_of_true ?_ (fun h => by cases h)
    rw [CPython.regRegValue, Graypaper.regRegValue, CPython.countTrailingZeroes_eq_graypaper hw]
  | signExtend8 =>
    refine iff_of_true ?_ (fun h => by cases h)
    rw [CPython.regRegValue, Graypaper.regRegValue, CPython.pvmZInv_eq_graypaper,
      CPython.pvmZ_eq (by norm_num), Graypaper.pvmZ_eq, Nat.mod_mod]
  | signExtend16 =>
    refine iff_of_true ?_ (fun h => by cases h)
    rw [CPython.regRegValue, Graypaper.regRegValue, CPython.pvmZInv_eq_graypaper,
      CPython.pvmZ_eq (by norm_num), Graypaper.pvmZ_eq, Nat.mod_mod]
  | reverseBytes =>
    refine iff_of_true ?_ (fun h => by cases h)
    rw [CPython.regRegValue, Graypaper.regRegValue, CPython.reverseBytes_eq,
      Graypaper.reverseBytes_eq, Nat.mod_eq_of_lt hw]

end Pvm
