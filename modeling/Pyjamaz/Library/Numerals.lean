import Mathlib.Data.Nat.Notation
import Mathlib.Tactic.Common
import Mathlib.Tactic.Ring

/-!
# Numerals over an alphabet

Numbers written with a fixed number of digits to a base, the lowest digit first, and read back.  What
is written reads as the number modulo the numbers of that many digits (`value_spell`), and what can be
read is what is written for the number (`spell_value`); so numerals of one length and the numbers below
the power of the base correspond to each other.
-/

/-- The characters of the digits to a base. -/
structure Alphabet (b : ℕ) (α : Type*) where
  char : Fin b → α
  digit : α → Option (Fin b)
  digit_eq_some : ∀ {a : α} {d : Fin b}, digit a = some d ↔ char d = a

namespace Alphabet

variable {b : ℕ} {α : Type*} (A : Alphabet b α)

/-- The number that a numeral stands for, if all its characters are digits. -/
def value : List α → Option ℕ
  | [] => some 0
  | a :: s => (A.digit a).bind fun d => (value s).map fun n => d + b * n

/-- The numeral of a number with `w` digits. -/
def spell [NeZero b] : ℕ → ℕ → List α
  | 0, _ => []
  | w + 1, n => A.char (Fin.ofNat b n) :: spell w (n / b)

variable {A}

lemma value_cons_eq_some {a : α} {s : List α} {n : ℕ} :
    A.value (a :: s) = some n ↔ ∃ d m, A.char d = a ∧ A.value s = some m ∧ d + b * m = n := by
  simp only [value, Option.bind_eq_some_iff, Option.map_eq_some_iff, A.digit_eq_some]
  exact ⟨fun ⟨d, ha, m, hm, hn⟩ => ⟨d, m, ha, hm, hn⟩, fun ⟨d, m, ha, hm, hn⟩ => ⟨d, ha, m, hm, hn⟩⟩

lemma value_lt {s : List α} : ∀ {n : ℕ}, A.value s = some n → n < b ^ s.length := by
  induction s with
  | nil =>
    intro n h
    cases h
    exact Nat.one_pos
  | cons a s ih =>
    intro n h
    obtain ⟨d, m, -, hm, rfl⟩ := value_cons_eq_some.mp h
    have hd := d.isLt
    have hle : b * (m + 1) ≤ b * b ^ s.length := Nat.mul_le_mul_left b (ih hm)
    rw [List.length_cons, Nat.pow_succ']
    rw [Nat.mul_succ] at hle
    omega

/-- The last digit of a numeral is the highest one. -/
lemma value_append_eq_some {s : List α} {a : α} :
    ∀ {n : ℕ}, A.value (s ++ [a]) = some n ↔
      ∃ m d, A.value s = some m ∧ A.char d = a ∧ m + b ^ s.length * d = n := by
  induction s with
  | nil =>
    intro n
    rw [List.nil_append, value_cons_eq_some]
    simp only [value, Option.some.injEq, List.length_nil, pow_zero, one_mul]
    constructor
    · rintro ⟨d, m, ha, rfl, hn⟩
      exact ⟨0, d, rfl, ha, by omega⟩
    · rintro ⟨m, d, rfl, ha, hn⟩
      exact ⟨d, 0, ha, rfl, by omega⟩
  | cons c s ih =>
    intro n
    rw [List.cons_append, value_cons_eq_some]
    constructor
    · rintro ⟨d, m, hc, hm, rfl⟩
      obtain ⟨l, e, hl, ha, rfl⟩ := ih.mp hm
      refine ⟨_, e, value_cons_eq_some.mpr ⟨d, l, hc, hl, rfl⟩, ha, ?_⟩
      rw [List.length_cons, Nat.pow_succ']
      ring
    · rintro ⟨m, e, hm, ha, rfl⟩
      obtain ⟨d, l, hc, hl, rfl⟩ := value_cons_eq_some.mp hm
      refine ⟨d, _, hc, ih.mpr ⟨l, e, hl, ha, rfl⟩, ?_⟩
      rw [List.length_cons, Nat.pow_succ']
      ring

section Spell

variable [NeZero b]

@[simp] lemma length_spell (w : ℕ) : ∀ n, (A.spell w n).length = w := by
  induction w with
  | zero => exact fun _ => rfl
  | succ w ih =>
    intro n
    rw [spell, List.length_cons, ih]

/-- Of a number that is written with `w` digits, the part below `b ^ w` is read. -/
lemma value_spell (w : ℕ) : ∀ n, A.value (A.spell w n) = some (n % b ^ w) := by
  induction w with
  | zero =>
    intro n
    rw [pow_zero, Nat.mod_one]
    rfl
  | succ w ih =>
    intro n
    rw [spell, value_cons_eq_some]
    refine ⟨_, _, rfl, ih _, ?_⟩
    rw [Fin.val_ofNat, Nat.pow_succ', Nat.mod_mul]

/-- A numeral that can be read is the one that is written for its number. -/
lemma spell_value {s : List α} : ∀ {n : ℕ}, A.value s = some n → A.spell s.length n = s := by
  induction s with
  | nil => exact fun _ => rfl
  | cons a s ih =>
    intro n h
    obtain ⟨d, m, rfl, hm, rfl⟩ := value_cons_eq_some.mp h
    have hlow : Fin.ofNat b (d + b * m) = d := by
      apply Fin.ext
      rw [Fin.val_ofNat, Nat.add_mul_mod_self_left, Nat.mod_eq_of_lt d.isLt]
    have hrest : (d + b * m) / b = m := by
      rw [Nat.add_mul_div_left _ _ (Nat.pos_of_neZero b), Nat.div_eq_of_lt d.isLt, Nat.zero_add]
    rw [List.length_cons, spell, hlow, hrest, ih hm]

end Spell

end Alphabet
