import Mathlib.Data.Nat.Bitwise
import Pyjamaz.Library.TwosComplement

/-!
# Binary counters of trees

A list of values is kept as a counter in binary whose digits are trees: digit `i` is missing, or the
root of a perfect tree over `2 ^ i` of the values.  Appending a value is adding one, and a carry merges
the trees of one digit.

`Mountain` says which counter stands for which values; `mountain_carry` that the carry keeps it, and
`Mountain.digit_eq` reads a digit off the values: the trees cover the values from the largest to the
smallest, so digit `i` starts behind all values that the digits above it cover.
-/

namespace BinaryCounter

variable {T : Type} (merge : T → T → T)

/-! ## Counters -/

/-- The number that is counted, the first digit being the lowest. -/
def count : List (Option T) → ℕ
  | [] => 0
  | digit :: digits => (if digit.isSome then 1 else 0) + 2 * count digits

/-- The root of the perfect tree over a block of values. -/
def perfectRoot (default : T) : ℕ → List T → T
  | 0, values => values.headD default
  | depth + 1, values =>
    merge (perfectRoot default depth (values.take (2 ^ depth)))
      (perfectRoot default depth (values.drop (2 ^ depth)))

/-- Adding a tree at the lowest digit. -/
def carry (tree : T) : List (Option T) → List (Option T)
  | [] => [some tree]
  | none :: digits => some tree :: digits
  | some digit :: digits => none :: carry (merge digit tree) digits

/-- A counter from digit `i` on, and the values that it stands for. -/
inductive Mountain (default : T) : ℕ → List T → List (Option T) → Prop where
  | empty (i : ℕ) : Mountain default i [] []
  | missing {i : ℕ} {values : List T} {digits : List (Option T)} :
      Mountain default (i + 1) values digits → Mountain default i values (none :: digits)
  | present {i : ℕ} {values block : List T} {digits : List (Option T)} :
      Mountain default (i + 1) values digits → block.length = 2 ^ i →
      Mountain default i (values ++ block) (some (perfectRoot merge default i block) :: digits)

variable {merge} {default : T}

/-! ## Carries -/

@[simp] lemma count_nil : count ([] : List (Option T)) = 0 := rfl

@[simp] lemma count_none (digits : List (Option T)) : count (none :: digits) = 2 * count digits := by
  rw [count, Option.isSome_none, if_neg Bool.false_ne_true, Nat.zero_add]

@[simp] lemma count_some (digit : T) (digits : List (Option T)) :
    count (some digit :: digits) = 1 + 2 * count digits := by
  rw [count, Option.isSome_some, if_pos rfl]

/-- Two perfect trees of one size side by side. -/
lemma perfectRoot_append {depth : ℕ} {left right : List T} (h : left.length = 2 ^ depth) :
    perfectRoot merge default (depth + 1) (left ++ right) =
      merge (perfectRoot merge default depth left) (perfectRoot merge default depth right) := by
  rw [perfectRoot, List.take_left' h, List.drop_left' h]

/-- Appending a block of values. -/
lemma mountain_carry {i : ℕ} {values block : List T} {digits : List (Option T)}
    (h : Mountain merge default i values digits) (hblock : block.length = 2 ^ i) :
    Mountain merge default i (values ++ block)
      (carry merge (perfectRoot merge default i block) digits) := by
  induction h generalizing block with
  | empty i => exact .present (.empty (i + 1)) hblock
  | missing hrest _ => exact .present hrest hblock
  | @present i values last digits hrest hlast ih =>
    have hlength : (last ++ block).length = 2 ^ (i + 1) := by
      rw [List.length_append, hlast, hblock, pow_succ, Nat.mul_two]
    have hcarry := ih hlength
    rw [perfectRoot_append hlast] at hcarry
    rw [List.append_assoc, carry]
    exact .missing hcarry

/-! ## Digits -/

lemma Mountain.length_values {i : ℕ} {values : List T} {digits : List (Option T)}
    (h : Mountain merge default i values digits) : values.length = 2 ^ i * count digits := by
  induction h with
  | empty i => rw [count_nil, Nat.mul_zero, List.length_nil]
  | missing _ ih => rw [ih, count_none, pow_succ, Nat.mul_assoc]
  | present _ hblock ih =>
    rw [List.length_append, ih, hblock, count_some, pow_succ]
    ring

/-- The values below digit `k` of a counter from digit `i` on, that is the last ones. -/
def blockAt (values : List T) (size number : ℕ) : List T := (values.drop (2 * size * number)).take size

/-- The number of the block of a digit that is there. -/
lemma mul_succ_le_of_testBit {n k : ℕ} (h : n.testBit k = true) :
    2 ^ k * (2 * (n / 2 ^ (k + 1)) + 1) ≤ n := by
  have hmod : n / 2 ^ k % 2 = 1 := by
    rw [Nat.testBit_eq_decide_div_mod_eq, decide_eq_true_eq] at h
    exact h
  have hhalf : 2 * (n / 2 ^ (k + 1)) + 1 = n / 2 ^ k := by
    rw [pow_succ, ← Nat.div_div_eq_div_mul]
    omega
  rw [hhalf]
  exact Nat.mul_div_le _ _

/-- The block of a digit lies among the values of the digits from its own on. -/
lemma blockAt_append {i k n : ℕ} {values block : List T} (hvalues : values.length = 2 ^ (i + 1) * n)
    (h : n.testBit k = true) :
    blockAt (values ++ block) (2 ^ (i + 1 + k)) (n / 2 ^ (k + 1)) =
      blockAt values (2 ^ (i + 1 + k)) (n / 2 ^ (k + 1)) := by
  have hend : 2 * 2 ^ (i + 1 + k) * (n / 2 ^ (k + 1)) + 2 ^ (i + 1 + k) ≤ values.length := by
    have hscaled := Nat.mul_le_mul_left (2 ^ (i + 1)) (mul_succ_le_of_testBit h)
    rw [hvalues]
    refine (le_of_eq ?_).trans hscaled
    rw [pow_add 2 (i + 1) k]
    ring
  rw [blockAt, blockAt, List.drop_append_of_le_length ((Nat.le_add_right _ _).trans hend),
    List.take_append_of_le_length (by
      rw [List.length_drop]
      exact Nat.le_sub_of_add_le' hend)]

/-- A digit is there where the count has a one, and then it is the root over the block behind the
values of the digits above. -/
lemma Mountain.digit_eq {i : ℕ} {values : List T} {digits : List (Option T)}
    (h : Mountain merge default i values digits) {k : ℕ} (hk : k < digits.length) :
    digits[k]? = some (if (count digits).testBit k then
      some (perfectRoot merge default (i + k)
        (blockAt values (2 ^ (i + k)) (count digits / 2 ^ (k + 1)))) else none) := by
  induction h generalizing k with
  | empty i => exact absurd hk (Nat.not_lt_zero k)
  | @missing i values digits hrest ih =>
    cases k with
    | zero =>
      rw [count_none, Nat.testBit_zero, if_neg (by simp)]
      rfl
    | succ k =>
      have hdigit := ih (Nat.lt_of_succ_lt_succ hk)
      have hbit : (2 * count digits).testBit (k + 1) = (count digits).testBit k := by
        rw [Nat.testBit_succ, Nat.mul_div_cancel_left _ Nat.two_pos]
      have hdiv : 2 * count digits / 2 ^ (k + 1 + 1) = count digits / 2 ^ (k + 1) := by
        rw [pow_succ' 2 (k + 1), Nat.mul_div_mul_left _ _ Nat.two_pos]
      rw [List.getElem?_cons_succ, hdigit, count_none, hbit, hdiv,
        show i + (k + 1) = i + 1 + k by omega]
  | @present i values block digits hrest hblock ih =>
    have hvalues := hrest.length_values
    cases k with
    | zero =>
      have hbit : (1 + 2 * count digits).testBit 0 = true := by
        rw [Nat.testBit_zero]
        simp
      have hdiv : (1 + 2 * count digits) / 2 ^ (0 + 1) = count digits := by
        rw [zero_add, pow_one]
        omega
      have hstart : 2 * 2 ^ (i + 0) * count digits = values.length := by
        rw [hvalues, Nat.add_zero, pow_succ, Nat.mul_comm 2]
      rw [count_some, hbit, hdiv, if_pos rfl, blockAt, hstart, List.drop_left,
        Nat.add_zero, List.take_of_length_le hblock.le]
      rfl
    | succ k =>
      have hdigit := ih (Nat.lt_of_succ_lt_succ hk)
      have hbit : (1 + 2 * count digits).testBit (k + 1) = (count digits).testBit k := by
        rw [Nat.testBit_succ, show (1 + 2 * count digits) / 2 = count digits by omega]
      have hdiv : (1 + 2 * count digits) / 2 ^ (k + 1 + 1) = count digits / 2 ^ (k + 1) := by
        rw [pow_succ' 2 (k + 1), ← Nat.div_div_eq_div_mul,
          show (1 + 2 * count digits) / 2 = count digits by omega]
      rw [List.getElem?_cons_succ, hdigit, count_some, hbit, hdiv,
        show i + (k + 1) = i + 1 + k by omega]
      by_cases hset : (count digits).testBit k = true
      · rw [if_pos hset, if_pos hset, blockAt_append hrest.length_values hset]
      · rw [if_neg hset, if_neg hset]

/-! ## Lengths -/

/-- A counter has no missing digits at its end. -/
def Trimmed (digits : List (Option T)) : Prop := digits.getLast? ≠ some none

lemma trimmed_nil : Trimmed ([] : List (Option T)) := fun h => nomatch h

lemma trimmed_carry {tree : T} {digits : List (Option T)} (h : Trimmed digits) :
    Trimmed (carry merge tree digits) := by
  induction digits generalizing tree with
  | nil => exact fun h => nomatch h
  | cons digit digits ih =>
    have htail : digits ≠ [] → Trimmed digits := by
      intro hne hlast
      exact h (by rw [List.getLast?_cons, hlast]; rfl)
    cases digit with
    | none =>
      cases digits with
      | nil => exact absurd rfl h
      | cons next digits =>
        have hrest := htail (List.cons_ne_nil _ _)
        rw [carry, Trimmed, List.getLast?_cons_cons]
        exact hrest
    | some digit =>
      have hne : carry merge (merge digit tree) digits ≠ [] := by
        rw [← List.length_pos_iff]
        cases digits with
        | nil => exact Nat.one_pos
        | cons next digits => cases next <;> exact Nat.succ_pos _
      have hrest : Trimmed (carry merge (merge digit tree) digits) := by
        cases digits with
        | nil => exact fun hlast => nomatch hlast
        | cons next digits => exact ih (htail (List.cons_ne_nil _ _))
      rw [carry]
      obtain ⟨head, tail, hcons⟩ := List.exists_cons_of_ne_nil hne
      rw [hcons] at hrest ⊢
      rw [Trimmed, List.getLast?_cons_cons]
      exact hrest

/-- A counter without a missing digit counts one less than a power of two, and others count less. -/
lemma count_lt (digits : List (Option T)) : count digits + 1 ≤ 2 ^ digits.length ∧
    (count digits + 1 = 2 ^ digits.length ↔ none ∉ digits) := by
  induction digits with
  | nil => exact ⟨le_refl _, iff_of_true rfl List.not_mem_nil⟩
  | cons digit digits ih =>
    obtain ⟨hle, hiff⟩ := ih
    rw [List.length_cons, pow_succ]
    cases digit with
    | none =>
      rw [count_none]
      refine ⟨by omega, iff_of_false (by omega) (not_not.mpr (List.mem_cons_self ..))⟩
    | some digit =>
      rw [count_some, List.mem_cons, not_or]
      refine ⟨by omega, ⟨fun h => ⟨(Option.some_ne_none digit).symm, hiff.mp (by omega)⟩, fun h => ?_⟩⟩
      have := hiff.mpr h.2
      omega

/-- The highest digit is there. -/
lemma le_count {digits : List (Option T)} (h : Trimmed digits) (hne : digits ≠ []) :
    2 ^ (digits.length - 1) ≤ count digits := by
  induction digits with
  | nil => exact absurd rfl hne
  | cons digit digits ih =>
    cases digits with
    | nil =>
      cases digit with
      | none => exact absurd rfl h
      | some digit => exact le_refl _
    | cons next digits =>
      have hrest : Trimmed (next :: digits) := by
        intro hlast
        exact h (by rw [List.getLast?_cons_cons]; exact hlast)
      have hle := ih hrest (List.cons_ne_nil _ _)
      rw [List.length_cons, Nat.add_sub_cancel] at hle
      rw [List.length_cons, List.length_cons, Nat.add_sub_cancel, pow_succ]
      cases digit with
      | none =>
        rw [count_none]
        omega
      | some digit =>
        rw [count_some]
        omega

/-- A counter has as many digits as its count has bits. -/
lemma length_eq_bitLength {digits : List (Option T)} (h : Trimmed digits) :
    digits.length = TwosComplement.bitLength (count digits) := by
  cases digits with
  | nil => rfl
  | cons digit rest =>
    have hlt := (count_lt (digit :: rest)).1
    have hle := le_count h (List.cons_ne_nil _ _)
    rw [List.length_cons, Nat.add_sub_cancel] at hle
    rw [List.length_cons] at hlt ⊢
    exact (TwosComplement.bitLength_eq_of_bounds hle hlt).symm

end BinaryCounter
