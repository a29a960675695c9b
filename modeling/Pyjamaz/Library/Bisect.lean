import Mathlib.Data.Nat.Notation
import Mathlib.Order.Lattice
import Mathlib.Tactic.Common

/-!
# Bisection

The loop of a binary search, over an arbitrary test of an index, and the search in a sorted list that
is built on it.  The loop is correct on every interval on which the test holds up to some index and
fails from there on (`search_eq`); a list that splits into elements up to `x` and elements above `x`
is such an interval (`bisectRight_append`).
-/

namespace Bisect

/-- The loop: the half of `[lo, hi)` in which the test turns from true to false is kept until nothing
is left to halve. -/
def search (low : ℕ → Bool) (lo hi : ℕ) : ℕ :=
  if lo < hi then
    if low ((lo + hi) / 2) then search low ((lo + hi) / 2 + 1) hi
    else search low lo ((lo + hi) / 2)
  else lo
termination_by hi - lo

/-- When the test holds exactly below `k`, the loop finds `k`. -/
lemma search_eq {low : ℕ → Bool} {k : ℕ} (lo hi : ℕ)
    (h : ∀ i, lo ≤ i → i < hi → (low i = true ↔ i < k)) (hlo : lo ≤ k) (hhi : k ≤ hi) :
    search low lo hi = k := by
  fun_induction search low lo hi with
  | case1 lo hi hlt hmid ih =>
    have hk : (lo + hi) / 2 < k := (h _ (by omega) (by omega)).mp hmid
    exact ih (fun i hi₁ hi₂ => h i (by omega) hi₂) hk hhi
  | case2 lo hi hlt hmid ih =>
    have hk : ¬ (lo + hi) / 2 < k := fun hk => hmid ((h _ (by omega) (by omega)).mpr hk)
    exact ih (fun i hi₁ hi₂ => h i hi₁ (by omega)) hlo (Nat.not_lt.mp hk)
  | case3 lo hi hle => omega

section List

variable {α : Type*} [LinearOrder α]

/-- The number of elements at the front of a sorted list that are at most `x`. -/
def bisectRight (xs : List α) (x : α) : ℕ :=
  search (fun i => xs[i]?.any (fun y => decide (y ≤ x))) 0 xs.length

lemma bisectRight_append {l₁ l₂ : List α} {x : α} (h₁ : ∀ y ∈ l₁, y ≤ x) (h₂ : ∀ y ∈ l₂, x < y) :
    bisectRight (l₁ ++ l₂) x = l₁.length := by
  apply search_eq _ _ _ (Nat.zero_le _) (by simp)
  intro i _ hi
  by_cases hlt : i < l₁.length
  · have hget : (l₁ ++ l₂)[i]? = some l₁[i] := by
      rw [List.getElem?_append_left hlt, List.getElem?_eq_getElem hlt]
    simp [hget, hlt, h₁ _ (List.getElem_mem hlt)]
  · rw [List.length_append] at hi
    have hbound : i - l₁.length < l₂.length := by omega
    have hget : (l₁ ++ l₂)[i]? = some l₂[i - l₁.length] := by
      rw [List.getElem?_append_right (not_lt.mp hlt), List.getElem?_eq_getElem hbound]
    simp [hget, hlt, h₂ _ (List.getElem_mem hbound)]

end List

end Bisect
