import Mathlib.Algebra.BigOperators.Group.Finset.Basic
import Mathlib.Algebra.Order.BigOperators.Group.Finset
import Mathlib.Algebra.Order.Group.Int

/-!
# Tallies

The weights of the entries of a map with finitely many of them, added up.  A program that keeps such
a sum in a counter changes the map at one key and the counter by the difference: `Tally.update`.
With weight one the sum is the number of entries.
-/

variable {K V : Type*}

/-- The weight of an entry, zero when there is none. -/
def entryWeight (w : K → V → ℤ) (k : K) (v : Option V) : ℤ := v.elim 0 (w k)

@[simp] lemma entryWeight_none (w : K → V → ℤ) (k : K) : entryWeight w k none = 0 := rfl

@[simp] lemma entryWeight_some (w : K → V → ℤ) (k : K) (v : V) : entryWeight w k (some v) = w k v :=
  rfl

lemma entryWeight_nonneg {w : K → V → ℤ} (hw : ∀ k v, 0 ≤ w k v) (k : K) (v : Option V) :
    0 ≤ entryWeight w k v := by
  cases v with
  | none => exact le_rfl
  | some v => exact hw k v

/-- The entries of a map lie in a finite set and weigh `total` together. -/
def Tally (w : K → V → ℤ) (f : K → Option V) (total : ℤ) : Prop :=
  ∃ S : Finset K, (∀ k ∉ S, f k = none) ∧ total = ∑ k ∈ S, entryWeight w k (f k)

/-- The number of entries. -/
def Entries (f : K → Option V) (n : ℤ) : Prop := Tally (fun _ _ => 1) f n

namespace Tally

variable {w : K → V → ℤ} {f : K → Option V} {total : ℤ}

/-- A map without entries. -/
lemma of_none (w : K → V → ℤ) {f : K → Option V} (h : ∀ k, f k = none) : Tally w f 0 :=
  ⟨∅, fun k _ => h k, rfl⟩

/-- The finite set may be larger than needed. -/
lemma exists_superset [DecidableEq K] (h : Tally w f total) (T : Finset K) :
    ∃ S, T ⊆ S ∧ (∀ k ∉ S, f k = none) ∧ total = ∑ k ∈ S, entryWeight w k (f k) := by
  obtain ⟨S, hnone, hsum⟩ := h
  refine ⟨S ∪ T, Finset.subset_union_right, ?_, ?_⟩
  · intro k hk
    exact hnone k (fun hS => hk (Finset.mem_union_left T hS))
  · rw [hsum]
    apply Finset.sum_subset Finset.subset_union_left
    intro k _ hk
    rw [hnone k hk, entryWeight_none]

/-- One entry is set or removed. -/
lemma update [DecidableEq K] (h : Tally w f total) (k : K) (v : Option V) :
    Tally w (Function.update f k v) (total - entryWeight w k (f k) + entryWeight w k v) := by
  obtain ⟨S, hsub, hnone, hsum⟩ := h.exists_superset {k}
  have hk : k ∈ S := hsub (Finset.mem_singleton_self k)
  refine ⟨S, ?_, ?_⟩
  · intro k' hk'
    have hne : k' ≠ k := fun heq => hk' (heq ▸ hk)
    rw [Function.update_of_ne hne, hnone k' hk']
  · have hrest : ∑ x ∈ S.erase k, entryWeight w x (Function.update f k v x) =
        ∑ x ∈ S.erase k, entryWeight w x (f x) := by
      apply Finset.sum_congr rfl
      intro x hx
      rw [Function.update_of_ne (Finset.ne_of_mem_erase hx)]
    rw [hsum, ← Finset.add_sum_erase S _ hk, ← Finset.add_sum_erase S _ hk, hrest,
      Function.update_self]
    omega

/-- With weights that are not negative, no part weighs more than the whole. -/
lemma sum_le [DecidableEq K] (h : Tally w f total) (hw : ∀ k v, 0 ≤ w k v) (T : Finset K) :
    ∑ k ∈ T, entryWeight w k (f k) ≤ total := by
  obtain ⟨S, hsub, -, hsum⟩ := h.exists_superset T
  rw [hsum]
  exact Finset.sum_le_sum_of_subset_of_nonneg hsub (fun k _ _ => entryWeight_nonneg hw k (f k))

lemma nonneg [DecidableEq K] (h : Tally w f total) (hw : ∀ k v, 0 ≤ w k v) : 0 ≤ total :=
  h.sum_le hw ∅

end Tally

namespace Entries

variable [DecidableEq K] {f : K → Option V} {n : ℤ}

lemma nonneg (h : Entries f n) : 0 ≤ n := Tally.nonneg h (fun _ _ => Int.one_nonneg)

/-- Where there is no entry at all, none is found. -/
lemma eq_none_of_nonpos (h : Entries f n) (hn : n ≤ 0) (k : K) : f k = none := by
  have hle := Tally.sum_le h (fun _ _ => Int.one_nonneg) {k}
  rw [Finset.sum_singleton] at hle
  cases hk : f k with
  | none => rfl
  | some v =>
    rw [hk, entryWeight_some] at hle
    omega

/-- An entry is counted. -/
lemma pos_of_some (h : Entries f n) {k : K} {v : V} (hk : f k = some v) : 0 < n := by
  by_contra hn
  rw [h.eq_none_of_nonpos (not_lt.mp hn) k] at hk
  cases hk

/-- Where there is one entry, no other is found. -/
lemma eq_none_of_one (h : Entries f 1) {k k' : K} {v : V} (hk : f k = some v) (hne : k' ≠ k) :
    f k' = none := by
  have hrest := Tally.update h k none
  rw [hk, entryWeight_some, entryWeight_none] at hrest
  have hnone := eq_none_of_nonpos hrest (by omega) k'
  rwa [Function.update_of_ne hne] at hnone

end Entries
