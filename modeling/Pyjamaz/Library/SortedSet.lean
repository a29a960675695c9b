import Mathlib.Data.List.Dedup
import Mathlib.Data.List.Sort
import Mathlib.Data.List.TakeWhile
import Mathlib.Data.Nat.Notation
import Mathlib.Order.Lattice.Nat

/-!
# Sets of numbers as sorted lists

`sorted(set(xs))`: the members of a list, each once and in ascending order.  The result depends only
on the members, so a set built in any order has one representation.
-/

/-- The members of a list in ascending order, each once. -/
def sortedSet (xs : List ℕ) : List ℕ := xs.dedup.insertionSort (· ≤ ·)

@[simp] lemma mem_sortedSet {xs : List ℕ} {x : ℕ} : x ∈ sortedSet xs ↔ x ∈ xs := by
  rw [sortedSet, List.mem_insertionSort, List.mem_dedup]

lemma nodup_sortedSet (xs : List ℕ) : (sortedSet xs).Nodup :=
  (List.perm_insertionSort _ _).nodup_iff.mpr (List.nodup_dedup xs)

lemma pairwise_sortedSet (xs : List ℕ) : (sortedSet xs).Pairwise (· ≤ ·) :=
  List.pairwise_insertionSort (· ≤ ·) xs.dedup

/-- The list is strictly ascending. -/
lemma pairwise_lt_sortedSet (xs : List ℕ) : (sortedSet xs).Pairwise (· < ·) := by
  have h := (pairwise_sortedSet xs).and (nodup_sortedSet xs)
  exact h.imp (fun hx => lt_of_le_of_ne hx.1 hx.2)

/-- A set has one sorted representation. -/
lemma sortedSet_congr {xs ys : List ℕ} (h : ∀ x, x ∈ xs ↔ x ∈ ys) : sortedSet xs = sortedSet ys := by
  have hperm : (sortedSet xs).Perm (sortedSet ys) := by
    rw [List.perm_ext_iff_of_nodup (nodup_sortedSet xs) (nodup_sortedSet ys)]
    intro x
    rw [mem_sortedSet, mem_sortedSet, h]
  exact hperm.eq_of_pairwise' (pairwise_sortedSet xs) (pairwise_sortedSet ys)

/-- The first members of an ascending list are those with few smaller ones. -/
lemma mem_take_iff_countP_lt {xs : List ℕ} (h : xs.Pairwise (· < ·)) {x : ℕ} {n : ℕ} :
    x ∈ xs.take n ↔ x ∈ xs ∧ xs.countP (· < x) < n := by
  induction xs generalizing n with
  | nil => simp
  | cons y ys ih =>
    obtain ⟨hy, hys⟩ := List.pairwise_cons.mp h
    cases n with
    | zero => simp
    | succ n =>
      rw [List.take_succ_cons, List.mem_cons, List.mem_cons, ih hys, List.countP_cons]
      by_cases hx : x = y
      · subst hx
        have hnone : ys.countP (· < x) = 0 := by
          rw [List.countP_eq_zero]
          intro z hz
          simpa using (hy z hz).le
        simp [hnone]
      · have hlt : x ∈ ys → y < x := hy x
        constructor
        · rintro (rfl | ⟨hmem, hcount⟩)
          · exact absurd rfl hx
          · exact ⟨.inr hmem, by simp [hlt hmem, hcount]⟩
        · rintro ⟨rfl | hmem, hcount⟩
          · exact absurd rfl hx
          · exact .inr ⟨hmem, by simpa [hlt hmem] using hcount⟩

/-- A member that is among the first of a set is so in every subset. -/
lemma mem_take_sortedSet_of_subset {xs ys : List ℕ} (hsub : ys ⊆ xs) {x n : ℕ} (hx : x ∈ ys)
    (h : x ∈ (sortedSet xs).take n) : x ∈ (sortedSet ys).take n := by
  rw [mem_take_iff_countP_lt (pairwise_lt_sortedSet _)] at h ⊢
  have hsubset : sortedSet ys ⊆ sortedSet xs := fun y hy =>
    mem_sortedSet.mpr (hsub (mem_sortedSet.mp hy))
  exact ⟨mem_sortedSet.mpr hx,
    ((List.subperm_of_subset (nodup_sortedSet ys) hsubset).countP_le _).trans_lt h.2⟩

/-! ## One more member -/

section Insort

variable {α : Type*} [LinearOrder α]

/-- `bisect.insort`: a value is put into an ascending list behind the values that do not exceed
it. -/
def insort (xs : List α) (x : α) : List α :=
  xs.takeWhile (· ≤ x) ++ x :: xs.dropWhile (· ≤ x)

@[simp] lemma mem_insort {xs : List α} {x y : α} : y ∈ insort xs x ↔ y = x ∨ y ∈ xs := by
  conv_rhs => rw [← List.takeWhile_append_dropWhile (p := (· ≤ x)) (l := xs)]
  rw [insort, List.mem_append, List.mem_append, List.mem_cons]
  exact or_left_comm

/-- A new member keeps a strictly ascending list so. -/
lemma pairwise_lt_insort {xs : List α} {x : α} (h : xs.Pairwise (· < ·)) (hx : x ∉ xs) :
    (insort xs x).Pairwise (· < ·) := by
  have hsplit := List.takeWhile_append_dropWhile (p := (· ≤ x)) (l := xs)
  have htake : ∀ y ∈ xs.takeWhile (· ≤ x), y < x := by
    intro y hy
    have hle : y ≤ x := by simpa using List.mem_takeWhile_imp hy
    refine lt_of_le_of_ne hle ?_
    rintro rfl
    exact hx ((List.takeWhile_subset _) hy)
  have hdrop : ∀ y ∈ xs.dropWhile (· ≤ x), x < y := by
    intro y hy
    cases hrest : xs.dropWhile (· ≤ x) with
    | nil =>
      rw [hrest] at hy
      cases hy
    | cons z rest =>
      have hz : ¬ z ≤ x := by
        have hhead := List.head_dropWhile_not (p := (· ≤ x)) (l := xs) (by rw [hrest]; simp)
        simpa [hrest] using hhead
      rw [hrest] at hy
      rcases List.mem_cons.mp hy with rfl | hy
      · exact not_le.mp hz
      · have hpair : (z :: rest).Pairwise (· < ·) := by
          rw [← hrest]
          exact h.sublist (List.dropWhile_sublist _)
        exact (not_le.mp hz).trans ((List.pairwise_cons.mp hpair).1 y hy)
  rw [← hsplit, List.pairwise_append] at h
  rw [insort, List.pairwise_append, List.pairwise_cons]
  refine ⟨h.1, ⟨hdrop, h.2.1⟩, ?_⟩
  intro y hy z hz
  rcases List.mem_cons.mp hz with rfl | hz
  · exact htake y hy
  · exact h.2.2 y hy z hz

end Insort
