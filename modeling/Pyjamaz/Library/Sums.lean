import Mathlib.Algebra.BigOperators.Group.Finset.Basic
import Mathlib.Algebra.BigOperators.Group.List.Basic
import Mathlib.Algebra.Order.BigOperators.Group.List
import Mathlib.Tactic.Ring
import Pyjamaz.Library.Dict

/-!
# Sums of entries

Entries `(key, amount)` that are added up per key.  Over distinct keys the sums per key stay below
the sum of all entries, and over a set of keys that contains every key they are the whole of it.
-/

section Entries

variable {K : Type} [DecidableEq K]

/-- What the entries put under a key, added up. -/
def sumAt (entries : List (K × ℕ)) (k : K) : ℕ :=
  ((entries.filter (fun e => e.1 = k)).map Prod.snd).sum

lemma sumAt_cons (e : K × ℕ) (entries : List (K × ℕ)) (k : K) :
    sumAt (e :: entries) k = (if e.1 = k then e.2 else 0) + sumAt entries k := by
  by_cases h : e.1 = k
  · simp [sumAt, h]
  · simp [sumAt, h]

lemma sumAt_append (entries entries' : List (K × ℕ)) (k : K) :
    sumAt (entries ++ entries') k = sumAt entries k + sumAt entries' k := by
  simp [sumAt]

/-- A single amount is counted at most once among distinct keys. -/
lemma sum_map_ite_le {keys : List K} (hnodup : keys.Nodup) (k₀ : K) (n : ℕ) :
    (keys.map (fun k => if k₀ = k then n else 0)).sum ≤ n := by
  induction keys with
  | nil => exact Nat.zero_le n
  | cons k keys ih =>
    rw [List.nodup_cons] at hnodup
    rw [List.map_cons, List.sum_cons]
    by_cases h : k₀ = k
    · have hzero : keys.map (fun k => if k₀ = k then n else 0) = keys.map (fun _ => 0) := by
        apply List.map_congr_left
        intro k' hk'
        rw [if_neg]
        rintro rfl
        exact hnodup.1 (h ▸ hk')
      rw [if_pos h, hzero]
      simp
    · rw [if_neg h, Nat.zero_add]
      exact ih hnodup.2

/-- The first entry apart. -/
lemma sum_sumAt_cons (keys : List K) (e : K × ℕ) (entries : List (K × ℕ)) :
    (keys.map (sumAt (e :: entries))).sum =
      (keys.map (fun k => if e.1 = k then e.2 else 0)).sum + (keys.map (sumAt entries)).sum := by
  rw [← List.sum_map_add]
  exact congrArg List.sum (List.map_congr_left (fun k _ => sumAt_cons e entries k))

lemma sum_sumAt_nil (keys : List K) : (keys.map (sumAt [])).sum = 0 := by
  have hzero : keys.map (sumAt []) = keys.map (fun _ => 0) := rfl
  rw [hzero]
  simp

/-- Distinct keys share the entries among them. -/
lemma sum_sumAt_le {keys : List K} (hnodup : keys.Nodup) (entries : List (K × ℕ)) :
    (keys.map (sumAt entries)).sum ≤ (entries.map Prod.snd).sum := by
  induction entries with
  | nil => exact (sum_sumAt_nil keys).le
  | cons e entries ih =>
    rw [sum_sumAt_cons, List.map_cons, List.sum_cons]
    exact Nat.add_le_add (sum_map_ite_le hnodup e.1 e.2) ih

/-- Distinct keys that contain every key of the entries share them all. -/
lemma sum_sumAt_eq {keys : List K} (hnodup : keys.Nodup) {entries : List (K × ℕ)}
    (hsub : ∀ e ∈ entries, e.1 ∈ keys) :
    (keys.map (sumAt entries)).sum = (entries.map Prod.snd).sum := by
  induction entries with
  | nil => exact sum_sumAt_nil keys
  | cons e entries ih =>
    have hfirst : (keys.map (fun k => if e.1 = k then e.2 else 0)).sum = e.2 := by
      rw [List.sum_map_eq_nsmul_single e.1 _ (fun k hk _ => if_neg (Ne.symm hk)), if_pos rfl,
        List.count_eq_one_of_mem hnodup (hsub e List.mem_cons_self), one_nsmul]
    rw [sum_sumAt_cons, List.map_cons, List.sum_cons, hfirst,
      ih (fun e' he' => hsub e' (List.mem_cons_of_mem _ he'))]

end Entries

section Shares

variable {K M : Type} [DecidableEq K] [AddCommMonoid M]

/-- What entries of any kind that adds up put under a key. -/
def shareOf (entries : List (K × M)) (k : K) : M :=
  ((entries.filter (fun e => e.1 = k)).map Prod.snd).sum

@[simp] lemma shareOf_nil (k : K) : shareOf ([] : List (K × M)) k = 0 := rfl

lemma shareOf_cons (e : K × M) (entries : List (K × M)) (k : K) :
    shareOf (e :: entries) k = (if e.1 = k then e.2 else 0) + shareOf entries k := by
  by_cases h : e.1 = k
  · simp [shareOf, h]
  · simp [shareOf, h]

lemma shareOf_append (entries entries' : List (K × M)) (k : K) :
    shareOf (entries ++ entries') k = shareOf entries k + shareOf entries' k := by
  rw [shareOf, List.filter_append, List.map_append, List.sum_append]
  rfl

/-- One amount for each key of a list. -/
lemma shareOf_map_const (keys : List K) (m : M) (k : K) :
    shareOf (keys.map (fun key => (key, m))) k = keys.count k • m := by
  induction keys with
  | nil => rw [List.map_nil, shareOf_nil, List.count_nil, zero_nsmul]
  | cons key keys ih =>
    rw [List.map_cons, shareOf_cons, ih, List.count_cons]
    by_cases h : key = k
    · rw [if_pos h, if_pos (beq_iff_eq.mpr h), succ_nsmul, add_comm]
    · rw [if_neg h, if_neg (fun heq => h (beq_iff_eq.mp heq)), zero_add, Nat.add_zero]

/-- The shares of distinct keys, among which is every key that has anything, make up the whole. -/
lemma sum_shareOf {keys : List K} (hnodup : keys.Nodup) {entries : List (K × M)}
    (hsub : ∀ e ∈ entries, e.2 ≠ 0 → e.1 ∈ keys) :
    (keys.map (shareOf entries)).sum = (entries.map Prod.snd).sum := by
  induction entries with
  | nil =>
    have hzero : keys.map (shareOf ([] : List (K × M))) = keys.map (fun _ => 0) := rfl
    rw [hzero, List.sum_map_zero]
    rfl
  | cons e entries ih =>
    have hfirst : (keys.map (fun k => if e.1 = k then e.2 else 0)).sum = e.2 := by
      rw [List.sum_map_eq_nsmul_single e.1 _ (fun k hk _ => if_neg (Ne.symm hk)), if_pos rfl]
      by_cases hzero : e.2 = 0
      · rw [hzero, nsmul_zero]
      · rw [List.count_eq_one_of_mem hnodup (hsub e List.mem_cons_self hzero), one_nsmul]
    have hsplit : keys.map (shareOf (e :: entries)) =
        keys.map (fun k => (if e.1 = k then e.2 else 0) + shareOf entries k) :=
      List.map_congr_left (fun k _ => shareOf_cons e entries k)
    rw [hsplit, List.sum_map_add, hfirst, ih (fun e' he' => hsub e' (List.mem_cons_of_mem _ he')),
      List.map_cons, List.sum_cons]

/-- Distinct keys that contain every member of a list count all of them. -/
lemma sum_count {keys : List K} (hnodup : keys.Nodup) {xs : List K} (hsub : ∀ x ∈ xs, x ∈ keys) :
    (keys.map (fun k => xs.count k)).sum = xs.length := by
  have hshare : ∀ k, xs.count k = shareOf (xs.map (fun x => (x, 1))) k := by
    intro k
    rw [shareOf_map_const, nsmul_one, Nat.cast_id]
  simp only [hshare]
  rw [sum_shareOf hnodup, List.map_map]
  · show (xs.map (fun _ => 1)).sum = xs.length
    rw [List.map_const', List.sum_replicate, nsmul_one, Nat.cast_id]
  · intro e he _
    obtain ⟨x, hx, rfl⟩ := List.mem_map.mp he
    exact hsub x hx

end Shares

section Lists

variable {ι M : Type} [AddCommMonoid M]

/-- Where the members of a list have distinct keys and all summands but one are zero, this one is the
sum. -/
lemma sum_map_eq_of_only {key : ι → ℕ} {l : List ι} (hnodup : (l.map key).Nodup) {a : ι} (ha : a ∈ l)
    {f : ι → M} (h : ∀ b ∈ l, key b ≠ key a → f b = 0) : (l.map f).sum = f a := by
  classical
  have hzero : ∀ b, b ≠ a → b ∈ l → f b = 0 := by
    intro b hne hb
    exact h b hb (fun hkey => hne (List.inj_on_of_nodup_map hnodup hb ha hkey))
  rw [List.sum_map_eq_nsmul_single a f hzero, List.count_eq_one_of_mem hnodup.of_map ha, one_nsmul]

/-- A sum over a set of sums over a list. -/
lemma sum_list_sum {κ : Type} (S : Finset κ) (l : List ι) (f : ι → κ → M) :
    ∑ k ∈ S, (l.map (fun a => f a k)).sum = (l.map (fun a => ∑ k ∈ S, f a k)).sum := by
  induction l with
  | nil => simp
  | cons a l ih => simp only [List.map_cons, List.sum_cons, Finset.sum_add_distrib, ih]

end Lists

namespace Dict

variable {K : Type} [DecidableEq K]

lemma sumAt_eq_lookup {entries : List (K × ℕ)} (hnodup : (entries.map Prod.fst).Nodup) (k : K) :
    sumAt entries k = (entries.lookup k).getD 0 := by
  induction entries with
  | nil => rfl
  | cons e entries ih =>
    obtain ⟨k', n⟩ := e
    rw [List.map_cons, List.nodup_cons] at hnodup
    rw [sumAt_cons, ih hnodup.2]
    by_cases h : k' = k
    · subst h
      have habsent : entries.lookup k' = none := lookup_eq_none_iff.mpr hnodup.1
      simp [habsent]
    · have hne : (k == k') = false := beq_false_of_ne (fun h' => h h'.symm)
      rw [if_neg h, Nat.zero_add, List.lookup_cons, hne]

lemma sumAt_entries (d : Dict K ℕ) (k : K) : sumAt d.entries k = (d.get? k).getD 0 :=
  sumAt_eq_lookup d.nodup k

lemma sum_eq_lookup_add {entries : List (K × ℤ)} (hnodup : (entries.map Prod.fst).Nodup) (k : K) :
    (entries.map Prod.snd).sum = (entries.lookup k).getD 0 +
      ((entries.filter (fun e => e.1 ≠ k)).map Prod.snd).sum := by
  induction entries with
  | nil => rfl
  | cons e entries ih =>
    obtain ⟨k', n⟩ := e
    rw [List.map_cons, List.nodup_cons] at hnodup
    have ih := ih hnodup.2
    by_cases h : k' = k
    · subst h
      have habsent : entries.lookup k' = none := lookup_eq_none_iff.mpr hnodup.1
      rw [habsent, Option.getD_none, Int.zero_add] at ih
      simp at ih ⊢
      exact ih
    · have hne : (k == k') = false := beq_false_of_ne (fun h' => h h'.symm)
      have hkeep : ((k', n) :: entries).filter (fun e => e.1 ≠ k) =
          (k', n) :: entries.filter (fun e => e.1 ≠ k) := List.filter_cons_of_pos (by simpa using h)
      rw [List.lookup_cons, hne, hkeep, List.map_cons, List.map_cons, List.sum_cons, List.sum_cons,
        ih]
      ring

/-- One key's share of the sum of the values. -/
lemma sum_values_erase (d : Dict K ℤ) (k : K) :
    d.values.sum = (d.get? k).getD 0 + (d.erase k).values.sum :=
  sum_eq_lookup_add d.nodup k

/-- The sum of the values, taken over any set of keys that contains the dictionary's. -/
lemma sum_getD_eq_sum_values (d : Dict K ℤ) {keys : List K} (hnodup : keys.Nodup)
    (hsub : ∀ k ∈ d.keys, k ∈ keys) :
    (keys.map (fun k => (d.get? k).getD 0)).sum = d.values.sum := by
  induction keys generalizing d with
  | nil =>
    have hnil : d.entries = [] := by
      rw [List.eq_nil_iff_forall_not_mem]
      intro e he
      exact absurd (hsub e.1 (List.mem_map_of_mem he)) List.not_mem_nil
    simp [values, hnil]
  | cons k keys ih =>
    rw [List.nodup_cons] at hnodup
    have hrest : (keys.map (fun k' => (d.get? k').getD 0)) =
        keys.map (fun k' => ((d.erase k).get? k').getD 0) := by
      apply List.map_congr_left
      intro k' hk'
      have hne : k' ≠ k := by
        rintro rfl
        exact hnodup.1 hk'
      rw [get?_erase, if_neg hne]
    have hsub' : ∀ k' ∈ (d.erase k).keys, k' ∈ keys := by
      intro k' hk'
      have hcontains := contains_iff.mpr hk'
      rw [contains_erase, Bool.and_eq_true, Bool.not_eq_true', decide_eq_false_iff_not] at hcontains
      exact (List.mem_cons.mp (hsub k' (contains_iff.mp hcontains.2))).resolve_left hcontains.1
    rw [List.map_cons, List.sum_cons, hrest, ih (d.erase k) hnodup.2 hsub']
    exact (sum_values_erase d k).symm

end Dict
