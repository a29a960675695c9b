import Mathlib.Data.List.Basic
import Mathlib.Data.Nat.Notation
import Mathlib.Order.Bounds.Basic
import Mathlib.Tactic.Common
import Mathlib.Tactic.Ring

/-!
# Ranges of cells in a paged space

Reading and writing a range of cells of a function from addresses to values, and the lowest page in a
range that is not allowed.  A program that works through a range chunk by chunk is reduced to the
whole range by the append lemmas and by `firstDenied_chunk`, and one that works through it page by
page by `find?_pages`.
-/

namespace Paged

variable {β : Type*}

/-! ## Reading and writing -/

/-- The `n` cells from `addr` on. -/
def read (mem : ℕ → β) (addr n : ℕ) : List β := (List.range n).map (fun i => mem (addr + i))

/-- The cells from `addr` on replaced by `data`. -/
def write (mem : ℕ → β) (addr : ℕ) (data : List β) : ℕ → β :=
  fun x => if addr ≤ x then (data[x - addr]?).getD (mem x) else mem x

@[simp] lemma length_read (mem : ℕ → β) (addr n : ℕ) : (read mem addr n).length = n := by
  simp [read]

lemma read_append (mem : ℕ → β) (addr n m : ℕ) :
    read mem addr (n + m) = read mem addr n ++ read mem (addr + n) m := by
  rw [read, read, read, List.range_add, List.map_append, List.map_map]
  congr 1
  apply List.map_congr_left
  intro i _
  simp [Nat.add_assoc]

@[simp] lemma write_nil (mem : ℕ → β) (addr : ℕ) : write mem addr [] = mem := by
  funext x
  simp [write]

lemma write_of_lt (mem : ℕ → β) (data : List β) {addr x : ℕ} (h : x < addr) :
    write mem addr data x = mem x := if_neg (by omega)

lemma write_of_le (mem : ℕ → β) {data : List β} {addr x : ℕ} (h : addr + data.length ≤ x) :
    write mem addr data x = mem x := by
  rw [write, if_pos (by omega), List.getElem?_eq_none (by omega), Option.getD_none]

lemma write_of_mem (mem : ℕ → β) {data : List β} {addr i : ℕ} (h : i < data.length) :
    write mem addr data (addr + i) = data[i] := by
  rw [write, if_pos (by omega), Nat.add_sub_cancel_left, List.getElem?_eq_getElem h,
    Option.getD_some]

lemma write_append (mem : ℕ → β) (addr : ℕ) (data data' : List β) :
    write (write mem addr data) (addr + data.length) data' = write mem addr (data ++ data') := by
  funext x
  by_cases hx : addr ≤ x
  · obtain ⟨i, rfl⟩ := Nat.exists_eq_add_of_le hx
    by_cases hi : i < data.length
    · rw [write_of_lt _ _ (by omega), write_of_mem _ hi, write_of_mem _ (by simp; omega),
        List.getElem_append_left hi]
    · obtain ⟨j, rfl⟩ := Nat.exists_eq_add_of_le (not_lt.mp hi)
      by_cases hj : j < data'.length
      · rw [← Nat.add_assoc, write_of_mem _ hj, Nat.add_assoc, write_of_mem _ (by simp; omega),
          List.getElem_append_right (by omega)]
        simp
      · rw [write_of_le _ (by omega), write_of_le _ (by omega), write_of_le _ (by simp; omega)]
  · rw [write_of_lt _ _ (by omega), write_of_lt _ _ (by omega), write_of_lt _ _ (by omega)]

/-- What was written is read back. -/
lemma read_write_take (mem : ℕ → β) (addr : ℕ) {data : List β} {n : ℕ} (h : n ≤ data.length) :
    read (write mem addr data) addr n = data.take n := by
  apply List.ext_getElem
  · rw [length_read, List.length_take, min_eq_left h]
  · intro i hi _
    rw [length_read] at hi
    simp only [read, List.getElem_map, List.getElem_range, List.getElem_take]
    exact write_of_mem _ (lt_of_lt_of_le hi h)

/-- Reading the front of a range. -/
lemma take_read (mem : ℕ → β) (addr : ℕ) {n m : ℕ} (h : m ≤ n) :
    (read mem addr n).take m = read mem addr m := by
  obtain ⟨k, rfl⟩ := Nat.exists_eq_add_of_le h
  rw [read_append, List.take_left' (length_read mem addr m)]

/-- Writing what is already there changes nothing. -/
lemma write_eq_self (mem : ℕ → β) {addr : ℕ} {data : List β}
    (h : ∀ (i : ℕ) (hi : i < data.length), mem (addr + i) = data[i]) :
    write mem addr data = mem := by
  funext x
  by_cases hlow : x < addr
  · rw [write_of_lt _ _ hlow]
  · obtain ⟨i, rfl⟩ := Nat.exists_eq_add_of_le (not_lt.mp hlow)
    by_cases hi : i < data.length
    · rw [write_of_mem _ hi, h i hi]
    · rw [write_of_le _ (by omega)]

/-! ## The lowest page that is not allowed -/

/-- The lowest page that the range touches and that is not allowed. -/
def firstDenied (ps : ℕ) (allowed : ℕ → Bool) (addr n : ℕ) : Option ℕ :=
  ((List.range n).map (fun i => (addr + i) / ps)).find? (fun pg => !allowed pg)

variable {ps : ℕ} {allowed : ℕ → Bool} {addr n : ℕ}

@[simp] lemma firstDenied_zero : firstDenied ps allowed addr 0 = none := rfl

lemma firstDenied_eq_none :
    firstDenied ps allowed addr n = none ↔ ∀ i < n, allowed ((addr + i) / ps) = true := by
  simp [firstDenied]

/-- The page that is found is touched and not allowed. -/
lemma firstDenied_spec {pg : ℕ} (h : firstDenied ps allowed addr n = some pg) :
    allowed pg = false ∧ ∃ i < n, pg = (addr + i) / ps := by
  have hmem := List.mem_of_find?_eq_some h
  have hdenied := List.find?_some h
  obtain ⟨i, hi, rfl⟩ := List.mem_map.mp hmem
  exact ⟨by simpa using hdenied, i, List.mem_range.mp hi, rfl⟩

/-- A page that the range touches and that is not allowed. -/
def Denied (ps : ℕ) (allowed : ℕ → Bool) (addr n pg : ℕ) : Prop :=
  (∃ i < n, pg = (addr + i) / ps) ∧ allowed pg = false

lemma firstDenied_eq_none_iff :
    firstDenied ps allowed addr n = none ↔ ∀ pg, ¬ Denied ps allowed addr n pg := by
  rw [firstDenied_eq_none]
  refine ⟨?_, fun h i hi => ?_⟩
  · rintro h pg ⟨⟨i, hi, rfl⟩, hdenied⟩
    rw [h i hi] at hdenied
    cases hdenied
  · by_contra hdenied
    exact h _ ⟨⟨i, hi, rfl⟩, by simpa using hdenied⟩

/-- The pages of a range are looked at from the lowest on. -/
lemma isLeast_firstDenied {pg : ℕ} (h : firstDenied ps allowed addr n = some pg) :
    IsLeast {pg | Denied ps allowed addr n pg} pg := by
  obtain ⟨hdenied, htouched⟩ := firstDenied_spec h
  refine ⟨⟨htouched, hdenied⟩, ?_⟩
  rintro pg' ⟨⟨i, hi, rfl⟩, hdenied'⟩
  obtain ⟨-, before, after, hsplit, hbefore⟩ := List.find?_eq_some_iff_append.mp h
  have hsorted : ((List.range n).map (fun i => (addr + i) / ps)).Pairwise (fun x y => x ≤ y) := by
    rw [List.pairwise_map]
    exact List.pairwise_lt_range.imp fun hlt => Nat.div_le_div_right (by omega)
  have hmem : (addr + i) / ps ∈ before ++ pg :: after := by
    rw [← hsplit]
    exact List.mem_map.mpr ⟨i, List.mem_range.mpr hi, rfl⟩
  rw [hsplit] at hsorted
  rcases List.mem_append.mp hmem with hmem | hmem
  · have hallowed := hbefore _ hmem
    rw [hdenied'] at hallowed
    cases hallowed
  · rcases List.mem_cons.mp hmem with heq | hmem
    · exact heq.ge
    · exact List.rel_of_pairwise_cons (List.pairwise_append.mp hsorted).2.1 hmem

lemma firstDenied_of_isLeast {pg : ℕ} (h : IsLeast {pg | Denied ps allowed addr n pg} pg) :
    firstDenied ps allowed addr n = some pg := by
  cases hfirst : firstDenied ps allowed addr n with
  | none => exact absurd h.1 (firstDenied_eq_none_iff.mp hfirst pg)
  | some pg' => rw [(isLeast_firstDenied hfirst).unique h]

/-- A chunk that lies on one page is checked with one look at that page. -/
lemma firstDenied_chunk {c : ℕ} (hpos : 0 < c) (hc : c ≤ n)
    (hpage : ∀ i < c, (addr + i) / ps = addr / ps) :
    firstDenied ps allowed addr n =
      if allowed (addr / ps) then firstDenied ps allowed (addr + c) (n - c)
      else some (addr / ps) := by
  obtain ⟨m, rfl⟩ := Nat.exists_eq_add_of_le hc
  have hsplit : (List.range (c + m)).map (fun i => (addr + i) / ps) =
      (List.range c).map (fun i => (addr + i) / ps) ++
        (List.range m).map (fun i => (addr + c + i) / ps) := by
    rw [List.range_add, List.map_append, List.map_map]
    congr 1
    apply List.map_congr_left
    intro i _
    simp [Nat.add_assoc]
  have hfirst : (List.range c).map (fun i => (addr + i) / ps) = List.replicate c (addr / ps) := by
    rw [List.eq_replicate_iff]
    refine ⟨by simp, ?_⟩
    intro pg hpg
    obtain ⟨i, hi, rfl⟩ := List.mem_map.mp hpg
    exact hpage i (List.mem_range.mp hi)
  obtain ⟨k, rfl⟩ : ∃ k, c = k + 1 := ⟨c - 1, by omega⟩
  rw [firstDenied, hsplit, hfirst, List.find?_append, Nat.add_sub_cancel_left]
  cases hallowed : allowed (addr / ps) with
  | true =>
    have hnone : (List.replicate (k + 1) (addr / ps)).find? (fun pg => !allowed pg) = none := by
      rw [List.find?_eq_none]
      intro pg hpg
      rw [List.eq_of_mem_replicate hpg, hallowed]
      simp
    rw [hnone]
    rfl
  | false =>
    have hsome : (List.replicate (k + 1) (addr / ps)).find? (fun pg => !allowed pg) =
        some (addr / ps) := by
      rw [List.replicate_succ, List.find?_cons_of_pos (by simp [hallowed])]
    rw [hsome]
    rfl

/-- The cells of a range that lie on the page of its first cell. -/
def chunk (ps addr n : ℕ) : ℕ := min (ps - addr % ps) n

lemma chunk_le (ps addr n : ℕ) : chunk ps addr n ≤ n := min_le_right _ _

lemma chunk_pos (hps : 0 < ps) (hn : 0 < n) : 0 < chunk ps addr n := by
  have hmod := Nat.mod_lt addr hps
  exact lt_min (by omega) hn

/-- A chunk does not leave its page. -/
lemma chunk_page (hps : 0 < ps) {i : ℕ} (hi : i < chunk ps addr n) :
    (addr + i) / ps = addr / ps := by
  have hmod := Nat.mod_lt addr hps
  have hlt : addr % ps + i < ps := by
    have := lt_of_lt_of_le hi (min_le_left _ _)
    omega
  conv_lhs => rw [← Nat.div_add_mod addr ps, Nat.add_assoc, Nat.mul_add_div hps,
    Nat.div_eq_of_lt hlt, Nat.add_zero]

/-- What is left of a range starts on the next page. -/
lemma chunk_next (hps : 0 < ps) (h : chunk ps addr n < n) :
    addr + chunk ps addr n = (addr / ps + 1) * ps := by
  have hmod := Nat.mod_lt addr hps
  have hdiv := Nat.div_add_mod addr ps
  have hchunk : chunk ps addr n = ps - addr % ps := by
    rw [chunk] at h ⊢
    omega
  rw [hchunk, Nat.add_mul, Nat.one_mul, Nat.mul_comm (addr / ps) ps]
  omega

lemma firstDenied_step (hps : 0 < ps) (hn : 0 < n) :
    firstDenied ps allowed addr n =
      if allowed (addr / ps) then
        firstDenied ps allowed (addr + chunk ps addr n) (n - chunk ps addr n)
      else some (addr / ps) :=
  firstDenied_chunk (chunk_pos hps hn) (chunk_le ps addr n) (fun _ hi => chunk_page hps hi)

/-- The number of pages that a range touches. -/
def pageCount (ps addr n : ℕ) : ℕ := (addr + n - 1) / ps + 1 - addr / ps

/-- A range on one page touches one page. -/
lemma pageCount_of_chunk_eq (hps : 0 < ps) (hn : 0 < n) (h : chunk ps addr n = n) :
    pageCount ps addr n = 1 := by
  have hpage : (addr + (n - 1)) / ps = addr / ps := chunk_page hps (by rw [h]; omega)
  have hsub : addr + n - 1 = addr + (n - 1) := by omega
  rw [pageCount, hsub, hpage]
  omega

/-- A range that leaves its page touches one page more than what is left of it. -/
lemma pageCount_of_chunk_lt (hps : 0 < ps) (h : chunk ps addr n < n) :
    pageCount ps addr n =
      pageCount ps (addr + chunk ps addr n) (n - chunk ps addr n) + 1 := by
  have hnext := chunk_next hps h
  have hlast : addr + chunk ps addr n + (n - chunk ps addr n) - 1 = addr + n - 1 := by omega
  have hpage : (addr + chunk ps addr n) / ps = addr / ps + 1 := by
    rw [hnext, Nat.mul_div_cancel _ hps]
  have hle : addr / ps + 1 ≤ (addr + n - 1) / ps := by
    rw [Nat.le_div_iff_mul_le hps, ← hnext]
    omega
  rw [pageCount, pageCount, hlast, hpage]
  omega

/-- Going through the pages of a range in order finds the lowest one that is not allowed. -/
lemma find?_pages (hps : 0 < ps) (n : ℕ) : ∀ (addr : ℕ), 0 < n →
    (List.range' (addr / ps) (pageCount ps addr n)).find? (fun pg => !allowed pg) =
      firstDenied ps allowed addr n := by
  induction n using Nat.strong_induction_on with
  | _ n ih =>
    intro addr hn
    have hle := chunk_le ps addr n
    have hpos : 0 < chunk ps addr n := chunk_pos hps hn
    rw [firstDenied_step hps hn]
    rcases Nat.lt_or_eq_of_le hle with hlt | heq
    · have hpage : (addr + chunk ps addr n) / ps = addr / ps + 1 := by
        rw [chunk_next hps hlt, Nat.mul_div_cancel _ hps]
      have hrest := ih (n - chunk ps addr n) (by omega) (addr + chunk ps addr n) (by omega)
      rw [hpage] at hrest
      rw [pageCount_of_chunk_lt hps hlt, List.range'_succ]
      cases hallowed : allowed (addr / ps) with
      | true =>
        rw [List.find?_cons_of_neg (by simp [hallowed]), hrest]
        rfl
      | false =>
        rw [List.find?_cons_of_pos (by simp [hallowed])]
        rfl
    · rw [pageCount_of_chunk_eq hps hn heq, heq, Nat.sub_self, firstDenied_zero]
      cases hallowed : allowed (addr / ps) <;> simp [hallowed]

end Paged
