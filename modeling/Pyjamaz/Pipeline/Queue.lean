import Mathlib.Data.List.Perm.Subperm
import Pyjamaz.Library.Sums
import Pyjamaz.Pipeline.Reports

/-!
# Editing, ordering and turning the queue

What the functions over the accumulation queue do to the packages in it.  An edit keeps the entries
whose package is not accumulated and takes the accumulated packages from their dependencies.  The
priority order lists entries of the queue, each at most once (`PriorityCalls.hashes_subperm`), and so
the reports to accumulate are available or queued ones (`hashes_accumulatable_subperm`).  The turn
of the queue writes each slot exactly once (`getElem?_accumulationQueue`): the index that the loop
runs through is its own inverse.
-/

namespace Pipeline

open Accumulation
open scoped List

/-! ## Edits -/

@[simp] lemma mem_remaining {dependencies accumulated : List Octets32} {h : Octets32} :
    h ∈ remaining dependencies accumulated ↔ h ∈ dependencies ∧ h ∉ accumulated := by
  simp [remaining]

lemma mem_editQueue {queue : List QueueEntry} {accumulated : List Octets32} {e : QueueEntry} :
    e ∈ editQueue queue accumulated ↔ ∃ e₀ ∈ queue, e₀.report.packageHash ∉ accumulated ∧
      e = ⟨e₀.report, remaining e₀.dependencies accumulated⟩ := by
  simp only [editQueue, List.mem_map, List.mem_filter, decide_eq_true_eq]
  constructor
  · rintro ⟨e₀, ⟨hmem, hnot⟩, rfl⟩
    exact ⟨e₀, hmem, hnot, rfl⟩
  · rintro ⟨e₀, hmem, hnot, rfl⟩
    exact ⟨e₀, ⟨hmem, hnot⟩, rfl⟩

lemma entryHashes_editQueue (queue : List QueueEntry) (accumulated : List Octets32) :
    entryHashes (editQueue queue accumulated) =
      (entryHashes queue).filter (· ∉ accumulated) := by
  rw [entryHashes, entryHashes, editQueue, List.map_map, List.filter_map]
  rfl

@[simp] lemma entryHashes_append (queue queue' : List QueueEntry) :
    entryHashes (queue ++ queue') = entryHashes queue ++ entryHashes queue' :=
  List.map_append

@[simp] lemma entryHashes_map_dependencies (reports : List Report) :
    entryHashes (reports.map workReportDependencies) = hashes reports := by
  rw [entryHashes, List.map_map]
  rfl

@[simp] lemma hashes_append (reports reports' : List Report) :
    hashes (reports ++ reports') = hashes reports ++ hashes reports' :=
  List.map_append

@[simp] lemma mem_workReportMapping {reports : List Report} {h : Octets32} :
    h ∈ workReportMapping reports ↔ h ∈ hashes reports := by
  rw [workReportMapping, List.mem_dedup]

/-! ## The priority order -/

lemma hashes_unblocked (queue : List QueueEntry) :
    hashes (unblocked queue) =
      entryHashes (queue.filter (fun e => e.dependencies.length = 0)) := by
  rw [hashes, unblocked, List.map_map]
  rfl

/-- The entries that wait for nothing, and what is left of the queue without them, are a part of
the queue. -/
lemma unblocked_append_editQueue (queue : List QueueEntry) :
    hashes (unblocked queue) ++
      entryHashes (editQueue queue (workReportMapping (unblocked queue))) <+~
      entryHashes queue := by
  have hrest : entryHashes (editQueue queue (workReportMapping (unblocked queue))) <+~
      entryHashes (queue.filter (fun e => !decide (e.dependencies.length = 0))) := by
    -- an entry that waits for nothing is not among the rest, its package being listed
    have himp : ∀ e ∈ queue.filter
        (fun e => decide (e.report.packageHash ∉ workReportMapping (unblocked queue))),
        (!decide (e.dependencies.length = 0)) = true := by
      intro e he
      rw [List.mem_filter, decide_eq_true_eq] at he
      rw [Bool.not_eq_true', decide_eq_false_iff_not]
      intro hzero
      apply he.2
      rw [mem_workReportMapping, hashes_unblocked]
      exact List.mem_map_of_mem (List.mem_filter.mpr ⟨he.1, decide_eq_true hzero⟩)
    have hsub : queue.filter
        (fun e => decide (e.report.packageHash ∉ workReportMapping (unblocked queue))) <+
        queue.filter (fun e => !decide (e.dependencies.length = 0)) := by
      rw [← List.filter_eq_self.mpr himp]
      exact List.filter_sublist.filter _
    rw [entryHashes, editQueue, List.map_map]
    exact (hsub.map _).subperm
  have hsplit := List.filter_append_perm (fun e : QueueEntry => e.dependencies.length = 0) queue
  rw [hashes_unblocked]
  refine (List.Subperm.append (List.Subperm.refl _) hrest).trans ?_
  rw [← entryHashes_append]
  exact (hsplit.map _).subperm

lemma length_unblocked_add (queue : List QueueEntry) :
    (unblocked queue).length +
      (editQueue queue (workReportMapping (unblocked queue))).length ≤ queue.length := by
  have h := (unblocked_append_editQueue queue).length_le
  simpa only [List.length_append, hashes, entryHashes, List.length_map] using h

/-- The calls of `priority_queue` that list something, each with what it lists. -/
inductive PriorityCalls : List QueueEntry → List (List Report) → Prop
  | stop {queue : List QueueEntry} (h : (unblocked queue).length = 0) : PriorityCalls queue []
  | call {queue : List QueueEntry} {rest : List (List Report)} (h : (unblocked queue).length ≠ 0)
      (hrest : PriorityCalls (editQueue queue (workReportMapping (unblocked queue))) rest) :
      PriorityCalls queue (unblocked queue :: rest)

/-- The calls come to an end, each of them having dropped an entry of the queue. -/
lemma exists_priorityCalls (queue : List QueueEntry) :
    ∃ calls, PriorityCalls queue calls ∧ calls.length ≤ queue.length := by
  induction hn : queue.length using Nat.strong_induction_on generalizing queue with
  | _ n ih =>
    by_cases hzero : (unblocked queue).length = 0
    · exact ⟨[], .stop hzero, Nat.zero_le _⟩
    · have hlength := length_unblocked_add queue
      obtain ⟨rest, hrest, hle⟩ := ih _ (by omega)
        (editQueue queue (workReportMapping (unblocked queue))) rfl
      refine ⟨_, .call hzero hrest, ?_⟩
      rw [List.length_cons]
      omega

/-- What `priority_queue` returns: each call takes a nested one, the last one that lists nothing
too. -/
lemma PriorityCalls.priorityQueue_eq {queue : List QueueEntry} {calls : List (List Report)}
    (h : PriorityCalls queue calls) : ∀ depth, priorityQueue depth queue =
      if calls.length < depth then .ok calls.flatten else .error .recursionError := by
  induction h with
  | stop hzero =>
    rintro (_ | depth)
    · rfl
    · rw [priorityQueue, if_pos hzero, List.length_nil, if_pos (Nat.succ_pos depth)]
      rfl
  | @call queue rest hne _ ih =>
    rintro (_ | depth)
    · rfl
    · rw [priorityQueue, if_neg hne, ih depth, List.length_cons]
      by_cases hlt : rest.length < depth
      · rw [if_pos hlt, if_pos (Nat.succ_lt_succ hlt)]
        rfl
      · rw [if_neg hlt, if_neg (fun h => hlt (Nat.succ_lt_succ_iff.mp h))]
        rfl

lemma priorityQueue_eq_ok {depth : ℕ} {queue : List QueueEntry} {reports : List Report}
    (h : priorityQueue depth queue = .ok reports) :
    ∃ calls, PriorityCalls queue calls ∧ reports = calls.flatten := by
  obtain ⟨calls, hcalls, -⟩ := exists_priorityCalls queue
  rw [hcalls.priorityQueue_eq] at h
  split_ifs at h
  exact ⟨calls, hcalls, (Except.ok.inj h).symm⟩

/-- The priority order lists packages of the queue, each as often as the queue does at most. -/
lemma PriorityCalls.hashes_subperm {queue : List QueueEntry} {calls : List (List Report)}
    (h : PriorityCalls queue calls) : hashes calls.flatten <+~ entryHashes queue := by
  induction h with
  | stop => exact List.nil_subperm
  | call _ _ ih =>
    rw [List.flatten_cons, hashes_append]
    exact ((List.Subperm.refl _).append ih).trans (unblocked_append_editQueue _)

/-- What is listed is a report of an entry. -/
lemma PriorityCalls.exists_of_mem {queue : List QueueEntry} {calls : List (List Report)}
    {w : Report} (h : PriorityCalls queue calls) (hmem : w ∈ calls.flatten) :
    ∃ e ∈ queue, e.report = w := by
  induction h with
  | stop => exact absurd hmem List.not_mem_nil
  | call _ _ ih =>
    rw [List.flatten_cons, List.mem_append] at hmem
    rcases hmem with hmem | hmem
    · obtain ⟨e, he, rfl⟩ := List.mem_map.mp hmem
      exact ⟨e, (List.mem_filter.mp he).1, rfl⟩
    · obtain ⟨e, he, rfl⟩ := ih hmem
      obtain ⟨e₀, he₀, -, rfl⟩ := mem_editQueue.mp he
      exact ⟨e₀, he₀, rfl⟩

/-! ## The reports to accumulate -/

lemma readyWorkReports_append_perm (available : List Report) :
    hashes (readyWorkReports available) ++ hashes (available.filter (fun w => !w.isReady)) ~
      hashes available := by
  rw [← hashes_append]
  exact (List.filter_append_perm (fun w : Report => w.isReady) available).map _

lemma entryHashes_queuedWorkReports (available : List Report) (history : List (List Octets32)) :
    entryHashes (queuedWorkReports available history) =
      (hashes (available.filter (fun w => !w.isReady))).filter (· ∉ history.flatten) := by
  rw [queuedWorkReports, entryHashes_editQueue, entryHashes_map_dependencies]

lemma flatten_rotate_perm {α : Type} (queue : List (List α)) (m : ℕ) :
    (queue.drop m).flatten ++ (queue.take m).flatten ~ queue.flatten := by
  rw [← List.flatten_append]
  exact (List.perm_append_comm.trans (by rw [List.take_append_drop])).flatten

lemma setAccumulatable_eq_ok {depth m : ℕ} {ready reports : List Report}
    {queued : List QueueEntry} {queue : List (List QueueEntry)}
    (h : setAccumulatableWorkReports depth ready queued queue m = .ok reports) :
    ∃ calls, PriorityCalls (editQueue (queueEntries queue queued m) (workReportMapping ready)) calls ∧
      reports = ready ++ calls.flatten := by
  rw [setAccumulatableWorkReports] at h
  cases hqueue : priorityQueue depth
      (editQueue (queueEntries queue queued m) (workReportMapping ready)) with
  | error e =>
    rw [hqueue] at h
    cases h
  | ok listed =>
    rw [hqueue] at h
    cases h
    obtain ⟨calls, hcalls, rfl⟩ := priorityQueue_eq_ok hqueue
    exact ⟨calls, hcalls, rfl⟩

section Accumulatable

variable {cfg : Config} {s : State} {b : Block} {available accumulatable : List Report}
  (haccumulatable : blockAccumulatable cfg s b available = .ok accumulatable)
include haccumulatable

/-- The ready reports come first. -/
lemma blockAccumulatable_eq_append : ∃ rest, accumulatable = readyWorkReports available ++ rest := by
  obtain ⟨calls, -, rfl⟩ := setAccumulatable_eq_ok haccumulatable
  exact ⟨_, rfl⟩

/-- The packages to accumulate are available or queued ones, each at most once. -/
lemma hashes_accumulatable_subperm :
    hashes accumulatable <+~ hashes available ++ entryHashes s.accumulationQueue.flatten := by
  obtain ⟨calls, hcalls, rfl⟩ := setAccumulatable_eq_ok haccumulatable
  have hqueued : entryHashes (queuedWorkReports available s.accumulationHistory) <+~
      hashes (available.filter (fun w => !w.isReady)) := by
    rw [entryHashes_queuedWorkReports]
    exact List.filter_sublist.subperm
  have hpriority : hashes calls.flatten <+~ entryHashes s.accumulationQueue.flatten ++
      hashes (available.filter (fun w => !w.isReady)) := by
    refine hcalls.hashes_subperm.trans ?_
    rw [entryHashes_editQueue, queueEntries, entryHashes_append]
    exact List.filter_sublist.subperm.trans
      (((flatten_rotate_perm s.accumulationQueue _).map _).subperm.append hqueued)
  rw [hashes_append]
  refine (((List.Subperm.refl _).append hpriority).trans
    ((List.Perm.refl _).append List.perm_append_comm).subperm).trans ?_
  rw [← List.append_assoc]
  exact ((readyWorkReports_append_perm available).append_right _).subperm

/-- A report to accumulate is available or the report of a queued entry. -/
lemma mem_accumulatable {w : Report} (hmem : w ∈ accumulatable) :
    w ∈ available ∨ ∃ e ∈ s.accumulationQueue.flatten, e.report = w := by
  obtain ⟨calls, hcalls, rfl⟩ := setAccumulatable_eq_ok haccumulatable
  rw [List.mem_append] at hmem
  rcases hmem with hmem | hmem
  · exact .inl (List.mem_filter.mp hmem).1
  · obtain ⟨e, he, rfl⟩ := hcalls.exists_of_mem hmem
    obtain ⟨e₀, he₀, -, rfl⟩ := mem_editQueue.mp he
    rw [queueEntries, List.mem_append, (flatten_rotate_perm s.accumulationQueue _).mem_iff] at he₀
    rcases he₀ with he₀ | he₀
    · exact .inr ⟨e₀, he₀, rfl⟩
    · obtain ⟨e₁, he₁, -, rfl⟩ := mem_editQueue.mp he₀
      obtain ⟨w, hw, rfl⟩ := List.mem_map.mp he₁
      exact .inl (List.mem_filter.mp hw).1

end Accumulatable

/-! ## The turn of the queue -/

lemma ringIndex_lt {size m i : ℕ} (hm : m < size) (hi : i < size) : ringIndex size m i < size := by
  unfold ringIndex
  split
  · omega
  · omega

/-- The index `m - i` of the index `m - i` is `i`. -/
lemma ringIndex_ringIndex {size m i : ℕ} (hm : m < size) (hi : i < size) :
    ringIndex size m (ringIndex size m i) = i := by
  unfold ringIndex
  split
  · split
    · omega
    · omega
  · split
    · omega
    · omega

/-- The offset `i` reaches the slot of the time `slot - i`. -/
lemma ringIndex_eq_mod {size slot i : ℕ} (hi : i < size) (hle : i ≤ slot) :
    ringIndex size (slot % size) i = (slot - i) % size := by
  have hmod := Nat.mod_lt slot (by omega : 0 < size)
  have hdiv := Nat.div_add_mod slot size
  unfold ringIndex
  split
  next h =>
    have hsub : slot - i = (slot % size - i) + size * (slot / size) := by omega
    have hlt : slot % size - i < size := by omega
    rw [hsub, Nat.add_mul_mod_self_left, Nat.mod_eq_of_lt hlt]
  next h =>
    have hpos : 0 < slot / size := by
      rw [Nat.div_pos_iff]
      by_contra hneg
      rw [Nat.mod_eq_of_lt (by omega)] at h
      omega
    obtain ⟨q, hq⟩ := Nat.exists_eq_succ_of_ne_zero hpos.ne'
    rw [hq, Nat.mul_succ] at hdiv
    have hsub : slot - i = (size + slot % size - i) + size * q := by omega
    have hlt : size + slot % size - i < size := by omega
    rw [hsub, Nat.add_mul_mod_self_left, Nat.mod_eq_of_lt hlt]

lemma length_foldl_set {α : Type} (index : ℕ → ℕ) (value : ℕ → α) (offsets : List ℕ) :
    ∀ start : List α,
      (offsets.foldl (fun q i => q.set (index i) (value i)) start).length = start.length := by
  induction offsets with
  | nil =>
    intro start
    rfl
  | cons i offsets ih =>
    intro start
    rw [List.foldl_cons, ih, List.length_set]

/-- A loop that writes at an index which is its own inverse writes each place once. -/
lemma getElem?_foldl_set {α : Type} {size : ℕ} {index : ℕ → ℕ} (value : ℕ → α) (start : List α)
    (hlength : start.length = size) (hlt : ∀ i < size, index i < size)
    (hinv : ∀ i < size, index (index i) = i) {n : ℕ} (hn : n ≤ size) {j : ℕ} (hj : j < size) :
    ((List.range n).foldl (fun q i => q.set (index i) (value i)) start)[j]? =
      if index j < n then some (value (index j)) else start[j]? := by
  induction n with
  | zero => rfl
  | succ n ih =>
    have hsize := length_foldl_set index value (List.range n) start
    rw [List.range_succ, List.foldl_append, List.foldl_cons, List.foldl_nil]
    by_cases hcase : index n = j
    · subst hcase
      rw [List.getElem?_set_self (by rw [hsize, hlength]; exact hlt n (by omega)),
        hinv n (by omega), if_pos (Nat.lt_succ_self n)]
    · have hne : index j ≠ n := by
        rintro rfl
        exact hcase (hinv j hj)
      rw [List.getElem?_set_ne hcase, ih (by omega)]
      by_cases hlt' : index j < n
      · rw [if_pos hlt', if_pos (by omega)]
      · rw [if_neg hlt', if_neg (by omega)]

section Turn

variable (cfg : Config) (queued : List QueueEntry) (queue : List (List QueueEntry))
  (history : List (List Octets32)) (pre post : ℕ)

@[simp] lemma length_accumulationQueue :
    (accumulationQueue cfg queued queue history pre post).length = cfg.epochTimeslots := by
  rw [accumulationQueue, length_foldl_set, List.length_replicate]

/-- Each slot is written once, with the bucket of its offset. -/
lemma getElem?_accumulationQueue {j : ℕ} (hj : j < cfg.epochTimeslots) :
    (accumulationQueue cfg queued queue history pre post)[j]? =
      some (queueBucket queued queue (history.getD (cfg.epochTimeslots - 1) [])
        (post % cfg.epochTimeslots) (post - pre) cfg.epochTimeslots
        (ringIndex cfg.epochTimeslots (post % cfg.epochTimeslots) j)) := by
  have hm := Nat.mod_lt post cfg.epochTimeslots_pos
  rw [accumulationQueue, getElem?_foldl_set _ _ List.length_replicate
    (fun i hi => ringIndex_lt hm hi) (fun i hi => ringIndex_ringIndex hm hi) le_rfl hj,
    if_pos (ringIndex_lt hm hj)]

/-- The offset of a slot is zero only at the new slot. -/
lemma ringIndex_eq_zero_iff {size m j : ℕ} (hj : j < size) :
    ringIndex size m j = 0 ↔ m = j := by
  unfold ringIndex
  split
  · omega
  · omega

/-- What a slot holds is the new bucket at the new slot, and a part of its edited old bucket
elsewhere. -/
lemma count_queueBucket_le (accumulated : List Octets32) {m gap size j : ℕ} (hm : m < size)
    (hj : j < size) (h : Octets32) :
    (entryHashes (queueBucket queued queue accumulated m gap size (ringIndex size m j))).count h ≤
      (if m = j then (entryHashes (editQueue queued accumulated)).count h else 0) +
        (entryHashes (editQueue (queue.getD j []) accumulated)).count h := by
  rw [queueBucket, ringIndex_ringIndex hm hj]
  by_cases hzero : ringIndex size m j = 0
  · rw [if_pos hzero, if_pos ((ringIndex_eq_zero_iff hj).mp hzero)]
    exact Nat.le_add_right _ _
  · rw [if_neg hzero]
    split
    · exact Nat.zero_le _
    · exact Nat.le_add_left _ _

/-- The turned queue as the list of its buckets. -/
lemma accumulationQueue_eq_map :
    accumulationQueue cfg queued queue history pre post =
      (List.range cfg.epochTimeslots).map (fun j =>
        queueBucket queued queue (history.getD (cfg.epochTimeslots - 1) [])
          (post % cfg.epochTimeslots) (post - pre) cfg.epochTimeslots
          (ringIndex cfg.epochTimeslots (post % cfg.epochTimeslots) j)) := by
  apply List.ext_getElem?
  intro j
  by_cases hj : j < cfg.epochTimeslots
  · rw [getElem?_accumulationQueue cfg queued queue history pre post hj, List.getElem?_map,
      List.getElem?_range hj, Option.map_some]
  · rw [List.getElem?_eq_none (by rw [length_accumulationQueue]; omega),
      List.getElem?_eq_none (by rw [List.length_map, List.length_range]; omega)]

lemma count_entryHashes_flatten (buckets : List (List QueueEntry)) (h : Octets32) :
    (entryHashes buckets.flatten).count h =
      (buckets.map (fun b => (entryHashes b).count h)).sum := by
  rw [entryHashes, List.map_flatten, List.count_flatten, List.map_map]
  rfl

/-- The turned queue holds packages of the queued reports and of the old queue that are not
accumulated, each as often as these do at most. -/
lemma entryHashes_accumulationQueue_subperm (hlength : queue.length = cfg.epochTimeslots) :
    entryHashes (accumulationQueue cfg queued queue history pre post).flatten <+~
      (entryHashes queued ++ entryHashes queue.flatten).filter
        (· ∉ history.getD (cfg.epochTimeslots - 1) []) := by
  set accumulated := history.getD (cfg.epochTimeslots - 1) [] with haccumulated
  have hm := Nat.mod_lt post cfg.epochTimeslots_pos
  have hold : queue.map (fun b => editQueue b accumulated) =
      (List.range cfg.epochTimeslots).map (fun j => editQueue (queue.getD j []) accumulated) := by
    apply List.ext_getElem (by simp [hlength])
    intro j hj hj'
    rw [List.length_map] at hj
    simp [List.getElem?_eq_getElem hj]
  have hflatten : (queue.map (fun b => editQueue b accumulated)).flatten =
      editQueue queue.flatten accumulated := by
    rw [editQueue, List.filter_flatten, List.map_flatten, List.map_map]
    rfl
  rw [List.subperm_ext_iff]
  intro h _
  rw [List.filter_append, List.count_append, ← entryHashes_editQueue, ← entryHashes_editQueue,
    ← hflatten, hold, count_entryHashes_flatten, count_entryHashes_flatten,
    accumulationQueue_eq_map, List.map_map, List.map_map]
  -- slot by slot, the new bucket being counted at one slot only
  calc ((List.range cfg.epochTimeslots).map _).sum
      ≤ ((List.range cfg.epochTimeslots).map (fun j =>
          (if post % cfg.epochTimeslots = j then
            (entryHashes (editQueue queued accumulated)).count h else 0) +
          (entryHashes (editQueue (queue.getD j []) accumulated)).count h)).sum := by
        apply List.sum_le_sum
        intro j hj
        exact count_queueBucket_le queued queue accumulated hm (List.mem_range.mp hj) h
    _ ≤ _ := by
        rw [List.sum_map_add]
        exact Nat.add_le_add_right (sum_map_ite_le List.nodup_range _ _) _

/-- The new bucket is the last one of the history. -/
lemma getD_accumulationHistory {cfg : Config} {history : List (List Octets32)}
    (hlength : history.length = cfg.epochTimeslots) (reports : List Report) (n : ℕ) :
    (accumulationHistory reports history n).getD (cfg.epochTimeslots - 1) [] =
      sortedHashes (workReportMapping (reports.take n)) := by
  have hpos := cfg.epochTimeslots_pos
  have htail : history.tail.length = cfg.epochTimeslots - 1 := by
    rw [List.length_tail, hlength]
  rw [accumulationHistory, ← htail, List.getD_eq_getElem?_getD, List.getElem?_concat_length,
    Option.getD_some]

end Turn

end Pipeline
