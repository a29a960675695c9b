import Pyjamaz.Pipeline.Distinct
import Pyjamaz.Pipeline.Layers

/-!
# Edits of the queue compose

An entry of the queue is edited many times: against the whole history when its report is queued, then
against the last bucket of the history with every block, and against the ready reports when the
reports to accumulate are chosen.  That nothing is missed in this way, and nothing depends on when
an edit is made, is the composition law: edits by some packages and then by others are one edit by all
of them (`editQueue_editQueue`).  The dependencies come out equal, not only as sets, because an edit
leaves them sorted.

So what a slot of the queue holds after a run of blocks is what was queued there, edited at once by the
history it was queued with and all packages that have been accumulated since (`SlotAfter`).
-/

namespace Pipeline

open Accumulation Octets
open scoped List

/-! ## Sorted sets of hashes -/

/-- The number of a hash is its little-endian number read backwards. -/
lemma bigEndian_eq (h : Octets32) : bigEndian h = ofLittleEndian h.toList.reverse := by
  have hfoldr : ∀ bs : Octets, ofLittleEndian bs =
      bs.foldr (fun b n => 256 * n + b.toNat) 0 := by
    intro bs
    induction bs with
    | nil => rfl
    | cons b bs ih => rw [ofLittleEndian, List.foldr_cons, ih, add_comm]
  rw [bigEndian, hfoldr, List.foldr_reverse]

/-- Hashes are ordered by different numbers. -/
lemma bigEndian_inj {h h' : Octets32} (heq : bigEndian h = bigEndian h') : h = h' := by
  rw [bigEndian_eq, bigEndian_eq] at heq
  have hreverse := ofLittleEndian_inj (by simp) heq
  exact Vector.toList_inj.mp (List.reverse_inj.mp hreverse)

lemma pairwise_sortedHashes (hs : List Octets32) :
    (sortedHashes hs).Pairwise (fun a b => bigEndian a ≤ bigEndian b) := by
  have htotal : Std.Total (fun a b : Octets32 => bigEndian a ≤ bigEndian b) :=
    ⟨fun a b => le_total (bigEndian a) (bigEndian b)⟩
  have htrans : IsTrans Octets32 (fun a b => bigEndian a ≤ bigEndian b) :=
    ⟨fun a b c hab hbc => le_trans hab hbc⟩
  exact List.pairwise_insertionSort _ hs

/-- A set of hashes has one sorted list. -/
lemma sortedHashes_dedup_congr {hs hs' : List Octets32} (h : ∀ x, x ∈ hs ↔ x ∈ hs') :
    sortedHashes hs.dedup = sortedHashes hs'.dedup := by
  have hperm : sortedHashes hs.dedup ~ sortedHashes hs'.dedup := by
    rw [List.perm_ext_iff_of_nodup (nodup_sortedHashes.mpr (List.nodup_dedup hs))
      (nodup_sortedHashes.mpr (List.nodup_dedup hs'))]
    intro x
    rw [mem_sortedHashes, mem_sortedHashes, List.mem_dedup, List.mem_dedup, h]
  exact hperm.eq_of_pairwise (fun a b _ _ hab hba => bigEndian_inj (le_antisymm hab hba))
    (pairwise_sortedHashes _) (pairwise_sortedHashes _)

/-! ## Two edits are one -/

/-- Only the set of the accumulated packages matters. -/
lemma remaining_congr (dependencies : List Octets32) {A B : List Octets32} (h : ∀ x, x ∈ A ↔ x ∈ B) :
    remaining dependencies A = remaining dependencies B := by
  apply sortedHashes_dedup_congr
  intro x
  rw [List.mem_filter, List.mem_filter, decide_eq_true_eq, decide_eq_true_eq, h]

lemma remaining_remaining (dependencies A B : List Octets32) :
    remaining (remaining dependencies A) B = remaining dependencies (A ++ B) := by
  apply sortedHashes_dedup_congr
  intro x
  rw [List.mem_filter, List.mem_filter, mem_remaining, decide_eq_true_eq, decide_eq_true_eq,
    List.mem_append, not_or, and_assoc]

lemma editQueue_congr (queue : List QueueEntry) {A B : List Octets32} (h : ∀ x, x ∈ A ↔ x ∈ B) :
    editQueue queue A = editQueue queue B := by
  rw [editQueue, editQueue]
  have hfilter : queue.filter (fun e => e.report.packageHash ∉ A) =
      queue.filter (fun e => e.report.packageHash ∉ B) := by
    apply List.filter_congr
    intro e _
    rw [decide_eq_decide, h]
  rw [hfilter]
  apply List.map_congr_left
  intro e _
  rw [remaining_congr e.dependencies h]

/-- An edit by some packages and then by others is one edit by all of them. -/
lemma editQueue_editQueue (queue : List QueueEntry) (A B : List Octets32) :
    editQueue (editQueue queue A) B = editQueue queue (A ++ B) := by
  simp only [editQueue, List.filter_map, List.map_map, List.filter_filter]
  have hfilter : queue.filter (fun e => decide (e.report.packageHash ∉ B) &&
      decide (e.report.packageHash ∉ A)) = queue.filter (fun e => e.report.packageHash ∉ A ++ B) := by
    apply List.filter_congr
    intro e _
    rw [← Bool.decide_and, decide_eq_decide, List.mem_append, not_or, and_comm]
  simp only [Function.comp_def, remaining_remaining]
  rw [hfilter]

lemma editQueue_append (queue queue' : List QueueEntry) (A : List Octets32) :
    editQueue (queue ++ queue') A = editQueue queue A ++ editQueue queue' A := by
  rw [editQueue, List.filter_append, List.map_append]
  rfl

lemma editQueue_self (queue : List QueueEntry) (A : List Octets32) :
    editQueue (editQueue queue A) A = editQueue queue A := by
  rw [editQueue_editQueue]
  apply editQueue_congr
  intro x
  rw [List.mem_append, or_self]

/-- The reports that are left are in their old order. -/
lemma report_editQueue (queue : List QueueEntry) (A : List Octets32) :
    (editQueue queue A).map QueueEntry.report =
      (queue.map QueueEntry.report).filter (fun w => w.packageHash ∉ A) := by
  rw [editQueue, List.map_map, List.filter_map]
  rfl

/-- Edits one after another are one edit. -/
lemma foldl_editQueue (queue : List QueueEntry) (A : List Octets32) (buckets : List (List Octets32)) :
    buckets.foldl editQueue (editQueue queue A) = editQueue queue (A ++ buckets.flatten) := by
  induction buckets generalizing A with
  | nil => rw [List.foldl_nil, List.flatten_nil, List.append_nil]
  | cons bucket buckets ih =>
    rw [List.foldl_cons, editQueue_editQueue, ih, List.flatten_cons, List.append_assoc]

/-! ## The queue over a run -/

section Runs

variable (cfg : Config) (reportHash : Report → Octets32) (otherChecks : State → Block → Bool)

/-- A run of accepted blocks, with the packages that each of them has accumulated. -/
inductive RecordedRun : State → List (List Octets32) → State → Prop
  | none (s : State) : RecordedRun s [] s
  | block {s s' s'' : State} {buckets : List (List Octets32)} {b : Block}
      (hrun : RecordedRun s buckets s') (hblock : applyBlock cfg reportHash otherChecks s' b = .ok s'') :
      RecordedRun s (buckets ++ [s''.accumulationHistory.getD (cfg.epochTimeslots - 1) []]) s''

/-- What a slot holds after a run: what it held before, edited at once by all packages of the run; or
what was queued in a block, edited at once by the history of that time and the packages since. -/
inductive SlotAfter (s : State) (buckets : List (List Octets32)) (slot : ℕ) :
    List QueueEntry → Prop
  | kept : SlotAfter s buckets slot
      (editQueue (s.accumulationQueue.getD slot []) buckets.flatten)
  | queued (block : ℕ) (hblock : block < buckets.length) (reports : List Report) :
      SlotAfter s buckets slot (editQueue (reports.map workReportDependencies)
        ((s.accumulationHistory ++ buckets).drop block).flatten)
  | dropped : SlotAfter s buckets slot []

/-- The history and the queue have a bucket for every slot of an epoch. -/
structure FullEpoch (s : State) : Prop where
  history : s.accumulationHistory.length = cfg.epochTimeslots
  queue : s.accumulationQueue.length = cfg.epochTimeslots

variable {cfg reportHash otherChecks} {s s' : State} {b : Block} {buckets : List (List Octets32)}

lemma Empty.fullEpoch (h : Empty cfg s) : FullEpoch cfg s := by
  constructor
  · rw [h.accumulationHistory, List.length_replicate]
  · rw [h.accumulationQueue, List.length_replicate]

/-- A block drops the oldest bucket of the history and appends one. -/
lemma accumulationHistory_of_applyBlock (hs : FullEpoch cfg s)
    (hblock : applyBlock cfg reportHash otherChecks s b = .ok s') :
    s'.accumulationHistory = s.accumulationHistory.tail ++
      [s'.accumulationHistory.getD (cfg.epochTimeslots - 1) []] := by
  obtain ⟨-, available, kept, accumulatable, -, -, -, rfl⟩ := applyBlock_eq_ok hblock
  simp only [postState]
  rw [getD_accumulationHistory hs.history]
  rfl

lemma FullEpoch.applyBlock (hs : FullEpoch cfg s)
    (hblock : applyBlock cfg reportHash otherChecks s b = .ok s') : FullEpoch cfg s' := by
  constructor
  · have hpos := cfg.epochTimeslots_pos
    have hlength := hs.history
    rw [accumulationHistory_of_applyBlock hs hblock, List.length_append, List.length_tail,
      List.length_singleton]
    omega
  · obtain ⟨-, available, kept, accumulatable, -, -, -, rfl⟩ := applyBlock_eq_ok hblock
    exact length_accumulationQueue _ _ _ _ _ _

/-- The history after a run is the end of all buckets. -/
lemma RecordedRun.history (hs : FullEpoch cfg s)
    (hrun : RecordedRun cfg reportHash otherChecks s buckets s') :
    FullEpoch cfg s' ∧
      s'.accumulationHistory = (s.accumulationHistory ++ buckets).drop buckets.length := by
  induction hrun with
  | none =>
    rw [List.append_nil]
    exact ⟨hs, rfl⟩
  | @block s' s'' buckets b _ hblock ih =>
    obtain ⟨hs', hhistory⟩ := ih
    have hpos := cfg.epochTimeslots_pos
    have hlength : buckets.length + 1 ≤ (s.accumulationHistory ++ buckets).length := by
      rw [List.length_append, hs.history]
      omega
    refine ⟨hs'.applyBlock hblock, ?_⟩
    have hturn := accumulationHistory_of_applyBlock hs' hblock
    generalize s''.accumulationHistory.getD (cfg.epochTimeslots - 1) [] = bucket at hturn ⊢
    rw [hturn, hhistory, List.tail_drop, List.length_append, List.length_singleton, ← List.append_assoc,
      List.drop_append_of_le_length hlength]

/-! ## Slots -/

/-- A later block edits what a slot holds. -/
lemma SlotAfter.edit {slot : ℕ} {content : List QueueEntry} (h : SlotAfter s buckets slot content)
    (bucket : List Octets32) :
    SlotAfter s (buckets ++ [bucket]) slot (editQueue content bucket) := by
  cases h with
  | kept =>
    rw [editQueue_editQueue, ← List.flatten_concat]
    exact .kept
  | queued block hblock reports =>
    have hle : block ≤ (s.accumulationHistory ++ buckets).length := by
      rw [List.length_append]
      omega
    rw [editQueue_editQueue, ← List.flatten_concat, ← List.drop_append_of_le_length hle,
      List.append_assoc]
    refine .queued block ?_ reports
    rw [List.length_append]
    omega
  | dropped => exact .dropped

/-- What a block writes to a slot. -/
lemma slot_of_applyBlock {slot : ℕ} (hslot : slot < cfg.epochTimeslots)
    (hblock : applyBlock cfg reportHash otherChecks s b = .ok s') :
    ∃ reports : List Report, let bucket := s'.accumulationHistory.getD (cfg.epochTimeslots - 1) []
      s'.accumulationQueue.getD slot [] = editQueue (s.accumulationQueue.getD slot []) bucket ∨
      s'.accumulationQueue.getD slot [] = [] ∨
      s'.accumulationQueue.getD slot [] = editQueue (reports.map workReportDependencies)
        (s.accumulationHistory.flatten ++ bucket) := by
  obtain ⟨-, available, kept, accumulatable, -, -, -, rfl⟩ := applyBlock_eq_ok hblock
  refine ⟨available.filter (fun w => !w.isReady), ?_⟩
  have hm := Nat.mod_lt b.timeslot cfg.epochTimeslots_pos
  simp only [postState]
  rw [List.getD_eq_getElem?_getD, getElem?_accumulationQueue _ _ _ _ _ _ hslot, Option.getD_some,
    queueBucket, ringIndex_ringIndex hm hslot]
  split
  · right
    right
    rw [queuedWorkReports, editQueue_editQueue]
  · split
    · exact .inr (.inl rfl)
    · exact .inl rfl

/-- A run edits what was queued block by block, which is to edit it at once. -/
lemma RecordedRun.slotAfter (hs : FullEpoch cfg s)
    (hrun : RecordedRun cfg reportHash otherChecks s buckets s') :
    (buckets = [] ∧ s' = s) ∨ ∀ slot < cfg.epochTimeslots,
      SlotAfter s buckets slot (s'.accumulationQueue.getD slot []) := by
  induction hrun with
  | none => exact .inl ⟨rfl, rfl⟩
  | @block s' s'' buckets b hrun hblock ih =>
    right
    intro slot hslot
    obtain ⟨reports, hkept | hdropped | hqueued⟩ := slot_of_applyBlock hslot hblock
    · rw [hkept]
      rcases ih with ⟨rfl, rfl⟩ | ih
      · generalize s''.accumulationHistory.getD (cfg.epochTimeslots - 1) [] = bucket
        have hfirst : bucket = ([] ++ [bucket]).flatten := List.flatten_singleton.symm
        conv => rhs; rw [hfirst]
        exact .kept
      · exact (ih slot hslot).edit _
    · rw [hdropped]
      exact .dropped
    · obtain ⟨-, hhistory⟩ := hrun.history hs
      have hle : buckets.length ≤ (s.accumulationHistory ++ buckets).length := by
        rw [List.length_append]
        omega
      rw [hqueued, hhistory, ← List.flatten_concat, ← List.drop_append_of_le_length hle,
        List.append_assoc]
      refine .queued buckets.length ?_ reports
      rw [List.length_append, List.length_singleton]
      omega

/-- From an empty pipeline on, no entry waits for a package in the history. -/
lemma RecordedRun.not_mem_history (hempty : Empty cfg s)
    (hrun : RecordedRun cfg reportHash otherChecks s buckets s') {e : QueueEntry}
    (he : e ∈ s'.accumulationQueue.flatten) {d : Octets32} (hd : d ∈ e.dependencies) :
    d ∉ s'.accumulationHistory.flatten := by
  obtain ⟨hs', hhistory⟩ := hrun.history hempty.fullEpoch
  obtain ⟨content, hcontent, he⟩ := List.mem_flatten.mp he
  obtain ⟨slot, hslot, rfl⟩ := List.getElem_of_mem hcontent
  rw [List.getElem_eq_getD []] at he
  rw [hs'.queue] at hslot
  have hnil : s.accumulationQueue.getD slot [] = [] := by
    rw [hempty.accumulationQueue, List.getD_eq_getElem?_getD, List.getElem?_replicate_of_lt hslot]
    rfl
  rcases hrun.slotAfter hempty.fullEpoch with ⟨-, rfl⟩ | hslots
  · rw [hnil] at he
    exact absurd he List.not_mem_nil
  · have hafter := hslots slot hslot
    generalize s'.accumulationQueue.getD slot [] = content at hafter he
    cases hafter with
    | kept =>
      rw [hnil] at he
      exact absurd he List.not_mem_nil
    | queued block hblock reports =>
      obtain ⟨e₀, -, -, rfl⟩ := mem_editQueue.mp he
      have hsub : (s.accumulationHistory ++ buckets).drop buckets.length <+
          (s.accumulationHistory ++ buckets).drop block := List.drop_sublist_drop_left _ hblock.le
      intro hmem
      rw [hhistory] at hmem
      exact (mem_remaining.mp hd).2 (hsub.flatten.subset hmem)
    | dropped => exact absurd he List.not_mem_nil

end Runs

/-- Edits compose, and an edit by the same packages changes nothing more; an edit keeps the order of the
entries and can be made of the parts of a queue.  Edits by one bucket after another are therefore one
edit by all of them, and so it is in a run of blocks: the history is the end of what was accumulated,
every slot holds what was queued there without the packages of the history of that time and those
accumulated since, and after a start with nothing in the pipeline no entry waits for a package in the
history. -/
theorem edit_queue_composes :
    (∀ (queue : List QueueEntry) (A B union : List Octets32), (∀ h, h ∈ union ↔ h ∈ A ∨ h ∈ B) →
      editQueue (editQueue queue A) B = editQueue queue union) ∧
    (∀ (queue : List QueueEntry) (A : List Octets32),
      editQueue (editQueue queue A) A = editQueue queue A) ∧
    (∀ (queue : List QueueEntry) (A : List Octets32), (editQueue queue A).map QueueEntry.report =
      (queue.map QueueEntry.report).filter (fun w => w.packageHash ∉ A)) ∧
    (∀ (queue queue' : List QueueEntry) (A : List Octets32),
      editQueue (queue ++ queue') A = editQueue queue A ++ editQueue queue' A) ∧
    (∀ (queue : List QueueEntry) (history : List Octets32) (buckets : List (List Octets32)),
      buckets.foldl editQueue (editQueue queue history) =
        editQueue queue (history ++ buckets.flatten)) ∧
    ∀ (cfg : Config) (reportHash : Report → Octets32) (otherChecks : State → Block → Bool)
      (s s' : State) (buckets : List (List Octets32)), FullEpoch cfg s →
      RecordedRun cfg reportHash otherChecks s buckets s' →
      s'.accumulationHistory = (s.accumulationHistory ++ buckets).drop buckets.length ∧
      (buckets ≠ [] → ∀ slot < cfg.epochTimeslots,
        SlotAfter s buckets slot (s'.accumulationQueue.getD slot [])) ∧
      (Empty cfg s → ∀ e ∈ s'.accumulationQueue.flatten, ∀ d ∈ e.dependencies,
        d ∉ s'.accumulationHistory.flatten) := by
  refine ⟨?_, editQueue_self, report_editQueue, editQueue_append, foldl_editQueue, ?_⟩
  · intro queue A B union hunion
    rw [editQueue_editQueue]
    apply editQueue_congr
    intro h
    rw [List.mem_append, hunion]
  · intro cfg reportHash otherChecks s s' buckets hs hrun
    refine ⟨(hrun.history hs).2, fun hne => ?_, fun hempty e he d hd => ?_⟩
    · rcases hrun.slotAfter hs with ⟨hnil, -⟩ | hslots
      · exact absurd hnil hne
      · exact hslots
    · exact hrun.not_mem_history hempty he hd

/-- Package 3 waits for packages 1 and 2, and package 1 is about to become available. -/
def sampleDue : State :=
  ⟨1, [], [some ⟨sampleReport, 1⟩],
    [[], [workReportDependencies (sampleDependent 3 [2, 1])]], [[], []]⟩

/-- All six validators assure package 1. -/
def sampleAssured : Block := ⟨2, [], List.replicate 6 [0], [], 6, 6, 1⟩

/-- Package 1 is accumulated, and package 3 waits for package 2 alone. -/
theorem sampleDue_edited :
    (∃ s', RecordedRun sampleConfig (fun w => w.packageHash) (fun _ _ => true) sampleDue
        [[Vector.replicate 32 1]] s' ∧
      SlotAfter sampleDue [[Vector.replicate 32 1]] 1 (s'.accumulationQueue.getD 1 []) ∧
      (s'.accumulationQueue.getD 1 []).map QueueEntry.dependencies = [[Vector.replicate 32 2]]) ∧
    editQueue (editQueue [workReportDependencies (sampleDependent 3 [2, 1])] [Vector.replicate 32 1])
        [Vector.replicate 32 2] =
      editQueue [workReportDependencies (sampleDependent 3 [2, 1])]
        [Vector.replicate 32 2, Vector.replicate 32 1] := by
  obtain ⟨hcompose, -, -, -, -, hruns⟩ := edit_queue_composes
  have hblock : ∃ s', applyBlock sampleConfig (fun w => w.packageHash) (fun _ _ => true) sampleDue
      sampleAssured = .ok s' ∧
      s'.accumulationHistory.getD (sampleConfig.epochTimeslots - 1) [] = [Vector.replicate 32 1] ∧
      (s'.accumulationQueue.getD 1 []).map QueueEntry.dependencies = [[Vector.replicate 32 2]] :=
    ⟨_, rfl, by decide, by decide⟩
  obtain ⟨s', hblock, hbucket, hwaits⟩ := hblock
  have hrun := RecordedRun.block (.none sampleDue) hblock
  rw [hbucket] at hrun
  refine ⟨⟨s', hrun, ?_, hwaits⟩, ?_⟩
  · exact (hruns _ _ _ _ _ _ ⟨rfl, rfl⟩ hrun).2.1 (List.cons_ne_nil _ _) 1 (by decide)
  · refine hcompose _ _ _ _ (fun h => ?_)
    rw [List.mem_pair, List.mem_singleton, List.mem_singleton, or_comm]

end Pipeline
