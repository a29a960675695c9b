import Pyjamaz.Pipeline.Distinct

/-!
# No available report is lost

What one block does with the reports that are available or queued, when their packages are distinct
and no report asks for more than `gasAccumulation`.  A ready report is accumulated: the ready reports
come first, there is at most one for each core, and the gas limit of the block covers that many
(`length_le_fittingReports`).  A report with dependencies goes to the last bucket of the history or to
the queue at the new slot.  A queued entry is accumulated, or stays in its slot without the dependencies that were
accumulated, or is dropped with its slot, which happens only to slots the time has passed since the
last block.
-/

namespace Pipeline

open Accumulation
open scoped List

/-! ## The prefix that is accumulated -/

section Gas

variable {coreCount : ℕ}

/-- Reports of bounded gas fit a limit that covers that much for each of them. -/
lemma length_le_fittingReports {gasLimit : ℤ} (rest : List WorkReport) :
    ∀ {reserved : ℤ} {ready : List WorkReport}, (∀ w ∈ ready, w.gas ≤ gasAccumulation) →
      reserved + gasAccumulation * ready.length ≤ gasLimit →
      ready.length ≤ fittingReports gasLimit reserved (ready ++ rest) := by
  intro reserved ready
  induction ready generalizing reserved with
  | nil =>
    intro _ _
    exact Nat.zero_le _
  | cons w ready ih =>
    intro hgas hlimit
    have hw := hgas w List.mem_cons_self
    rw [List.length_cons] at hlimit ⊢
    push_cast at hlimit
    have hnonneg : (0 : ℤ) ≤ gasAccumulation * ready.length := by positivity
    rw [List.cons_append, fittingReports, if_neg (by linarith)]
    refine Nat.add_le_add_right (ih (fun w' hw' => hgas w' (List.mem_cons_of_mem _ hw')) ?_) 1
    have hw' : (w.gas : ℤ) ≤ gasAccumulation := by exact_mod_cast hw
    linarith

/-- The gas limit of a block. -/
def blockGasLimit (cfg : Config) (alwaysAccumulators : Dict ℕ ℕ) : ℕ :=
  max cfg.gasTotal (gasAccumulation * cfg.coreCount + alwaysAccumulators.values.sum)

/-- A block accumulates at least the reports that its first round selects. -/
lemma selected_le {round : Round coreCount} {depth : ℕ} {c : Call coreCount}
    {result : FullAccumulationOutput coreCount}
    (hresult : fullSequentialAccumulation round depth c = .ok result) :
    c.selected ≤ result.nrWorkResultsAccumulated := by
  obtain ⟨rounds, c', hrounds, hend, hcount, -, -⟩ := fullSequentialAccumulation_eq_ok hresult
  rw [hcount]
  match hrounds with
  | .none _ =>
    have hzero : c.selected = 0 := by
      unfold Call.size at hend
      omega
    exact hzero.le
  | .step _ _ _ =>
    rw [List.map_cons, List.sum_cons]
    exact Nat.le_add_right _ _

end Gas

/-! ## The slots of the queue -/

/-- The slot lies in the ring interval of the slots after `pre` up to `post`. -/
def Passed (size pre post j : ℕ) : Prop := ∃ t, pre < t ∧ t ≤ post ∧ t % size = j

/-- A slot is passed if its offset from the new slot is below the gap. -/
lemma ringIndex_lt_iff_passed {size pre post j : ℕ} (hj : j < size) (hpre : pre < post) :
    ringIndex size (post % size) j < post - pre ↔ Passed size pre post j := by
  have hm := Nat.mod_lt post (by omega : 0 < size)
  constructor
  · intro hlt
    refine ⟨post - ringIndex size (post % size) j, by omega, by omega, ?_⟩
    rw [← ringIndex_eq_mod (ringIndex_lt hm hj) (by omega), ringIndex_ringIndex hm hj]
  · rintro ⟨t, ht, hle, rfl⟩
    -- the offset of `t` is the least number that is congruent to `post - t`
    have hk : (post - t) % size < size := Nat.mod_lt _ (by omega)
    have hkle : (post - t) % size ≤ post - t := Nat.mod_le _ _
    have hslot : (post - (post - t) % size) % size = t % size := by
      have hdiv := Nat.div_add_mod (post - t) size
      have hsub : post - (post - t) % size = t + size * ((post - t) / size) := by omega
      rw [hsub, Nat.add_mul_mod_self_left]
    have hindex : ringIndex size (post % size) (t % size) = (post - t) % size := by
      rw [← hslot, ← ringIndex_eq_mod hk (by omega), ringIndex_ringIndex hm hk]
    omega

section Slots

variable {cfg : Config} {queued : List QueueEntry} {queue : List (List QueueEntry)}
  {history : List (List Octets32)} {pre post : ℕ}

lemma getD_accumulationQueue {j : ℕ} (hj : j < cfg.epochTimeslots) :
    (accumulationQueue cfg queued queue history pre post).getD j [] =
      queueBucket queued queue (history.getD (cfg.epochTimeslots - 1) [])
        (post % cfg.epochTimeslots) (post - pre) cfg.epochTimeslots
        (ringIndex cfg.epochTimeslots (post % cfg.epochTimeslots) j) := by
  rw [List.getD_eq_getElem?_getD, getElem?_accumulationQueue cfg queued queue history pre post hj,
    Option.getD_some]

/-- The new slot holds the queued reports that are not accumulated. -/
lemma getD_accumulationQueue_new :
    (accumulationQueue cfg queued queue history pre post).getD (post % cfg.epochTimeslots) [] =
      editQueue queued (history.getD (cfg.epochTimeslots - 1) []) := by
  have hm := Nat.mod_lt post cfg.epochTimeslots_pos
  rw [getD_accumulationQueue hm, queueBucket, if_pos ((ringIndex_eq_zero_iff hm).mpr rfl)]

/-- A slot that is not passed keeps its bucket, edited. -/
lemma getD_accumulationQueue_old (hpre : pre < post) {j : ℕ} (hj : j < cfg.epochTimeslots)
    (hslot : ¬ Passed cfg.epochTimeslots pre post j) :
    (accumulationQueue cfg queued queue history pre post).getD j [] =
      editQueue (queue.getD j []) (history.getD (cfg.epochTimeslots - 1) []) := by
  have hm := Nat.mod_lt post cfg.epochTimeslots_pos
  rw [← ringIndex_lt_iff_passed hj hpre] at hslot
  rw [getD_accumulationQueue hj, queueBucket, if_neg (by omega), if_neg hslot,
    ringIndex_ringIndex hm hj]

/-- A slot that is passed, other than the new one, is empty. -/
lemma getD_accumulationQueue_passed (hpre : pre < post) {j : ℕ} (hj : j < cfg.epochTimeslots)
    (hne : post % cfg.epochTimeslots ≠ j) (hslot : Passed cfg.epochTimeslots pre post j) :
    (accumulationQueue cfg queued queue history pre post).getD j [] = [] := by
  rw [← ringIndex_lt_iff_passed hj hpre] at hslot
  rw [getD_accumulationQueue hj, queueBucket,
    if_neg (fun h => hne ((ringIndex_eq_zero_iff hj).mp h)), if_pos hslot]

/-- An entry of the turned queue was queued by the block, or is in a slot that is not passed. -/
lemma mem_accumulationQueue (hpre : pre < post) {e : QueueEntry}
    (hmem : e ∈ (accumulationQueue cfg queued queue history pre post).flatten) :
    e ∈ editQueue queued (history.getD (cfg.epochTimeslots - 1) []) ∨
      ∃ j < cfg.epochTimeslots, ¬ Passed cfg.epochTimeslots pre post j ∧
        e ∈ editQueue (queue.getD j []) (history.getD (cfg.epochTimeslots - 1) []) := by
  obtain ⟨bucket, hbucket, he⟩ := List.mem_flatten.mp hmem
  obtain ⟨j, hlt, rfl⟩ := List.getElem_of_mem hbucket
  have hj : j < cfg.epochTimeslots := by rwa [length_accumulationQueue] at hlt
  have hget : (accumulationQueue cfg queued queue history pre post).getD j [] =
      (accumulationQueue cfg queued queue history pre post)[j] := by
    rw [List.getD_eq_getElem?_getD, List.getElem?_eq_getElem hlt, Option.getD_some]
  rw [← hget] at he
  by_cases hnew : post % cfg.epochTimeslots = j
  · subst hnew
    rw [getD_accumulationQueue_new] at he
    exact .inl he
  · by_cases hslot : Passed cfg.epochTimeslots pre post j
    · rw [getD_accumulationQueue_passed hpre hj hnew hslot] at he
      exact absurd he List.not_mem_nil
    · rw [getD_accumulationQueue_old hpre hj hslot] at he
      exact .inr ⟨j, hj, hslot, he⟩

lemma exists_of_mem_getD {e : QueueEntry} {j : ℕ} (he : e ∈ queue.getD j []) :
    ∃ hj : j < queue.length, e ∈ queue[j] := by
  rw [List.getD_eq_getElem?_getD] at he
  by_cases hj : j < queue.length
  · rw [List.getElem?_eq_getElem hj, Option.getD_some] at he
    exact ⟨hj, he⟩
  · rw [List.getElem?_eq_none (not_lt.mp hj), Option.getD_none] at he
    exact absurd he List.not_mem_nil

lemma mem_flatten_of_mem_getD {e : QueueEntry} {j : ℕ} (he : e ∈ queue.getD j []) :
    e ∈ queue.flatten := by
  obtain ⟨hj, he⟩ := exists_of_mem_getD he
  exact List.mem_flatten.mpr ⟨queue[j], List.getElem_mem hj, he⟩

/-- A package is in one slot of the queue only. -/
lemma slot_unique (hnodup : (entryHashes queue.flatten).Nodup) {i j : ℕ} {e e' : QueueEntry}
    (he : e ∈ queue.getD i []) (he' : e' ∈ queue.getD j [])
    (hsame : e.report.packageHash = e'.report.packageHash) : i = j := by
  obtain ⟨hi, he⟩ := exists_of_mem_getD he
  obtain ⟨hj, he'⟩ := exists_of_mem_getD he'
  rw [entryHashes, List.map_flatten, List.nodup_flatten] at hnodup
  have hdisjoint := List.pairwise_iff_getElem.mp hnodup.2
  have hmem : e.report.packageHash ∈ queue[i].map (fun e => e.report.packageHash) :=
    List.mem_map_of_mem he
  have hmem' : e.report.packageHash ∈ queue[j].map (fun e => e.report.packageHash) := by
    rw [hsame]
    exact List.mem_map_of_mem he'
  rcases lt_trichotomy i j with hlt | heq | hgt
  · have h := hdisjoint i j (by simpa using hi) (by simpa using hj) hlt
    rw [List.getElem_map, List.getElem_map] at h
    exact absurd hmem' (h hmem)
  · exact heq
  · have h := hdisjoint j i (by simpa using hj) (by simpa using hi) hgt
    rw [List.getElem_map, List.getElem_map] at h
    exact absurd hmem (h hmem')

end Slots

/-! ## A block -/

section Block

variable {cfg : Config} {s : State} {b : Block} {available accumulatable : List Report}

/-- The packages of the pipeline that a block works on are distinct. -/
def PackagesDistinct (s : State) (available : List Report) : Prop :=
  (hashes available ++ entryHashes s.accumulationQueue.flatten ++
    s.accumulationHistory.flatten).Nodup

/-- A queued package that is accumulated is accumulated with the report of its entry. -/
lemma report_mem_of_hash_mem (hdistinct : PackagesDistinct s available)
    (haccumulatable : blockAccumulatable cfg s b available = .ok accumulatable) {e : QueueEntry}
    (he : e ∈ s.accumulationQueue.flatten) {n : ℕ}
    (hmem : e.report.packageHash ∈ hashes (accumulatable.take n)) :
    e.report ∈ accumulatable.take n := by
  obtain ⟨w, hw, hhash⟩ := List.mem_map.mp hmem
  have hwaiting := hdistinct.of_append_left
  have hehash : e.report.packageHash ∈ entryHashes s.accumulationQueue.flatten :=
    List.mem_map_of_mem he
  rcases mem_accumulatable haccumulatable (List.mem_of_mem_take hw) with havailable | ⟨e', he', rfl⟩
  · exfalso
    refine (List.nodup_append'.mp hwaiting).2.2 ?_ hehash
    rw [← hhash]
    exact List.mem_map_of_mem havailable
  · have heq := List.inj_on_of_nodup_map hwaiting.of_append_right he' he hhash
    rwa [← heq]

/-- The last bucket of the history. -/
def lastBucket (cfg : Config) (s : State) : List Octets32 :=
  s.accumulationHistory.getD (cfg.epochTimeslots - 1) []

variable {kept : List (Option Pending)}

lemma mem_lastBucket (hlength : s.accumulationHistory.length = cfg.epochTimeslots) {h : Octets32} :
    h ∈ lastBucket cfg (postState cfg s b available kept accumulatable) ↔
      h ∈ hashes (accumulatable.take b.nrWorkResultsAccumulated) := by
  rw [lastBucket, postState, getD_accumulationHistory hlength, mem_sortedHashes,
    mem_workReportMapping]

/-- A package in the last bucket is not in the queue. -/
lemma not_queued_of_mem_lastBucket (hslot : s.timeslot < b.timeslot) {h : Octets32}
    (hmem : h ∈ lastBucket cfg (postState cfg s b available kept accumulatable)) :
    h ∉ entryHashes (postState cfg s b available kept accumulatable).accumulationQueue.flatten := by
  intro hqueued
  obtain ⟨e, he, rfl⟩ := List.mem_map.mp hqueued
  rcases mem_accumulationQueue hslot he with hedit | ⟨j, -, -, hedit⟩
  · obtain ⟨e₀, -, hnot, rfl⟩ := mem_editQueue.mp hedit
    exact hnot hmem
  · obtain ⟨e₀, -, hnot, rfl⟩ := mem_editQueue.mp hedit
    exact hnot hmem

/-- The ready reports are in the part that is accumulated. -/
lemma ready_mem_take {round : Round cfg.coreCount} {depth : ℕ}
    {state : AccumulationStateComponents cfg.coreCount} {always : Dict ℕ ℕ}
    {result : FullAccumulationOutput cfg.coreCount}
    (hgas : ∀ w ∈ available, w.gas ≤ gasAccumulation) (hcores : available.length ≤ cfg.coreCount)
    (haccumulatable : blockAccumulatable cfg s b available = .ok accumulatable)
    (hresult : fullSequentialAccumulation round depth (Call.start (blockGasLimit cfg always)
      (accumulatable.map Report.toWorkReport) state always) = .ok result) {w : Report}
    (hw : w ∈ available) (hready : w.isReady = true) :
    w ∈ accumulatable.take result.nrWorkResultsAccumulated := by
  have hmem : w ∈ readyWorkReports available := List.mem_filter.mpr ⟨hw, hready⟩
  obtain ⟨rest, rfl⟩ := blockAccumulatable_eq_append haccumulatable
  have hcount : (readyWorkReports available).length ≤ result.nrWorkResultsAccumulated := by
    refine le_trans ?_ (selected_le hresult)
    have hlength : (readyWorkReports available).length ≤ cfg.coreCount :=
      (List.length_filter_le _ _).trans hcores
    have hlimit : always.values.sum + gasAccumulation * (readyWorkReports available).length ≤
        blockGasLimit cfg always := by
      refine le_trans ?_ (le_max_right _ _)
      rw [Nat.add_comm]
      exact Nat.add_le_add_right (Nat.mul_le_mul_left _ hlength) _
    have hreserved : (Call.start (blockGasLimit cfg always)
        ((readyWorkReports available ++ rest).map Report.toWorkReport) state always).gasReserved =
        always.values.sum := by
      simp [Call.gasReserved, Call.start, forwardedGas]
    rw [Call.selected, hreserved, ← List.length_map Report.toWorkReport]
    show _ ≤ fittingReports (blockGasLimit cfg always) _
      ((readyWorkReports available ++ rest).map Report.toWorkReport)
    rw [List.map_append]
    refine length_le_fittingReports _ ?_ ?_
    · intro w' hw'
      obtain ⟨w₀, hw₀, rfl⟩ := List.mem_map.mp hw'
      exact hgas w₀ (List.mem_filter.mp hw₀).1
    · rw [List.length_map]
      exact_mod_cast hlimit
  rw [List.take_append, List.take_of_length_le hcount]
  exact List.mem_append_left _ hmem

/-- An available report with dependencies is accumulated or queued at the new slot. -/
lemma dependent_xor (hslot : s.timeslot < b.timeslot) (hdistinct : PackagesDistinct s available)
    {w : Report} (hw : w ∈ available) (hready : w.isReady = false) :
    Xor (w.packageHash ∈ lastBucket cfg (postState cfg s b available kept accumulatable))
      (∃ e ∈ (postState cfg s b available kept accumulatable).accumulationQueue.getD
        (b.timeslot % cfg.epochTimeslots) [], e.report = w) := by
  by_cases hmem : w.packageHash ∈ lastBucket cfg (postState cfg s b available kept accumulatable)
  · refine .inl ⟨hmem, ?_⟩
    rintro ⟨e, he, rfl⟩
    exact not_queued_of_mem_lastBucket hslot hmem (List.mem_map_of_mem (mem_flatten_of_mem_getD he))
  · refine .inr ⟨?_, hmem⟩
    have hhistory : w.packageHash ∉ s.accumulationHistory.flatten := by
      apply (List.nodup_append'.mp hdistinct).2.2
      exact List.mem_append_left _ (List.mem_map_of_mem hw)
    have hdependent : workReportDependencies w ∈
        (available.filter (fun w => !w.isReady)).map workReportDependencies :=
      List.mem_map_of_mem (List.mem_filter.mpr ⟨hw, by rw [hready]; rfl⟩)
    have hqueued := mem_editQueue.mpr ⟨_, hdependent, hhistory, rfl⟩
    have hentry := mem_editQueue.mpr ⟨_, hqueued, hmem, rfl⟩
    rw [postState, getD_accumulationQueue_new]
    exact ⟨_, hentry, rfl⟩

/-- A queued entry whose slot is passed, and whose package is not accumulated, is gone. -/
lemma not_queued_of_passed (hslot : s.timeslot < b.timeslot)
    (hdistinct : PackagesDistinct s available) {j : ℕ} {e : QueueEntry}
    (he : e ∈ s.accumulationQueue.getD j [])
    (hpassed : Passed cfg.epochTimeslots s.timeslot b.timeslot j) :
    e.report.packageHash ∉
      entryHashes (postState cfg s b available kept accumulatable).accumulationQueue.flatten := by
  intro hmem
  have hwaiting := hdistinct.of_append_left
  obtain ⟨e', he', hhash⟩ := List.mem_map.mp hmem
  rcases mem_accumulationQueue hslot he' with hedit | ⟨i, -, hnot, hedit⟩
  · -- the block queues available reports, and these are others
    obtain ⟨e₁, he₁, -, rfl⟩ := mem_editQueue.mp hedit
    obtain ⟨e₂, he₂, -, rfl⟩ := mem_editQueue.mp he₁
    obtain ⟨w, hw, rfl⟩ := List.mem_map.mp he₂
    refine (List.nodup_append'.mp hwaiting).2.2 (List.mem_map_of_mem (List.mem_filter.mp hw).1) ?_
    exact hhash ▸ List.mem_map_of_mem (mem_flatten_of_mem_getD he)
  · obtain ⟨e₁, he₁, -, rfl⟩ := mem_editQueue.mp hedit
    have hsame := slot_unique hwaiting.of_append_right he₁ he hhash
    exact hnot (hsame ▸ hpassed)

/-- A queued entry whose slot is not passed, and whose package is not accumulated, stays. -/
lemma still_queued (hslot : s.timeslot < b.timeslot) {j : ℕ} (hj : j < cfg.epochTimeslots)
    {e : QueueEntry} (he : e ∈ s.accumulationQueue.getD j [])
    (hmem : e.report.packageHash ∉ lastBucket cfg (postState cfg s b available kept accumulatable))
    (hpassed : ¬ Passed cfg.epochTimeslots s.timeslot b.timeslot j) :
    ⟨e.report, remaining e.dependencies
      (lastBucket cfg (postState cfg s b available kept accumulatable))⟩ ∈
      (postState cfg s b available kept accumulatable).accumulationQueue.getD j [] := by
  rw [postState, getD_accumulationQueue_old hslot hj hpassed]
  exact mem_editQueue.mpr ⟨e, he, hmem, rfl⟩

end Block

/-- A block without loss.  A ready report that is available is among the accumulated ones.  An
available report with dependencies is in the last bucket of the history or in the queue at the new
slot, and not in both.  A queued entry is accumulated and no longer queued; or it is still in its
slot, with the accumulated packages taken from its dependencies; or it is neither, and then its slot
lies between the old slot and the new. -/
theorem no_report_lost (cfg : Config) (s : State) (b : Block)
    (available accumulatable : List Report) (kept : List (Option Pending))
    {round : Round cfg.coreCount} {depth : ℕ}
    {state : AccumulationStateComponents cfg.coreCount} {always : Dict ℕ ℕ}
    {result : FullAccumulationOutput cfg.coreCount}
    (hqueue : s.accumulationQueue.length = cfg.epochTimeslots)
    (hhistory : s.accumulationHistory.length = cfg.epochTimeslots)
    (hslot : s.timeslot < b.timeslot) (hdistinct : PackagesDistinct s available)
    (hgas : ∀ w ∈ available, w.gas ≤ gasAccumulation) (hcores : available.length ≤ cfg.coreCount)
    (haccumulatable : blockAccumulatable cfg s b available = .ok accumulatable)
    (hresult : fullSequentialAccumulation round depth (Call.start (blockGasLimit cfg always)
      (accumulatable.map Report.toWorkReport) state always) = .ok result)
    (hcount : b.nrWorkResultsAccumulated = result.nrWorkResultsAccumulated) :
    (∀ w ∈ available, w.isReady = true →
      w ∈ accumulatable.take b.nrWorkResultsAccumulated) ∧
    (∀ w ∈ available, w.isReady = false →
      Xor (w.packageHash ∈ lastBucket cfg (postState cfg s b available kept accumulatable))
        (∃ e ∈ (postState cfg s b available kept accumulatable).accumulationQueue.getD
          (b.timeslot % cfg.epochTimeslots) [], e.report = w)) ∧
    ∀ (j : ℕ) (e : QueueEntry), e ∈ s.accumulationQueue.getD j [] →
      (e.report ∈ accumulatable.take b.nrWorkResultsAccumulated ∧
        e.report.packageHash ∉
          entryHashes (postState cfg s b available kept accumulatable).accumulationQueue.flatten) ∨
      (e.report.packageHash ∉ lastBucket cfg (postState cfg s b available kept accumulatable) ∧
        ∃ e' ∈ (postState cfg s b available kept accumulatable).accumulationQueue.getD j [],
          e'.report = e.report ∧ ∀ d, d ∈ e'.dependencies ↔
            d ∈ e.dependencies ∧
              d ∉ lastBucket cfg (postState cfg s b available kept accumulatable)) ∨
      (e.report.packageHash ∉ lastBucket cfg (postState cfg s b available kept accumulatable) ∧
        e.report.packageHash ∉
          entryHashes (postState cfg s b available kept accumulatable).accumulationQueue.flatten ∧
        ∃ t, s.timeslot < t ∧ t ≤ b.timeslot ∧ t % cfg.epochTimeslots = j) := by
  refine ⟨?_, ?_, ?_⟩
  · intro w hw hready
    rw [hcount]
    exact ready_mem_take hgas hcores haccumulatable hresult hw hready
  · intro w hw hready
    exact dependent_xor hslot hdistinct hw hready
  · intro j e he
    have hj : j < cfg.epochTimeslots := hqueue ▸ (exists_of_mem_getD he).1
    by_cases hmem : e.report.packageHash ∈
        lastBucket cfg (postState cfg s b available kept accumulatable)
    · have haccumulated := (mem_lastBucket hhistory).mp hmem
      exact .inl ⟨report_mem_of_hash_mem hdistinct haccumulatable (mem_flatten_of_mem_getD he)
          haccumulated,
        not_queued_of_mem_lastBucket hslot hmem⟩
    · by_cases hpassed : Passed cfg.epochTimeslots s.timeslot b.timeslot j
      · exact .inr (.inr ⟨hmem, not_queued_of_passed hslot hdistinct he hpassed, hpassed⟩)
      · exact .inr (.inl ⟨hmem, _, still_queued hslot hj he hmem hpassed, rfl,
          fun d => mem_remaining⟩)

/-- An entry that waits for the sample report and for another package. -/
def sampleWaiting : QueueEntry where
  report :=
    { sampleReport with
      packageHash := Vector.replicate 32 2
      prerequisites := [Vector.replicate 32 1, Vector.replicate 32 9] }
  dependencies := [Vector.replicate 32 1, Vector.replicate 32 9]

/-- The entry waits in the second slot, while the sample report becomes available. -/
def sampleQueued : State := ⟨1, [], [none], [[], [sampleWaiting]], [[], []]⟩

def sampleAvailability : Block := ⟨2, [], [], [], 6, 6, 1⟩

/-- A chain with one core and without accounts. -/
def sampleComponents : AccumulationStateComponents 1 :=
  ⟨⟨.init ∅, .empty, ∅⟩, [], #v[[]], ⟨0, #v[0], 0, 0, ∅⟩⟩

/-- Invocations that do nothing. -/
def sampleIdle : Invoke 1 := fun state _ _ _ => some ⟨state, [], none, 0, []⟩

def sampleIdleRound : Round 1 :=
  parallelAccumulation (.ofHash fun _ => Vector.replicate 32 0) 2 sampleIdle

/-- The ready report is accumulated, and the entry stays and no longer waits for it. -/
theorem sampleQueued_not_lost : ∃ accumulatable,
    blockAccumulatable sampleConfig sampleQueued sampleAvailability [sampleReport] =
      .ok accumulatable ∧
    sampleReport ∈ accumulatable.take 1 ∧
    ((postState sampleConfig sampleQueued sampleAvailability [sampleReport] [none]
      accumulatable).accumulationQueue.getD 1 []).map QueueEntry.dependencies =
        [[Vector.replicate 32 9]] := by
  have haccumulatable : blockAccumulatable sampleConfig sampleQueued sampleAvailability
      [sampleReport] = .ok [sampleReport] := rfl
  have hresult : ∃ result, fullSequentialAccumulation sampleIdleRound 3
      (.start (blockGasLimit sampleConfig ∅) ([sampleReport].map Report.toWorkReport)
        sampleComponents ∅) = .ok result ∧ result.nrWorkResultsAccumulated = 1 := ⟨_, rfl, rfl⟩
  obtain ⟨result, hresult, hcount⟩ := hresult
  have hdistinct : PackagesDistinct sampleQueued [sampleReport] := by
    unfold PackagesDistinct
    decide
  have hlost := no_report_lost sampleConfig sampleQueued sampleAvailability [sampleReport]
    [sampleReport] [none] rfl rfl (by decide) hdistinct (by decide) (by decide) haccumulatable
    hresult hcount.symm
  exact ⟨_, haccumulatable, hlost.1 sampleReport List.mem_cons_self rfl, by decide⟩

end Pipeline
