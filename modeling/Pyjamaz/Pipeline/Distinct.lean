import Mathlib.Data.List.ReduceOption
import Pyjamaz.Library.Result
import Pyjamaz.Pipeline.Queue

/-!
# No package is in the pipeline twice

Over every run of accepted blocks from an empty pipeline, the packages that are pending on a core,
queued for accumulation or in the accumulation history are all distinct.

A guarantee is checked against the queue and the history from before the block and against the
reports that are still pending after the assurances.  A report that becomes available in the same
block is in neither, and is covered by the recent blocks alone: a pending report was registered at
most `unavailableWorkReplacementPeriod` slots before the last block, the slots of blocks increase, and
so the block that registered it is among the recent ones.  This is the last field of `Distinct`, the
invariant of the run.
-/

namespace Pipeline

open Accumulation
open scoped List

/-- The packages in the pipeline: pending, queued and accumulated. -/
def State.packages (s : State) : List Octets32 :=
  pendingHashes s.assurances ++ entryHashes s.accumulationQueue.flatten ++
    s.accumulationHistory.flatten

/-- The packages that the last `k` recent blocks report. -/
def State.reportedLast (s : State) (k : ℕ) : List Octets32 := (s.recentBlocks.reverse.take k).flatten

/-- The packages in the pipeline are distinct, and each pending one was reported not long ago. -/
structure Distinct (cfg : Config) (s : State) : Prop where
  queue_length : s.accumulationQueue.length = cfg.epochTimeslots
  history_length : s.accumulationHistory.length = cfg.epochTimeslots
  nodup : s.packages.Nodup
  recent : ∀ p ∈ s.assurances.reduceOption,
    p.registeredSlot ≤ s.timeslot ∧
    s.timeslot < p.registeredSlot + unavailableWorkReplacementPeriod ∧
    p.report.packageHash ∈ s.reportedLast (s.timeslot + 1 - p.registeredSlot)

/-! ## Assurances -/

@[simp] lemma pendingHashes_cons_none (assurances : List (Option Pending)) :
    pendingHashes (none :: assurances) = pendingHashes assurances := rfl

@[simp] lemma pendingHashes_cons_some (p : Pending) (assurances : List (Option Pending)) :
    pendingHashes (some p :: assurances) = p.report.packageHash :: pendingHashes assurances := rfl

/-- What passes a filter is pending before it. -/
lemma reduceOption_map_filter_sublist (keep : Pending → Bool) (assurances : List (Option Pending)) :
    (assurances.map (Option.filter keep)).reduceOption <+ assurances.reduceOption := by
  induction assurances with
  | nil => exact List.Sublist.refl _
  | cons slot assurances ih =>
    match slot with
    | none => exact ih
    | some p =>
      rw [List.map_cons, Option.filter_some]
      split
      · exact ih.cons_cons p
      · exact ih.cons p

lemma assurancesAfterDisputes_sublist (reportHash : Report → Octets32) (verdicts : List Verdict)
    (assurances : List (Option Pending)) :
    (assurancesAfterDisputes reportHash verdicts assurances).reduceOption <+
      assurances.reduceOption :=
  reduceOption_map_filter_sublist _ assurances

/-- A report that was pending becomes available, stays, or is given up. -/
lemma available_append_kept_subperm (b : Block) (slots : List (Option Pending × ℕ)) :
    hashes (availableReports b slots) ++ pendingHashes (keptReports b slots) <+~
      pendingHashes (slots.map Prod.fst) := by
  induction slots with
  | nil => exact List.Subperm.refl _
  | cons slot slots ih =>
    obtain ⟨pending, core⟩ := slot
    match pending with
    | none =>
      have havailable : availableReports b ((none, core) :: slots) = availableReports b slots := by
        rw [availableReports, List.filterMap_cons_none]
        · rfl
        · rw [Option.map_none, ite_self]
      rw [havailable]
      exact ih
    | some p =>
      by_cases hcore : isAvailable b core
      · have havailable : availableReports b ((some p, core) :: slots) =
            p.report :: availableReports b slots := by
          rw [availableReports, List.filterMap_cons_some]
          · rfl
          · rw [if_pos hcore, Option.map_some]
        have hkept : keptReports b ((some p, core) :: slots) = none :: keptReports b slots := by
          rw [keptReports, List.map_cons, Option.filter_some, if_neg (by simp [hcore])]
          rfl
        rw [havailable, hkept]
        exact (List.subperm_cons _).mpr ih
      · have havailable : availableReports b ((some p, core) :: slots) =
            availableReports b slots := by
          rw [availableReports, List.filterMap_cons_none]
          · rfl
          · rw [if_neg hcore]
        rw [havailable]
        have hkept : pendingHashes (keptReports b ((some p, core) :: slots)) <+
            p.report.packageHash :: pendingHashes (keptReports b slots) := by
          rw [keptReports, List.map_cons, Option.filter_some]
          split
          · exact List.Sublist.refl _
          · exact List.sublist_cons_self _ _
        refine ((List.Subperm.refl _).append hkept.subperm).trans ?_
        refine List.perm_middle.subperm.trans ?_
        exact (List.subperm_cons _).mpr ih

/-- A report stays only if it is not yet to be given up. -/
lemma mem_keptReports {b : Block} {slots : List (Option Pending × ℕ)} {p : Pending}
    (hmem : p ∈ (keptReports b slots).reduceOption) :
    p ∈ (slots.map Prod.fst).reduceOption ∧
      b.timeslot < p.registeredSlot + unavailableWorkReplacementPeriod := by
  rw [List.reduceOption_mem_iff, keptReports, List.mem_map] at hmem
  obtain ⟨slot, hslot, hfilter⟩ := hmem
  rw [Option.filter_eq_some_iff] at hfilter
  obtain ⟨hp, hkeep⟩ := hfilter
  constructor
  · rw [List.reduceOption_mem_iff, ← hp]
    exact List.mem_map_of_mem hslot
  · simp only [isReplaceable, Bool.and_eq_true, Bool.not_eq_true', Bool.or_eq_false_iff,
      decide_eq_false_iff_not, not_le] at hkeep
    exact hkeep.2.2

/-! ## Guarantees -/

lemma pendingHashes_set_subperm (p : Pending) (assurances : List (Option Pending)) :
    ∀ core, pendingHashes (assurances.set core (some p)) <+~
      p.report.packageHash :: pendingHashes assurances := by
  induction assurances with
  | nil =>
    intro core
    exact List.nil_subperm
  | cons slot assurances ih =>
    intro core
    match core, slot with
    | 0, none => exact List.Subperm.refl _
    | 0, some q =>
      rw [List.set_cons_zero, pendingHashes_cons_some, pendingHashes_cons_some]
      exact (List.subperm_cons _).mpr (List.sublist_cons_self _ _).subperm
    | core + 1, none => exact ih core
    | core + 1, some q =>
      rw [List.set_cons_succ, pendingHashes_cons_some, pendingHashes_cons_some]
      exact ((List.subperm_cons _).mpr (ih core)).trans (List.Perm.swap _ _ _).subperm

/-- After the guarantees, a package is pending for one of them or since before. -/
lemma assurancesAfterGuarantees_subperm (timeslot : ℕ) (guarantees : List Report) :
    ∀ assurances, pendingHashes (assurancesAfterGuarantees timeslot guarantees assurances) <+~
      hashes guarantees ++ pendingHashes assurances := by
  induction guarantees with
  | nil =>
    intro assurances
    exact List.Subperm.refl _
  | cons w guarantees ih =>
    intro assurances
    have hset := pendingHashes_set_subperm ⟨w, timeslot⟩ assurances w.coreIndex
    rw [assurancesAfterGuarantees, List.foldl_cons]
    refine (ih _).trans (((List.Subperm.refl _).append hset).trans ?_)
    exact List.perm_middle.subperm

lemma mem_assurancesAfterGuarantees {timeslot : ℕ} {guarantees : List Report} {p : Pending} :
    ∀ {assurances}, p ∈ (assurancesAfterGuarantees timeslot guarantees assurances).reduceOption →
      p ∈ assurances.reduceOption ∨ p.registeredSlot = timeslot ∧ p.report ∈ guarantees := by
  induction guarantees with
  | nil =>
    intro assurances hmem
    exact .inl hmem
  | cons w guarantees ih =>
    intro assurances hmem
    rcases ih hmem with hset | ⟨hslot, hreport⟩
    · rw [List.reduceOption_mem_iff] at hset
      rcases List.mem_or_eq_of_mem_set hset with hold | hnew
      · exact .inl (List.reduceOption_mem_iff.mpr hold)
      · obtain rfl := Option.some.inj hnew
        exact .inr ⟨rfl, List.mem_cons_self⟩
    · exact .inr ⟨hslot, List.mem_cons_of_mem _ hreport⟩

/-- The checks that keep a package from being guaranteed twice. -/
lemma validateGuarantees_eq_ok {s : State} {assurances : List (Option Pending)}
    {guarantees : List Report} (hok : validateGuarantees s assurances guarantees = .ok ()) :
    (hashes guarantees).Nodup ∧ ∀ h ∈ hashes guarantees, h ∉ pipelineHashes s assurances := by
  unfold validateGuarantees at hok
  split at hok
  · contradiction
  split at hok
  · contradiction
  split at hok
  · contradiction
  next hnodup =>
    split at hok
    · contradiction
    next hpipeline =>
      refine ⟨by simpa using hnodup, ?_⟩
      intro h hmem hin
      apply hpipeline
      exact List.any_eq_true.mpr ⟨h, hmem, decide_eq_true hin⟩

/-! ## Recent blocks -/

/-- The last recent blocks are the new one and the last ones from before. -/
lemma reverse_recentHistory (recentBlocks : List (List Octets32)) (guarantees : List Report)
    {k : ℕ} (hk : k < maxHistory) :
    (recentHistory recentBlocks guarantees).reverse.take (k + 1) =
      sortedHashes (hashes guarantees) :: recentBlocks.reverse.take k := by
  have hreverse : (recentBlocks ++ [sortedHashes (hashes guarantees)]).reverse =
      sortedHashes (hashes guarantees) :: recentBlocks.reverse := List.reverse_concat
  unfold recentHistory
  dsimp only
  split
  next hlong =>
    rw [List.length_append, List.length_singleton] at hlong
    rw [← List.dropLast_reverse, hreverse, List.dropLast_eq_take, List.take_take, List.length_cons,
      List.length_reverse, Nat.add_sub_cancel, min_eq_left (by omega), List.take_succ_cons]
  next => rw [hreverse, List.take_succ_cons]

/-! ## Distinct packages -/

lemma nodup_of_subperm {α : Type} {l l' : List α} (hsub : l <+~ l') (hnodup : l'.Nodup) :
    l.Nodup := by
  obtain ⟨l₀, hperm, hsublist⟩ := hsub
  exact hperm.nodup_iff.mp (hsublist.nodup hnodup)

/-- The turn of the pipeline over its packages: `w` becomes available and `k` stays of the pending
`p`, the guarantees `g` are new, and `b`, of what is available or queued, goes to the history. -/
lemma nodup_turn {α : Type} {p q h w k g b p' q' w' h' : List α} {keep : α → Bool}
    (hnodup : (p ++ q ++ h).Nodup) (hsplit : w ++ k <+~ p) (hg : g.Nodup)
    (hnew : ∀ x ∈ g, x ∉ p ++ q ++ h) (hb : b.Nodup) (hsub : b ⊆ w ++ q) (hp' : p' <+~ g ++ k)
    (hw' : w' <+~ w) (hkeep : ∀ x, keep x = true → x ∉ b) (hq' : q' <+~ (w' ++ q).filter keep)
    (hh' : h' <+ h) :
    (p' ++ q' ++ (h' ++ b)).Nodup := by
  have hold : (w ++ k ++ q ++ h).Nodup := nodup_of_subperm
    ((hsplit.append (List.Subperm.refl q)).append (List.Subperm.refl h)) hnodup
  have hwk : ∀ x ∈ w ++ k, x ∈ p := fun x hx => hsplit.subset hx
  have hpending : p'.Nodup := by
    refine nodup_of_subperm hp' (List.nodup_append.mpr ⟨hg, by grind, ?_⟩)
    rintro x hx y hy rfl
    exact hnew x hx (by simp [hwk x (by simp [hy])])
  have hwaiting : q'.Nodup := by
    have hwq : (w ++ q).Nodup := by grind
    exact nodup_of_subperm hq'
      ((nodup_of_subperm (hw'.append (List.Subperm.refl q)) hwq).filter _)
  have hhistory : h'.Nodup := hh'.nodup hnodup.of_append_right
  -- what is pending is neither waiting nor accumulated, and what was waiting is not accumulated
  have hfresh : ∀ x ∈ p', x ∉ w ++ q ∧ x ∉ h := by
    intro x hx
    rcases List.mem_append.mp (hp'.subset hx) with hxg | hxk
    · have hxold := hnew x hxg
      simp only [List.mem_append, not_or] at hxold ⊢
      exact ⟨⟨fun hxw => hxold.1.1 (hwk x (List.mem_append_left k hxw)), hxold.1.2⟩, hxold.2⟩
    · simp only [List.nodup_append, List.mem_append] at hold ⊢
      grind
  have hapart : ∀ x ∈ w ++ q, x ∉ h := by
    intro x hx hxh
    simp only [List.nodup_append, List.mem_append] at hold hx
    grind
  have hwait : ∀ x ∈ q', x ∈ w ++ q ∧ x ∉ b := by
    intro x hx
    obtain ⟨hxq, hxb⟩ := List.mem_filter.mp (hq'.subset hx)
    refine ⟨?_, hkeep x hxb⟩
    rcases List.mem_append.mp hxq with hxw | hxq
    · exact List.mem_append_left q (hw'.subset hxw)
    · exact List.mem_append_right w hxq
  refine List.nodup_append'.mpr ⟨List.nodup_append'.mpr ⟨hpending, hwaiting, ?_⟩,
    List.nodup_append'.mpr ⟨hhistory, hb, ?_⟩, ?_⟩
  · intro x hxp hxq
    exact (hfresh x hxp).1 (hwait x hxq).1
  · intro x hxh hxb
    exact hapart x (hsub hxb) (hh'.subset hxh)
  · intro x hx hxh
    rcases List.mem_append.mp hx with hxp | hxq
    · rcases List.mem_append.mp hxh with hxh | hxb
      · exact (hfresh x hxp).2 (hh'.subset hxh)
      · exact (hfresh x hxp).1 (hsub hxb)
    · rcases List.mem_append.mp hxh with hxh | hxb
      · exact hapart x (hwait x hxq).1 (hh'.subset hxh)
      · exact (hwait x hxq).2 hxb

/-! ## A block -/

section Block

variable {cfg : Config} {reportHash : Report → Octets32} {otherChecks : State → Block → Bool}
  {s s' : State} {b : Block}

/-- What an accepted block does. -/
lemma applyBlock_eq_ok (hok : applyBlock cfg reportHash otherChecks s b = .ok s') :
    s.timeslot < b.timeslot ∧ ∃ available kept accumulatable,
      blockAssurances reportHash s b = .ok (available, kept) ∧
      validateGuarantees s kept b.guarantees = .ok () ∧
      blockAccumulatable cfg s b available = .ok accumulatable ∧
      s' = postState cfg s b available kept accumulatable := by
  unfold applyBlock at hok
  split at hok
  · contradiction
  next hslot =>
    split at hok
    · contradiction
    obtain ⟨⟨available, kept⟩, hassurances, hok⟩ := Except.bind_eq_ok.mp hok
    obtain ⟨⟨⟩, hvalid, hok⟩ := Except.bind_eq_ok.mp hok
    obtain ⟨accumulatable, haccumulatable, hok⟩ := Except.bind_eq_ok.mp hok
    exact ⟨not_le.mp hslot, available, kept, accumulatable, hassurances, hvalid, haccumulatable,
      (Except.ok.inj hok).symm⟩

/-- The reports of a block were pending, and those that stay are not to be given up. -/
lemma blockAssurances_eq_ok {available : List Report} {kept : List (Option Pending)}
    (hok : blockAssurances reportHash s b = .ok (available, kept)) :
    hashes available ++ pendingHashes kept <+~ pendingHashes s.assurances ∧
      ∀ p ∈ kept.reduceOption, p ∈ s.assurances.reduceOption ∧
        b.timeslot < p.registeredSlot + unavailableWorkReplacementPeriod := by
  unfold blockAssurances assurancesAfterAssurances at hok
  split at hok
  · contradiction
  obtain ⟨rfl, rfl⟩ := Prod.mk.inj (Except.ok.inj hok)
  have hsub := assurancesAfterDisputes_sublist reportHash b.verdicts s.assurances
  have hfst := List.zipIdx_map_fst 0 (assurancesAfterDisputes reportHash b.verdicts s.assurances)
  constructor
  · have h := available_append_kept_subperm b
      (assurancesAfterDisputes reportHash b.verdicts s.assurances).zipIdx
    rw [hfst] at h
    exact h.trans (hsub.map _).subperm
  · intro p hp
    obtain ⟨hmem, hslot⟩ := mem_keptReports hp
    rw [hfst] at hmem
    exact ⟨hsub.subset hmem, hslot⟩

/-- A guarantee that passes its checks is for a package that is nowhere in the pipeline. -/
lemma Distinct.not_mem_packages (hs : Distinct cfg s) {kept : List (Option Pending)} {h : Octets32}
    (hnew : h ∉ pipelineHashes s kept) : h ∉ s.packages := by
  simp only [pipelineHashes, List.mem_append, not_or] at hnew
  simp only [State.packages, List.mem_append, not_or]
  refine ⟨⟨?_, hnew.1.2⟩, hnew.1.1.2⟩
  -- a pending package, available in this block or not, is among the recent blocks
  intro hpending
  obtain ⟨p, hp, rfl⟩ := List.mem_map.mp hpending
  have hrecent := (hs.recent p hp).2.2
  apply hnew.1.1.1
  obtain ⟨blockHashes, hblock, hmem⟩ := List.mem_flatten.mp hrecent
  exact List.mem_flatten.mpr ⟨blockHashes, List.mem_reverse.mp (List.mem_of_mem_take hblock), hmem⟩

/-- The packages that a block accumulates are distinct, available or queued. -/
lemma Distinct.accumulated (hs : Distinct cfg s) {available accumulatable : List Report}
    {kept : List (Option Pending)}
    (hok : blockAssurances reportHash s b = .ok (available, kept))
    (haccumulatable : blockAccumulatable cfg s b available = .ok accumulatable) (n : ℕ) :
    (hashes (accumulatable.take n)).Nodup ∧
      hashes (accumulatable.take n) ⊆
        hashes available ++ entryHashes s.accumulationQueue.flatten := by
  have hsub : hashes (accumulatable.take n) <+~
      hashes available ++ entryHashes s.accumulationQueue.flatten :=
    ((List.take_sublist n _).map _).subperm.trans (hashes_accumulatable_subperm haccumulatable)
  have havailable : hashes available <+~ pendingHashes s.assurances :=
    (List.sublist_append_left _ _).subperm.trans (blockAssurances_eq_ok hok).1
  have hnodup : (hashes available ++ entryHashes s.accumulationQueue.flatten).Nodup :=
    nodup_of_subperm (havailable.append (List.Subperm.refl _)) hs.nodup.of_append_left
  exact ⟨nodup_of_subperm hsub hnodup, hsub.subset⟩

/-- An accepted block keeps the packages distinct. -/
lemma Distinct.applyBlock (hs : Distinct cfg s)
    (hok : applyBlock cfg reportHash otherChecks s b = .ok s') : Distinct cfg s' := by
  obtain ⟨hslot, available, kept, accumulatable, hassurances, hvalid, haccumulatable, rfl⟩ :=
    applyBlock_eq_ok hok
  obtain ⟨hguarantees, hnew⟩ := validateGuarantees_eq_ok hvalid
  obtain ⟨hsplit, hkept⟩ := blockAssurances_eq_ok hassurances
  obtain ⟨haccumulated, hsubset⟩ :=
    hs.accumulated hassurances haccumulatable b.nrWorkResultsAccumulated
  refine ⟨length_accumulationQueue _ _ _ _ _ _, ?_, ?_, ?_⟩
  · have hpos := cfg.epochTimeslots_pos
    have hlength := hs.history_length
    simp only [postState, accumulationHistory, List.length_append, List.length_tail,
      List.length_singleton]
    omega
  · have hqueue := entryHashes_accumulationQueue_subperm cfg
      (queuedWorkReports available s.accumulationHistory) s.accumulationQueue
      (accumulationHistory accumulatable s.accumulationHistory b.nrWorkResultsAccumulated)
      s.timeslot b.timeslot hs.queue_length
    rw [getD_accumulationHistory hs.history_length] at hqueue
    have hqueued : entryHashes (queuedWorkReports available s.accumulationHistory) <+~
        hashes available := by
      rw [entryHashes_queuedWorkReports]
      exact List.filter_sublist.subperm.trans (List.filter_sublist.map _).subperm
    have hflatten : (accumulationHistory accumulatable s.accumulationHistory
        b.nrWorkResultsAccumulated).flatten = s.accumulationHistory.tail.flatten ++
          sortedHashes (workReportMapping (accumulatable.take b.nrWorkResultsAccumulated)) := by
      rw [accumulationHistory, List.flatten_append, List.flatten_singleton]
    show (_ ++ _ ++ _ : List Octets32).Nodup
    rw [postState]
    dsimp only
    rw [hflatten]
    refine nodup_turn hs.nodup hsplit hguarantees (fun h hh => hs.not_mem_packages (hnew h hh))
      ?_ ?_ (assurancesAfterGuarantees_subperm _ _ _) hqueued
      (fun x hx => of_decide_eq_true hx) hqueue ?_
    · exact nodup_sortedHashes.mpr (List.nodup_dedup _)
    · intro h hh
      rw [mem_sortedHashes, mem_workReportMapping] at hh
      exact hsubset hh
    · exact (List.tail_sublist _).flatten
  · intro p hp
    rcases mem_assurancesAfterGuarantees hp with hold | ⟨hregistered, hreport⟩
    · obtain ⟨hmem, htimeout⟩ := hkept p hold
      obtain ⟨hbefore, hfresh, hrecent⟩ := hs.recent p hmem
      have hage : b.timeslot - p.registeredSlot < maxHistory := by
        have hperiod : unavailableWorkReplacementPeriod ≤ maxHistory := by decide
        omega
      refine ⟨le_trans hbefore hslot.le, htimeout, ?_⟩
      show _ ∈ ((recentHistory s.recentBlocks b.guarantees).reverse.take
        (b.timeslot + 1 - p.registeredSlot)).flatten
      rw [Nat.sub_add_comm (le_trans hbefore hslot.le), reverse_recentHistory _ _ hage,
        List.flatten_cons, List.mem_append]
      -- at least one slot has passed for the new block
      have hmono : s.recentBlocks.reverse.take (s.timeslot + 1 - p.registeredSlot) <+
          s.recentBlocks.reverse.take (b.timeslot - p.registeredSlot) :=
        List.take_sublist_take_left (by omega)
      exact .inr (hmono.flatten.subset hrecent)
    · refine ⟨hregistered.le, ?_, ?_⟩
      · show b.timeslot < _
        rw [hregistered]
        exact Nat.lt_add_of_pos_right (by decide)
      · show _ ∈ ((recentHistory s.recentBlocks b.guarantees).reverse.take
          (b.timeslot + 1 - p.registeredSlot)).flatten
        rw [hregistered, Nat.add_sub_cancel_left, reverse_recentHistory _ _ (by decide),
          List.flatten_cons, List.mem_append, mem_sortedHashes]
        exact .inl (List.mem_map_of_mem hreport)

end Block

/-! ## Runs -/

section Run

variable {cfg : Config} {reportHash : Report → Octets32} {otherChecks : State → Block → Bool}

lemma Empty.distinct {s : State} (h : Empty cfg s) : Distinct cfg s := by
  refine ⟨?_, ?_, ?_, ?_⟩
  · rw [h.accumulationQueue, List.length_replicate]
  · rw [h.accumulationHistory, List.length_replicate]
  · rw [State.packages, h.assurances, h.accumulationQueue, h.accumulationHistory, pendingHashes,
      List.reduceOption_replicate_none, List.flatten_replicate_nil, List.flatten_replicate_nil]
    exact List.nodup_nil
  · intro p hp
    rw [h.assurances, List.reduceOption_replicate_none] at hp
    exact absurd hp List.not_mem_nil

lemma Distinct.run {s s' : State} (hs : Distinct cfg s)
    (hrun : Run cfg reportHash otherChecks s s') : Distinct cfg s' := by
  induction hrun with
  | none => exact hs
  | block _ hblock ih => exact ih.applyBlock hblock

/-- After every run from an empty pipeline, the pending, queued and accumulated packages are
distinct; and the packages that the next block accumulates are distinct and none of them is in the
history. -/
theorem packages_distinct {s₀ s : State} (hempty : Empty cfg s₀)
    (hrun : Run cfg reportHash otherChecks s₀ s) :
    (pendingHashes s.assurances ++ entryHashes s.accumulationQueue.flatten ++
      s.accumulationHistory.flatten).Nodup ∧
    ∀ (b : Block) (available accumulatable : List Report) (kept : List (Option Pending)),
      blockAssurances reportHash s b = .ok (available, kept) →
      blockAccumulatable cfg s b available = .ok accumulatable →
      (hashes (accumulatable.take b.nrWorkResultsAccumulated)).Nodup ∧
      ∀ h ∈ hashes (accumulatable.take b.nrWorkResultsAccumulated),
        h ∉ s.accumulationHistory.flatten := by
  have hs := hempty.distinct.run hrun
  refine ⟨hs.nodup, ?_⟩
  intro b available accumulatable kept hassurances haccumulatable
  obtain ⟨hnodup, hsubset⟩ :=
    hs.accumulated hassurances haccumulatable b.nrWorkResultsAccumulated
  refine ⟨hnodup, ?_⟩
  intro h hmem hhistory
  have hsplit := (blockAssurances_eq_ok hassurances).1.subset
  have hbefore : h ∈ pendingHashes s.assurances ++ entryHashes s.accumulationQueue.flatten := by
    rcases List.mem_append.mp (hsubset hmem) with havailable | hqueued
    · exact List.mem_append_left _ (hsplit (List.mem_append_left _ havailable))
    · exact List.mem_append_right _ hqueued
  exact (List.nodup_append'.mp hs.nodup).2.2 hbefore hhistory

end Run

/-- A chain with two slots in an epoch and one core. -/
def sampleConfig : Config := ⟨2, 1, 20000000, 1000, by decide⟩

def sampleReport : Report where
  packageHash := Vector.replicate 32 1
  exportsRoot := Vector.replicate 32 0
  authorizerHash := Vector.replicate 32 0
  authOutput := []
  results := []
  coreIndex := 0
  prerequisites := []
  segmentRootLookup := ∅

/-- Nothing is in the pipeline. -/
def sampleStart : State := ⟨0, [], [none], [[], []], [[], []]⟩

/-- The report is guaranteed, and two slots later assured by all six validators. -/
def sampleBlocks : Block × Block :=
  (⟨1, [], [], [sampleReport], 6, 6, 0⟩, ⟨3, [], List.replicate 6 [0], [], 6, 6, 1⟩)

def sampleReported : State := postState sampleConfig sampleStart sampleBlocks.1 [] [none] []

def sampleAccumulated : State :=
  postState sampleConfig sampleReported sampleBlocks.2 [sampleReport] [none] [sampleReport]

/-- The report is accumulated by a run of two blocks. -/
theorem sampleReport_accumulated :
    sampleAccumulated.accumulationHistory.flatten = [sampleReport.packageHash] ∧
      sampleAccumulated.packages.Nodup := by
  have hreported : applyBlock sampleConfig (fun w => w.packageHash) (fun _ _ => true) sampleStart
      sampleBlocks.1 = .ok sampleReported := rfl
  have haccumulated : applyBlock sampleConfig (fun w => w.packageHash) (fun _ _ => true)
      sampleReported sampleBlocks.2 = .ok sampleAccumulated := rfl
  refine ⟨by decide, ?_⟩
  exact (packages_distinct ⟨rfl, rfl, rfl⟩ (.block (.block (.none _) hreported) haccumulated)).1

end Pipeline
