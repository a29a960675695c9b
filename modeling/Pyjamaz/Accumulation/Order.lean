import Pyjamaz.Accumulation.Parallel

/-!
# The order of a round

The services of a round may run in any order: each works on its own copy of the state, the outputs
are sorted by service id before anything is folded, and the merge of the service changes would not
notice a different order anyway.
-/

namespace Accumulation

open Services

variable {coreCount : ℕ}

/-! ## Outputs of a list of services -/

section RunServices

variable {invoke : Invoke coreCount} {state : AccumulationStateComponents coreCount}
  {input : RoundInput}

lemma runServices_cons (s : ℕ) (services : List ℕ) :
    runServices invoke state input (s :: services) =
      (singleStepAccumulation invoke state input s).bind (fun o =>
        (runServices invoke state input services).map (fun outputs => (s, o) :: outputs)) := by
  rw [runServices, List.mapM_cons]
  cases singleStepAccumulation invoke state input s with
  | none => rfl
  | some o =>
    cases hrest : runServices invoke state input services with
    | none => simp [runServices] at hrest ⊢; simp [hrest]
    | some outputs => simp [runServices] at hrest ⊢; simp [hrest]

/-- The outputs name the services in order, and each is the service's own. -/
lemma runServices_eq_some {services : List ℕ} :
    ∀ {outputs : Outputs coreCount}, runServices invoke state input services = some outputs →
      outputs.map Prod.fst = services ∧
        ∀ p ∈ outputs, singleStepAccumulation invoke state input p.1 = some p.2 := by
  induction services with
  | nil =>
    intro outputs h
    cases h
    exact ⟨rfl, nofun⟩
  | cons s services ih =>
    intro outputs h
    rw [runServices_cons, Option.bind_eq_some_iff] at h
    obtain ⟨o, ho, h⟩ := h
    obtain ⟨rest, hrest, rfl⟩ := Option.map_eq_some_iff.mp h
    obtain ⟨hids, hsteps⟩ := ih hrest
    refine ⟨by rw [List.map_cons, hids], ?_⟩
    intro p hp
    rcases List.mem_cons.mp hp with rfl | hp
    · exact ho
    · exact hsteps p hp

/-- The round stops when one of its services raises. -/
lemma runServices_eq_none {services : List ℕ} :
    runServices invoke state input services = none ↔
      ∃ s ∈ services, singleStepAccumulation invoke state input s = none := by
  induction services with
  | nil => simp [runServices]
  | cons s services ih =>
    rw [runServices_cons]
    cases hs : singleStepAccumulation invoke state input s with
    | none => simp [hs]
    | some o => simp [hs, ih]

end RunServices

/-- Two lists of outputs that agree with one function and are sorted by distinct ids. -/
lemma outputs_eq_of_perm {f : ℕ → Option (PvmAccumulateOutput coreCount)}
    {outputs outputs' : Outputs coreCount} (h : ∀ p ∈ outputs, f p.1 = some p.2)
    (h' : ∀ p ∈ outputs', f p.1 = some p.2) (hperm : outputs.Perm outputs')
    (hsorted : outputs.Pairwise (fun p q => p.1 ≤ q.1))
    (hsorted' : outputs'.Pairwise (fun p q => p.1 ≤ q.1)) : outputs = outputs' := by
  refine List.Perm.eq_of_pairwise ?_ hsorted hsorted' hperm
  intro p q hp hq hle hge
  have hid : p.1 = q.1 := le_antisymm hle hge
  have hout : some p.2 = some q.2 := by rw [← h p hp, ← h' q hq, hid]
  exact Prod.ext hid (Option.some.inj hout)

/-- Outputs of the same services, run in another order. -/
lemma perm_of_runServices {invoke : Invoke coreCount} {state : AccumulationStateComponents coreCount}
    {input : RoundInput} {services services' : List ℕ} {outputs outputs' : Outputs coreCount}
    (hperm : services.Perm services') (h : runServices invoke state input services = some outputs)
    (h' : runServices invoke state input services' = some outputs') : outputs.Perm outputs' := by
  have hshape : ∀ {services : List ℕ} {outputs : Outputs coreCount},
      runServices invoke state input services = some outputs →
        outputs.map some = services.map (fun s =>
          (singleStepAccumulation invoke state input s).map (fun o => (s, o))) := by
    intro services outputs hrun
    obtain ⟨hids, hsteps⟩ := runServices_eq_some hrun
    rw [← hids, List.map_map]
    apply List.map_congr_left
    intro p hp
    simp [hsteps p hp]
  have hmap : (outputs.map some).Perm (outputs'.map some) := by
    rw [hshape h, hshape h']
    exact hperm.map _
  simpa [List.filterMap_map] using hmap.filterMap id

/-- A round that succeeds has run its services and finished with their outputs. -/
lemma parallelAccumulation_eq_ok {P : Primitives} {timeslot : ℕ} {invoke : Invoke coreCount}
    {state : AccumulationStateComponents coreCount} {input : RoundInput}
    {out : ParallelAccumulationOutput coreCount}
    (h : parallelAccumulation P timeslot invoke state input = .ok out) :
    ∃ outputs, runServices invoke state input input.serviceIds = some outputs ∧
      finishRound P timeslot state outputs = .ok out := by
  rw [parallelAccumulation] at h
  cases hrun : runServices invoke state input input.serviceIds with
  | none =>
    rw [hrun] at h
    cases h
  | some outputs =>
    rw [hrun] at h
    exact ⟨outputs, rfl, h⟩

/-! ## Independence of the order -/

/-- A completion order of the futures changes nothing. -/
lemma threadPoolAccumulation_eq (P : Primitives) (timeslot : ℕ) (invoke : Invoke coreCount)
    (state : AccumulationStateComponents coreCount) (input : RoundInput) {completion : List ℕ}
    (h : completion.Perm input.serviceIds) :
    threadPoolAccumulation P timeslot invoke state input completion =
      parallelAccumulation P timeslot invoke state input := by
  rw [threadPoolAccumulation, parallelAccumulation]
  cases hpool : runServices invoke state input completion with
  | none =>
    have hseq : runServices invoke state input input.serviceIds = none := by
      rw [runServices_eq_none] at hpool ⊢
      obtain ⟨s, hs, hnone⟩ := hpool
      exact ⟨s, h.mem_iff.mp hs, hnone⟩
    rw [hseq]
  | some outputs =>
    cases hseq : runServices invoke state input input.serviceIds with
    | none =>
      obtain ⟨s, hs, hnone⟩ := runServices_eq_none.mp hseq
      have hpool' := runServices_eq_none.mpr ⟨s, h.mem_iff.mpr hs, hnone⟩
      rw [hpool] at hpool'
      cases hpool'
    | some outputs' =>
      -- both lists hold the same outputs in ascending order of their services
      obtain ⟨hids', hsteps'⟩ := runServices_eq_some hseq
      obtain ⟨-, hsteps⟩ := runServices_eq_some hpool
      have hperm := (List.perm_insertionSort (fun p q : ℕ × PvmAccumulateOutput coreCount =>
        p.1 ≤ q.1) outputs).trans (perm_of_runServices h hpool hseq)
      have hsorted' : outputs'.Pairwise (fun p q => p.1 ≤ q.1) := by
        have hids := pairwise_sortedSet
          (input.workReports.flatMap (fun w => w.results.map WorkResult.serviceId) ++
            input.autoAccumulateServices.keys ++
            input.deferredTransfers.map DeferredTransfer.receiver)
        rw [← RoundInput.serviceIds, ← hids', List.pairwise_map] at hids
        exact hids
      have heq := outputs_eq_of_perm (f := singleStepAccumulation invoke state input)
        (fun p hp => hsteps p ((List.perm_insertionSort _ outputs).mem_iff.mp hp)) hsteps' hperm
        (List.pairwise_insertionSort _ outputs) hsorted'
      simp only [heq]

/-- The merge gives the same answer for every order of the outputs: it raises the conflict error, or
returns the same changes (or a stored account cannot be read, and it always raises that error).  A
round that runs its services in a thread pool is therefore the sequential round. -/
theorem accumulation_order_independent (services : ServicesState) (outputs : Outputs coreCount)
    (hnodup : (outputs.map Prod.fst).Nodup) :
    ((∀ outputs', outputs.Perm outputs' →
        mergeAccumulationServiceChanges services outputs' = .error .conflict) ∨
      (∃ merged, ∀ outputs', outputs.Perm outputs' →
        ∃ merged', mergeAccumulationServiceChanges services outputs' = .ok merged' ∧
          SameChanges merged merged') ∨
      (∃ s ∈ candidates outputs, ∃ e, services.serviceExists s = .error e ∧
        ∀ outputs', outputs.Perm outputs' →
          mergeAccumulationServiceChanges services outputs' = .error (.services e))) ∧
    (∀ P timeslot (invoke : Invoke coreCount) state input completion,
      completion.Perm (RoundInput.serviceIds input) →
        threadPoolAccumulation P timeslot invoke state input completion =
          parallelAccumulation P timeslot invoke state input) := by
  refine ⟨?_, fun P timeslot invoke state input completion h =>
    threadPoolAccumulation_eq P timeslot invoke state input h⟩
  cases hmerge : mergeAccumulationServiceChanges services outputs with
  | ok merged =>
    refine .inr (.inl ⟨merged, fun outputs' h => ?_⟩)
    have hsame := merge_perm services hnodup h
    rw [hmerge] at hsame
    cases hmerge' : mergeAccumulationServiceChanges services outputs' with
    | ok merged' =>
      rw [hmerge'] at hsame
      exact ⟨merged', rfl, hsame⟩
    | error e =>
      rw [hmerge'] at hsame
      exact absurd hsame id
  | error e =>
    have hall : ∀ outputs', outputs.Perm outputs' →
        mergeAccumulationServiceChanges services outputs' = .error e := by
      intro outputs' h
      have hsame := merge_perm services hnodup h
      rw [hmerge] at hsame
      cases hmerge' : mergeAccumulationServiceChanges services outputs' with
      | ok merged' =>
        rw [hmerge'] at hsame
        exact absurd hsame id
      | error e' =>
        rw [hmerge'] at hsame
        rw [hsame]
    rcases merge_eq_error hmerge with rfl | ⟨s, hs, e₀, hread, rfl⟩
    · exact .inl hall
    · exact .inr (.inr ⟨s, hs, e₀, hread, hall⟩)

/-! ## Two services that create one account -/

/-- An account with nothing in it. -/
def sampleAccount (balance : ℤ) : ServiceAccount where
  codeHash := Vector.replicate 32 0
  balance := balance
  gasLimitAccumulate := 0
  gasLimitOnTransfer := 0
  footprintStorageBytes := 0
  depositOffset := 0
  footprintStorageItems := 0
  creationSlot := 0
  lastAccumulationSlot := 0
  parentService := 0

/-- An output whose only change is to create an account. -/
def sampleCreation (s : ℕ) : PvmAccumulateOutput 0 where
  stateContext := {
    services := ⟨.init ∅, { PendingChanges.empty with
      serviceAccounts := Dict.insert ∅ s (some (sampleAccount 0)) }, ∅⟩
    validatorQueue := []
    authorizerQueues := .emptyWithCapacity 0
    privilegedServices := ⟨0, .emptyWithCapacity 0, 0, 0, ∅⟩ }
  deferredTransfers := []
  accumulationOutput := none
  gasUsed := 0
  preimages := []

/-- Services 1 and 2 both create account 70000: every order is a conflict. -/
theorem sampleCreation_conflicts :
    ([(1, sampleCreation 70000), (2, sampleCreation 70000)].map Prod.fst).Nodup ∧
      ∀ outputs', [(1, sampleCreation 70000), (2, sampleCreation 70000)].Perm outputs' →
        mergeAccumulationServiceChanges ⟨.init ∅, .empty, ∅⟩ outputs' = .error .conflict := by
  have hnodup : ([(1, sampleCreation 70000), (2, sampleCreation 70000)].map Prod.fst).Nodup := by
    decide
  have hconflict : mergeAccumulationServiceChanges ⟨.init ∅, .empty, ∅⟩
      [(1, sampleCreation 70000), (2, sampleCreation 70000)] = .error .conflict := rfl
  refine ⟨hnodup, ?_⟩
  rcases (accumulation_order_independent ⟨.init ∅, .empty, ∅⟩ _ hnodup).1 with h | ⟨m, h⟩ | ⟨s, -, e, -, h⟩
  · exact h
  · obtain ⟨m', hm', -⟩ := h _ (List.Perm.refl _)
    rw [hconflict] at hm'
    cases hm'
  · have hself := h _ (List.Perm.refl _)
    rw [hconflict] at hself
    cases hself

end Accumulation
