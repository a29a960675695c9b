import Mathlib.Algebra.BigOperators.Ring.Finset
import Mathlib.Tactic.Linarith
import Pyjamaz.Accumulation.Order
import Pyjamaz.Library.Sums

/-!
# The gas budget of sequential accumulation

`full_sequential_accumulation` runs rounds until there is nothing left to accumulate.  A call reserves
the gas of its incoming transfers and of the services that always accumulate, takes as many reports as
still fit its limit, runs a round and calls itself with the rest: gas that was used is taken from the
limit, gas that was forwarded with a transfer is given back to it.

The function calls itself once for every round, so it is given the number of nested calls that the
interpreter's recursion limit leaves, and raises when they are used up.  The round is a parameter: the
budget needs only that it reports for each service no more gas than it was supplied with
(`GasBounded`), and the end of the rounds that transfers are charged for (`TransfersCharged`).  The
rounds of `parallelAccumulation` inherit both from the single invocations.
-/

namespace Accumulation

open Services

variable {coreCount : ℕ}

/-! ## The calls -/

/-- One round: the state and the input to the output. -/
abbrev Round (coreCount : ℕ) :=
  AccumulationStateComponents coreCount → RoundInput →
    Except AccumulationError (ParallelAccumulationOutput coreCount)

/-- The arguments of one call. -/
structure Call (coreCount : ℕ) where
  gasLimit : ℤ
  deferredTransfers : List DeferredTransfer
  workReports : List WorkReport
  accumulationState : AccumulationStateComponents coreCount
  autoAccumulateServices : Dict ℕ ℕ

/-- The gas that a report asks for. -/
def WorkReport.gas (w : WorkReport) : ℕ := (w.results.map WorkResult.accumulateGas).sum

/-- The loop that counts the reports which still fit: it stops at the first one that does not. -/
def fittingReports (gasLimit : ℤ) : ℤ → List WorkReport → ℕ
  | _, [] => 0
  | gasReserved, w :: rest =>
    if gasReserved + w.gas > gasLimit then 0
    else fittingReports gasLimit (gasReserved + w.gas) rest + 1

/-- The gas of a list of transfers. -/
def forwardedGas (transfers : List DeferredTransfer) : ℕ :=
  (transfers.map DeferredTransfer.gasLimit).sum

namespace Call

/-- `gas_reserved` before the loop. -/
def gasReserved (c : Call coreCount) : ℕ :=
  forwardedGas c.deferredTransfers + c.autoAccumulateServices.values.sum

/-- `i`: the number of reports that are selected. -/
def selected (c : Call coreCount) : ℕ := fittingReports c.gasLimit c.gasReserved c.workReports

/-- `n`: the number of things to accumulate. -/
def size (c : Call coreCount) : ℕ :=
  c.deferredTransfers.length + c.selected + c.autoAccumulateServices.entries.length

/-- What the round is given. -/
def roundInput (c : Call coreCount) : RoundInput :=
  ⟨c.deferredTransfers, c.workReports.take c.selected, c.autoAccumulateServices⟩

/-- The call that follows a round. -/
def next (c : Call coreCount) (out : ParallelAccumulationOutput coreCount) : Call coreCount where
  gasLimit := c.gasLimit + forwardedGas out.deferredTransfers - out.accumulationGasUtilized.values.sum
  deferredTransfers := out.deferredTransfers
  workReports := c.workReports.drop c.selected
  accumulationState := out.accumulationState
  autoAccumulateServices := ∅

end Call

/-- `sum_dict_values`; the order of a set is not specified, ascending here. -/
def sumDictValues (d1 d2 : Dict ℕ ℤ) : Dict ℕ ℤ where
  entries := (sortedSet (d1.keys ++ d2.keys)).map
    (fun k => (k, (d1.get? k).getD 0 + (d2.get? k).getD 0))
  nodup := by
    rw [List.map_map]
    exact (List.map_id _).symm ▸ nodup_sortedSet (d1.keys ++ d2.keys)

lemma sum_values_sumDictValues (d1 d2 : Dict ℕ ℤ) :
    (sumDictValues d1 d2).values.sum = d1.values.sum + d2.values.sum := by
  have hnodup := nodup_sortedSet (d1.keys ++ d2.keys)
  have h1 := d1.sum_getD_eq_sum_values hnodup (fun k hk => by simp [hk])
  have h2 := d2.sum_getD_eq_sum_values hnodup (fun k hk => by simp [hk])
  rw [← h1, ← h2, ← List.sum_map_add, Dict.values, sumDictValues, List.map_map]
  rfl

/-- `FullAccumulationOutput` -/
structure FullAccumulationOutput (coreCount : ℕ) where
  nrWorkResultsAccumulated : ℕ
  postAccumulationState : AccumulationStateComponents coreCount
  accumulationCommitment : Finset (ℕ × Octets)
  accumulationGasUtilized : Dict ℕ ℤ
  processedTransfers : List DeferredTransfer

/-- What a call returns, from its round and the recursive call.  The state is one object, which
every round changes in place. -/
def FullAccumulationOutput.combine (c : Call coreCount) (out : ParallelAccumulationOutput coreCount)
    (second : FullAccumulationOutput coreCount) : FullAccumulationOutput coreCount where
  nrWorkResultsAccumulated := c.selected + second.nrWorkResultsAccumulated
  postAccumulationState := second.postAccumulationState
  accumulationCommitment := out.accumulationCommitment ∪ second.accumulationCommitment
  accumulationGasUtilized :=
    sumDictValues out.accumulationGasUtilized second.accumulationGasUtilized
  processedTransfers := c.deferredTransfers ++ second.processedTransfers

/-- The exceptions of a call. -/
inductive SequentialError where
  | recursionError
  | round (e : AccumulationError)
  deriving DecidableEq, Repr

/-- `full_sequential_accumulation`; the number is that of the nested calls which the recursion limit
leaves. -/
def fullSequentialAccumulation (round : Round coreCount) :
    ℕ → Call coreCount → Except SequentialError (FullAccumulationOutput coreCount)
  | 0, _ => .error .recursionError
  | depth + 1, c =>
    if c.size = 0 then .ok ⟨0, c.accumulationState, ∅, ∅, []⟩
    else match round c.accumulationState c.roundInput with
      | .error e => .error (.round e)
      | .ok out => (fullSequentialAccumulation round depth (c.next out)).map
          (FullAccumulationOutput.combine c out)

/-- The rounds between a call and a later one, each with its call and its output. -/
inductive Rounds (round : Round coreCount) : Call coreCount →
    List (Call coreCount × ParallelAccumulationOutput coreCount) → Call coreCount → Prop
  | none (c : Call coreCount) : Rounds round c [] c
  | step {c c' : Call coreCount} {out : ParallelAccumulationOutput coreCount}
      {rest : List (Call coreCount × ParallelAccumulationOutput coreCount)} (hsize : c.size ≠ 0)
      (hround : round c.accumulationState c.roundInput = .ok out)
      (hrest : Rounds round (c.next out) rest c') : Rounds round c ((c, out) :: rest) c'

/-! ## The gas supplied to a round -/

/-- The allowances, transfers and results of a round, each with its service and its gas. -/
def RoundInput.charges (input : RoundInput) : List (ℕ × ℕ) :=
  input.autoAccumulateServices.entries ++
    input.deferredTransfers.map (fun t => (t.receiver, t.gasLimit)) ++
    input.workReports.flatMap (fun w => w.results.map (fun r => (r.serviceId, r.accumulateGas)))

/-- The gas supplied to all services of a round. -/
def RoundInput.suppliedGas (input : RoundInput) : ℕ := (input.charges.map Prod.snd).sum

lemma RoundInput.gasFor_eq_sumAt (input : RoundInput) (s : ℕ) :
    input.gasFor s = sumAt input.charges s := by
  have htransfers : sumAt (input.deferredTransfers.map (fun t => (t.receiver, t.gasLimit))) s =
      ((input.transfersTo s).map DeferredTransfer.gasLimit).sum := by
    simp [sumAt, RoundInput.transfersTo, List.filter_map, Function.comp_def]
  have hresults : sumAt (input.workReports.flatMap
      (fun w => w.results.map (fun r => (r.serviceId, r.accumulateGas)))) s =
        ((input.resultsFor s).map (fun wr => wr.2.accumulateGas)).sum := by
    simp [sumAt, RoundInput.resultsFor, List.filter_flatMap, List.map_flatMap, List.filter_map,
      Function.comp_def]
  rw [RoundInput.gasFor, RoundInput.charges, sumAt_append, sumAt_append, Dict.sumAt_entries,
    htransfers, hresults]

/-- The gas supplied is the reserved gas and that of the selected reports. -/
lemma Call.suppliedGas_roundInput (c : Call coreCount) :
    c.roundInput.suppliedGas =
      c.gasReserved + ((c.workReports.take c.selected).map WorkReport.gas).sum := by
  have hreports : ((c.workReports.take c.selected).flatMap
      (fun w => w.results.map (fun r => (r.serviceId, r.accumulateGas)))).map Prod.snd =
        (c.workReports.take c.selected).flatMap (fun w => w.results.map WorkResult.accumulateGas) := by
    simp [List.map_flatMap, Function.comp_def]
  have hsum : ∀ reports : List WorkReport,
      (reports.flatMap (fun w => w.results.map WorkResult.accumulateGas)).sum =
        (reports.map WorkReport.gas).sum := by
    intro reports
    induction reports with
    | nil => rfl
    | cons w rest ih =>
      rw [List.flatMap_cons, List.sum_append, ih]
      rfl
  have htransfers : (c.deferredTransfers.map (fun t => (t.receiver, t.gasLimit))).map Prod.snd =
      c.deferredTransfers.map DeferredTransfer.gasLimit := by
    simp [Function.comp_def]
  simp only [RoundInput.suppliedGas, RoundInput.charges, Call.roundInput, List.map_append,
    List.sum_append, hreports, hsum, htransfers]
  rw [Call.gasReserved, forwardedGas, Dict.values]
  omega

/-- The selected reports fit what is left of the limit, if the reserved gas does. -/
lemma sum_gas_take_fittingReports {gasLimit : ℤ} (reports : List WorkReport) :
    ∀ {gasReserved : ℤ}, gasReserved ≤ gasLimit →
      gasReserved + ((reports.take (fittingReports gasLimit gasReserved reports)).map
        WorkReport.gas).sum ≤ gasLimit := by
  induction reports with
  | nil =>
    intro gasReserved h
    simpa [fittingReports] using h
  | cons w rest ih =>
    intro gasReserved h
    rw [fittingReports]
    split
    · simpa using h
    · next hfits =>
      have hrest := ih (not_lt.mp hfits)
      rw [List.take_succ_cons, List.map_cons, List.sum_cons, Nat.cast_add]
      linarith

lemma fittingReports_le_length (gasLimit : ℤ) (reports : List WorkReport) :
    ∀ gasReserved, fittingReports gasLimit gasReserved reports ≤ reports.length := by
  induction reports with
  | nil =>
    intro gasReserved
    exact le_rfl
  | cons w rest ih =>
    intro gasReserved
    rw [fittingReports]
    split
    · exact Nat.zero_le _
    · exact Nat.succ_le_succ (ih _)

/-- A call whose limit covers the reserved gas covers the whole round. -/
lemma Call.suppliedGas_le {c : Call coreCount} (h : (c.gasReserved : ℤ) ≤ c.gasLimit) :
    (c.roundInput.suppliedGas : ℤ) ≤ c.gasLimit := by
  rw [c.suppliedGas_roundInput]
  have hfits := sum_gas_take_fittingReports c.workReports h
  rw [← Call.selected] at hfits
  rw [Nat.cast_add]
  exact hfits

/-! ## The budget of a run -/

/-- The gas that a round reports. -/
def usedGas (out : ParallelAccumulationOutput coreCount) : ℤ := out.accumulationGasUtilized.values.sum

/-- A round that reports for each service no more gas than it was supplied with. -/
def GasBounded (round : Round coreCount) : Prop :=
  ∀ state input out, round state input = .ok out →
    ∀ s used, out.accumulationGasUtilized.get? s = some used → used ≤ input.gasFor s

section Budget

variable {round : Round coreCount}

/-- All services together use no more than the round was supplied with. -/
lemma GasBounded.usedGas_le (h : GasBounded round) {state : AccumulationStateComponents coreCount}
    {input : RoundInput} {out : ParallelAccumulationOutput coreCount}
    (hround : round state input = .ok out) : usedGas out ≤ input.suppliedGas := by
  have hle : usedGas out ≤
      (out.accumulationGasUtilized.keys.map (fun s => (input.gasFor s : ℤ))).sum := by
    rw [usedGas, Dict.values, Dict.keys, List.map_map]
    apply List.sum_le_sum
    rintro ⟨s, used⟩ hmem
    exact h state input out hround s used (Dict.mem_entries_iff.mp hmem)
  have hsum := sum_sumAt_le out.accumulationGasUtilized.nodup input.charges
  have hcast : (out.accumulationGasUtilized.keys.map (fun s => (input.gasFor s : ℤ))).sum =
      ((out.accumulationGasUtilized.keys.map (sumAt input.charges)).sum : ℕ) := by
    rw [Nat.cast_list_sum, List.map_map]
    congr 1
    apply List.map_congr_left
    intro s _
    rw [RoundInput.gasFor_eq_sumAt]
    rfl
  calc usedGas out
      ≤ ((out.accumulationGasUtilized.keys.map (sumAt input.charges)).sum : ℕ) := hcast ▸ hle
    _ ≤ input.suppliedGas := by exact_mod_cast hsum

/-- What every call of a run knows: its limit covers the gas that is reserved at its start. -/
def Call.Covered (c : Call coreCount) : Prop := (c.gasReserved : ℤ) ≤ c.gasLimit

lemma Call.Covered.gasLimit_nonneg {c : Call coreCount} (h : c.Covered) : 0 ≤ c.gasLimit :=
  (Int.natCast_nonneg _).trans h

/-- A round leaves the next call covered: what it forwards has been credited again. -/
lemma Call.Covered.next (h : GasBounded round) {c : Call coreCount} (hc : c.Covered)
    {out : ParallelAccumulationOutput coreCount}
    (hround : round c.accumulationState c.roundInput = .ok out) : (c.next out).Covered := by
  have hused := (h.usedGas_le hround).trans (Call.suppliedGas_le hc)
  rw [usedGas] at hused
  simp only [Call.Covered, Call.next, Call.gasReserved, Dict.values, Dict.entries_empty,
    List.map_nil, List.sum_nil, Nat.add_zero] at hused ⊢
  linarith

/-- Gas used less gas forwarded, over the rounds of a list. -/
def netGas (rounds : List (Call coreCount × ParallelAccumulationOutput coreCount)) : ℤ :=
  (rounds.map (fun r => usedGas r.2 - forwardedGas r.2.deferredTransfers)).sum

/-- A run keeps its calls covered, pays for its rounds from the limit and takes the reports in
order. -/
lemma Rounds.invariant (h : GasBounded round) {c c' : Call coreCount}
    {rounds : List (Call coreCount × ParallelAccumulationOutput coreCount)}
    (hrun : Rounds round c rounds c') (hc : c.Covered) :
    c'.Covered ∧ netGas rounds = c.gasLimit - c'.gasLimit ∧
      rounds.flatMap (fun r => r.1.roundInput.workReports) ++ c'.workReports = c.workReports := by
  induction hrun with
  | none c => exact ⟨hc, by simp [netGas], rfl⟩
  | @step c c' out rest hsize hround hrest ih =>
    obtain ⟨hc', hnet, hreports⟩ := ih (hc.next h hround)
    refine ⟨hc', ?_, ?_⟩
    · have hcons : netGas ((c, out) :: rest) =
          usedGas out - forwardedGas out.deferredTransfers + netGas rest := rfl
      have hlimit : (c.next out).gasLimit =
          c.gasLimit + forwardedGas out.deferredTransfers - usedGas out := rfl
      rw [hcons, hnet, hlimit]
      ring
    · have hrest : (c.next out).workReports = c.workReports.drop c.selected := rfl
      rw [List.flatMap_cons, List.append_assoc, hreports, hrest]
      exact List.take_append_drop c.selected c.workReports

/-- A call that returns has gone through rounds to a call with nothing to do; it counts the reports
that they selected, adds up their gas and collects their transfers. -/
lemma fullSequentialAccumulation_eq_ok {depth : ℕ} :
    ∀ {c : Call coreCount} {result : FullAccumulationOutput coreCount},
      fullSequentialAccumulation round depth c = .ok result →
        ∃ rounds c', Rounds round c rounds c' ∧ c'.size = 0 ∧
          result.nrWorkResultsAccumulated = (rounds.map (fun r => r.1.selected)).sum ∧
          result.accumulationGasUtilized.values.sum = (rounds.map (fun r => usedGas r.2)).sum ∧
          result.processedTransfers = rounds.flatMap (fun r => r.1.deferredTransfers) := by
  induction depth with
  | zero =>
    intro c result h
    cases h
  | succ depth ih =>
    intro c result h
    rw [fullSequentialAccumulation] at h
    by_cases hsize : c.size = 0
    · rw [if_pos hsize] at h
      cases h
      exact ⟨[], c, .none c, hsize, rfl, rfl, rfl⟩
    · rw [if_neg hsize] at h
      cases hround : round c.accumulationState c.roundInput with
      | error e =>
        rw [hround] at h
        cases h
      | ok out =>
        simp only [hround] at h
        cases hrest : fullSequentialAccumulation round depth (c.next out) with
        | error e =>
          rw [hrest] at h
          cases h
        | ok second =>
          rw [hrest] at h
          cases h
          obtain ⟨rounds, c', hrun, hfinal, hcount, hgas, htransfers⟩ := ih hrest
          refine ⟨(c, out) :: rounds, c', .step hsize hround hrun, hfinal, ?_, ?_, ?_⟩
          · simp only [FullAccumulationOutput.combine, List.map_cons, List.sum_cons, hcount]
          · simp only [FullAccumulationOutput.combine, List.map_cons, List.sum_cons, ← hgas]
            exact sum_values_sumDictValues _ _
          · simp only [FullAccumulationOutput.combine, List.flatMap_cons, htransfers]

end Budget

/-! ## Termination -/

/-- Every transfer that a round emits has cost a unit of gas beyond the gas that it forwards. -/
def TransfersCharged (round : Round coreCount) : Prop :=
  ∀ state input out, round state input = .ok out →
    ((out.deferredTransfers.map (fun t => t.gasLimit + 1)).sum : ℕ) ≤ usedGas out

/-- The rank of a call: the limit and the reports that are left, and whether anything is certain to
run before the next reports are selected. -/
def Call.rank (c : Call coreCount) : ℕ :=
  2 * (c.gasLimit.toNat + c.workReports.length) +
    if c.deferredTransfers = [] ∧ c.autoAccumulateServices.entries = [] then 0 else 1

section Termination

variable {round : Round coreCount}

lemma forwardedGas_add_length (transfers : List DeferredTransfer) :
    (transfers.map (fun t => t.gasLimit + 1)).sum = forwardedGas transfers + transfers.length := by
  induction transfers with
  | nil => rfl
  | cons t rest ih =>
    have hcons : forwardedGas (t :: rest) = t.gasLimit + forwardedGas rest := rfl
    rw [List.map_cons, List.sum_cons, ih, hcons, List.length_cons]
    omega

/-- A round lowers the rank: it emits a transfer, which costs gas for good, or selects a report, or
it has used up what was certain to run. -/
lemma Call.rank_next_lt (h : GasBounded round) (hcharged : TransfersCharged round)
    {c : Call coreCount} (hc : c.Covered) (hsize : c.size ≠ 0)
    {out : ParallelAccumulationOutput coreCount}
    (hround : round c.accumulationState c.roundInput = .ok out) : (c.next out).rank < c.rank := by
  have hnonneg : 0 ≤ (c.next out).gasLimit := (hc.next h hround).gasLimit_nonneg
  have hcost := hcharged _ _ _ hround
  rw [forwardedGas_add_length] at hcost
  have hlimit : (c.next out).gasLimit =
      c.gasLimit + forwardedGas out.deferredTransfers - usedGas out := rfl
  have hreports : (c.next out).workReports.length = c.workReports.length - c.selected :=
    List.length_drop
  have hselected : c.selected ≤ c.workReports.length := fittingReports_le_length _ _ _
  have htransfers : (c.next out).deferredTransfers = out.deferredTransfers := rfl
  have hauto : (c.next out).autoAccumulateServices.entries = [] := rfl
  rw [Nat.cast_add] at hcost
  rw [Call.rank, Call.rank, hreports, htransfers, hauto]
  by_cases hemitted : out.deferredTransfers = []
  · rw [if_pos ⟨hemitted, rfl⟩]
    by_cases hzero : c.selected = 0
    · have hcertain : ¬ (c.deferredTransfers = [] ∧ c.autoAccumulateServices.entries = []) := by
        rintro ⟨ht, ha⟩
        exact hsize (by simp [Call.size, ht, ha, hzero])
      rw [if_neg hcertain]
      omega
    · omega
  · have hlength := List.length_pos_iff.mpr hemitted
    rw [if_neg (fun hnil => hemitted hnil.1)]
    omega

/-- Nothing follows a call: it has nothing to do, or its round raises. -/
def Call.Ended (round : Round coreCount) (c : Call coreCount) : Prop :=
  c.size = 0 ∨ ∃ e, round c.accumulationState c.roundInput = .error e

/-- The rounds come to an end, after no more of them than the rank. -/
lemma exists_rounds_ended (h : GasBounded round) (hcharged : TransfersCharged round) {rank : ℕ} :
    ∀ {c : Call coreCount}, c.Covered → c.rank ≤ rank →
      ∃ rounds c', Rounds round c rounds c' ∧ c'.Ended round ∧ rounds.length ≤ rank := by
  induction rank with
  | zero =>
    intro c hc hrank
    refine ⟨[], c, .none c, ?_, le_rfl⟩
    by_cases hsize : c.size = 0
    · exact .inl hsize
    · cases hround : round c.accumulationState c.roundInput with
      | error e => exact .inr ⟨e, hround⟩
      | ok out =>
        have hlt := Call.rank_next_lt h hcharged hc hsize hround
        omega
  | succ rank ih =>
    intro c hc hrank
    by_cases hsize : c.size = 0
    · exact ⟨[], c, .none c, .inl hsize, Nat.zero_le _⟩
    · cases hround : round c.accumulationState c.roundInput with
      | error e => exact ⟨[], c, .none c, .inr ⟨e, hround⟩, Nat.zero_le _⟩
      | ok out =>
        have hlt := Call.rank_next_lt h hcharged hc hsize hround
        obtain ⟨rounds, c', hrun, hended, hlength⟩ := ih (hc.next h hround) (by omega)
        exact ⟨(c, out) :: rounds, c', .step hsize hround hrun, hended, Nat.succ_le_succ hlength⟩

/-- Every round takes a nested call, and the end takes one as well. -/
lemma Rounds.ne_recursionError_iff {c c' : Call coreCount}
    {rounds : List (Call coreCount × ParallelAccumulationOutput coreCount)}
    (hrun : Rounds round c rounds c') (hended : c'.Ended round) :
    ∀ depth, fullSequentialAccumulation round depth c ≠ .error .recursionError ↔
      rounds.length < depth := by
  induction hrun with
  | none c =>
    rintro (_ | depth)
    · simp [fullSequentialAccumulation]
    · refine iff_of_true ?_ (Nat.succ_pos depth)
      rw [fullSequentialAccumulation]
      by_cases hsize : c.size = 0
      · rw [if_pos hsize]
        simp
      · obtain ⟨e, hround⟩ := hended.resolve_left hsize
        simp [hsize, hround]
  | @step c c' out rest hsize hround hrest ih =>
    rintro (_ | depth)
    · simp [fullSequentialAccumulation]
    · rw [List.length_cons, Nat.succ_lt_succ_iff, ← ih hended depth, fullSequentialAccumulation,
        if_neg hsize]
      simp only [hround]
      cases fullSequentialAccumulation round depth (c.next out) <;> simp [Except.map]

end Termination

/-! ## The budget -/

/-- The call that the block's accumulation starts with. -/
def Call.start (gasLimit : ℕ) (workReports : List WorkReport)
    (state : AccumulationStateComponents coreCount) (autoAccumulateServices : Dict ℕ ℕ) :
    Call coreCount :=
  ⟨gasLimit, [], workReports, state, autoAccumulateServices⟩

/-- Over any rounds from the start, each call's limit covers the gas supplied to its round and is not
negative, the gas used less the gas forwarded stays below the initial limit, and the reports are
taken in order; what is returned counts the selected reports; and if transfers are charged for, the
rounds come to an end, which is reached exactly when there are fewer of them than nested calls. -/
theorem sequential_gas_budget (round : Round coreCount) (hbounded : GasBounded round)
    (gasLimit : ℕ) (workReports : List WorkReport) (state : AccumulationStateComponents coreCount)
    (autoAccumulateServices : Dict ℕ ℕ) (hcovers : autoAccumulateServices.values.sum ≤ gasLimit) :
    (∀ rounds c, Rounds round (.start gasLimit workReports state autoAccumulateServices) rounds c →
      c.roundInput.suppliedGas ≤ c.gasLimit ∧ 0 ≤ c.gasLimit ∧
      netGas rounds ≤ gasLimit ∧
      rounds.flatMap (fun r => r.1.roundInput.workReports) ++ c.workReports = workReports) ∧
    (∀ depth result, fullSequentialAccumulation round depth
        (.start gasLimit workReports state autoAccumulateServices) = .ok result →
      ∃ rounds c, Rounds round (.start gasLimit workReports state autoAccumulateServices) rounds c ∧
        c.size = 0 ∧
        result.nrWorkResultsAccumulated =
          (rounds.flatMap (fun r => r.1.roundInput.workReports)).length ∧
        result.accumulationGasUtilized.values.sum = (rounds.map (fun r => usedGas r.2)).sum) ∧
    (TransfersCharged round →
      ∃ rounds c, Rounds round (.start gasLimit workReports state autoAccumulateServices) rounds c ∧
        c.Ended round ∧ rounds.length ≤ 2 * (gasLimit + workReports.length) + 1 ∧
        ∀ depth, fullSequentialAccumulation round depth
            (.start gasLimit workReports state autoAccumulateServices) ≠ .error .recursionError ↔
          rounds.length < depth) := by
  have hstart : (Call.start gasLimit workReports state autoAccumulateServices).Covered := by
    have hreserved : (Call.start gasLimit workReports state autoAccumulateServices).gasReserved =
        autoAccumulateServices.values.sum := by
      simp [Call.start, Call.gasReserved, forwardedGas]
    rw [Call.Covered, hreserved]
    exact Int.ofNat_le.mpr hcovers
  refine ⟨?_, ?_, ?_⟩
  · intro rounds c hrun
    obtain ⟨hc, hnet, hreports⟩ := hrun.invariant hbounded hstart
    refine ⟨Call.suppliedGas_le hc, hc.gasLimit_nonneg, ?_, hreports⟩
    rw [hnet]
    exact sub_le_self _ hc.gasLimit_nonneg
  · intro depth result h
    obtain ⟨rounds, c, hrun, hsize, hcount, hgas, -⟩ := fullSequentialAccumulation_eq_ok h
    refine ⟨rounds, c, hrun, hsize, ?_, hgas⟩
    rw [hcount, List.length_flatMap]
    congr 1
    apply List.map_congr_left
    intro r _
    have hle : r.1.selected ≤ r.1.workReports.length := fittingReports_le_length _ _ _
    rw [Call.roundInput, List.length_take, min_eq_left hle]
  · intro hcharged
    have hrank : (Call.start gasLimit workReports state autoAccumulateServices).rank ≤
        2 * (gasLimit + workReports.length) + 1 := by
      simp only [Call.rank, Call.start, Int.toNat_natCast]
      split_ifs <;> omega
    obtain ⟨rounds, c, hrun, hended, hlength⟩ :=
      exists_rounds_ended hbounded hcharged hstart hrank
    exact ⟨rounds, c, hrun, hended, hlength, hrun.ne_recursionError_iff hended⟩

/-! ## Rounds of invocations -/

lemma gas_foldl_applyOutput (pre : PrivilegedServices coreCount) (outputs : Outputs coreCount) :
    ∀ acc : RoundState coreCount,
      (outputs.foldl (applyOutput pre) acc).accumulationGasUtilized =
        acc.accumulationGasUtilized.assign (outputs.map (fun p => (p.1, p.2.gasUsed))) := by
  induction outputs with
  | nil =>
    intro acc
    rfl
  | cons p rest ih =>
    intro acc
    have hstep : (applyOutput pre acc p).accumulationGasUtilized =
        acc.accumulationGasUtilized.insert p.1 p.2.gasUsed := by
      by_cases hs : p.1 = pre.manager
      · simp [applyOutput, applyQueues, applyManager, hs]
      · simp [applyOutput, applyQueues, applyManager, hs]
    rw [List.foldl_cons, ih, hstep]
    rfl

lemma transfers_foldl_applyOutput (pre : PrivilegedServices coreCount)
    (outputs : Outputs coreCount) : ∀ acc : RoundState coreCount,
      (outputs.foldl (applyOutput pre) acc).deferredTransfers =
        acc.deferredTransfers ++ outputs.flatMap (fun p => p.2.deferredTransfers) := by
  induction outputs with
  | nil =>
    intro acc
    simp
  | cons p rest ih =>
    intro acc
    have hstep : (applyOutput pre acc p).deferredTransfers =
        acc.deferredTransfers ++ p.2.deferredTransfers := by
      by_cases hs : p.1 = pre.manager
      · simp [applyOutput, applyQueues, applyManager, hs]
      · simp [applyOutput, applyQueues, applyManager, hs]
    rw [List.foldl_cons, ih, hstep, List.flatMap_cons, List.append_assoc]

/-- The gas and the transfers that a round reports are those of its invocations. -/
lemma exists_outputs_of_round {P : Primitives} {timeslot : ℕ} {invoke : Invoke coreCount}
    {state : AccumulationStateComponents coreCount} {input : RoundInput}
    {out : ParallelAccumulationOutput coreCount}
    (h : parallelAccumulation P timeslot invoke state input = .ok out) :
    ∃ outputs : Outputs coreCount,
      (∀ p ∈ outputs, singleStepAccumulation invoke state input p.1 = some p.2) ∧
      out.accumulationGasUtilized.entries = outputs.map (fun p => (p.1, p.2.gasUsed)) ∧
      out.deferredTransfers = outputs.flatMap (fun p => p.2.deferredTransfers) := by
  obtain ⟨outputs, hrun, hfinish⟩ := parallelAccumulation_eq_ok h
  obtain ⟨hids, hsteps⟩ := runServices_eq_some hrun
  obtain ⟨pending, committed, provided, services, -, -, -, rfl⟩ := finishRound_eq_ok hfinish
  refine ⟨outputs, hsteps, ?_, ?_⟩
  · have hnodup : ((outputs.map (fun p => (p.1, p.2.gasUsed))).map Prod.fst).Nodup := by
      have hmap : (outputs.map (fun p => (p.1, p.2.gasUsed))).map Prod.fst =
          outputs.map Prod.fst := by
        rw [List.map_map]
        rfl
      rw [hmap, hids]
      exact nodup_sortedSet _
    simp only [gas_foldl_applyOutput, RoundState.init]
    exact Dict.entries_assign hnodup
  · simp only [transfers_foldl_applyOutput, RoundState.init, List.nil_append]

/-- An invocation that reports no more gas than its limit and has charged a unit for each transfer
beyond the gas that it forwards. -/
structure InvocationBounded (invoke : Invoke coreCount) : Prop where
  used_le : ∀ {state service gas inputs o}, invoke state service gas inputs = some o →
    o.gasUsed ≤ gas
  charged : ∀ {state service gas inputs o}, invoke state service gas inputs = some o →
    ((o.deferredTransfers.map (fun t => t.gasLimit + 1)).sum : ℕ) ≤ o.gasUsed

section Invocations

variable {P : Primitives} {timeslot : ℕ} {invoke : Invoke coreCount}

/-- Rounds of bounded invocations are bounded. -/
lemma gasBounded_parallelAccumulation (h : InvocationBounded invoke) :
    GasBounded (parallelAccumulation P timeslot invoke) := by
  intro state input out hround s used hget
  obtain ⟨outputs, hsteps, hgas, -⟩ := exists_outputs_of_round hround
  have hmem := Dict.mem_entries_iff.mpr hget
  rw [hgas, List.mem_map] at hmem
  obtain ⟨p, hp, heq⟩ := hmem
  cases heq
  exact h.used_le (hsteps p hp)

/-- A round has charged for its transfers if its invocations have. -/
lemma transfersCharged_parallelAccumulation (h : InvocationBounded invoke) :
    TransfersCharged (parallelAccumulation P timeslot invoke) := by
  intro state input out hround
  obtain ⟨outputs, hsteps, hgas, htransfers⟩ := exists_outputs_of_round hround
  have hused : usedGas out = (outputs.map (fun p => p.2.gasUsed)).sum := by
    rw [usedGas, Dict.values, hgas, List.map_map]
    rfl
  rw [htransfers, hused]
  clear hround hgas htransfers hused
  induction outputs with
  | nil => exact le_rfl
  | cons p rest ih =>
    have hp := h.charged (hsteps p List.mem_cons_self)
    have hrest := ih (fun q hq => hsteps q (List.mem_cons_of_mem _ hq))
    rw [List.flatMap_cons, List.map_append, List.sum_append, Nat.cast_add, List.map_cons,
      List.sum_cons]
    exact add_le_add hp hrest

end Invocations

/-! ## A block with one report -/

/-- Every service spends all of its gas and does nothing. -/
def sampleSpending : Invoke 0 := fun state _ gas _ =>
  some {
    stateContext := state
    deferredTransfers := []
    accumulationOutput := none
    gasUsed := gas
    preimages := [] }

lemma sampleSpending_bounded : InvocationBounded sampleSpending where
  used_le := by
    intro state service gas inputs o h
    cases h
    exact le_rfl
  charged := by
    intro state service gas inputs o h
    cases h
    exact Int.natCast_nonneg gas

/-- A report with one result, for service 5. -/
def sampleReport (gas : ℕ) : WorkReport where
  packageHash := Vector.replicate 32 0
  exportsRoot := Vector.replicate 32 0
  authorizerHash := Vector.replicate 32 0
  authOutput := []
  results := [⟨5, gas, Vector.replicate 32 0, []⟩]

/-- A chain without cores and without accounts. -/
def sampleEmptyState : AccumulationStateComponents 0 :=
  ⟨⟨.init ∅, .empty, ∅⟩, [], .emptyWithCapacity 0, ⟨0, .emptyWithCapacity 0, 0, 0, ∅⟩⟩

/-- Rounds in which all gas is spent. -/
def sampleRound : Round 0 :=
  parallelAccumulation (.ofHash fun _ => Vector.replicate 32 0) 0 sampleSpending

/-- A limit of 100, an allowance of 40 and a report of 70: no round gets more than what is left, and
the accumulation stays within a thousand nested calls. -/
theorem sampleRound_ends :
    (∀ rounds c, Rounds sampleRound
        (.start 100 [sampleReport 70] sampleEmptyState (Dict.insert ∅ 1 40)) rounds c →
      c.roundInput.suppliedGas ≤ c.gasLimit) ∧
    fullSequentialAccumulation sampleRound 1000
      (.start 100 [sampleReport 70] sampleEmptyState (Dict.insert ∅ 1 40)) ≠
        .error .recursionError := by
  have hbudget := sequential_gas_budget sampleRound
    (gasBounded_parallelAccumulation sampleSpending_bounded) 100 [sampleReport 70]
    sampleEmptyState (Dict.insert ∅ 1 40) (by decide)
  refine ⟨fun rounds c hrun => (hbudget.1 rounds c hrun).1, ?_⟩
  obtain ⟨rounds, c, -, -, hlength, hreturns⟩ :=
    hbudget.2.2 (transfersCharged_parallelAccumulation sampleSpending_bounded)
  exact (hreturns 1000).mpr (lt_of_le_of_lt hlength (by decide))

/-! ## A transfer that goes round -/

/-- Service `s` passes its gas on to itself, less one unit. -/
def relayTransfer (s gas : ℕ) : DeferredTransfer := ⟨s, s, 0, [], gas⟩

/-- Every service spends its gas and forwards what it can of it to itself. -/
def sampleRelay : Invoke 0 := fun state service gas _ =>
  some {
    stateContext := state
    deferredTransfers := match gas with
      | 0 => []
      | rest + 1 => [relayTransfer service rest]
    accumulationOutput := none
    gasUsed := gas
    preimages := [] }

lemma sampleRelay_bounded : InvocationBounded sampleRelay where
  used_le := by
    intro state service gas inputs o h
    cases h
    exact le_rfl
  charged := by
    intro state service gas inputs o h
    cases h
    cases gas <;> simp [relayTransfer]

def sampleRelayRound : Round 0 :=
  parallelAccumulation (.ofHash fun _ => Vector.replicate 32 0) 0 sampleRelay

/-- A round that gives service 5 some gas emits a transfer of one unit less. -/
lemma sampleRelayRound_eq {input : RoundInput} {gas : ℕ} (hids : input.serviceIds = [5])
    (hgas : input.gasFor 5 = gas + 1) :
    ∃ out, sampleRelayRound sampleEmptyState input = .ok out ∧
      out.accumulationState = sampleEmptyState ∧ out.deferredTransfers = [relayTransfer 5 gas] := by
  have hrun : runServices sampleRelay sampleEmptyState input input.serviceIds =
      some [(5, ⟨sampleEmptyState, [relayTransfer 5 gas], none, (gas + 1 : ℕ), []⟩)] := by
    rw [hids, runServices]
    simp only [List.mapM_cons, List.mapM_nil, singleStepAccumulation, hgas]
    rfl
  rw [sampleRelayRound, parallelAccumulation, hrun]
  exact ⟨_, rfl, rfl, rfl⟩

/-- The transfer goes round once for every unit of gas. -/
lemma sampleRelayRound_raises (depth : ℕ) : ∀ {gas : ℕ} (limit : ℤ), depth ≤ gas →
    fullSequentialAccumulation sampleRelayRound depth
      ⟨limit, [relayTransfer 5 gas], [], sampleEmptyState, ∅⟩ = .error .recursionError := by
  induction depth with
  | zero =>
    intro gas limit _
    rfl
  | succ depth ih =>
    rintro (_ | gas) limit hle
    · omega
    · have hgas : RoundInput.gasFor ⟨[relayTransfer 5 (gas + 1)], [], ∅⟩ 5 = gas + 1 := by
        simp [RoundInput.gasFor, RoundInput.transfersTo, RoundInput.resultsFor, relayTransfer]
      obtain ⟨out, hround, hstate, htransfers⟩ := sampleRelayRound_eq rfl hgas
      rw [fullSequentialAccumulation, if_neg (by simp [Call.size])]
      simp only [Call.roundInput, List.take_nil, hround, Call.next, hstate, htransfers,
        List.drop_nil]
      rw [ih _ (Nat.succ_le_succ_iff.mp hle)]
      rfl

/-- A thousand units of gas that a service keeps sending to itself exhaust a thousand nested calls,
although every transfer is charged for. -/
theorem sampleRelayRound_not_returned :
    GasBounded sampleRelayRound ∧ TransfersCharged sampleRelayRound ∧
      (Dict.insert ∅ 5 1000 : Dict ℕ ℕ).values.sum ≤ 1000 ∧
      fullSequentialAccumulation sampleRelayRound 1000
        (.start 1000 [] sampleEmptyState (Dict.insert ∅ 5 1000)) = .error .recursionError := by
  refine ⟨gasBounded_parallelAccumulation sampleRelay_bounded,
    transfersCharged_parallelAccumulation sampleRelay_bounded, by decide, ?_⟩
  obtain ⟨out, hround, hstate, htransfers⟩ :
      ∃ out, sampleRelayRound sampleEmptyState ⟨[], [], Dict.insert ∅ 5 1000⟩ = .ok out ∧
        out.accumulationState = sampleEmptyState ∧
        out.deferredTransfers = [relayTransfer 5 999] := sampleRelayRound_eq rfl rfl
  rw [fullSequentialAccumulation, if_neg (by decide)]
  simp only [Call.start, Call.roundInput, List.take_nil, hround, Call.next, hstate, htransfers,
    List.drop_nil]
  rw [sampleRelayRound_raises 999 _ le_rfl]
  rfl

end Accumulation
