import Pyjamaz.Assurances.Lifecycle

/-!
# The cores in the pipeline of reports

`Pipeline.applyBlock` follows the same reports with less of the extrinsics: a verdict is its votes, an
assurance the cores it engages, and a guarantee its report.  What an accepted block does to the cores
is what the pipeline has it do.
-/

namespace Assurances

open Disputes (assurancesAfterDisputes)

variable {Key Signature : Type}

/-! ## Blocks and cores as the pipeline has them -/

def AssuranceStateItem.toPending (p : AssuranceStateItem Pipeline.Report Signature) :
    Pipeline.Pending := ⟨p.report, p.registeredSlot⟩

def toPipelineCores (cores : List (Option (AssuranceStateItem Pipeline.Report Signature))) :
    List (Option Pipeline.Pending) :=
  cores.map (Option.map AssuranceStateItem.toPending)

def Block.toPipeline (s : State Pipeline.Report Octets32 Key Signature)
    (b : Block Pipeline.Report Octets32 Key Signature) (nrWorkResultsAccumulated : ℕ) :
    Pipeline.Block where
  timeslot := b.timeslot
  verdicts := b.disputes.verdicts.map (fun v => ⟨v.target, v.votes.map Disputes.Judgement.vote⟩)
  assurances := b.assurances.map Assurance.coresEngaged
  guarantees := b.guarantees.map Guarantee.report
  preValidatorCount := s.validatorPool.length
  postValidatorCount := b.postValidatorPool.length
  nrWorkResultsAccumulated := nrWorkResultsAccumulated

lemma toPipeline_isGood (v : Disputes.Verdict Octets32 Signature) :
    Pipeline.Verdict.isGood ⟨v.target, v.votes.map Disputes.Judgement.vote⟩ = v.isGood := by
  rw [Pipeline.Verdict.isGood, Disputes.Verdict.isGood, List.length_map, List.count,
    List.countP_map, Disputes.Verdict.totalPositiveVotes]
  have hvote : ((· == true) ∘ Disputes.Judgement.vote : Disputes.Judgement Signature → Bool) =
      fun j => j.vote := by
    funext j
    rw [Function.comp_apply, beq_true]
  rw [hvote]

/-! ## The three steps -/

section Steps

variable {s : State Pipeline.Report Octets32 Key Signature}
  {b : Block Pipeline.Report Octets32 Key Signature}
  {cores : List (Option (AssuranceStateItem Pipeline.Report Signature))} (n : ℕ)

/-- The same cores are assured well enough. -/
lemma toPipeline_isAvailable (core : ℕ) :
    Pipeline.isAvailable (b.toPipeline s n) core =
      isAvailable b.assurances s.validatorPool.length core := by
  rw [Pipeline.isAvailable, isAvailable, totalAssurances, List.flatMap]
  rfl

lemma toPipeline_isReplaceable (p : AssuranceStateItem Pipeline.Report Signature) :
    Pipeline.isReplaceable (b.toPipeline s n) p.toPending =
      isReplaceable s.validatorPool.length b.postValidatorPool.length b.timeslot p := rfl

lemma zipIdx_toPipelineCores :
    (toPipelineCores cores).zipIdx =
      cores.zipIdx.map (Prod.map (Option.map AssuranceStateItem.toPending) id) :=
  List.zipIdx_map

/-- Both have the same reports available, and leave the same on the cores. -/
lemma toPipeline_afterAssurances {reported : List Pipeline.Report}
    {kept : List (Option (AssuranceStateItem Pipeline.Report Signature))}
    (h : stateTransitionAfterAssurances b.assurances cores b.timeslot s.validatorPool.length
      b.postValidatorPool.length = .ok (reported, kept)) :
    Pipeline.assurancesAfterAssurances (b.toPipeline s n) (toPipelineCores cores) =
      .ok (reported, toPipelineCores kept) := by
  rw [stateTransitionAfterAssurances] at h
  split_ifs at h with hengaged
  cases h
  have hengaged' : ¬ (b.toPipeline s n).assurances.flatten.any
      (fun core => ((toPipelineCores cores)[core]?.join).isNone) = true := by
    intro hany
    refine hengaged ?_
    rw [List.any_eq_true] at hany ⊢
    obtain ⟨core, hcore, hnone⟩ := hany
    refine ⟨core, hcore, ?_⟩
    rw [toPipelineCores, List.getElem?_map] at hnone
    cases hpending : cores[core]? with
    | none => rfl
    | some entry =>
      cases entry with
      | none => rfl
      | some p =>
        rw [hpending] at hnone
        cases hnone
  rw [Pipeline.assurancesAfterAssurances, if_neg hengaged', zipIdx_toPipelineCores]
  congr 2
  · rw [Pipeline.availableReports, List.filterMap_map, reportedReports]
    refine List.filterMap_congr fun slot _ => ?_
    rw [Function.comp_apply, toPipeline_isAvailable]
    refine if_congr Iff.rfl ?_ rfl
    rw [Prod.map_fst, Option.map_map]
    rfl
  · rw [Pipeline.keptReports, List.map_map, keptReports, toPipelineCores, List.map_map]
    refine List.map_congr_left fun slot _ => ?_
    rw [Function.comp_apply, Function.comp_apply, Prod.map_fst, Prod.map_snd]
    cases slot.1 with
    | none => rfl
    | some p =>
      rw [Option.map_some, Option.filter_some, Option.filter_some, toPipeline_isAvailable,
        toPipeline_isReplaceable, id]
      split_ifs <;> rfl

/-- Both put the same guarantees on the cores. -/
lemma toPipeline_afterGuarantees {F : ReportFields Pipeline.Report Octets32}
    (hcore : F.coreIndex = Pipeline.Report.coreIndex) :
    Pipeline.assurancesAfterGuarantees b.timeslot (b.toPipeline s n).guarantees
        (toPipelineCores cores) =
      toPipelineCores (stateTransitionAfterGuarantees F b.guarantees cores b.timeslot) := by
  rw [Pipeline.assurancesAfterGuarantees, stateTransitionAfterGuarantees, Block.toPipeline,
    List.foldl_map]
  induction b.guarantees generalizing cores with
  | nil => rfl
  | cons g guarantees ih =>
    rw [List.foldl_cons, List.foldl_cons, ← ih, toPipelineCores, toPipelineCores, List.map_set,
      hcore]
    rfl

section Order

variable [LinearOrder Octets32]

/-- Both clear the same reports for their verdicts. -/
lemma toPipeline_afterDisputes (chain : Chain Pipeline.Report Octets32 Key Signature) :
    Pipeline.assurancesAfterDisputes chain.fields.hash (b.toPipeline s n).verdicts
        (toPipelineCores s.assurances) = toPipelineCores (afterDisputes chain s b) := by
  have hrejected : Pipeline.rejectedReports (b.toPipeline s n).verdicts =
      Disputes.rejectedReports b.disputes := by
    rw [Pipeline.rejectedReports, Disputes.rejectedReports, Block.toPipeline, List.filter_map,
      List.map_map]
    congr 1
    refine List.filter_congr fun v _ => ?_
    rw [Function.comp_apply, toPipeline_isGood]
  rw [Pipeline.assurancesAfterDisputes, hrejected, toPipelineCores, toPipelineCores, afterDisputes,
    assurancesAfterDisputes, List.map_map, List.map_map]
  refine List.map_congr_left fun pending _ => ?_
  cases pending with
  | none => rfl
  | some p =>
    rw [Function.comp_apply, Function.comp_apply, Option.map_some, Option.filter_some,
      Option.filter_some]
    by_cases hp : chain.fields.hash p.report ∈ Disputes.rejectedReports b.disputes
    · have hp' : chain.fields.hash p.toPending.report ∈ Disputes.rejectedReports b.disputes := hp
      simp [hp, hp']
    · have hp' : chain.fields.hash p.toPending.report ∉ Disputes.rejectedReports b.disputes := hp
      simp [hp, hp']

/-- An accepted block does to the cores what the pipeline has it do. -/
theorem applyBlock_toPipeline [LinearOrder Key]
    {chain : Chain Pipeline.Report Octets32 Key Signature}
    (hcore : chain.fields.coreIndex = Pipeline.Report.coreIndex)
    {out : Outcome Pipeline.Report Octets32 Key Signature} (h : applyBlock chain s b = .ok out)
    {t : Pipeline.State} (ht : t.assurances = toPipelineCores s.assurances) :
    Pipeline.blockAssurances chain.fields.hash t (b.toPipeline s n) =
        .ok (out.reported, toPipelineCores out.kept) ∧
      Pipeline.assurancesAfterGuarantees b.timeslot (b.toPipeline s n).guarantees
        (toPipelineCores out.kept) = toPipelineCores out.post.assurances := by
  rw [applyBlock] at h
  split_ifs at h with hslot hother
  obtain ⟨disputes, -, h⟩ := Except.bind_eq_ok.mp h
  obtain ⟨⟨⟩, -, h⟩ := Except.bind_eq_ok.mp h
  obtain ⟨⟨reported, kept⟩, hassurances, h⟩ := Except.bind_eq_ok.mp h
  obtain ⟨⟨⟩, -, h⟩ := Except.bind_eq_ok.mp h
  cases h
  refine ⟨?_, toPipeline_afterGuarantees n hcore⟩
  rw [Pipeline.blockAssurances, ht, toPipeline_afterDisputes]
  exact toPipeline_afterAssurances n hassurances

end Order

end Steps

end Assurances
