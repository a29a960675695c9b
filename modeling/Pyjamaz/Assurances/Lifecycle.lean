import Mathlib.Data.Finset.Card
import Mathlib.Data.List.Count
import Pyjamaz.Assurances.Transition

/-!
# How long a report stays on its core

A report leaves its core in the first block that has a bad or a wonky verdict on it, that has
assurances of enough validators, that is late enough, or that changes the number of validators
(`Leaves`); in no earlier block and not after it.  Only the second of these hands the report to
accumulation, and then also when others hold in the same block, except for a verdict, which comes
first.  Guarantees come last, and only to cores that are empty then.

Each core is looked at apart (`kept_eq`, `mem_reported_iff`); the bits of the assurances are counted
once for each core, which is the number of the validators that assure it since the validators of an
extrinsic are distinct (`totalAssurances_eq_card`).
-/

namespace Assurances

open Disputes (assurancesAfterDisputes applyDisputes Cleared)
open Pipeline (unavailableWorkReplacementPeriod)

variable {Report Hash Key Signature : Type}

/-! ## The validators that assure a core -/

lemma Assurance.nodup_coresEngaged (a : Assurance Hash Signature) : a.coresEngaged.Nodup :=
  List.Nodup.filter _ List.nodup_range

/-- Those of the first `validatorCount` validators that have an assurance for the core. -/
def assurers (assurances : List (Assurance Hash Signature)) (validatorCount core : ℕ) : Finset ℕ :=
  (Finset.range validatorCount).filter
    (fun i => ∃ a ∈ assurances, a.validatorIndex = i ∧ core ∈ a.coresEngaged)

/-- A core is assured by as many validators as it has assurances. -/
lemma totalAssurances_eq_card {assurances : List (Assurance Hash Signature)} {validatorCount : ℕ}
    (hvalid : ∀ a ∈ assurances, a.validatorIndex < validatorCount)
    (hnodup : (assurances.map Assurance.validatorIndex).Nodup) (core : ℕ) :
    totalAssurances assurances core = (assurers assurances validatorCount core).card := by
  have hcount : totalAssurances assurances core =
      (assurances.filter (fun a => core ∈ a.coresEngaged)).length := by
    clear hvalid hnodup
    rw [totalAssurances, List.count_flatMap, ← List.countP_eq_length_filter]
    induction assurances with
    | nil => rfl
    | cons a assurances ih =>
      rw [List.map_cons, List.sum_cons, ih, List.countP_cons, Function.comp_apply,
        List.Nodup.count a.nodup_coresEngaged, Nat.add_comm]
      simp
  have hassurers : assurers assurances validatorCount core =
      ((assurances.filter (fun a => core ∈ a.coresEngaged)).map Assurance.validatorIndex).toFinset := by
    ext i
    rw [assurers, Finset.mem_filter, Finset.mem_range, List.mem_toFinset, List.mem_map]
    constructor
    · rintro ⟨-, a, ha, hindex, hcore⟩
      exact ⟨a, List.mem_filter.mpr ⟨ha, decide_eq_true hcore⟩, hindex⟩
    · rintro ⟨a, ha, rfl⟩
      obtain ⟨ha, hcore⟩ := List.mem_filter.mp ha
      exact ⟨hvalid a ha, a, ha, rfl, of_decide_eq_true hcore⟩
  rw [hcount, hassurers, List.toFinset_card_of_nodup, List.length_map]
  exact hnodup.sublist (List.filter_sublist.map _)

/-- The validators of an accepted extrinsic are known and distinct. -/
lemma validateAfterDisputes_eq_ok [DecidableEq Hash]
    {hasValidSignature : Key → Assurance Hash Signature → Bool}
    {assurances : List (Assurance Hash Signature)} {validators : List Key} {parent : Hash}
    (h : validateAfterDisputes hasValidSignature assurances validators parent = .ok ()) :
    (∀ a ∈ assurances, a.validatorIndex < validators.length) ∧
      (assurances.map Assurance.validatorIndex).Nodup := by
  rw [validateAfterDisputes] at h
  split_ifs at h with hvalid hsorted hduplicated
  rw [Bool.not_eq_true', Bool.not_eq_false, haveValidValidators, List.all_eq_true] at hvalid
  rw [hasDuplicatedValidators, Bool.not_eq_true', decide_eq_false_iff_not, not_not] at hduplicated
  exact ⟨fun a ha => of_decide_eq_true (hvalid a ha), hduplicated⟩

/-! ## One core -/

section Core

variable {assurances : List (Assurance Hash Signature)}
  {cores : List (Option (AssuranceStateItem Report Signature))} {n n' timeslot core : ℕ}

/-- What is left on a core depends on this core only. -/
lemma getElem?_keptReports :
    (keptReports assurances n n' timeslot cores)[core]? = cores[core]?.map fun pending =>
      pending.filter fun p =>
        !isAvailable assurances n core && !isReplaceable n n' timeslot p := by
  rw [keptReports, List.getElem?_map, List.getElem?_zipIdx, Option.map_map]
  cases cores[core]? with
  | none => rfl
  | some pending =>
    rw [Option.map_some, Option.map_some, Function.comp_apply]
    dsimp only
    rw [Nat.zero_add]

/-- The available reports are those of the cores with enough assurances. -/
lemma mem_reportedReports {w : Report} :
    w ∈ reportedReports assurances n cores ↔
      ∃ core p, cores[core]? = some (some p) ∧ isAvailable assurances n core = true ∧ p.report = w := by
  rw [reportedReports, List.mem_filterMap]
  constructor
  · rintro ⟨⟨pending, core⟩, hmem, hw⟩
    rw [List.mem_zipIdx_iff_getElem?] at hmem
    dsimp only at hmem hw
    split_ifs at hw with havailable
    obtain ⟨p, rfl, rfl⟩ := Option.map_eq_some_iff.mp hw
    exact ⟨core, p, hmem, havailable, rfl⟩
  · rintro ⟨core, p, hcore, havailable, rfl⟩
    refine ⟨(some p, core), List.mem_zipIdx_iff_getElem?.mpr hcore, ?_⟩
    dsimp only
    rw [if_pos havailable, Option.map_some]

/-- When every report is on its own core, at most one report of each core becomes available. -/
lemma nodup_reportedReports {coreIndex : Report → ℕ}
    (hplaced : ∀ (core : ℕ) p, cores[core]? = some (some p) → coreIndex p.report = core) :
    ((reportedReports assurances n cores).map coreIndex).Nodup := by
  have hsublist : ((reportedReports assurances n cores).map coreIndex).Sublist
      (cores.zipIdx.map Prod.snd) := by
    have hplaced' : ∀ slot ∈ cores.zipIdx, ∀ p, slot.1 = some p → coreIndex p.report = slot.2 := by
      rintro ⟨pending, core⟩ hmem p rfl
      exact hplaced core p (List.mem_zipIdx_iff_getElem?.mp hmem)
    rw [reportedReports]
    generalize cores.zipIdx = slots at hplaced'
    induction slots with
    | nil => exact List.Sublist.refl _
    | cons slot slots ih =>
      have ih := ih (fun slot' hslot' => hplaced' slot' (List.mem_cons_of_mem _ hslot'))
      rw [List.map_cons, List.filterMap_cons]
      cases hreport : (if isAvailable assurances n slot.2 = true then
          slot.1.map AssuranceStateItem.report else none) with
      | none => exact ih.cons _
      | some w =>
        have hw : coreIndex w = slot.2 := by
          split_ifs at hreport
          obtain ⟨p, hp, rfl⟩ := Option.map_eq_some_iff.mp hreport
          exact hplaced' slot List.mem_cons_self p hp
        rw [← hw]
        exact ih.cons_cons _
  refine List.Nodup.sublist hsublist ?_
  rw [List.zipIdx_map_snd]
  exact List.nodup_range'

end Core

/-! ## Guarantees -/

section Guarantees

variable {F : ReportFields Report Hash} {guarantees : List (Guarantee Report Signature)}
  {cores : List (Option (AssuranceStateItem Report Signature))}

/-- Accepted guarantees are for different cores, all of them empty. -/
lemma validateGuarantees_eq_ok {n : ℕ} (h : validateGuarantees F guarantees cores n = .ok ()) :
    (guarantees.map (fun g => F.coreIndex g.report)).Nodup ∧
      ∀ g ∈ guarantees, cores[F.coreIndex g.report]? = some none := by
  rw [validateGuarantees] at h
  split_ifs at h with hsorted hduplicated
  rw [hasDuplicatedGuarentees, Bool.not_eq_true', decide_eq_false_iff_not, not_not] at hduplicated
  refine ⟨hduplicated, ?_⟩
  intro g hg
  have hg := Except.forM_eq_ok h g hg
  rw [validateGuarantee] at hg
  split_ifs at hg with hrange hcount hshards hguarantors hsignatures hengaged
  rw [not_le] at hrange
  rw [List.getElem?_eq_getElem hrange, Option.join_some] at hengaged
  rw [List.getElem?_eq_getElem hrange, Option.not_isSome_iff_eq_none.mp hengaged]

/-- A core without a guarantee is left as it is. -/
lemma getElem?_afterGuarantees_of_ne {timeslot core : ℕ}
    (h : ∀ g ∈ guarantees, F.coreIndex g.report ≠ core) :
    (stateTransitionAfterGuarantees F guarantees cores timeslot)[core]? = cores[core]? := by
  rw [stateTransitionAfterGuarantees]
  induction guarantees generalizing cores with
  | nil => rfl
  | cons g guarantees ih =>
    rw [List.foldl_cons, ih (fun g' hg' => h g' (List.mem_cons_of_mem _ hg')),
      List.getElem?_set_ne (h g List.mem_cons_self)]

/-- A core that a guarantee is put on holds it. -/
lemma getElem?_afterGuarantees {timeslot : ℕ}
    (hnodup : (guarantees.map (fun g => F.coreIndex g.report)).Nodup)
    {g : Guarantee Report Signature} (hg : g ∈ guarantees)
    (hcore : F.coreIndex g.report < cores.length) :
    (stateTransitionAfterGuarantees F guarantees cores timeslot)[F.coreIndex g.report]? =
      some (some ⟨g, timeslot⟩) := by
  induction guarantees generalizing cores with
  | nil => cases hg
  | cons g' guarantees ih =>
    rw [List.map_cons, List.nodup_cons] at hnodup
    have hfold : stateTransitionAfterGuarantees F (g' :: guarantees) cores timeslot =
        stateTransitionAfterGuarantees F guarantees
          (cores.set (F.coreIndex g'.report) (some ⟨g', timeslot⟩)) timeslot := rfl
    rw [hfold]
    rcases List.mem_cons.mp hg with rfl | hg
    · rw [getElem?_afterGuarantees_of_ne, List.getElem?_set_self hcore]
      intro g' hg' heq
      exact hnodup.1 (List.mem_map.mpr ⟨g', hg', heq⟩)
    · exact ih hnodup.2 hg (by rwa [List.length_set])

/-- Each guarantee is put on a core that is empty at that point. -/
lemma getElem?_before_guarantee {timeslot : ℕ}
    (hnodup : (guarantees.map (fun g => F.coreIndex g.report)).Nodup)
    (hempty : ∀ g ∈ guarantees, cores[F.coreIndex g.report]? = some none)
    {before after : List (Guarantee Report Signature)} {g : Guarantee Report Signature}
    (hsplit : guarantees = before ++ g :: after) :
    (stateTransitionAfterGuarantees F before cores timeslot)[F.coreIndex g.report]? =
      some none := by
  subst hsplit
  rw [getElem?_afterGuarantees_of_ne]
  · exact hempty g (by simp)
  · intro g' hg' heq
    rw [List.map_append, List.map_cons] at hnodup
    exact (List.nodup_append.mp hnodup).2.2 _ (List.mem_map_of_mem hg') _ List.mem_cons_self heq

end Guarantees

/-! ## One block -/

/-- Every pending report is on the core that it names. -/
def Placed (chain : Chain Report Hash Key Signature) (s : State Report Hash Key Signature) : Prop :=
  ∀ (core : ℕ) p, s.assurances[core]? = some (some p) → chain.fields.coreIndex p.report = core

lemma placed_of_empty {chain : Chain Report Hash Key Signature}
    {s : State Report Hash Key Signature}
    (h : ∀ pending ∈ s.assurances, pending = none) : Placed chain s := by
  intro core p hp
  cases h _ (List.mem_of_getElem? hp)

section Block

variable [LinearOrder Hash] {chain : Chain Report Hash Key Signature}

/-- The block has a bad or a wonky verdict on the pending report. -/
def Rejected (chain : Chain Report Hash Key Signature) (b : Block Report Hash Key Signature)
    (p : AssuranceStateItem Report Signature) : Prop :=
  b.disputes.Rejects (chain.fields.hash p.report)

/-- More than two thirds of the validators before the block assure the core. -/
def Assured (s : State Report Hash Key Signature) (b : Block Report Hash Key Signature)
    (core : ℕ) : Prop :=
  2 * s.validatorPool.length / 3 + 1 ≤
    (assurers b.assurances s.validatorPool.length core).card

/-- The pending report is old enough to be replaced. -/
def Old (b : Block Report Hash Key Signature) (p : AssuranceStateItem Report Signature) : Prop :=
  p.registeredSlot + unavailableWorkReplacementPeriod ≤ b.timeslot

/-- The block changes the number of validators. -/
def Resized (s : State Report Hash Key Signature) (b : Block Report Hash Key Signature) : Prop :=
  b.postValidatorPool.length ≠ s.validatorPool.length

/-- The pending report leaves its core in the block. -/
def Leaves (chain : Chain Report Hash Key Signature) (s : State Report Hash Key Signature)
    (b : Block Report Hash Key Signature) (core : ℕ) (p : AssuranceStateItem Report Signature) :
    Prop :=
  Rejected chain b p ∨ Assured s b core ∨ Old b p ∨ Resized s b

/-- What an accepted block has passed, and what it does. -/
structure Accepted (chain : Chain Report Hash Key Signature) (s : State Report Hash Key Signature)
    (b : Block Report Hash Key Signature) (out : Outcome Report Hash Key Signature) : Prop where
  cleared : Cleared (fun p : AssuranceStateItem Report Signature => chain.fields.hash p.report)
    b.disputes s.assurances (afterDisputes chain s b)
  available_iff : ∀ core,
    isAvailable b.assurances s.validatorPool.length core = true ↔ Assured s b core
  reported_eq : out.reported =
    reportedReports b.assurances s.validatorPool.length (afterDisputes chain s b)
  kept_eq : out.kept = keptReports b.assurances s.validatorPool.length b.postValidatorPool.length
    b.timeslot (afterDisputes chain s b)
  guarantees_nodup : (b.guarantees.map (fun g => chain.fields.coreIndex g.report)).Nodup
  guarantees_empty : ∀ g ∈ b.guarantees, out.kept[chain.fields.coreIndex g.report]? = some none
  post_eq : out.post.assurances =
    stateTransitionAfterGuarantees chain.fields b.guarantees out.kept b.timeslot

namespace Accepted

variable {s : State Report Hash Key Signature} {b : Block Report Hash Key Signature}
  {out : Outcome Report Hash Key Signature}

/-- What is on a core after the verdicts was there before, and has no verdict against it. -/
lemma getElem?_afterDisputes_iff (h : Accepted chain s b out) {core : ℕ}
    {p : AssuranceStateItem Report Signature} :
    (afterDisputes chain s b)[core]? = some (some p) ↔
      s.assurances[core]? = some (some p) ∧ ¬ Rejected chain b p := by
  constructor
  · intro hcore
    have hlt : core < s.assurances.length := by
      rw [← h.cleared.length_eq]
      exact (List.getElem?_eq_some_iff.mp hcore).1
    have hold := List.getElem?_eq_getElem hlt
    cases hpending : s.assurances[core] with
    | none =>
      rw [hpending] at hold
      rw [h.cleared.empty core hold] at hcore
      cases hcore
    | some q =>
      rw [hpending] at hold
      by_cases hrejected : Rejected chain b q
      · rw [h.cleared.rejected core q hold hrejected] at hcore
        cases hcore
      · rw [h.cleared.kept core q hold hrejected] at hcore
        cases hcore
        exact ⟨hold, hrejected⟩
  · rintro ⟨hold, hkept⟩
    exact h.cleared.kept core p hold hkept

/-- The reports that are handed to accumulation. -/
lemma mem_reported_iff (h : Accepted chain s b out) {w : Report} :
    w ∈ out.reported ↔ ∃ core p, s.assurances[core]? = some (some p) ∧ ¬ Rejected chain b p ∧
      Assured s b core ∧ p.report = w := by
  rw [h.reported_eq, mem_reportedReports]
  refine exists_congr fun core => exists_congr fun p => ?_
  rw [h.getElem?_afterDisputes_iff, h.available_iff, and_assoc]

/-- A core with a report keeps it, or is empty. -/
lemma getElem?_kept (h : Accepted chain s b out) {core : ℕ}
    {p : AssuranceStateItem Report Signature} (hp : s.assurances[core]? = some (some p)) :
    (Leaves chain s b core p → out.kept[core]? = some none) ∧
      (¬ Leaves chain s b core p → out.kept[core]? = some (some p)) := by
  rw [h.kept_eq, getElem?_keptReports]
  by_cases hrejected : Rejected chain b p
  · rw [h.cleared.rejected core p hp hrejected]
    exact ⟨fun _ => rfl, fun hstays => absurd (.inl hrejected) hstays⟩
  · rw [h.cleared.kept core p hp hrejected, Option.map_some]
    have hleaves : Leaves chain s b core p ↔
        (!isAvailable b.assurances s.validatorPool.length core &&
          !isReplaceable s.validatorPool.length b.postValidatorPool.length b.timeslot p) = false := by
      rw [Bool.and_eq_false_iff, Bool.not_eq_false', Bool.not_eq_false', h.available_iff,
        isReplaceable, Bool.or_eq_true, decide_eq_true_iff, decide_eq_true_iff, Leaves,
        or_iff_right hrejected]
      refine or_congr_right ?_
      exact or_comm
    constructor
    · intro hl
      rw [Option.filter_some, hleaves.mp hl]
      rfl
    · intro hl
      rw [Option.filter_some, if_pos (Bool.not_eq_false _ ▸ mt hleaves.mpr hl)]

/-- A report that is left on its core is there after the block. -/
lemma getElem?_post (h : Accepted chain s b out) {core : ℕ}
    {p : AssuranceStateItem Report Signature} (hkept : out.kept[core]? = some (some p)) :
    out.post.assurances[core]? = some (some p) := by
  rw [h.post_eq, getElem?_afterGuarantees_of_ne, hkept]
  rintro g hg rfl
  rw [h.guarantees_empty g hg] at hkept
  cases hkept

/-- Every report stays on its own core, and guarantees put theirs there. -/
lemma placed (h : Accepted chain s b out) (hs : Placed chain s) : Placed chain out.post := by
  intro core p hp
  rw [h.post_eq] at hp
  by_cases hg : ∃ g ∈ b.guarantees, chain.fields.coreIndex g.report = core
  · obtain ⟨g, hg, rfl⟩ := hg
    have hlt := (List.getElem?_eq_some_iff.mp (h.guarantees_empty g hg)).1
    rw [getElem?_afterGuarantees h.guarantees_nodup hg hlt] at hp
    cases hp
    rfl
  · simp only [not_exists, not_and] at hg
    rw [getElem?_afterGuarantees_of_ne hg, h.kept_eq, getElem?_keptReports,
      Option.map_eq_some_iff] at hp
    obtain ⟨pending, hpending, hfilter⟩ := hp
    obtain ⟨rfl, -⟩ := Option.filter_eq_some_iff.mp hfilter
    exact hs core p (h.getElem?_afterDisputes_iff.mp hpending).1

end Accepted

/-- What a block says of a report that is pending on a core. -/
structure Handled (chain : Chain Report Hash Key Signature) (s : State Report Hash Key Signature)
    (b : Block Report Hash Key Signature) (out : Outcome Report Hash Key Signature) (core : ℕ)
    (p : AssuranceStateItem Report Signature) : Prop where
  reported_iff : p.report ∈ out.reported ↔ ¬ Rejected chain b p ∧ Assured s b core
  emptied_iff : out.kept[core]? = some none ↔ Leaves chain s b core p
  stays : ¬ Leaves chain s b core p → out.post.assurances[core]? = some (some p)

lemma Accepted.handled {s : State Report Hash Key Signature} {b : Block Report Hash Key Signature}
    {out : Outcome Report Hash Key Signature} (h : Accepted chain s b out) (hs : Placed chain s)
    {core : ℕ} {p : AssuranceStateItem Report Signature}
    (hp : s.assurances[core]? = some (some p)) : Handled chain s b out core p := by
  obtain ⟨hleaves, hstays⟩ := h.getElem?_kept hp
  refine ⟨?_, ⟨?_, hleaves⟩, fun hl => h.getElem?_post (hstays hl)⟩
  · rw [h.mem_reported_iff]
    constructor
    · rintro ⟨core', q, hq, hrejected, hassured, hreport⟩
      have hcore : core' = core := by
        rw [← hs core' q hq, hreport, hs core p hp]
      subst hcore
      rw [hp] at hq
      cases hq
      exact ⟨hrejected, hassured⟩
    · rintro ⟨hrejected, hassured⟩
      exact ⟨core, p, hp, hrejected, hassured, rfl⟩
  · intro hempty
    by_contra hl
    rw [hstays hl] at hempty
    cases hempty

/-- What a block says of the cores as a whole: at most one report of each core is handed over, and it
was pending there; and guarantees are put on empty cores. -/
structure Tidy (chain : Chain Report Hash Key Signature) (s : State Report Hash Key Signature)
    (b : Block Report Hash Key Signature) (out : Outcome Report Hash Key Signature) : Prop where
  reported_nodup : (out.reported.map chain.fields.coreIndex).Nodup
  reported_pending : ∀ w ∈ out.reported,
    ∃ p, s.assurances[chain.fields.coreIndex w]? = some (some p) ∧ p.report = w
  guarantees : ∀ before g after, b.guarantees = before ++ g :: after →
    (stateTransitionAfterGuarantees chain.fields before out.kept
        b.timeslot)[chain.fields.coreIndex g.report]? = some none ∧
      out.post.assurances[chain.fields.coreIndex g.report]? = some (some ⟨g, b.timeslot⟩)
  others : ∀ core, (∀ g ∈ b.guarantees, chain.fields.coreIndex g.report ≠ core) →
    out.post.assurances[core]? = out.kept[core]?

lemma Accepted.tidy {s : State Report Hash Key Signature} {b : Block Report Hash Key Signature}
    {out : Outcome Report Hash Key Signature} (h : Accepted chain s b out) (hs : Placed chain s) :
    Tidy chain s b out := by
  refine ⟨?_, ?_, ?_, ?_⟩
  · rw [h.reported_eq]
    exact nodup_reportedReports fun core p hp => hs core p (h.getElem?_afterDisputes_iff.mp hp).1
  · intro w hw
    obtain ⟨core, p, hp, -, -, rfl⟩ := h.mem_reported_iff.mp hw
    refine ⟨p, ?_, rfl⟩
    rwa [hs core p hp]
  · intro before g after hsplit
    have hg : g ∈ b.guarantees := by
      rw [hsplit]
      simp
    refine ⟨getElem?_before_guarantee h.guarantees_nodup h.guarantees_empty hsplit, ?_⟩
    have hlt := (List.getElem?_eq_some_iff.mp (h.guarantees_empty g hg)).1
    rw [h.post_eq, getElem?_afterGuarantees h.guarantees_nodup hg hlt]
  · intro core hcore
    rw [h.post_eq, getElem?_afterGuarantees_of_ne hcore]

end Block

section Run

variable [LinearOrder Hash] [LinearOrder Key] {chain : Chain Report Hash Key Signature}

lemma applyBlock_eq_ok {s : State Report Hash Key Signature} {b : Block Report Hash Key Signature}
    {out : Outcome Report Hash Key Signature} (h : applyBlock chain s b = .ok out) :
    Accepted chain s b out := by
  rw [applyBlock] at h
  split_ifs at h with hslot hother
  obtain ⟨disputes, hdisputes, h⟩ := Except.bind_eq_ok.mp h
  obtain ⟨⟨⟩, hvalid, h⟩ := Except.bind_eq_ok.mp h
  obtain ⟨⟨reported, kept⟩, hassurances, h⟩ := Except.bind_eq_ok.mp h
  obtain ⟨⟨⟩, hguarantees, h⟩ := Except.bind_eq_ok.mp h
  cases h
  rw [stateTransitionAfterAssurances] at hassurances
  split_ifs at hassurances with hengaged
  cases hassurances
  obtain ⟨hindex, hnodup⟩ := validateAfterDisputes_eq_ok hvalid
  obtain ⟨hguarantees, hempty⟩ := validateGuarantees_eq_ok hguarantees
  refine ⟨?_, ?_, rfl, rfl, hguarantees, hempty, rfl⟩
  · exact Disputes.cleared_assurancesAfterDisputes _ (Except.mapError_eq_ok.mp hdisputes) s.assurances
  · intro core
    rw [isAvailable, decide_eq_true_iff, totalAssurances_eq_card hindex hnodup, Assured,
      Nat.mul_comm]

/-! ## A run -/

lemma Run.placed {s s' : State Report Hash Key Signature} (h : Run chain s s')
    (hs : Placed chain s) : Placed chain s' := by
  induction h with
  | none => exact hs
  | block _ hblock ih => exact (applyBlock_eq_ok hblock).placed ih

/-- A run of accepted blocks in none of which the pending report leaves its core. -/
inductive Waits (chain : Chain Report Hash Key Signature) (core : ℕ)
    (p : AssuranceStateItem Report Signature) :
    State Report Hash Key Signature → State Report Hash Key Signature → Prop
  | none (s : State Report Hash Key Signature) : Waits chain core p s s
  | block {s s' : State Report Hash Key Signature} {b : Block Report Hash Key Signature}
      {out : Outcome Report Hash Key Signature} (hwaits : Waits chain core p s s')
      (hblock : applyBlock chain s' b = .ok out) (hstays : ¬ Leaves chain s' b core p) :
      Waits chain core p s out.post

/-- While it waits, the report is on its core. -/
lemma Waits.getElem? {core : ℕ} {p : AssuranceStateItem Report Signature}
    {s s' : State Report Hash Key Signature} (h : Waits chain core p s s')
    (hp : s.assurances[core]? = some (some p)) : s'.assurances[core]? = some (some p) := by
  induction h with
  | none => exact hp
  | block _ hblock hstays ih =>
    have haccepted := applyBlock_eq_ok hblock
    exact haccepted.getElem?_post ((haccepted.getElem?_kept ih).2 hstays)

/-- In every run the report waits to the end, or there is a first block in which it leaves. -/
lemma Run.waits_or_leaves {core : ℕ} {p : AssuranceStateItem Report Signature}
    {s s' : State Report Hash Key Signature} (h : Run chain s s') :
    Waits chain core p s s' ∨ ∃ s₁ b out, Waits chain core p s s₁ ∧
      applyBlock chain s₁ b = .ok out ∧ Leaves chain s₁ b core p ∧ Run chain out.post s' := by
  induction h with
  | none => exact .inl (.none s)
  | @block s' b out hrun hblock ih =>
    rcases ih with hwaits | ⟨s₁, b₁, out₁, hwaits, hblock₁, hleaves, hrun₁⟩
    · by_cases hleaves : Leaves chain s' b core p
      · exact .inr ⟨s', b, out, hwaits, hblock, hleaves, .none _⟩
      · exact .inl (hwaits.block hblock hleaves)
    · exact .inr ⟨s₁, b₁, out₁, hwaits, hblock₁, hleaves, hrun₁.block hblock⟩

/-- After every run of accepted blocks, an accepted block hands over at most one report for each
core and puts guarantees on empty cores only; and for a report that is pending on a core: it is
handed over exactly if no verdict of the block is against it and enough validators assure the core,
its core is emptied exactly if it leaves, and in every further run it stays on its core up to the
first block in which it leaves. -/
theorem core_lifecycle {s₀ s : State Report Hash Key Signature} (h₀ : Placed chain s₀)
    (hrun : Run chain s₀ s) :
    (∀ b out, applyBlock chain s b = .ok out → Tidy chain s b out) ∧
      ∀ (core : ℕ) p, s.assurances[core]? = some (some p) →
        (∀ b out, applyBlock chain s b = .ok out → Handled chain s b out core p) ∧
        ∀ s', Run chain s s' →
          (Waits chain core p s s' ∧ s'.assurances[core]? = some (some p)) ∨
          ∃ s₁ b out, Waits chain core p s s₁ ∧ s₁.assurances[core]? = some (some p) ∧
            applyBlock chain s₁ b = .ok out ∧ Leaves chain s₁ b core p ∧
            out.kept[core]? = some none ∧ Run chain out.post s' := by
  have hs := hrun.placed h₀
  refine ⟨fun b out hblock => (applyBlock_eq_ok hblock).tidy hs, ?_⟩
  intro core p hp
  refine ⟨fun b out hblock => (applyBlock_eq_ok hblock).handled hs hp, ?_⟩
  intro s' hrun'
  rcases hrun'.waits_or_leaves with hwaits | ⟨s₁, b, out, hwaits, hblock, hleaves, hrun₁⟩
  · exact .inl ⟨hwaits, hwaits.getElem? hp⟩
  · refine .inr ⟨s₁, b, out, hwaits, hwaits.getElem? hp, hblock, hleaves, ?_, hrun₁⟩
    exact ((applyBlock_eq_ok hblock).getElem?_kept (hwaits.getElem? hp)).1 hleaves

/-! ## A report that is guaranteed and then assured -/

/-- Two cores; reports are their own hashes, all of them are for core 0 and six validators. -/
def sampleChain : Chain ℕ ℕ ℕ Unit where
  epochTimeslots := 12
  fields := ⟨id, fun _ => 0, fun _ => 6⟩
  verify := fun _ _ _ _ => true
  hasValidSignature := fun _ _ => true
  otherChecks := fun _ _ => true

def sampleGenesis : State ℕ ℕ ℕ Unit where
  timeslot := 0
  validatorPool := [0, 1, 2, 3, 4, 5]
  validatorArchive := []
  disputes := .empty
  assurances := [none, none]

/-- The validators 0 and 3 guarantee report 7. -/
def sampleGuarantee : Guarantee ℕ Unit := ⟨7, 1, [⟨0, ()⟩, ⟨3, ()⟩]⟩

/-- A block with the guarantee. -/
def sampleGuaranteed : Block ℕ ℕ ℕ Unit where
  parent := 0
  timeslot := 1
  offendersMarker := []
  disputes := ⟨[], [], []⟩
  assurances := []
  guarantees := [sampleGuarantee]
  postValidatorPool := [0, 1, 2, 3, 4, 5]
  postValidatorArchive := []

/-- A block in which all validators but the last one assure core 0. -/
def sampleAssured : Block ℕ ℕ ℕ Unit :=
  { sampleGuaranteed with
    parent := 1
    timeslot := 2
    assurances := (List.range 5).map (fun i => ⟨1, [true, false], i, ()⟩)
    guarantees := [] }

/-- The state after the guarantee. -/
def samplePending : State ℕ ℕ ℕ Unit :=
  { sampleGenesis with timeslot := 1, assurances := [some ⟨sampleGuarantee, 1⟩, none] }

/-- Report 7 is handed over: no verdict is against it and five of six validators assure its core,
which is empty then. -/
theorem sampleGuarantee_handed :
    applyBlock sampleChain sampleGenesis sampleGuaranteed = .ok ⟨[], [none, none], samplePending⟩ ∧
      applyBlock sampleChain samplePending sampleAssured =
        .ok ⟨[7], [none, none], { sampleGenesis with timeslot := 2 }⟩ ∧
      ¬ Rejected sampleChain sampleAssured ⟨sampleGuarantee, 1⟩ ∧
      Assured samplePending sampleAssured 0 ∧
      Leaves sampleChain samplePending sampleAssured 0 ⟨sampleGuarantee, 1⟩ := by
  have hguaranteed : applyBlock sampleChain sampleGenesis sampleGuaranteed =
      .ok ⟨[], [none, none], samplePending⟩ := rfl
  have hassured : applyBlock sampleChain samplePending sampleAssured =
      .ok ⟨[7], [none, none], { sampleGenesis with timeslot := 2 }⟩ := rfl
  have hplaced : Placed sampleChain sampleGenesis :=
    placed_of_empty (by simp [sampleGenesis])
  have hhandled := ((core_lifecycle hplaced ((Run.none sampleGenesis).block hguaranteed)).2 0
    ⟨sampleGuarantee, 1⟩ rfl).1 _ _ hassured
  obtain ⟨hrejected, hcore⟩ := hhandled.reported_iff.mp List.mem_cons_self
  exact ⟨hguaranteed, hassured, hrejected, hcore, hhandled.emptied_iff.mp rfl⟩

end Run

end Assurances
