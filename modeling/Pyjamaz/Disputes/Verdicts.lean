import Pyjamaz.Disputes.Transition

/-!
# What the state of the disputes says

The state gives each report at most one outcome.  The loop over the verdicts keeps that: a report
that has an outcome is refused, so a verdict adds one report to one of the three lists
(`Judging.step`).  The loops over culprits and faults do not touch these lists, so all of them read
the outcomes that the verdicts of the block have left (`Punished`), and the mark is the list of the
keys in the order of the evidence.
-/

namespace Disputes

variable {Hash Key Signature : Type}

/-! ## Outcomes -/

/-- What a verdict can say of a report. -/
inductive Outcome where
  | good
  | bad
  | wonky
  deriving DecidableEq, Repr

/-- The outcome of a verdict, the good votes being looked at first. -/
def Verdict.outcome (v : Verdict Hash Signature) : Option Outcome :=
  if v.isGood then some .good
  else if v.isBad then some .bad
  else if v.isWonky then some .wonky
  else none

/-- Of the verdicts that an accepted block has, those that are not good are bad or wonky. -/
lemma Verdict.not_isGood_iff {v : Verdict Hash Signature} (hvotes : 0 < v.votes.length)
    (houtcome : v.outcome.isSome) : v.isGood = false ↔ v.isBad ∨ v.isWonky := by
  constructor
  · intro hgood
    by_contra hneither
    rw [not_or] at hneither
    rw [Verdict.outcome, if_neg (by rw [hgood]; decide), if_neg hneither.1,
      if_neg hneither.2] at houtcome
    cases houtcome
  · intro h
    rw [Verdict.isGood, decide_eq_false_iff_not]
    rcases h with hbad | hwonky
    · have hbad := of_decide_eq_true hbad
      omega
    · have hwonky := of_decide_eq_true hwonky
      omega

/-- The reports with an outcome. -/
def DisputesState.reports (s : DisputesState Hash Key) : Outcome → List Hash
  | .good => s.goodSet
  | .bad => s.badSet
  | .wonky => s.wonkySet

/-- Nothing is taken off the lists of the state. -/
structure DisputesState.Grows (s s' : DisputesState Hash Key) : Prop where
  reports : ∀ o, s.reports o ⊆ s'.reports o
  offenders : s.offenders ⊆ s'.offenders

lemma DisputesState.Grows.refl (s : DisputesState Hash Key) : s.Grows s :=
  ⟨fun _ => List.Subset.refl _, List.Subset.refl _⟩

lemma DisputesState.Grows.trans {s s' s'' : DisputesState Hash Key} (h : s.Grows s')
    (h' : s'.Grows s'') : s.Grows s'' :=
  ⟨fun o => List.Subset.trans (h.reports o) (h'.reports o),
    List.Subset.trans h.offenders h'.offenders⟩

section Reports

variable [LinearOrder Hash]

def DisputesState.addReport (s : DisputesState Hash Key) (r : Hash) :
    Outcome → DisputesState Hash Key
  | .good => { s with goodSet := insort s.goodSet r }
  | .bad => { s with badSet := insort s.badSet r }
  | .wonky => { s with wonkySet := insort s.wonkySet r }

@[simp] lemma DisputesState.offenders_addReport (s : DisputesState Hash Key) (r : Hash)
    (o : Outcome) : (s.addReport r o).offenders = s.offenders := by
  cases o <;> rfl

lemma DisputesState.reports_addReport (s : DisputesState Hash Key) (r : Hash) (o o' : Outcome) :
    (s.addReport r o).reports o' = if o' = o then insort (s.reports o) r else s.reports o' := by
  cases o <;> cases o' <;> rfl

lemma DisputesState.mem_reports_addReport {s : DisputesState Hash Key} {r r' : Hash}
    {o o' : Outcome} :
    r' ∈ (s.addReport r o).reports o' ↔ r' ∈ s.reports o' ∨ (r' = r ∧ o' = o) := by
  rw [s.reports_addReport]
  by_cases ho : o' = o
  · rw [if_pos ho, mem_insort, ho]
    tauto
  · rw [if_neg ho]
    tauto

/-! ## One verdict -/

lemma not_isAlreadyJudged {s : DisputesState Hash Key} {v : Verdict Hash Signature}
    (h : isAlreadyJudged s v = false) (o : Outcome) : v.target ∉ s.reports o := by
  simp only [isAlreadyJudged, Bool.or_eq_false_iff, decide_eq_false_iff_not] at h
  cases o with
  | good => exact h.1.1
  | bad => exact h.1.2
  | wonky => exact h.2

/-- An accepted verdict gives its outcome to a report that has none; when it is good, there is a
fault against the report. -/
lemma processVerdict_eq_ok {faults : List (Fault Hash Key Signature)} {s s' : DisputesState Hash Key}
    {v : Verdict Hash Signature} (h : processVerdict faults s v = .ok s') :
    (∀ o, v.target ∉ s.reports o) ∧ ∃ o, v.outcome = some o ∧ s' = s.addReport v.target o ∧
      (o = .good → ∃ f ∈ faults, f.target = v.target) := by
  rw [processVerdict] at h
  split_ifs at h with hjudged hvotes hgood hbad hwonky
  · refine ⟨not_isAlreadyJudged (Bool.eq_false_iff.mpr hjudged), .good, ?_, ?_, ?_⟩
    · rw [Verdict.outcome, if_pos hgood]
    · obtain ⟨⟨⟩, -, h⟩ := Except.bind_eq_ok.mp h
      cases h
      rfl
    · intro _
      obtain ⟨⟨⟩, hcount, -⟩ := Except.bind_eq_ok.mp h
      rw [checkValidFaultsCount] at hcount
      split_ifs at hcount with hzero
      obtain ⟨f, hf, htarget⟩ := List.countP_pos_iff.mp (Nat.pos_of_ne_zero hzero)
      exact ⟨f, hf, of_decide_eq_true htarget⟩
  · cases h
    refine ⟨not_isAlreadyJudged (Bool.eq_false_iff.mpr hjudged), .bad, ?_, rfl, fun ho => by cases ho⟩
    rw [Verdict.outcome, if_neg hgood, if_pos hbad]
  · cases h
    refine ⟨not_isAlreadyJudged (Bool.eq_false_iff.mpr hjudged), .wonky, ?_, rfl,
      fun ho => by cases ho⟩
    rw [Verdict.outcome, if_neg hgood, if_neg hbad, if_pos hwonky]

end Reports

section Order

variable [LinearOrder Hash] [LinearOrder Key]

/-- Every list of the state is strictly ascending, and no report has two outcomes. -/
structure DisputesState.WellFormed (s : DisputesState Hash Key) : Prop where
  ascending : ∀ o, (s.reports o).Pairwise (· < ·)
  disjoint : ∀ o o', o ≠ o' → (s.reports o).Disjoint (s.reports o')
  offenders : s.offenders.Pairwise (· < ·)

lemma DisputesState.empty_wellFormed : (DisputesState.empty : DisputesState Hash Key).WellFormed := by
  have hreports : ∀ o, (DisputesState.empty : DisputesState Hash Key).reports o = [] := by
    intro o
    cases o <;> rfl
  refine ⟨?_, ?_, List.Pairwise.nil⟩
  · intro o
    rw [hreports]
    exact List.Pairwise.nil
  · intro o o' _
    rw [hreports]
    exact List.disjoint_nil_left _

/-- A report without an outcome is given one. -/
lemma DisputesState.WellFormed.addReport {s : DisputesState Hash Key} (h : s.WellFormed) {r : Hash}
    (hr : ∀ o, r ∉ s.reports o) (o : Outcome) : (s.addReport r o).WellFormed := by
  refine ⟨?_, ?_, ?_⟩
  · intro o'
    rw [s.reports_addReport]
    by_cases ho : o' = o
    · rw [if_pos ho]
      exact pairwise_lt_insort (h.ascending o) (hr o)
    · rw [if_neg ho]
      exact h.ascending o'
  · intro o₁ o₂ hne r' h₁ h₂
    rw [mem_reports_addReport] at h₁ h₂
    rcases h₁ with h₁ | ⟨rfl, rfl⟩
    · rcases h₂ with h₂ | ⟨rfl, -⟩
      · exact h.disjoint o₁ o₂ hne h₁ h₂
      · exact hr o₁ h₁
    · rcases h₂ with h₂ | ⟨-, rfl⟩
      · exact hr o₂ h₂
      · exact hne rfl
  · rw [offenders_addReport]
    exact h.offenders

/-! ## The loop over the verdicts -/

/-- What the loop has done after some verdicts. -/
structure Judging (faults : List (Fault Hash Key Signature)) (s : DisputesState Hash Key)
    (verdicts : List (Verdict Hash Signature)) (s' : DisputesState Hash Key) : Prop where
  wellFormed : s.WellFormed → s'.WellFormed
  mem_reports : ∀ o r, r ∈ s'.reports o ↔
    r ∈ s.reports o ∨ ∃ v ∈ verdicts, v.target = r ∧ v.outcome = some o
  judged : ∀ v ∈ verdicts, v.outcome.isSome
  faulted : ∀ v ∈ verdicts, v.outcome = some .good → ∃ f ∈ faults, f.target = v.target
  offenders : s'.offenders = s.offenders

/-- One more verdict. -/
lemma Judging.step {faults : List (Fault Hash Key Signature)} {s s₁ s' : DisputesState Hash Key}
    {v : Verdict Hash Signature} {verdicts : List (Verdict Hash Signature)}
    (hv : processVerdict faults s v = .ok s₁) (h : Judging faults s₁ verdicts s') :
    Judging faults s (v :: verdicts) s' := by
  obtain ⟨hnew, o, ho, rfl, hfault⟩ := processVerdict_eq_ok hv
  refine ⟨fun hs => h.wellFormed (hs.addReport hnew o), ?_, ?_, ?_, ?_⟩
  · intro o' r
    rw [h.mem_reports, DisputesState.mem_reports_addReport, List.exists_mem_cons_iff, ho,
      Option.some_inj, or_assoc]
    refine or_congr_right (or_congr_left ?_)
    exact ⟨fun hr => ⟨hr.1.symm, hr.2.symm⟩, fun hr => ⟨hr.1.symm, hr.2.symm⟩⟩
  · intro w hw
    rcases List.mem_cons.mp hw with rfl | hw
    · rw [ho]
      rfl
    · exact h.judged w hw
  · intro w hw hgood
    rcases List.mem_cons.mp hw with rfl | hw
    · rw [ho, Option.some_inj] at hgood
      exact hfault hgood
    · exact h.faulted w hw hgood
  · rw [h.offenders, DisputesState.offenders_addReport]

/-- The loop over the verdicts. -/
lemma judging_foldlM {faults : List (Fault Hash Key Signature)}
    {verdicts : List (Verdict Hash Signature)} :
    ∀ {s s' : DisputesState Hash Key}, verdicts.foldlM (processVerdict faults) s = .ok s' →
      Judging faults s verdicts s' := by
  induction verdicts with
  | nil =>
    intro s s' h
    cases h
    exact ⟨id, by simp, by simp, by simp, rfl⟩
  | cons v verdicts ih =>
    intro s s' h
    rw [List.foldlM_cons, Except.bind_eq_ok] at h
    obtain ⟨s₁, hv, h⟩ := h
    exact (ih h).step hv

end Order

/-! ## The loops over the evidence -/

section Evidence

variable [LinearOrder Key]

/-- What a loop over evidence with these keys has done. -/
structure Punished (priorOffenders keys : List Key) (out out' : DisputesOutput Hash Key) : Prop where
  mark_eq : out'.offendersMark = out.offendersMark ++ keys
  keys_new : ∀ key ∈ keys, key ∉ priorOffenders
  mem_offenders : ∀ key, key ∈ out'.postState.offenders ↔
    key ∈ out.postState.offenders ∨ key ∈ keys
  ascending : out.postState.offenders.Pairwise (· < ·) → out'.postState.offenders.Pairwise (· < ·)
  reports : out'.postState.reports = out.postState.reports

lemma Punished.nil (priorOffenders : List Key) (out : DisputesOutput Hash Key) :
    Punished priorOffenders [] out out :=
  ⟨(List.append_nil _).symm, by simp, by simp, id, rfl⟩

lemma Punished.append {priorOffenders keys keys' : List Key} {out out₁ out' : DisputesOutput Hash Key}
    (h : Punished priorOffenders keys out out₁) (h' : Punished priorOffenders keys' out₁ out') :
    Punished priorOffenders (keys ++ keys') out out' := by
  refine ⟨?_, ?_, ?_, fun hs => h'.ascending (h.ascending hs), h'.reports.trans h.reports⟩
  · rw [h'.mark_eq, h.mark_eq, List.append_assoc]
  · intro key hkey
    rcases List.mem_append.mp hkey with hkey | hkey
    · exact h.keys_new key hkey
    · exact h'.keys_new key hkey
  · intro key
    rw [h'.mem_offenders, h.mem_offenders, List.mem_append, or_assoc]

/-- One key is punished. -/
lemma addOffender_eq_ok {priorOffenders : List Key} {out out' : DisputesOutput Hash Key} {key : Key}
    (h : addOffender priorOffenders out key = .ok out') :
    Punished priorOffenders [key] out out' := by
  have hprior : key ∉ priorOffenders := by
    intro hprior
    rw [addOffender, if_pos hprior] at h
    cases h
  rw [addOffender, if_neg hprior] at h
  cases h
  refine ⟨rfl, ?_, ?_, ?_, ?_⟩
  · intro key' hkey'
    rw [List.mem_singleton] at hkey'
    rwa [hkey']
  · intro key'
    rw [List.mem_singleton]
    split_ifs with hmem
    · exact ⟨.inl, fun hkey' => hkey'.elim id (fun heq => heq ▸ hmem)⟩
    · rw [mem_insort, or_comm]
  · intro hs
    dsimp only
    split_ifs with hmem
    · exact hs
    · exact pairwise_lt_insort hs hmem
  · dsimp only
    split_ifs
    · rfl
    · funext o
      cases o <;> rfl

/-- A loop that punishes the key of each piece of evidence, after a check `P` that reads the
outcomes. -/
lemma punished_foldlM {Evidence : Type} {priorOffenders : List Key} {key : Evidence → Key}
    {add : DisputesOutput Hash Key → Evidence → Except DisputesError (DisputesOutput Hash Key)}
    {P : (Outcome → List Hash) → Evidence → Prop}
    (hadd : ∀ {out e out'}, add out e = .ok out' →
      P out.postState.reports e ∧ addOffender priorOffenders out (key e) = .ok out')
    {evidence : List Evidence} :
    ∀ {out out'}, evidence.foldlM add out = .ok out' →
      Punished priorOffenders (evidence.map key) out out' ∧
        ∀ e ∈ evidence, P out.postState.reports e := by
  induction evidence with
  | nil =>
    intro out out' h
    cases h
    exact ⟨Punished.nil _ _, fun e he => by cases he⟩
  | cons e evidence ih =>
    intro out out' h
    rw [List.foldlM_cons, Except.bind_eq_ok] at h
    obtain ⟨out₁, he, h⟩ := h
    obtain ⟨hok, hstep⟩ := hadd he
    have hpunished := addOffender_eq_ok hstep
    obtain ⟨hrest, hoks⟩ := ih h
    refine ⟨hpunished.append hrest, ?_⟩
    intro e' he'
    rcases List.mem_cons.mp he' with rfl | he'
    · exact hok
    · have hok' := hoks e' he'
      rwa [hpunished.reports] at hok'

end Evidence

/-- The fault denies the outcome of its report. -/
def Contradicts (reports : Outcome → List Hash) (f : Fault Hash Key Signature) : Prop :=
  (f.target ∈ reports .good ∧ f.vote = false) ∨ (f.target ∈ reports .bad ∧ f.vote = true)

section Block

variable [LinearOrder Hash] [LinearOrder Key]

lemma addCulprit_eq_ok {priorOffenders : List Key} {out out' : DisputesOutput Hash Key}
    {c : Culprit Hash Key Signature} (h : addCulprit priorOffenders out c = .ok out') :
    c.target ∈ out.postState.reports .bad ∧ addOffender priorOffenders out c.key = .ok out' := by
  rw [addCulprit] at h
  split_ifs at h with hbad
  exact ⟨hbad, h⟩

lemma addFault_eq_ok {priorOffenders : List Key} {out out' : DisputesOutput Hash Key}
    {f : Fault Hash Key Signature} (h : addFault priorOffenders out f = .ok out') :
    Contradicts out.postState.reports f ∧ addOffender priorOffenders out f.key = .ok out' := by
  rw [addFault] at h
  split_ifs at h with hcontradicts
  refine ⟨?_, h⟩
  simpa [Contradicts, DisputesState.reports] using hcontradicts

/-! ## A block -/

variable {verify : Key → SigningContext → Hash → Signature → Bool}

/-- An accepted extrinsic: the verdicts are written, and all evidence is judged by the outcomes
after them. -/
lemma stateTransition_eq_ok {d : ExtrinsicDisputes Hash Key Signature} {s : DisputesState Hash Key}
    {out : DisputesOutput Hash Key} (h : stateTransition verify d s = .ok out) :
    ∃ judged, Judging d.faults s d.verdicts judged ∧
      Punished s.offenders (d.culprits.map Culprit.key ++ d.faults.map Fault.key) ⟨judged, []⟩ out ∧
      (∀ c ∈ d.culprits, c.target ∈ out.postState.reports .bad) ∧
      ∀ f ∈ d.faults, Contradicts out.postState.reports f := by
  rw [stateTransition] at h
  split_ifs at h with hculprits hfaults hsorted hduplicate
  obtain ⟨judged, hverdicts, h⟩ := Except.bind_eq_ok.mp h
  obtain ⟨out₁, hculprits, h⟩ := Except.bind_eq_ok.mp h
  rw [processCulprits] at hculprits
  split_ifs at hculprits with hculpritsSorted
  rw [processFaults] at h
  split_ifs at h with hfaultsSorted
  obtain ⟨hpunished, hbad⟩ := punished_foldlM
    (P := fun reports (c : Culprit Hash Key Signature) => c.target ∈ reports .bad)
    addCulprit_eq_ok hculprits
  obtain ⟨hpunished', hcontradicts⟩ := punished_foldlM (P := Contradicts) addFault_eq_ok h
  refine ⟨judged, judging_foldlM hverdicts, hpunished.append hpunished', ?_, ?_⟩
  · rw [hpunished'.reports, hpunished.reports]
    exact hbad
  · rw [hpunished'.reports]
    exact hcontradicts

/-- What an accepted block says for its disputes. -/
structure Block.Judged (b : Block Hash Key Signature) (s s' : DisputesState Hash Key) : Prop where
  marker_eq : b.offendersMarker =
    b.extrinsic.culprits.map Culprit.key ++ b.extrinsic.faults.map Fault.key
  marker_new : ∀ key ∈ b.offendersMarker, key ∉ s.offenders
  mem_offenders : ∀ key, key ∈ s'.offenders ↔ key ∈ s.offenders ∨ key ∈ b.offendersMarker
  culprits_bad : ∀ c ∈ b.extrinsic.culprits, c.target ∈ s'.badSet
  faults_contradict : ∀ f ∈ b.extrinsic.faults,
    (f.target ∈ s'.goodSet ∧ f.vote = false) ∨ (f.target ∈ s'.badSet ∧ f.vote = true)
  good_faulted : ∀ r ∈ s'.goodSet, r ∉ s.goodSet →
    ∃ f ∈ b.extrinsic.faults, f.target = r ∧ f.vote = false

/-- A block that is accepted passes the checks and the transition. -/
lemma applyDisputes_eq_ok {epochTimeslots : ℕ} {b : Block Hash Key Signature}
    {s s' : DisputesState Hash Key} (h : applyDisputes verify epochTimeslots b s = .ok s') :
    validateExtrinsicDisputes verify epochTimeslots b.extrinsic b.timeslot b.validatorPool
        b.validatorArchive = .ok () ∧
      stateTransition verify b.extrinsic s = .ok ⟨s', b.offendersMarker⟩ := by
  rw [applyDisputes, Except.bind_eq_ok] at h
  obtain ⟨⟨⟩, hvalid, h⟩ := h
  obtain ⟨out, hout, h⟩ := Except.bind_eq_ok.mp h
  split_ifs at h with hmarker
  cases h
  rw [not_not] at hmarker
  rw [hmarker]
  exact ⟨hvalid, hout⟩

/-- One accepted block. -/
lemma applyDisputes_judged {epochTimeslots : ℕ} {b : Block Hash Key Signature}
    {s s' : DisputesState Hash Key} (h : applyDisputes verify epochTimeslots b s = .ok s')
    (hs : s.WellFormed) : s'.WellFormed ∧ s.Grows s' ∧ b.Judged s s' := by
  obtain ⟨-, h⟩ := applyDisputes_eq_ok h
  obtain ⟨judged, hjudging, hpunished, hculprits, hfaults⟩ := stateTransition_eq_ok h
  have hjudged := hjudging.wellFormed hs
  have hreports : s'.reports = judged.reports := hpunished.reports
  have hmarker := hpunished.mark_eq
  rw [List.nil_append] at hmarker
  have hoffenders := hpunished.mem_offenders
  rw [hjudging.offenders, ← hmarker] at hoffenders
  have hs' : s'.WellFormed := by
    refine ⟨?_, ?_, hpunished.ascending hjudged.offenders⟩
    · rw [hreports]
      exact hjudged.ascending
    · rw [hreports]
      exact hjudged.disjoint
  refine ⟨hs', ⟨?_, fun key hkey => (hoffenders key).mpr (.inl hkey)⟩, hmarker, ?_, hoffenders,
    hculprits, hfaults, ?_⟩
  · intro o r hr
    rw [hreports, hjudging.mem_reports]
    exact .inl hr
  · have hnew := hpunished.keys_new
    rwa [← hmarker] at hnew
  · intro r hr hnew
    have hr' : r ∈ judged.reports .good := by
      rw [← hreports]
      exact hr
    rcases (hjudging.mem_reports .good r).mp hr' with hold | ⟨v, hv, rfl, hgood⟩
    · exact absurd hold hnew
    · obtain ⟨f, hf, htarget⟩ := hjudging.faulted v hv hgood
      refine ⟨f, hf, htarget, ?_⟩
      rcases hfaults f hf with ⟨-, hvote⟩ | ⟨hbad, -⟩
      · exact hvote
      · rw [htarget] at hbad
        exact absurd hbad (hs'.disjoint .good .bad (by decide) hr)

/-! ## The pending reports -/

omit [LinearOrder Hash] [LinearOrder Key] in
lemma votes_pos_of_validateVerdict {currentEpoch : ℕ} {pool archive : List Key}
    {v : Verdict Hash Signature} (h : validateVerdict verify currentEpoch pool archive v = .ok ()) :
    0 < v.votes.length := by
  rw [validateVerdict, Except.bind_eq_ok] at h
  obtain ⟨validators, -, h⟩ := h
  split_ifs at h with hcount
  omega

/-- The block has a bad or a wonky verdict on the report. -/
def ExtrinsicDisputes.Rejects (d : ExtrinsicDisputes Hash Key Signature) (r : Hash) : Prop :=
  ∃ v ∈ d.verdicts, v.target = r ∧ (v.isBad ∨ v.isWonky)

instance (d : ExtrinsicDisputes Hash Key Signature) (r : Hash) : Decidable (d.Rejects r) :=
  inferInstanceAs (Decidable (∃ v ∈ d.verdicts, v.target = r ∧ (v.isBad ∨ v.isWonky)))

/-- The pending reports with a bad or a wonky verdict are off their cores, and all others are where
they were. -/
structure Cleared {Pending : Type} (reportHash : Pending → Hash)
    (d : ExtrinsicDisputes Hash Key Signature) (before after : List (Option Pending)) : Prop where
  length_eq : after.length = before.length
  rejected : ∀ (core : ℕ) p, before[core]? = some (some p) → d.Rejects (reportHash p) →
    after[core]? = some none
  kept : ∀ (core : ℕ) p, before[core]? = some (some p) → ¬ d.Rejects (reportHash p) →
    after[core]? = some (some p)
  empty : ∀ core : ℕ, before[core]? = some none → after[core]? = some none

/-- A block rejects the reports of its verdicts that are not good. -/
lemma mem_rejectedReports_iff {epochTimeslots : ℕ} {b : Block Hash Key Signature}
    {s s' : DisputesState Hash Key} (h : applyDisputes verify epochTimeslots b s = .ok s') {r : Hash} :
    r ∈ rejectedReports b.extrinsic ↔ b.extrinsic.Rejects r := by
  obtain ⟨hvalid, h⟩ := applyDisputes_eq_ok h
  obtain ⟨judged, hjudging, -⟩ := stateTransition_eq_ok h
  rw [validateExtrinsicDisputes, Except.bind_eq_ok] at hvalid
  obtain ⟨⟨⟩, hverdicts, -⟩ := hvalid
  have hvalid := Except.forM_eq_ok hverdicts
  rw [rejectedReports, List.mem_map, ExtrinsicDisputes.Rejects]
  refine exists_congr fun v => ?_
  rw [List.mem_filter, and_assoc, and_congr_right_iff, Bool.not_eq_true', and_comm]
  intro hv
  rw [Verdict.not_isGood_iff (votes_pos_of_validateVerdict (hvalid v hv)) (hjudging.judged v hv)]

lemma cleared_assurancesAfterDisputes {Pending : Type} (reportHash : Pending → Hash)
    {epochTimeslots : ℕ} {b : Block Hash Key Signature} {s s' : DisputesState Hash Key}
    (h : applyDisputes verify epochTimeslots b s = .ok s') (assurances : List (Option Pending)) :
    Cleared reportHash b.extrinsic assurances
      (assurancesAfterDisputes reportHash b.extrinsic assurances) := by
  have hrejects := fun p => mem_rejectedReports_iff h (r := reportHash p)
  refine ⟨List.length_map _, ?_, ?_, ?_⟩
  · intro core p hp hrejected
    rw [assurancesAfterDisputes, List.getElem?_map, hp, Option.map_some,
      Option.filter_some_neg (by simpa using (hrejects p).mpr hrejected)]
  · intro core p hp hkept
    rw [assurancesAfterDisputes, List.getElem?_map, hp, Option.map_some,
      Option.filter_some_pos (by simpa using mt (hrejects p).mp hkept)]
  · intro core hcore
    rw [assurancesAfterDisputes, List.getElem?_map, hcore, Option.map_some, Option.filter_none]

/-! ## A run -/

/-- The state is well-formed after every run. -/
lemma Run.wellFormed {epochTimeslots : ℕ} {s s' : DisputesState Hash Key}
    (h : Run verify epochTimeslots s s') (hs : s.WellFormed) : s'.WellFormed := by
  induction h with
  | none => exact hs
  | block _ hblock ih => exact (applyDisputes_judged hblock ih).1

lemma Run.grows {epochTimeslots : ℕ} {s s' : DisputesState Hash Key}
    (h : Run verify epochTimeslots s s') (hs : s.WellFormed) : s.Grows s' := by
  induction h with
  | none => exact .refl _
  | block hrun hblock ih => exact ih.trans (applyDisputes_judged hblock (hrun.wellFormed hs)).2.1

/-- Over every run of accepted blocks from the empty state the lists are strictly ascending, no
report has two outcomes, and nothing is taken off.  A further block that is accepted marks the keys
of its culprits and faults, none of them known, and adds them to the offenders; its evidence agrees
with the outcomes; and the pending reports that are cleared are those with a bad or a wonky
verdict. -/
theorem disputes_hold {Pending : Type} (reportHash : Pending → Hash) {epochTimeslots : ℕ}
    {s : DisputesState Hash Key} (hrun : Run verify epochTimeslots .empty s) :
    s.WellFormed ∧ (∀ s', Run verify epochTimeslots s s' → s.Grows s') ∧
      ∀ b s', applyDisputes verify epochTimeslots b s = .ok s' → b.Judged s s' ∧
        ∀ assurances, Cleared reportHash b.extrinsic assurances
          (assurancesAfterDisputes reportHash b.extrinsic assurances) := by
  have hs := hrun.wellFormed DisputesState.empty_wellFormed
  refine ⟨hs, fun s' hrun' => hrun'.grows hs, ?_⟩
  intro b s' hblock
  exact ⟨(applyDisputes_judged hblock hs).2.2, cleared_assurancesAfterDisputes reportHash hblock⟩

/-! ## A block with a good and a bad verdict -/

/-- Five of six validators judge report 7 to be good, against the judgement with key 4, and report 9
to be bad; the validators with keys 1 and 4 have guaranteed report 9. -/
def sampleBlock : Block ℕ ℕ Unit where
  extrinsic :=
    { verdicts := [⟨7, 0, (List.range 5).map (fun i => ⟨true, i, ()⟩)⟩,
        ⟨9, 0, (List.range 5).map (fun i => ⟨false, i, ()⟩)⟩]
      culprits := [⟨9, 1, ()⟩, ⟨9, 4, ()⟩]
      faults := [⟨7, false, 4, ()⟩] }
  offendersMarker := [1, 4, 4]
  timeslot := 3
  validatorPool := [0, 1, 2, 3, 4, 5]
  validatorArchive := []

/-- The key 4 is marked twice and punished once; the pending report 9 is cleared. -/
theorem sampleBlock_holds :
    applyDisputes (fun _ _ _ _ => true) 12 sampleBlock .empty = .ok ⟨[7], [9], [], [1, 4]⟩ ∧
      (∀ key ∈ [1, 4, 4], key ∉ (DisputesState.empty : DisputesState ℕ ℕ).offenders) ∧
      (assurancesAfterDisputes id sampleBlock.extrinsic [some 9, some 7])[0]? = some none ∧
      (assurancesAfterDisputes id sampleBlock.extrinsic [some 9, some 7])[1]? = some (some 7) := by
  have hblock : applyDisputes (fun _ _ _ _ => true) 12 sampleBlock .empty =
      .ok ⟨[7], [9], [], [1, 4]⟩ := by decide
  obtain ⟨hjudged, hcleared⟩ := (disputes_hold (id : ℕ → ℕ)
    (.none .empty : Run (fun _ _ _ (_ : Unit) => true) 12 .empty .empty)).2.2 _ _ hblock
  exact ⟨hblock, hjudged.marker_new, (hcleared [some 9, some 7]).rejected 0 9 rfl (by decide),
    (hcleared [some 9, some 7]).kept 1 7 rfl (by decide)⟩

end Block

end Disputes
