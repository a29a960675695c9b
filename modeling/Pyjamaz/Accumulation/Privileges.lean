import Pyjamaz.Accumulation.Order

/-!
# Who decides the privileged roles

A round should leave each role (the assigner of a core, the delegator, the registrar) to the manager,
if it accumulated and changed the value, and otherwise to the service that held the role before the
round.  The loop over the outputs compares each service with the *current* holder, which it has just
overwritten, so a service that is handed a role early in the round can pass it on later in the same
round.

`posterior_eq_decided_iff` says exactly when the outcome is nevertheless the intended one: when the
manager overrides, when the new holder does not come up again after the old one, or when the role is
handed back to it in the end.
-/

namespace Accumulation

open Services

variable {coreCount : ℕ}

/-! ## Roles -/

/-- A privileged role that its holder may pass on. -/
inductive Role (coreCount : ℕ) where
  | assigner (core : Fin coreCount)
  | delegator
  | registrar
  deriving DecidableEq

/-- The holder of a role. -/
def Role.holder (r : Role coreCount) (p : PrivilegedServices coreCount) : ℕ :=
  match r with
  | .assigner c => p.assigners.get c
  | .delegator => p.delegator
  | .registrar => p.registrar

/-- The manager's value for a role that the loop has recorded. -/
def Role.managerValue (r : Role coreCount) (acc : RoundState coreCount) : ℕ :=
  match r with
  | .assigner c => acc.managerAssigners.get c
  | .delegator => acc.managerDelegator
  | .registrar => acc.managerRegistrar

lemma get_eq_getElem {α : Type} {n : ℕ} (v : Vector α n) (i : Fin n) :
    v.get i = getElem v i.1 i.isLt := rfl

/-- What each service of the round has chosen for a role. -/
def Role.choices (r : Role coreCount) (outputs : Outputs coreCount) : List (ℕ × ℕ) :=
  outputs.map (fun (s, o) => (s, r.holder o.stateContext.privilegedServices))

lemma Role.holder_applyOutput (r : Role coreCount) (pre : PrivilegedServices coreCount)
    (acc : RoundState coreCount) (s : ℕ) (o : PvmAccumulateOutput coreCount) :
    r.holder (applyOutput pre acc (s, o)).privilegedServices =
      passRole s (r.holder acc.privilegedServices) (r.holder o.stateContext.privilegedServices) := by
  by_cases hs : s = pre.manager
  · cases r <;> simp [applyOutput, applyQueues, applyRoles, applyManager, hs, Role.holder,
      get_eq_getElem]
  · cases r <;> simp [applyOutput, applyQueues, applyRoles, applyManager, hs, Role.holder,
      get_eq_getElem]

lemma Role.managerValue_applyOutput (r : Role coreCount) (pre : PrivilegedServices coreCount)
    (acc : RoundState coreCount) (s : ℕ) (o : PvmAccumulateOutput coreCount) :
    r.managerValue (applyOutput pre acc (s, o)) =
      if s = pre.manager then r.holder o.stateContext.privilegedServices
      else r.managerValue acc := by
  by_cases hs : s = pre.manager
  · cases r <;> simp [applyOutput, applyQueues, applyManager, hs, Role.holder, Role.managerValue,
      get_eq_getElem]
  · cases r <;> simp [applyOutput, applyQueues, applyManager, hs, Role.managerValue]

lemma Role.holder_overrideByManager (r : Role coreCount) (pre : PrivilegedServices coreCount)
    (acc : RoundState coreCount) :
    r.holder (overrideByManager pre acc) =
      overrideRole (r.holder pre) (r.managerValue acc) (r.holder acc.privilegedServices) := by
  cases r <;> simp [overrideByManager, Role.holder, Role.managerValue, get_eq_getElem]

/-! ## Passing a role through the round -/

/-- The role after the services of a list, in order. -/
def passRoles (current : ℕ) (choices : List (ℕ × ℕ)) : ℕ :=
  choices.foldl (fun current choice => passRole choice.1 current choice.2) current

lemma Role.holder_foldl (r : Role coreCount) (pre : PrivilegedServices coreCount)
    (outputs : Outputs coreCount) : ∀ acc : RoundState coreCount,
      r.holder (outputs.foldl (applyOutput pre) acc).privilegedServices =
        passRoles (r.holder acc.privilegedServices) (r.choices outputs) := by
  induction outputs with
  | nil =>
    intro acc
    rfl
  | cons p rest ih =>
    intro acc
    obtain ⟨s, o⟩ := p
    rw [List.foldl_cons, ih, r.holder_applyOutput]
    rfl

lemma Role.managerValue_foldl (r : Role coreCount) (pre : PrivilegedServices coreCount)
    {outputs : Outputs coreCount} (hnodup : (outputs.map Prod.fst).Nodup) :
    ∀ acc : RoundState coreCount, r.managerValue (outputs.foldl (applyOutput pre) acc) =
      ((r.choices outputs).lookup pre.manager).getD (r.managerValue acc) := by
  induction outputs with
  | nil =>
    intro acc
    rfl
  | cons p rest ih =>
    intro acc
    obtain ⟨s, o⟩ := p
    rw [List.map_cons, List.nodup_cons] at hnodup
    have hcons : r.choices ((s, o) :: rest) =
        (s, r.holder o.stateContext.privilegedServices) :: r.choices rest := rfl
    rw [List.foldl_cons, ih hnodup.2, r.managerValue_applyOutput, hcons]
    by_cases hs : pre.manager = s
    · have habsent : (r.choices rest).lookup s = none := by
        rw [Dict.lookup_eq_none_iff]
        simpa [Role.choices] using hnodup.1
      subst hs
      simp [habsent]
    · have hne : (pre.manager == s) = false := by simpa using hs
      rw [if_neg (fun h => hs h.symm)]
      simp [List.lookup_cons, hne]

lemma passRoles_of_lookup_none {choices : List (ℕ × ℕ)} {current : ℕ}
    (h : choices.lookup current = none) : passRoles current choices = current := by
  induction choices with
  | nil => rfl
  | cons choice rest ih =>
    obtain ⟨s, y⟩ := choice
    have hne : current ≠ s := by
      rintro rfl
      simp at h
    have hbeq : (current == s) = false := by simpa using hne
    rw [List.lookup_cons, hbeq] at h
    have hstep : passRoles current ((s, y) :: rest) = passRoles (passRole s current y) rest := rfl
    rw [hstep, passRole, if_neg (fun h => hne h.symm), ih h]

/-- The role leaves a holder when its turn comes, and goes on from there. -/
lemma passRoles_append {before after : List (ℕ × ℕ)} {current y : ℕ}
    (h : before.lookup current = none) :
    passRoles current (before ++ (current, y) :: after) = passRoles y after := by
  have happend : passRoles current (before ++ (current, y) :: after) =
      passRoles (passRoles current before) ((current, y) :: after) := List.foldl_append
  have hstep : passRoles current ((current, y) :: after) =
      passRoles (passRole current current y) after := rfl
  rw [happend, passRoles_of_lookup_none h, hstep, passRole, if_pos rfl]

/-- The chain of hand-overs that starts at `y` ends by naming `x`. -/
inductive HandsBack (choice : ℕ → Option ℕ) (x : ℕ) : ℕ → Prop
  | back {y : ℕ} (h : choice y = some x) : HandsBack choice x y
  | forward {y z : ℕ} (h : choice y = some z) (hlt : y < z) (hz : HandsBack choice x z) :
      HandsBack choice x y

lemma handsBack_iff {choice : ℕ → Option ℕ} {x y z : ℕ} (h : choice y = some z) :
    HandsBack choice x y ↔ z = x ∨ (y < z ∧ HandsBack choice x z) := by
  constructor
  · rintro (h' | ⟨h', hlt, hz⟩)
    · rw [h] at h'
      exact .inl (Option.some.inj h')
    · rw [h] at h'
      cases h'
      exact .inr ⟨hlt, hz⟩
  · rintro (rfl | ⟨hlt, hz⟩)
    · exact .back h
    · exact .forward h hlt hz

lemma not_handsBack_of_none {choice : ℕ → Option ℕ} {x y : ℕ} (h : choice y = none) :
    ¬ HandsBack choice x y := by
  rintro (h' | ⟨h', -, -⟩)
  · rw [h] at h'
    cases h'
  · rw [h] at h'
    cases h'

/-- Through the rest of a round, after everyone up to `k`, the role ends with an earlier service `x`
exactly if it is there already or is handed back to it. -/
lemma passRoles_eq_iff {choice : ℕ → Option ℕ} {x : ℕ} {rest : List (ℕ × ℕ)} :
    ∀ {k : ℕ}, x ≤ k → (rest.map Prod.fst).Pairwise (· < ·) → (∀ p ∈ rest, k < p.1) →
      (∀ z, k < z → rest.lookup z = choice z) → ∀ y,
        passRoles y rest = x ↔ y = x ∨ (k < y ∧ HandsBack choice x y) := by
  induction rest with
  | nil =>
    intro k hx _ _ hlookup y
    constructor
    · intro h
      exact .inl h
    · rintro (h | ⟨hlt, hback⟩)
      · exact h
      · exact absurd hback (not_handsBack_of_none (hlookup y hlt).symm)
  | cons p rest ih =>
    intro k hx hsorted hgt hlookup y
    obtain ⟨s, o⟩ := p
    rw [List.map_cons, List.pairwise_cons] at hsorted
    have hks : k < s := hgt (s, o) List.mem_cons_self
    have hchoice : choice s = some o := by
      rw [← hlookup s hks]
      simp
    have hrest : ∀ p ∈ rest, s < p.1 := fun p hp => hsorted.1 p.1 (List.mem_map_of_mem hp)
    have hlookup' : ∀ z, s < z → rest.lookup z = choice z := by
      intro z hz
      rw [← hlookup z (hks.trans hz)]
      have hne : (z == s) = false := beq_false_of_ne hz.ne'
      rw [List.lookup_cons, hne]
    have hstep : passRoles y ((s, o) :: rest) = passRoles (passRole s y o) rest := rfl
    rw [hstep, passRole]
    by_cases hy : s = y
    · -- the role is passed on here
      subst hy
      rw [if_pos rfl, ih (hx.trans hks.le) hsorted.2 hrest hlookup' o, ← handsBack_iff hchoice]
      have hne : s ≠ x := (hx.trans_lt hks).ne'
      tauto
    · rw [if_neg hy, ih (hx.trans hks.le) hsorted.2 hrest hlookup' y]
      -- between `k` and `s` nobody accumulates
      have hgap : k < y → ¬ s < y → ¬ HandsBack choice x y := by
        intro hky hsy
        apply not_handsBack_of_none
        rw [← hlookup y hky, Dict.lookup_eq_none_iff]
        intro hmem
        rw [List.map_cons, List.mem_cons] at hmem
        rcases hmem with rfl | hmem
        · exact hy rfl
        · exact hsy (hsorted.1 y hmem)
      constructor
      · rintro (h | ⟨hsy, hback⟩)
        · exact .inl h
        · exact .inr ⟨hks.trans hsy, hback⟩
      · rintro (h | ⟨hky, hback⟩)
        · exact .inl h
        · by_cases hsy : s < y
          · exact .inr ⟨hsy, hback⟩
          · exact absurd hback (hgap hky hsy)

lemma lookup_append_of_none {before after : List (ℕ × ℕ)} {k : ℕ} (h : before.lookup k = none) :
    (before ++ after).lookup k = after.lookup k := by
  rw [List.lookup_append, h, Option.none_or]

/-- A sorted list around one of its services. -/
lemma exists_split_of_lookup {choices : List (ℕ × ℕ)} {k x : ℕ}
    (hsorted : (choices.map Prod.fst).Pairwise (· < ·)) (h : choices.lookup k = some x) :
    ∃ before after, choices = before ++ (k, x) :: after ∧ before.lookup k = none ∧
      (after.map Prod.fst).Pairwise (· < ·) ∧ (∀ p ∈ after, k < p.1) ∧
      ∀ z, k < z → after.lookup z = choices.lookup z := by
  obtain ⟨before, after, rfl, hbefore⟩ := List.lookup_eq_some_iff.mp h
  rw [List.map_append, List.map_cons, List.pairwise_append, List.pairwise_cons] at hsorted
  obtain ⟨-, ⟨hgt, hafter⟩, hcross⟩ := hsorted
  have hnone : ∀ z, k ≤ z → before.lookup z = none := by
    intro z hz
    rw [Dict.lookup_eq_none_iff]
    intro hmem
    exact absurd (hcross z hmem k List.mem_cons_self) (not_lt.mpr hz)
  refine ⟨before, after, rfl, hnone k le_rfl, hafter, ?_, ?_⟩
  · intro p hp
    exact hgt p.1 (List.mem_map_of_mem hp)
  · intro z hz
    have hne : (z == k) = false := beq_false_of_ne hz.ne'
    rw [lookup_append_of_none (hnone z hz.le), List.lookup_cons, hne]

/-- The holder's own choice stands if it is not after the holder in the round, does not accumulate,
or gets the role back. -/
def ChoiceStands (choice : ℕ → Option ℕ) (holder : ℕ) : Prop :=
  ∀ x, choice holder = some x → x ≤ holder ∨ choice x = none ∨ HandsBack choice x x

/-- The loop leaves the role where its holder before the round wants it, exactly if the choice
stands. -/
lemma passRoles_eq_choice_iff {choices : List (ℕ × ℕ)}
    (hsorted : (choices.map Prod.fst).Pairwise (· < ·)) (holder : ℕ) :
    passRoles holder choices = (choices.lookup holder).getD holder ↔
      ChoiceStands (fun s => choices.lookup s) holder := by
  cases hchoice : choices.lookup holder with
  | none =>
    have hstands : ChoiceStands (fun s => choices.lookup s) holder := by
      intro x hx
      cases hchoice.symm.trans hx
    simp only [passRoles_of_lookup_none hchoice, Option.getD_none, hstands]
  | some x =>
    obtain ⟨before, after, hsplit, hbefore, hafter, hgt, hlookup⟩ :=
      exists_split_of_lookup hsorted hchoice
    have hpass : passRoles holder choices = passRoles x after := by
      rw [hsplit, passRoles_append hbefore]
    have hstands : ChoiceStands (fun s => choices.lookup s) holder ↔
        x ≤ holder ∨ choices.lookup x = none ∨ HandsBack (fun s => choices.lookup s) x x := by
      constructor
      · intro h
        exact h x hchoice
      · intro h x' hx'
        cases hchoice.symm.trans hx'
        exact h
    rw [hpass, hstands, Option.getD_some]
    by_cases hle : x ≤ holder
    · -- the services that are left come after the new holder
      have hnone : after.lookup x = none := by
        rw [Dict.lookup_eq_none_iff]
        intro hmem
        obtain ⟨p, hp, rfl⟩ := List.mem_map.mp hmem
        exact absurd (hgt p hp) (not_lt.mpr hle)
      simp only [passRoles_of_lookup_none hnone, hle, true_or]
    · rw [← hlookup x (not_le.mp hle)]
      cases hnext : after.lookup x with
      | none => simp only [passRoles_of_lookup_none hnext, true_or, or_true]
      | some y =>
        -- the new holder has its own turn, and the role goes on from there
        have hchoice' : choices.lookup x = some y := by rw [← hlookup x (not_le.mp hle), hnext]
        obtain ⟨mid, tail, hsplit', hmid, htail, hgt', hlookup'⟩ :=
          exists_split_of_lookup hafter hnext
        have htail_lookup : ∀ z, x < z → tail.lookup z = choices.lookup z := by
          intro z hz
          rw [hlookup' z hz, hlookup z ((not_le.mp hle).trans hz)]
        rw [hsplit', passRoles_append hmid, passRoles_eq_iff le_rfl htail hgt' htail_lookup y,
          ← handsBack_iff hchoice']
        simp only [hle, reduceCtorEq, false_or]

/-! ## The posterior roles -/

/-- Who should hold a role after the round: the manager's choice if it made one, else the choice of
the holder before the round if it accumulated, else that holder. -/
def Role.decided (r : Role coreCount) (pre : PrivilegedServices coreCount)
    (outputs : Outputs coreCount) : ℕ :=
  let managerChoice := ((r.choices outputs).lookup pre.manager).getD (r.holder pre)
  if managerChoice ≠ r.holder pre then managerChoice
  else ((r.choices outputs).lookup (r.holder pre)).getD (r.holder pre)

/-- The manager decides the role, or the choice of the holder before the round stands. -/
def Role.Undisturbed (r : Role coreCount) (pre : PrivilegedServices coreCount)
    (outputs : Outputs coreCount) : Prop :=
  (∃ m, (r.choices outputs).lookup pre.manager = some m ∧ m ≠ r.holder pre) ∨
    ChoiceStands (fun s => (r.choices outputs).lookup s) (r.holder pre)

lemma Role.map_fst_choices (r : Role coreCount) (outputs : Outputs coreCount) :
    (r.choices outputs).map Prod.fst = outputs.map Prod.fst := by
  rw [Role.choices, List.map_map]
  rfl

/-- The posterior holder of a role, for outputs in ascending order of their services. -/
lemma Role.holder_round_eq_iff (r : Role coreCount) (state : AccumulationStateComponents coreCount)
    {outputs : Outputs coreCount} (hsorted : (outputs.map Prod.fst).Pairwise (· < ·)) :
    r.holder (overrideByManager state.privilegedServices
        (outputs.foldl (applyOutput state.privilegedServices) (.init state))) =
          r.decided state.privilegedServices outputs ↔
      r.Undisturbed state.privilegedServices outputs := by
  have hnodup : (outputs.map Prod.fst).Nodup := hsorted.imp (fun h => h.ne)
  have hinit : r.managerValue (RoundState.init state) = r.holder state.privilegedServices := by
    cases r <;> rfl
  have hinit' : r.holder (RoundState.init state).privilegedServices =
      r.holder state.privilegedServices := rfl
  have hchoices : ((r.choices outputs).map Prod.fst).Pairwise (· < ·) := by
    rwa [r.map_fst_choices]
  have hstands := passRoles_eq_choice_iff hchoices (r.holder state.privilegedServices)
  rw [r.holder_overrideByManager, r.holder_foldl, r.managerValue_foldl _ hnodup, hinit, hinit',
    Role.decided, overrideRole, Role.Undisturbed, ← hstands]
  cases hmanager : (r.choices outputs).lookup state.privilegedServices.manager with
  | none => simp
  | some m =>
    by_cases hm : m = r.holder state.privilegedServices
    · simp [hm]
    · have hm' : ¬ r.holder state.privilegedServices = m := fun h => hm h.symm
      simp [hm, hm']

/-- After a round, a role is where the manager or its holder before the round put it, exactly if
nobody who was handed the role during the round passed it on for good. -/
theorem posterior_eq_decided_iff (P : Primitives) (timeslot : ℕ) (invoke : Invoke coreCount)
    (state : AccumulationStateComponents coreCount) (input : RoundInput)
    {outputs : Outputs coreCount} {out : ParallelAccumulationOutput coreCount}
    (hrun : runServices invoke state input input.serviceIds = some outputs)
    (hround : parallelAccumulation P timeslot invoke state input = .ok out)
    (r : Role coreCount) :
    r.holder out.accumulationState.privilegedServices =
        r.decided state.privilegedServices outputs ↔
      r.Undisturbed state.privilegedServices outputs := by
  obtain ⟨outputs', hrun', hfinish⟩ := parallelAccumulation_eq_ok hround
  cases hrun.symm.trans hrun'
  obtain ⟨pending, committed, provided, services, -, -, -, rfl⟩ := finishRound_eq_ok hfinish
  apply r.holder_round_eq_iff state
  rw [(runServices_eq_some hrun).1]
  exact pairwise_lt_sortedSet _

/-! ## A role that is passed on twice -/

/-- A chain with no cores whose manager is service 9 and whose delegator is service 1. -/
def sampleRoles : AccumulationStateComponents 0 where
  services := ⟨.init ∅, .empty, ∅⟩
  validatorQueue := []
  authorizerQueues := .emptyWithCapacity 0
  privilegedServices := ⟨9, .emptyWithCapacity 0, 1, 0, ∅⟩

/-- Every service leaves the state alone, but names a new delegator. -/
def sampleDesignation (delegator : ℕ → ℕ) : Invoke 0 := fun state service _ _ =>
  some {
    stateContext := { state with
      privilegedServices := { state.privilegedServices with delegator := delegator service } }
    deferredTransfers := []
    accumulationOutput := none
    gasUsed := 0
    preimages := [] }

/-- Services 1 and 5 accumulate. -/
def sampleAllowances : RoundInput := ⟨[], [], Dict.assign ∅ [(1, 10), (5, 10)]⟩

/-- The delegator 1 appoints service 5, which goes on to appoint 7 in the same round: the delegator
becomes 7, not 5. -/
theorem delegator_passed_on_twice :
    ∃ outputs out, runServices (sampleDesignation (fun s => if s = 1 then 5 else 7)) sampleRoles
        sampleAllowances sampleAllowances.serviceIds = some outputs ∧
      parallelAccumulation (.ofHash fun _ => Vector.replicate 32 0) 0
        (sampleDesignation (fun s => if s = 1 then 5 else 7)) sampleRoles sampleAllowances =
          .ok out ∧
      Role.delegator.holder out.accumulationState.privilegedServices = 7 ∧
      Role.delegator.decided sampleRoles.privilegedServices outputs = 5 := by
  refine ⟨_, _, rfl, rfl, ?_, ?_⟩
  · decide
  · decide

/-- With service 5 keeping the role, the delegator's choice counts. -/
theorem delegator_passed_on_once :
    ∃ outputs out, runServices (sampleDesignation (fun _ => 5)) sampleRoles
        sampleAllowances sampleAllowances.serviceIds = some outputs ∧
      parallelAccumulation (.ofHash fun _ => Vector.replicate 32 0) 0
        (sampleDesignation (fun _ => 5)) sampleRoles sampleAllowances = .ok out ∧
      Role.delegator.holder out.accumulationState.privilegedServices =
        Role.delegator.decided sampleRoles.privilegedServices outputs := by
  refine ⟨_, _, rfl, rfl, ?_⟩
  refine (posterior_eq_decided_iff (.ofHash fun _ => Vector.replicate 32 0) 0
    (sampleDesignation (fun _ => 5)) sampleRoles sampleAllowances rfl rfl .delegator).mpr (.inr ?_)
  intro x hx
  refine .inr (.inr (.back ?_))
  cases hx
  rfl

end Accumulation
