import Pyjamaz.HostCalls.Conservation

/-!
# The ids of new services

A context knows the id that the next account will get.  It is looked for when the context is created,
and again whenever it has been given away, before the new account is stored.  No call makes an
account visible at this id except the one that gives it away (`Effect.keepsNextFree`), and the next id
is another one, as the search does not get all the way around.

The search is a recursion, so it ends with an exception where too many ids in a row are in use.
`checkServiceId_eq_ok_iff` says what it finds, and `checkServiceId_finds_iff` where it finds anything.
-/

namespace HostCalls

open Accumulation Services Octets

variable {coreCount : ℕ}

/-! ## The search -/

/-- No account has the id. -/
def IsFree (services : ServicesState) (service : ℕ) : Prop :=
  services.retrieveServiceAccount service = .error .noResult

/-- The account with the id can be read. -/
def IsVisible (services : ServicesState) (service : ℕ) : Prop :=
  ∃ account, services.retrieveServiceAccount service = .ok account

lemma not_isFree_of_isVisible {services : ServicesState} {service : ℕ}
    (h : IsVisible services service) : ¬ IsFree services service := by
  obtain ⟨account, haccount⟩ := h
  intro hfree
  cases haccount.symm.trans hfree

/-- The first free id from a given one on, in cyclic order. -/
def IsFirstFree (services : ServicesState) (start id : ℕ) : Prop :=
  ∃ k, id = shiftServiceId start k ∧ IsFree services id ∧
    ∀ j < k, ¬ IsFree services (shiftServiceId start j)

/-- Among the first ids from a given one on is a free one, and the accounts before it can be read. -/
def FreeWithin (services : ServicesState) (depth start : ℕ) : Prop :=
  ∃ k < depth, IsFree services (shiftServiceId start k) ∧
    ∀ j < k, IsVisible services (shiftServiceId start j)

/-- What the search finds. -/
lemma checkServiceId_eq_ok_iff {services : ServicesState} {id : ℕ} :
    ∀ {depth start : ℕ}, IsPublic start → (checkServiceId services depth start = .ok id ↔
      ∃ k < depth, id = shiftServiceId start k ∧ IsFree services id ∧
        ∀ j < k, IsVisible services (shiftServiceId start j)) := by
  intro depth
  induction depth with
  | zero =>
    intro start _
    refine iff_of_false (fun h => by cases h) ?_
    rintro ⟨k, hk, -⟩
    exact absurd hk (Nat.not_lt_zero k)
  | succ depth ih =>
    intro start hstart
    have hzero := shiftServiceId_zero hstart
    have hsucc : ∀ k, shiftServiceId (shiftServiceId start 1 : ℕ) k = shiftServiceId start (k + 1) := by
      intro k
      rw [shiftServiceId_shiftServiceId, Nat.add_comm]
    -- it is the first id, or the search goes on at the next one
    rw [checkServiceId, Nat.exists_lt_succ_left]
    simp only [Nat.forall_lt_succ_left, hzero, Nat.not_lt_zero, false_imp_iff, implies_true, and_true]
    cases haccount : services.retrieveServiceAccount start with
    | ok account =>
      have hvisible : IsVisible services start := ⟨account, haccount⟩
      simp only [ih (isPublic_shiftServiceId _ _), hsucc, hvisible, true_and]
      constructor
      · exact .inr
      · rintro (⟨rfl, hfree⟩ | h)
        · exact absurd hfree (not_isFree_of_isVisible hvisible)
        · exact h
    | error e =>
      have hnotVisible : ¬ IsVisible services start := by
        rintro ⟨account, hvisible⟩
        cases haccount.symm.trans hvisible
      simp only [hnotVisible, false_and, and_false, exists_false, or_false]
      by_cases he : e = .noResult
      · subst he
        show (.ok start : Except HostError ℕ) = .ok id ↔ _
        rw [Except.ok.injEq]
        constructor
        · rintro rfl
          exact ⟨rfl, haccount⟩
        · rintro ⟨rfl, -⟩
          rfl
      · refine iff_of_false ?_ ?_
        · cases e <;> first | exact absurd rfl he | exact fun h => by cases h
        · rintro ⟨rfl, hfree⟩
          exact he (Except.error.inj (haccount.symm.trans hfree))

/-- The search finds the first free id exactly when it is among the ids that the recursion reaches. -/
lemma checkServiceId_finds_iff {services : ServicesState} {depth start : ℕ} (hstart : IsPublic start) :
    (∃ id, checkServiceId services depth start = .ok id ∧ IsFirstFree services start id) ↔
      FreeWithin services depth start := by
  constructor
  · rintro ⟨id, hid, -⟩
    obtain ⟨k, hk, rfl, hfree, hbefore⟩ := (checkServiceId_eq_ok_iff hstart).mp hid
    exact ⟨k, hk, hfree, hbefore⟩
  · rintro ⟨k, hk, hfree, hbefore⟩
    exact ⟨shiftServiceId start k, (checkServiceId_eq_ok_iff hstart).mpr ⟨k, hk, rfl, hfree, hbefore⟩,
      k, rfl, hfree, fun j hj => not_isFree_of_isVisible (hbefore j hj)⟩

/-! ## The next id stays free -/

/-- The next id is public, and no account has it. -/
structure NextFree (c : AccumulateContextItem coreCount) : Prop where
  fresh : IsFree c.services c.newServiceAccountId
  isPublic : IsPublic c.newServiceAccountId

section Effects

variable {env : Environment} {timeslot : ℕ} {c c' : AccumulateContextItem coreCount}

lemma NextFree.ne_of_visible (h : NextFree c) {s : ℕ} (hs : IsVisible c.services s) :
    c.newServiceAccountId ≠ s := by
  rintro rfl
  exact not_isFree_of_isVisible hs h.fresh

/-- The account of another service is replaced or removed. -/
lemma NextFree.of_setAccount (h : NextFree c) {s : ℕ} {account : Option ServiceAccount}
    (hs : IsVisible c.services s) (hnew : c'.newServiceAccountId = c.newServiceAccountId)
    (hview : ∀ t, c'.services.retrieveServiceAccount t =
      (c.services.setPendingAccount s account).retrieveServiceAccount t) : NextFree c' := by
  refine ⟨?_, ?_⟩
  · rw [IsFree, hnew, hview, retrieveServiceAccount_setPendingAccount_of_ne (h.ne_of_visible hs)]
    exact h.fresh
  · rw [hnew]
    exact h.isPublic

/-- An id that a new account gets is free, and the next one is another. -/
lemma NextFree.next_id (h : NextFree c) {newService next : ℕ}
    (hfresh : (newService < 2 ^ 16 ∧ next = c.newServiceAccountId ∧
        c.services.serviceExists newService = .ok false) ∨
      (newService = c.newServiceAccountId ∧
        checkServiceId c.services env.recursionDepth (shiftServiceId newService 42) = .ok next)) :
    IsFree c.services newService ∧ IsPublic next ∧ IsFree c.services next ∧ next ≠ newService :=
  (next_id_of_free h.isPublic h.fresh hfresh).2

/-- Every effect leaves a free id for the next account. -/
lemma Effect.keepsNextFree (heffect : Effect env timeslot c c') (h : NextFree c) : NextFree c' := by
  cases heffect with
  | quiet hservice hservices htransfers hnew =>
    refine ⟨?_, ?_⟩
    · rw [IsFree, hnew, hservices]
      exact h.fresh
    · rw [hnew]
      exact h.isPublic
  | @create account created codeHash l g m f newService next hown hcreated hlength hcash hfresh =>
    obtain ⟨-, hpublic, hnext, hne⟩ := h.next_id hfresh
    have hother : next ≠ c.serviceAccountId := by
      rintro rfl
      cases hown.symm.trans hnext
    refine ⟨?_, hpublic⟩
    show ((c.services.setPendingAccount c.serviceAccountId _).setPendingAccount newService
      _).retrieveServiceAccount next = _
    rw [retrieveServiceAccount_setPendingAccount_of_ne hne,
      retrieveServiceAccount_setPendingAccount_of_ne hother]
    exact hnext
  | upgrade hown => exact h.of_setAccount ⟨_, hown⟩ rfl (fun t => rfl)
  | transfer hown hsender hreceiver hgas hcash => exact h.of_setAccount ⟨_, hown⟩ rfl (fun t => rfl)
  | @eject account ejected d preimageHash l a y hown hother hejected hcode hitems hlength hpresent
      hexpunged =>
    -- first the account is removed, then its balance is credited
    have hremoved : NextFree (c.setServices (c.services.setPendingAccount d none)) :=
      h.of_setAccount ⟨_, hejected⟩ rfl (fun t => rfl)
    refine hremoved.of_setAccount (s := c.serviceAccountId) ⟨account, ?_⟩ rfl (fun t => rfl)
    exact (retrieveServiceAccount_setPendingAccount_of_ne hother.symm _).trans hown
  | request hown hlength habsent hcash => exact h.of_setAccount ⟨_, hown⟩ rfl (fun t => rfl)
  | renew hown hpresent hhistory hcash => exact h.of_setAccount ⟨_, hown⟩ rfl (fun t => rfl)
  | retire hpresent hdecision => exact ⟨h.fresh, h.isPublic⟩
  | forget hown hpresent hdecision => exact h.of_setAccount ⟨_, hown⟩ rfl (fun t => rfl)
  | write hown hold hvalue hcash => exact h.of_setAccount ⟨_, hown⟩ rfl (fun t => rfl)

end Effects

/-! ## The id of a new account -/

/-- A call of `new` has created an account: its id was free, and it is the next id of the context or
the one that the registrar asked for. -/
structure Allocated (registers : Registers) (x x' : AccumulateInvocationContext coreCount)
    (out' : InvocationMutationOutput) (newService : ℕ) : Prop where
  free : IsFree x.services newService
  chosen : newService = x.context.newServiceAccountId ∨
    x.context.serviceAccountId = x.context.stateContext.privilegedServices.registrar ∧
      newService = registers.get 12 ∧ newService < 2 ^ 16
  answer : out'.registers.get 7 = newService
  created : ∃ account created codeHash, x'.services =
    ((x.services.setPendingAccount x.context.serviceAccountId (some account)).setPendingAccount
      newService (some created)).setPendingAvailability newService codeHash (registers.get 8)
        (some [])

lemma InvocationMutationOutput.get_resumeWith (out : InvocationMutationOutput) (value : ℕ) :
    (out.resumeWith value).registers.get 7 = value :=
  Registers.get_assign _ _ _

/-- What `new` does when it returns. -/
lemma hcNew_allocates {env : Environment} {registers : Registers} {memory : Memory}
    {x x' : AccumulateInvocationContext coreCount} {out out' : InvocationMutationOutput}
    (h : hcNew env registers memory x out = .ok (out', x')) (hfree : NextFree x.context) :
    x' = x ∨ ∃ newService, Allocated registers x x' out' newService := by
  rcases hostcall_eq_ok h with rfl | ⟨out₁, hbody⟩
  · exact .inl rfl
  · simp only at hbody
    split at hbody
    · cases hbody
      exact .inl rfl
    · next codeHash hread =>
      obtain ⟨account, haccount, hbody⟩ := Except.bind_eq_ok.mp hbody
      split at hbody
      · cases hbody
        exact .inl rfl
      · split at hbody
        · cases hbody
          exact .inl rfl
        · split at hbody
          · next hregistrar =>
            obtain ⟨known, hknown, hbody⟩ := Except.bind_eq_ok.mp hbody
            cases known with
            | true =>
              cases hbody
              exact .inl rfl
            | false =>
              obtain ⟨services, hservices, hbody⟩ := Except.bind_eq_ok.mp hbody
              cases hbody
              have hrequested := (@NextFree.next_id _ env _ hfree _ _
                (.inl ⟨hregistrar.2, rfl, liftHost_eq_ok hknown⟩)).1
              exact .inr ⟨registers.get 12, hrequested, .inr ⟨hregistrar.1, rfl, hregistrar.2⟩,
                InvocationMutationOutput.get_resumeWith _ _, _, _, codeHash,
                storeNew_eq_ok (liftHost_eq_ok hservices)⟩
          · obtain ⟨next, hnext, hbody⟩ := Except.bind_eq_ok.mp hbody
            obtain ⟨services, hservices, hbody⟩ := Except.bind_eq_ok.mp hbody
            cases hbody
            exact .inr ⟨x.context.newServiceAccountId, hfree.fresh, .inl rfl,
              InvocationMutationOutput.get_resumeWith _ _, _, _, codeHash,
              storeNew_eq_ok (liftHost_eq_ok hservices)⟩

/-! ## Runs -/

section Runs

variable {env : Environment} {x x' : AccumulateInvocationContext coreCount}

/-- A sequence of calls keeps the next id free, in the context and in the savepoint. -/
lemma Calls.keepsNextFree (h : Calls env x x') (hnext : NextFree x.context)
    (hsavepoint : NextFree x.savepointContext) :
    NextFree x'.context ∧ NextFree x'.savepointContext := by
  induction h with
  | none => exact ⟨hnext, hsavepoint⟩
  | call _ hcall ih =>
    have hstep := execute_step hcall
    refine ⟨hstep.effect.keepsNextFree ih.1, ?_⟩
    rcases hstep.savepoint with heq | heq
    · rw [heq]
      exact ih.2
    · rw [heq]
      exact ih.1

/-- The start of an invocation finds a free id. -/
lemma nextFree_start {state : AccumulationStateComponents coreCount} {service checkPayload timeslot : ℕ}
    (h : createFromAccumulationState env state service checkPayload timeslot = .ok x) :
    NextFree x.context ∧ NextFree x.savepointContext := by
  unfold createFromAccumulationState at h
  obtain ⟨newService, hnew, h⟩ := Except.bind_eq_ok.mp h
  cases h
  have hpublic : IsPublic (checkPayload % publicIds + 2 ^ 16) := by
    unfold IsPublic publicIds
    omega
  obtain ⟨k, -, hid, hfree, -⟩ := (checkServiceId_eq_ok_iff hpublic).mp hnew
  have hnext : IsPublic newService := hid ▸ isPublic_shiftServiceId _ _
  exact ⟨⟨hfree, hnext⟩, ⟨hfree, hnext⟩⟩

/-- The search for an id finds the first free one in cyclic order exactly when it is among those that
the recursion reaches and the accounts before it can be read.  In every run of host calls of an
invocation that has found one at its start, the next id is public and free, and an account is only
created at a free id: at the next one, or at the one that the registrar asks for. -/
theorem serviceIds_allocated (env : Environment) :
    (∀ services start, IsPublic start →
      ((∃ id, checkServiceId services env.recursionDepth start = .ok id ∧
        IsFirstFree services start id) ↔ FreeWithin services env.recursionDepth start)) ∧
    ∀ (state : AccumulationStateComponents coreCount) (service checkPayload timeslot : ℕ)
      (x₀ x : AccumulateInvocationContext coreCount),
      createFromAccumulationState env state service checkPayload timeslot = .ok x₀ →
      Calls env x₀ x →
        NextFree x.context ∧ NextFree x.savepointContext ∧
        ∀ gas registers memory out x', execute env .new gas registers memory x = .ok (out, x') →
          x' = x ∨ ∃ newService, Allocated registers x x' out newService := by
  refine ⟨fun services start hstart => checkServiceId_finds_iff hstart, ?_⟩
  intro state service checkPayload timeslot x₀ x hcreate hcalls
  obtain ⟨hcontext, hsavepoint⟩ := nextFree_start hcreate
  obtain ⟨hcontext, hsavepoint⟩ := hcalls.keepsNextFree hcontext hsavepoint
  exact ⟨hcontext, hsavepoint, fun gas registers memory out x' hcall => hcNew_allocates hcall hcontext⟩

end Runs

/-! ## A row of accounts -/

/-- Accounts at the first thousand public ids. -/
def crowdedAccounts : List (ℕ × Option ServiceAccount) :=
  (List.range 1000).map fun k => (2 ^ 16 + k, some sampleAccount)

def crowdedServices : ServicesState :=
  ⟨.init ∅, ⟨(∅ : Dict ℕ (Option ServiceAccount)).assign crowdedAccounts, ∅, ∅, ∅⟩, ∅⟩

lemma mem_crowdedAccounts {s : ℕ} {account : Option ServiceAccount} :
    (s, account) ∈ crowdedAccounts ↔ ∃ k < 1000, s = 2 ^ 16 + k ∧ account = some sampleAccount := by
  rw [crowdedAccounts, List.mem_map]
  refine exists_congr fun k => ?_
  rw [List.mem_range, Prod.mk.injEq, eq_comm (b := s), eq_comm (b := account)]

lemma get?_crowded {s : ℕ} {account : Option ServiceAccount} :
    ((∅ : Dict ℕ (Option ServiceAccount)).assign crowdedAccounts).get? s = some account ↔
      ∃ k < 1000, s = 2 ^ 16 + k ∧ account = some sampleAccount := by
  rw [Dict.get?_assign_eq_some, mem_crowdedAccounts]
  · refine or_iff_left fun h => ?_
    cases h.2
  · intro s v v' hv hv'
    obtain ⟨-, -, -, rfl⟩ := mem_crowdedAccounts.mp hv
    obtain ⟨-, -, -, rfl⟩ := mem_crowdedAccounts.mp hv'
    rfl

/-- The first free id is not found behind a thousand accounts. -/
theorem crowded_not_found :
    (∃ id, IsFirstFree crowdedServices (2 ^ 16) id) ∧
      ¬ ∃ id, checkServiceId crowdedServices sampleEnvironment.recursionDepth (2 ^ 16) = .ok id := by
  have hshift : ∀ k < 2000, shiftServiceId (2 ^ 16 : ℕ) k = 2 ^ 16 + k := by
    intro k hk
    unfold shiftServiceId publicIds
    omega
  have hused : ∀ k < 1000, ¬ IsFree crowdedServices (shiftServiceId (2 ^ 16 : ℕ) k) := by
    intro k hk
    refine not_isFree_of_isVisible ⟨sampleAccount, ?_⟩
    rw [hshift k (by omega), ServicesState.retrieveServiceAccount, if_neg (by omega),
      crowdedServices, get?_crowded.mpr ⟨k, hk, rfl, rfl⟩]
    rfl
  have hfree : IsFree crowdedServices (2 ^ 16 + 1000) := by
    have hnone : ((∅ : Dict ℕ (Option ServiceAccount)).assign crowdedAccounts).get?
        (2 ^ 16 + 1000) = none := by
      refine Option.eq_none_iff_forall_ne_some.mpr fun account haccount => ?_
      obtain ⟨k, hk, heq, -⟩ := get?_crowded.mp haccount
      omega
    rw [IsFree, ServicesState.retrieveServiceAccount, if_neg (by omega), crowdedServices, hnone]
    rfl
  have hpublic : IsPublic (2 ^ 16) := by
    unfold IsPublic
    omega
  refine ⟨⟨2 ^ 16 + 1000, 1000, (hshift 1000 (by omega)).symm, hfree, hused⟩, ?_⟩
  rintro ⟨id, hid⟩
  obtain ⟨k, hk, rfl, hfree, -⟩ := (checkServiceId_eq_ok_iff hpublic).mp hid
  exact hused k hk hfree

end HostCalls
