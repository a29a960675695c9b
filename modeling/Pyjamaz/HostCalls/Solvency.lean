import Pyjamaz.HostCalls.Footprint

/-!
# Solvency

An account is solvent when its balance covers its threshold.  Whatever a host call stores has been
tested against the footprint that it is stored with, or has a larger balance or a smaller footprint
than before, so solvency survives every call on its own, and a threshold is never negative.

That no counter is negative is another matter: a call subtracts from the counters what it takes to be
the size of a request or an item.  Where the counters count the entries of the account this is so, and
`footprints_kept` says when they do.
-/

namespace HostCalls

open Accumulation Services Octets

variable {coreCount : ℕ}

/-! ## Solvent services -/

/-- Every account that is found has a balance that covers its threshold. -/
def Solvent (services : ServicesState) : Prop :=
  ∀ s account, services.retrieveServiceAccount s = .ok account →
    account.thresholdBalance ≤ account.balance

section Accounts

variable {services services' : ServicesState} {s : ℕ}

/-- A balance that covers a threshold is not negative. -/
lemma Solvent.balance_nonneg (h : Solvent services) {account : ServiceAccount}
    (haccount : services.retrieveServiceAccount s = .ok account) : 0 ≤ account.balance :=
  account.thresholdBalance_nonneg.trans (h s account haccount)

/-- Solvency is about the accounts only. -/
lemma Solvent.of_same (h : Solvent services)
    (hview : ∀ t, services'.retrieveServiceAccount t = services.retrieveServiceAccount t) :
    Solvent services' := by
  intro t account haccount
  rw [hview] at haccount
  exact h t account haccount

/-- A solvent account is stored. -/
lemma Solvent.setPendingAccount (h : Solvent services) {account : ServiceAccount}
    (haccount : account.thresholdBalance ≤ account.balance) :
    Solvent (services.setPendingAccount s (some account)) := by
  intro t account' hok
  by_cases ht : t = s
  · subst ht
    rw [retrieveServiceAccount_setPendingAccount_self services (lt_of_retrieveServiceAccount hok)]
      at hok
    cases hok
    exact haccount
  · rw [retrieveServiceAccount_setPendingAccount_of_ne ht] at hok
    exact h t account' hok

/-- An account is removed. -/
lemma Solvent.removeAccount (h : Solvent services) :
    Solvent (services.setPendingAccount s none) := by
  intro t account hok
  by_cases ht : t = s
  · subst ht
    rw [retrieveServiceAccount_setPendingAccount_self services (lt_of_retrieveServiceAccount hok)]
      at hok
    cases hok
  · rw [retrieveServiceAccount_setPendingAccount_of_ne ht] at hok
    exact h t account hok

/-- A smaller footprint does not raise the threshold. -/
lemma thresholdBalance_removePreimage_le (account : ServiceAccount) (z : ℕ) :
    (account.updateFootprintRemovePreimage z).thresholdBalance ≤ account.thresholdBalance := by
  simp only [ServiceAccount.thresholdBalance, ServiceAccount.updateFootprintRemovePreimage]
  omega

end Accounts

/-! ## Host calls -/

section Calls

variable {env : Environment} {timeslot : ℕ} {c c' : AccumulateContextItem coreCount}
  {x x' : AccumulateInvocationContext coreCount}

/-- Every effect keeps the services solvent. -/
lemma Effect.solvent (h : Effect env timeslot c c') (hs : Solvent c.services) :
    Solvent c'.services := by
  cases h with
  | quiet hservice hservices htransfers hnew =>
    rw [hservices]
    exact hs
  | @create account created codeHash l g m f newService next hown hcreated hlength hcash hfresh =>
    have hpaid : Solvent (c.services.setPendingAccount c.serviceAccountId
        (some { account with balance := account.balance - created.thresholdBalance })) :=
      hs.setPendingAccount hcash
    have hdeposit : created.thresholdBalance ≤ created.balance := by
      rw [hcreated]
      exact le_refl _
    exact (hpaid.setPendingAccount (s := newService) hdeposit).of_same (fun t => rfl)
  | @upgrade account codeHash g m hown =>
    have hsame : ({ account with
        codeHash := codeHash
        gasLimitAccumulate := g
        gasLimitOnTransfer := m } : ServiceAccount).thresholdBalance ≤ account.balance :=
      hs _ account hown
    exact hs.setPendingAccount hsame
  | transfer hown hsender hreceiver hgas hcash => exact hs.setPendingAccount hcash
  | @eject account ejected d preimageHash l a y hown hother hejected hcode hitems hlength hpresent
      hexpunged =>
    have hremoved : Solvent (c.services.setPendingAccount d none) := hs.removeAccount
    have hmore : account.thresholdBalance ≤ account.balance + ejected.balance :=
      (hs _ account hown).trans (le_add_of_nonneg_right (hs.balance_nonneg hejected))
    have hcredited : Solvent ((c.services.setPendingAccount d none).setPendingAccount
        c.serviceAccountId (some { account with balance := account.balance + ejected.balance })) :=
      hremoved.setPendingAccount hmore
    exact hcredited.of_same (fun t => rfl)
  | request hown hlength habsent hcash =>
    exact (hs.setPendingAccount hcash).of_same (fun t => rfl)
  | renew hown hpresent hhistory hcash =>
    exact (hs.setPendingAccount hcash).of_same (fun t => rfl)
  | retire hpresent hdecision => exact hs.of_same (fun t => rfl)
  | @forget account preimageHash z history hown hpresent hdecision =>
    have hless := (thresholdBalance_removePreimage_le account z).trans (hs _ account hown)
    exact (hs.setPendingAccount hless).of_same (fun t => rfl)
  | write hown hold hvalue hcash =>
    exact (hs.setPendingAccount hcash).of_same (fun t => rfl)

/-- Host calls keep the services of the context and of the savepoint solvent. -/
lemma Calls.solvent (h : Calls env x x') (hs : Solvent x.services)
    (hsaved : Solvent x.savepointContext.services) :
    Solvent x'.services ∧ Solvent x'.savepointContext.services :=
  (h.preserves (Q := fun c => Solvent c.services) (fun _ _ heffect => heffect.solvent) hs hsaved).2

/-- What comes in only adds to a balance. -/
lemma creditAndLookup_solvent {services services' : ServicesState} {service : ℕ}
    {inputs : List AccumulationInput} {code : Octets} (hs : Solvent services)
    (h : creditAndLookup services service inputs = .ok (services', some code)) :
    Solvent services' := by
  obtain ⟨account, hbefore, hown, hothers, -⟩ := creditAndLookup_eq_ok h
  intro t account' hok
  by_cases ht : t = service
  · subst ht
    obtain rfl := Except.ok.inj (hown.symm.trans hok)
    exact (hs _ account hbefore).trans (le_add_of_nonneg_right (Int.natCast_nonneg _))
  · exact hs t account' ((hothers t ht).symm.trans hok)

/-- Counters that count entries are not negative. -/
lemma WellFooted.counters_nonneg {P : Primitives} {st : ServicesState} (h : WellFooted P st) {s : ℕ}
    {account : ServiceAccount} (haccount : st.retrieveServiceAccount s = .ok account) :
    0 ≤ account.footprintStorageItems ∧ 0 ≤ account.footprintStorageBytes := by
  obtain ⟨n, b, m, c, hn, hb, hm, hc, hitems, hbytes⟩ := (h s).footprint account haccount
  have hb' := hb.nonneg (fun r _ => by omega)
  have hc' := hc.nonneg (fun key value => by omega)
  have hn' := hn.nonneg
  have hm' := hm.nonneg
  omega

/-- Host calls in any order, with any registers and any memory, whatever they answer: the accounts of
the context and of the savepoint stay solvent, new ones included, and no balance is negative.  No
counter is negative either, when the counters of the services count their entries and no request with
the length `2 ^ 32 - 2` or `2 ^ 32 - 1` has become pending. -/
theorem solvency_kept {x₀ : AccumulateInvocationContext coreCount}
    {state : AccumulationStateComponents coreCount} {service checkPayload : ℕ}
    {inputs : List AccumulationInput} {services : ServicesState} {code : Octets}
    (hsolvent : Solvent state.services)
    (hcredit : creditAndLookup state.services service inputs = .ok (services, some code))
    (hcreate : createFromAccumulationState env { state with services := services } service
      checkPayload timeslot = .ok x₀) (hcalls : Calls env x₀ x) :
    ∀ visible, visible = x.services ∨ visible = x.savepointContext.services →
      Solvent visible ∧
      (∀ s account, visible.retrieveServiceAccount s = .ok account → 0 ≤ account.balance) ∧
      (WellFooted env.primitives state.services → ShortRequests visible →
        ∀ s account, visible.retrieveServiceAccount s = .ok account →
          0 ≤ account.footprintStorageItems ∧ 0 ≤ account.footprintStorageBytes) := by
  obtain ⟨-, hservices, hsaved⟩ := createFromAccumulationState_eq hcreate
  have hcredited : Solvent services := creditAndLookup_solvent hsolvent hcredit
  obtain ⟨hcontext, hsavepoint⟩ := hcalls.solvent (by rw [hservices]; exact hcredited)
    (by rw [hsaved]; exact hcredited)
  obtain ⟨hderived, hderived'⟩ := derived_of_start (fun _ _ => hsolvent.balance_nonneg) hcredit
    hcreate hcalls
  rintro visible (rfl | rfl)
  · exact ⟨hcontext, fun _ _ => hcontext.balance_nonneg, fun hfooted hshort _ _ =>
      (hfooted.of_changes (fun t => hderived.changes t (hshort.of t))).counters_nonneg⟩
  · exact ⟨hsavepoint, fun _ _ => hsavepoint.balance_nonneg, fun hfooted hshort _ _ =>
      (hfooted.of_changes (fun t => hderived'.changes t (hshort.of t))).counters_nonneg⟩

end Calls

/-! ## Sample calls -/

/-- Over a store of preimages with service 5 as the only one, solvency is about its account. -/
lemma solvent_of_only {engine : Dict StateKey Octets}
    (hengine : ∀ key data, engine.get? key = some data → key.keyClass = .preimage)
    {pending : PendingChanges} {account : ServiceAccount}
    (haccounts : pending.serviceAccounts = Dict.insert ∅ 5 (some account))
    (hcovered : account.thresholdBalance ≤ account.balance) : Solvent ⟨.init engine, pending, ∅⟩ := by
  intro s a ha
  rw [(only_account hengine haccounts ha).2]
  exact hcovered

/-- Service 5 requests a preimage of one byte and can pay for it. -/
theorem sampleSolicit_solvent :
    ∃ x account, Calls sampleEnvironment sampleInvocation x ∧
      x.services.retrieveServiceAccount 5 = .ok account ∧
      account.thresholdBalance ≤ account.balance ∧ account.thresholdBalance = 202 ∧
      0 ≤ account.footprintStorageBytes := by
  have hcall : ∃ out x account, execute sampleEnvironment .solicit 10000 sampleSolicitRegisters
      sampleMemory sampleInvocation = .ok (out, x) ∧
      x.services.retrieveServiceAccount 5 = .ok account ∧ account.thresholdBalance = 202 ∧
      x.services.pendingChanges.preimagesAvailability =
        Dict.insert ∅ (5, Vector.replicate 32 0, 1) (some []) := ⟨_, _, _, rfl, rfl, rfl, rfl⟩
  obtain ⟨out, x, account, hcall, haccount, hthreshold, hpending⟩ := hcall
  have hcalls : Calls sampleEnvironment sampleInvocation x := .call (.none _) hcall
  have hshort : ShortRequests x.services := fun k =>
    PendingChanges.shortRequestsOf_of_single hpending (by decide) k.2
  have hengine : ∀ key data, (∅ : Dict StateKey Octets).get? key = some data →
      key.keyClass = .preimage := by
    intro key data hget
    cases hget
  have hsolvent : Solvent sampleState.services := solvent_of_only hengine rfl (by decide)
  have hcredit : creditAndLookup sampleState.services 5 sampleInputs =
      .ok (sampleCredited, some [1]) := rfl
  have hcreate : createFromAccumulationState sampleEnvironment
      { sampleState with services := sampleCredited } 5 0 1 = .ok sampleInvocation := rfl
  obtain ⟨hkept, -, hcounters⟩ :=
    solvency_kept hsolvent hcredit hcreate hcalls x.services (.inl rfl)
  exact ⟨x, account, hcalls, haccount, hkept 5 account haccount, hthreshold,
    (hcounters sampleState_footed hshort 5 account haccount).2⟩

/-- All accounts are solvent and their counters count their entries; forgetting a request with the tag of
preimages as its length makes a counter negative. -/
theorem sampleForget_counter_negative :
    Solvent (sampleContext sampleTagged).services ∧
      FootprintsMatch sampleEnvironment.primitives (sampleContext sampleTagged).services ∧
      ∃ x account, Calls sampleEnvironment (sampleContext sampleTagged) x ∧
        x.services.retrieveServiceAccount 5 = .ok account ∧ account.footprintStorageBytes < 0 := by
  refine ⟨solvent_of_only sampleTagged_stored rfl (by decide), sampleTagged_match, ?_⟩
  have hcall : ∃ out x account, execute sampleEnvironment .forget 10000 sampleForgetRegisters
      sampleMemory (sampleContext sampleTagged) = .ok (out, x) ∧
      x.services.retrieveServiceAccount 5 = .ok account ∧
      account.footprintStorageBytes = 82 - (81 + (2 ^ 32 - 2 : ℕ)) := ⟨_, _, _, rfl, rfl, rfl⟩
  obtain ⟨out, x, account, hcall, haccount, hbytes⟩ := hcall
  refine ⟨x, account, .call (.none _) hcall, haccount, ?_⟩
  rw [hbytes]
  decide

end HostCalls
