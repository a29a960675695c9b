import Pyjamaz.Accumulation.Preimages
import Pyjamaz.HostCalls.Conservation

/-!
# The entries of accounts under host calls

Every effect of a host call is a sequence of changes of the views of services, as long as it makes no
request of `2 ^ 32 - 2` or more bytes pending.  So host calls keep the footprints of the accounts and
the soundness of their preimages, and requests move along their life cycle.
-/

namespace HostCalls

open Accumulation Services Octets

variable {coreCount : ℕ}

/-- No request with a length that is a tag of other items is pending. -/
def ShortRequests (st : ServicesState) : Prop :=
  ∀ k v, st.pendingChanges.preimagesAvailability.get? k = some v → k.2.2 < 2 ^ 32 - 2

lemma ShortRequests.of {st : ServicesState} (h : ShortRequests st) (s : ℕ) :
    st.pendingChanges.ShortRequestsOf s :=
  fun r v hget => h (s, r) v hget

/-! ## One effect -/

section Effects

variable {env : Environment} {timeslot : ℕ} {c c' : AccumulateContextItem coreCount}

/-- What `forget` does to a history is a step of its life. -/
lemma availabilityStep_of_replace {history history' : List ℕ}
    (h : forgetDecision env timeslot history = .replace history') :
    AvailabilityStep timeslot env.expungePeriod (some history) (some history') := by
  unfold forgetDecision at h
  split at h
  · cases h
  · cases h
    exact .forgotten _
  · split at h
    · cases h
    · cases h
  · split at h
    · next hy =>
      cases h
      exact .retired _ _ _ hy
    · cases h
  · cases h

lemma availabilityStep_of_remove {history : List ℕ}
    (h : forgetDecision env timeslot history = .remove) :
    AvailabilityStep timeslot env.expungePeriod (some history) none := by
  unfold forgetDecision at h
  split at h
  · exact .dropped
  · cases h
  · split at h
    · next hy => exact .expunged _ _ hy
    · cases h
  · split at h
    · cases h
    · cases h
  · cases h

/-- The footprint that `write` leaves. -/
lemma writeFootprint_eq (account : ServiceAccount) (key : Octets) {old value : Option Octets}
    (hvalue : value ≠ some []) (hold : old ≠ some []) :
    (writeFootprint account key old value).footprintStorageItems =
        account.footprintStorageItems - presence old + presence value ∧
      (writeFootprint account key old value).footprintStorageBytes =
        account.footprintStorageBytes - itemBytes key old + itemBytes key value := by
  cases value with
  | none =>
    cases old with
    | none => simp [writeFootprint]
    | some old => simp [writeFootprint, ServiceAccount.updateFootprintRemoveStorageItem]
  | some value =>
    cases old with
    | none => simp [writeFootprint, ServiceAccount.updateFootprintAddStorageItem]
    | some old =>
      have hne : old ≠ [] := fun h => hold (congrArg some h)
      simp only [writeFootprint, Option.getD_some, List.length_eq_zero_iff, hne, if_false,
        ServiceAccount.updateFootprintUpdateStorageItem, presence, itemBytes, Option.elim_some]
      omega

/-- The pending requests only become more. -/
lemma shortRequests_of_setPendingAvailability {st : ServicesState} {s t z : ℕ}
    {preimageHash : Octets32} {value : Option (List ℕ)}
    (h : (st.setPendingAvailability s preimageHash z value).pendingChanges.ShortRequestsOf t) :
    (t = s → z < 2 ^ 32 - 2) ∧ st.pendingChanges.ShortRequestsOf t := by
  have hset : ∀ k, (st.setPendingAvailability s preimageHash z
      value).pendingChanges.preimagesAvailability.get? k =
        if k = (s, preimageHash, z) then some value
        else st.pendingChanges.preimagesAvailability.get? k := fun k => Dict.get?_insert _ _ _ _
  constructor
  · rintro rfl
    exact h (preimageHash, z) value (by rw [hset, if_pos rfl])
  · intro r v hget
    by_cases hk : (t, r) = (s, preimageHash, z)
    · exact h r value (by rw [hset, if_pos hk])
    · exact h r v (by rw [hset, if_neg hk, hget])

/-- The requests that are pending before an effect are pending after it. -/
lemma Effect.shortRequests {t : ℕ} (h : Effect env timeslot c c')
    (hshort : c'.services.pendingChanges.ShortRequestsOf t) :
    c.services.pendingChanges.ShortRequestsOf t := by
  cases h with
  | quiet _ hservices => rwa [hservices] at hshort
  | create => exact (shortRequests_of_setPendingAvailability hshort).2
  | upgrade => exact hshort
  | transfer => exact hshort
  | eject =>
    exact (shortRequests_of_setPendingAvailability (show (ServicesState.setPendingAvailability
      (ServicesState.setPendingPreimage _ _ _ _) _ _ _ _).pendingChanges.ShortRequestsOf t
      from hshort)).2
  | request => exact (shortRequests_of_setPendingAvailability hshort).2
  | renew => exact (shortRequests_of_setPendingAvailability hshort).2
  | retire => exact (shortRequests_of_setPendingAvailability hshort).2
  | forget => exact (shortRequests_of_setPendingAvailability hshort).2
  | write => exact hshort

end Effects

/-! ## The changes of the services -/

section Changes

variable {P : Primitives} {timeslot expungePeriod s t : ℕ} {st st' : ServicesState}

/-- A change of one service alone. -/
lemma changes_of_own (s : ℕ)
    (hself : t = s → ∃ v, st'.view P s = v ∧ (st.view P s).Changes P timeslot expungePeriod v)
    (hother : t ≠ s → st'.view P t = st.view P t) :
    (st.view P t).Changes P timeslot expungePeriod (st'.view P t) := by
  by_cases ht : t = s
  · obtain ⟨v, hview, hchanges⟩ := hself ht
    rw [ht, hview]
    exact hchanges
  · rw [hother ht]

/-- The account is replaced by one with the same footprint. -/
lemma changes_setAccount {account account' : ServiceAccount}
    (hown : st.retrieveServiceAccount s = .ok account)
    (hitems : account'.footprintStorageItems = account.footprintStorageItems)
    (hbytes : account'.footprintStorageBytes = account.footprintStorageBytes) :
    (st.view P t).Changes P timeslot expungePeriod
      ((st.setPendingAccount s (some account')).view P t) :=
  changes_of_own s
    (fun _ => ⟨_, view_setPendingAccount_self P st (lt_of_retrieveServiceAccount hown) _,
      .single (.account hown hitems hbytes)⟩)
    (fun ht => view_setPendingAccount_of_ne P st ht _)

/-- An account appears with the request for its code. -/
lemma changes_create {account : ServiceAccount} {codeHash : Octets32} {l : ℕ} (hs : s < 2 ^ 32)
    (hl : t = s → l < 2 ^ 32 - 2) (hfree : st.retrieveServiceAccount s = .error .noResult)
    (hitems : account.footprintStorageItems = 2) (hbytes : account.footprintStorageBytes = 81 + l) :
    (st.view P t).Changes P timeslot expungePeriod
      (((st.setPendingAccount s (some account)).setPendingAvailability s codeHash l
        (some [])).view P t) := by
  have hchange : (st.view P s).Change P timeslot expungePeriod { st.view P s with
      account := .ok account
      request := Function.update (st.view P s).request (codeHash, l) (some []) } :=
    .created hfree hitems hbytes
  refine changes_of_own s (fun ht => ⟨_, ?_, .single hchange⟩) ?_
  · rw [view_setPendingAvailability_self _ _ hs (hl ht), view_setPendingAccount_self _ _ hs]
    rfl
  · intro ht
    rw [view_setPendingAvailability_of_ne _ _ ht, view_setPendingAccount_of_ne _ _ ht]

/-- An account disappears with its last request. -/
lemma changes_eject {account : ServiceAccount} {preimageHash : Octets32} {l x y : ℕ}
    (hl : t = s → l < 2 ^ 32 - 2) (haccount : st.retrieveServiceAccount s = .ok account)
    (hitems : account.footprintStorageItems = 2)
    (hpresent : st.retrievePreimageAvailability P s preimageHash l = .ok [x, y])
    (hexpunged : (y : ℤ) < timeslot - expungePeriod) :
    (st.view P t).Changes P timeslot expungePeriod
      ((((st.setPendingPreimage s preimageHash none).setPendingAvailability s preimageHash l
        none).setPendingAccount s none).view P t) := by
  refine changes_of_own s (fun ht => ?_) ?_
  · obtain ⟨hs, hrequest⟩ := request_of_retrieve (hl ht) hpresent
    refine ⟨_, ?_, .single (.ejected haccount hitems hrequest hexpunged)⟩
    rw [view_setPendingAccount_self _ _ hs, view_setPendingAvailability_self _ _ hs (hl ht),
      view_setPendingPreimage_self]
    rfl
  · intro ht
    rw [view_setPendingAccount_of_ne _ _ ht, view_setPendingAvailability_of_ne _ _ ht,
      view_setPendingPreimage_of_ne _ _ ht]

lemma changes_request {account : ServiceAccount} {preimageHash : Octets32} {z : ℕ}
    (hz : t = s → z < 2 ^ 32 - 2) (hown : st.retrieveServiceAccount s = .ok account)
    (habsent : st.retrievePreimageAvailability P s preimageHash z = .error .noResult) :
    (st.view P t).Changes P timeslot expungePeriod
      (((st.setPendingAvailability s preimageHash z (some [])).setPendingAccount s
        (some (account.updateFootprintAddPreimage z))).view P t) := by
  refine changes_of_own s (fun ht => ?_) ?_
  · have hs := lt_of_retrieveServiceAccount hown
    have hrequest : (st.view P s).request (preimageHash, z) = none := by
      simp only [ServicesState.view, if_pos (hz ht), habsent]
      rfl
    refine ⟨_, ?_, .single (.requested hown hrequest)⟩
    rw [view_setPendingAccount_self _ _ hs, view_setPendingAvailability_self _ _ hs (hz ht)]
    rfl
  · intro ht
    rw [view_setPendingAccount_of_ne _ _ ht, view_setPendingAvailability_of_ne _ _ ht]

/-- The history of a request goes on. -/
lemma changes_history {preimageHash : Octets32} {z : ℕ} {history history' : List ℕ}
    (hz : t = s → z < 2 ^ 32 - 2)
    (hpresent : st.retrievePreimageAvailability P s preimageHash z = .ok history)
    (hstep : AvailabilityStep timeslot expungePeriod (some history) (some history')) :
    (st.view P t).Changes P timeslot expungePeriod
      ((st.setPendingAvailability s preimageHash z (some history')).view P t) := by
  refine changes_of_own s (fun ht => ?_) (fun ht => view_setPendingAvailability_of_ne P st ht _ _ _)
  obtain ⟨hs, hrequest⟩ := request_of_retrieve (hz ht) hpresent
  exact ⟨_, view_setPendingAvailability_self P st hs (hz ht) _, .single (.history hrequest hstep)⟩

lemma changes_forget {account : ServiceAccount} {preimageHash : Octets32} {z : ℕ}
    {history : List ℕ} (hz : t = s → z < 2 ^ 32 - 2) (hown : st.retrieveServiceAccount s = .ok account)
    (hpresent : st.retrievePreimageAvailability P s preimageHash z = .ok history)
    (hstep : AvailabilityStep timeslot expungePeriod (some history) none) :
    (st.view P t).Changes P timeslot expungePeriod
      ((((st.setPendingAvailability s preimageHash z none).setPendingPreimage s preimageHash
        none).setPendingAccount s (some (account.updateFootprintRemovePreimage z))).view P t) := by
  refine changes_of_own s (fun ht => ?_) ?_
  · obtain ⟨hs, hrequest⟩ := request_of_retrieve (hz ht) hpresent
    refine ⟨_, ?_, .single (.forgotten hown hrequest hstep)⟩
    rw [view_setPendingAccount_self _ _ hs, view_setPendingPreimage_self,
      view_setPendingAvailability_self _ _ hs (hz ht)]
    rfl
  · intro ht
    rw [view_setPendingAccount_of_ne _ _ ht, view_setPendingPreimage_of_ne _ _ ht,
      view_setPendingAvailability_of_ne _ _ ht]

lemma changes_write {account : ServiceAccount} {key : Octets} {old value : Option Octets}
    (hown : st.retrieveServiceAccount s = .ok account)
    (hold : st.retrieveStorageItem s key = ofItem old) (hvalue : value ≠ some []) :
    (st.view P t).Changes P timeslot expungePeriod
      (((st.setPendingStorageItem s key value).setPendingAccount s
        (some (writeFootprint account key old value))).view P t) := by
  have hs := lt_of_retrieveServiceAccount hown
  have hitem : (st.view P s).storageItem key = old := by
    simp only [ServicesState.view, hold, toOption_ofItem]
  have hchange : (st.view P s).Change P timeslot expungePeriod { st.view P s with
      account := .ok (writeFootprint account key old value)
      storageItem := Function.update (st.view P s).storageItem key value } := by
    refine .written hown hvalue ?_
    rw [hitem]
    exact writeFootprint_eq account key hvalue
  refine changes_of_own s (fun _ => ⟨_, ?_, .single hchange⟩) ?_
  · rw [view_setPendingAccount_self _ _ hs, view_setPendingStorageItem_self]
    rfl
  · intro ht
    rw [view_setPendingAccount_of_ne _ _ ht, view_setPendingStorageItem_of_ne _ _ ht]

end Changes

/-! ## Runs -/

section Runs

variable {env : Environment} {timeslot : ℕ} {c c' : AccumulateContextItem coreCount}

/-- Every effect changes the views of services only in the ways that `View.Change` lists. -/
lemma Effect.changes (h : Effect env timeslot c c') (hs : Sound c) {t : ℕ}
    (hshort : c'.services.pendingChanges.ShortRequestsOf t) :
    (c.services.view env.primitives t).Changes env.primitives timeslot env.expungePeriod
      (c'.services.view env.primitives t) := by
  cases h with
  | quiet _ hservices => rw [hservices]
  | @create account created codeHash l g m f newService next hown hcreated hlength hcash hfresh =>
    obtain ⟨hlt, hfree, -, -, -⟩ := next_id_of_free hs.isPublic hs.fresh hfresh
    have hl := (shortRequests_of_setPendingAvailability hshort).1
    have hne : newService ≠ c.serviceAccountId := by
      rintro rfl
      rw [hown] at hfree
      cases hfree
    -- first the deposit is paid, then the account is added
    have hpaid : (c.services.view env.primitives t).Changes env.primitives timeslot
        env.expungePeriod ((c.services.setPendingAccount c.serviceAccountId (some { account with
          balance := account.balance - created.thresholdBalance })).view env.primitives t) :=
      changes_setAccount hown rfl rfl
    refine hpaid.trans (changes_create hlt hl ?_ ?_ ?_)
    · exact (retrieveServiceAccount_setPendingAccount_of_ne hne _).trans hfree
    · rw [hcreated]
      rfl
    · rw [hcreated]
      exact Int.zero_add _
  | upgrade hown => exact changes_setAccount hown rfl rfl
  | transfer hown hsender hreceiver hgas hcash => exact changes_setAccount hown rfl rfl
  | @eject account ejected d preimageHash l a y hown hother hejected hcode hitems hlength hpresent
      hexpunged =>
    have hl := (shortRequests_of_setPendingAvailability (show (ServicesState.setPendingAvailability
      _ _ _ _ _).pendingChanges.ShortRequestsOf t from hshort)).1
    -- first the account is removed, then its balance is credited
    have hkept : (((c.services.setPendingPreimage d preimageHash none).setPendingAvailability d
        preimageHash l none).setPendingAccount d none).retrieveServiceAccount c.serviceAccountId =
          .ok account :=
      (retrieveServiceAccount_setPendingAccount_of_ne hother.symm _).trans hown
    exact (changes_eject hl hejected hitems hpresent hexpunged).trans
      (changes_setAccount hkept rfl rfl)
  | request hown hlength habsent hcash =>
    exact changes_request (shortRequests_of_setPendingAvailability hshort).1 hown habsent
  | @renew account preimageHash z history hown hpresent hhistory hcash =>
    have hz := (shortRequests_of_setPendingAvailability hshort).1
    obtain ⟨x, y, rfl⟩ := List.length_eq_two.mp hhistory
    exact (changes_history hz hpresent (.renewed x y)).trans (changes_setAccount hown rfl rfl)
  | retire hpresent hdecision =>
    exact changes_history (shortRequests_of_setPendingAvailability hshort).1 hpresent
      (availabilityStep_of_replace hdecision)
  | forget hown hpresent hdecision =>
    exact changes_forget (shortRequests_of_setPendingAvailability hshort).1 hown hpresent
      (availabilityStep_of_remove hdecision)
  | write hown hold hvalue hcash => exact changes_write hown hold hvalue

/-- No effect writes to the store. -/
lemma Effect.stateStorage_eq (h : Effect env timeslot c c') :
    c'.services.stateStorage = c.services.stateStorage := by
  cases h with
  | quiet _ hservices => rw [hservices]
  | create => rfl
  | upgrade => rfl
  | transfer => rfl
  | eject => rfl
  | request => rfl
  | renew => rfl
  | retire => rfl
  | forget => rfl
  | write => rfl

/-- Services over the same store; the view of a service comes from what it was by changes, unless one
of its requests with the tag of another item is pending. -/
structure Derived (env : Environment) (timeslot : ℕ) (st st' : ServicesState) : Prop where
  stateStorage : st'.stateStorage = st.stateStorage
  changes : ∀ t, st'.pendingChanges.ShortRequestsOf t →
    (st.view env.primitives t).Changes env.primitives timeslot env.expungePeriod
      (st'.view env.primitives t)

lemma Derived.refl (env : Environment) (timeslot : ℕ) (st : ServicesState) :
    Derived env timeslot st st :=
  ⟨rfl, fun _ _ => .refl⟩

lemma Derived.effect {st : ServicesState} (hd : Derived env timeslot st c.services)
    (h : Effect env timeslot c c') (hs : Sound c) : Derived env timeslot st c'.services :=
  ⟨h.stateStorage_eq.trans hd.stateStorage, fun t hshort =>
    (hd.changes t (h.shortRequests hshort)).trans (h.changes hs hshort)⟩

/-- Host calls derive the services of the context and those of the savepoint. -/
lemma Calls.derived {x x' : AccumulateInvocationContext coreCount} {st : ServicesState}
    (h : Calls env x x') (hs : Sound x.context) (hstart : x.savepointContext = x.context)
    (hd : Derived env x.timeslot st x.services) :
    x'.timeslot = x.timeslot ∧ Derived env x.timeslot st x'.services ∧
      Derived env x.timeslot st x'.savepointContext.services := by
  obtain ⟨htimeslot, hcontext, hsaved⟩ := h.preserves
    (Q := fun c => Sound c ∧ Derived env x.timeslot st c.services)
    (fun c c' heffect hc => ⟨(heffect.keeps hc.1).1, hc.2.effect heffect hc.1⟩) ⟨hs, hd⟩
    (hstart ▸ ⟨hs, hd⟩)
  exact ⟨htimeslot, hcontext.2, hsaved.2⟩

end Runs

/-! ## Invocations -/

section Invocations

variable {env : Environment} {timeslot : ℕ}

/-- The credit changes a balance. -/
lemma creditAndLookup_derived {services services' : ServicesState} {service : ℕ}
    {inputs : List AccumulationInput} {code : Option Octets}
    (h : creditAndLookup services service inputs = .ok (services', code)) :
    Derived env timeslot services services' := by
  rcases creditAndLookup_cases h with ⟨-, rfl, -⟩ | ⟨account, hown, rfl | ⟨-, rfl⟩, -⟩
  · exact .refl env timeslot services'
  · exact ⟨rfl, fun t _ => changes_setAccount hown rfl rfl⟩
  · exact .refl env timeslot services'

variable {σ : Type} {M : Interpreter coreCount σ}

/-- The loop of the host calls makes a sequence of host calls. -/
lemma pvmInvokeHostCall_calls {fuel : ℕ} : ∀ {m : σ} {gas gas' : ℤ} {exit : MachineExit}
    {x x' : AccumulateInvocationContext coreCount},
    pvmInvokeHostCall env M fuel m gas x = some (.ok (exit, gas', x')) →
      ∀ {x₀}, Calls env x₀ x → Calls env x₀ x' := by
  induction fuel with
  | zero => exact fun h => by cases h
  | succ fuel ih =>
    intro m gas gas' exit x x' h x₀ hcalls
    rw [pvmInvokeHostCall] at h
    split at h
    · next n gas₁ m₁ hinvoke =>
      have hdispatch : ∀ {reason gas₂ m₂ x₂},
          dispatch env M n m₁ gas₁ x = .ok (reason, gas₂, m₂, x₂) → Calls env x₀ x₂ := by
        intro reason gas₂ m₂ x₂ hcall
        unfold dispatch at hcall
        split at hcall
        · obtain ⟨⟨out, x''⟩, hexecute, hcall⟩ := Except.bind_eq_ok.mp hcall
          cases hcall
          exact .call hcalls hexecute
        · obtain ⟨general, -, hcall⟩ := Except.bind_eq_ok.mp hcall
          cases hcall
          exact hcalls
      split at h
      · cases h
      · next hcall => exact ih h (hdispatch hcall)
      · next hcall =>
        cases h
        exact hdispatch hcall
      · next hcall =>
        cases h
        exact hdispatch hcall
    · cases h
    · cases h
      exact hcalls

/-- What is returned is the context of the program's end or the savepoint. -/
lemma collapse_context (exit : MachineExit) (x : AccumulateInvocationContext coreCount)
    (gasUsed : ℤ) : ∃ c, (c = x.context ∨ c = x.savepointContext) ∧
      (collapse exit x gasUsed).stateContext = c.stateContext ∧
      (collapse exit x gasUsed).deferredTransfers = c.deferredTransfers := by
  cases exit with
  | halt value => exact ⟨x.context, .inl rfl, rfl, rfl⟩
  | panic => exact ⟨x.savepointContext, .inr rfl, rfl, rfl⟩
  | outOfGas => exact ⟨x.savepointContext, .inr rfl, rfl, rfl⟩
  | pageFault => exact ⟨x.savepointContext, .inr rfl, rfl, rfl⟩
  | hostHalt n => exact ⟨x.savepointContext, .inr rfl, rfl, rfl⟩
  | raised => exact ⟨x.savepointContext, .inr rfl, rfl, rfl⟩

lemma createFromAccumulationState_eq {state : AccumulationStateComponents coreCount}
    {service checkPayload : ℕ} {x : AccumulateInvocationContext coreCount}
    (h : createFromAccumulationState env state service checkPayload timeslot = .ok x) :
    x.timeslot = timeslot ∧ x.services = state.services ∧
      x.savepointContext.services = state.services := by
  obtain ⟨newService, -, rfl⟩ := createFromAccumulationState_eq_ok h
  exact ⟨rfl, rfl, rfl⟩

/-- The host calls of an invocation derive the services of its context and of its savepoint. -/
lemma derived_of_start {state : AccumulationStateComponents coreCount} {service checkPayload : ℕ}
    {inputs : List AccumulationInput} {services : ServicesState} {code : Octets}
    {x₀ x : AccumulateInvocationContext coreCount}
    (hnonneg : ∀ s account, state.services.retrieveServiceAccount s = .ok account →
      0 ≤ account.balance)
    (hcredit : creditAndLookup state.services service inputs = .ok (services, some code))
    (hcreate : createFromAccumulationState env { state with services := services } service
      checkPayload timeslot = .ok x₀) (hcalls : Calls env x₀ x) :
    Derived env timeslot state.services x.services ∧
      Derived env timeslot state.services x.savepointContext.services := by
  have hsound := (sound_start hnonneg hcredit hcreate).1
  have hcredited : Derived env timeslot state.services services := creditAndLookup_derived hcredit
  obtain ⟨newService, -, rfl⟩ := createFromAccumulationState_eq_ok hcreate
  exact (hcalls.derived hsound rfl hcredited).2

/-- The services that an invocation can return: with the credit alone, or what host calls have made of
them up to the end or up to a checkpoint. -/
inductive Invoked (env : Environment) (timeslot : ℕ) (state : AccumulationStateComponents coreCount)
    (service : ℕ) : ServicesState → Prop
  | credited {inputs : List AccumulationInput} {services : ServicesState} {code : Option Octets}
      (hcredit : creditAndLookup state.services service inputs = .ok (services, code)) :
      Invoked env timeslot state service services
  | called {inputs : List AccumulationInput} {services visible : ServicesState} {code : Octets}
      {checkPayload : ℕ} {x₀ x : AccumulateInvocationContext coreCount}
      (hcredit : creditAndLookup state.services service inputs = .ok (services, some code))
      (hcreate : createFromAccumulationState env { state with services := services } service
        checkPayload timeslot = .ok x₀) (hcalls : Calls env x₀ x)
      (hvisible : visible = x.services ∨ visible = x.savepointContext.services) :
      Invoked env timeslot state service visible

lemma Invoked.derived {state : AccumulationStateComponents coreCount} {service : ℕ}
    {visible : ServicesState} (h : Invoked env timeslot state service visible)
    (hnonneg : PendingNonneg state.services) : Derived env timeslot state.services visible := by
  cases h with
  | credited hcredit => exact creditAndLookup_derived hcredit
  | called hcredit hcreate hcalls hvisible =>
    obtain ⟨hcontext, hsavepoint⟩ :=
      derived_of_start (fun _ _ => hnonneg.retrieve) hcredit hcreate hcalls
    rcases hvisible with rfl | rfl
    · exact hcontext
    · exact hsavepoint

/-- The services and the transfers that an invocation with these inputs returns. -/
inductive Outcome (env : Environment) (timeslot : ℕ) (state : AccumulationStateComponents coreCount)
    (service : ℕ) (inputs : List AccumulationInput) (output : PvmAccumulateOutput coreCount) : Prop
  /-- There is no program to run. -/
  | idle {services : ServicesState} {code : Option Octets}
      (hcredit : creditAndLookup state.services service inputs = .ok (services, code))
      (hservices : output.stateContext.services = services)
      (hsent : output.deferredTransfers = []) : Outcome env timeslot state service inputs output
  /-- A context after host calls, the last one or a savepoint. -/
  | ran {services : ServicesState} {code : Octets} {checkPayload : ℕ}
      {x₀ x : AccumulateInvocationContext coreCount} {c : AccumulateContextItem coreCount}
      (hcredit : creditAndLookup state.services service inputs = .ok (services, some code))
      (hcreate : createFromAccumulationState env { state with services := services } service
        checkPayload timeslot = .ok x₀) (hcalls : Calls env x₀ x)
      (hcontext : c = x.context ∨ c = x.savepointContext)
      (hstate : output.stateContext = c.stateContext)
      (hsent : output.deferredTransfers = c.deferredTransfers) :
      Outcome env timeslot state service inputs output

/-- What `pvm_invoke_accumulate` returns. -/
lemma pvmInvokeAccumulate_outcome {state : AccumulationStateComponents coreCount}
    {checkPayload fuel service gasLimit : ℕ} {inputs : List AccumulationInput}
    {output : PvmAccumulateOutput coreCount}
    (h : pvmInvokeAccumulate env M checkPayload timeslot fuel state service gasLimit inputs =
      some (.ok output)) : Outcome env timeslot state service inputs output := by
  have hcollapse : ∀ {services : ServicesState} {code : Octets}
      {x₀ x : AccumulateInvocationContext coreCount} (exit : MachineExit) (gasUsed : ℤ),
      creditAndLookup state.services service inputs = .ok (services, some code) →
      createFromAccumulationState env { state with services := services } service checkPayload
        timeslot = .ok x₀ → Calls env x₀ x →
        Outcome env timeslot state service inputs (collapse exit x gasUsed) := by
    intro services code x₀ x exit gasUsed hcredit hcreate hcalls
    obtain ⟨c, hcontext, hstate, hsent⟩ := collapse_context exit x gasUsed
    exact .ran hcredit hcreate hcalls hcontext hstate hsent
  unfold pvmInvokeAccumulate at h
  split at h
  · cases h
  · next services code hcredit =>
    cases code with
    | none =>
      cases h
      exact .idle hcredit rfl rfl
    | some code =>
      simp only at h
      split at h
      · cases h
        exact .idle hcredit rfl rfl
      · split at h
        · cases h
        · next x₀ hcreate =>
          split at h
          · cases h
            exact hcollapse _ _ hcredit hcreate (.none x₀)
          · next m hload =>
            obtain ⟨result, hrun, h⟩ := Option.map_eq_some_iff.mp h
            cases result with
            | error e => cases h
            | ok result =>
              obtain ⟨exit, gas, x⟩ := result
              cases h
              exact hcollapse _ _ hcredit hcreate (pvmInvokeHostCall_calls hrun (.none x₀))

lemma Outcome.invoked {state : AccumulationStateComponents coreCount} {service : ℕ}
    {inputs : List AccumulationInput} {output : PvmAccumulateOutput coreCount}
    (h : Outcome env timeslot state service inputs output) :
    Invoked env timeslot state service output.stateContext.services := by
  cases h with
  | idle hcredit hservices hsent =>
    rw [hservices]
    exact .credited hcredit
  | ran hcredit hcreate hcalls hcontext hstate hsent =>
    rw [hstate]
    refine .called hcredit hcreate hcalls ?_
    rcases hcontext with rfl | rfl
    · exact .inl rfl
    · exact .inr rfl

end Invocations

end HostCalls
