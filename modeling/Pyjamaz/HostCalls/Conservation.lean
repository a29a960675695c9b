import Mathlib.Algebra.Order.BigOperators.Group.Finset
import Pyjamaz.HostCalls.Invocation

/-!
# Conservation of tokens

The balances of all accounts together with the amounts in the transfers that wait to be delivered are
the tokens of a context.  No host call changes their sum, and none makes a balance negative; a sum
below `2 ^ 64` therefore keeps every balance below `2 ^ 64`.

What carries this is `Sound`: the account of the service is there, the id for the next new account is
not in use, and no balance is negative.  The id stays unused because the search for the next one starts
42 ids ahead of the one that is given away, and would have to go round all public ids to come back
to it.
-/

namespace HostCalls

open Accumulation Services Octets

variable {coreCount : ℕ}

/-! ## The accounts of a services state -/

section Accounts

variable {services : ServicesState} {s t : ℕ}

@[simp] lemma retrieveServiceAccount_setPendingStorageItem (key : Octets) (value : Option Octets) :
    (services.setPendingStorageItem s key value).retrieveServiceAccount t =
      services.retrieveServiceAccount t := rfl

@[simp] lemma retrieveServiceAccount_setPendingPreimage (h : Octets32) (value : Option Octets) :
    (services.setPendingPreimage s h value).retrieveServiceAccount t =
      services.retrieveServiceAccount t := rfl

@[simp] lemma retrieveServiceAccount_setPendingAvailability (h : Octets32) (z : ℕ)
    (value : Option (List ℕ)) :
    (services.setPendingAvailability s h z value).retrieveServiceAccount t =
      services.retrieveServiceAccount t := rfl

lemma retrieveServiceAccount_setPendingAccount_self (services : ServicesState) (hs : s < 2 ^ 32)
    (account : Option ServiceAccount) :
    (services.setPendingAccount s account).retrieveServiceAccount s = ofItem account := by
  rw [ServicesState.retrieveServiceAccount, if_neg (not_le.mpr hs)]
  simp only [ServicesState.setPendingAccount, Dict.get?_insert_self]
  cases account with
  | none => rfl
  | some account => rfl

lemma retrieveServiceAccount_setPendingAccount_of_ne (hne : t ≠ s)
    (account : Option ServiceAccount) :
    (services.setPendingAccount s account).retrieveServiceAccount t =
      services.retrieveServiceAccount t := by
  simp only [ServicesState.retrieveServiceAccount, ServicesState.setPendingAccount,
    Dict.get?_insert_of_ne _ hne]

lemma lt_of_retrieveServiceAccount {account : ServiceAccount}
    (h : services.retrieveServiceAccount s = .ok account) : s < 2 ^ 32 := by
  by_contra hle
  rw [ServicesState.retrieveServiceAccount, if_pos (not_lt.mp hle)] at h
  cases h

end Accounts

/-! ## Tokens -/

/-- The balance of a service, zero without an account. -/
def balanceAt (services : ServicesState) (s : ℕ) : ℤ :=
  match services.retrieveServiceAccount s with
  | .ok account => account.balance
  | .error _ => 0

/-- The balances of all services. -/
def totalBalance (services : ServicesState) : ℤ := ∑ s ∈ Finset.range (2 ^ 32), balanceAt services s

/-- The tokens of a context: balances, and amounts on their way. -/
def AccumulateContextItem.tokens (c : AccumulateContextItem coreCount) : ℤ :=
  totalBalance c.services + ((c.deferredTransfers.map DeferredTransfer.amount).sum : ℕ)

lemma balanceAt_of_ok {services : ServicesState} {s : ℕ} {account : ServiceAccount}
    (h : services.retrieveServiceAccount s = .ok account) : balanceAt services s = account.balance := by
  rw [balanceAt, h]

lemma balanceAt_of_noResult {services : ServicesState} {s : ℕ}
    (h : services.retrieveServiceAccount s = .error .noResult) : balanceAt services s = 0 := by
  rw [balanceAt, h]

/-- The total depends on the accounts only. -/
lemma totalBalance_congr {services services' : ServicesState}
    (h : ∀ s, services'.retrieveServiceAccount s = services.retrieveServiceAccount s) :
    totalBalance services' = totalBalance services := by
  apply Finset.sum_congr rfl
  intro s _
  rw [balanceAt, balanceAt, h]

/-- Replacing one account changes the total by the difference of its balances. -/
lemma totalBalance_setPendingAccount {services : ServicesState} {s : ℕ} (hs : s < 2 ^ 32)
    (account : Option ServiceAccount) :
    totalBalance (services.setPendingAccount s account) =
      totalBalance services - balanceAt services s +
        (account.map ServiceAccount.balance).getD 0 := by
  have hmem : s ∈ Finset.range (2 ^ 32) := Finset.mem_range.mpr hs
  have hself : balanceAt (services.setPendingAccount s account) s =
      (account.map ServiceAccount.balance).getD 0 := by
    rw [balanceAt, retrieveServiceAccount_setPendingAccount_self services hs]
    cases account with
    | none => rfl
    | some account => rfl
  have hrest : ∑ t ∈ (Finset.range (2 ^ 32)).erase s,
      balanceAt (services.setPendingAccount s account) t =
      ∑ t ∈ (Finset.range (2 ^ 32)).erase s, balanceAt services t := by
    apply Finset.sum_congr rfl
    intro t ht
    rw [balanceAt, balanceAt,
      retrieveServiceAccount_setPendingAccount_of_ne (Finset.ne_of_mem_erase ht)]
  rw [totalBalance, totalBalance, ← Finset.sum_erase_add _ _ hmem, ← Finset.sum_erase_add _ _ hmem,
    hrest, hself, add_sub_cancel_right]

/-! ## Ids for new accounts -/

/-- The ids that new accounts get. -/
def IsPublic (s : ℕ) : Prop := 2 ^ 16 ≤ s ∧ s < 2 ^ 32 - 2 ^ 8

lemma isPublic_shiftServiceId (service : ℤ) (distance : ℕ) :
    IsPublic (shiftServiceId service distance) := by
  unfold IsPublic shiftServiceId publicIds
  omega

lemma shiftServiceId_zero {s : ℕ} (h : IsPublic s) : shiftServiceId s 0 = s := by
  unfold IsPublic at h
  unfold shiftServiceId publicIds
  omega

lemma shiftServiceId_shiftServiceId (s d d' : ℕ) :
    shiftServiceId (shiftServiceId s d : ℕ) d' = shiftServiceId s (d + d') := by
  unfold shiftServiceId publicIds
  omega

/-- A shift by less than all public ids ends elsewhere. -/
lemma shiftServiceId_ne {s d : ℕ} (h : IsPublic s) (hpos : 0 < d) (hlt : d < publicIds) :
    shiftServiceId s d ≠ s := by
  unfold IsPublic at h
  unfold publicIds at hlt
  unfold shiftServiceId publicIds
  omega

/-- The search ends at an unused id, less than its depth away. -/
lemma checkServiceId_eq_ok {services : ServicesState} {next : ℕ} :
    ∀ {depth s : ℕ}, IsPublic s → checkServiceId services depth s = .ok next →
      services.retrieveServiceAccount next = .error .noResult ∧
        ∃ d < depth, next = shiftServiceId s d := by
  intro depth
  induction depth with
  | zero =>
    intro s _ h
    cases h
  | succ depth ih =>
    intro s hs h
    rw [checkServiceId] at h
    split at h
    · obtain ⟨hfree, d, hd, rfl⟩ := ih (isPublic_shiftServiceId _ _) h
      refine ⟨hfree, 1 + d, by omega, ?_⟩
      rw [shiftServiceId_shiftServiceId]
    · next hfree =>
      cases h
      exact ⟨hfree, 0, Nat.succ_pos depth, (shiftServiceId_zero hs).symm⟩
    · cases h

/-! ## Sound contexts -/

/-- The account of the service is there, the next id is not in use, and no balance is negative. -/
structure Sound (c : AccumulateContextItem coreCount) : Prop where
  own : ∃ account, c.services.retrieveServiceAccount c.serviceAccountId = .ok account
  fresh : c.services.retrieveServiceAccount c.newServiceAccountId = .error .noResult
  isPublic : IsPublic c.newServiceAccountId
  nonneg : ∀ s account, c.services.retrieveServiceAccount s = .ok account → 0 ≤ account.balance

lemma Sound.own_ne_new {c : AccumulateContextItem coreCount} (h : Sound c) :
    c.serviceAccountId ≠ c.newServiceAccountId := by
  intro heq
  obtain ⟨account, haccount⟩ := h.own
  rw [heq, h.fresh] at haccount
  cases haccount

section Effects

variable {env : Environment} {timeslot : ℕ} {c c' : AccumulateContextItem coreCount}

/-- The accounts stay, and so do the ids. -/
lemma Sound.of_same (hs : Sound c) (hid : c'.serviceAccountId = c.serviceAccountId)
    (hnew : c'.newServiceAccountId = c.newServiceAccountId)
    (hview : ∀ s, c'.services.retrieveServiceAccount s = c.services.retrieveServiceAccount s) :
    Sound c' := by
  refine ⟨?_, ?_, ?_, ?_⟩
  · rw [hid, hview]
    exact hs.own
  · rw [hnew, hview]
    exact hs.fresh
  · rw [hnew]
    exact hs.isPublic
  · intro s account h
    rw [hview] at h
    exact hs.nonneg s account h

/-- The account of the service is replaced. -/
lemma Sound.of_setOwn (hs : Sound c) {account' : ServiceAccount}
    (hid : c'.serviceAccountId = c.serviceAccountId)
    (hnew : c'.newServiceAccountId = c.newServiceAccountId)
    (hview : ∀ s, c'.services.retrieveServiceAccount s = (c.services.setPendingAccount
      c.serviceAccountId (some account')).retrieveServiceAccount s)
    (hbalance : 0 ≤ account'.balance) : Sound c' := by
  obtain ⟨account, haccount⟩ := hs.own
  have hlt := lt_of_retrieveServiceAccount haccount
  have hself := retrieveServiceAccount_setPendingAccount_self c.services hlt (some account')
  refine ⟨?_, ?_, ?_, ?_⟩
  · rw [hid, hview]
    exact ⟨account', hself⟩
  · rw [hnew, hview, retrieveServiceAccount_setPendingAccount_of_ne hs.own_ne_new.symm]
    exact hs.fresh
  · rw [hnew]
    exact hs.isPublic
  · intro s a h
    rw [hview] at h
    by_cases hself' : s = c.serviceAccountId
    · subst hself'
      rw [hself] at h
      cases h
      exact hbalance
    · rw [retrieveServiceAccount_setPendingAccount_of_ne hself'] at h
      exact hs.nonneg s a h

/-- The tokens when the account of the service is replaced and transfers are sent. -/
lemma tokens_of_setOwn {account : ServiceAccount} (account' : ServiceAccount)
    (sent : List DeferredTransfer)
    (hown : c.services.retrieveServiceAccount c.serviceAccountId = .ok account)
    (hview : ∀ s, c'.services.retrieveServiceAccount s = (c.services.setPendingAccount
      c.serviceAccountId (some account')).retrieveServiceAccount s)
    (htransfers : c'.deferredTransfers = c.deferredTransfers ++ sent) :
    c'.tokens = c.tokens - account.balance + account'.balance +
      ((sent.map DeferredTransfer.amount).sum : ℕ) := by
  rw [AccumulateContextItem.tokens, AccumulateContextItem.tokens, totalBalance_congr hview,
    totalBalance_setPendingAccount (lt_of_retrieveServiceAccount hown), balanceAt_of_ok hown,
    htransfers, List.map_append, List.sum_append]
  simp only [Option.map_some, Option.getD_some]
  push_cast
  omega

/-- The account of the service is replaced by one with the same balance. -/
lemma keeps_of_setOwn (hs : Sound c) {account account' : ServiceAccount}
    (hown : c.services.retrieveServiceAccount c.serviceAccountId = .ok account)
    (hid : c'.serviceAccountId = c.serviceAccountId)
    (hnew : c'.newServiceAccountId = c.newServiceAccountId)
    (htransfers : c'.deferredTransfers = c.deferredTransfers)
    (hview : ∀ s, c'.services.retrieveServiceAccount s = (c.services.setPendingAccount
      c.serviceAccountId (some account')).retrieveServiceAccount s)
    (hbalance : account'.balance = account.balance) : Sound c' ∧ c'.tokens = c.tokens := by
  refine ⟨hs.of_setOwn hid hnew hview (hbalance ▸ hs.nonneg _ _ hown), ?_⟩
  have htokens := tokens_of_setOwn account' [] hown hview (by rw [htransfers, List.append_nil])
  rw [htokens, hbalance]
  simp

/-- An account is added at an unused id. -/
lemma keeps_of_insert (hs : Sound c) {newService : ℕ} {created : ServiceAccount}
    (hlt : newService < 2 ^ 32)
    (hfree : c.services.retrieveServiceAccount newService = .error .noResult)
    (hid : c'.serviceAccountId = c.serviceAccountId)
    (htransfers : c'.deferredTransfers = c.deferredTransfers)
    (hview : ∀ s, c'.services.retrieveServiceAccount s =
      (c.services.setPendingAccount newService (some created)).retrieveServiceAccount s)
    (hbalance : 0 ≤ created.balance) (hpublic : IsPublic c'.newServiceAccountId)
    (hnext : c.services.retrieveServiceAccount c'.newServiceAccountId = .error .noResult)
    (hne : c'.newServiceAccountId ≠ newService) :
    Sound c' ∧ c'.tokens = c.tokens + created.balance := by
  obtain ⟨account, haccount⟩ := hs.own
  have hself := retrieveServiceAccount_setPendingAccount_self c.services hlt (some created)
  have hown : c.serviceAccountId ≠ newService := by
    intro heq
    rw [heq, hfree] at haccount
    cases haccount
  refine ⟨⟨?_, ?_, hpublic, ?_⟩, ?_⟩
  · rw [hid, hview, retrieveServiceAccount_setPendingAccount_of_ne hown]
    exact hs.own
  · rw [hview, retrieveServiceAccount_setPendingAccount_of_ne hne]
    exact hnext
  · intro s a h
    rw [hview] at h
    by_cases hs' : s = newService
    · subst hs'
      rw [hself] at h
      cases h
      exact hbalance
    · rw [retrieveServiceAccount_setPendingAccount_of_ne hs'] at h
      exact hs.nonneg s a h
  · rw [AccumulateContextItem.tokens, AccumulateContextItem.tokens, totalBalance_congr hview,
      totalBalance_setPendingAccount hlt, balanceAt_of_noResult hfree, htransfers]
    simp only [Option.map_some, Option.getD_some]
    omega

/-- Another account is removed. -/
lemma keeps_of_remove (hs : Sound c) {d : ℕ} {ejected : ServiceAccount}
    (hother : d ≠ c.serviceAccountId)
    (hejected : c.services.retrieveServiceAccount d = .ok ejected)
    (hid : c'.serviceAccountId = c.serviceAccountId)
    (hnew : c'.newServiceAccountId = c.newServiceAccountId)
    (htransfers : c'.deferredTransfers = c.deferredTransfers)
    (hview : ∀ s, c'.services.retrieveServiceAccount s =
      (c.services.setPendingAccount d none).retrieveServiceAccount s) :
    Sound c' ∧ c'.tokens = c.tokens - ejected.balance := by
  have hlt := lt_of_retrieveServiceAccount hejected
  have hself := retrieveServiceAccount_setPendingAccount_self c.services hlt none
  have hnext : c.newServiceAccountId ≠ d := by
    intro heq
    rw [← heq, hs.fresh] at hejected
    cases hejected
  refine ⟨⟨?_, ?_, ?_, ?_⟩, ?_⟩
  · rw [hid, hview, retrieveServiceAccount_setPendingAccount_of_ne hother.symm]
    exact hs.own
  · rw [hnew, hview, retrieveServiceAccount_setPendingAccount_of_ne hnext]
    exact hs.fresh
  · rw [hnew]
    exact hs.isPublic
  · intro s a h
    rw [hview] at h
    by_cases hs' : s = d
    · subst hs'
      rw [hself] at h
      cases h
    · rw [retrieveServiceAccount_setPendingAccount_of_ne hs'] at h
      exact hs.nonneg s a h
  · rw [AccumulateContextItem.tokens, AccumulateContextItem.tokens, totalBalance_congr hview,
      totalBalance_setPendingAccount hlt, balanceAt_of_ok hejected, htransfers]
    simp only [Option.map_none, Option.getD_none]
    omega

/-- The id that is given away was free, and so is another one that is kept for the next account. -/
lemma next_id_of_free (hpublic : IsPublic c.newServiceAccountId)
    (hunused : c.services.retrieveServiceAccount c.newServiceAccountId = .error .noResult)
    {newService next : ℕ}
    (hfresh : (newService < 2 ^ 16 ∧ next = c.newServiceAccountId ∧
        c.services.serviceExists newService = .ok false) ∨
      (newService = c.newServiceAccountId ∧
        checkServiceId c.services env.recursionDepth (shiftServiceId newService 42) = .ok next)) :
    newService < 2 ^ 32 ∧ c.services.retrieveServiceAccount newService = .error .noResult ∧
      IsPublic next ∧ c.services.retrieveServiceAccount next = .error .noResult ∧
      next ≠ newService := by
  rcases hfresh with ⟨hlow, rfl, hexists⟩ | ⟨rfl, hcheck⟩
  · have hfree : c.services.retrieveServiceAccount newService = .error .noResult := by
      unfold ServicesState.serviceExists at hexists
      split at hexists
      · cases hexists
      · next h => exact h
      · cases hexists
    refine ⟨by omega, hfree, hpublic, hunused, ?_⟩
    unfold IsPublic at hpublic
    omega
  · obtain ⟨hfree, d, hd, rfl⟩ := checkServiceId_eq_ok (isPublic_shiftServiceId _ _) hcheck
    have hlt : c.newServiceAccountId < 2 ^ 32 := by
      unfold IsPublic at hpublic
      omega
    refine ⟨hlt, hunused, isPublic_shiftServiceId _ _, hfree, ?_⟩
    rw [shiftServiceId_shiftServiceId]
    refine shiftServiceId_ne hpublic (by omega) ?_
    have hdepth := env.recursionDepth_le
    unfold publicIds
    omega

lemma writeFootprint_balance (account : ServiceAccount) (key : Octets) (old new : Option Octets) :
    (writeFootprint account key old new).balance = account.balance := by
  unfold writeFootprint
  split
  · split
    · rfl
    · rfl
  · split
    · rfl
    · rfl

/-- Every effect keeps a context sound and its tokens as many. -/
lemma Effect.keeps (h : Effect env timeslot c c') (hs : Sound c) : Sound c' ∧ c'.tokens = c.tokens := by
  cases h with
  | quiet hservice hservices htransfers hnew =>
    have hview : ∀ s, c'.services.retrieveServiceAccount s = c.services.retrieveServiceAccount s := by
      intro s
      rw [hservices]
    refine ⟨hs.of_same hservice hnew hview, ?_⟩
    rw [AccumulateContextItem.tokens, AccumulateContextItem.tokens, hservices, htransfers]
  | @create account created codeHash l g m f newService next hown hcreated hlength hcash hfresh =>
    obtain ⟨hlt, hfree, hpublic, hnext, hne⟩ := next_id_of_free hs.isPublic hs.fresh hfresh
    have hthreshold : created.balance = created.thresholdBalance := by
      rw [hcreated]
      rfl
    have hnonneg := created.thresholdBalance_nonneg
    have hdeposit := account.thresholdBalance_nonneg
    -- first the deposit is paid, then the account is added
    let paid := c.setServices (c.services.setPendingAccount c.serviceAccountId
      (some { account with balance := account.balance - created.thresholdBalance }))
    have hpaid : Sound paid := hs.of_setOwn rfl rfl (fun s => rfl) (by
      show 0 ≤ account.balance - created.thresholdBalance
      omega)
    have htokens : paid.tokens = _ :=
      tokens_of_setOwn { account with balance := account.balance - created.thresholdBalance } []
        hown (fun s => rfl) (List.append_nil _).symm
    have hsame : ∀ s, c.services.retrieveServiceAccount s = .error .noResult →
        paid.services.retrieveServiceAccount s = .error .noResult := by
      intro s h
      have hs' : s ≠ c.serviceAccountId := by
        rintro rfl
        rw [hown] at h
        cases h
      exact (retrieveServiceAccount_setPendingAccount_of_ne hs' _).trans h
    have hsum : c.tokens = paid.tokens + created.balance := by
      rw [htokens, hthreshold]
      simp
    rw [hsum]
    exact keeps_of_insert hpaid hlt (hsame newService hfree) rfl rfl (fun s => rfl)
      (hthreshold ▸ hnonneg) hpublic (hsame next hnext) hne
  | upgrade hown => exact keeps_of_setOwn hs hown rfl rfl rfl (fun s => rfl) rfl
  | @transfer account receiver t hown hsender hreceiver hgas hcash =>
    have hdeposit := account.thresholdBalance_nonneg
    refine ⟨hs.of_setOwn rfl rfl (fun s => rfl) ?_, ?_⟩
    · show 0 ≤ account.balance - t.amount
      omega
    · refine (tokens_of_setOwn { account with balance := account.balance - t.amount } [t] hown
        (fun s => rfl) rfl).trans ?_
      simp
  | @eject account ejected d preimageHash l a y hown hother hejected hcode hitems hlength hpresent
      hexpunged =>
    -- first the account is removed, then its balance is credited
    let removed := c.setServices (c.services.setPendingAccount d none)
    obtain ⟨hremoved, htokens⟩ : Sound removed ∧ removed.tokens = c.tokens - ejected.balance :=
      keeps_of_remove hs hother hejected rfl rfl rfl (fun s => rfl)
    have hown' : removed.services.retrieveServiceAccount removed.serviceAccountId = .ok account :=
      (retrieveServiceAccount_setPendingAccount_of_ne hother.symm _).trans hown
    refine ⟨hremoved.of_setOwn rfl rfl (fun s => rfl) ?_, ?_⟩
    · exact add_nonneg (hs.nonneg _ _ hown) (hs.nonneg _ _ hejected)
    · refine Eq.trans (tokens_of_setOwn { account with balance := account.balance + ejected.balance }
        [] hown' (fun s => rfl) (List.append_nil _).symm) ?_
      rw [htokens]
      simp only [List.map_nil, List.sum_nil, Nat.cast_zero]
      omega
  | request hown hlength habsent hcash =>
    exact keeps_of_setOwn hs hown rfl rfl rfl (fun s => rfl) rfl
  | renew hown hpresent hhistory hcash =>
    exact keeps_of_setOwn hs hown rfl rfl rfl (fun s => rfl) rfl
  | retire hpresent hdecision =>
    exact ⟨hs.of_same rfl rfl (fun s => rfl), rfl⟩
  | forget hown hpresent hdecision =>
    exact keeps_of_setOwn hs hown rfl rfl rfl (fun s => rfl) rfl
  | write hown hold hvalue hcash =>
    exact keeps_of_setOwn hs hown rfl rfl rfl (fun s => rfl) (writeFootprint_balance _ _ _ _)

end Effects

/-! ## Runs -/

section Runs

variable {env : Environment} {x x' : AccumulateInvocationContext coreCount}

lemma Step.keeps (h : Step env x x') (hs : Sound x.context) :
    Sound x'.context ∧ x'.context.tokens = x.context.tokens :=
  h.effect.keeps hs

lemma Calls.keeps (h : Calls env x x') (hs : Sound x.context) :
    Sound x'.context ∧ x'.context.tokens = x.context.tokens := by
  induction h with
  | none => exact ⟨hs, rfl⟩
  | call _ hcall ih =>
    have hstep := (execute_step hcall).keeps ih.1
    exact ⟨hstep.1, hstep.2.trans ih.2⟩

/-- A balance is at most all tokens. -/
lemma Sound.balance_le {c : AccumulateContextItem coreCount} (hs : Sound c) {s : ℕ}
    {account : ServiceAccount} (h : c.services.retrieveServiceAccount s = .ok account) :
    account.balance ≤ c.tokens := by
  have hnonneg : ∀ t ∈ Finset.range (2 ^ 32), 0 ≤ balanceAt c.services t := by
    intro t _
    unfold balanceAt
    split
    · next a ha => exact hs.nonneg t a ha
    · exact le_refl 0
  have hmem : s ∈ Finset.range (2 ^ 32) :=
    Finset.mem_range.mpr (lt_of_retrieveServiceAccount h)
  have hle : balanceAt c.services s ≤ totalBalance c.services :=
    Finset.single_le_sum hnonneg hmem
  rw [balanceAt_of_ok h] at hle
  unfold AccumulateContextItem.tokens
  omega

/-! ## The start -/

/-- No pending account has a negative balance; those in the store cannot have one. -/
def PendingNonneg (services : ServicesState) : Prop :=
  ∀ s account, services.pendingChanges.serviceAccounts.get? s = some (some account) →
    0 ≤ account.balance

lemma PendingNonneg.retrieve {services : ServicesState} (h : PendingNonneg services) {s : ℕ}
    {account : ServiceAccount} (hok : services.retrieveServiceAccount s = .ok account) :
    0 ≤ account.balance := by
  unfold ServicesState.retrieveServiceAccount readOverlay at hok
  split at hok
  · cases hok
  · split at hok
    · next hpending =>
      cases hok
      exact h s account hpending
    · cases hok
    · unfold Store.serviceAccount at hok
      obtain ⟨data, -, hok⟩ := Except.bind_eq_ok.mp hok
      split at hok
      · cases hok
      · split at hok
        · cases hok
        · split at hok
          · next hdecode =>
            cases hok
            exact ServiceAccount.balance_nonneg_of_fromSerializedBytes hdecode
          · cases hok

/-- The credit and the search for the code.  A service without an account gets nothing and has no
code. -/
lemma creditAndLookup_cases {services services' : ServicesState} {service : ℕ}
    {inputs : List AccumulationInput} {code : Option Octets}
    (h : creditAndLookup services service inputs = .ok (services', code)) :
    (services.retrieveServiceAccount service = .error .noResult ∧ services' = services ∧
      code = none) ∨
    ∃ account, services.retrieveServiceAccount service = .ok account ∧
      (services' = services.setPendingAccount service (some { account with
          balance := account.balance + (incomingAmounts inputs).sum }) ∨
        (incomingAmounts inputs = [] ∧ services' = services)) ∧
      orNone (services'.retrievePreimage service account.codeHash) = .ok code := by
  unfold creditAndLookup at h
  obtain ⟨found, hfound, h⟩ := Except.bind_eq_ok.mp h
  cases found with
  | none =>
    cases h
    exact .inl ⟨orNone_eq_none hfound, rfl, rfl⟩
  | some account =>
    obtain ⟨credited, hcredited, h⟩ := Except.bind_eq_ok.mp h
    obtain ⟨code', hcode, h⟩ := Except.bind_eq_ok.mp h
    cases h
    refine .inr ⟨account, orNone_eq_some hfound, ?_, hcode⟩
    have hcredit := liftHost_eq_ok hcredited
    unfold creditAccount at hcredit
    split at hcredit
    · exact .inl (storeServiceAccount_pending hcredit)
    · cases hcredit
      exact .inr ⟨List.length_eq_zero_iff.mp (by omega), rfl⟩

/-- The credit adds to the total what comes in. -/
lemma totalBalance_credited {services services' : ServicesState} {service : ℕ}
    {inputs : List AccumulationInput} {account : ServiceAccount}
    (hown : services.retrieveServiceAccount service = .ok account)
    (h : services' = services.setPendingAccount service (some { account with
        balance := account.balance + (incomingAmounts inputs).sum }) ∨
      (incomingAmounts inputs = [] ∧ services' = services)) :
    totalBalance services' = totalBalance services + (incomingAmounts inputs).sum := by
  rcases h with rfl | ⟨hnil, rfl⟩
  · rw [totalBalance_setPendingAccount (lt_of_retrieveServiceAccount hown), balanceAt_of_ok hown]
    simp only [Option.map_some, Option.getD_some]
    omega
  · rw [hnil]
    simp

/-- The services after the incoming transfers are credited: the account is there, and the total has
grown by their amounts. -/
lemma creditAndLookup_eq_ok {services services' : ServicesState} {service : ℕ}
    {inputs : List AccumulationInput} {code : Octets}
    (h : creditAndLookup services service inputs = .ok (services', some code)) :
    ∃ account, services.retrieveServiceAccount service = .ok account ∧
      services'.retrieveServiceAccount service =
        .ok { account with balance := account.balance + (incomingAmounts inputs).sum } ∧
      (∀ s, s ≠ service → services'.retrieveServiceAccount s = services.retrieveServiceAccount s) ∧
      totalBalance services' = totalBalance services + (incomingAmounts inputs).sum := by
  rcases creditAndLookup_cases h with ⟨-, -, hcode⟩ | ⟨account, hown, hcredited, -⟩
  · cases hcode
  · refine ⟨account, hown, ?_, ?_, totalBalance_credited hown hcredited⟩
    · rcases hcredited with rfl | ⟨hnil, rfl⟩
      · exact retrieveServiceAccount_setPendingAccount_self services
          (lt_of_retrieveServiceAccount hown) _
      · rw [hnil]
        simpa using hown
    · intro s hne
      rcases hcredited with rfl | ⟨-, rfl⟩
      · exact retrieveServiceAccount_setPendingAccount_of_ne hne _
      · rfl

/-- An invocation starts with a sound context. -/
lemma sound_start {state : AccumulationStateComponents coreCount} {service checkPayload timeslot : ℕ}
    {inputs : List AccumulationInput} {services : ServicesState} {code : Octets}
    (hnonneg : ∀ s account, state.services.retrieveServiceAccount s = .ok account →
      0 ≤ account.balance)
    (hcredit : creditAndLookup state.services service inputs = .ok (services, some code))
    (hcreate : createFromAccumulationState env { state with services := services } service
      checkPayload timeslot = .ok x) :
    Sound x.context ∧
      x.context.tokens = totalBalance state.services + (incomingAmounts inputs).sum := by
  obtain ⟨account, hbefore, hown, hothers, htotal⟩ := creditAndLookup_eq_ok hcredit
  obtain ⟨newService, hnew, rfl⟩ := createFromAccumulationState_eq_ok hcreate
  have hpublic : IsPublic (checkPayload % publicIds + 2 ^ 16) := by
    unfold IsPublic publicIds
    omega
  have hsearch := checkServiceId_eq_ok hpublic hnew
  have hnewPublic : IsPublic newService := by
    obtain ⟨d, -, hnext⟩ := hsearch.2
    rw [hnext]
    exact isPublic_shiftServiceId _ _
  refine ⟨⟨⟨_, hown⟩, hsearch.1, hnewPublic, ?_⟩, ?_⟩
  · intro s a ha
    change services.retrieveServiceAccount s = .ok a at ha
    by_cases hs : s = service
    · subst hs
      obtain rfl := Except.ok.inj (hown.symm.trans ha)
      exact add_nonneg (hnonneg _ _ hbefore) (Int.natCast_nonneg _)
    · exact hnonneg _ _ ((hothers s hs).symm.trans ha)
  · show totalBalance services + _ = _
    rw [htotal]
    exact add_zero _

/-- The host calls of an invocation conserve its tokens, which are those of the state and the incoming
amounts.  No balance is ever negative, and if there are fewer than `2 ^ 64` tokens at the start, every
balance stays below `2 ^ 64`. -/
theorem tokens_conserved {x₀ : AccumulateInvocationContext coreCount}
    {state : AccumulationStateComponents coreCount} {service checkPayload timeslot : ℕ}
    {inputs : List AccumulationInput} {services : ServicesState} {code : Octets}
    (hnonneg : PendingNonneg state.services)
    (hcredit : creditAndLookup state.services service inputs = .ok (services, some code))
    (hcreate : createFromAccumulationState env { state with services := services } service
      checkPayload timeslot = .ok x₀) (hcalls : Calls env x₀ x) :
    x.context.tokens = totalBalance state.services + (incomingAmounts inputs).sum ∧
    (∀ call gas registers memory out x', execute env call gas registers memory x = .ok (out, x') →
      x'.context.tokens = x.context.tokens) ∧
    (∀ s account, x.services.retrieveServiceAccount s = .ok account → 0 ≤ account.balance) ∧
    (x₀.context.tokens < 2 ^ 64 → ∀ s account,
      x.services.retrieveServiceAccount s = .ok account → account.balance < 2 ^ 64) := by
  obtain ⟨hsound₀, htokens₀⟩ := sound_start (fun _ _ => hnonneg.retrieve) hcredit hcreate
  obtain ⟨hsound, htokens⟩ := hcalls.keeps hsound₀
  refine ⟨htokens.trans htokens₀, ?_, hsound.nonneg, ?_⟩
  · intro call gas registers memory out x' hcall
    exact ((execute_step hcall).keeps hsound).2
  · intro hbound s account h
    have hle := hsound.balance_le h
    omega

end Runs

/-! ## A transfer -/

def sampleEnvironment : Environment where
  primitives := .ofHash fun _ => Vector.replicate 32 0
  expungePeriod := 32
  recursionDepth := 1000
  recursionDepth_le := le_refl 1000

def sampleAccount : ServiceAccount where
  codeHash := Vector.replicate 32 1
  balance := 1000
  gasLimitAccumulate := 0
  gasLimitOnTransfer := 0
  footprintStorageBytes := 0
  depositOffset := 0
  footprintStorageItems := 0
  creationSlot := 0
  lastAccumulationSlot := 0
  parentService := 0

/-- Service 5 has an account and a code of one byte. -/
def sampleServices : ServicesState :=
  ⟨.init ∅, ⟨Dict.insert ∅ 5 (some sampleAccount), ∅,
    Dict.insert ∅ (5, Vector.replicate 32 1) (some [1]), ∅⟩, ∅⟩

/-- A chain without cores. -/
def sampleState : AccumulationStateComponents 0 :=
  ⟨sampleServices, [], .emptyWithCapacity 0, ⟨0, .emptyWithCapacity 0, 0, 0, ∅⟩⟩

/-- Seven tokens for service 5. -/
def sampleInputs : List AccumulationInput := [.deferredTransfer ⟨6, 5, 7, [], 0⟩]

/-- All of the memory is readable. -/
def sampleMemory : Memory := ⟨fun _ => true, fun _ => 0⟩

/-- A transfer of three tokens to service 5. -/
def sampleRegisters : Registers := #v[0, 0, 0, 0, 0, 0, 0, 5, 3, 0, 65536, 0, 0]

/-- The services with the seven tokens credited. -/
def sampleCredited : ServicesState :=
  sampleServices.setPendingAccount 5 (some { sampleAccount with balance := 1007 })

/-- The context that the invocation of service 5 starts with. -/
def sampleInvocation : AccumulateInvocationContext 0 :=
  let context := initialContext { sampleState with services := sampleCredited } 5 (2 ^ 16)
  ⟨context, context, 1⟩

lemma sampleState_nonneg : PendingNonneg sampleState.services := by
  intro s account h
  have hentry := Dict.mem_entries_iff.mpr h
  have hsample : s = 5 ∧ account = sampleAccount := by
    simpa [sampleState, sampleServices, Dict.insert, Dict.insertEntry] using hentry
  rw [hsample.2]
  decide

/-- Service 5 receives seven tokens and sends three of its own: all tokens are accounted for. -/
theorem sampleTransfer_conserves :
    ∃ x, Calls sampleEnvironment sampleInvocation x ∧ x.context.deferredTransfers.length = 1 ∧
      x.context.tokens = totalBalance sampleServices + 7 := by
  have hcall : ∃ out x, execute sampleEnvironment .transfer 10000 sampleRegisters sampleMemory
      sampleInvocation = .ok (out, x) ∧ x.context.deferredTransfers.length = 1 := ⟨_, _, rfl, rfl⟩
  obtain ⟨out, x, hcall, hsent⟩ := hcall
  have hcalls : Calls sampleEnvironment sampleInvocation x := .call (.none _) hcall
  have hcredit : creditAndLookup sampleState.services 5 sampleInputs =
      .ok (sampleCredited, some [1]) := rfl
  have hcreate : createFromAccumulationState sampleEnvironment
      { sampleState with services := sampleCredited } 5 0 1 = .ok sampleInvocation := rfl
  exact ⟨x, hcalls, hsent, (tokens_conserved sampleState_nonneg hcredit hcreate hcalls).1⟩

end HostCalls
