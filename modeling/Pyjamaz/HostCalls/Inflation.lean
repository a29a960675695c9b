import Pyjamaz.Accumulation.MergedAccounts
import Pyjamaz.Accumulation.Sequential
import Pyjamaz.HostCalls.Conservation
import Pyjamaz.HostCalls.Ejection
import Pyjamaz.Library.Sums

/-!
# Tokens across a round

Every invocation of a round works on its own copy of the services and may do with the tokens what it
likes as long as their sum stays the same.  The merge then takes the accounts from different copies.
That no token is counted twice rests on what the outputs say about accounts that are not their own:
they remove them or leave them alone, no account is removed twice, and the invocation of an account
that another one removes does nothing but receive.

`no_inflation` adds up the round: tokens get lost only with the transfers to services that do not
exist or are ejected.  And the outputs of `pvm_invoke_accumulate` are of this kind, unless an
invocation ejects an account and creates it again, or an account with a code is ejected: its code hash
is then the id of the service that ejects it, and `sampleRounds_inflate` has such a round.
-/

namespace Accumulation

open Services HostCalls

variable {coreCount : ℕ}

/-! ## Amounts -/

/-- The amounts of transfers. -/
def amounts (transfers : List DeferredTransfer) : ℕ := (transfers.map DeferredTransfer.amount).sum

lemma amounts_flatMap {ι : Type} (l : List ι) (f : ι → List DeferredTransfer) :
    amounts (l.flatMap f) = (l.map (fun a => amounts (f a))).sum := by
  induction l with
  | nil => rfl
  | cons a rest ih =>
    rw [List.flatMap_cons, List.map_cons, List.sum_cons, ← ih, amounts, List.map_append,
      List.sum_append]
    rfl

instance (services : ServicesState) (s : ℕ) : Decidable (HasAccount services s) :=
  match h : services.retrieveServiceAccount s with
  | .ok account => .isTrue ⟨account, h⟩
  | .error _ => .isFalse (by rintro ⟨account, haccount⟩; cases h.symm.trans haccount)

instance (services : ServicesState) (outputs : Outputs coreCount) (s : ℕ) :
    Decidable (Ejected services outputs s) :=
  inferInstanceAs (Decidable (_ ∧ ∃ p ∈ outputs, p.2.pending.serviceAccounts.get? s = some none))

/-- The service has an account before the round and still has it at the end. -/
def Stays (services : ServicesState) (outputs : Outputs coreCount) (s : ℕ) : Prop :=
  HasAccount services s ∧ ¬ Ejected services outputs s

instance (services : ServicesState) (outputs : Outputs coreCount) (s : ℕ) :
    Decidable (Stays services outputs s) :=
  inferInstanceAs (Decidable (_ ∧ ¬ _))

/-- The amounts that are sent to services that do not exist or are ejected. -/
def lostAmounts (services : ServicesState) (outputs : Outputs coreCount)
    (transfers : List DeferredTransfer) : ℕ :=
  amounts (transfers.filter (fun t => ¬ Stays services outputs t.receiver))

/-- What a service is credited with: the transfers to it, if it has an account. -/
def credit (services : ServicesState) (input : RoundInput) (s : ℕ) : ℕ :=
  if HasAccount services s then amounts (input.transfersTo s) else 0

/-- The part of the credit that is not lost. -/
def received (services : ServicesState) (outputs : Outputs coreCount) (input : RoundInput) (s : ℕ) :
    ℕ :=
  if Stays services outputs s then amounts (input.transfersTo s) else 0

lemma received_eq (services : ServicesState) (outputs : Outputs coreCount) (input : RoundInput)
    (s : ℕ) : received services outputs input s =
      if Ejected services outputs s then 0 else credit services input s := by
  rw [received, credit]
  by_cases hejected : Ejected services outputs s
  · rw [if_pos hejected, if_neg (fun hstays => hstays.2 hejected)]
  · rw [if_neg hejected]
    by_cases haccount : HasAccount services s
    · rw [if_pos haccount, if_pos ⟨haccount, hejected⟩]
    · rw [if_neg haccount, if_neg (fun hstays => haccount hstays.1)]

/-- All transfers are received or lost. -/
lemma sum_received (services : ServicesState) (outputs : Outputs coreCount) {input : RoundInput}
    {ids : List ℕ} (hnodup : ids.Nodup) (hsub : ∀ t ∈ input.deferredTransfers, t.receiver ∈ ids) :
    (ids.map (received services outputs input)).sum +
      lostAmounts services outputs input.deferredTransfers = amounts input.deferredTransfers := by
  let kept := input.deferredTransfers.filter (fun t => Stays services outputs t.receiver)
  let entries := kept.map (fun t => (t.receiver, t.amount))
  have hreceived : ∀ s, received services outputs input s = sumAt entries s := by
    intro s
    have hfilter : sumAt entries s = amounts (kept.filter (fun t => t.receiver = s)) := by
      simp only [entries, sumAt, amounts, List.filter_map, List.map_map, Function.comp_def]
    rw [hfilter, received, RoundInput.transfersTo]
    simp only [kept, List.filter_filter]
    split
    · next hstays =>
      congr 1
      apply List.filter_congr
      intro t _
      by_cases ht : t.receiver = s
      · simp [ht, hstays]
      · simp [ht]
    · next hstays =>
      have hnil : input.deferredTransfers.filter (fun t => decide (t.receiver = s) &&
          decide (Stays services outputs t.receiver)) = [] := by
        rw [List.filter_eq_nil_iff]
        intro t _ hboth
        rw [Bool.and_eq_true, decide_eq_true_eq, decide_eq_true_eq] at hboth
        exact hstays (hboth.1 ▸ hboth.2)
      rw [hnil]
      rfl
  have hsum : (ids.map (received services outputs input)).sum = amounts kept := by
    rw [List.map_congr_left (fun s _ => hreceived s), sum_sumAt_eq hnodup, List.map_map]
    · rfl
    · intro e he
      obtain ⟨t, ht, rfl⟩ := List.mem_map.mp he
      exact hsub t (List.mem_of_mem_filter ht)
  rw [hsum]
  simp only [kept, lostAmounts, amounts]
  generalize input.deferredTransfers = transfers
  induction transfers with
  | nil => rfl
  | cons t rest ih =>
    by_cases hstays : Stays services outputs t.receiver
    · simp only [List.filter_cons, hstays, decide_true, not_true_eq_false, decide_false, if_true,
        List.map_cons, List.sum_cons, Bool.false_eq_true, if_false] at ih ⊢
      omega
    · simp only [List.filter_cons, hstays, decide_true, not_false_eq_true, decide_false, if_true,
        List.map_cons, List.sum_cons, Bool.false_eq_true, if_false] at ih ⊢
      omega

/-! ## Outputs that conserve tokens -/

/-- The balances that an output leaves and the transfers it sends are those of before the round and
the transfers that it was credited with. -/
def Conserves (services : ServicesState) (input : RoundInput)
    (p : ℕ × PvmAccumulateOutput coreCount) : Prop :=
  totalBalance p.2.stateContext.services + amounts p.2.deferredTransfers =
    totalBalance services + credit services input p.1

/-- An output has a record of the account of another service that existed.  For this an invocation has
to eject the service and to create it again. -/
def Recreates (services : ServicesState) (p : ℕ × PvmAccumulateOutput coreCount) (s : ℕ) : Prop :=
  s ≠ p.1 ∧ HasAccount services s ∧ Stores p.2 s

/-- What the outputs of a round say about accounts that are not their own. -/
structure Orderly (services : ServicesState) (outputs : Outputs coreCount) : Prop where
  foreign : ∀ p ∈ outputs, ∀ s, ¬ Recreates services p s
  own : ∀ p ∈ outputs, HasAccount services p.1 → ¬ Removes p.2 p.1
  /-- no account is removed twice -/
  once : ∀ p ∈ outputs, ∀ q ∈ outputs, ∀ s, HasAccount services s → Removes p.2 s → Removes q.2 s →
    p.1 = q.1
  /-- an ejected service sends nothing and changes no other account -/
  inert : ∀ p ∈ outputs, Ejected services outputs p.1 → amounts p.2.deferredTransfers = 0 ∧
    ∀ s, s ≠ p.1 → p.2.pending.serviceAccounts.get? s = none

section Round

variable {P : Primitives} {timeslot : ℕ} {state : AccumulationStateComponents coreCount}
  {outputs : Outputs coreCount} {p q : ℕ × PvmAccumulateOutput coreCount} {s : ℕ}

/-- What an output does to the balance of a service. -/
def change (services : ServicesState) (p : ℕ × PvmAccumulateOutput coreCount) (s : ℕ) : ℤ :=
  balanceAt p.2.stateContext.services s - balanceAt services s

/-- The part of the change that the round keeps. -/
def keptChange (services : ServicesState) (outputs : Outputs coreCount)
    (p : ℕ × PvmAccumulateOutput coreCount) (s : ℕ) : ℤ :=
  if Ejected services outputs p.1 then 0 else change services p s

lemma balanceAt_eq_zero {services : ServicesState} (h : ¬ HasAccount services s) :
    balanceAt services s = 0 := by
  rw [balanceAt]
  split
  · next account haccount => exact absurd ⟨account, haccount⟩ h
  · rfl

/-- An account that is not pending is as before. -/
lemma retrieve_of_unmentioned (hcoherent : Coherent P state.services)
    (hstorage : p.2.stateContext.services.stateStorage = state.services.stateStorage)
    (hget : p.2.pending.serviceAccounts.get? s = none) :
    p.2.stateContext.services.retrieveServiceAccount s =
      state.services.retrieveServiceAccount s := by
  rw [PvmAccumulateOutput.pending] at hget
  rw [hcoherent.sameReads_fresh.account s]
  simp only [ServicesState.retrieveServiceAccount, hget, hstorage]
  rfl

lemma retrieve_of_removes (h : Removes p.2 s) :
    p.2.stateContext.services.retrieveServiceAccount s = .error .noResult := by
  rw [Removes, PvmAccumulateOutput.pending] at h
  rw [ServicesState.retrieveServiceAccount, h]
  exact ite_self _

/-- An output that does not tell about a service that is not ejected leaves it alone. -/
lemma change_eq_zero (hcoherent : Coherent P state.services)
    (hstorage : p.2.stateContext.services.stateStorage = state.services.stateStorage)
    (horderly : Orderly state.services outputs) (hp : p ∈ outputs)
    (hremoves : HasAccount state.services s → ¬ Removes p.2 s) (h : ¬ Tells state.services p s) :
    change state.services p s = 0 := by
  have hstores : ¬ Stores p.2 s := by
    intro hstores
    by_cases haccount : HasAccount state.services s
    · exact horderly.foreign p hp s ⟨fun hs => h (.inl ⟨hs.symm, haccount⟩), haccount, hstores⟩
    · exact h (.inr ⟨haccount, hstores⟩)
  rw [change]
  cases hget : p.2.pending.serviceAccounts.get? s with
  | none =>
    rw [balanceAt, balanceAt, retrieve_of_unmentioned hcoherent hstorage hget, sub_self]
  | some item =>
    cases item with
    | some account => exact absurd ⟨account, hget⟩ hstores
    | none =>
      have hnone : ¬ HasAccount state.services s := fun haccount => hremoves haccount hget
      rw [balanceAt_eq_zero hnone, balanceAt_of_noResult (retrieve_of_removes hget), sub_self]

/-- The balance of one service changes by what the outputs do to it, those of ejected services left
out. -/
lemma balance_change {out : ParallelAccumulationOutput coreCount}
    (hcoherent : Coherent P state.services) (hnodup : (outputs.map Prod.fst).Nodup)
    (hstorage : ∀ p ∈ outputs, p.2.stateContext.services.stateStorage = state.services.stateStorage)
    (horderly : Orderly state.services outputs)
    (h : finishRound P timeslot state outputs = .ok out) (s : ℕ) :
    balanceAt out.accumulationState.services s - balanceAt state.services s =
      (outputs.map (fun p => keptChange state.services outputs p s)).sum := by
  have hafter := finishRound_account hcoherent hnodup hstorage h s
  generalize hresult : out.accumulationState.services.retrieveServiceAccount s = result at hafter
  -- what an output of an ejected service mentions is its own account
  have hsilent : ∀ p ∈ outputs, Ejected state.services outputs p.1 →
      ∀ item, p.2.pending.serviceAccounts.get? s = some item → s = p.1 := by
    intro p hp hejected item hget
    by_contra hs
    cases hget.symm.trans ((horderly.inert p hp hejected).2 s hs)
  have hother : ∀ q ∈ outputs, (¬ Ejected state.services outputs q.1 →
      (HasAccount state.services s → ¬ Removes q.2 s) ∧ ¬ Tells state.services q s) →
        keptChange state.services outputs q s = 0 := by
    intro q hq h
    rw [keptChange]
    split
    · rfl
    · next hkept =>
      exact change_eq_zero hcoherent (hstorage q hq) horderly hq (h hkept).1 (h hkept).2
  cases hafter with
  | ejected hejected =>
    obtain ⟨haccount, p, hp, hremoves⟩ := hejected
    have hne : s ≠ p.1 := by
      rintro rfl
      exact horderly.own p hp haccount hremoves
    have hkept : ¬ Ejected state.services outputs p.1 :=
      fun hp' => hne (hsilent p hp hp' none hremoves)
    rw [sum_map_eq_of_only hnodup hp, keptChange, if_neg hkept, change,
      balanceAt_of_noResult hresult, balanceAt_of_noResult (retrieve_of_removes hremoves)]
    intro q hq hqp
    refine hother q hq (fun hkept' => ⟨fun _ hremoves' => ?_, ?_⟩)
    · exact hqp (horderly.once q hq p hp s haccount hremoves' hremoves)
    · rintro (⟨rfl, -⟩ | ⟨hnone, -⟩)
      · exact hkept' ⟨haccount, p, hp, hremoves⟩
      · exact hnone haccount
  | @told p hp hkept htells honly =>
    have hkept' : ¬ Ejected state.services outputs p.1 := by
      intro hejected
      rcases htells with ⟨rfl, -⟩ | ⟨hnone, account, hget⟩
      · exact hkept hejected
      · obtain rfl := hsilent p hp hejected (some account) hget
        exact hnone hejected.1
    have hbalance : balanceAt out.accumulationState.services s =
        balanceAt p.2.stateContext.services s := by
      rw [balanceAt, balanceAt, hresult]
    rw [sum_map_eq_of_only hnodup hp, keptChange, if_neg hkept', change, hbalance]
    intro q hq hqp
    exact hother q hq (fun _ => ⟨fun haccount hremoves => hkept ⟨haccount, q, hq, hremoves⟩,
      fun htells' => hqp (honly q hq htells')⟩)
  | same hkept huntold =>
    have hbalance : balanceAt out.accumulationState.services s = balanceAt state.services s := by
      rw [balanceAt, balanceAt, hresult]
    rw [hbalance, sub_self, List.sum_eq_zero]
    intro x hx
    obtain ⟨q, hq, rfl⟩ := List.mem_map.mp hx
    exact hother q hq (fun _ => ⟨fun haccount hremoves => hkept ⟨haccount, q, hq, hremoves⟩,
      huntold q hq⟩)

/-- A round makes no tokens, and it loses only those that are sent to services that do not exist or
are ejected. -/
structure Accounted (services : ServicesState) (input : RoundInput) (outputs : Outputs coreCount)
    (out : ParallelAccumulationOutput coreCount) : Prop where
  atMost : totalBalance out.accumulationState.services + amounts out.deferredTransfers ≤
    totalBalance services + amounts input.deferredTransfers
  lost : totalBalance out.accumulationState.services + amounts out.deferredTransfers +
      lostAmounts services outputs input.deferredTransfers =
    totalBalance services + amounts input.deferredTransfers

/-- The tokens after a round. -/
lemma finishRound_accounted {input : RoundInput} {out : ParallelAccumulationOutput coreCount}
    (hcoherent : Coherent P state.services) (hids : outputs.map Prod.fst = input.serviceIds)
    (hstorage : ∀ p ∈ outputs, p.2.stateContext.services.stateStorage = state.services.stateStorage)
    (horderly : Orderly state.services outputs)
    (hconserves : ∀ p ∈ outputs, Conserves state.services input p)
    (h : finishRound P timeslot state outputs = .ok out) :
    Accounted state.services input outputs out := by
  have hnodup : (outputs.map Prod.fst).Nodup := by
    rw [hids]
    exact nodup_sortedSet _
  -- the total changes by the kept changes of all outputs
  have htotal : totalBalance out.accumulationState.services - totalBalance state.services =
      (outputs.map (fun p => ∑ s ∈ Finset.range (2 ^ 32),
        keptChange state.services outputs p s)).sum := by
    rw [totalBalance, totalBalance, ← Finset.sum_sub_distrib, ← sum_list_sum]
    exact Finset.sum_congr rfl
      (fun s _ => balance_change hcoherent hnodup hstorage horderly h s)
  -- each of them keeps what it has received and not sent
  have houtput : ∀ p ∈ outputs, ∑ s ∈ Finset.range (2 ^ 32),
      keptChange state.services outputs p s + amounts p.2.deferredTransfers =
        (received state.services outputs input p.1 : ℤ) := by
    intro p hp
    rw [received_eq]
    by_cases hejected : Ejected state.services outputs p.1
    · simp only [keptChange, if_pos hejected, Finset.sum_const_zero,
        (horderly.inert p hp hejected).1]
      rfl
    · have hconserved := hconserves p hp
      rw [Conserves, totalBalance, totalBalance] at hconserved
      simp only [keptChange, if_neg hejected, change, Finset.sum_sub_distrib]
      omega
  have hsent : (amounts out.deferredTransfers : ℤ) =
      (outputs.map (fun p => (amounts p.2.deferredTransfers : ℤ))).sum := by
    obtain ⟨merged, committed, provided, services, -, -, -, rfl⟩ := finishRound_eq_ok h
    simp only [transfers_foldl_applyOutput, RoundState.init, List.nil_append]
    rw [amounts_flatMap, Nat.cast_list_sum, List.map_map]
    rfl
  have hreceived : (outputs.map (fun p => (received state.services outputs input p.1 : ℤ))).sum +
      lostAmounts state.services outputs input.deferredTransfers =
        amounts input.deferredTransfers := by
    have hsub : ∀ t ∈ input.deferredTransfers, t.receiver ∈ outputs.map Prod.fst := by
      intro t ht
      rw [hids, RoundInput.serviceIds, mem_sortedSet]
      exact List.mem_append_right _ (List.mem_map_of_mem ht)
    have hsum := sum_received state.services outputs hnodup hsub
    rw [List.map_map] at hsum
    rw [← hsum, Nat.cast_add, Nat.cast_list_sum, List.map_map]
    rfl
  rw [← List.map_congr_left houtput, List.sum_map_add] at hreceived
  constructor
  · omega
  · omega

end Round

end Accumulation

namespace HostCalls

open Accumulation Services Octets

variable {coreCount : ℕ}

/-! ## The outputs of invocations -/

section Invocations

variable {env : Environment} {timeslot service : ℕ} {st : ServicesState}
  {c c' : AccumulateContextItem coreCount}

/-- Of the accounts that were in the store, a context has changed only that of its service and those
whose code hash is the id of its service. -/
structure Confined (st : ServicesState) (service : ℕ) (c : AccumulateContextItem coreCount) :
    Prop where
  serviceAccountId : c.serviceAccountId = service
  stateStorage : c.services.stateStorage = st.stateStorage
  foreign : ∀ s account, s ≠ service → st.fresh.retrieveServiceAccount s = .ok account →
    c.services.pendingChanges.serviceAccounts.get? s = none ∨
      account.codeHash.toList = littleEndian 32 service

/-- The other accounts stay as they are. -/
lemma Confined.of_others (h : Confined st service c)
    (hservice : c'.serviceAccountId = c.serviceAccountId)
    (hstorage : c'.services.stateStorage = c.services.stateStorage)
    (hget : ∀ s, s ≠ c.serviceAccountId → c'.services.pendingChanges.serviceAccounts.get? s =
      c.services.pendingChanges.serviceAccounts.get? s) : Confined st service c' := by
  refine ⟨hservice.trans h.serviceAccountId, hstorage.trans h.stateStorage, ?_⟩
  intro s account hs hstored
  rw [hget s (h.serviceAccountId.symm ▸ hs)]
  exact h.foreign s account hs hstored

/-- Another account is changed, which is not there or has the id of the service as its code hash. -/
lemma Confined.of_other (h : Confined st service c) {d : ℕ}
    {result : Except ServiceError ServiceAccount}
    (hread : c.services.retrieveServiceAccount d = result)
    (hcode : ∀ account, result = .ok account → account.codeHash.toList = littleEndian 32 service)
    (hservice : c'.serviceAccountId = c.serviceAccountId)
    (hstorage : c'.services.stateStorage = c.services.stateStorage)
    (hget : ∀ s, s ≠ c.serviceAccountId → s ≠ d →
      c'.services.pendingChanges.serviceAccounts.get? s =
        c.services.pendingChanges.serviceAccounts.get? s) : Confined st service c' := by
  refine ⟨hservice.trans h.serviceAccountId, hstorage.trans h.stateStorage, ?_⟩
  intro s account hs hstored
  by_cases hd : s = d
  · rcases h.foreign s account hs hstored with hnone | hhash
    · -- the account is the one from the store
      refine .inr (hcode account ?_)
      rw [← hread, ← hd, ← hstored]
      simp only [ServicesState.retrieveServiceAccount, hnone, h.stateStorage]
      rfl
    · exact .inr hhash
  · rw [hget s (h.serviceAccountId.symm ▸ hs) hd]
    exact h.foreign s account hs hstored

lemma Effect.confined (h : Effect env timeslot c c') (hs : Sound c) (hc : Confined st service c) :
    Confined st service c' := by
  have hown : ∀ {s : ℕ} {account : Option ServiceAccount}, s ≠ c.serviceAccountId →
      (c.services.pendingChanges.serviceAccounts.insert c.serviceAccountId account).get? s =
        c.services.pendingChanges.serviceAccounts.get? s :=
    fun hs => Dict.get?_insert_of_ne _ hs _
  cases h with
  | quiet hservice hservices =>
    exact hc.of_others hservice (by rw [hservices]) (fun s _ => by rw [hservices])
  | @create account created codeHash l g m f newService next hown' hcreated hlength hcash hfresh =>
    obtain ⟨-, hfree, -⟩ := next_id_of_free hs.isPublic hs.fresh hfresh
    refine hc.of_other hfree nofun rfl rfl ?_
    intro s hs hnew
    exact (Dict.get?_insert_of_ne _ hnew _).trans (hown hs)
  | upgrade => exact hc.of_others rfl rfl (fun s hs => hown hs)
  | transfer => exact hc.of_others rfl rfl (fun s hs => hown hs)
  | @eject account ejected d preimageHash l a y hown' hother hejected hcode =>
    refine hc.of_other hejected ?_ rfl rfl ?_
    · rintro account ⟨⟩
      rw [hcode, hc.serviceAccountId]
    · intro s hs hd
      exact (Dict.get?_insert_of_ne _ hs _).trans (Dict.get?_insert_of_ne _ hd _)
  | request => exact hc.of_others rfl rfl (fun s hs => hown hs)
  | renew => exact hc.of_others rfl rfl (fun s hs => hown hs)
  | retire => exact hc.of_others rfl rfl (fun s _ => rfl)
  | forget => exact hc.of_others rfl rfl (fun s hs => hown hs)
  | write => exact hc.of_others rfl rfl (fun s hs => hown hs)

variable {before : AccumulationStateComponents coreCount} {inputs : List AccumulationInput}
  {output : PvmAccumulateOutput coreCount}

/-- The credit changes no other account. -/
lemma creditAndLookup_unmentioned {services services' : ServicesState} {code : Option Octets}
    (h : creditAndLookup services service inputs = .ok (services', code)) :
    services'.stateStorage = services.stateStorage ∧ ∀ s, s ≠ service →
      services'.pendingChanges.serviceAccounts.get? s =
        services.pendingChanges.serviceAccounts.get? s := by
  rcases creditAndLookup_cases h with ⟨-, rfl, -⟩ | ⟨account, -, rfl | ⟨-, rfl⟩, -⟩
  · exact ⟨rfl, fun _ _ => rfl⟩
  · exact ⟨rfl, fun s hs => Dict.get?_insert_of_ne _ hs _⟩
  · exact ⟨rfl, fun _ _ => rfl⟩

/-- The credit is what comes in, for a service with an account. -/
lemma creditAndLookup_total {services services' : ServicesState} {code : Option Octets}
    (h : creditAndLookup services service inputs = .ok (services', code)) :
    totalBalance services' = totalBalance services +
      ((if HasAccount services service then (incomingAmounts inputs).sum else 0 : ℕ) : ℤ) := by
  rcases creditAndLookup_cases h with ⟨hnone, rfl, -⟩ | ⟨account, hown, hcredited, -⟩
  · rw [if_neg]
    · exact (add_zero _).symm
    · rintro ⟨account, hown⟩
      cases hnone.symm.trans hown
  · rw [if_pos ⟨account, hown⟩]
    exact totalBalance_credited hown hcredited

/-- The contexts of an invocation that starts without pending changes. -/
lemma calls_context {services : ServicesState} {code : Octets} {checkPayload : ℕ}
    {x₀ x : AccumulateInvocationContext coreCount}
    (hfresh : before.services.fresh = before.services)
    (hcredit : creditAndLookup before.services service inputs = .ok (services, some code))
    (hcreate : createFromAccumulationState env { before with services := services } service
      checkPayload timeslot = .ok x₀) (hcalls : Calls env x₀ x)
    (hcontext : c = x.context ∨ c = x.savepointContext) :
    Sound c ∧ c.tokens = totalBalance before.services + (incomingAmounts inputs).sum ∧
      Confined before.services service c := by
  have hnonneg : PendingNonneg before.services := hfresh ▸ pendingNonneg_fresh before.services
  obtain ⟨hsound, htokens⟩ := sound_start (fun _ _ => hnonneg.retrieve) hcredit hcreate
  obtain ⟨hstorage, hothers⟩ := creditAndLookup_unmentioned hcredit
  obtain ⟨newService, -, rfl⟩ := createFromAccumulationState_eq_ok hcreate
  have hconfined : Confined before.services service
      (initialContext { before with services := services } service newService) := by
    refine ⟨rfl, hstorage, fun s account hs _ => .inl ((hothers s hs).trans ?_)⟩
    rw [← hfresh]
    rfl
  generalize totalBalance before.services + (incomingAmounts inputs).sum = total at htokens ⊢
  have hpreserved := hcalls.preserves
    (Q := fun c => Sound c ∧ c.tokens = total ∧ Confined before.services service c) ?_
    ⟨hsound, htokens, hconfined⟩ ⟨hsound, htokens, hconfined⟩
  · rcases hcontext with rfl | rfl
    · exact hpreserved.2.1
    · exact hpreserved.2.2
  · rintro c c' heffect ⟨hsound, htokens, hconfined⟩
    obtain ⟨hsound', htokens'⟩ := heffect.keeps hsound
    exact ⟨hsound', htokens'.trans htokens, heffect.confined hsound hconfined⟩

/-- An invocation returns the tokens that it has been given. -/
lemma Outcome.tokens (hfresh : before.services.fresh = before.services)
    (h : Outcome env timeslot before service inputs output) :
    totalBalance output.stateContext.services + amounts output.deferredTransfers =
      totalBalance before.services +
        (if HasAccount before.services service then (incomingAmounts inputs).sum else 0 : ℕ) := by
  cases h with
  | idle hcredit hservices hsent =>
    rw [hservices, hsent, creditAndLookup_total hcredit]
    exact add_zero _
  | ran hcredit hcreate hcalls hcontext hstate hsent =>
    obtain ⟨account, hown, -⟩ := creditAndLookup_eq_ok hcredit
    rw [hstate, hsent, if_pos ⟨account, hown⟩]
    exact (calls_context hfresh hcredit hcreate hcalls hcontext).2.1

/-- An invocation changes of the other accounts only those with the id of its service as the code
hash. -/
lemma Outcome.confined (hfresh : before.services.fresh = before.services)
    (h : Outcome env timeslot before service inputs output) :
    output.stateContext.services.stateStorage = before.services.stateStorage ∧
      ∀ s account, s ≠ service → before.services.retrieveServiceAccount s = .ok account →
        output.pending.serviceAccounts.get? s = none ∨
          (service < 2 ^ 32 ∧ account.codeHash.toList = littleEndian 32 service) := by
  cases h with
  | idle hcredit hservices hsent =>
    obtain ⟨hstorage, hothers⟩ := creditAndLookup_unmentioned hcredit
    rw [PvmAccumulateOutput.pending, hservices]
    refine ⟨hstorage, fun s account hs _ => .inl ((hothers s hs).trans ?_)⟩
    rw [← hfresh]
    rfl
  | ran hcredit hcreate hcalls hcontext hstate hsent =>
    obtain ⟨account, hown, -⟩ := creditAndLookup_eq_ok hcredit
    obtain ⟨-, -, hconfined⟩ := calls_context hfresh hcredit hcreate hcalls hcontext
    rw [PvmAccumulateOutput.pending, hstate]
    refine ⟨hconfined.stateStorage, fun s account hs hstored => ?_⟩
    exact (hconfined.foreign s account hs (hfresh.symm ▸ hstored)).imp_right
      (fun hcode => ⟨lt_of_retrieveServiceAccount hown, hcode⟩)

/-- An invocation does not remove the account of its own service. -/
lemma Outcome.own (hfresh : before.services.fresh = before.services)
    (h : Outcome env timeslot before service inputs output)
    (haccount : HasAccount before.services service) : ¬ Removes output service := by
  have hkept : HasAccount output.stateContext.services service := by
    cases h with
    | idle hcredit hservices hsent =>
      rw [hservices]
      rcases creditAndLookup_cases hcredit with ⟨-, rfl, -⟩ | ⟨account, hown, rfl | ⟨-, rfl⟩, -⟩
      · exact haccount
      · exact ⟨_, retrieveServiceAccount_setPendingAccount_self _
          (lt_of_retrieveServiceAccount hown) _⟩
      · exact haccount
    | ran hcredit hcreate hcalls hcontext hstate hsent =>
      obtain ⟨hsound, -, hconfined⟩ := calls_context hfresh hcredit hcreate hcalls hcontext
      rw [hstate, ← hconfined.serviceAccountId]
      exact hsound.own
  intro hremoves
  obtain ⟨account, hok⟩ := hkept
  cases (retrieve_of_removes (p := (service, output)) hremoves).symm.trans hok

/-- The invocation of a service without code does nothing but receive. -/
lemma Outcome.inert (hfresh : before.services.fresh = before.services)
    (h : Outcome env timeslot before service inputs output) {account : ServiceAccount}
    (hown : before.services.retrieveServiceAccount service = .ok account)
    (hcode : before.services.retrievePreimage service account.codeHash = .error .noResult) :
    output.deferredTransfers = [] ∧
      ∀ s, s ≠ service → output.pending.serviceAccounts.get? s = none := by
  cases h with
  | idle hcredit hservices hsent =>
    rw [PvmAccumulateOutput.pending, hservices]
    refine ⟨hsent, fun s hs => ((creditAndLookup_unmentioned hcredit).2 s hs).trans ?_⟩
    rw [← hfresh]
    rfl
  | @ran services code _ _ _ _ hcredit =>
    rcases creditAndLookup_cases hcredit with ⟨-, -, hnone⟩ | ⟨account', hown', hcredited, hfound⟩
    · cases hnone
    · cases hown.symm.trans hown'
      have hsame : services.retrievePreimage service account.codeHash =
          before.services.retrievePreimage service account.codeHash := by
        rcases hcredited with rfl | ⟨-, rfl⟩
        · rfl
        · rfl
      rw [hsame, hcode] at hfound
      cases hfound

/-- The incoming amounts of a service are those of the transfers to it. -/
lemma incomingAmounts_inputsFor (input : RoundInput) (s : ℕ) :
    (incomingAmounts (input.inputsFor s)).sum = amounts (input.transfersTo s) := by
  have htransfers : ∀ l : List DeferredTransfer, incomingAmounts (l.map .deferredTransfer) =
      l.map DeferredTransfer.amount := by
    intro l
    induction l with
    | nil => rfl
    | cons t rest ih => exact congrArg (t.amount :: ·) ih
  have hresults : ∀ (l : List (WorkReport × WorkResult)) (f : WorkReport × WorkResult → _),
      incomingAmounts (l.map (fun r => .accumulationOperand (f r))) = [] := by
    intro l f
    rw [incomingAmounts, List.filterMap_map]
    exact List.filterMap_eq_nil_iff.mpr (fun _ _ => rfl)
  have happend : ∀ l l' : List AccumulationInput,
      incomingAmounts (l ++ l') = incomingAmounts l ++ incomingAmounts l' :=
    fun l l' => List.filterMap_append
  rw [RoundInput.inputsFor, happend, htransfers, hresults, List.append_nil]
  rfl

end Invocations

/-! ## Rounds of invocations -/

section Rounds

variable {env : Environment} {timeslot : ℕ} {state : AccumulationStateComponents coreCount}
  {input : RoundInput} {outputs : Outputs coreCount}

/-- There is no preimage for the code hash of the service. -/
def HasNoCode (services : ServicesState) (s : ℕ) : Prop :=
  ∀ account, services.retrieveServiceAccount s = .ok account →
    services.retrievePreimage s account.codeHash = .error .noResult

lemma hasAccount_fresh {P : Primitives} (hcoherent : Coherent P state.services) (s : ℕ) :
    HasAccount state.services.fresh s ↔ HasAccount state.services s := by
  rw [HasAccount, HasAccount, hcoherent.sameReads_fresh.account s]

lemma outcomes_conserve (hcoherent : Coherent env.primitives state.services)
    (houtcome : ∀ p ∈ outputs, Outcome env timeslot { state with services := state.services.fresh }
      p.1 (input.inputsFor p.1) p.2) :
    ∀ p ∈ outputs, Conserves state.services input p := by
  intro p hp
  have htokens := (houtcome p hp).tokens rfl
  have htotal : totalBalance state.services.fresh = totalBalance state.services :=
    totalBalance_congr (fun s => (hcoherent.sameReads_fresh.account s).symm)
  rw [incomingAmounts_inputsFor, htotal] at htokens
  rw [Conserves, htokens, credit]
  by_cases haccount : HasAccount state.services p.1
  · rw [if_pos haccount, if_pos ((hasAccount_fresh hcoherent _).mpr haccount)]
  · rw [if_neg haccount, if_neg (fun h => haccount ((hasAccount_fresh hcoherent _).mp h))]

lemma outcomes_orderly (hcoherent : Coherent env.primitives state.services)
    (houtcome : ∀ p ∈ outputs, Outcome env timeslot { state with services := state.services.fresh }
      p.1 (input.inputsFor p.1) p.2)
    (hforeign : ∀ p ∈ outputs, ∀ s, ¬ Recreates state.services p s)
    (hcode : ∀ s, Ejected state.services outputs s → HasNoCode state.services s) :
    Orderly state.services outputs := by
  have hown : ∀ p ∈ outputs, HasAccount state.services p.1 → ¬ Removes p.2 p.1 :=
    fun p hp haccount => (houtcome p hp).own rfl ((hasAccount_fresh hcoherent _).mpr haccount)
  refine ⟨hforeign, hown, ?_, ?_⟩
  · intro p hp q hq s haccount hremoves hremoves'
    obtain ⟨account, hok⟩ := haccount
    have hejector : ∀ r ∈ outputs, Removes r.2 s →
        r.1 < 2 ^ 32 ∧ account.codeHash.toList = littleEndian 32 r.1 := by
      intro r hr hremoves
      have hs : s ≠ r.1 := by
        rintro rfl
        exact hown r hr ⟨account, hok⟩ hremoves
      have hstored := hok
      rw [hcoherent.sameReads_fresh.account s] at hstored
      rcases ((houtcome r hr).confined rfl).2 s account hs hstored with hnone | hhash
      · cases hnone.symm.trans hremoves
      · exact hhash
    obtain ⟨hlt, hhash⟩ := hejector p hp hremoves
    obtain ⟨hlt', hhash'⟩ := hejector q hq hremoves'
    have hwide : (2 : ℕ) ^ 32 ≤ 2 ^ (8 * 32) := Nat.pow_le_pow_right (by decide) (by decide)
    exact littleEndian_inj (w := 32) (hlt.trans_le hwide) (hlt'.trans_le hwide)
      (hhash.symm.trans hhash')
  · rintro p hp hejected
    obtain ⟨account, hok⟩ := hejected.1
    have hnoCode := hcode p.1 hejected account hok
    rw [hcoherent.sameReads_fresh.account p.1] at hok
    rw [hcoherent.sameReads_fresh.preimage p.1] at hnoCode
    obtain ⟨hsent, hothers⟩ := (houtcome p hp).inert rfl hok hnoCode
    exact ⟨by rw [hsent]; rfl, hothers⟩

/-- Where the outputs of a round conserve tokens and are orderly, the round makes no tokens, and loses
only those sent to services that do not exist or are ejected.  The outputs of
`pvm_invoke_accumulate` conserve tokens; and they are orderly, unless an invocation ejects a service
and creates it again, or a service with a code is ejected. -/
theorem no_inflation (env : Environment) (timeslot : ℕ) :
    (∀ (state : AccumulationStateComponents coreCount) (input : RoundInput)
      (outputs : Outputs coreCount) (out : ParallelAccumulationOutput coreCount),
      Coherent env.primitives state.services → outputs.map Prod.fst = input.serviceIds →
      (∀ p ∈ outputs, p.2.stateContext.services.stateStorage = state.services.stateStorage) →
      (∀ p ∈ outputs, Conserves state.services input p) → Orderly state.services outputs →
      finishRound env.primitives timeslot state outputs = .ok out →
        Accounted state.services input outputs out) ∧
    ∀ (σ : Type) (M : Interpreter coreCount σ) (checkPayload : ℕ → ℕ) (fuel : ℕ)
      (state : AccumulationStateComponents coreCount) (input : RoundInput)
      (outputs : Outputs coreCount) (out : ParallelAccumulationOutput coreCount),
      Coherent env.primitives state.services →
      runServices (pvmInvoke env M checkPayload timeslot fuel) state input input.serviceIds =
        some outputs →
      parallelAccumulation env.primitives timeslot (pvmInvoke env M checkPayload timeslot fuel) state
        input = .ok out →
      (∀ p ∈ outputs, ∀ s, ¬ Recreates state.services p s) →
      (∀ s, Ejected state.services outputs s → HasNoCode state.services s) →
        (∀ p ∈ outputs, Conserves state.services input p) ∧ Orderly state.services outputs ∧
          Accounted state.services input outputs out := by
  constructor
  · intro state input outputs out hcoherent hids hstorage hconserves horderly h
    exact finishRound_accounted hcoherent hids hstorage horderly hconserves h
  · intro σ M checkPayload fuel state input outputs out hcoherent hrun hround hforeign hcode
    obtain ⟨outputs', hrun', hfinish⟩ := parallelAccumulation_eq_ok hround
    cases hrun.symm.trans hrun'
    obtain ⟨hids, houtcome⟩ := runServices_outcome hrun
    have hconserves := outcomes_conserve hcoherent houtcome
    have horderly := outcomes_orderly hcoherent houtcome hforeign hcode
    exact ⟨hconserves, horderly, finishRound_accounted hcoherent hids
      (fun p hp => ((houtcome p hp).confined rfl).1) horderly hconserves hfinish⟩

end Rounds

/-! ## A service that is ejected -/

/-- An output with records of its own account alone. -/
lemma not_recreates {services : ServicesState} {p : ℕ × PvmAccumulateOutput coreCount}
    (h : ∀ s account, p.2.pending.serviceAccounts.get? s = some (some account) → s = p.1) (s : ℕ) :
    ¬ Recreates services p s := by
  rintro ⟨hs, -, account, hget⟩
  exact hs (h s account hget)

/-- Service 7 is removed, and service 5 is the only one with a record. -/
lemma get?_ejected {s : ℕ} {account account' : Option ServiceAccount}
    (h : (Dict.insert (Dict.insert ∅ 5 account') 7 none).get? s = some account) :
    (s = 7 ∧ account = none) ∨ (s = 5 ∧ account = account') := by
  rw [Dict.get?_insert, Dict.get?_insert] at h
  split at h
  · next hs =>
    cases h
    exact .inl ⟨hs, rfl⟩
  · split at h
    · next hs =>
      cases h
      exact .inr ⟨hs, rfl⟩
    · cases h

/-- Service 5 may accumulate, and services 5, 6 and 7 receive transfers. -/
def sampleMail : RoundInput :=
  ⟨[⟨8, 5, 3, [], 0⟩, ⟨8, 6, 5, [], 0⟩, ⟨8, 7, 4, [], 0⟩], [], Dict.insert ∅ 5 10000⟩

/-- Service 5 ejects service 7, and there is no service 6: the amounts sent to both are lost. -/
theorem sampleMail_accounted :
    ∃ out, parallelAccumulation sampleHashing.primitives 100
        (sampleInvocations [(22, sampleEjectRegisters)]) (sampleOffice sampleRequested) sampleMail =
          .ok out ∧
      totalBalance out.accumulationState.services + 9 =
        totalBalance (sampleOffice sampleRequested).services + 12 := by
  have hrun : ∃ (o₅ o₆ o₇ : PvmAccumulateOutput 0) (out : ParallelAccumulationOutput 0)
      (a₅ a₇ : ServiceAccount),
      runServices (sampleInvocations [(22, sampleEjectRegisters)]) (sampleOffice sampleRequested)
        sampleMail sampleMail.serviceIds = some [(5, o₅), (6, o₆), (7, o₇)] ∧
      parallelAccumulation sampleHashing.primitives 100 (sampleInvocations [(22, sampleEjectRegisters)])
        (sampleOffice sampleRequested) sampleMail = .ok out ∧
      out.deferredTransfers = [] ∧
      o₅.pending.serviceAccounts = Dict.insert (Dict.insert ∅ 5 (some a₅)) 7 none ∧
      o₆.pending.serviceAccounts = ∅ ∧ o₇.pending.serviceAccounts = Dict.insert ∅ 7 (some a₇) ∧
      lostAmounts (sampleOffice sampleRequested).services [(5, o₅), (6, o₆), (7, o₇)]
        sampleMail.deferredTransfers = 9 :=
    ⟨_, _, _, _, _, _, rfl, rfl, rfl, rfl, rfl, rfl, rfl⟩
  obtain ⟨o₅, o₆, o₇, out, a₅, a₇, hrun, hround, hsent, h₅, h₆, h₇, hlost⟩ := hrun
  -- an output has a record of its own account, and removes at most service 7
  have hrecords : ∀ p ∈ [(5, o₅), (6, o₆), (7, o₇)], ∀ s change,
      p.2.pending.serviceAccounts.get? s = some change →
        (s = p.1 ∧ change ≠ none) ∨ (s = 7 ∧ change = none) := by
    intro p hp s change hget
    simp only [List.mem_cons, List.not_mem_nil, or_false] at hp
    rcases hp with rfl | rfl | rfl
    · rcases get?_ejected (h₅ ▸ hget) with hseven | ⟨hs, rfl⟩
      · exact .inr hseven
      · exact .inl ⟨hs, nofun⟩
    · cases (h₆ ▸ hget : Dict.get? ∅ s = _)
    · rw [h₇, Dict.get?_insert] at hget
      split at hget
      · next hs =>
        cases hget
        exact .inl ⟨hs, nofun⟩
      · cases hget
  have hforeign : ∀ p ∈ [(5, o₅), (6, o₆), (7, o₇)], ∀ s,
      ¬ Recreates (sampleOffice sampleRequested).services p s := by
    intro p hp
    apply not_recreates
    intro s account hget
    rcases hrecords p hp s _ hget with ⟨hs, -⟩ | ⟨-, hnone⟩
    · exact hs
    · cases hnone
  have hcode : ∀ s, Ejected (sampleOffice sampleRequested).services [(5, o₅), (6, o₆), (7, o₇)] s →
      HasNoCode (sampleOffice sampleRequested).services s := by
    rintro s ⟨-, p, hp, hremoves⟩ account haccount
    rcases hrecords p hp s none hremoves with ⟨-, hnone⟩ | ⟨rfl, -⟩
    · exact absurd rfl hnone
    · have hdoomed : (sampleOffice sampleRequested).services.retrieveServiceAccount 7 =
          .ok (sampleDoomed 82) := rfl
      cases hdoomed.symm.trans haccount
      rfl
  obtain ⟨-, -, haccounted⟩ := (@no_inflation 0 sampleHashing 100).2 _
    (sampleScript [(22, sampleEjectRegisters)]) (fun _ => 0) 3 (sampleOffice sampleRequested)
    sampleMail [(5, o₅), (6, o₆), (7, o₇)] out
    (coherent_fresh _ (sampleOffice sampleRequested).services) hrun hround hforeign hcode
  have hreceived : amounts sampleMail.deferredTransfers = 12 := rfl
  have hsent' : amounts out.deferredTransfers = 0 := by
    rw [hsent]
    rfl
  have hbalance := haccounted.lost
  rw [hsent', hlost, hreceived] at hbalance
  refine ⟨out, hround, ?_⟩
  omega

/-! ## Rounds that make tokens -/

/-- Outputs that conserve tokens and create no ejected service again are merged, and there are more
tokens than before. -/
structure Inflates (state : AccumulationStateComponents 0) (input : RoundInput)
    (outputs : Outputs 0) : Prop where
  coherent : Coherent sampleHashing.primitives state.services
  ids : outputs.map Prod.fst = input.serviceIds
  conserves : ∀ p ∈ outputs, Conserves state.services input p
  foreign : ∀ p ∈ outputs, ∀ s, ¬ Recreates state.services p s
  more : ∃ out, finishRound sampleHashing.primitives 100 state outputs = .ok out ∧
    totalBalance state.services + amounts input.deferredTransfers <
      totalBalance out.accumulationState.services + amounts out.deferredTransfers

/-- The balances after a round are those of the merged accounts. -/
lemma totalBalance_finishRound {P : Primitives} {timeslot : ℕ}
    {state : AccumulationStateComponents coreCount} {outputs : Outputs coreCount}
    {out : ParallelAccumulationOutput coreCount} {merged : PendingChanges} (st : ServicesState)
    (h : finishRound P timeslot state outputs = .ok out)
    (hmerge : mergeAccumulationServiceChanges state.services outputs = .ok merged)
    (haccounts : merged.serviceAccounts = st.pendingChanges.serviceAccounts)
    (hstorage : state.services.stateStorage = st.stateStorage) :
    totalBalance out.accumulationState.services = totalBalance st := by
  obtain ⟨merged', hmerge', hretrieve⟩ := finishRound_retrieve h
  cases hmerge.symm.trans hmerge'
  refine totalBalance_congr (fun s => (hretrieve s).trans ?_)
  simp only [ServicesState.retrieveServiceAccount, haccounts, hstorage]

/-- Service 7 has a code, although service 5 may eject it. -/
def sampleArmed : List StoreWrite :=
  (preimageKind.key (7, (sampleDoomed 82).codeHash), some [2]) :: sampleRequested

/-- Service 5 ejects service 7, and service 7 sends three tokens to service 5. -/
def sampleDuelists : Interpreter 0 (List (ℕ × Registers)) :=
  { sampleScript [] with
    load := fun _ _ service _ =>
      some (if service = 5 then [(22, sampleEjectRegisters)] else [(21, sampleRegisters)]) }

/-- Services 5 and 7 may accumulate. -/
def sampleDuel : RoundInput := ⟨[], [], Dict.insert (Dict.insert ∅ 5 10000) 7 10000⟩

/-- A service takes the tokens of service 7 and removes it. -/
def sampleGrab (service : ℕ) (account : ServiceAccount) : ℕ × PvmAccumulateOutput 0 :=
  (service, ⟨{ sampleOffice sampleRequested with
    services := ((sampleOffice sampleRequested).services.setPendingAccount service
      (some account)).setPendingAccount 7 none }, [], none, 0, []⟩)

lemma sampleGrab_conserves {service : ℕ} {account : ServiceAccount} {input : RoundInput}
    (hservice : service < 2 ^ 32) (hne : 7 ≠ service)
    (hbalance : account.balance =
      balanceAt (sampleOffice sampleRequested).services service + 1000)
    (hcredit : credit (sampleOffice sampleRequested).services input service = 0) :
    Conserves (sampleOffice sampleRequested).services input (sampleGrab service account) := by
  have hdoomed : (sampleOffice sampleRequested).services.retrieveServiceAccount 7 =
      .ok (sampleDoomed 82) := rfl
  have hkept : balanceAt ((sampleOffice sampleRequested).services.setPendingAccount service
      (some account)) 7 = 1000 :=
    balanceAt_of_ok ((retrieveServiceAccount_setPendingAccount_of_ne hne _).trans hdoomed)
  have htotal : totalBalance (sampleGrab service account).2.stateContext.services =
      totalBalance (sampleOffice sampleRequested).services := by
    rw [sampleGrab, totalBalance_setPendingAccount (by decide), hkept,
      totalBalance_setPendingAccount hservice]
    simp only [Option.map_some, Option.getD_some, Option.map_none, Option.getD_none]
    omega
  have hcredit' : credit (sampleOffice sampleRequested).services input
      (sampleGrab service account).1 = 0 := hcredit
  rw [Conserves, htotal, hcredit']
  rfl

lemma sampleGrab_own {service : ℕ} {account : ServiceAccount} (s : ℕ) :
    ¬ Recreates (sampleOffice sampleRequested).services (sampleGrab service account) s := by
  apply not_recreates
  intro s account' hget
  change (Dict.insert (Dict.insert ∅ service (some account)) 7 none).get? s = _ at hget
  rw [Dict.get?_insert, Dict.get?_insert] at hget
  split at hget
  · cases hget
  · split at hget
    · next hs => exact hs
    · cases hget

/-- Service 7 sends tokens in the round in which it is ejected. -/
lemma inflates_sampleDuel :
    ∃ outputs, runServices (pvmInvoke sampleHashing sampleDuelists (fun _ => 0) 100 3)
        (sampleOffice sampleArmed) sampleDuel sampleDuel.serviceIds = some outputs ∧
      Inflates (sampleOffice sampleArmed) sampleDuel outputs := by
  have hrun : ∃ (o₅ o₇ : PvmAccumulateOutput 0) (out : ParallelAccumulationOutput 0)
      (merged : PendingChanges) (a₅ a₇ : ServiceAccount),
      runServices (pvmInvoke sampleHashing sampleDuelists (fun _ => 0) 100 3)
        (sampleOffice sampleArmed) sampleDuel sampleDuel.serviceIds = some [(5, o₅), (7, o₇)] ∧
      finishRound sampleHashing.primitives 100 (sampleOffice sampleArmed) [(5, o₅), (7, o₇)] =
        .ok out ∧
      mergeAccumulationServiceChanges (sampleOffice sampleArmed).services [(5, o₅), (7, o₇)] =
        .ok merged ∧
      merged.serviceAccounts = Dict.insert (Dict.insert ∅ 5 (some a₅)) 7 none ∧
      o₅.pending.serviceAccounts = Dict.insert (Dict.insert ∅ 7 none) 5 (some a₅) ∧
      o₇.pending.serviceAccounts = Dict.insert ∅ 7 (some a₇) ∧
      a₅.balance = 2000 ∧ amounts out.deferredTransfers = 3 :=
    ⟨_, _, _, _, _, _, rfl, rfl, rfl, rfl, rfl, rfl, rfl, rfl⟩
  obtain ⟨o₅, o₇, out, merged, a₅, a₇, hrun, hround, hmerge, haccounts, h₅, h₇, hbalance,
    hsent⟩ := hrun
  obtain ⟨hids, houtcome⟩ := runServices_outcome hrun
  have hcoherent : Coherent sampleHashing.primitives (sampleOffice sampleArmed).services :=
    coherent_fresh _ (sampleOffice sampleArmed).services
  refine ⟨_, hrun, hcoherent, hids, outcomes_conserve hcoherent houtcome, ?_, out, hround, ?_⟩
  · intro p hp
    apply not_recreates
    intro s account hget
    rcases List.mem_pair.mp hp with rfl | rfl
    · rw [h₅, Dict.get?_insert, Dict.get?_insert] at hget
      split at hget
      · next hs => exact hs
      · split at hget
        · cases hget
        · cases hget
    · rw [h₇, Dict.get?_insert] at hget
      split at hget
      · next hs => exact hs
      · cases hget
  · have htotal := totalBalance_finishRound (((sampleOffice
      sampleArmed).services.setPendingAccount 5 (some a₅)).setPendingAccount 7 none) hround hmerge
        haccounts rfl
    have h5 : balanceAt (sampleOffice sampleArmed).services 5 = 1000 := rfl
    have h7 : balanceAt ((sampleOffice sampleArmed).services.setPendingAccount 5 (some a₅)) 7 =
        1000 := rfl
    have hreceived : amounts sampleDuel.deferredTransfers = 0 := rfl
    rw [htotal, totalBalance_setPendingAccount (by decide), h7,
      totalBalance_setPendingAccount (by decide), h5, hsent, hreceived]
    simp only [Option.map_some, Option.getD_some, Option.map_none, Option.getD_none, hbalance]
    omega

/-- Services 5 and 6 may accumulate. -/
def sampleGrabTurn : RoundInput := ⟨[], [], Dict.insert (Dict.insert ∅ 5 10000) 6 10000⟩

/-- Two outputs remove service 7, and both take its tokens. -/
lemma inflates_sampleGrab :
    Inflates (sampleOffice sampleRequested) sampleGrabTurn
      [sampleGrab 5 { sampleCoded with balance := 2000 }, sampleGrab 6 sampleCoded] := by
  have hrun : ∃ (out : ParallelAccumulationOutput 0) (merged : PendingChanges),
      finishRound sampleHashing.primitives 100 (sampleOffice sampleRequested)
        [sampleGrab 5 { sampleCoded with balance := 2000 }, sampleGrab 6 sampleCoded] = .ok out ∧
      mergeAccumulationServiceChanges (sampleOffice sampleRequested).services
        [sampleGrab 5 { sampleCoded with balance := 2000 }, sampleGrab 6 sampleCoded] =
          .ok merged ∧
      merged.serviceAccounts = Dict.insert (Dict.insert (Dict.insert ∅ 5 (some { sampleCoded with
        balance := 2000 })) 6 (some sampleCoded)) 7 none ∧
      amounts out.deferredTransfers = 0 :=
    ⟨_, _, rfl, rfl, rfl, rfl⟩
  obtain ⟨out, merged, hround, hmerge, haccounts, hsent⟩ := hrun
  refine ⟨coherent_fresh _ (sampleOffice sampleRequested).services, rfl, ?_, ?_, out, hround, ?_⟩
  · intro p hp
    rcases List.mem_pair.mp hp with rfl | rfl
    · exact sampleGrab_conserves (by decide) (by decide) rfl rfl
    · exact sampleGrab_conserves (by decide) (by decide) rfl rfl
  · intro p hp
    rcases List.mem_pair.mp hp with rfl | rfl
    · exact sampleGrab_own
    · exact sampleGrab_own
  · let taken := (sampleOffice sampleRequested).services.setPendingAccount 5
      (some { sampleCoded with balance := 2000 })
    have htotal := totalBalance_finishRound
      ((taken.setPendingAccount 6 (some sampleCoded)).setPendingAccount 7 none) hround hmerge
        haccounts rfl
    have h5 : balanceAt (sampleOffice sampleRequested).services 5 = 1000 := rfl
    have h6 : balanceAt taken 6 = 0 := rfl
    have h7 : balanceAt (taken.setPendingAccount 6 (some sampleCoded)) 7 = 1000 := rfl
    rw [htotal, totalBalance_setPendingAccount (by decide), h7,
      totalBalance_setPendingAccount (by decide), h6,
      totalBalance_setPendingAccount (by decide), h5, hsent]
    simp only [Option.map_some, Option.getD_some, Option.map_none, Option.getD_none]
    have hcoded : sampleCoded.balance = 1000 := rfl
    rw [hcoded]
    show _ + ((0 : ℕ) : ℤ) < _
    omega

/-- Tokens can be made in a round of invocations that run while they are ejected, and with outputs that
remove an account twice. -/
theorem sampleRounds_inflate :
    (∃ outputs, runServices (pvmInvoke sampleHashing sampleDuelists (fun _ => 0) 100 3)
        (sampleOffice sampleArmed) sampleDuel sampleDuel.serviceIds = some outputs ∧
      Inflates (sampleOffice sampleArmed) sampleDuel outputs) ∧
    Inflates (sampleOffice sampleRequested) sampleGrabTurn
      [sampleGrab 5 { sampleCoded with balance := 2000 }, sampleGrab 6 sampleCoded] :=
  ⟨inflates_sampleDuel, inflates_sampleGrab⟩

end HostCalls
