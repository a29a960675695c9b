import Pyjamaz.HostCalls.Lookups

/-!
# Services named by a register

Six calls take a service in register 7.  A register holds 64 bits and an account number has 32.  The
number `2 ^ 64 - 1` stands for the caller in the four calls that look something up; any other number
is to name the account that has it.

`transfer` and `eject` ask the services state for the number as it is, and there is no account with a
number of more than 32 bits.  The other four reduce it first, so that `2 ^ 32 + d` reaches the account
`d` as well.
-/

namespace HostCalls

open Accumulation Services

/-! ## The account that a register names -/

/-- The account that a register should name: the caller's under `2 ^ 64 - 1`, and otherwise the
account with exactly this number. -/
def namedAccount (services : ServicesState) (serviceId reg7 : ℕ) :
    Except RefineError (Option (ℕ × ServiceAccount)) := do
  let own ← orMissing (services.retrieveServiceAccount serviceId)
  if reg7 = 2 ^ 64 - 1 then return own.map fun account => (serviceId, account)
  else
    let account ← orMissing (services.retrieveServiceAccount reg7)
    return account.map fun account => (reg7, account)

/-- All calls take the number in register 7 for the account that it should name.  The calls of an
accumulation get the account of the caller, which was retrieved before. -/
structure NamesExactly (services : ServicesState) (serviceId reg7 : ℕ) : Prop where
  lookup : ∀ service, services.retrieveServiceAccount serviceId = .ok service →
    lookupAccount services service serviceId reg7 = namedAccount services serviceId reg7
  read : ∀ service, services.retrieveServiceAccount serviceId = .ok service →
    readAccount services service serviceId reg7 = namedAccount services serviceId reg7
  info : ∀ service, services.retrieveServiceAccount serviceId = .ok service →
    infoAccount services serviceId reg7 = namedAccount services serviceId reg7
  historical : historicalAccount services serviceId reg7 = namedAccount services serviceId reg7
  /-- A transfer goes to the account with this number, or there is none. -/
  transfer : ∀ {coreCount : ℕ} (registers : Registers) (memory : Memory)
    (x x' : AccumulateInvocationContext coreCount) (out out' : InvocationMutationOutput),
    x.services = services → registers.get 7 = reg7 →
    hcTransfer registers memory x out = .ok (out', x') →
    x' = x ∨ ∃ receiver t, services.retrieveServiceAccount reg7 = .ok receiver ∧
      t.receiver = reg7 ∧
      x'.context.deferredTransfers = x.context.deferredTransfers ++ [t]
  /-- An ejection removes the account with this number, or none. -/
  eject : ∀ {coreCount : ℕ} (env : Environment) (registers : Registers) (memory : Memory)
    (x x' : AccumulateInvocationContext coreCount) (out out' : InvocationMutationOutput),
    x.services = services → x.context.serviceAccountId = serviceId → registers.get 7 = reg7 →
    hcEject env registers memory x out = .ok (out', x') →
    x' = x ∨ ∃ ejected, services.retrieveServiceAccount reg7 = .ok ejected ∧
      ∀ d, d ≠ reg7 → d ≠ serviceId →
        x'.services.retrieveServiceAccount d = services.retrieveServiceAccount d

/-! ## Transfers and ejections -/

section Exact

variable {coreCount : ℕ} {registers : Registers} {memory : Memory}
  {x x' : AccumulateInvocationContext coreCount} {out out' : InvocationMutationOutput}

lemma hcTransfer_names (h : hcTransfer registers memory x out = .ok (out', x')) :
    x' = x ∨ ∃ receiver t, x.services.retrieveServiceAccount (registers.get 7) = .ok receiver ∧
      t.receiver = registers.get 7 ∧
      x'.context.deferredTransfers = x.context.deferredTransfers ++ [t] := by
  rcases hcTransfer_eq_ok h with rfl | ⟨account, receiver, t, -, -, hto, hreceiver, -, -, rfl⟩
  · exact .inl rfl
  · exact .inr ⟨receiver, t, hto ▸ hreceiver, hto, rfl⟩

/-- An ejection leaves the accounts of all other services as they are. -/
lemma hcEject_names {env : Environment}
    (h : hcEject env registers memory x out = .ok (out', x')) :
    x' = x ∨ ∃ ejected, x.services.retrieveServiceAccount (registers.get 7) = .ok ejected ∧
      ∀ d, d ≠ registers.get 7 → d ≠ x.context.serviceAccountId →
        x'.services.retrieveServiceAccount d = x.services.retrieveServiceAccount d := by
  rcases hcEject_eq_ok h with ⟨rfl, -⟩ | ⟨services', rfl, -, hresult⟩
  · exact .inl rfl
  · obtain ⟨account, ejected, preimageHash, l, a, y, -, hejected, -, -, -, -, -, rfl⟩ := hresult
    refine .inr ⟨ejected, hejected, fun d hd hown => ?_⟩
    change (ServicesState.setPendingAccount _ _ _).retrieveServiceAccount d = _
    rw [retrieveServiceAccount_setPendingAccount_of_ne hown,
      retrieveServiceAccount_setPendingAccount_of_ne hd,
      retrieveServiceAccount_setPendingAvailability, retrieveServiceAccount_setPendingPreimage]
    rfl

end Exact

/-! ## When a register names exactly -/

section Names

variable {services : ServicesState} {serviceId reg7 : ℕ}

lemma retrieveServiceAccount_of_ge (h : 2 ^ 32 ≤ reg7) :
    services.retrieveServiceAccount reg7 = .error .noResult := if_pos h

lemma orMissing_eq_none {α : Type} {r : Except ServiceError α} (h : orMissing r = .ok none) :
    r = .error .noResult := by
  cases r with
  | ok a => cases h
  | error e => cases e <;> first | rfl | cases h

/-- What a reduced number names is what the number itself names, if it has 32 bits or there is no
account under the reduced one. -/
lemma retrieveServiceAccount_mod (h : reg7 < 2 ^ 32 ∨
    services.retrieveServiceAccount (reg7 % 2 ^ 32) = .error .noResult) :
    (do
      let account ← orMissing (services.retrieveServiceAccount (reg7 % 2 ^ 32))
      return account.map fun account => (reg7 % 2 ^ 32, account)) =
    (do
      let account ← orMissing (services.retrieveServiceAccount reg7)
      return account.map fun account => (reg7, account) :
      Except RefineError (Option (ℕ × ServiceAccount))) := by
  rcases Nat.lt_or_ge reg7 (2 ^ 32) with hlt | hge
  · rw [Nat.mod_eq_of_lt hlt]
  · rw [h.resolve_left (not_lt.mpr hge), retrieveServiceAccount_of_ge hge]
    rfl

/-- The register names the caller, has 32 bits, or there is no account under the reduced number. -/
def NamesOne (services : ServicesState) (serviceId reg7 : ℕ) : Prop :=
  reg7 < 2 ^ 32 ∨
    (reg7 = 2 ^ 64 - 1 ∧ ∃ service, services.retrieveServiceAccount serviceId = .ok service) ∨
    services.retrieveServiceAccount (reg7 % 2 ^ 32) = .error .noResult

lemma orMissing_ok {α : Type} (a : α) : orMissing (.ok a) = .ok (some a) := rfl

lemma lookupAccount_eq (h : NamesOne services serviceId reg7) {service : ServiceAccount}
    (hservice : services.retrieveServiceAccount serviceId = .ok service) :
    lookupAccount services service serviceId reg7 = namedAccount services serviceId reg7 := by
  rw [lookupAccount, namedAccount, hservice, orMissing_ok, Except.ok_bind]
  by_cases hown : reg7 = 2 ^ 64 - 1
  · rw [if_pos (.inr hown), if_pos hown]
    rfl
  · rw [if_neg hown]
    by_cases hself : reg7 = serviceId
    · rw [if_pos (.inl hself), hself, hservice]
      rfl
    · rw [if_neg (not_or.mpr ⟨hself, hown⟩)]
      exact retrieveServiceAccount_mod (h.imp_right fun h => h.resolve_left fun h => hown h.1)

lemma infoAccount_eq (h : NamesOne services serviceId reg7) {service : ServiceAccount}
    (hservice : services.retrieveServiceAccount serviceId = .ok service) :
    infoAccount services serviceId reg7 = namedAccount services serviceId reg7 := by
  rw [infoAccount, namedAccount, hservice, orMissing_ok, Except.ok_bind]
  by_cases hown : reg7 = 2 ^ 64 - 1
  · simp only [if_pos hown, hservice]
    rfl
  · simp only [if_neg hown]
    exact retrieveServiceAccount_mod (h.imp_right fun h => h.resolve_left fun h => hown h.1)

/-- `read` takes the account of the caller from its argument. -/
lemma readAccount_eq_infoAccount {service : ServiceAccount}
    (hservice : services.retrieveServiceAccount serviceId = .ok service) :
    readAccount services service serviceId reg7 = infoAccount services serviceId reg7 := by
  rw [readAccount, infoAccount]
  by_cases htarget : (if reg7 = 2 ^ 64 - 1 then serviceId else reg7 % 2 ^ 32) = serviceId
  · simp only [htarget, if_pos, hservice]
    rfl
  · simp only [if_neg htarget]

lemma historicalAccount_eq (h : NamesOne services serviceId reg7) :
    historicalAccount services serviceId reg7 = namedAccount services serviceId reg7 := by
  rw [historicalAccount, namedAccount]
  cases hown : orMissing (services.retrieveServiceAccount serviceId) with
  | error e => rfl
  | ok own =>
    rw [Except.ok_bind, Except.ok_bind]
    by_cases hreg : reg7 = 2 ^ 64 - 1
    · rw [if_pos hreg]
      cases own with
      | some service => rw [if_pos ⟨hreg, rfl⟩]
      | none =>
        rw [if_neg (fun h => by cases h.2)]
        rcases h with hlt | ⟨-, service, hservice⟩ | hmissing
        · omega
        · rw [hservice] at hown
          cases hown
        · rw [hmissing]
          rfl
    · rw [if_neg hreg, if_neg (fun h => hreg h.1)]
      exact retrieveServiceAccount_mod (h.imp_right fun h => h.resolve_left fun h => hreg h.1)

/-- `historical_lookup` alone goes wrong with every other register. -/
lemma namesOne_of_historicalAccount
    (hown : ∀ e, services.retrieveServiceAccount serviceId = .error e → e = .noResult)
    (h : historicalAccount services serviceId reg7 = namedAccount services serviceId reg7) :
    NamesOne services serviceId reg7 := by
  rcases Nat.lt_or_ge reg7 (2 ^ 32) with hlt | hge
  · exact .inl hlt
  by_cases hcaller : reg7 = 2 ^ 64 - 1 ∧
      ∃ service, services.retrieveServiceAccount serviceId = .ok service
  · exact .inr (.inl hcaller)
  -- no account is meant, so none may be found
  have hretrieved : ∃ own, orMissing (services.retrieveServiceAccount serviceId) = .ok own ∧
      (reg7 = 2 ^ 64 - 1 → own = none) := by
    cases hservice : services.retrieveServiceAccount serviceId with
    | ok service => exact ⟨some service, rfl, fun hreg => absurd ⟨hreg, service, hservice⟩ hcaller⟩
    | error e =>
      rw [hown e hservice]
      exact ⟨none, rfl, fun _ => rfl⟩
  obtain ⟨own, hretrieved, hnone⟩ := hretrieved
  have hnamed : namedAccount services serviceId reg7 = .ok none := by
    rw [namedAccount, hretrieved, Except.ok_bind, retrieveServiceAccount_of_ge hge]
    by_cases hreg : reg7 = 2 ^ 64 - 1
    · rw [if_pos hreg, hnone hreg]
      rfl
    · rw [if_neg hreg]
      rfl
  rw [hnamed, historicalAccount, hretrieved, Except.ok_bind, if_neg (by
    rintro ⟨hreg, hsome⟩
    rw [hnone hreg] at hsome
    cases hsome)] at h
  obtain ⟨account, haccount, hmap⟩ := Except.bind_eq_ok.mp h
  cases account with
  | none => exact .inr (.inr (orMissing_eq_none haccount))
  | some account => cases hmap

/-- All calls take the number in register 7 for the account that it should name if and only if it has
32 bits, stands for a caller that has an account, or does not reach an account when it is reduced.  A
caller whose record cannot be read makes every call raise. -/
theorem namesExactly_iff (services : ServicesState) (serviceId reg7 : ℕ) :
    NamesExactly services serviceId reg7 ↔ NamesOne services serviceId reg7 ∨
      ∃ e, services.retrieveServiceAccount serviceId = .error e ∧ e ≠ .noResult := by
  constructor
  · intro h
    by_cases hraises : ∃ e, services.retrieveServiceAccount serviceId = .error e ∧ e ≠ .noResult
    · exact .inr hraises
    · refine .inl (namesOne_of_historicalAccount (fun e he => ?_) h.historical)
      by_contra hne
      exact hraises ⟨e, he, hne⟩
  · intro h
    refine ⟨fun service hservice => ?_, fun service hservice => ?_, fun service hservice => ?_, ?_,
      ?_, ?_⟩
    · refine lookupAccount_eq (h.resolve_right ?_) hservice
      rintro ⟨e, he, -⟩
      cases hservice.symm.trans he
    · rw [readAccount_eq_infoAccount hservice]
      refine infoAccount_eq (h.resolve_right ?_) hservice
      rintro ⟨e, he, -⟩
      cases hservice.symm.trans he
    · refine infoAccount_eq (h.resolve_right ?_) hservice
      rintro ⟨e, he, -⟩
      cases hservice.symm.trans he
    · rcases h with hone | ⟨e, he, hne⟩
      · exact historicalAccount_eq hone
      · rw [historicalAccount, namedAccount, he]
        cases e with
        | noResult => exact absurd rfl hne
        | overflow | decode | encode | storage _ => rfl
    · rintro coreCount registers memory x x' out out' rfl rfl htransfer
      exact hcTransfer_names htransfer
    · rintro coreCount env registers memory x x' out out' rfl rfl rfl heject
      exact hcEject_names heject

end Names

/-- The services 5 and 7. -/
def sampleNeighbours : ServicesState := sampleServices.setPendingAccount 7 (some sampleAccount)

/-- Service 5 reaches the account of service 7 under the number `2 ^ 32 + 7`, which no account has. -/
theorem sampleNeighbours_reached :
    sampleNeighbours.retrieveServiceAccount 5 = .ok sampleAccount ∧
      sampleNeighbours.retrieveServiceAccount (2 ^ 32 + 7) = .error .noResult ∧
      lookupAccount sampleNeighbours sampleAccount 5 (2 ^ 32 + 7) = .ok (some (7, sampleAccount)) ∧
      readAccount sampleNeighbours sampleAccount 5 (2 ^ 32 + 7) = .ok (some (7, sampleAccount)) ∧
      infoAccount sampleNeighbours 5 (2 ^ 32 + 7) = .ok (some (7, sampleAccount)) ∧
      historicalAccount sampleNeighbours 5 (2 ^ 32 + 7) = .ok (some (7, sampleAccount)) ∧
      ¬ NamesExactly sampleNeighbours 5 (2 ^ 32 + 7) := by
  refine ⟨rfl, rfl, rfl, rfl, rfl, rfl, fun h => ?_⟩
  have hnamed := h.historical
  cases hnamed

end HostCalls
