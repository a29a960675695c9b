import Pyjamaz.HostCalls.Accumulate
import Pyjamaz.Services.Overlay

/-!
# What a host call can do

`Effect` lists every way in which a host call changes the services, the transfers and the next free id
of its context, with the conditions under which it does.  Whatever is to be proved about runs of host
calls is proved from these cases.
-/

namespace HostCalls

open Accumulation Services Octets

variable {coreCount : ℕ}

/-! ## Changes of the pending maps -/

section Stores

variable {P : Primitives} {st st' : ServicesState} {s : ℕ}

lemma storeServiceAccount_pending {account : ServiceAccount}
    (h : st.storeServiceAccount s account false = .ok st') :
    st' = st.setPendingAccount s (some account) := by
  rw [ServicesState.storeServiceAccount] at h
  split at h
  · cases h
  · cases h
    rfl

lemma deleteServiceAccount_pending (h : st.deleteServiceAccount s false = .ok st') :
    st' = st.setPendingAccount s none := by
  rw [ServicesState.deleteServiceAccount] at h
  split at h
  · cases h
  · cases h
    rfl

lemma storeStorageItem_pending {key value : Octets}
    (h : st.storeStorageItem s key value false = .ok st') :
    st' = st.setPendingStorageItem s key (some value) := by
  rw [ServicesState.storeStorageItem] at h
  obtain ⟨stateKey, -, h⟩ := Except.bind_eq_ok.mp h
  cases h
  rfl

lemma deleteStorageItem_pending {key : Octets} (h : st.deleteStorageItem s key false = .ok st') :
    st' = st.setPendingStorageItem s key none := by
  rw [ServicesState.deleteStorageItem] at h
  obtain ⟨stateKey, -, h⟩ := Except.bind_eq_ok.mp h
  cases h
  rfl

lemma deletePreimage_pending {preimageHash : Octets32}
    (h : st.deletePreimage s preimageHash false = .ok st') :
    st' = st.setPendingPreimage s preimageHash none := by
  rw [ServicesState.deletePreimage] at h
  obtain ⟨stateKey, -, h⟩ := Except.bind_eq_ok.mp h
  cases h
  rfl

lemma storePreimageAvailability_pending {preimageHash : Octets32} {z : ℕ} {value : List ℕ}
    (h : st.storePreimageAvailability P s preimageHash z value false = .ok st') :
    st' = st.setPendingAvailability s preimageHash z (some value) := by
  rw [ServicesState.storePreimageAvailability] at h
  obtain ⟨stateKey, -, h⟩ := Except.bind_eq_ok.mp h
  cases h
  rfl

lemma deletePreimageAvailability_pending {preimageHash : Octets32} {z : ℕ}
    (h : st.deletePreimageAvailability s preimageHash z false = .ok st') :
    st' = st.setPendingAvailability s preimageHash z none := by
  rw [ServicesState.deletePreimageAvailability] at h
  obtain ⟨stateKey, -, h⟩ := Except.bind_eq_ok.mp h
  cases h
  rfl

end Stores

/-! ## Results of reads -/

lemma liftHost_eq_ok {α : Type} {x : Except ServiceError α} {a : α} (h : liftHost x = .ok a) :
    x = .ok a := by
  cases x with
  | ok a' =>
    cases h
    rfl
  | error e => cases h

lemma orNone_eq_some {α : Type} {x : Except ServiceError α} {a : α}
    (h : orNone x = .ok (some a)) : x = .ok a := by
  cases x with
  | ok a' =>
    cases h
    rfl
  | error e => cases e <;> cases h

lemma orNone_eq_none {α : Type} {x : Except ServiceError α} (h : orNone x = .ok none) :
    x = .error .noResult := by
  cases x with
  | ok a => cases h
  | error e =>
    cases e with
    | noResult => rfl
    | overflow => cases h
    | decode => cases h
    | encode => cases h
    | storage e => cases h

/-! ## The effects -/

/-- What a host call does to its context. -/
inductive Effect (env : Environment) (timeslot : ℕ) (c : AccumulateContextItem coreCount) :
    AccumulateContextItem coreCount → Prop
  /-- Services and transfers stay as they are. -/
  | quiet {c' : AccumulateContextItem coreCount}
      (hservice : c'.serviceAccountId = c.serviceAccountId) (hservices : c'.services = c.services)
      (htransfers : c'.deferredTransfers = c.deferredTransfers)
      (hnew : c'.newServiceAccountId = c.newServiceAccountId) : Effect env timeslot c c'
  /-- An account is created. -/
  | create {account created : ServiceAccount} {codeHash : Octets32} {l g m f newService next : ℕ}
      (hown : c.services.retrieveServiceAccount c.serviceAccountId = .ok account)
      (hcreated : created = newAccount codeHash l g m f timeslot c.serviceAccountId)
      (hlength : l < 2 ^ 32)
      (hcash : account.thresholdBalance ≤ account.balance - created.thresholdBalance)
      (hfresh : (newService < 2 ^ 16 ∧ next = c.newServiceAccountId ∧
          c.services.serviceExists newService = .ok false) ∨
        (newService = c.newServiceAccountId ∧
          checkServiceId c.services env.recursionDepth (shiftServiceId newService 42) = .ok next)) :
      Effect env timeslot c
        { c.setServices (((c.services.setPendingAccount c.serviceAccountId
              (some { account with balance := account.balance - created.thresholdBalance })
            ).setPendingAccount newService (some created)
            ).setPendingAvailability newService codeHash l (some [])) with
          newServiceAccountId := next }
  /-- The code of the account is replaced. -/
  | upgrade {account : ServiceAccount} {codeHash : Octets32} {g m : ℕ}
      (hown : c.services.retrieveServiceAccount c.serviceAccountId = .ok account) :
      Effect env timeslot c (c.setServices
        (c.services.setPendingAccount c.serviceAccountId (some { account with
          codeHash := codeHash
          gasLimitAccumulate := g
          gasLimitOnTransfer := m })))
  /-- A transfer is sent. -/
  | transfer {account receiver : ServiceAccount} {t : DeferredTransfer}
      (hown : c.services.retrieveServiceAccount c.serviceAccountId = .ok account)
      (hsender : t.sender = c.serviceAccountId)
      (hreceiver : c.services.retrieveServiceAccount t.receiver = .ok receiver)
      (hgas : receiver.gasLimitOnTransfer ≤ t.gasLimit)
      (hcash : account.thresholdBalance ≤ account.balance - t.amount) :
      Effect env timeslot c
        { c.setServices (c.services.setPendingAccount c.serviceAccountId
            (some { account with balance := account.balance - t.amount })) with
          deferredTransfers := c.deferredTransfers ++ [t] }
  /-- Another account is ejected. -/
  | eject {account ejected : ServiceAccount} {d : ℕ} {preimageHash : Octets32} {l a y : ℕ}
      (hown : c.services.retrieveServiceAccount c.serviceAccountId = .ok account)
      (hother : d ≠ c.serviceAccountId)
      (hejected : c.services.retrieveServiceAccount d = .ok ejected)
      (hcode : ejected.codeHash.toList = littleEndian 32 c.serviceAccountId)
      (hitems : ejected.footprintStorageItems = 2)
      (hlength : l = (max 81 ejected.footprintStorageBytes - 81).toNat)
      (hpresent : c.services.retrievePreimageAvailability env.primitives d preimageHash l =
        .ok [a, y])
      (hexpunged : (y : ℤ) < timeslot - env.expungePeriod) :
      Effect env timeslot c (c.setServices
        ((((c.services.setPendingPreimage d preimageHash none
          ).setPendingAvailability d preimageHash l none
          ).setPendingAccount d none
          ).setPendingAccount c.serviceAccountId
            (some { account with balance := account.balance + ejected.balance })))
  /-- A preimage is requested for the first time. -/
  | request {account : ServiceAccount} {preimageHash : Octets32} {z : ℕ}
      (hown : c.services.retrieveServiceAccount c.serviceAccountId = .ok account)
      (hlength : z < 2 ^ 32)
      (habsent : c.services.retrievePreimageAvailability env.primitives c.serviceAccountId
        preimageHash z = .error .noResult)
      (hcash : (account.updateFootprintAddPreimage z).thresholdBalance ≤ account.balance) :
      Effect env timeslot c (c.setServices
        ((c.services.setPendingAvailability c.serviceAccountId preimageHash z (some [])
          ).setPendingAccount c.serviceAccountId (some (account.updateFootprintAddPreimage z))))
  /-- The history of a request goes on, and the account is stored again. -/
  | renew {account : ServiceAccount} {preimageHash : Octets32} {z : ℕ} {history : List ℕ}
      (hown : c.services.retrieveServiceAccount c.serviceAccountId = .ok account)
      (hpresent : c.services.retrievePreimageAvailability env.primitives c.serviceAccountId
        preimageHash z = .ok history)
      (hhistory : history.length = 2) (hcash : account.thresholdBalance ≤ account.balance) :
      Effect env timeslot c (c.setServices
        ((c.services.setPendingAvailability c.serviceAccountId preimageHash z
            (some (history ++ [timeslot]))
          ).setPendingAccount c.serviceAccountId (some account)))
  /-- The history of a request goes on, and the account is left alone. -/
  | retire {preimageHash : Octets32} {z : ℕ} {history history' : List ℕ}
      (hpresent : c.services.retrievePreimageAvailability env.primitives c.serviceAccountId
        preimageHash z = .ok history)
      (hdecision : forgetDecision env timeslot history = .replace history') :
      Effect env timeslot c (c.setServices
        (c.services.setPendingAvailability c.serviceAccountId preimageHash z (some history')))
  /-- A request is forgotten. -/
  | forget {account : ServiceAccount} {preimageHash : Octets32} {z : ℕ} {history : List ℕ}
      (hown : c.services.retrieveServiceAccount c.serviceAccountId = .ok account)
      (hpresent : c.services.retrievePreimageAvailability env.primitives c.serviceAccountId
        preimageHash z = .ok history)
      (hdecision : forgetDecision env timeslot history = .remove) :
      Effect env timeslot c (c.setServices
        (((c.services.setPendingAvailability c.serviceAccountId preimageHash z none
          ).setPendingPreimage c.serviceAccountId preimageHash none
          ).setPendingAccount c.serviceAccountId
            (some (account.updateFootprintRemovePreimage z))))
  /-- A storage item is written or removed. -/
  | write {account : ServiceAccount} {key : Octets} {old value : Option Octets}
      (hown : c.services.retrieveServiceAccount c.serviceAccountId = .ok account)
      (hold : c.services.retrieveStorageItem c.serviceAccountId key = ofItem old)
      (hvalue : value ≠ some [])
      (hcash : (writeFootprint account key old value).thresholdBalance ≤
        (writeFootprint account key old value).balance) :
      Effect env timeslot c (c.setServices
        ((c.services.setPendingStorageItem c.serviceAccountId key value
          ).setPendingAccount c.serviceAccountId (some (writeFootprint account key old value))))

/-- What a host call does to the context of its invocation: an effect on the context, and the savepoint
stays or is taken. -/
structure Step (env : Environment) (x x' : AccumulateInvocationContext coreCount) : Prop where
  effect : Effect env x.timeslot x.context x'.context
  savepoint : x'.savepointContext = x.savepointContext ∨ x'.savepointContext = x.context
  timeslot : x'.timeslot = x.timeslot

lemma Step.refl (env : Environment) (x : AccumulateInvocationContext coreCount) : Step env x x :=
  ⟨.quiet rfl rfl rfl rfl, .inl rfl, rfl⟩

/-- A call that only changes the rest of the context. -/
lemma Step.of_quiet {env : Environment} {x x' : AccumulateInvocationContext coreCount}
    (hservice : x'.context.serviceAccountId = x.context.serviceAccountId)
    (hservices : x'.services = x.services)
    (htransfers : x'.context.deferredTransfers = x.context.deferredTransfers)
    (hnew : x'.context.newServiceAccountId = x.context.newServiceAccountId)
    (hsavepoint : x'.savepointContext = x.savepointContext) (htimeslot : x'.timeslot = x.timeslot) :
    Step env x x' :=
  ⟨.quiet hservice hservices htransfers hnew, .inl hsavepoint, htimeslot⟩

/-- A call that cannot pay changes nothing and ends the run. -/
lemma hostcall_cases {cost : ℕ} {out out' : InvocationMutationOutput}
    {x x' : AccumulateInvocationContext coreCount}
    {body : InvocationMutationOutput → Except HostError (CallResult coreCount)}
    (h : hostcall cost out x body = .ok (out', x')) :
    (out'.exitCondition = .outOfGas ∧ x' = x) ∨ ∃ out₁, body out₁ = .ok (out', x') := by
  unfold hostcall at h
  simp only at h
  split at h
  · cases h
    exact .inl ⟨rfl, rfl⟩
  · exact .inr ⟨_, h⟩

lemma hostcall_eq_ok {cost : ℕ} {out out' : InvocationMutationOutput}
    {x x' : AccumulateInvocationContext coreCount}
    {body : InvocationMutationOutput → Except HostError (CallResult coreCount)}
    (h : hostcall cost out x body = .ok (out', x')) :
    x' = x ∨ ∃ out₁, body out₁ = .ok (out', x') :=
  (hostcall_cases h).imp_left And.right

/-! ## The calls, one by one -/

section Calls

variable {env : Environment} {registers : Registers} {memory : Memory}
  {x x' : AccumulateInvocationContext coreCount} {out out' : InvocationMutationOutput}

lemma hcBless_step (h : hcBless registers memory x out = .ok (out', x')) : Step env x x' := by
  rcases hostcall_eq_ok h with rfl | ⟨out₁, hbody⟩
  · exact .refl env x'
  · simp only at hbody
    split at hbody
    · split_ifs at hbody
      · cases hbody
        exact .refl env x
      · cases hbody
        exact .refl env x
      · cases hbody
        exact .of_quiet rfl rfl rfl rfl rfl rfl
    · cases hbody
      exact .refl env x

lemma hcAssign_step (h : hcAssign registers memory x out = .ok (out', x')) : Step env x x' := by
  rcases hostcall_eq_ok h with rfl | ⟨out₁, hbody⟩
  · exact .refl env x'
  · simp only at hbody
    split at hbody
    · cases hbody
      exact .refl env x
    · split_ifs at hbody
      · cases hbody
        exact .refl env x
      · cases hbody
        exact .refl env x
      · cases hbody
        exact .of_quiet rfl rfl rfl rfl rfl rfl
      · cases hbody
        exact .refl env x

lemma hcDesignate_step (h : hcDesignate registers memory x out = .ok (out', x')) :
    Step env x x' := by
  rcases hostcall_eq_ok h with rfl | ⟨out₁, hbody⟩
  · exact .refl env x'
  · simp only at hbody
    split at hbody
    · cases hbody
      exact .refl env x
    · split at hbody
      · cases hbody
        exact .refl env x
      · split at hbody
        · cases hbody
          exact .refl env x
        · split at hbody
          · cases hbody
            exact .refl env x
          · cases hbody
            exact .of_quiet rfl rfl rfl rfl rfl rfl

lemma hcCheckpoint_step (h : hcCheckpoint x out = .ok (out', x')) : Step env x x' := by
  rcases hostcall_eq_ok h with rfl | ⟨out₁, hbody⟩
  · exact .refl env x'
  · cases hbody
    exact ⟨.quiet rfl rfl rfl rfl, .inr rfl, rfl⟩

lemma hcYield_step (h : hcYield registers memory x out = .ok (out', x')) : Step env x x' := by
  rcases hostcall_eq_ok h with rfl | ⟨out₁, hbody⟩
  · exact .refl env x'
  · simp only at hbody
    split at hbody
    · split at hbody
      · cases hbody
      · cases hbody
        exact .of_quiet rfl rfl rfl rfl rfl rfl
    · cases hbody
      exact .refl env x

lemma hcQuery_step (h : hcQuery env registers memory x out = .ok (out', x')) : Step env x x' := by
  rcases hostcall_eq_ok h with rfl | ⟨out₁, hbody⟩
  · exact .refl env x'
  · simp only at hbody
    split at hbody
    · cases hbody
      exact .refl env x
    · split at hbody
      · cases hbody
        exact .refl env x
      · obtain ⟨availability, -, hbody⟩ := Except.bind_eq_ok.mp hbody
        split at hbody
        · cases hbody
          exact .refl env x
        · cases hbody
          exact .refl env x

lemma hcProvide_step (h : hcProvide env registers memory x out = .ok (out', x')) :
    Step env x x' := by
  rcases hostcall_eq_ok h with rfl | ⟨out₁, hbody⟩
  · exact .refl env x'
  · simp only at hbody
    split at hbody
    · cases hbody
      exact .refl env x
    · obtain ⟨blob, -, hbody⟩ := Except.bind_eq_ok.mp hbody
      obtain ⟨account, -, hbody⟩ := Except.bind_eq_ok.mp hbody
      split at hbody
      · cases hbody
        exact .refl env x
      · obtain ⟨availability, -, hbody⟩ := Except.bind_eq_ok.mp hbody
        split at hbody
        · cases hbody
          exact .refl env x
        · split at hbody
          · cases hbody
            exact .refl env x
          · split at hbody
            · cases hbody
              exact .refl env x
            · cases hbody
              exact .of_quiet rfl rfl rfl rfl rfl rfl

/-- A step whose effect replaces the services and nothing else. -/
lemma Step.of_setServices {services : ServicesState}
    (h : Effect env x.timeslot x.context (x.context.setServices services)) :
    Step env x (x.setServices services) :=
  ⟨h, .inl rfl, rfl⟩

/-- The services after the creation of an account. -/
lemma storeNew_eq_ok {services services' : ServicesState} {service newService l : ℕ}
    {account created : ServiceAccount} {codeHash : Octets32}
    (h : storeNew services env service newService account created codeHash l = .ok services') :
    services' = ((services.setPendingAccount service (some account)).setPendingAccount newService
      (some created)).setPendingAvailability newService codeHash l (some []) := by
  rw [storeNew, Except.bind_eq_ok] at h
  obtain ⟨services₁, h₁, h⟩ := h
  obtain ⟨services₂, h₂, h⟩ := Except.bind_eq_ok.mp h
  rw [storePreimageAvailability_pending h, storeServiceAccount_pending h₂,
    storeServiceAccount_pending h₁]

lemma hcNew_step (h : hcNew env registers memory x out = .ok (out', x')) : Step env x x' := by
  rcases hostcall_eq_ok h with rfl | ⟨out₁, hbody⟩
  · exact .refl env x'
  · simp only at hbody
    split at hbody
    · cases hbody
      exact .refl env x
    · next codeHash hread =>
      have hlength : registers.get 8 < 2 ^ 32 := by
        split at hread
        · next hl => exact hl.2.1
        · cases hread
      obtain ⟨account, haccount, hbody⟩ := Except.bind_eq_ok.mp hbody
      have hown := liftHost_eq_ok haccount
      split at hbody
      · cases hbody
        exact .refl env x
      · split at hbody
        · cases hbody
          exact .refl env x
        · next hcash =>
          have hcash := not_lt.mp hcash
          split at hbody
          · next hregistrar =>
            obtain ⟨known, hknown, hbody⟩ := Except.bind_eq_ok.mp hbody
            cases known with
            | true =>
              cases hbody
              exact .refl env x
            | false =>
              obtain ⟨services, hservices, hbody⟩ := Except.bind_eq_ok.mp hbody
              cases hbody
              rw [storeNew_eq_ok (liftHost_eq_ok hservices)]
              exact ⟨.create hown rfl hlength hcash
                (.inl ⟨hregistrar.2, rfl, liftHost_eq_ok hknown⟩), .inl rfl, rfl⟩
          · obtain ⟨next, hnext, hbody⟩ := Except.bind_eq_ok.mp hbody
            obtain ⟨services, hservices, hbody⟩ := Except.bind_eq_ok.mp hbody
            cases hbody
            rw [storeNew_eq_ok (liftHost_eq_ok hservices)]
            exact ⟨.create hown rfl hlength hcash (.inr ⟨rfl, hnext⟩), .inl rfl, rfl⟩

lemma hcUpgrade_step (h : hcUpgrade registers memory x out = .ok (out', x')) : Step env x x' := by
  rcases hostcall_eq_ok h with rfl | ⟨out₁, hbody⟩
  · exact .refl env x'
  · obtain ⟨account, haccount, hbody⟩ := Except.bind_eq_ok.mp hbody
    split at hbody
    · cases hbody
      exact .refl env x
    · obtain ⟨services, hservices, hbody⟩ := Except.bind_eq_ok.mp hbody
      cases hbody
      rw [storeServiceAccount_pending (liftHost_eq_ok hservices)]
      exact .of_setServices (.upgrade (liftHost_eq_ok haccount))

/-- The call changes nothing, or defers a transfer that the receiver and the balance admit. -/
lemma hcTransfer_eq_ok (h : hcTransfer registers memory x out = .ok (out', x')) :
    x' = x ∨ ∃ account receiver t,
      x.services.retrieveServiceAccount x.context.serviceAccountId = .ok account ∧
      t.sender = x.context.serviceAccountId ∧ t.receiver = registers.get 7 ∧
      x.services.retrieveServiceAccount t.receiver = .ok receiver ∧
      receiver.gasLimitOnTransfer ≤ t.gasLimit ∧
      account.thresholdBalance ≤ account.balance - t.amount ∧
      x' = { x with context :=
        { x.context.setServices (x.services.setPendingAccount x.context.serviceAccountId
            (some { account with balance := account.balance - t.amount })) with
          deferredTransfers := x.context.deferredTransfers ++ [t] } } := by
  rw [hcTransfer] at h
  obtain ⟨account, haccount, h⟩ := Except.bind_eq_ok.mp h
  obtain ⟨destination, hdestination, h⟩ := Except.bind_eq_ok.mp h
  simp only at h
  split at h
  · cases h
    exact .inl rfl
  · cases hmemo : memory.readBytes (registers.get 10) 128 with
    | none =>
      rw [hmemo] at h
      cases h
      exact .inl rfl
    | some memo =>
      rw [hmemo] at h
      cases destination with
      | none =>
        cases h
        exact .inl rfl
      | some receiver =>
        simp only at h
        split at h
        · cases h
          exact .inl rfl
        · next hgas =>
          split at h
          · cases h
            exact .inl rfl
          · next hcash =>
            obtain ⟨services, hservices, h⟩ := Except.bind_eq_ok.mp h
            cases h
            rw [storeServiceAccount_pending (liftHost_eq_ok hservices)]
            exact .inr ⟨account, receiver, ⟨x.context.serviceAccountId, registers.get 7,
              registers.get 8, memo, registers.get 9⟩, liftHost_eq_ok haccount, rfl, rfl,
              orNone_eq_some hdestination, not_lt.mp hgas, not_lt.mp hcash, rfl⟩

lemma hcTransfer_step (h : hcTransfer registers memory x out = .ok (out', x')) : Step env x x' := by
  rcases hcTransfer_eq_ok h with
    rfl | ⟨account, receiver, t, hown, hsender, -, hreceiver, hgas, hcash, rfl⟩
  · exact .refl env x'
  · exact ⟨.transfer hown hsender hreceiver hgas hcash, .inl rfl, rfl⟩

/-- The services after an ejection. -/
lemma storeEjection_eq_ok {services services' : ServicesState} {service ejected l : ℕ}
    {account : ServiceAccount} {preimageHash : Octets32}
    (h : storeEjection services service ejected account preimageHash l = .ok services') :
    services' = (((services.setPendingPreimage ejected preimageHash none).setPendingAvailability
      ejected preimageHash l none).setPendingAccount ejected none).setPendingAccount service
        (some account) := by
  rw [storeEjection, Except.bind_eq_ok] at h
  obtain ⟨services₁, h₁, h⟩ := h
  obtain ⟨services₂, h₂, h⟩ := Except.bind_eq_ok.mp h
  obtain ⟨services₃, h₃, h⟩ := Except.bind_eq_ok.mp h
  rw [storeServiceAccount_pending h, deleteServiceAccount_pending h₃,
    deletePreimageAvailability_pending h₂, deletePreimage_pending h₁]

/-- What an ejection of a service needs, and which services it leaves. -/
structure Ejects (env : Environment) (timeslot : ℕ) (c : AccumulateContextItem coreCount) (d : ℕ)
    (services' : ServicesState) : Prop where
  other : d ≠ c.serviceAccountId
  result : ∃ account ejected preimageHash l, ∃ a y : ℕ,
    c.services.retrieveServiceAccount c.serviceAccountId = .ok account ∧
    c.services.retrieveServiceAccount d = .ok ejected ∧
    ejected.codeHash.toList = littleEndian 32 c.serviceAccountId ∧
    ejected.footprintStorageItems = 2 ∧
    l = (max 81 ejected.footprintStorageBytes - 81).toNat ∧
    c.services.retrievePreimageAvailability env.primitives d preimageHash l = .ok [a, y] ∧
    (y : ℤ) < timeslot - env.expungePeriod ∧
    services' = (((c.services.setPendingPreimage d preimageHash none).setPendingAvailability d
      preimageHash l none).setPendingAccount d none).setPendingAccount c.serviceAccountId
        (some { account with balance := account.balance + ejected.balance })

lemma Ejects.effect {timeslot : ℕ} {c : AccumulateContextItem coreCount} {d : ℕ}
    {services' : ServicesState} (h : Ejects env timeslot c d services') :
    Effect env timeslot c (c.setServices services') := by
  obtain ⟨hother, account, ejected, preimageHash, l, a, y, hown, hejected, hcode, hitems, hlength,
    hpresent, hexpunged, rfl⟩ := h
  exact .eject hown hother hejected hcode hitems hlength hpresent hexpunged

/-- The call answers OK when it ejects the service, and otherwise changes nothing. -/
lemma hcEject_eq_ok (h : hcEject env registers memory x out = .ok (out', x')) :
    (x' = x ∧ (out'.exitCondition = .resume →
        out'.registers.get 7 ≠ HostCallResult.ok.value)) ∨
      ∃ services', x' = x.setServices services' ∧
        Ejects env x.timeslot x.context (registers.get 7) services' := by
  rcases hostcall_cases h with ⟨hgas, rfl⟩ | ⟨out₁, hbody⟩
  · refine .inl ⟨rfl, fun hresume => ?_⟩
    rw [hgas] at hresume
    cases hresume
  -- an answer other than OK
  · have hrefused : ∀ result : HostCallResult, result ≠ .ok →
        (.ok (out₁.answer result, x) : Except HostError (CallResult coreCount)) = .ok (out', x') →
        x' = x ∧ (out'.exitCondition = .resume →
          out'.registers.get 7 ≠ HostCallResult.ok.value) := by
      intro result hresult heq
      cases heq
      refine ⟨rfl, fun _ hanswer => hresult ?_⟩
      rw [InvocationMutationOutput.answer, InvocationMutationOutput.resumeWith,
        Registers.get_assign] at hanswer
      cases result <;> first | rfl | cases hanswer
    obtain ⟨account, haccount, hbody⟩ := Except.bind_eq_ok.mp hbody
    split at hbody
    · cases hbody
      exact .inl ⟨rfl, fun hresume => by cases hresume⟩
    · next preimageHash _ =>
      obtain ⟨ejected?, hejected, hbody⟩ := Except.bind_eq_ok.mp hbody
      cases ejected? with
      | none => exact .inl (hrefused .who (by decide) hbody)
      | some ejected =>
        simp only at hbody
        obtain ⟨availability, havailability, hbody⟩ := Except.bind_eq_ok.mp hbody
        split at hbody
        · exact .inl (hrefused .who (by decide) hbody)
        · next hcode =>
          split at hbody
          · next hitems =>
            split at hbody
            · next hexpunged =>
              obtain ⟨services, hservices, hbody⟩ := Except.bind_eq_ok.mp hbody
              cases hbody
              have hd : registers.get 7 ≠ x.context.serviceAccountId ∧
                  x.services.retrieveServiceAccount (registers.get 7) = .ok ejected := by
                rw [retrieveEjected] at hejected
                split at hejected
                · next hd => exact ⟨hd, orNone_eq_some hejected⟩
                · cases hejected
              exact .inr ⟨services, rfl, hd.1, account, ejected, preimageHash, _, _, _,
                liftHost_eq_ok haccount, hd.2, not_not.mp hcode, by simpa using hitems, rfl,
                orNone_eq_some havailability, hexpunged, storeEjection_eq_ok (liftHost_eq_ok hservices)⟩
            · exact .inl (hrefused .huh (by decide) hbody)
          · exact .inl (hrefused .huh (by decide) hbody)

lemma hcEject_step (h : hcEject env registers memory x out = .ok (out', x')) : Step env x x' := by
  rcases hcEject_eq_ok h with ⟨rfl, -⟩ | ⟨services', rfl, hejects⟩
  · exact .refl env x'
  · exact .of_setServices hejects.effect

lemma hcSolicit_step (h : hcSolicit env registers memory x out = .ok (out', x')) :
    Step env x x' := by
  rcases hostcall_eq_ok h with rfl | ⟨out₁, hbody⟩
  · exact .refl env x'
  · simp only at hbody
    split at hbody
    · cases hbody
      exact .refl env x
    · next hlength =>
      obtain ⟨account, haccount, hbody⟩ := Except.bind_eq_ok.mp hbody
      have hown := liftHost_eq_ok haccount
      split at hbody
      · cases hbody
        exact .refl env x
      · next preimageHash _ =>
        obtain ⟨availability, havailability, hbody⟩ := Except.bind_eq_ok.mp hbody
        cases availability with
        | none =>
          simp only [Option.isNone_none, if_true, Option.any_none, Bool.false_eq_true, if_false]
            at hbody
          split at hbody
          · cases hbody
            exact .refl env x
          · next hcash =>
            obtain ⟨services₁, hservices₁, hbody⟩ := Except.bind_eq_ok.mp hbody
            obtain ⟨services₂, hservices₂, hbody⟩ := Except.bind_eq_ok.mp hbody
            cases hbody
            rw [storeServiceAccount_pending (liftHost_eq_ok hservices₂),
              storePreimageAvailability_pending (liftHost_eq_ok hservices₁)]
            exact .of_setServices (.request hown (not_le.mp hlength)
              (orNone_eq_none havailability) (not_lt.mp hcash))
        | some history =>
          simp only [Option.isNone_some, Bool.false_eq_true, if_false, Option.any_some,
            decide_eq_true_eq] at hbody
          split at hbody
          · cases hbody
            exact .refl env x
          · next hhistory =>
            split at hbody
            · cases hbody
              exact .refl env x
            · next hcash =>
              obtain ⟨services₁, hservices₁, hbody⟩ := Except.bind_eq_ok.mp hbody
              obtain ⟨services₂, hservices₂, hbody⟩ := Except.bind_eq_ok.mp hbody
              cases hbody
              rw [storeServiceAccount_pending (liftHost_eq_ok hservices₂),
                storePreimageAvailability_pending (liftHost_eq_ok hservices₁)]
              exact .of_setServices (.renew hown (orNone_eq_some havailability)
                (not_not.mp hhistory) (not_lt.mp hcash))

/-- The services after a request is forgotten. -/
lemma storeForgotten_eq_ok {services services' : ServicesState} {service z : ℕ}
    {account : ServiceAccount} {preimageHash : Octets32}
    (h : storeForgotten services service account preimageHash z = .ok services') :
    services' = ((services.setPendingAvailability service preimageHash z none).setPendingPreimage
      service preimageHash none).setPendingAccount service
        (some (account.updateFootprintRemovePreimage z)) := by
  rw [storeForgotten, Except.bind_eq_ok] at h
  obtain ⟨services₁, h₁, h⟩ := h
  obtain ⟨services₂, h₂, h⟩ := Except.bind_eq_ok.mp h
  rw [storeServiceAccount_pending h, deletePreimage_pending h₂,
    deletePreimageAvailability_pending h₁]

lemma hcForget_step (h : hcForget env registers memory x out = .ok (out', x')) :
    Step env x x' := by
  rcases hostcall_eq_ok h with rfl | ⟨out₁, hbody⟩
  · exact .refl env x'
  · simp only at hbody
    split at hbody
    · cases hbody
      exact .refl env x
    · obtain ⟨account, haccount, hbody⟩ := Except.bind_eq_ok.mp hbody
      split at hbody
      · cases hbody
        exact .refl env x
      · obtain ⟨availability, havailability, hbody⟩ := Except.bind_eq_ok.mp hbody
        cases availability with
        | none =>
          cases hbody
          exact .refl env x
        | some history =>
          have hpresent := orNone_eq_some havailability
          cases hdecision : forgetDecision env x.timeslot history with
          | remove =>
            rw [Option.map_some, hdecision] at hbody
            obtain ⟨services, hservices, hbody⟩ := Except.bind_eq_ok.mp hbody
            cases hbody
            rw [storeForgotten_eq_ok (liftHost_eq_ok hservices)]
            exact .of_setServices (.forget (liftHost_eq_ok haccount) hpresent hdecision)
          | replace history' =>
            rw [Option.map_some, hdecision] at hbody
            obtain ⟨services, hservices, hbody⟩ := Except.bind_eq_ok.mp hbody
            cases hbody
            rw [storePreimageAvailability_pending (liftHost_eq_ok hservices)]
            exact .of_setServices (.retire hpresent hdecision)
          | refuse =>
            rw [Option.map_some, hdecision] at hbody
            cases hbody
            exact .refl env x

/-- The services after a write. -/
lemma storeWrite_eq_ok {services services' : ServicesState} {service : ℕ}
    {account : ServiceAccount} {key : Octets} {value : Option Octets}
    (h : storeWrite services service account key value = .ok services') :
    services' = (services.setPendingStorageItem service key value).setPendingAccount service
      (some account) := by
  unfold storeWrite at h
  cases value with
  | none =>
    obtain ⟨services₁, h₁, h⟩ := Except.bind_eq_ok.mp h
    rw [storeServiceAccount_pending h, deleteStorageItem_pending h₁]
  | some value =>
    obtain ⟨services₁, h₁, h⟩ := Except.bind_eq_ok.mp h
    rw [storeServiceAccount_pending h, storeStorageItem_pending h₁]

lemma orNone_eq_ok {α : Type} {y : Except ServiceError α} {a : Option α} (h : orNone y = .ok a) :
    y = ofItem a := by
  cases a with
  | none => exact orNone_eq_none h
  | some a => exact orNone_eq_some h

/-- No empty value is written. -/
lemma readWriteValue_ne_nil {address length : ℕ} {value : Option Octets}
    (h : readWriteValue memory address length = some value) : value ≠ some [] := by
  unfold readWriteValue at h
  split at h
  · cases h
    exact nofun
  · next hlength =>
    obtain ⟨data, hdata, rfl⟩ := Option.map_eq_some_iff.mp h
    intro hnil
    have hdatalen := Memory.length_of_readBytes hdata
    rw [Option.some.inj hnil] at hdatalen
    exact hlength hdatalen.symm

lemma hcWrite_step (h : hcWrite registers memory x out = .ok (out', x')) : Step env x x' := by
  rcases hostcall_eq_ok h with rfl | ⟨out₁, hbody⟩
  · exact .refl env x'
  · obtain ⟨account, haccount, hbody⟩ := Except.bind_eq_ok.mp hbody
    split at hbody
    · cases hbody
      exact .refl env x
    · obtain ⟨old, hold, hbody⟩ := Except.bind_eq_ok.mp hbody
      split at hbody
      · cases hbody
        exact .refl env x
      · next value hvalue =>
        simp only at hbody
        split at hbody
        · cases hbody
          exact .refl env x
        · next hcash =>
          obtain ⟨services, hservices, hbody⟩ := Except.bind_eq_ok.mp hbody
          cases hbody
          rw [storeWrite_eq_ok (liftHost_eq_ok hservices)]
          exact .of_setServices (.write (liftHost_eq_ok haccount) (orNone_eq_ok hold)
            (readWriteValue_ne_nil hvalue) (not_lt.mp hcash))

/-- Every host call that returns makes a step. -/
theorem execute_step {call : HostCall} {gasLimit : ℤ}
    (h : execute env call gasLimit registers memory x = .ok (out', x')) : Step env x x' := by
  unfold execute at h
  cases call with
  | bless => exact hcBless_step h
  | assign => exact hcAssign_step h
  | designate => exact hcDesignate_step h
  | checkpoint => exact hcCheckpoint_step h
  | new => exact hcNew_step h
  | upgrade => exact hcUpgrade_step h
  | transfer => exact hcTransfer_step h
  | eject => exact hcEject_step h
  | query => exact hcQuery_step h
  | solicit => exact hcSolicit_step h
  | forget => exact hcForget_step h
  | yield => exact hcYield_step h
  | provide => exact hcProvide_step h
  | write => exact hcWrite_step h

end Calls

end HostCalls
