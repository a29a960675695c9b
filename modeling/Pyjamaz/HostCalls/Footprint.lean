import Pyjamaz.HostCalls.Views

/-!
# Footprints

The footprint of an account decides about its deposit and about whether it may be ejected.  It is kept
in two counters that every host call, provision and extrinsic has to update.

`footprints_kept` says that they all do, where no entries lie about without an account and no request
with the length `2 ^ 32 - 2` or `2 ^ 32 - 1` is made or forgotten.  Both conditions are needed
(`sampleCalls_break_footprints`): a new account takes over what lies at its id, and forgetting a request
of such a length takes the bytes of a preimage or of a storage item for the request.
-/

namespace HostCalls

open Accumulation Services Octets

variable {coreCount : ℕ}

/-- The counters of every account count its entries, no storage value is empty, and there are no
entries without an account. -/
def WellFooted (P : Primitives) (st : ServicesState) : Prop := ∀ s, (st.view P s).WellFooted

lemma WellFooted.of_changes {P : Primitives} {timeslot expungePeriod : ℕ} {st st' : ServicesState}
    (h : WellFooted P st)
    (hchanges : ∀ t, (st.view P t).Changes P timeslot expungePeriod (st'.view P t)) :
    WellFooted P st' :=
  fun s => (h s).changes (hchanges s)

/-- The counters of every account count its entries, and no storage value is empty. -/
def FootprintsMatch (P : Primitives) (st : ServicesState) : Prop :=
  ∀ s, (∀ a, st.retrieveServiceAccount s = .ok a → Footprint (st.view P s).request
    (st.view P s).storageItem a.footprintStorageItems a.footprintStorageBytes) ∧
    ∀ key, (st.view P s).storageItem key ≠ some []

/-! ## Services with pending requests only -/

/-- A store that holds nothing but preimages. -/
lemma read_of_preimages {engine : Dict StateKey Octets}
    (hengine : ∀ key data, engine.get? key = some data → key.keyClass = .preimage)
    {key : StateKey} (hkey : key.keyClass ≠ .preimage) :
    Store.read (.init engine) key = .ok none := by
  have hget : engine.get? key = none := by
    cases h : engine.get? key with
    | none => rfl
    | some data => exact absurd (hengine key data h) hkey
  have hraw : Store.read (.init engine) key = .ok (engine.get? key) := rfl
  rw [hraw, hget]

/-- Services over a store that holds nothing but preimages have the storage items and the requests
that are pending. -/
lemma view_of_preimages (P : Primitives) {engine : Dict StateKey Octets}
    (hengine : ∀ key data, engine.get? key = some data → key.keyClass = .preimage)
    (pending : PendingChanges) (hitems : pending.storageItems = ∅) (s : ℕ) :
    (∀ key, (ServicesState.view P ⟨.init engine, pending, ∅⟩ s).storageItem key = none) ∧
      ∀ r, (ServicesState.view P ⟨.init engine, pending, ∅⟩ s).request r =
        if r.2 < 2 ^ 32 - 2 ∧ s < 2 ^ 32 then
          (pending.preimagesAvailability.get? (s, r.1, r.2)).join
        else none := by
  have hread : ∀ key : StateKey, key.keyClass ≠ .preimage →
      Store.read (.init engine) key = .ok none := fun key => read_of_preimages hengine
  have hitem : ∀ key, Store.storageItem (.init engine) s key =
      if s < 2 ^ 32 then .error .noResult else .error .overflow := by
    intro key
    by_cases hs : s < 2 ^ 32
    · have hclass : (storageItemKind.key (s, key)).keyClass ≠ .preimage := by
        rw [storageItemKind.keyClass_key (k := (s, key)) hs]
        exact nofun
      rw [if_pos hs]
      exact storageItemKind.stored_none (k := (s, key)) hs (hread _ hclass)
    · rw [Store.storageItem_eq, if_neg hs, if_neg hs]
  constructor
  · intro key
    change (readOverlay (pending.storageItems.get? (s, key)) _).toOption = none
    rw [hitems, Dict.get?_empty, readOverlay, hitem]
    split <;> rfl
  · intro r
    by_cases hfits : r.2 < 2 ^ 32 - 2 ∧ s < 2 ^ 32
    · have hclass : ((availabilityKind P).key (s, r)).keyClass ≠ .preimage := by
        rw [(availabilityKind P).keyClass_key (k := (s, r)) hfits]
        exact nofun
      have hstored : Store.preimageAvailability P (.init engine) s r.1 r.2 = .error .noResult :=
        (availabilityKind P).stored_none (k := (s, r)) hfits (hread _ hclass)
      rw [if_pos hfits]
      simp only [ServicesState.view, if_pos hfits.1]
      rw [ServicesState.retrievePreimageAvailability, if_pos ⟨hfits.2, by omega⟩, hstored]
      cases pending.preimagesAvailability.get? (s, r.1, r.2) with
      | none => rfl
      | some v => exact (congrArg _ (readOverlay_some v _)).trans (toOption_ofItem v)
    · rw [if_neg hfits]
      simp only [ServicesState.view]
      split
      · next hz =>
        rw [ServicesState.retrievePreimageAvailability, if_neg (fun h => hfits ⟨hz, h.1⟩)]
        rfl
      · rfl

/-- Over a store of preimages the accounts are the pending ones. -/
lemma only_account {engine : Dict StateKey Octets}
    (hengine : ∀ key data, engine.get? key = some data → key.keyClass = .preimage)
    {pending : PendingChanges} {account : ServiceAccount}
    (haccounts : pending.serviceAccounts = Dict.insert ∅ 5 (some account)) {s : ℕ}
    {a : ServiceAccount}
    (ha : ServicesState.retrieveServiceAccount ⟨.init engine, pending, ∅⟩ s = .ok a) :
    s = 5 ∧ a = account := by
  by_cases hs : s = 5
  · subst hs
    change readOverlay (pending.serviceAccounts.get? 5) _ = .ok a at ha
    rw [haccounts, Dict.get?_insert_self] at ha
    exact ⟨rfl, (Except.ok.inj ha).symm⟩
  · have hstored : Store.serviceAccount (.init engine) s = .error .noResult :=
      accountKind.stored_none (k := s) trivial (read_of_preimages hengine nofun)
    rw [ServicesState.retrieveServiceAccount, haccounts, Dict.get?_insert_of_ne _ hs,
      Dict.get?_empty, readOverlay, hstored, ite_self] at ha
    cases ha

/-- Service 5 is the only one with an account, and its footprint is that of the pending requests. -/
lemma match_of_preimages (P : Primitives) {engine : Dict StateKey Octets}
    (hengine : ∀ key data, engine.get? key = some data → key.keyClass = .preimage)
    {pending : PendingChanges} {account : ServiceAccount} (hitems : pending.storageItems = ∅)
    (haccounts : pending.serviceAccounts = Dict.insert ∅ 5 (some account))
    (hfootprint : Footprint (fun r => if r.2 < 2 ^ 32 - 2 ∧ 5 < 2 ^ 32 then
        (pending.preimagesAvailability.get? (5, r.1, r.2)).join
      else none) (fun _ => none) account.footprintStorageItems account.footprintStorageBytes) :
    FootprintsMatch P ⟨.init engine, pending, ∅⟩ := by
  intro s
  obtain ⟨hitem, hrequest⟩ := view_of_preimages P hengine pending hitems s
  refine ⟨?_, fun key h => absurd ((hitem key).symm.trans h) nofun⟩
  intro a ha
  obtain ⟨rfl, rfl⟩ := only_account hengine haccounts ha
  rw [funext hrequest, funext hitem]
  exact hfootprint

lemma sampleState_footed : WellFooted sampleEnvironment.primitives sampleState.services := by
  have hengine : ∀ key data, (∅ : Dict StateKey Octets).get? key = some data →
      key.keyClass = .preimage := nofun
  have hmatch : FootprintsMatch sampleEnvironment.primitives sampleState.services := by
    refine match_of_preimages _ hengine rfl rfl (.of_none (fun r => ?_) (fun _ => rfl))
    exact ite_self none
  intro s
  obtain ⟨hitem, hrequest⟩ := view_of_preimages sampleEnvironment.primitives hengine
    sampleServices.pendingChanges rfl s
  exact ⟨(hmatch s).1, (hmatch s).2,
    fun _ => ⟨fun r => (hrequest r).trans (ite_self none), hitem⟩⟩

/-! ## Footprints that are kept -/

/-- Host calls in any order, with any registers and any memory, whatever they answer, keep the
footprints of the services of an invocation, and so do the integration of provided preimages and the
preimages extrinsic.  No request of `2 ^ 32 - 2` or more bytes is made or forgotten, and no preimage is
that long. -/
theorem footprints_kept (env : Environment) (timeslot : ℕ) :
    (∀ (state : AccumulationStateComponents coreCount) (service checkPayload : ℕ)
      (inputs : List AccumulationInput) (services : ServicesState) (code : Octets)
      (x₀ x : AccumulateInvocationContext coreCount), PendingNonneg state.services →
      creditAndLookup state.services service inputs = .ok (services, some code) →
      createFromAccumulationState env { state with services := services } service checkPayload
        timeslot = .ok x₀ → Calls env x₀ x → WellFooted env.primitives state.services →
        (ShortRequests x.services → WellFooted env.primitives x.services) ∧
          (ShortRequests x.savepointContext.services →
            WellFooted env.primitives x.savepointContext.services)) ∧
    (∀ (outputs : Outputs coreCount) (st st' : ServicesState), WellFooted env.primitives st →
      (∀ p ∈ provisionsOf outputs, p.2.length < 2 ^ 32 - 2) →
      integrateProvisions env.primitives timeslot outputs st = .ok st' →
        WellFooted env.primitives st') ∧
    ∀ (extrinsicPreimages : List (ℕ × Octets)) (st st' : ServicesState),
      WellFooted env.primitives st → (∀ p ∈ extrinsicPreimages, p.2.length < 2 ^ 32 - 2) →
      stateTransitionAfterPreimages env.primitives timeslot extrinsicPreimages st = .ok st' →
        WellFooted env.primitives st' := by
  refine ⟨?_, ?_, ?_⟩
  · intro state service checkPayload inputs services code x₀ x hnonneg hcredit hcreate hcalls hfooted
    obtain ⟨hcontext, hsavepoint⟩ :=
      derived_of_start (fun _ _ => hnonneg.retrieve) hcredit hcreate hcalls
    exact ⟨fun hshort => hfooted.of_changes (fun t => hcontext.changes t (hshort.of t)),
      fun hshort => hfooted.of_changes (fun t => hsavepoint.changes t (hshort.of t))⟩
  · intro outputs st st' hfooted hlength h
    have hchanges : ∀ t, (st.view env.primitives t).Changes env.primitives timeslot
        env.expungePeriod (st'.view env.primitives t) :=
      fun t => integrateProvisions_changes (fun p hp _ => hlength p hp) h
    exact hfooted.of_changes hchanges
  · intro extrinsicPreimages st st' hfooted hlength h
    have hchanges : ∀ t, (st.view env.primitives t).Changes env.primitives timeslot
        env.expungePeriod (st'.view env.primitives t) :=
      fun t => afterPreimages_changes (fun p hp _ => hlength p hp) h
    exact hfooted.of_changes hchanges

/-- The registers to request a preimage of one byte. -/
def sampleSolicitRegisters : Registers := #v[0, 0, 0, 0, 0, 0, 0, 65536, 1, 0, 0, 0, 0]

/-- An output that provides a byte for service 5. -/
def sampleProvision : PvmAccumulateOutput 0 where
  stateContext := sampleState
  deferredTransfers := []
  accumulationOutput := none
  gasUsed := 0
  preimages := [(5, [7])]

/-- Service 5 requests a preimage, and it is provided, or it comes with the block: the footprints
are kept. -/
theorem sampleSolicit_keeps_footprints :
    ∃ x st₁ st₂, Calls sampleEnvironment sampleInvocation x ∧
      integrateProvisions sampleEnvironment.primitives 1 [(5, sampleProvision)] x.services =
        .ok st₁ ∧
      stateTransitionAfterPreimages sampleEnvironment.primitives 1 [(5, [7])] x.services =
        .ok st₂ ∧
      WellFooted sampleEnvironment.primitives x.services ∧
      WellFooted sampleEnvironment.primitives st₁ ∧
      WellFooted sampleEnvironment.primitives st₂ := by
  obtain ⟨hruns, hprovisions, hpreimages⟩ := @footprints_kept 0 sampleEnvironment 1
  have hcall : ∃ out x, execute sampleEnvironment .solicit 10000 sampleSolicitRegisters
      sampleMemory sampleInvocation = .ok (out, x) ∧
      x.services.pendingChanges.preimagesAvailability =
        Dict.insert ∅ (5, Vector.replicate 32 0, 1) (some []) ∧
      (∃ st₁, integrateProvisions sampleEnvironment.primitives 1 [(5, sampleProvision)]
        x.services = .ok st₁) ∧
      ∃ st₂, stateTransitionAfterPreimages sampleEnvironment.primitives 1 [(5, [7])]
        x.services = .ok st₂ := ⟨_, _, rfl, rfl, ⟨_, rfl⟩, ⟨_, rfl⟩⟩
  obtain ⟨out, x, hcall, hpending, ⟨st₁, hst₁⟩, ⟨st₂, hst₂⟩⟩ := hcall
  have hcalls : Calls sampleEnvironment sampleInvocation x := .call (.none _) hcall
  have hshort : ShortRequests x.services := fun k =>
    PendingChanges.shortRequestsOf_of_single hpending (by decide) k.2
  have hfooted : WellFooted sampleEnvironment.primitives x.services :=
    (hruns sampleState 5 0 sampleInputs sampleCredited [1] sampleInvocation x sampleState_nonneg rfl
      rfl hcalls sampleState_footed).1 hshort
  have hlength : ∀ p ∈ [((5, [7]) : ℕ × Octets)], p.2.length < 2 ^ 32 - 2 := by simp
  exact ⟨x, st₁, st₂, hcalls, hst₁, hst₂, hfooted, hprovisions [(5, sampleProvision)] _ _ hfooted hlength hst₁,
    hpreimages _ _ _ hfooted hlength hst₂⟩

/-! ## Footprints that break -/

/-- Service 5 is rich and has no entries; a request lies at the id 65536, which has no account. -/
def sampleStray : ServicesState :=
  ⟨.init ∅, ⟨Dict.insert ∅ 5 (some { sampleAccount with balance := 100000 }), ∅, ∅,
    Dict.insert ∅ (2 ^ 16, Vector.replicate 32 0, 7) (some [3])⟩, ∅⟩

/-- The context of service 5 over these services. -/
def sampleContext (services : ServicesState) : AccumulateInvocationContext 0 :=
  let context := initialContext { sampleState with services := services } 5 (2 ^ 16)
  ⟨context, context, 1⟩

/-- The registers for a new account with a code of one byte. -/
def sampleNewRegisters : Registers := #v[0, 0, 0, 0, 0, 0, 0, 65536, 1, 0, 0, 0, 65536]

/-- Service 5 has one request; the preimage stored for it is at the key of another request, whose
length is the tag of preimages. -/
def sampleTagged : ServicesState :=
  ⟨.init (Dict.insert ∅ (.serviceValue 5 (littleEndian 4 (2 ^ 32 - 2) ++ List.replicate 32 0)) [0]),
    ⟨Dict.insert ∅ 5 (some { sampleAccount with
        footprintStorageItems := 2, footprintStorageBytes := 82 }), ∅, ∅,
      Dict.insert ∅ (5, Vector.replicate 32 0, 1) (some [3])⟩, ∅⟩

/-- The registers to forget that other request. -/
def sampleForgetRegisters : Registers := #v[0, 0, 0, 0, 0, 0, 0, 65536, 2 ^ 32 - 2, 0, 0, 0, 0]

lemma sampleStray_match : FootprintsMatch sampleEnvironment.primitives sampleStray := by
  have hengine : ∀ key data, (∅ : Dict StateKey Octets).get? key = some data →
      key.keyClass = .preimage := nofun
  refine match_of_preimages _ hengine rfl rfl (.of_none (fun r => ?_) (fun _ => rfl))
  have hne : (5, r.1, r.2) ≠ (2 ^ 16, Vector.replicate 32 0, 7) := fun h => by simp at h
  have hget : sampleStray.pendingChanges.preimagesAvailability.get? (5, r.1, r.2) = none :=
    Dict.get?_insert_of_ne _ hne _
  change (if _ then (sampleStray.pendingChanges.preimagesAvailability.get? _).join else none) = none
  rw [hget, Option.join_none, ite_self]

/-- Only the preimage is in the store. -/
lemma sampleTagged_stored (key : StateKey) (data : Octets)
    (h : (Dict.insert (∅ : Dict StateKey Octets) (.serviceValue 5
      (littleEndian 4 (2 ^ 32 - 2) ++ List.replicate 32 0)) [0]).get? key = some data) :
    key.keyClass = .preimage := by
  rw [Dict.get?_insert] at h
  split at h
  · next hkey =>
    rw [hkey]
    rfl
  · cases h

lemma sampleTagged_match : FootprintsMatch sampleEnvironment.primitives sampleTagged := by
  have hone := (Footprint.of_none (fun _ => rfl) (fun _ => rfl)).setRequest
    ((Vector.replicate 32 0, 1) : Octets32 × ℕ) (some [3])
  have hrequest : (fun r : Octets32 × ℕ => if r.2 < 2 ^ 32 - 2 ∧ 5 < 2 ^ 32 then
        (sampleTagged.pendingChanges.preimagesAvailability.get? (5, r.1, r.2)).join
      else none) = Function.update (fun _ => none) (Vector.replicate 32 0, 1) (some [3]) := by
    funext r
    by_cases hr : r = (Vector.replicate 32 0, 1)
    · subst hr
      rw [Function.update_self]
      rfl
    · have hne : (5, r.1, r.2) ≠ (5, Vector.replicate 32 0, 1) :=
        fun h => hr (congrArg Prod.snd h)
      have hget : sampleTagged.pendingChanges.preimagesAvailability.get? (5, r.1, r.2) = none :=
        Dict.get?_insert_of_ne _ hne _
      rw [hget, Function.update_of_ne hr, Option.join_none, ite_self]
  refine match_of_preimages _ sampleTagged_stored rfl rfl ?_
  change Footprint (fun r : Octets32 × ℕ => if r.2 < 2 ^ 32 - 2 ∧ 5 < 2 ^ 32 then
      (sampleTagged.pendingChanges.preimagesAvailability.get? (5, r.1, r.2)).join
    else none) _ 2 82
  rw [hrequest]
  exact hone

/-- The footprints match before, and after the call they do not: a new account takes over a request
that lies at its id, and forgetting a request with the tag of preimages as its length leaves a
footprint of nothing although there is another request. -/
theorem sampleCalls_break_footprints :
    (FootprintsMatch sampleEnvironment.primitives (sampleContext sampleStray).services ∧
      ∃ x, Calls sampleEnvironment (sampleContext sampleStray) x ∧
        ¬ FootprintsMatch sampleEnvironment.primitives x.services) ∧
    (FootprintsMatch sampleEnvironment.primitives (sampleContext sampleTagged).services ∧
      ∃ x, Calls sampleEnvironment (sampleContext sampleTagged) x ∧
        ¬ FootprintsMatch sampleEnvironment.primitives x.services) := by
  refine ⟨⟨sampleStray_match, ?_⟩, ⟨sampleTagged_match, ?_⟩⟩
  · have hcall : ∃ out x, execute sampleEnvironment .new 10000 sampleNewRegisters sampleMemory
        (sampleContext sampleStray) = .ok (out, x) ∧
        (∃ a, x.services.retrieveServiceAccount (2 ^ 16) = .ok a ∧ a.footprintStorageItems = 2) ∧
        x.services.retrievePreimageAvailability sampleEnvironment.primitives (2 ^ 16)
          (Vector.replicate 32 0) 1 = .ok [] ∧
        x.services.retrievePreimageAvailability sampleEnvironment.primitives (2 ^ 16)
          (Vector.replicate 32 0) 7 = .ok [3] := ⟨_, _, rfl, ⟨_, rfl, rfl⟩, rfl, rfl⟩
    obtain ⟨out, x, hcall, ⟨a, ha, hitems⟩, hone, hseven⟩ := hcall
    refine ⟨x, .call (.none _) hcall, fun hmatch => ?_⟩
    have hfootprint := (hmatch (2 ^ 16)).1 a ha
    rw [hitems] at hfootprint
    have hnone := (hfootprint.eq_none_of_two (request_of_retrieve (by decide) hone).2).1
      (Vector.replicate 32 0, 7) (by simp)
    rw [(request_of_retrieve (by decide) hseven).2] at hnone
    cases hnone
  · have hcall : ∃ out x, execute sampleEnvironment .forget 10000 sampleForgetRegisters
        sampleMemory (sampleContext sampleTagged) = .ok (out, x) ∧
        (∃ a, x.services.retrieveServiceAccount 5 = .ok a ∧ a.footprintStorageItems = 0) ∧
        x.services.retrievePreimageAvailability sampleEnvironment.primitives 5
          (Vector.replicate 32 0) 1 = .ok [3] := ⟨_, _, rfl, ⟨_, rfl, rfl⟩, rfl⟩
    obtain ⟨out, x, hcall, ⟨a, ha, hitems⟩, hone⟩ := hcall
    refine ⟨x, .call (.none _) hcall, fun hmatch => ?_⟩
    obtain ⟨n, -, m, -, hn, -, hm, -, hsum, -⟩ := (hmatch 5).1 a ha
    have hpos := hn.pos_of_some (request_of_retrieve (by decide) hone).2
    have hnonneg := hm.nonneg
    omega

end HostCalls
