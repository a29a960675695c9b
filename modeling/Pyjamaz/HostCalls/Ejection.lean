import Pyjamaz.Accumulation.MergedAccounts
import Pyjamaz.HostCalls.Preimages

/-!
# Ejected accounts

An ejection deletes an account, one request and one preimage.  That this is everything the account has
follows from its footprint, which counts two items for a request, and from its preimages, each of which
has a request.  The merge turns whatever the other outputs of the round say about the account into
deletions, and provisions skip it: after the round nothing can be read of it (`eject_leaves_nothing`).

The result is about ejections that the invocation stands by: when it panics after the call, or creates
the service again, the merge takes the service for one that was never gone, and its old account
survives with all it has.  And a request of `2 ^ 32 - 2` or more bytes shares its place in the store
with a preimage or a storage item, so that two storage items can pass for it
(`sampleEjections_leave_something`).
-/

namespace HostCalls

open Accumulation Services Octets

variable {coreCount : ℕ}

/-! ## Services that read the same -/

/-- Two states that answer every read about a service alike, whatever the length of a request. -/
structure SameReadsOf (P : Primitives) (st st' : ServicesState) (s : ℕ) : Prop where
  account : st'.retrieveServiceAccount s = st.retrieveServiceAccount s
  storageItem : ∀ key, st'.retrieveStorageItem s key = st.retrieveStorageItem s key
  preimage : ∀ preimageHash, st'.retrievePreimage s preimageHash = st.retrievePreimage s preimageHash
  availability : ∀ preimageHash z, st'.retrievePreimageAvailability P s preimageHash z =
    st.retrievePreimageAvailability P s preimageHash z

section Reads

variable {P : Primitives} {s : ℕ}

/-- Pending changes and writes that do not touch a service. -/
lemma sameReadsOf_writeAll {storage : Store} {pending pending' : PendingChanges}
    {writes : List StoreWrite} {held held' : Finset ℕ} (hagree : AgreeOn s pending' pending)
    (hother : ∀ w ∈ writes, ¬ w.1.OfService s) :
    SameReadsOf P ⟨storage, pending, held⟩ ⟨Store.writeAll storage writes, pending', held'⟩ s := by
  have hread : ∀ key : StateKey, key.OfService s →
      Store.read (Store.writeAll storage writes) key = storage.read key := by
    intro key hkey
    apply Store.read_writeAll_of_ne
    rintro w hw rfl
    exact hother w hw hkey
  have havailability : ∀ preimageHash z,
      pending'.preimagesAvailability.get? (s, preimageHash, z) =
        pending.preimagesAvailability.get? (s, preimageHash, z) :=
    fun preimageHash z => hagree.availability (preimageHash, z)
  refine ⟨?_, ?_, ?_, ?_⟩
  · simp only [ServicesState.retrieveServiceAccount, hagree.account, Store.serviceAccount_eq,
      hread (.serviceAccount s) rfl]
  · intro key
    simp only [ServicesState.retrieveStorageItem, hagree.storageItem, Store.storageItem_eq,
      hread (.serviceValue s _) rfl]
  · intro preimageHash
    simp only [ServicesState.retrievePreimage, hagree.preimage, Store.preimage_eq,
      hread (.serviceValue s _) rfl]
  · intro preimageHash z
    simp only [ServicesState.retrievePreimageAvailability, havailability,
      Store.preimageAvailability_eq, hread (.serviceValue s _) rfl]

/-- Pending changes alone. -/
lemma sameReadsOf_agreeOn {storage : Store} {pending pending' : PendingChanges}
    {held held' : Finset ℕ} (hagree : AgreeOn s pending' pending) :
    SameReadsOf P ⟨storage, pending, held⟩ ⟨storage, pending', held'⟩ s := by
  have hnone : ∀ w ∈ ([] : List StoreWrite), ¬ w.1.OfService s := nofun
  exact sameReadsOf_writeAll hagree hnone

lemma SameReadsOf.view_eq {st st' : ServicesState} (h : SameReadsOf P st st' s) :
    st'.view P s = st.view P s := by
  simp only [ServicesState.view, h.account, h.storageItem, h.preimage, h.availability]

end Reads

section Pending

variable (st : ServicesState) {s t : ℕ}

lemma agreeOn_setPendingAccount (h : t ≠ s) (account : Option ServiceAccount) :
    AgreeOn t (st.setPendingAccount s account).pendingChanges st.pendingChanges where
  account := Dict.get?_insert_of_ne _ h _
  storageItem _ := rfl
  preimage _ := rfl
  availability _ := rfl

lemma agreeOn_setPendingPreimage (h : t ≠ s) (preimageHash : Octets32) (value : Option Octets) :
    AgreeOn t (st.setPendingPreimage s preimageHash value).pendingChanges st.pendingChanges where
  account := rfl
  storageItem _ := rfl
  preimage _ := Dict.get?_insert_of_ne _ (fun heq => h (congrArg Prod.fst heq)) _
  availability _ := rfl

lemma agreeOn_setPendingAvailability (h : t ≠ s) (preimageHash : Octets32) (z : ℕ)
    (value : Option (List ℕ)) :
    AgreeOn t (st.setPendingAvailability s preimageHash z value).pendingChanges
      st.pendingChanges where
  account := rfl
  storageItem _ := rfl
  preimage _ := rfl
  availability _ := Dict.get?_insert_of_ne _ (fun heq => h (congrArg Prod.fst heq)) _

end Pending

/-! ## The call -/

section Call

variable {env : Environment} {timeslot : ℕ}

/-- An ejection leaves every account alone but that of the caller and the one that is ejected. -/
lemma Ejects.sameReadsOf {c : AccumulateContextItem coreCount} {d : ℕ} {services' : ServicesState}
    (h : Ejects env timeslot c d services') {t : ℕ} (hd : t ≠ d) (ht : t ≠ c.serviceAccountId) :
    SameReadsOf env.primitives c.services services' t := by
  obtain ⟨-, account, ejected, preimageHash, l, a, y, -, -, -, -, -, -, -, rfl⟩ := h
  refine sameReadsOf_agreeOn ?_
  have h₁ := agreeOn_setPendingPreimage c.services hd preimageHash none
  have h₂ := agreeOn_setPendingAvailability (c.services.setPendingPreimage d preimageHash none) hd
    preimageHash l none
  have h₃ := agreeOn_setPendingAccount ((c.services.setPendingPreimage d preimageHash
    none).setPendingAvailability d preimageHash l none) hd none
  have h₄ := agreeOn_setPendingAccount (((c.services.setPendingPreimage d preimageHash
    none).setPendingAvailability d preimageHash l none).setPendingAccount d none) ht
      (some { account with balance := account.balance + ejected.balance })
  exact ((h₄.trans h₃).trans h₂).trans h₁

end Call

/-! ## Services that are gone -/

/-- Nothing can be read of a service. -/
structure Gone (P : Primitives) (st : ServicesState) (s : ℕ) : Prop where
  account : st.retrieveServiceAccount s = .error .noResult
  storageItem : ∀ key value, st.retrieveStorageItem s key ≠ .ok value
  preimage : ∀ preimageHash blob, st.retrievePreimage s preimageHash ≠ .ok blob
  availability : ∀ preimageHash z history,
    st.retrievePreimageAvailability P s preimageHash z ≠ .ok history

section Gone

variable {P : Primitives} {s : ℕ} {st st' : ServicesState}

lemma Gone.of_sameReadsOf (h : Gone P st s) (hsame : SameReadsOf P st st' s) : Gone P st' s := by
  refine ⟨hsame.account.trans h.account, ?_, ?_, ?_⟩
  · intro key value
    rw [hsame.storageItem]
    exact h.storageItem key value
  · intro preimageHash blob
    rw [hsame.preimage]
    exact h.preimage preimageHash blob
  · intro preimageHash z history
    rw [hsame.availability]
    exact h.availability preimageHash z history

/-- Pending changes that say of a service only what is deleted. -/
structure Deletes (pending : PendingChanges) (s : ℕ) : Prop where
  account : pending.serviceAccounts.get? s = some none
  storageItem : ∀ key v, pending.storageItems.get? (s, key) = some v → v = none
  preimage : ∀ preimageHash v, pending.preimages.get? (s, preimageHash) = some v → v = none
  availability : ∀ r v, pending.preimagesAvailability.get? (s, r) = some v → v = none

lemma readOverlay_ne_ok {V : Type} {pending : Option (Option V)} {stored : Except ServiceError V}
    (hdeletion : ∀ v, pending = some v → v = none) (hstored : ∀ v, stored ≠ .ok v) (v : V) :
    readOverlay pending stored ≠ .ok v := by
  cases pending with
  | none => exact hstored v
  | some item =>
    rw [hdeletion item rfl]
    exact nofun

/-- Deletions leave nothing of what is not in the store. -/
lemma Gone.of_deletes (h : Gone P st.fresh s) (hdeletes : Deletes st.pendingChanges s) :
    Gone P st s := by
  refine ⟨?_, ?_, ?_, ?_⟩
  · rw [ServicesState.retrieveServiceAccount, hdeletes.account]
    exact ite_self _
  · exact fun key => readOverlay_ne_ok (hdeletes.storageItem key) (h.storageItem key)
  · exact fun preimageHash =>
      readOverlay_ne_ok (hdeletes.preimage preimageHash) (h.preimage preimageHash)
  · intro preimageHash z history
    have hstored := h.availability preimageHash z
    rw [retrievePreimageAvailability_eq_read]
    split
    · next hfits =>
      rw [ItemKind.read]
      refine readOverlay_ne_ok (hdeletes.availability (preimageHash, z)) ?_ history
      intro v hv
      refine hstored v ?_
      rw [retrievePreimageAvailability_eq_read, if_pos hfits]
      exact hv
    · intro heq
      cases heq

lemma ne_ok_of_toOption {V : Type} {x : Except ServiceError V} (h : x.toOption = none) (v : V) :
    x ≠ .ok v := by
  rintro rfl
  cases h

/-- Where no bytes are stored under a key, no history is. -/
lemma preimageAvailability_ne_ok {storage : Store} {preimageHash : Octets32} {z : ℕ}
    (h : ∀ data, storage.read (.serviceValue s (littleEndian 4 z ++ preimageHash.toList)) ≠
      .ok (some data)) (history : List ℕ) :
    storage.preimageAvailability P s preimageHash z ≠ .ok history := by
  rw [Store.preimageAvailability_eq]
  split
  · cases hread : storage.read (.serviceValue s (littleEndian 4 z ++ preimageHash.toList)) with
    | error e => exact nofun
    | ok data =>
      cases data with
      | none => exact nofun
      | some data => exact absurd hread (h data)
  · exact nofun

end Gone

/-! ## Committed deletions -/

section Committed

variable {P : Primitives} {s : ℕ} {existing : List ℕ} {outputs : Outputs coreCount}
  {storage : Store} {writes : List StoreWrite} {p : ℕ × PvmAccumulateOutput coreCount}

/-- The merge makes deletions of all that is said about a removed service. -/
lemma deletes_mergedChanges (hnodup : (outputs.map Prod.fst).Nodup)
    (hconf : ¬ Conflicting existing (accountEntries outputs))
    (hdel : s ∈ deletedServices existing outputs) : Deletes (mergedChanges existing outputs) s := by
  have hmap : ∀ {K V : Type} [DecidableEq K] (owner : K → ℕ)
      (map : PendingChanges → Dict K (Option V)) (key : K), owner key = s →
        ∀ v, (Dict.assign ∅ (mapWritesOf owner existing map outputs)).get? key = some v → v = none :=
    fun owner map key howner => (get?_mapWritesOf_of_deleted (howner ▸ hdel)).1
  exact ⟨get?_mergedAccounts_of_deleted hnodup hconf hdel,
    fun key => hmap Prod.fst PendingChanges.storageItems (s, key) rfl,
    fun preimageHash => hmap Prod.fst PendingChanges.preimages (s, preimageHash) rfl,
    fun r => hmap Prod.fst PendingChanges.preimagesAvailability (s, r) rfl⟩

/-- Of the keys of the service nothing is written but deletions. -/
lemma Deletes.deletion_of_write {pending : PendingChanges} (h : Deletes pending s)
    (hcommits : Commits P pending writes) :
    ∀ w ∈ writes, w.1.OfService s → w.2 = none := by
  intro w hw hservice
  rcases hcommits.only w hw with hfor | ⟨⟨t, r⟩, v, hget, hwrites⟩
  · cases hfor with
    | @account t v w hget hwrites =>
      rw [hwrites.2.1] at hservice
      obtain rfl : t = s := hservice
      obtain rfl := Option.some.inj (hget.symm.trans h.account)
      exact hwrites.deletion
    | @storageItem k v w hget hwrites =>
      rw [hwrites.2.1] at hservice
      obtain ⟨t, key⟩ := k
      obtain rfl : t = s := hservice
      obtain rfl := h.storageItem key v hget
      exact hwrites.deletion
    | @preimage k v w hget hwrites =>
      rw [hwrites.2.1] at hservice
      obtain ⟨t, preimageHash⟩ := k
      obtain rfl : t = s := hservice
      obtain rfl := h.preimage preimageHash v hget
      exact hwrites.deletion
    | @availability k v w hget hwrites =>
      rw [hwrites.2.1] at hservice
      obtain ⟨t, r⟩ := k
      obtain rfl : t = s := hservice
      obtain rfl := h.availability r v hget
      exact hwrites.deletion
    | providedPreimage hmem => cases hmem
    | providedAvailability hmem => cases hmem
  · obtain rfl := hwrites.service.service_eq hservice
    exact hwrites.deletion (h.availability r v hget)

/-- Under a key of a removed service nothing is stored any more, if the output that removed the service
has left nothing there. -/
lemma read_of_removed {K V : Type} [DecidableEq K] {κ : ItemKind K V} {k : K}
    (merged : PendingChanges) (hfits : κ.Fits k) (honly : ∀ w ∈ writes, w.1 = κ.key k → w.2 = none)
    (hwritten : ∀ v, (κ.pending merged).get? k = some v → ∃ w ∈ writes, κ.Writes k v w)
    (hunmentioned : (κ.pending merged).get? k = none → (κ.stored storage k).toOption = none)
    (v : V) : κ.stored (Store.writeAll storage writes) k ≠ .ok v := by
  by_cases hmem : ∃ w ∈ writes, w.1 = κ.key k
  · have hread : Store.read (Store.writeAll storage writes) (κ.key k) = .ok none :=
      Store.read_writeAll_of_mem hmem honly storage
    rw [κ.stored_none hfits hread]
    exact nofun
  · have hne : ∀ w ∈ writes, w.1 ≠ κ.key k := fun w hw hkey => hmem ⟨w, hw, hkey⟩
    rw [ItemKind.stored_writeAll_of_ne hne]
    refine ne_ok_of_toOption (hunmentioned ?_) v
    rw [Option.eq_none_iff_forall_ne_some]
    intro v' hget
    obtain ⟨w, hw, hwrites⟩ := hwritten v' hget
    exact hne w hw hwrites.2.1

/-- When the removal of a service has been committed, there is nothing of it in the store. -/
lemma gone_of_deleted (hnodup : (outputs.map Prod.fst).Nodup)
    (hconf : ¬ Conflicting existing (accountEntries outputs))
    (hdel : s ∈ deletedServices existing outputs) (hs : s < 2 ^ 32) (hp : p ∈ outputs)
    {held held' : Finset ℕ} (hvacant : ServicesState.view P ⟨storage, p.2.pending, held⟩ s = .vacant)
    (hcommits : Commits P (mergedChanges existing outputs) writes) :
    Gone P ⟨Store.writeAll storage writes, .empty, held'⟩ s := by
  have hdeletes := deletes_mergedChanges hnodup hconf hdel
  have honly := hdeletes.deletion_of_write hcommits
  rw [View.vacant, ServicesState.view, View.mk.injEq] at hvacant
  obtain ⟨-, hitem, hpreimage, hrequest⟩ := hvacant
  -- what the merge does not mention, the output that removed the service does not mention either
  have hunmentioned : ∀ {K V : Type} [DecidableEq K] (owner : K → ℕ)
      (map : PendingChanges → Dict K (Option V)) (key : K) (stored : Except ServiceError V),
      owner key = s → (readOverlay ((map p.2.pending).get? key) stored).toOption = none →
        (Dict.assign ∅ (mapWritesOf owner existing map outputs)).get? key = none →
          stored.toOption = none := by
    intro K V _ owner map key stored howner hread hnone
    have hdeleted : owner key ∈ deletedServices existing outputs := howner ▸ hdel
    have hpending : (map p.2.pending).get? key = none :=
      (get?_mapWritesOf_of_deleted hdeleted).2 hnone p hp
    rwa [hpending] at hread
  have hitems : ∀ key value, Store.storageItem (Store.writeAll storage writes) s key ≠ .ok value := by
    intro key
    refine read_of_removed (κ := storageItemKind) (k := (s, key)) (mergedChanges existing outputs) hs
      (fun w hw hkey => honly w hw (by rw [hkey]; exact rfl)) (hcommits.storageItems (s, key)) ?_
    exact hunmentioned Prod.fst PendingChanges.storageItems (s, key) _ rfl (congrFun hitem key)
  have hpreimages : ∀ preimageHash blob,
      Store.preimage (Store.writeAll storage writes) s preimageHash ≠ .ok blob := by
    intro preimageHash
    refine read_of_removed (κ := preimageKind) (k := (s, preimageHash))
      (mergedChanges existing outputs) hs
      (fun w hw hkey => honly w hw (by rw [hkey]; exact rfl)) (hcommits.preimages (s, preimageHash)) ?_
    exact hunmentioned Prod.fst PendingChanges.preimages (s, preimageHash) _ rfl
      (congrFun hpreimage preimageHash)
  refine ⟨?_, hitems, hpreimages, ?_⟩
  · obtain ⟨w, hw, hwrites⟩ := hcommits.accounts s none hdeletes.account
    have hread : Store.read (Store.writeAll storage writes) (accountKind.key s) = .ok none :=
      Store.read_writeAll_of_mem ⟨w, hw, hwrites.2.1⟩
        (fun w hw hkey => honly w hw (by rw [hkey]; exact rfl)) storage
    have hstored := accountKind.stored_none trivial hread
    rw [retrieveServiceAccount_eq_read, if_neg (not_le.mpr hs)]
    exact hstored
  · intro preimageHash z history
    rw [retrievePreimageAvailability_eq_read]
    split
    · next hfits =>
      change (Store.writeAll storage writes).preimageAvailability P s preimageHash z ≠ .ok history
      by_cases hz : z < 2 ^ 32 - 2
      · have hkey : (availabilityKind P).Fits (s, preimageHash, z) := ⟨hz, hs⟩
        refine read_of_removed (κ := availabilityKind P) (mergedChanges existing outputs) hkey
          (fun w hw hkey => honly w hw (by rw [hkey]; exact rfl)) ?_ ?_ history
        · intro v hget
          obtain ⟨w, hw, hwrites⟩ := hcommits.availability (s, preimageHash, z) v hget
          exact ⟨w, hw, hwrites.writes hz⟩
        · have hr := congrFun hrequest (preimageHash, z)
          rw [if_pos hz, ServicesState.retrievePreimageAvailability, if_pos hfits] at hr
          exact hunmentioned Prod.fst PendingChanges.preimagesAvailability (s, preimageHash, z) _ rfl
            hr
      -- the history of a longer request would lie under the key of a preimage or of a storage item
      · refine preimageAvailability_ne_ok (fun data hread => ?_) history
        have hcases : z = 2 ^ 32 - 2 ∨ z = 2 ^ 32 - 1 := by omega
        rcases hcases with rfl | rfl
        · refine hpreimages preimageHash data ?_
          rw [Store.preimage_eq, if_pos hs, hread]
          rfl
        · refine hitems preimageHash.toList data ?_
          rw [Store.storageItem_eq, if_pos hs, hread]
          rfl
    · intro heq
      cases heq

end Committed

/-! ## Provisions for a service that is gone -/

section Provisions

variable {P : Primitives} {timeslot s : ℕ} {st st' : ServicesState}

/-- A service is gone, also from the store. -/
structure GoneForGood (P : Primitives) (st : ServicesState) (s : ℕ) : Prop where
  visible : Gone P st s
  stored : Gone P st.fresh s

/-- The accounts in memory do not matter. -/
lemma GoneForGood.hold (h : GoneForGood P st s) (services : Finset ℕ) :
    GoneForGood P { st with services := services } s :=
  ⟨h.visible.of_sameReadsOf ⟨rfl, fun _ => rfl, fun _ => rfl, fun _ _ => rfl⟩,
    h.stored.of_sameReadsOf ⟨rfl, fun _ => rfl, fun _ => rfl, fun _ _ => rfl⟩⟩

/-- No preimage is provided for a service without an account. -/
lemma GoneForGood.integrateProvision (h : GoneForGood P st s) {provision : ℕ × Octets}
    (hprovide : integrateProvision P timeslot st provision = .ok st') : GoneForGood P st' s := by
  obtain ⟨t, blob⟩ := provision
  rw [Accumulation.integrateProvision, Except.bind_eq_ok] at hprovide
  obtain ⟨known, hknown, hprovide⟩ := hprovide
  cases known with
  | false =>
    cases hprovide
    exact h
  | true =>
    have ht : s ≠ t := by
      rintro rfl
      have hexists := liftServices_eq_ok hknown
      rw [ServicesState.serviceExists, h.visible.account] at hexists
      cases hexists
    simp only [Bool.not_true, Bool.false_eq_true, if_false] at hprovide
    split at hprovide
    · cases hprovide
      exact h
    · cases hprovide
    · split at hprovide
      · obtain ⟨st₁, h₁, hprovide⟩ := Except.bind_eq_ok.mp hprovide
        obtain ⟨w₁, hw₁, rfl⟩ := storePreimageAvailability_eq_ok (liftServices_eq_ok h₁)
        obtain ⟨w₂, hw₂, rfl⟩ := storePreimage_eq_ok (liftServices_eq_ok hprovide)
        -- both writes are to keys of another service
        have hother : ∀ w ∈ [w₁, w₂], ¬ w.1.OfService s := by
          intro w hw hservice
          rcases List.mem_pair.mp hw with rfl | rfl
          · exact ht (hservice.service_eq hw₁.service)
          · rw [hw₂.2.1] at hservice
            exact ht hservice.symm
        have hagree := (agreeOn_setPendingPreimage (st.setPendingAvailability t
          (P.blake2b256Hash blob) blob.length (some [timeslot])) ht (P.blake2b256Hash blob)
            (some blob)).trans (agreeOn_setPendingAvailability st ht (P.blake2b256Hash blob)
              blob.length (some [timeslot]))
        exact ⟨h.visible.of_sameReadsOf (sameReadsOf_writeAll hagree hother),
          h.stored.of_sameReadsOf (sameReadsOf_writeAll (.refl s .empty) hother)⟩
      · cases hprovide
        exact h

/-- The provisions of a round. -/
lemma GoneForGood.foldlM_integrateProvision {provisions : List (ℕ × Octets)} (h : GoneForGood P st s)
    (hprovide : provisions.foldlM (Accumulation.integrateProvision P timeslot) st = .ok st') :
    GoneForGood P st' s := by
  induction provisions generalizing st with
  | nil =>
    cases hprovide
    exact h
  | cons provision rest ih =>
    rw [List.foldlM_cons] at hprovide
    obtain ⟨st₁, hfirst, hprovide⟩ := Except.bind_eq_ok.mp hprovide
    exact ih (h.integrateProvision hfirst) hprovide

lemma GoneForGood.integrateProvisions {outputs : Outputs coreCount} (h : GoneForGood P st s)
    (hprovide : integrateProvisions P timeslot outputs st = .ok st') : GoneForGood P st' s :=
  h.foldlM_integrateProvision hprovide

end Provisions

/-! ## Invocations that eject a service -/

section Invocations

variable {env : Environment} {timeslot : ℕ} {x x' x'' : AccumulateInvocationContext coreCount}

lemma Calls.trans (h : Calls env x x') (h' : Calls env x' x'') : Calls env x x'' := by
  induction h' with
  | none => exact h
  | call _ hcall ih => exact .call ih hcall

/-- The requests that are pending at some point are pending from then on. -/
lemma Calls.shortRequests (h : Calls env x x') {t : ℕ}
    (hshort : x'.services.pendingChanges.ShortRequestsOf t) :
    x.services.pendingChanges.ShortRequestsOf t := by
  induction h with
  | none => exact hshort
  | call _ hcall ih => exact ih ((execute_step hcall).effect.shortRequests hshort)

/-- The savepoint has no request that the context has not. -/
lemma Calls.shortRequests_savepoint (h : Calls env x x') {t : ℕ}
    (hstart : x.savepointContext.services = x.services)
    (hshort : x'.services.pendingChanges.ShortRequestsOf t) :
    x'.savepointContext.services.pendingChanges.ShortRequestsOf t := by
  induction h with
  | none => rwa [hstart]
  | call _ hcall ih =>
    have hstep := execute_step hcall
    have hbefore := hstep.effect.shortRequests hshort
    rcases hstep.savepoint with hkept | htaken
    · rw [hkept]
      exact ih hbefore
    · rw [htaken]
      exact hbefore

/-- An invocation with a call of `eject` that answers OK for the service `d`, by its last context and the
services that it returns. -/
inductive EjectingInvocation (env : Environment) (timeslot : ℕ)
    (state : AccumulationStateComponents coreCount) (service d : ℕ) :
    AccumulateInvocationContext coreCount → ServicesState → Prop
  | eject {inputs : List AccumulationInput} {services visible : ServicesState} {code : Octets}
      {checkPayload : ℕ} {x₀ x₁ x₂ x₃ : AccumulateInvocationContext coreCount} {gas : ℤ}
      {registers : Registers} {memory : Memory} {out : InvocationMutationOutput}
      (hcredit : creditAndLookup state.services service inputs = .ok (services, some code))
      (hcreate : createFromAccumulationState env { state with services := services } service
        checkPayload timeslot = .ok x₀)
      (hbefore : Calls env x₀ x₁)
      (hcall : execute env .eject gas registers memory x₁ = .ok (out, x₂))
      (hservice : registers.get 7 = d) (hresume : out.exitCondition = .resume)
      (hanswer : out.registers.get 7 = HostCallResult.ok.value)
      (hafter : Calls env x₂ x₃)
      (hvisible : visible = x₃.services ∨ visible = x₃.savepointContext.services) :
      EjectingInvocation env timeslot state service d x₃ visible

lemma EjectingInvocation.invoked {state : AccumulationStateComponents coreCount} {service d : ℕ}
    {visible : ServicesState} (h : EjectingInvocation env timeslot state service d x visible)
    (hshort : x.services.pendingChanges.ShortRequestsOf d) :
    Invoked env timeslot state service visible ∧ visible.pendingChanges.ShortRequestsOf d := by
  obtain ⟨hcredit, hcreate, hbefore, hcall, -, -, -, hafter, hvisible⟩ := h
  have hcalls := (hbefore.call hcall).trans hafter
  obtain ⟨-, hservices, hsaved⟩ := createFromAccumulationState_eq hcreate
  refine ⟨.called hcredit hcreate hcalls hvisible, ?_⟩
  rcases hvisible with rfl | rfl
  · exact hshort
  · exact hcalls.shortRequests_savepoint (hsaved.trans hservices.symm) hshort

/-- A service that is ejected has been there before the round. -/
lemma EjectingInvocation.existed {state : AccumulationStateComponents coreCount} {service d : ℕ}
    {visible : ServicesState} (h : EjectingInvocation env timeslot state service d x visible)
    (hnonneg : PendingNonneg state.services)
    (hfooted : (state.services.view env.primitives d).WellFooted)
    (hsound : (state.services.view env.primitives d).PreimageSound env.primitives timeslot)
    (hshort : x.services.pendingChanges.ShortRequestsOf d) :
    ∃ before, state.services.retrieveServiceAccount d = .ok before := by
  obtain ⟨hcredit, hcreate, hbefore, hcall, rfl, hresume, hanswer, hafter, hvisible⟩ := h
  rcases hcEject_eq_ok hcall with ⟨-, hrefused⟩ | ⟨services', rfl, hejects⟩
  · exact absurd hanswer (hrefused hresume)
  have hshort₂ := hafter.shortRequests hshort
  obtain ⟨-, account, ejected, preimageHash, l, a, y, -, haccount, -, -, -, hpresent, hexpunged,
    rfl⟩ := hejects
  obtain ⟨hl, hshort₁⟩ := shortRequests_of_setPendingAvailability
    (show (ServicesState.setPendingAvailability (ServicesState.setPendingPreimage _ _ _ _) _ _ _
      _).pendingChanges.ShortRequestsOf _ from hshort₂)
  obtain ⟨hsame, -⟩ := hbefore.preserves (Q := fun _ => True) (fun _ _ _ _ => trivial) trivial
    trivial
  have htimeslot := (createFromAccumulationState_eq hcreate).1
  have hchanges := ((derived_of_start (fun _ _ => hnonneg.retrieve) hcredit hcreate
    hbefore).1).changes _ hshort₁
  obtain ⟨-, hrequest⟩ := request_of_retrieve (hl rfl) hpresent
  have hold : y < timeslot := by
    rw [hsame, htimeslot] at hexpunged
    omega
  exact hchanges.account_of_old hsound hfooted haccount hrequest hold

end Invocations

/-! ## Rounds with an ejection -/

section Rounds

variable {env : Environment} {timeslot : ℕ} {state : AccumulationStateComponents coreCount}

/-- An account that was in the store and cannot be read has been removed. -/
lemma removed_of_gone {st st' : ServicesState} {s : ℕ} {account : ServiceAccount}
    (hstorage : st'.stateStorage = st.stateStorage)
    (hbefore : st.fresh.retrieveServiceAccount s = .ok account)
    (hgone : st'.retrieveServiceAccount s = .error .noResult) :
    st'.pendingChanges.serviceAccounts.get? s = some none := by
  have hs := not_le.mpr (lt_of_retrieveServiceAccount hbefore)
  have hstored : st.stateStorage.serviceAccount s = .ok account := by
    rw [ServicesState.retrieveServiceAccount, if_neg hs] at hbefore
    exact hbefore
  rw [ServicesState.retrieveServiceAccount, if_neg hs, hstorage, hstored] at hgone
  cases hget : st'.pendingChanges.serviceAccounts.get? s with
  | none =>
    rw [hget] at hgone
    cases hgone
  | some item =>
    cases item with
    | none => rfl
    | some account' =>
      rw [hget] at hgone
      cases hgone

/-- After a round in which an output has removed a service the service is gone. -/
lemma finishRound_gone {outputs : Outputs coreCount} {out : ParallelAccumulationOutput coreCount}
    {s : ℕ} {account : ServiceAccount} (hnodup : (outputs.map Prod.fst).Nodup)
    (hfiled : ∀ p ∈ outputs, FiledPreimages env.primitives p.2.pending)
    (hbefore : state.services.retrieveServiceAccount s = .ok account)
    {p : ℕ × PvmAccumulateOutput coreCount} (hp : p ∈ outputs)
    (hremoved : p.2.pending.serviceAccounts.get? s = some none)
    {held : Finset ℕ} (hvacant : ServicesState.view env.primitives
      ⟨state.services.stateStorage, p.2.pending, held⟩ s = .vacant)
    (h : finishRound env.primitives timeslot state outputs = .ok out) :
    GoneForGood env.primitives out.accumulationState.services s := by
  obtain ⟨merged, committed, provided, services, hmerge, hcommit, hprovide, rfl⟩ :=
    finishRound_eq_ok h
  obtain ⟨existing, hexisting, hconf, rfl⟩ := merge_eq_ok hmerge
  obtain ⟨writes, rfl, hcommits⟩ :=
    commitChanges_writes (filedPreimages_mergedChanges hfiled) hcommit
  have hdel := (mem_deletedServices_iff hexisting).mpr ⟨⟨account, hbefore⟩, p, hp, hremoved⟩
  have hstored : Gone env.primitives
      ⟨Store.writeAll state.services.stateStorage writes, .empty, state.services.services⟩ s :=
    gone_of_deleted hnodup hconf hdel (lt_of_retrieveServiceAccount hbefore) hp hvacant hcommits
  have hgone : GoneForGood env.primitives
      ⟨Store.writeAll state.services.stateStorage writes, mergedChanges existing outputs,
        state.services.services⟩ s :=
    ⟨.of_deletes hstored (deletes_mergedChanges hnodup hconf hdel), hstored⟩
  exact (hgone.integrateProvisions hprovide).hold services

/-- A call of `eject` changes nothing of any account but that of the caller and the one it is asked to
eject.  When it answers OK, and the invocation returns services without this account, the account is
gone after the round, and with it all its entries, whatever the other outputs of the round say; as long
as the invocation has no request of `2 ^ 32 - 2` or more bytes of that account pending. -/
theorem eject_leaves_nothing (env : Environment) {lastSlot timeslot : ℕ}
    (hslot : lastSlot ≤ timeslot) :
    (∀ (x x' : AccumulateInvocationContext coreCount) (gas : ℤ) (registers : Registers)
      (memory : Memory) (out : InvocationMutationOutput),
      execute env .eject gas registers memory x = .ok (out, x') →
        ∀ t, t ≠ registers.get 7 → t ≠ x.context.serviceAccountId →
          SameReadsOf env.primitives x.services x'.services t) ∧
    ∀ (σ : Type) (M : Interpreter coreCount σ) (checkPayload : ℕ → ℕ) (fuel : ℕ)
      (state : AccumulationStateComponents coreCount) (input : RoundInput)
      (outputs : Outputs coreCount) (out : ParallelAccumulationOutput coreCount)
      (service d : ℕ) (output : PvmAccumulateOutput coreCount)
      (x : AccumulateInvocationContext coreCount), Coherent env.primitives state.services →
      (state.services.view env.primitives d).PreimageSound env.primitives lastSlot →
      (state.services.view env.primitives d).WellFooted →
      runServices (pvmInvoke env M checkPayload timeslot fuel) state input input.serviceIds =
        some outputs →
      parallelAccumulation env.primitives timeslot (pvmInvoke env M checkPayload timeslot fuel) state
        input = .ok out →
      (service, output) ∈ outputs →
      EjectingInvocation env timeslot { state with services := state.services.fresh } service d x
        output.stateContext.services →
      output.stateContext.services.retrieveServiceAccount d = .error .noResult →
      x.services.pendingChanges.ShortRequestsOf d →
        GoneForGood env.primitives out.accumulationState.services d := by
  refine ⟨?_, ?_⟩
  · intro x x' gas registers memory out hcall t hd ht
    rcases hcEject_eq_ok hcall with ⟨rfl, -⟩ | ⟨services', rfl, hejects⟩
    · exact ⟨rfl, fun _ => rfl, fun _ => rfl, fun _ _ => rfl⟩
    · exact hejects.sameReadsOf hd ht
  · intro σ M checkPayload fuel state input outputs out service d output x hcoherent hsound hfooted
      hrun hround hp hejecting hgone hshort
    obtain ⟨outputs', hrun', hfinish⟩ := parallelAccumulation_eq_ok hround
    cases hrun.symm.trans hrun'
    obtain ⟨hids, hinvoked⟩ := runServices_invoked hrun
    have hnodup : (outputs.map Prod.fst).Nodup := by
      rw [hids]
      exact nodup_sortedSet _
    rw [← view_fresh hcoherent] at hsound hfooted
    have hsound' := hsound.mono hslot
    -- the services that the invocation returns come from those of the round
    obtain ⟨hown, hshort'⟩ := hejecting.invoked hshort
    have hderived := hown.derived (pendingNonneg_fresh state.services)
    have hchanges := hderived.changes d hshort'
    have hvacant := (hfooted.changes hchanges).eq_vacant (hsound'.changes hchanges) hgone
    have hservices : output.stateContext.services =
        ⟨state.services.stateStorage, output.pending, output.stateContext.services.services⟩ := by
      have hstorage : output.stateContext.services.stateStorage = state.services.stateStorage :=
        hderived.stateStorage
      rw [← hstorage]
      rfl
    obtain ⟨account, haccount⟩ :=
      hejecting.existed (pendingNonneg_fresh state.services) hfooted hsound' hshort
    -- the account was there, so it is gone because it has been removed
    have hremoved : output.pending.serviceAccounts.get? d = some none :=
      removed_of_gone hderived.stateStorage haccount hgone
    have hbefore : state.services.retrieveServiceAccount d = .ok account := by
      rw [hcoherent.sameReads_fresh.account d]
      exact haccount
    rw [hservices] at hvacant
    exact finishRound_gone hnodup (fun p hp => (hinvoked p hp).filedPreimages nofun) hbefore hp
      hremoved hvacant hfinish

end Rounds

/-! ## Services to eject -/

/-- The account of a service that service 5 may eject: its code hash is the number 5. -/
def sampleDoomed (footprintStorageBytes : ℤ) : ServiceAccount :=
  { sampleCoded with
    codeHash := Vector.ofFn fun i => if i = 0 then 5 else 0
    footprintStorageBytes := footprintStorageBytes }

/-- Service 5 has its code and is the registrar, and something has been written for service 7. -/
def sampleOffice (writes : List StoreWrite) : AccumulationStateComponents 0 :=
  { sampleState with
    services := ⟨Store.writeAll sampleStore writes, .empty, ∅⟩
    privilegedServices := { sampleState.privilegedServices with registrar := 5 } }

/-- Service 7 has one request, with a history from the slots 0 and 1. -/
def sampleRequested : List StoreWrite :=
  [(accountKind.key 7, some ((sampleDoomed 82).toSerializedBytes.getD [])),
    ((availabilityKind sampleHashing.primitives).key (7, Vector.replicate 32 0, 1),
      some [2, 0, 0, 0, 0, 1, 0, 0, 0])]

/-- Service 7 has no request but two storage items, a large one and one that reads as a history. -/
def sampleHoard : List StoreWrite :=
  [(accountKind.key 7, some ((sampleDoomed (2 ^ 32 + 80)).toSerializedBytes.getD [])),
    (storageItemKind.key (7, []), some (List.replicate (2 ^ 32 - 29) 0)),
    (storageItemKind.key (7, List.replicate 32 0), some [2, 0, 0, 0, 0, 1, 0, 0, 0])]

/-- A program that makes the host calls of a list with their registers. -/
def sampleScript (calls : List (ℕ × Registers)) : Interpreter 0 (List (ℕ × Registers)) where
  load _ _ _ _ := some calls
  invoke m gas :=
    match m with
    | [] => (.halt [], gas - 1, m)
    | (n, _) :: _ => (.hostHalt n, gas - 1, m)
  registers m := (m.map Prod.snd).headD (Vector.replicate 13 0)
  memory _ := sampleMemory
  resume m _ := m.tail
  general _ _ _ _ := .error .memory
  invoke_gas := by
    intro m gas
    cases m with
    | nil => exact max_le_max (by dsimp only; omega) le_rfl
    | cons => exact max_le_max (by dsimp only; omega) le_rfl
  general_gas := by
    intro n m gas c exit gas' m' h
    cases h

/-- The registers to eject service 7, whose request is for the hash of zeros. -/
def sampleEjectRegisters : Registers := #v[0, 0, 0, 0, 0, 0, 0, 7, 65536, 0, 0, 0, 0]

/-- The registers for a new account with the id 7. -/
def sampleReviveRegisters : Registers := #v[0, 0, 0, 0, 0, 0, 0, 65536, 1, 0, 0, 0, 7]

/-- A service whose keys have not been written has nothing. -/
lemma view_eq_vacant {P : Primitives} {storage : Store} {held : Finset ℕ} {s : ℕ}
    (h : ∀ key : StateKey, key.OfService s → storage.read key = .ok none) :
    ServicesState.view P ⟨storage, .empty, held⟩ s = .vacant := by
  have haccount : storage.serviceAccount s = .error .noResult := by
    rw [Store.serviceAccount_eq, h (.serviceAccount s) rfl]
    rfl
  have hitem : ∀ key, (storage.storageItem s key).toOption = none := by
    intro key
    rw [Store.storageItem_eq, h (.serviceValue s _) rfl]
    split
    · rfl
    · rfl
  have hpreimage : ∀ preimageHash, (storage.preimage s preimageHash).toOption = none := by
    intro preimageHash
    rw [Store.preimage_eq, h (.serviceValue s _) rfl]
    split
    · rfl
    · rfl
  have hrequest : ∀ preimageHash z,
      (storage.preimageAvailability P s preimageHash z).toOption = none := by
    intro preimageHash z
    rw [Store.preimageAvailability_eq, h (.serviceValue s _) rfl]
    split
    · rfl
    · rfl
  rw [View.vacant, ServicesState.view, View.mk.injEq]
  refine ⟨?_, funext hitem, funext hpreimage, ?_⟩
  · change (if 2 ^ 32 ≤ s then .error .noResult else storage.serviceAccount s) = _
    rw [haccount, ite_self]
  · funext r
    split
    · change Except.toOption (if _ then storage.preimageAvailability P s r.1 r.2
        else .error .noResult) = none
      split
      · exact hrequest r.1 r.2
      · rfl
    · rfl

lemma wellFooted_vacant : View.vacant.WellFooted :=
  ⟨nofun, nofun, fun _ => ⟨fun _ => rfl, fun _ => rfl⟩⟩

lemma preimageSound_vacant (P : Primitives) (timeslot : ℕ) : View.vacant.PreimageSound P timeslot :=
  ⟨nofun, nofun⟩

/-- Without service 5 the store is empty. -/
lemma sampleStore_read_of_ne {s : ℕ} (hs : s ≠ 5) {key : StateKey} (hkey : key.OfService s) :
    sampleStore.read key = .ok none := by
  have hne : ∀ key' : StateKey, key'.OfService 5 → key ≠ key' := by
    rintro key' h' rfl
    exact hs (hkey.service_eq h')
  exact sampleStore_read (hne _ rfl) (hne _ rfl) (hne _ rfl)

section Office

variable {writes : List StoreWrite} {pending : PendingChanges}

/-- The view of service 7 is the same when what has been written for it is pending. -/
lemma sampleOffice_view
    (hcoherent : Coherent sampleHashing.primitives ⟨Store.writeAll sampleStore writes, pending, ∅⟩)
    (hwritten : ∀ w ∈ writes, WrittenFor sampleHashing.primitives pending [] w) :
    (sampleOffice writes).services.view sampleHashing.primitives 7 =
      ServicesState.view sampleHashing.primitives ⟨sampleStore, pending, ∅⟩ 7 :=
  calc (sampleOffice writes).services.view sampleHashing.primitives 7
      = ServicesState.view sampleHashing.primitives ⟨Store.writeAll sampleStore writes, pending, ∅⟩ 7 :=
        view_fresh hcoherent 7
    _ = ServicesState.view sampleHashing.primitives ⟨sampleStore, pending, ∅⟩ 7 :=
        view_writeAll (fun w hw _ => hwritten w hw) sampleStore

/-- Both invariants hold of every service when they hold of service 7. -/
lemma sampleOffice_invariant {v : View} (hwrites : ∀ w ∈ writes, w.1.OfService 7)
    (hview : (sampleOffice writes).services.view sampleHashing.primitives 7 = v)
    (hfooted : v.WellFooted) (hsound : v.PreimageSound sampleHashing.primitives 1) (s : ℕ) :
    ((sampleOffice writes).services.view sampleHashing.primitives s).WellFooted ∧
      ((sampleOffice writes).services.view sampleHashing.primitives s).PreimageSound
        sampleHashing.primitives 1 := by
  by_cases hdoomed : s = 7
  · rw [hdoomed, hview]
    exact ⟨hfooted, hsound⟩
  · have hother : ∀ w ∈ writes, ¬ w.1.OfService s :=
      fun w hw hservice => hdoomed (hservice.service_eq (hwrites w hw))
    have hreads : SameReadsOf sampleHashing.primitives sampleStored.services
        (sampleOffice writes).services s := sameReadsOf_writeAll (.refl s .empty) hother
    rw [hreads.view_eq]
    by_cases hs : s = 5
    · subst hs
      exact ⟨sampleStored_footed, sampleStored_sound.mono (by decide)⟩
    · have hvacant : sampleStored.services.view sampleHashing.primitives s = .vacant :=
        view_eq_vacant fun key hkey => sampleStore_read_of_ne hs hkey
      rw [hvacant]
      exact ⟨wellFooted_vacant, preimageSound_vacant _ _⟩

end Office

/-- A pending change that is the only one, and in the store. -/
lemma coherent_single {K V : Type} [DecidableEq K] {κ : ItemKind K V} {st : ServicesState} {k : K}
    {v : Option V} (honly : κ.pending st.pendingChanges = Dict.insert ∅ k v) (hfits : κ.Fits k)
    (hstored : κ.stored st.stateStorage k = ofItem v) : κ.Coherent st := by
  intro k' v' hget
  rw [honly, Dict.get?_insert] at hget
  split at hget
  · next hk =>
    cases hget
    rw [hk]
    exact ⟨hfits, hstored⟩
  · cases hget

lemma sampleStored_vacant : sampleStored.services.view sampleHashing.primitives 7 = .vacant :=
  view_eq_vacant fun key hkey => sampleStore_read_of_ne (by decide) hkey

lemma sampleRequested_view :
    (sampleOffice sampleRequested).services.view sampleHashing.primitives 7 = { View.vacant with
      account := .ok (sampleDoomed 82)
      request := Function.update View.vacant.request (Vector.replicate 32 0, 1) (some [0, 1]) } := by
  have hfits : (7 : ℕ) < 2 ^ 32 := by decide
  let st := (sampleStored.services.setPendingAccount 7 (some (sampleDoomed 82))
    ).setPendingAvailability 7 (Vector.replicate 32 0) 1 (some [0, 1])
  have hcoherent : Coherent sampleHashing.primitives
      ⟨Store.writeAll sampleStore sampleRequested, st.pendingChanges, ∅⟩ :=
    ⟨coherent_single rfl trivial rfl, nofun, nofun,
      coherent_single (κ := availabilityKind sampleHashing.primitives) rfl ⟨by decide, hfits⟩ rfl⟩
  rw [sampleOffice_view hcoherent]
  · change st.view _ 7 = _
    rw [view_setPendingAvailability_self _ _ hfits (by decide), view_setPendingAccount_self _ _ hfits,
      sampleStored_vacant]
    rfl
  · intro w hw
    rcases List.mem_pair.mp hw with rfl | rfl
    · exact .account (Dict.get?_insert_self _ 7 _) ⟨trivial, rfl, rfl⟩
    · exact .availability (Dict.get?_insert_self _ (7, Vector.replicate 32 0, 1) _)
        ⟨⟨by decide, hfits⟩, rfl, rfl⟩

lemma sampleRequested_invariant (s : ℕ) :
    ((sampleOffice sampleRequested).services.view sampleHashing.primitives s).WellFooted ∧
      ((sampleOffice sampleRequested).services.view sampleHashing.primitives s).PreimageSound
        sampleHashing.primitives 1 := by
  refine sampleOffice_invariant ?_ sampleRequested_view ⟨?_, nofun, nofun⟩ ⟨nofun, ?_⟩ s
  · intro w hw
    rcases List.mem_pair.mp hw with rfl | rfl
    · exact rfl
    · exact rfl
  · rintro a ⟨⟩
    exact (Footprint.of_none (fun _ => rfl) (fun _ => rfl)).setRequest
      ((Vector.replicate 32 0, 1) : Octets32 × ℕ) (some [0, 1])
  · refine histories_update (p := HistorySound 1) nofun ?_
    rintro history ⟨⟩
    exact ⟨by decide, by decide, by decide⟩


/-- The items of service 7 by their keys. -/
def sampleHoarded : Octets → Option Octets :=
  Function.update (Function.update (fun _ => none) [] (some (List.replicate (2 ^ 32 - 29) 0)))
    (List.replicate 32 0) (some [2, 0, 0, 0, 0, 1, 0, 0, 0])

lemma sampleHoard_view :
    (sampleOffice sampleHoard).services.view sampleHashing.primitives 7 = { View.vacant with
      account := .ok (sampleDoomed (2 ^ 32 + 80))
      storageItem := sampleHoarded } := by
  have hfits : (7 : ℕ) < 2 ^ 32 := by decide
  let st := ((sampleStored.services.setPendingAccount 7 (some (sampleDoomed (2 ^ 32 + 80)))
    ).setPendingStorageItem 7 [] (some (List.replicate (2 ^ 32 - 29) 0))).setPendingStorageItem 7
      (List.replicate 32 0) (some [2, 0, 0, 0, 0, 1, 0, 0, 0])
  have hget : ∀ k, st.pendingChanges.storageItems.get? k =
      if k = (7, List.replicate 32 0) then some (some [2, 0, 0, 0, 0, 1, 0, 0, 0])
      else (Dict.insert ∅ (7, []) (some (List.replicate (2 ^ 32 - 29) 0))).get? k :=
    fun k => Dict.get?_insert _ _ k _
  have hcoherent : Coherent sampleHashing.primitives
      ⟨Store.writeAll sampleStore sampleHoard, st.pendingChanges, ∅⟩ := by
    refine ⟨coherent_single rfl trivial rfl, ?_, nofun, nofun⟩
    intro k v hpending
    change st.pendingChanges.storageItems.get? k = some v at hpending
    rw [hget, Dict.get?_insert] at hpending
    split at hpending
    · next hk =>
      cases hpending
      rw [hk]
      exact ⟨hfits, rfl⟩
    · split at hpending
      · next hk =>
        cases hpending
        rw [hk]
        exact ⟨hfits, rfl⟩
      · cases hpending
  rw [sampleOffice_view hcoherent]
  · change st.view _ 7 = _
    rw [view_setPendingStorageItem_self, view_setPendingStorageItem_self,
      view_setPendingAccount_self _ _ hfits, sampleStored_vacant]
    rfl
  · intro w hw
    simp only [sampleHoard, List.mem_cons, List.not_mem_nil, or_false] at hw
    rcases hw with rfl | rfl | rfl
    · exact .account (Dict.get?_insert_self _ 7 _) ⟨trivial, rfl, rfl⟩
    · exact .storageItem (k := (7, [])) (by rw [hget]; rfl) ⟨hfits, rfl, rfl⟩
    · exact .storageItem (k := (7, List.replicate 32 0)) (by rw [hget]; rfl) ⟨hfits, rfl, rfl⟩

lemma sampleHoard_invariant (s : ℕ) :
    ((sampleOffice sampleHoard).services.view sampleHashing.primitives s).WellFooted ∧
      ((sampleOffice sampleHoard).services.view sampleHashing.primitives s).PreimageSound
        sampleHashing.primitives 1 := by
  have hlength : (List.replicate (2 ^ 32 - 29) (0 : UInt8)).length = 2 ^ 32 - 29 :=
    List.length_replicate
  refine sampleOffice_invariant ?_ sampleHoard_view ⟨?_, ?_, nofun⟩ ⟨nofun, nofun⟩ s
  · intro w hw
    simp only [sampleHoard, List.mem_cons, List.not_mem_nil, or_false] at hw
    rcases hw with rfl | rfl | rfl
    · exact rfl
    · exact rfl
    · exact rfl
  · rintro a ⟨⟩
    have hfootprint := ((Footprint.of_none (fun _ => rfl) (fun _ => rfl)).setItem []
      (some (List.replicate (2 ^ 32 - 29) 0))).setItem (List.replicate 32 0)
        (some [2, 0, 0, 0, 0, 1, 0, 0, 0])
    have hfree : Function.update (fun _ : Octets => (none : Option Octets)) []
        (some (List.replicate (2 ^ 32 - 29) 0)) (List.replicate 32 0) = none :=
      Function.update_of_ne (by decide) _ _
    rw [hfree] at hfootprint
    simp only [presence, itemBytes, Option.elim_none, Option.elim_some, hlength] at hfootprint
    exact hfootprint
  · intro key
    change sampleHoarded key ≠ some []
    by_cases hzeros : key = List.replicate 32 0
    · rw [sampleHoarded, hzeros, Function.update_self]
      exact nofun
    · rw [sampleHoarded, Function.update_of_ne hzeros]
      by_cases hnil : key = []
      · rw [hnil, Function.update_self]
        intro heq
        rw [Option.some.inj heq] at hlength
        cases hlength
      · rw [Function.update_of_ne hnil]
        exact nofun

/-- Invocations whose program makes these host calls, at slot 100. -/
def sampleInvocations (calls : List (ℕ × Registers)) : Invoke 0 :=
  pvmInvoke sampleHashing (sampleScript calls) (fun _ => 0) 100 3

/-- The state that service 5 is invoked with. -/
def sampleBefore (writes : List StoreWrite) : AccumulationStateComponents 0 :=
  { sampleOffice writes with services := (sampleOffice writes).services.fresh }

/-- The context that service 5 starts with. -/
def sampleStart (writes : List StoreWrite) : AccumulateInvocationContext 0 :=
  let context := initialContext (sampleBefore writes) 5 (2 ^ 16)
  ⟨context, context, 100⟩

/-- Service 5 ejects service 7: of service 7 nothing is left, and of service 6 nothing is changed. -/
theorem sampleEjection_leaves_nothing :
    ∃ (o : PvmAccumulateOutput 0) (x : AccumulateInvocationContext 0)
      (out : ParallelAccumulationOutput 0),
      EjectingInvocation sampleHashing 100 (sampleBefore sampleRequested) 5 7 x
        o.stateContext.services ∧
      parallelAccumulation sampleHashing.primitives 100 (sampleInvocations [(22, sampleEjectRegisters)])
        (sampleOffice sampleRequested) sampleTurn = .ok out ∧
      SameReadsOf sampleHashing.primitives (sampleStart sampleRequested).services x.services 6 ∧
      GoneForGood sampleHashing.primitives out.accumulationState.services 7 := by
  obtain ⟨hframe, hgone⟩ := @eject_leaves_nothing 0 sampleHashing 1 100 (by decide)
  have hrun : ∃ (o : PvmAccumulateOutput 0) (out : ParallelAccumulationOutput 0)
      (x : AccumulateInvocationContext 0) (answer : InvocationMutationOutput),
      runServices (sampleInvocations [(22, sampleEjectRegisters)]) (sampleOffice sampleRequested)
        sampleTurn sampleTurn.serviceIds = some [(5, o)] ∧
      parallelAccumulation sampleHashing.primitives 100 (sampleInvocations [(22, sampleEjectRegisters)])
        (sampleOffice sampleRequested) sampleTurn = .ok out ∧
      o.stateContext.services.retrieveServiceAccount 7 = .error .noResult ∧
      execute sampleHashing .eject 9999 sampleEjectRegisters sampleMemory
        (sampleStart sampleRequested) = .ok (answer, x) ∧
      answer.exitCondition = .resume ∧ answer.registers.get 7 = HostCallResult.ok.value ∧
      o.stateContext.services = x.services ∧
      x.services.pendingChanges.preimagesAvailability =
        Dict.insert ∅ (7, Vector.replicate 32 0, 1) none :=
    ⟨_, _, _, _, rfl, rfl, rfl, rfl, rfl, rfl, rfl, rfl⟩
  obtain ⟨o, out, x, answer, hrun, hround, hremoved, hcall, hresume, hanswer, hvisible, hpending⟩ :=
    hrun
  have hcredit : creditAndLookup (sampleBefore sampleRequested).services 5 [] =
      .ok ((sampleBefore sampleRequested).services, some [1]) := rfl
  have hcreate : createFromAccumulationState sampleHashing (sampleBefore sampleRequested) 5 0 100 =
      .ok (sampleStart sampleRequested) := rfl
  have hejecting : EjectingInvocation sampleHashing 100 (sampleBefore sampleRequested) 5 7 x
      o.stateContext.services :=
    .eject hcredit hcreate (.none _) hcall rfl hresume hanswer (.none x) (.inl hvisible)
  have hshort : x.services.pendingChanges.ShortRequestsOf 7 :=
    PendingChanges.shortRequestsOf_of_single hpending (by decide)
  obtain ⟨hfooted, hsound⟩ := sampleRequested_invariant 7
  refine ⟨o, x, out, hejecting, hround, ?_, ?_⟩
  · exact hframe (sampleStart sampleRequested) x 9999 sampleEjectRegisters sampleMemory answer hcall 6
      (by decide) (by decide)
  · exact hgone _ (sampleScript [(22, sampleEjectRegisters)]) (fun _ => 0) 3
      (sampleOffice sampleRequested) sampleTurn [(5, o)] out 5 7 o x
      (coherent_fresh _ (sampleOffice sampleRequested).services) hsound hfooted hrun hround
      List.mem_cons_self hejecting hremoved hshort

/-- All services are sound, service 5 ejects service 7, and after the round service 7 is still there or
has left something. -/
def SurvivesEjection (writes : List StoreWrite) (calls : List (ℕ × Registers)) : Prop :=
  (∀ s, ((sampleOffice writes).services.view sampleHashing.primitives s).WellFooted ∧
    ((sampleOffice writes).services.view sampleHashing.primitives s).PreimageSound
      sampleHashing.primitives 1) ∧
  ∃ (o : PvmAccumulateOutput 0) (x : AccumulateInvocationContext 0)
    (out : ParallelAccumulationOutput 0),
    runServices (sampleInvocations calls) (sampleOffice writes) sampleTurn sampleTurn.serviceIds =
      some [(5, o)] ∧
    parallelAccumulation sampleHashing.primitives 100 (sampleInvocations calls) (sampleOffice writes)
      sampleTurn = .ok out ∧
    EjectingInvocation sampleHashing 100 (sampleBefore writes) 5 7 x o.stateContext.services ∧
    ¬ Gone sampleHashing.primitives out.accumulationState.services 7

/-- The registrar ejects the service and creates it again, and the old account is as it was; or the
footprint of two storage items passes for that of a request of `2 ^ 32 - 1` bytes, and the larger one
is left. -/
theorem sampleEjections_leave_something :
    SurvivesEjection sampleRequested [(22, sampleEjectRegisters), (19, sampleReviveRegisters)] ∧
    SurvivesEjection sampleHoard [(22, sampleEjectRegisters)] := by
  constructor
  · refine ⟨sampleRequested_invariant, ?_⟩
    have hrun : ∃ (o : PvmAccumulateOutput 0) (out : ParallelAccumulationOutput 0)
        (x x' : AccumulateInvocationContext 0) (answer answer' : InvocationMutationOutput),
        runServices (sampleInvocations [(22, sampleEjectRegisters), (19, sampleReviveRegisters)])
          (sampleOffice sampleRequested) sampleTurn sampleTurn.serviceIds = some [(5, o)] ∧
        parallelAccumulation sampleHashing.primitives 100
          (sampleInvocations [(22, sampleEjectRegisters), (19, sampleReviveRegisters)])
          (sampleOffice sampleRequested) sampleTurn = .ok out ∧
        execute sampleHashing .eject 9999 sampleEjectRegisters sampleMemory
          (sampleStart sampleRequested) = .ok (answer, x) ∧
        answer.exitCondition = .resume ∧ answer.registers.get 7 = HostCallResult.ok.value ∧
        execute sampleHashing .new 9540 sampleReviveRegisters sampleMemory x = .ok (answer', x') ∧
        o.stateContext.services = x'.services ∧
        out.accumulationState.services.retrieveServiceAccount 7 = .ok (sampleDoomed 82) :=
      ⟨_, _, _, _, _, _, rfl, rfl, rfl, rfl, rfl, rfl, rfl, rfl⟩
    obtain ⟨o, out, x, x', answer, answer', hrun, hround, hcall, hresume, hanswer, hnew, hvisible,
      hthere⟩ := hrun
    have hcredit : creditAndLookup (sampleBefore sampleRequested).services 5 [] =
        .ok ((sampleBefore sampleRequested).services, some [1]) := rfl
    have hcreate : createFromAccumulationState sampleHashing (sampleBefore sampleRequested) 5 0 100 =
        .ok (sampleStart sampleRequested) := rfl
    refine ⟨o, x', out, hrun, hround, .eject hcredit hcreate (.none _) hcall rfl hresume hanswer
      (.call (.none x) hnew) (.inl hvisible), fun hgone => ?_⟩
    cases hthere.symm.trans hgone.account
  · refine ⟨sampleHoard_invariant, ?_⟩
    have hrun : ∃ (o : PvmAccumulateOutput 0) (out : ParallelAccumulationOutput 0)
        (x : AccumulateInvocationContext 0) (answer : InvocationMutationOutput),
        runServices (sampleInvocations [(22, sampleEjectRegisters)]) (sampleOffice sampleHoard)
          sampleTurn sampleTurn.serviceIds = some [(5, o)] ∧
        parallelAccumulation sampleHashing.primitives 100 (sampleInvocations [(22, sampleEjectRegisters)])
          (sampleOffice sampleHoard) sampleTurn = .ok out ∧
        execute sampleHashing .eject 9999 sampleEjectRegisters sampleMemory
          (sampleStart sampleHoard) = .ok (answer, x) ∧
        answer.exitCondition = .resume ∧ answer.registers.get 7 = HostCallResult.ok.value ∧
        o.stateContext.services = x.services ∧
        out.accumulationState.services.retrieveStorageItem 7 [] =
          .ok (List.replicate (2 ^ 32 - 29) 0) :=
      ⟨_, _, _, _, rfl, rfl, rfl, rfl, rfl, rfl, rfl⟩
    obtain ⟨o, out, x, answer, hrun, hround, hcall, hresume, hanswer, hvisible, hthere⟩ := hrun
    have hcredit : creditAndLookup (sampleBefore sampleHoard).services 5 [] =
        .ok ((sampleBefore sampleHoard).services, some [1]) := rfl
    have hcreate : createFromAccumulationState sampleHashing (sampleBefore sampleHoard) 5 0 100 =
        .ok (sampleStart sampleHoard) := rfl
    refine ⟨o, x, out, hrun, hround, .eject hcredit hcreate (.none _) hcall rfl hresume hanswer
      (.none x) (.inl hvisible), fun hgone => ?_⟩
    exact hgone.storageItem _ _ hthere

end HostCalls
