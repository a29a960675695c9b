import Pyjamaz.Accumulation.Overlay
import Pyjamaz.Services.View

/-!
# Preimages that come in

Preimages reach the accounts that have requested them in two ways: services provide them while they
accumulate, and blocks carry them in their preimages extrinsic.  Both go through a list, and an entry
of the list either changes nothing or is the change `View.Change.provided` to one service, as long as
it has fewer than `2 ^ 32 - 2` bytes.
-/

namespace Accumulation

open Services Octets

/-! ## The preimages extrinsic -/

/-- `preimage_exists` -/
def preimageExists (st : ServicesState) (service : ℕ) (preimageHash : Octets32) :
    Except ServiceError Bool :=
  match st.retrievePreimage service preimageHash with
  | .ok _ => .ok true
  | .error .noResult => .ok false
  | .error e => .error e

/-- `is_newly_requested` -/
def isNewlyRequested (P : Primitives) (st : ServicesState) (service : ℕ) (preimageHash : Octets32)
    (preimageLength : ℕ) : Except ServiceError Bool :=
  match st.retrievePreimageAvailability P service preimageHash preimageLength with
  | .ok availability => .ok (availability = [])
  | .error .noResult => .ok false
  | .error e => .error e

/-- One preimage of the extrinsic: its requester and its blob. -/
def integratePreimage (P : Primitives) (timeslot : ℕ) (st : ServicesState)
    (preimage : ℕ × Octets) : Except ServiceError ServicesState := do
  let (requester, blob) := preimage
  let preimageHash := P.blake2b256Hash blob
  let known ← preimageExists st requester preimageHash
  let newlyRequested ← isNewlyRequested P st requester preimageHash blob.length
  if !known && newlyRequested then
    let st ← st.storePreimage P requester blob true
    st.storePreimageAvailability P requester preimageHash blob.length [timeslot] true
  else return st

/-- `state_transition_after_preimages` -/
def stateTransitionAfterPreimages (P : Primitives) (timeslot : ℕ)
    (extrinsicPreimages : List (ℕ × Octets)) (st : ServicesState) :
    Except ServiceError ServicesState :=
  extrinsicPreimages.foldlM (integratePreimage P timeslot) st

/-! ## Views over a store with the pending changes -/

section Written

variable {P : Primitives} {pending : PendingChanges} {writes : List StoreWrite}
  {services : Finset ℕ}

/-- Where something is pending, the store is not asked. -/
lemma read_writeAll {K V : Type} [DecidableEq K] {κ : ItemKind K V} {k : K}
    (h : (κ.pending pending).get? k = none →
      ∀ storage, κ.stored (Store.writeAll storage writes) k = κ.stored storage k)
    (storage : Store) :
    κ.read ⟨Store.writeAll storage writes, pending, services⟩ k = κ.read ⟨storage, pending, services⟩ k := by
  rw [ItemKind.read, ItemKind.read]
  cases hget : (κ.pending pending).get? k with
  | none => exact h hget storage
  | some v => rw [readOverlay_some, readOverlay_some]

/-- Writing pending changes to the store does not change what is answered about a service, whatever
is written under the keys of others. -/
lemma view_writeAll {s : ℕ} (h : ∀ w ∈ writes, w.1.OfService s → WrittenFor P pending [] w)
    (storage : Store) :
    ServicesState.view P ⟨Store.writeAll storage writes, pending, services⟩ s =
      ServicesState.view P ⟨storage, pending, services⟩ s := by
  have haccount : accountKind.read ⟨Store.writeAll storage writes, pending, services⟩ s =
      accountKind.read ⟨storage, pending, services⟩ s := by
    refine read_writeAll (fun hnone => ItemKind.stored_writeAll_of_ne ?_) storage
    intro w hw hkey
    obtain ⟨v, hget, -⟩ := (h w hw (by rw [hkey]; exact rfl)).of_account hkey
    cases hnone.symm.trans hget
  have hitem : ∀ key, storageItemKind.read ⟨Store.writeAll storage writes, pending, services⟩ (s, key) =
      storageItemKind.read ⟨storage, pending, services⟩ (s, key) := by
    intro key
    refine read_writeAll (fun hnone storage => ?_) storage
    by_cases hs : s < 2 ^ 32
    · apply ItemKind.stored_writeAll_of_ne
      intro w hw hkey
      obtain ⟨v, hget, -⟩ :=
        (h w hw (by rw [hkey]; exact rfl)).of_storageItem (k := (s, key)) hs hkey
      cases hnone.symm.trans hget
    · simp only [storageItemKind, Store.storageItem_eq, if_neg hs]
  have hpreimage : ∀ preimageHash,
      preimageKind.read ⟨Store.writeAll storage writes, pending, services⟩ (s, preimageHash) =
        preimageKind.read ⟨storage, pending, services⟩ (s, preimageHash) := by
    intro preimageHash
    refine read_writeAll (fun hnone storage => ?_) storage
    by_cases hs : s < 2 ^ 32
    · apply ItemKind.stored_writeAll_of_ne
      intro w hw hkey
      rcases (h w hw (by rw [hkey]; exact rfl)).of_preimage (k := (s, preimageHash)) hs hkey with
        ⟨v, hget, -⟩ | ⟨blob, hmem, -⟩
      · cases hnone.symm.trans hget
      · cases hmem
    · simp only [preimageKind, Store.preimage_eq, if_neg hs]
  have hrequest : ∀ r : Octets32 × ℕ, r.2 < 2 ^ 32 - 2 → s < 2 ^ 32 →
      (availabilityKind P).read ⟨Store.writeAll storage writes, pending, services⟩ (s, r) =
        (availabilityKind P).read ⟨storage, pending, services⟩ (s, r) := by
    intro r hr hs
    refine read_writeAll (fun hnone => ItemKind.stored_writeAll_of_ne ?_) storage
    intro w hw hkey
    rcases (h w hw (by rw [hkey]; exact rfl)).of_availability (k := (s, r)) ⟨hr, hs⟩ hkey with
      ⟨v, hget, -⟩ | ⟨blob, hmem, -⟩
    · cases hnone.symm.trans hget
    · cases hmem
  simp only [ServicesState.view, View.mk.injEq, retrieveServiceAccount_eq_read,
    retrieveStorageItem_eq_read, retrievePreimage_eq_read, retrievePreimageAvailability_eq_read,
    haccount, hitem, hpreimage, true_and]
  funext r
  split
  · next hr =>
    split
    · next hs => rw [hrequest r hr hs.1]
    · rfl
  · rfl

end Written

/-! ## Single preimages -/

section Provided

variable {P : Primitives} {timeslot expungePeriod : ℕ} {st st' : ServicesState}

/-- The pending changes with a preimage and its history. -/
def withPreimage (P : Primitives) (timeslot : ℕ) (st : ServicesState) (s : ℕ) (blob : Octets) :
    ServicesState :=
  (st.setPendingPreimage s (P.blake2b256Hash blob) (some blob)).setPendingAvailability s
    (P.blake2b256Hash blob) blob.length (some [timeslot])

lemma view_withPreimage {s t : ℕ} {blob : Octets} (hlength : s = t → blob.length < 2 ^ 32 - 2)
    (hretrieve : st.retrievePreimageAvailability P s (P.blake2b256Hash blob) blob.length = .ok []) :
    (st.view P t).Changes P timeslot expungePeriod
      ((withPreimage P timeslot st s blob).view P t) := by
  rw [withPreimage]
  by_cases ht : t = s
  · subst ht
    obtain ⟨hs, hpresent⟩ := request_of_retrieve (hlength rfl) hretrieve
    rw [view_setPendingAvailability_self _ _ hs (hlength rfl), view_setPendingPreimage_self]
    exact .single (.provided hpresent)
  · rw [view_setPendingAvailability_of_ne _ _ ht, view_setPendingPreimage_of_ne _ _ ht]

/-- Writing the preimage and its history to the store, too, answers the same. -/
lemma view_writePreimage {s t : ℕ} {blob : Octets} {writes : List StoreWrite} {services : Finset ℕ}
    (hlength : s = t → blob.length < 2 ^ 32 - 2)
    (hwrites : ∀ w ∈ writes, preimageKind.Writes (s, P.blake2b256Hash blob) (some blob) w ∨
      WritesHistory P (s, P.blake2b256Hash blob, blob.length) (some [timeslot]) w) :
    ServicesState.view P ⟨Store.writeAll st.stateStorage writes,
        (withPreimage P timeslot st s blob).pendingChanges, services⟩ t =
      (withPreimage P timeslot st s blob).view P t := by
  refine (view_writeAll (fun w hw hservice => ?_) st.stateStorage).trans rfl
  rcases hwrites w hw with hw | hw
  · exact .preimage (Dict.get?_insert_self _ _ _) hw
  · exact .availability (Dict.get?_insert_self _ _ _)
      (hw.writes (hlength (hw.service.service_eq hservice)))

lemma integrateProvision_changes {provision : ℕ × Octets} {t : ℕ}
    (hlength : provision.1 = t → provision.2.length < 2 ^ 32 - 2)
    (h : integrateProvision P timeslot st provision = .ok st') :
    (st.view P t).Changes P timeslot expungePeriod (st'.view P t) := by
  obtain ⟨s, blob⟩ := provision
  rw [integrateProvision, Except.bind_eq_ok] at h
  obtain ⟨known, -, h⟩ := h
  cases known with
  | false =>
    cases h
    exact .refl
  | true =>
    simp only [Bool.not_true, Bool.false_eq_true, if_false] at h
    split at h
    · cases h
      exact .refl
    · cases h
    · next availability hretrieve =>
      split at h
      · next hnil =>
        subst hnil
        obtain ⟨st₁, h₁, h⟩ := Except.bind_eq_ok.mp h
        obtain ⟨w₁, hw₁, rfl⟩ := storePreimageAvailability_eq_ok (liftServices_eq_ok h₁)
        obtain ⟨w₂, hw₂, rfl⟩ := storePreimage_eq_ok (liftServices_eq_ok h)
        have hview : ServicesState.view P ⟨Store.writeAll st.stateStorage [w₁, w₂],
            (withPreimage P timeslot st s blob).pendingChanges, insert s st.services⟩ t = _ :=
          view_writePreimage hlength (by
            intro w hw
            rcases List.mem_pair.mp hw with rfl | rfl
            · exact .inr hw₁
            · exact .inl hw₂)
        refine Relation.ReflTransGen.trans (view_withPreimage hlength hretrieve) ?_
        rw [← hview]
        exact .refl
      · cases h
        exact .refl

lemma integratePreimage_changes {preimage : ℕ × Octets} {t : ℕ}
    (hlength : preimage.1 = t → preimage.2.length < 2 ^ 32 - 2)
    (h : integratePreimage P timeslot st preimage = .ok st') :
    (st.view P t).Changes P timeslot expungePeriod (st'.view P t) := by
  obtain ⟨s, blob⟩ := preimage
  rw [integratePreimage] at h
  obtain ⟨known, -, h⟩ := Except.bind_eq_ok.mp h
  obtain ⟨newlyRequested, hrequested, h⟩ := Except.bind_eq_ok.mp h
  split at h
  · next hboth =>
    obtain ⟨-, rfl⟩ := Bool.and_eq_true_iff.mp hboth
    have hretrieve : st.retrievePreimageAvailability P s (P.blake2b256Hash blob) blob.length =
        .ok [] := by
      rw [isNewlyRequested] at hrequested
      split at hrequested
      · next availability hretrieve =>
        have hnil := of_decide_eq_true (Except.ok.inj hrequested)
        rw [hretrieve, hnil]
      · cases hrequested
      · cases hrequested
    obtain ⟨st₁, h₁, h⟩ := Except.bind_eq_ok.mp h
    obtain ⟨w₁, hw₁, rfl⟩ := storePreimage_eq_ok h₁
    obtain ⟨w₂, hw₂, rfl⟩ := storePreimageAvailability_eq_ok h
    have hview : ServicesState.view P ⟨Store.writeAll st.stateStorage [w₁, w₂],
        (withPreimage P timeslot st s blob).pendingChanges, st.services⟩ t = _ :=
      view_writePreimage hlength (by
        intro w hw
        rcases List.mem_pair.mp hw with rfl | rfl
        · exact .inl hw₁
        · exact .inr hw₂)
    refine Relation.ReflTransGen.trans (view_withPreimage hlength hretrieve) ?_
    rw [← hview]
    exact .refl
  · cases h
    exact .refl

/-- Changes through a list, one entry after the other. -/
lemma foldlM_changes {ε ι : Type} {f : ServicesState → ι → Except ε ServicesState} {entries : List ι}
    {t : ℕ} (hstep : ∀ e ∈ entries, ∀ st st', f st e = .ok st' →
      (st.view P t).Changes P timeslot expungePeriod (st'.view P t)) :
    ∀ {st st' : ServicesState}, entries.foldlM f st = .ok st' →
      (st.view P t).Changes P timeslot expungePeriod (st'.view P t) := by
  induction entries with
  | nil =>
    intro st st' h
    cases h
    exact .refl
  | cons e rest ih =>
    intro st st' h
    rw [List.foldlM_cons] at h
    obtain ⟨st₁, hfirst, h⟩ := Except.bind_eq_ok.mp h
    exact (hstep e List.mem_cons_self st st₁ hfirst).trans
      (ih (fun e he => hstep e (List.mem_cons_of_mem _ he)) h)

/-- The provisions of a round. -/
lemma integrateProvisions_changes {coreCount : ℕ} {outputs : Outputs coreCount} {t : ℕ}
    (hlength : ∀ p ∈ provisionsOf outputs, p.1 = t → p.2.length < 2 ^ 32 - 2)
    (h : integrateProvisions P timeslot outputs st = .ok st') :
    (st.view P t).Changes P timeslot expungePeriod (st'.view P t) :=
  foldlM_changes (fun p hp _ _ hstep => integrateProvision_changes (hlength p hp) hstep) h

/-- The preimages extrinsic. -/
lemma afterPreimages_changes {extrinsicPreimages : List (ℕ × Octets)} {t : ℕ}
    (hlength : ∀ p ∈ extrinsicPreimages, p.1 = t → p.2.length < 2 ^ 32 - 2)
    (h : stateTransitionAfterPreimages P timeslot extrinsicPreimages st = .ok st') :
    (st.view P t).Changes P timeslot expungePeriod (st'.view P t) :=
  foldlM_changes (fun p hp _ _ hstep => integratePreimage_changes (hlength p hp) hstep) h

end Provided

end Accumulation
