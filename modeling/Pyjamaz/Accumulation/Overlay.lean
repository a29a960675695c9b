import Pyjamaz.Accumulation.Order
import Pyjamaz.Services.Overlay

/-!
# Coherence of a round

A round replaces the pending changes by the merged ones and writes them, and then the preimages that
were provided, to the store.  Afterwards the services state is coherent, whatever the rounds before it
did, and items that neither the merge nor a provision mentions read as before.

Two things can break this, and `Filed` rules them out.  `store_preimage` files a blob under its own hash,
so a pending preimage under another hash would not reach the store.  And an availability history for a
length of `2 ^ 32 - 1` or `2 ^ 32 - 2` shares its key with a storage item or a preimage
(`sampleOutputs_incoherent` has an example of each).
-/

namespace Accumulation

open Services Octets

variable {coreCount : ℕ}

/-! ## Committing the changes -/

/-- Preimages are pending under their own hash, and the lengths of availability histories are no tags
of other items. -/
structure Filed (P : Primitives) (pending : PendingChanges) : Prop where
  preimages : ∀ s preimageHash blob, pending.preimages.get? (s, preimageHash) = some (some blob) →
    P.blake2b256Hash blob = preimageHash
  lengths : ∀ k v, pending.preimagesAvailability.get? k = some v → k.2.2 < 2 ^ 32 - 2

/-- Preimages are pending under their own hash. -/
def FiledPreimages (P : Primitives) (pending : PendingChanges) : Prop :=
  ∀ s preimageHash blob, pending.preimages.get? (s, preimageHash) = some (some blob) →
    P.blake2b256Hash blob = preimageHash

/-- A write of the store on behalf of the pending changes or of a provided preimage. -/
inductive WrittenFor (P : Primitives) (pending : PendingChanges) (provisions : List (ℕ × Octets)) :
    StoreWrite → Prop
  | account {s v w} (hget : pending.serviceAccounts.get? s = some v)
      (hw : accountKind.Writes s v w) : WrittenFor P pending provisions w
  | storageItem {k v w} (hget : pending.storageItems.get? k = some v)
      (hw : storageItemKind.Writes k v w) : WrittenFor P pending provisions w
  | preimage {k v w} (hget : pending.preimages.get? k = some v)
      (hw : preimageKind.Writes k v w) : WrittenFor P pending provisions w
  | availability {k v w} (hget : pending.preimagesAvailability.get? k = some v)
      (hw : (availabilityKind P).Writes k v w) : WrittenFor P pending provisions w
  | providedPreimage {s blob v w} (hmem : (s, blob) ∈ provisions)
      (hw : preimageKind.Writes (s, P.blake2b256Hash blob) v w) : WrittenFor P pending provisions w
  | providedAvailability {s blob v w} (hmem : (s, blob) ∈ provisions)
      (hw : (availabilityKind P).Writes (s, P.blake2b256Hash blob, blob.length) v w) :
      WrittenFor P pending provisions w

/-- A loop that makes one write in each step. -/
lemma foldlM_writes {E : Type} {Made : E → StoreWrite → Prop} {pending : PendingChanges}
    {services : Finset ℕ}
    {f : ServicesState → E → Except AccumulationError ServicesState} {entries : List E}
    (hstep : ∀ storage e st', e ∈ entries → f ⟨storage, pending, services⟩ e = .ok st' →
      ∃ w, Made e w ∧ st' = ⟨Store.write storage w, pending, services⟩) :
    ∀ {storage st'}, entries.foldlM f ⟨storage, pending, services⟩ = .ok st' →
      ∃ writes, st' = ⟨Store.writeAll storage writes, pending, services⟩ ∧
        List.Forall₂ Made entries writes := by
  induction entries with
  | nil =>
    intro storage st' h
    cases h
    exact ⟨[], rfl, .nil⟩
  | cons e rest ih =>
    intro storage st' h
    rw [List.foldlM_cons, Except.bind_eq_ok] at h
    obtain ⟨st₁, hfirst, h⟩ := h
    obtain ⟨w, hw, rfl⟩ := hstep storage e st₁ List.mem_cons_self hfirst
    obtain ⟨writes, rfl, hwrites⟩ :=
      ih (fun storage e st' he => hstep storage e st' (List.mem_cons_of_mem _ he)) h
    exact ⟨w :: writes, rfl, .cons hw hwrites⟩

section Commit

variable {P : Primitives} {pending : PendingChanges} {storage : Store} {services : Finset ℕ}
  {st' : ServicesState}

lemma commitServiceAccounts_eq_ok (h : commitServiceAccounts ⟨storage, pending, services⟩ = .ok st') :
    ∃ writes, st' = ⟨Store.writeAll storage writes, pending, services⟩ ∧
      List.Forall₂ (fun e w => accountKind.Writes e.1 e.2 w) pending.serviceAccounts.entries writes := by
  refine foldlM_writes ?_ h
  rintro storage ⟨s, account⟩ st₁ hmem hstep
  have hstep := liftServices_eq_ok hstep
  cases account with
  | none => exact deleteServiceAccount_eq_ok hstep
  | some account =>
    obtain ⟨w, hw, rfl⟩ := storeServiceAccount_eq_ok hstep
    refine ⟨w, hw, ?_⟩
    rw [ServicesState.setPendingAccount, Dict.insert_of_get? (Dict.mem_entries_iff.mp hmem)]

lemma commitStorageItems_eq_ok (h : commitStorageItems ⟨storage, pending, services⟩ = .ok st') :
    ∃ writes, st' = ⟨Store.writeAll storage writes, pending, services⟩ ∧
      List.Forall₂ (fun e w => storageItemKind.Writes e.1 e.2 w) pending.storageItems.entries
        writes := by
  refine foldlM_writes ?_ h
  rintro storage ⟨key, value⟩ st₁ hmem hstep
  have hstep := liftServices_eq_ok hstep
  cases value with
  | none => exact deleteStorageItem_eq_ok hstep
  | some value =>
    obtain ⟨w, hw, rfl⟩ := storeStorageItem_eq_ok hstep
    refine ⟨w, hw, ?_⟩
    rw [ServicesState.setPendingStorageItem, Dict.insert_of_get? (Dict.mem_entries_iff.mp hmem)]

/-- Preimages that are filed under their own hash: the dictionary that is iterated over stays as it
is. -/
lemma commitPreimages_eq_ok (hfiled : FiledPreimages P pending)
    (h : commitPreimages P ⟨storage, pending, services⟩ = .ok st') :
    ∃ writes, st' = ⟨Store.writeAll storage writes, pending, services⟩ ∧
      List.Forall₂ (fun e w => preimageKind.Writes e.1 e.2 w) pending.preimages.entries writes := by
  rw [commitPreimages, Dict.keys, List.foldlM_map] at h
  refine foldlM_writes ?_ h
  rintro storage ⟨⟨s, preimageHash⟩, value⟩ st₁ hmem hstep
  have hget := Dict.mem_entries_iff.mp hmem
  rw [commitPreimage, hget] at hstep
  cases value with
  | none => exact deletePreimage_eq_ok (liftServices_eq_ok hstep)
  | some blob =>
    obtain ⟨st₂, hstore, hstep⟩ := Except.bind_eq_ok.mp hstep
    obtain ⟨w, hw, rfl⟩ := storePreimage_eq_ok (liftServices_eq_ok hstore)
    rw [hfiled s preimageHash blob hget] at hw hstep
    have hsame : ((⟨storage, pending, services⟩ : ServicesState).setPendingPreimage s preimageHash
        (some blob)).pendingChanges = pending := by
      rw [ServicesState.setPendingPreimage, Dict.insert_of_get? hget]
    rw [hsame] at hstep
    simp only [ne_eq, not_true_eq_false, if_false] at hstep
    cases hstep
    exact ⟨w, hw, rfl⟩

lemma commitPreimagesAvailability_eq_ok
    (h : commitPreimagesAvailability P ⟨storage, pending, services⟩ = .ok st') :
    ∃ writes, st' = ⟨Store.writeAll storage writes, pending, services⟩ ∧
      List.Forall₂ (fun e w => WritesHistory P e.1 e.2 w) pending.preimagesAvailability.entries
        writes := by
  refine foldlM_writes ?_ h
  rintro storage ⟨key, value⟩ st₁ hmem hstep
  have hget := Dict.mem_entries_iff.mp hmem
  have hstep := liftServices_eq_ok hstep
  cases value with
  | none => exact deletePreimageAvailability_eq_ok hstep
  | some value =>
    obtain ⟨w, hw, rfl⟩ := storePreimageAvailability_eq_ok hstep
    refine ⟨w, hw, ?_⟩
    rw [ServicesState.setPendingAvailability, Dict.insert_of_get? hget]

/-- An entry of a loop is written, and a write of a loop is for one of its entries. -/
lemma exists_write_of_mem {E : Type} {Made : E → StoreWrite → Prop} {entries : List E}
    {writes : List StoreWrite} (h : List.Forall₂ Made entries writes) :
    (∀ e ∈ entries, ∃ w ∈ writes, Made e w) ∧ ∀ w ∈ writes, ∃ e ∈ entries, Made e w := by
  induction h with
  | nil => exact ⟨nofun, nofun⟩
  | @cons e w entries writes hw _ ih =>
    constructor
    · intro e' he'
      rcases List.mem_cons.mp he' with rfl | he'
      · exact ⟨w, List.mem_cons_self, hw⟩
      · obtain ⟨w', hw', hwrites⟩ := ih.1 e' he'
        exact ⟨w', List.mem_cons_of_mem _ hw', hwrites⟩
    · intro w' hw'
      rcases List.mem_cons.mp hw' with rfl | hw'
      · exact ⟨e, List.mem_cons_self, hw⟩
      · obtain ⟨e', he', hwrites⟩ := ih.2 w' hw'
        exact ⟨e', List.mem_cons_of_mem _ he', hwrites⟩

/-- Every pending change is written. -/
structure Complete (P : Primitives) (pending : PendingChanges) (writes : List StoreWrite) : Prop where
  accounts : ∀ k v, pending.serviceAccounts.get? k = some v → ∃ w ∈ writes, accountKind.Writes k v w
  storageItems : ∀ k v, pending.storageItems.get? k = some v →
    ∃ w ∈ writes, storageItemKind.Writes k v w
  preimages : ∀ k v, pending.preimages.get? k = some v → ∃ w ∈ writes, preimageKind.Writes k v w
  availability : ∀ k v, pending.preimagesAvailability.get? k = some v →
    ∃ w ∈ writes, (availabilityKind P).Writes k v w

/-- Every pending change is written, and nothing else. -/
structure Commits (P : Primitives) (pending : PendingChanges) (writes : List StoreWrite) :
    Prop where
  accounts : ∀ s v, pending.serviceAccounts.get? s = some v → ∃ w ∈ writes, accountKind.Writes s v w
  storageItems : ∀ k v, pending.storageItems.get? k = some v →
    ∃ w ∈ writes, storageItemKind.Writes k v w
  preimages : ∀ k v, pending.preimages.get? k = some v → ∃ w ∈ writes, preimageKind.Writes k v w
  availability : ∀ k v, pending.preimagesAvailability.get? k = some v →
    ∃ w ∈ writes, WritesHistory P k v w
  only : ∀ w ∈ writes, WrittenFor P pending [] w ∨
    ∃ k v, pending.preimagesAvailability.get? k = some v ∧ WritesHistory P k v w

/-- What the pending changes say about one service is written, and of the keys of the service
nothing else is. -/
structure CommittedOf (P : Primitives) (pending : PendingChanges) (s : ℕ)
    (writes : List StoreWrite) : Prop where
  accounts : ∀ v, pending.serviceAccounts.get? s = some v → ∃ w ∈ writes, accountKind.Writes s v w
  storageItems : ∀ key v, pending.storageItems.get? (s, key) = some v →
    ∃ w ∈ writes, storageItemKind.Writes (s, key) v w
  preimages : ∀ preimageHash v, pending.preimages.get? (s, preimageHash) = some v →
    ∃ w ∈ writes, preimageKind.Writes (s, preimageHash) v w
  availability : ∀ r v, pending.preimagesAvailability.get? (s, r) = some v →
    ∃ w ∈ writes, (availabilityKind P).Writes (s, r) v w
  only : ∀ w ∈ writes, w.1.OfService s → WrittenFor P pending [] w

/-- The four loops write the pending changes and nothing else. -/
lemma commitChanges_writes (hfiled : FiledPreimages P pending)
    (h : commitChanges P ⟨storage, pending, services⟩ = .ok st') :
    ∃ writes, st' = ⟨Store.writeAll storage writes, pending, services⟩ ∧ Commits P pending writes := by
  rw [commitChanges, Except.bind_eq_ok] at h
  obtain ⟨st₁, h₁, h⟩ := h
  obtain ⟨w₁, rfl, hw₁⟩ := commitServiceAccounts_eq_ok h₁
  obtain ⟨st₂, h₂, h⟩ := Except.bind_eq_ok.mp h
  obtain ⟨w₂, rfl, hw₂⟩ := commitStorageItems_eq_ok h₂
  obtain ⟨st₃, h₃, h⟩ := Except.bind_eq_ok.mp h
  obtain ⟨w₃, rfl, hw₃⟩ := commitPreimages_eq_ok hfiled h₃
  obtain ⟨w₄, rfl, hw₄⟩ := commitPreimagesAvailability_eq_ok h
  have hall : Store.writeAll (Store.writeAll (Store.writeAll (Store.writeAll storage w₁) w₂) w₃) w₄ =
      Store.writeAll storage (w₁ ++ w₂ ++ w₃ ++ w₄) := by
    simp only [Store.writeAll, List.foldl_append]
  obtain ⟨hc₁, ho₁⟩ := exists_write_of_mem hw₁
  obtain ⟨hc₂, ho₂⟩ := exists_write_of_mem hw₂
  obtain ⟨hc₃, ho₃⟩ := exists_write_of_mem hw₃
  obtain ⟨hc₄, ho₄⟩ := exists_write_of_mem hw₄
  refine ⟨w₁ ++ w₂ ++ w₃ ++ w₄, by rw [hall], ?_, ?_, ?_, ?_, ?_⟩
  · intro k v hget
    obtain ⟨w, hw, hwrites⟩ := hc₁ (k, v) (Dict.mem_entries_iff.mpr hget)
    exact ⟨w, by simp [hw], hwrites⟩
  · intro k v hget
    obtain ⟨w, hw, hwrites⟩ := hc₂ (k, v) (Dict.mem_entries_iff.mpr hget)
    exact ⟨w, by simp [hw], hwrites⟩
  · intro k v hget
    obtain ⟨w, hw, hwrites⟩ := hc₃ (k, v) (Dict.mem_entries_iff.mpr hget)
    exact ⟨w, by simp [hw], hwrites⟩
  · intro k v hget
    obtain ⟨w, hw, hwrites⟩ := hc₄ (k, v) (Dict.mem_entries_iff.mpr hget)
    exact ⟨w, by simp [hw], hwrites⟩
  · intro w hw
    simp only [List.mem_append, or_assoc] at hw
    rcases hw with hw | hw | hw | hw
    · obtain ⟨⟨k, v⟩, he, hwrites⟩ := ho₁ w hw
      exact .inl (.account (Dict.mem_entries_iff.mp he) hwrites)
    · obtain ⟨⟨k, v⟩, he, hwrites⟩ := ho₂ w hw
      exact .inl (.storageItem (Dict.mem_entries_iff.mp he) hwrites)
    · obtain ⟨⟨k, v⟩, he, hwrites⟩ := ho₃ w hw
      exact .inl (.preimage (Dict.mem_entries_iff.mp he) hwrites)
    · obtain ⟨⟨k, v⟩, he, hwrites⟩ := ho₄ w hw
      exact .inr ⟨k, v, Dict.mem_entries_iff.mp he, hwrites⟩

/-- A service without a request with the tag of another kind as its length. -/
lemma Commits.committedOf {writes : List StoreWrite} (h : Commits P pending writes) {s : ℕ}
    (hshort : pending.ShortRequestsOf s) : CommittedOf P pending s writes where
  accounts := h.accounts s
  storageItems key := h.storageItems (s, key)
  preimages preimageHash := h.preimages (s, preimageHash)
  availability r v hget := by
    obtain ⟨w, hw, hwrites⟩ := h.availability (s, r) v hget
    exact ⟨w, hw, hwrites.writes (hshort r v hget)⟩
  only := by
    intro w hw hservice
    rcases h.only w hw with hfor | ⟨⟨t, r⟩, v, hget, hwrites⟩
    · exact hfor
    · obtain rfl := hwrites.service.service_eq hservice
      exact .availability hget (hwrites.writes (hshort r v hget))

/-- What is written where no request has the tag of another kind as its length. -/
lemma commitChanges_eq_ok (hfiled : Filed P pending)
    (h : commitChanges P ⟨storage, pending, services⟩ = .ok st') :
    ∃ writes, st' = ⟨Store.writeAll storage writes, pending, services⟩ ∧ Complete P pending writes ∧
      ∀ w ∈ writes, WrittenFor P pending [] w := by
  obtain ⟨writes, hst', hcommits⟩ := commitChanges_writes hfiled.preimages h
  refine ⟨writes, hst', ⟨hcommits.accounts, hcommits.storageItems, hcommits.preimages, ?_⟩, ?_⟩
  · intro k v hget
    obtain ⟨w, hw, hwrites⟩ := hcommits.availability k v hget
    exact ⟨w, hw, hwrites.writes (hfiled.lengths k v hget)⟩
  · intro w hw
    rcases hcommits.only w hw with hfor | ⟨k, v, hget, hwrites⟩
    · exact hfor
    · exact .availability hget (hwrites.writes (hfiled.lengths k v hget))

end Commit

/-! ## What a write was made for -/

section WrittenFor

variable {P : Primitives} {pending : PendingChanges} {provisions provisions' : List (ℕ × Octets)}
  {w : StoreWrite}

lemma WrittenFor.mono (h : WrittenFor P pending provisions w)
    (hsub : ∀ p ∈ provisions, p ∈ provisions') : WrittenFor P pending provisions' w := by
  cases h with
  | account hget hw => exact .account hget hw
  | storageItem hget hw => exact .storageItem hget hw
  | preimage hget hw => exact .preimage hget hw
  | availability hget hw => exact .availability hget hw
  | providedPreimage hmem hw => exact .providedPreimage (hsub _ hmem) hw
  | providedAvailability hmem hw => exact .providedAvailability (hsub _ hmem) hw

/-- The key of an item of another kind. -/
lemma keyClass_absurd {K V K' V' : Type} {κ : ItemKind K V} {κ' : ItemKind K' V'} {k : K}
    {v : Option V} {k' : K'} (hw : κ.Writes k v w) (hfits : κ'.Fits k') (hkey : w.1 = κ'.key k')
    (hclass : κ.keyClass ≠ κ'.keyClass) : False :=
  hclass (by rw [← hw.keyClass_eq, hkey, κ'.keyClass_key hfits])

lemma WrittenFor.of_account {s : ℕ} (h : WrittenFor P pending provisions w)
    (hkey : w.1 = accountKind.key s) :
    ∃ v, pending.serviceAccounts.get? s = some v ∧ accountKind.Writes s v w := by
  have hfits : accountKind.Fits s := trivial
  cases h with
  | account hget hw =>
    obtain rfl := hw.eq_of_key hfits hkey
    exact ⟨_, hget, hw⟩
  | storageItem _ hw => exact (keyClass_absurd hw hfits hkey (by decide)).elim
  | preimage _ hw => exact (keyClass_absurd hw hfits hkey (by decide)).elim
  | availability _ hw => exact (keyClass_absurd hw hfits hkey nofun).elim
  | providedPreimage _ hw => exact (keyClass_absurd hw hfits hkey (by decide)).elim
  | providedAvailability _ hw => exact (keyClass_absurd hw hfits hkey nofun).elim

lemma WrittenFor.of_storageItem {k : ℕ × Octets} (h : WrittenFor P pending provisions w)
    (hfits : storageItemKind.Fits k) (hkey : w.1 = storageItemKind.key k) :
    ∃ v, pending.storageItems.get? k = some v ∧ storageItemKind.Writes k v w := by
  cases h with
  | account _ hw => exact (keyClass_absurd hw hfits hkey (by decide)).elim
  | storageItem hget hw =>
    obtain rfl := hw.eq_of_key hfits hkey
    exact ⟨_, hget, hw⟩
  | preimage _ hw => exact (keyClass_absurd hw hfits hkey (by decide)).elim
  | availability _ hw => exact (keyClass_absurd hw hfits hkey nofun).elim
  | providedPreimage _ hw => exact (keyClass_absurd hw hfits hkey (by decide)).elim
  | providedAvailability _ hw => exact (keyClass_absurd hw hfits hkey nofun).elim

lemma WrittenFor.of_preimage {k : ℕ × Octets32} (h : WrittenFor P pending provisions w)
    (hfits : preimageKind.Fits k) (hkey : w.1 = preimageKind.key k) :
    (∃ v, pending.preimages.get? k = some v ∧ preimageKind.Writes k v w) ∨
      ∃ blob, (k.1, blob) ∈ provisions ∧ k.2 = P.blake2b256Hash blob := by
  cases h with
  | account _ hw => exact (keyClass_absurd hw hfits hkey (by decide)).elim
  | storageItem _ hw => exact (keyClass_absurd hw hfits hkey (by decide)).elim
  | preimage hget hw =>
    obtain rfl := hw.eq_of_key hfits hkey
    exact .inl ⟨_, hget, hw⟩
  | availability _ hw => exact (keyClass_absurd hw hfits hkey nofun).elim
  | providedPreimage hmem hw =>
    obtain rfl := hw.eq_of_key hfits hkey
    exact .inr ⟨_, hmem, rfl⟩
  | providedAvailability _ hw => exact (keyClass_absurd hw hfits hkey nofun).elim

lemma WrittenFor.of_availability {k : ℕ × Octets32 × ℕ} (h : WrittenFor P pending provisions w)
    (hfits : (availabilityKind P).Fits k) (hkey : w.1 = (availabilityKind P).key k) :
    (∃ v, pending.preimagesAvailability.get? k = some v ∧ (availabilityKind P).Writes k v w) ∨
      ∃ blob, (k.1, blob) ∈ provisions ∧ k.2 = (P.blake2b256Hash blob, blob.length) := by
  cases h with
  | account _ hw => exact (keyClass_absurd hw hfits hkey nofun).elim
  | storageItem _ hw => exact (keyClass_absurd hw hfits hkey nofun).elim
  | preimage _ hw => exact (keyClass_absurd hw hfits hkey nofun).elim
  | availability hget hw =>
    obtain rfl := hw.eq_of_key hfits hkey
    exact .inl ⟨_, hget, hw⟩
  | providedPreimage _ hw => exact (keyClass_absurd hw hfits hkey nofun).elim
  | providedAvailability hmem hw =>
    obtain rfl := hw.eq_of_key hfits hkey
    exact .inr ⟨_, hmem, rfl⟩

end WrittenFor

/-! ## Coherence after the commit -/

section Coherence

variable {P : Primitives} {pending : PendingChanges}

lemma fits_of_complete {K V : Type} {κ : ItemKind K V} {writes : List StoreWrite} {k : K}
    {v : Option V} (h : ∃ w ∈ writes, κ.Writes k v w) : κ.Fits k := by
  obtain ⟨w, -, hw⟩ := h
  exact hw.1

/-- Once all of them are written, the pending changes are in the store. -/
lemma coherent_of_complete {writes : List StoreWrite} (hcomplete : Complete P pending writes)
    (honly : ∀ w ∈ writes, WrittenFor P pending [] w) (storage : Store) (services : Finset ℕ) :
    Coherent P ⟨Store.writeAll storage writes, pending, services⟩ where
  accounts := by
    refine ItemKind.coherent_writeAll hcomplete.accounts ?_ storage
    intro w hw k v hget hkey
    obtain ⟨v', hget', hwrites⟩ := (honly w hw).of_account hkey
    cases hget.symm.trans hget'
    exact hwrites
  storageItems := by
    refine ItemKind.coherent_writeAll hcomplete.storageItems ?_ storage
    intro w hw k v hget hkey
    have hfits := fits_of_complete (hcomplete.storageItems k v hget)
    obtain ⟨v', hget', hwrites⟩ := (honly w hw).of_storageItem hfits hkey
    cases hget.symm.trans hget'
    exact hwrites
  preimages := by
    refine ItemKind.coherent_writeAll hcomplete.preimages ?_ storage
    intro w hw k v hget hkey
    have hfits := fits_of_complete (hcomplete.preimages k v hget)
    rcases (honly w hw).of_preimage hfits hkey with ⟨v', hget', hwrites⟩ | ⟨blob, hmem, -⟩
    · cases hget.symm.trans hget'
      exact hwrites
    · cases hmem
  availability := by
    refine ItemKind.coherent_writeAll hcomplete.availability ?_ storage
    intro w hw k v hget hkey
    have hfits := fits_of_complete (hcomplete.availability k v hget)
    rcases (honly w hw).of_availability hfits hkey with ⟨v', hget', hwrites⟩ | ⟨blob, hmem, -⟩
    · cases hget.symm.trans hget'
      exact hwrites
    · cases hmem

/-! ## Provided preimages -/

/-- A provision of reasonable length keeps the state coherent and writes what it provides. -/
lemma integrateProvision_coherent (pending : PendingChanges) {timeslot : ℕ}
    {st st' : ServicesState} {provision : ℕ × Octets} (hlength : provision.2.length < 2 ^ 32 - 2) (hcoherent : Coherent P st)
    (h : integrateProvision P timeslot st provision = .ok st') :
    Coherent P st' ∧ ∃ writes, st'.stateStorage = Store.writeAll st.stateStorage writes ∧
      ∀ w ∈ writes, WrittenFor P pending [provision] w := by
  obtain ⟨s, blob⟩ := provision
  have hunchanged : Coherent P st ∧
      ∃ writes, st.stateStorage = Store.writeAll st.stateStorage writes ∧
        ∀ w ∈ writes, WrittenFor P pending [(s, blob)] w :=
    ⟨hcoherent, [], rfl, nofun⟩
  rw [integrateProvision, Except.bind_eq_ok] at h
  obtain ⟨known, -, h⟩ := h
  cases known with
  | false =>
    cases h
    exact hunchanged
  | true =>
    simp only [Bool.not_true, Bool.false_eq_true, if_false] at h
    split at h
    · cases h
      exact hunchanged
    · cases h
    · split at h
      · -- the request is open: the history and the blob are written
        obtain ⟨st₁, h₁, h⟩ := Except.bind_eq_ok.mp h
        have hcoherent : Coherent P { st with services := insert s st.services } :=
          hcoherent.of_same rfl rfl
        obtain ⟨w₁, hw₁, rfl⟩ := storePreimageAvailability_eq_ok (liftServices_eq_ok h₁)
        have hw₁ := hw₁.writes hlength
        obtain ⟨w₂, hw₂, rfl⟩ := storePreimage_eq_ok (liftServices_eq_ok h)
        have hclass₁ := hw₁.keyClass_eq
        have hclass₂ := hw₂.keyClass_eq
        refine ⟨⟨?_, ?_, ?_, ?_⟩, [w₁, w₂], rfl, ?_⟩
        · exact (hcoherent.accounts.write_other (by rw [hclass₁]; nofun) rfl).write_other
            (by rw [hclass₂]; decide) rfl
        · exact (hcoherent.storageItems.write_other (by rw [hclass₁]; nofun) rfl).write_other
            (by rw [hclass₂]; decide) rfl
        · exact (hcoherent.preimages.write_other (by rw [hclass₁]; nofun) rfl).write_own hw₂ rfl
        · exact (hcoherent.availability.write_own hw₁ rfl).write_other (by rw [hclass₂]; nofun) rfl
        · intro w hw
          rcases List.mem_pair.mp hw with rfl | rfl
          · exact .providedAvailability List.mem_cons_self hw₁
          · exact .providedPreimage List.mem_cons_self hw₂
      · cases h
        exact hunchanged

/-- All provisions of a round. -/
lemma foldlM_integrateProvision_coherent (pending : PendingChanges) {timeslot : ℕ}
    {provisions : List (ℕ × Octets)} (hlength : ∀ p ∈ provisions, p.2.length < 2 ^ 32 - 2) :
    ∀ {st st' : ServicesState}, Coherent P st →
      provisions.foldlM (integrateProvision P timeslot) st = .ok st' →
        Coherent P st' ∧ ∃ writes, st'.stateStorage = Store.writeAll st.stateStorage writes ∧
          ∀ w ∈ writes, WrittenFor P pending provisions w := by
  induction provisions with
  | nil =>
    intro st st' hcoherent h
    cases h
    exact ⟨hcoherent, [], rfl, nofun⟩
  | cons p rest ih =>
    intro st st' hcoherent h
    rw [List.foldlM_cons, Except.bind_eq_ok] at h
    obtain ⟨st₁, h₁, h⟩ := h
    obtain ⟨hcoherent₁, writes₁, hstorage₁, hfor₁⟩ :=
      integrateProvision_coherent pending (hlength p List.mem_cons_self) hcoherent h₁
    obtain ⟨hcoherent', writes, hstorage, hfor⟩ :=
      ih (fun p hp => hlength p (List.mem_cons_of_mem _ hp)) hcoherent₁ h
    refine ⟨hcoherent', writes₁ ++ writes, ?_, ?_⟩
    · rw [hstorage, hstorage₁, Store.writeAll, Store.writeAll, Store.writeAll, List.foldl_append]
    · intro w hw
      rcases List.mem_append.mp hw with hw | hw
      · refine (hfor₁ w hw).mono ?_
        intro q hq
        rw [List.mem_singleton.mp hq]
        exact List.mem_cons_self
      · exact (hfor w hw).mono (fun q hq => List.mem_cons_of_mem _ hq)

end Coherence

/-! ## Rounds -/

/-- An output whose changes are filed properly, and whose provisions are of reasonable length. -/
structure OutputFiled (P : Primitives) (o : PvmAccumulateOutput coreCount) : Prop where
  pending : Filed P o.pending
  provisions : ∀ p ∈ o.preimages, p.2.length < 2 ^ 32 - 2

/-- The preimages that the outputs provide. -/
def provisionsOf (outputs : Outputs coreCount) : List (ℕ × Octets) :=
  outputs.flatMap (fun (_, output) => output.preimages)

/-- The merge keeps preimages under their hashes. -/
lemma filedPreimages_mergedChanges {P : Primitives} {existing : List ℕ} {outputs : Outputs coreCount}
    (h : ∀ p ∈ outputs, FiledPreimages P p.2.pending) :
    FiledPreimages P (mergedChanges existing outputs) := by
  intro s preimageHash blob hget
  rcases mem_mapWritesOf (Dict.mem_of_get?_assign hget) with ⟨-, hnone, -⟩ | ⟨-, w, o, ho, hget', -⟩
  · cases hnone
  · exact h (w, o) ho s preimageHash blob hget'

/-- The merge has no request that no output has. -/
lemma shortRequests_mergedChanges {existing : List ℕ} {outputs : Outputs coreCount} {s : ℕ}
    (h : ∀ p ∈ outputs, p.2.pending.ShortRequestsOf s) :
    (mergedChanges existing outputs).ShortRequestsOf s := by
  intro r v hget
  rcases mem_mapWritesOf (Dict.mem_of_get?_assign hget) with
    ⟨-, -, p, hp, v', hget'⟩ | ⟨-, w, o, ho, hget', -⟩
  · exact h p hp r v' hget'
  · exact h (w, o) ho r v hget'

lemma filed_mergedChanges {P : Primitives} {existing : List ℕ} {outputs : Outputs coreCount}
    (h : ∀ p ∈ outputs, Filed P p.2.pending) : Filed P (mergedChanges existing outputs) where
  preimages := filedPreimages_mergedChanges (fun p hp => (h p hp).preimages)
  lengths k := shortRequests_mergedChanges (fun p hp r => (h p hp).lengths (k.1, r)) k.2

/-- A round leaves a coherent state, and has written the merged changes and the provisions. -/
lemma finishRound_coherent {P : Primitives} {timeslot : ℕ}
    {state : AccumulationStateComponents coreCount} {outputs : Outputs coreCount}
    {out : ParallelAccumulationOutput coreCount} (hfiled : ∀ p ∈ outputs, OutputFiled P p.2)
    (h : finishRound P timeslot state outputs = .ok out) :
    ∃ merged writes, mergeAccumulationServiceChanges state.services outputs = .ok merged ∧
      Coherent P out.accumulationState.services ∧
      out.accumulationState.services.stateStorage =
        Store.writeAll state.services.stateStorage writes ∧
      ∀ w ∈ writes, WrittenFor P merged (provisionsOf outputs) w := by
  obtain ⟨merged, committed, provided, services, hmerge, hcommit, hprovide, rfl⟩ :=
    finishRound_eq_ok h
  obtain ⟨existing, -, -, hmerged⟩ := merge_eq_ok hmerge
  have hfiled' : Filed P merged := by
    rw [hmerged]
    exact filed_mergedChanges (fun p hp => (hfiled p hp).pending)
  obtain ⟨writes, rfl, hcomplete, honly⟩ := commitChanges_eq_ok hfiled' hcommit
  have hlength : ∀ p ∈ provisionsOf outputs, p.2.length < 2 ^ 32 - 2 := by
    intro p hp
    obtain ⟨entry, hentry, hp⟩ := List.mem_flatMap.mp hp
    exact (hfiled entry hentry).provisions p hp
  obtain ⟨hcoherent, writes', hstorage, hfor⟩ := foldlM_integrateProvision_coherent
    merged hlength (coherent_of_complete hcomplete honly _ _) hprovide
  refine ⟨merged, writes ++ writes', hmerge, hcoherent.of_same rfl rfl, ?_, ?_⟩
  · rw [Store.writeAll, List.foldl_append]
    exact hstorage
  · intro w hw
    rcases List.mem_append.mp hw with hw | hw
    · exact (honly w hw).mono nofun
    · exact hfor w hw

/-- What neither the merged changes nor a provision mentions reads as before. -/
structure UnmentionedSame (P : Primitives) (merged : PendingChanges) (provisions : List (ℕ × Octets))
    (st st' : ServicesState) : Prop where
  account : ∀ s, merged.serviceAccounts.get? s = none →
    st'.retrieveServiceAccount s = st.retrieveServiceAccount s
  storageItem : ∀ s key, merged.storageItems.get? (s, key) = none →
    st'.retrieveStorageItem s key = st.retrieveStorageItem s key
  preimage : ∀ s preimageHash, merged.preimages.get? (s, preimageHash) = none →
    (∀ blob, (s, blob) ∈ provisions → preimageHash ≠ P.blake2b256Hash blob) →
      st'.retrievePreimage s preimageHash = st.retrievePreimage s preimageHash
  availability : ∀ s preimageHash z, z < 2 ^ 32 - 2 →
    merged.preimagesAvailability.get? (s, preimageHash, z) = none →
    (∀ blob, (s, blob) ∈ provisions → (preimageHash, z) ≠ (P.blake2b256Hash blob, blob.length)) →
      st'.retrievePreimageAvailability P s preimageHash z =
        st.retrievePreimageAvailability P s preimageHash z

/-- Between coherent states, writes show in the items that they were made for. -/
lemma unmentionedSame_of_writes {P : Primitives} {merged : PendingChanges}
    {provisions : List (ℕ × Octets)} {st st' : ServicesState} {writes : List StoreWrite}
    (hcoherent : Coherent P st) (hcoherent' : Coherent P st')
    (hstorage : st'.stateStorage = Store.writeAll st.stateStorage writes)
    (hfor : ∀ w ∈ writes, WrittenFor P merged provisions w) :
    UnmentionedSame P merged provisions st st' where
  account := by
    intro s hnone
    rw [retrieveServiceAccount_eq_read, retrieveServiceAccount_eq_read, hcoherent.accounts.read_eq,
      hcoherent'.accounts.read_eq, hstorage, ItemKind.stored_writeAll_of_ne]
    intro w hw hkey
    obtain ⟨v, hget, -⟩ := (hfor w hw).of_account hkey
    rw [hnone] at hget
    cases hget
  storageItem := by
    intro s key hnone
    rw [retrieveStorageItem_eq_read, retrieveStorageItem_eq_read, hcoherent.storageItems.read_eq,
      hcoherent'.storageItems.read_eq, hstorage]
    by_cases hs : s < 2 ^ 32
    · apply ItemKind.stored_writeAll_of_ne
      intro w hw hkey
      obtain ⟨v, hget, -⟩ := (hfor w hw).of_storageItem (k := (s, key)) hs hkey
      rw [hnone] at hget
      cases hget
    · simp only [storageItemKind, Store.storageItem_eq, if_neg hs]
  preimage := by
    intro s preimageHash hnone hprovided
    rw [retrievePreimage_eq_read, retrievePreimage_eq_read, hcoherent.preimages.read_eq,
      hcoherent'.preimages.read_eq, hstorage]
    by_cases hs : s < 2 ^ 32
    · apply ItemKind.stored_writeAll_of_ne
      intro w hw hkey
      rcases (hfor w hw).of_preimage (k := (s, preimageHash)) hs hkey with ⟨v, hget, -⟩ | ⟨blob, hmem, hhash⟩
      · rw [hnone] at hget
        cases hget
      · exact hprovided blob hmem hhash
    · simp only [preimageKind, Store.preimage_eq, if_neg hs]
  availability := by
    intro s preimageHash z hz hnone hprovided
    rw [retrievePreimageAvailability_eq_read, retrievePreimageAvailability_eq_read,
      hcoherent.availability.read_eq, hcoherent'.availability.read_eq, hstorage]
    split
    · next hs =>
      apply ItemKind.stored_writeAll_of_ne
      intro w hw hkey
      rcases (hfor w hw).of_availability ⟨hz, hs.1⟩ hkey with ⟨v, hget, -⟩ | ⟨blob, hmem, hhash⟩
      · rw [hnone] at hget
        cases hget
      · exact hprovided blob hmem hhash
    · rfl

/-- States reached by rounds with any outputs that are filed properly and that the merge accepts. -/
inductive AccumulationRounds (P : Primitives) (timeslot : ℕ) :
    AccumulationStateComponents coreCount → AccumulationStateComponents coreCount → Prop
  | none (state : AccumulationStateComponents coreCount) : AccumulationRounds P timeslot state state
  | round {state state' : AccumulationStateComponents coreCount} {outputs : Outputs coreCount}
      {out : ParallelAccumulationOutput coreCount} (hrounds : AccumulationRounds P timeslot state state')
      (hfiled : ∀ p ∈ outputs, OutputFiled P p.2)
      (hround : finishRound P timeslot state' outputs = .ok out) :
      AccumulationRounds P timeslot state out.accumulationState

lemma AccumulationRounds.coherent {P : Primitives} {timeslot : ℕ}
    {state state' : AccumulationStateComponents coreCount}
    (hrounds : AccumulationRounds P timeslot state state') (hstart : Coherent P state.services) :
    Coherent P state'.services := by
  induction hrounds with
  | none => exact hstart
  | round _ hfiled hround _ =>
    obtain ⟨merged, writes, -, hcoherent, -⟩ := finishRound_coherent hfiled hround
    exact hcoherent

/-- After any number of rounds from a state without pending changes, every read is the same as over
the store alone; and a further round changes only what its merge and its provisions mention. -/
theorem overlay_coherent (P : Primitives) (timeslot : ℕ)
    {state state' : AccumulationStateComponents coreCount}
    (hstart : state.services.pendingChanges = .empty)
    (hrounds : AccumulationRounds P timeslot state state') :
    SameReads P state'.services state'.services.fresh ∧
      ∀ (outputs : Outputs coreCount) out merged, (∀ p ∈ outputs, OutputFiled P p.2) →
        mergeAccumulationServiceChanges state'.services outputs = .ok merged →
        finishRound P timeslot state' outputs = .ok out →
          UnmentionedSame P merged (provisionsOf outputs) state'.services
            out.accumulationState.services := by
  have hfresh : state.services = state.services.fresh := by
    rw [ServicesState.fresh, ← hstart]
  have hcoherent : Coherent P state'.services := by
    apply hrounds.coherent
    rw [hfresh]
    exact coherent_fresh P _
  refine ⟨hcoherent.sameReads_fresh, ?_⟩
  intro outputs out merged hfiled hmerge hround
  obtain ⟨merged', writes, hmerge', hcoherent', hstorage, hfor⟩ := finishRound_coherent hfiled hround
  cases hmerge.symm.trans hmerge'
  exact unmentionedSame_of_writes hcoherent hcoherent' hstorage hfor

/-! ## Two items under one key -/

/-- The primitives with a hash function that answers zeros. -/
def samplePrimitives : Primitives := .ofHash fun _ => Vector.replicate 32 0

/-- A chain without cores and without accounts. -/
def sampleBlank : AccumulationStateComponents 0 :=
  ⟨⟨.init ∅, .empty, ∅⟩, [], .emptyWithCapacity 0, ⟨0, .emptyWithCapacity 0, 0, 0, ∅⟩⟩

/-- An output that creates account 70000 with a storage item whose key is a hash, and requests the
preimage of this hash with a length of `2 ^ 32 - 1`. -/
def sampleCollision : PvmAccumulateOutput 0 :=
  { sampleCreation 70000 with
    stateContext := { (sampleCreation 70000).stateContext with
      services := ⟨.init ∅, {
        serviceAccounts := Dict.insert ∅ 70000 (some (sampleAccount 0))
        storageItems := Dict.insert ∅ (70000, List.replicate 32 0) (some [7])
        preimages := ∅
        preimagesAvailability :=
          Dict.insert ∅ (70000, Vector.replicate 32 0, 2 ^ 32 - 1) (some []) }, ∅⟩ } }

/-- An output that creates account 70000 with one blob under two hashes, of which one is wrong. -/
def sampleMisfiled : PvmAccumulateOutput 0 :=
  { sampleCreation 70000 with
    stateContext := { (sampleCreation 70000).stateContext with
      services := ⟨.init ∅, {
        serviceAccounts := Dict.insert ∅ 70000 (some (sampleAccount 0))
        storageItems := ∅
        preimages := Dict.assign ∅ [((70000, Vector.replicate 32 1), some [7]),
          ((70000, Vector.replicate 32 0), some [7])]
        preimagesAvailability := ∅ }, ∅⟩ } }

/-- The request overwrites the storage item: the pending changes still answer 7, the store answers
the encoded request.  The blob under the wrong hash is pending, but not in the store. -/
theorem sampleOutputs_incoherent :
    (∃ out, finishRound samplePrimitives 0 sampleBlank [(1, sampleCollision)] = .ok out ∧
      out.accumulationState.services.retrieveStorageItem 70000 (List.replicate 32 0) = .ok [7] ∧
      out.accumulationState.services.fresh.retrieveStorageItem 70000 (List.replicate 32 0) =
        .ok [0]) ∧
    (∃ out, finishRound samplePrimitives 0 sampleBlank [(1, sampleMisfiled)] = .ok out ∧
      out.accumulationState.services.retrievePreimage 70000 (Vector.replicate 32 1) = .ok [7] ∧
      out.accumulationState.services.fresh.retrievePreimage 70000 (Vector.replicate 32 1) =
        .error .noResult) := by
  constructor
  · exact ⟨_, rfl, rfl, rfl⟩
  · exact ⟨_, rfl, rfl, rfl⟩

/-- After the creation of an account alone the reads agree. -/
theorem sampleCreation_coherent :
    ∃ out, finishRound samplePrimitives 0 sampleBlank [(1, sampleCreation 70000)] = .ok out ∧
      SameReads samplePrimitives out.accumulationState.services
        out.accumulationState.services.fresh := by
  have hfiled : ∀ p ∈ [(1, sampleCreation 70000)], OutputFiled samplePrimitives p.2 := by
    intro p hp
    cases List.mem_singleton.mp hp
    exact ⟨⟨nofun, nofun⟩, nofun⟩
  refine ⟨_, rfl, ?_⟩
  have hstart : sampleBlank.services.pendingChanges = .empty := rfl
  exact (overlay_coherent samplePrimitives 0 hstart (.round (.none sampleBlank) hfiled rfl)).1

end Accumulation
