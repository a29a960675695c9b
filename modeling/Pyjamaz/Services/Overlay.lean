import Pyjamaz.Library.Result
import Pyjamaz.Services.State

/-!
# Pending changes and the store

A services state is coherent when its pending changes are also in the store: every read answers what a
state without pending changes would answer over the same store.

The four maps of pending changes are treated alike.  An `ItemKind` says where a kind of item is pending,
under which key it is stored and how; the keys of different kinds differ, with the exception of
availability for lengths of `2 ^ 32 - 2` and `2 ^ 32 - 1`, which the kind leaves out.
-/

namespace Services

open State Octets

/-! ## Writing the store -/

/-- A write of the store: a key with its bytes, or with its deletion. -/
abbrev StoreWrite := StateKey × Option Octets

def Store.write (storage : Store) (w : StoreWrite) : Store :=
  match w.2 with
  | some data => storage.put w.1 data
  | none => storage.delete w.1

def Store.writeAll (storage : Store) (writes : List StoreWrite) : Store :=
  writes.foldl Store.write storage

lemma ServicesState.writeStorage_eq (st : ServicesState) (key : StateKey) (value : Option Octets) :
    st.writeStorage key value =
      { st with stateStorage := Store.write st.stateStorage (key, value) } := by
  cases value <;> rfl

lemma Store.read_write (storage : Store) (w : StoreWrite) (key : StateKey) :
    Store.read (Store.write storage w) key = if key = w.1 then .ok w.2 else storage.read key := by
  obtain ⟨key₀, item⟩ := w
  cases item with
  | none =>
    by_cases hk : key = key₀
    · simp [Store.read, Store.write, StateStorage.get_delete, hk]
    · simp [Store.read, Store.write, StateStorage.get_delete, hk]
  | some data =>
    by_cases hk : key = key₀
    · simp [Store.read, Store.write, StateStorage.get_put, hk]
    · simp [Store.read, Store.write, StateStorage.get_put, hk]

lemma Store.read_writeAll_of_ne {writes : List StoreWrite} {key : StateKey}
    (h : ∀ w ∈ writes, w.1 ≠ key) :
    ∀ storage : Store, Store.read (Store.writeAll storage writes) key = storage.read key := by
  induction writes with
  | nil =>
    intro storage
    rfl
  | cons w rest ih =>
    intro storage
    have hcons : Store.writeAll storage (w :: rest) = Store.writeAll (Store.write storage w) rest := rfl
    have hne : key ≠ w.1 := fun hk => h w List.mem_cons_self hk.symm
    rw [hcons, ih (fun w hw => h w (List.mem_cons_of_mem _ hw)), Store.read_write, if_neg hne]

/-- Where all writes to a key agree, the store holds what they write. -/
lemma Store.read_writeAll_of_mem {writes : List StoreWrite} {key : StateKey} {item : Option Octets}
    (hmem : ∃ w ∈ writes, w.1 = key) (hagree : ∀ w ∈ writes, w.1 = key → w.2 = item) :
    ∀ storage : Store, Store.read (Store.writeAll storage writes) key = .ok item := by
  induction writes with
  | nil => exact absurd hmem (by simp)
  | cons w rest ih =>
    intro storage
    have hcons : Store.writeAll storage (w :: rest) = Store.writeAll (Store.write storage w) rest := rfl
    rw [hcons]
    by_cases hrest : ∃ w ∈ rest, w.1 = key
    · exact ih hrest (fun w hw => hagree w (List.mem_cons_of_mem _ hw)) _
    · have hne : ∀ w ∈ rest, w.1 ≠ key := fun w hw hk => hrest ⟨w, hw, hk⟩
      have hw : w.1 = key := by
        obtain ⟨w', hw', hk⟩ := hmem
        rcases List.mem_cons.mp hw' with rfl | hw'
        · exact hk
        · exact absurd hk (hne w' hw')
      rw [Store.read_writeAll_of_ne hne, Store.read_write, if_pos hw.symm,
        hagree w List.mem_cons_self hw]

/-! ## Kinds of items -/

/-- The kinds of keys that services use. -/
inductive KeyClass where
  | component
  | account
  | storageItem
  | preimage
  | availability
  deriving DecidableEq

/-- The class of a key, from its tag. -/
def StateKey.keyClass : StateKey → KeyClass
  | .component _ => .component
  | .serviceAccount _ => .account
  | .serviceValue _ value =>
    if value.take 4 = littleEndian 4 (2 ^ 32 - 1) then .storageItem
    else if value.take 4 = littleEndian 4 (2 ^ 32 - 2) then .preimage
    else .availability

/-- The key is one of a service. -/
def StateKey.OfService (s : ℕ) : StateKey → Prop
  | .component _ => False
  | .serviceAccount t => t = s
  | .serviceValue t _ => t = s

/-- A key is one of a single service. -/
lemma StateKey.OfService.service_eq {key : StateKey} {s t : ℕ} (h : key.OfService s)
    (h' : key.OfService t) : s = t := by
  cases key with
  | component _ => exact h.elim
  | serviceAccount _ => exact h.symm.trans h'
  | serviceValue _ _ => exact h.symm.trans h'

/-- No pending request of a service has the tag of another kind as its length. -/
def PendingChanges.ShortRequestsOf (pending : PendingChanges) (s : ℕ) : Prop :=
  ∀ r v, pending.preimagesAvailability.get? (s, r) = some v → r.2 < 2 ^ 32 - 2

/-- One short request is pending and no other. -/
lemma PendingChanges.shortRequestsOf_of_single {pending : PendingChanges} {s t : ℕ}
    {r : Octets32 × ℕ} {v : Option (List ℕ)}
    (h : pending.preimagesAvailability = Dict.insert ∅ (s, r) v) (hr : r.2 < 2 ^ 32 - 2) :
    pending.ShortRequestsOf t := by
  intro r' v' hget
  rw [h, Dict.get?_insert] at hget
  split at hget
  · next hkey =>
    obtain rfl : r' = r := congrArg Prod.snd hkey
    exact hr
  · cases hget

/-- What a stored item answers: its value, or that there is none. -/
def ofItem {V : Type} : Option V → Except ServiceError V
  | some v => .ok v
  | none => .error .noResult

/-- A kind of item: where it is pending and how it is stored. -/
structure ItemKind (K V : Type) where
  pending : PendingChanges → Dict K (Option V)
  stored : Store → K → Except ServiceError V
  key : K → StateKey
  /-- the item has a key of this kind -/
  Fits : K → Prop
  encode : V → Option Octets
  keyClass : KeyClass
  key_inj : ∀ {k k'}, Fits k → Fits k' → key k = key k' → k = k'
  keyClass_key : ∀ {k}, Fits k → (key k).keyClass = keyClass
  stored_congr : ∀ {storage storage' : Store} {k}, storage.read (key k) = storage'.read (key k) →
    stored storage k = stored storage' k
  stored_some : ∀ {storage : Store} {k v data}, Fits k → encode v = some data →
    storage.read (key k) = .ok (some data) → stored storage k = .ok v
  stored_none : ∀ {storage : Store} {k}, Fits k → storage.read (key k) = .ok none →
    stored storage k = .error .noResult

namespace ItemKind

variable {K V : Type} (κ : ItemKind K V)

/-- What is written for a value or a deletion. -/
def encodeItem : Option V → Option (Option Octets)
  | none => some none
  | some v => (κ.encode v).map some

/-- The write of an item. -/
def Writes (k : K) (v : Option V) (w : StoreWrite) : Prop :=
  κ.Fits k ∧ w.1 = κ.key k ∧ κ.encodeItem v = some w.2

variable {κ}

lemma stored_of_writes {storage : Store} {k : K} {v : Option V} {w : StoreWrite}
    (h : κ.Writes k v w) (hread : storage.read (κ.key k) = .ok w.2) :
    κ.stored storage k = ofItem v := by
  obtain ⟨hfits, -, hencode⟩ := h
  cases v with
  | none =>
    rw [← Option.some.inj hencode] at hread
    exact κ.stored_none hfits hread
  | some v =>
    obtain ⟨data, hdata, hw⟩ := Option.map_eq_some_iff.mp hencode
    rw [← hw] at hread
    exact κ.stored_some hfits hdata hread

/-- A deletion is written as one. -/
lemma Writes.deletion {k : K} {w : StoreWrite} (h : κ.Writes k none w) : w.2 = none :=
  (Option.some.inj h.2.2).symm

lemma Writes.keyClass_eq {k : K} {v : Option V} {w : StoreWrite} (h : κ.Writes k v w) :
    w.1.keyClass = κ.keyClass := by
  rw [h.2.1, κ.keyClass_key h.1]

/-- A write to the key of an item is a write of the item. -/
lemma Writes.eq_of_key {k k' : K} {v : Option V} {w : StoreWrite} (h : κ.Writes k v w)
    (hfits : κ.Fits k') (hkey : w.1 = κ.key k') : k = k' :=
  κ.key_inj h.1 hfits (h.2.1.symm.trans hkey)

lemma stored_writeAll_of_ne {writes : List StoreWrite} {k : K} (h : ∀ w ∈ writes, w.1 ≠ κ.key k)
    (storage : Store) : κ.stored (Store.writeAll storage writes) k = κ.stored storage k :=
  κ.stored_congr (Store.read_writeAll_of_ne h storage)

/-- An item that is written, and with which no other write to its key disagrees. -/
lemma stored_writeAll_of_mem {writes : List StoreWrite} {k : K} {v : Option V}
    (hown : ∃ w ∈ writes, κ.Writes k v w)
    (hagree : ∀ w ∈ writes, w.1 = κ.key k → κ.Writes k v w) (storage : Store) :
    κ.stored (Store.writeAll storage writes) k = ofItem v := by
  obtain ⟨w, hw, hwrites⟩ := hown
  refine stored_of_writes hwrites (Store.read_writeAll_of_mem ⟨w, hw, hwrites.2.1⟩ ?_ storage)
  intro w' hw' hkey
  have h' := (hagree w' hw' hkey).2.2
  rw [hwrites.2.2] at h'
  exact (Option.some.inj h').symm

variable [DecidableEq K]

variable (κ) in
/-- A read through the pending changes. -/
def read (st : ServicesState) (k : K) : Except ServiceError V :=
  readOverlay ((κ.pending st.pendingChanges).get? k) (κ.stored st.stateStorage k)

variable (κ) in
/-- The pending changes of the kind are in the store, under keys of the kind. -/
def Coherent (st : ServicesState) : Prop :=
  ∀ k v, (κ.pending st.pendingChanges).get? k = some v →
    κ.Fits k ∧ κ.stored st.stateStorage k = ofItem v

lemma Coherent.read_eq {st : ServicesState} (h : κ.Coherent st) (k : K) :
    κ.read st k = κ.stored st.stateStorage k := by
  rw [read]
  cases hget : (κ.pending st.pendingChanges).get? k with
  | none => rfl
  | some v =>
    rw [(h k v hget).2]
    cases v <;> rfl

/-- Writes that contain the pending changes of the kind and contradict none of them. -/
lemma coherent_writeAll {pending : PendingChanges} {writes : List StoreWrite}
    (hown : ∀ k v, (κ.pending pending).get? k = some v → ∃ w ∈ writes, κ.Writes k v w)
    (hagree : ∀ w ∈ writes, ∀ k v, (κ.pending pending).get? k = some v → w.1 = κ.key k →
      κ.Writes k v w) (storage : Store) {services : Finset ℕ} :
    κ.Coherent ⟨Store.writeAll storage writes, pending, services⟩ := by
  intro k v hget
  obtain ⟨w, hw, hwrites⟩ := hown k v hget
  exact ⟨hwrites.1, stored_writeAll_of_mem ⟨w, hw, hwrites⟩
    (fun w' hw' => hagree w' hw' k v hget) storage⟩

/-- A write of another kind leaves the kind coherent. -/
lemma Coherent.write_other {st : ServicesState} (h : κ.Coherent st) {w : StoreWrite}
    (hclass : w.1.keyClass ≠ κ.keyClass) {pending : PendingChanges}
    (hpending : κ.pending pending = κ.pending st.pendingChanges) :
    κ.Coherent ⟨Store.write st.stateStorage w, pending, st.services⟩ := by
  intro k v hget
  change (κ.pending pending).get? k = some v at hget
  rw [hpending] at hget
  obtain ⟨hfits, hstored⟩ := h k v hget
  refine ⟨hfits, ?_⟩
  rw [← hstored]
  apply κ.stored_congr
  rw [Store.read_write, if_neg]
  intro hkey
  exact hclass (by rw [← hkey, κ.keyClass_key hfits])

/-- A write of the kind, made to the store and the pending changes alike. -/
lemma Coherent.write_own {st : ServicesState} (h : κ.Coherent st) {k : K} {v : Option V}
    {w : StoreWrite} (hw : κ.Writes k v w) {pending : PendingChanges}
    (hpending : κ.pending pending = (κ.pending st.pendingChanges).insert k v) :
    κ.Coherent ⟨Store.write st.stateStorage w, pending, st.services⟩ := by
  intro k' v' hget
  change (κ.pending pending).get? k' = some v' at hget
  rw [hpending, Dict.get?_insert] at hget
  by_cases hk : k' = k
  · rw [if_pos hk] at hget
    cases hget
    subst hk
    refine ⟨hw.1, stored_of_writes hw ?_⟩
    rw [Store.read_write, if_pos hw.2.1.symm]
  · rw [if_neg hk] at hget
    obtain ⟨hfits, hstored⟩ := h k' v' hget
    refine ⟨hfits, ?_⟩
    rw [← hstored]
    apply κ.stored_congr
    rw [Store.read_write, if_neg]
    rw [hw.2.1]
    exact fun hkey => hk (κ.key_inj hfits hw.1 hkey)

end ItemKind

/-! ## Keys -/

lemma take_tag (n : ℕ) (rest : Octets) : (littleEndian 4 n ++ rest).take 4 = littleEndian 4 n :=
  List.take_left' (length_littleEndian 4 n)

lemma append_tag_inj {n n' : ℕ} {rest rest' : Octets}
    (h : littleEndian 4 n ++ rest = littleEndian 4 n' ++ rest') :
    littleEndian 4 n = littleEndian 4 n' ∧ rest = rest' :=
  List.append_inj h (by simp)

lemma toList_inj {h h' : Octets32} (heq : h.toList = h'.toList) : h = h' :=
  Vector.toList_inj.mp heq

/-- The tags of storage items and preimages, and the lengths below them. -/
lemma tag_ne {n m : ℕ} (hn : n < 2 ^ 32) (hm : m < 2 ^ 32) (h : n ≠ m) :
    littleEndian 4 n ≠ littleEndian 4 m :=
  fun heq => h (littleEndian_inj (w := 4) hn hm heq)

/-! ## Reads of the store -/

section StoreReads

variable (storage : Store)

lemma Store.serviceAccount_eq (s : ℕ) :
    storage.serviceAccount s =
      (storage.read (.serviceAccount s)).bind (fun
        | none => .error .noResult
        | some data => if data = [] then .error .noResult
          else match ServiceAccount.fromSerializedBytes data with
            | some account => .ok account
            | none => .error .decode) := by
  rw [Store.serviceAccount]
  cases storage.read (.serviceAccount s) with
  | error e => rfl
  | ok data =>
    cases data with
    | none => rfl
    | some data =>
      simp only [Except.ok_bind, Except.bind]
      split
      · rfl
      · cases ServiceAccount.fromSerializedBytes data <;> rfl

lemma Store.storageItem_eq (s : ℕ) (key : Octets) :
    storage.storageItem s key = if s < 2 ^ 32 then
      (storage.read (.serviceValue s (littleEndian 4 (2 ^ 32 - 1) ++ key))).bind ofItem
    else .error .overflow := by
  rw [Store.storageItem, stateKeyConstructorStorageItem, stateKeyConstructorServiceAccountValue]
  split
  · rw [Except.ok_bind]
    cases storage.read (.serviceValue s (littleEndian 4 (2 ^ 32 - 1) ++ key)) with
    | error e => rfl
    | ok data => cases data <;> rfl
  · rfl

lemma Store.preimage_eq (s : ℕ) (preimageHash : Octets32) :
    storage.preimage s preimageHash = if s < 2 ^ 32 then
      (storage.read (.serviceValue s
        (littleEndian 4 (2 ^ 32 - 2) ++ preimageHash.toList))).bind ofItem
    else .error .overflow := by
  rw [Store.preimage, stateKeyConstructorPreimage, stateKeyConstructorServiceAccountValue]
  split
  · rw [Except.ok_bind]
    cases storage.read (.serviceValue s (littleEndian 4 (2 ^ 32 - 2) ++ preimageHash.toList)) with
    | error e => rfl
    | ok data => cases data <;> rfl
  · rfl

lemma Store.preimageAvailability_eq (P : Primitives) (s : ℕ) (preimageHash : Octets32) (z : ℕ) :
    storage.preimageAvailability P s preimageHash z = if z < 2 ^ 32 ∧ s < 2 ^ 32 then
      (storage.read (.serviceValue s (littleEndian 4 z ++ preimageHash.toList))).bind (fun
        | none => .error .noResult
        | some data => if data = [] then .error .noResult
          else match P.decodeHistory data with
            | some history => .ok history
            | none => .error .decode)
    else .error .overflow := by
  rw [Store.preimageAvailability, stateKeyConstructorPreimageAvailability,
    stateKeyConstructorServiceAccountValue]
  by_cases hz : z < 2 ^ 32
  · by_cases hs : s < 2 ^ 32
    · rw [if_pos hz, if_pos hs, if_pos ⟨hz, hs⟩, Except.ok_bind]
      cases storage.read (.serviceValue s (littleEndian 4 z ++ preimageHash.toList)) with
      | error e => rfl
      | ok data =>
        cases data with
        | none => rfl
        | some data =>
          simp only [Except.ok_bind, Except.bind]
          split
          · rfl
          · cases P.decodeHistory data <;> rfl
    · rw [if_pos hz, if_neg hs, if_neg (fun h => hs h.2)]
      rfl
  · rw [if_neg hz, if_neg (fun h => hz h.1)]
    rfl

end StoreReads

/-! ## The four kinds -/

def accountKind : ItemKind ℕ ServiceAccount where
  pending := PendingChanges.serviceAccounts
  stored := Store.serviceAccount
  key := .serviceAccount
  Fits _ := True
  encode := ServiceAccount.toSerializedBytes
  keyClass := .account
  key_inj _ _ h := StateKey.serviceAccount.inj h
  keyClass_key _ := rfl
  stored_congr := by
    intro storage storage' s h
    rw [Store.serviceAccount_eq, Store.serviceAccount_eq, h]
  stored_some := by
    intro storage s account data _ hencode hread
    have hdecode := ServiceAccount.fromSerializedBytes_toSerializedBytes hencode
    have hne : data ≠ [] := by
      rintro rfl
      cases hdecode
    rw [Store.serviceAccount_eq, hread]
    simp only [Except.bind, if_neg hne, hdecode]
  stored_none := by
    intro storage s _ hread
    rw [Store.serviceAccount_eq, hread]
    rfl

def storageItemKind : ItemKind (ℕ × Octets) Octets where
  pending := PendingChanges.storageItems
  stored storage k := storage.storageItem k.1 k.2
  key k := .serviceValue k.1 (littleEndian 4 (2 ^ 32 - 1) ++ k.2)
  Fits k := k.1 < 2 ^ 32
  encode := some
  keyClass := .storageItem
  key_inj := by
    intro k k' _ _ h
    obtain ⟨hs, h⟩ := StateKey.serviceValue.inj h
    exact Prod.ext hs (append_tag_inj h).2
  keyClass_key := by
    intro k _
    rw [StateKey.keyClass, take_tag, if_pos rfl]
  stored_congr := by
    intro storage storage' k h
    rw [Store.storageItem_eq, Store.storageItem_eq, h]
  stored_some := by
    intro storage k v data hfits hencode hread
    cases hencode
    rw [Store.storageItem_eq, if_pos hfits, hread]
    rfl
  stored_none := by
    intro storage k hfits hread
    rw [Store.storageItem_eq, if_pos hfits, hread]
    rfl

def preimageKind : ItemKind (ℕ × Octets32) Octets where
  pending := PendingChanges.preimages
  stored storage k := storage.preimage k.1 k.2
  key k := .serviceValue k.1 (littleEndian 4 (2 ^ 32 - 2) ++ k.2.toList)
  Fits k := k.1 < 2 ^ 32
  encode := some
  keyClass := .preimage
  key_inj := by
    intro k k' _ _ h
    obtain ⟨hs, h⟩ := StateKey.serviceValue.inj h
    exact Prod.ext hs (toList_inj (append_tag_inj h).2)
  keyClass_key := by
    intro k _
    rw [StateKey.keyClass, take_tag, if_neg (tag_ne (by decide) (by decide) (by decide)),
      if_pos rfl]
  stored_congr := by
    intro storage storage' k h
    rw [Store.preimage_eq, Store.preimage_eq, h]
  stored_some := by
    intro storage k v data hfits hencode hread
    cases hencode
    rw [Store.preimage_eq, if_pos hfits, hread]
    rfl
  stored_none := by
    intro storage k hfits hread
    rw [Store.preimage_eq, if_pos hfits, hread]
    rfl

/-- Availability, for lengths that are not the tag of another kind. -/
def availabilityKind (P : Primitives) : ItemKind (ℕ × Octets32 × ℕ) (List ℕ) where
  pending := PendingChanges.preimagesAvailability
  stored storage k := storage.preimageAvailability P k.1 k.2.1 k.2.2
  key k := .serviceValue k.1 (littleEndian 4 k.2.2 ++ k.2.1.toList)
  Fits k := k.2.2 < 2 ^ 32 - 2 ∧ k.1 < 2 ^ 32
  encode := P.encodeHistory
  keyClass := .availability
  key_inj := by
    intro k k' hk hk' h
    obtain ⟨hs, h⟩ := StateKey.serviceValue.inj h
    obtain ⟨htag, hhash⟩ := append_tag_inj h
    have hz : k.2.2 = k'.2.2 := littleEndian_inj (w := 4) (by omega) (by omega) htag
    exact Prod.ext hs (Prod.ext (toList_inj hhash) hz)
  keyClass_key := by
    intro k hk
    have hz := hk.1
    rw [StateKey.keyClass, take_tag, if_neg (tag_ne (by omega) (by omega) (by omega)),
      if_neg (tag_ne (by omega) (by omega) (by omega))]
  stored_congr := by
    intro storage storage' k h
    rw [Store.preimageAvailability_eq, Store.preimageAvailability_eq, h]
  stored_some := by
    intro storage k v data hfits hencode hread
    have hlt : k.2.2 < 2 ^ 32 ∧ k.1 < 2 ^ 32 := ⟨by omega, hfits.2⟩
    rw [Store.preimageAvailability_eq, if_pos hlt, hread]
    simp only [Except.bind, if_neg (P.encode_ne_nil hencode), P.decode_encode hencode]
  stored_none := by
    intro storage k hfits hread
    have hlt : k.2.2 < 2 ^ 32 ∧ k.1 < 2 ^ 32 := ⟨by omega, hfits.2⟩
    rw [Store.preimageAvailability_eq, if_pos hlt, hread]
    rfl

/-! ## Coherence -/

/-- All pending changes are in the store. -/
structure Coherent (P : Primitives) (st : ServicesState) : Prop where
  accounts : accountKind.Coherent st
  storageItems : storageItemKind.Coherent st
  preimages : preimageKind.Coherent st
  availability : (availabilityKind P).Coherent st

/-- Two states that answer every read alike. -/
structure SameReads (P : Primitives) (st st' : ServicesState) : Prop where
  account : ∀ s, st.retrieveServiceAccount s = st'.retrieveServiceAccount s
  storageItem : ∀ s key, st.retrieveStorageItem s key = st'.retrieveStorageItem s key
  preimage : ∀ s preimageHash, st.retrievePreimage s preimageHash = st'.retrievePreimage s preimageHash
  availability : ∀ s preimageHash z, st.retrievePreimageAvailability P s preimageHash z =
    st'.retrievePreimageAvailability P s preimageHash z

/-- The state over the same store without pending changes. -/
def ServicesState.fresh (st : ServicesState) : ServicesState := { st with pendingChanges := .empty }

section Coherence

variable {P : Primitives} {st : ServicesState}

lemma retrieveServiceAccount_eq_read (st : ServicesState) (s : ℕ) :
    st.retrieveServiceAccount s =
      if 2 ^ 32 ≤ s then .error .noResult else accountKind.read st s := rfl

lemma retrieveStorageItem_eq_read (st : ServicesState) (s : ℕ) (key : Octets) :
    st.retrieveStorageItem s key = storageItemKind.read st (s, key) := rfl

lemma retrievePreimage_eq_read (st : ServicesState) (s : ℕ) (preimageHash : Octets32) :
    st.retrievePreimage s preimageHash = preimageKind.read st (s, preimageHash) := rfl

lemma retrievePreimageAvailability_eq_read (P : Primitives) (st : ServicesState) (s : ℕ)
    (preimageHash : Octets32) (z : ℕ) :
    st.retrievePreimageAvailability P s preimageHash z =
      if s < 2 ^ 32 ∧ z < 2 ^ 32 then (availabilityKind P).read st (s, preimageHash, z)
      else .error .noResult := rfl

lemma Coherent.of_same {st' : ServicesState} (h : Coherent P st)
    (hstorage : st'.stateStorage = st.stateStorage)
    (hpending : st'.pendingChanges = st.pendingChanges) : Coherent P st' := by
  obtain ⟨storage, pending, services⟩ := st
  obtain ⟨storage', pending', services'⟩ := st'
  cases hstorage
  cases hpending
  exact ⟨h.accounts, h.storageItems, h.preimages, h.availability⟩

/-- Without pending changes there is nothing to disagree on. -/
lemma coherent_fresh (P : Primitives) (st : ServicesState) : Coherent P st.fresh where
  accounts := nofun
  storageItems := nofun
  preimages := nofun
  availability := nofun

/-- A coherent state answers what the store answers. -/
lemma Coherent.sameReads_fresh (h : Coherent P st) : SameReads P st st.fresh where
  account s := by
    rw [retrieveServiceAccount_eq_read, retrieveServiceAccount_eq_read, h.accounts.read_eq,
      (coherent_fresh P st).accounts.read_eq]
    rfl
  storageItem s key := by
    rw [retrieveStorageItem_eq_read, retrieveStorageItem_eq_read, h.storageItems.read_eq,
      (coherent_fresh P st).storageItems.read_eq]
    rfl
  preimage s preimageHash := by
    rw [retrievePreimage_eq_read, retrievePreimage_eq_read, h.preimages.read_eq,
      (coherent_fresh P st).preimages.read_eq]
    rfl
  availability s preimageHash z := by
    rw [retrievePreimageAvailability_eq_read, retrievePreimageAvailability_eq_read,
      h.availability.read_eq, (coherent_fresh P st).availability.read_eq]
    rfl

end Coherence

/-! ## Writes to the store -/

section SaveToTx

variable {P : Primitives} {st st' : ServicesState} {s : ℕ}

lemma storeServiceAccount_eq_ok {account : ServiceAccount}
    (h : st.storeServiceAccount s account true = .ok st') :
    ∃ w, accountKind.Writes s (some account) w ∧
      st' = ⟨Store.write st.stateStorage w,
        (st.setPendingAccount s (some account)).pendingChanges, st.services⟩ := by
  rw [ServicesState.storeServiceAccount] at h
  split at h
  · cases h
  · simp only [if_true] at h
    split at h
    · next data hdata =>
      cases h
      refine ⟨(.serviceAccount s, some data), ⟨trivial, rfl, ?_⟩, ServicesState.writeStorage_eq _ _ _⟩
      simp only [ItemKind.encodeItem, accountKind, hdata, Option.map_some]
    · cases h

lemma deleteServiceAccount_eq_ok (h : st.deleteServiceAccount s true = .ok st') :
    ∃ w, accountKind.Writes s none w ∧
      st' = ⟨Store.write st.stateStorage w, st.pendingChanges, st.services⟩ := by
  rw [ServicesState.deleteServiceAccount] at h
  split at h
  · cases h
  · rw [if_pos rfl] at h
    cases h
    exact ⟨(.serviceAccount s, none), ⟨trivial, rfl, rfl⟩, ServicesState.writeStorage_eq _ _ _⟩

/-- A key of a service value exists when the id fits. -/
lemma serviceAccountValue_eq_ok {value : Octets} {key : StateKey}
    (h : stateKeyConstructorServiceAccountValue s value = .ok key) :
    s < 2 ^ 32 ∧ key = .serviceValue s value := by
  rw [stateKeyConstructorServiceAccountValue] at h
  split at h
  · next hs =>
    cases h
    exact ⟨hs, rfl⟩
  · cases h

lemma storeStorageItem_eq_ok {key value : Octets}
    (h : st.storeStorageItem s key value true = .ok st') :
    ∃ w, storageItemKind.Writes (s, key) (some value) w ∧
      st' = ⟨Store.write st.stateStorage w,
        (st.setPendingStorageItem s key (some value)).pendingChanges, st.services⟩ := by
  rw [ServicesState.storeStorageItem] at h
  obtain ⟨stateKey, hkey, h⟩ := Except.bind_eq_ok.mp h
  obtain ⟨hs, rfl⟩ := serviceAccountValue_eq_ok hkey
  cases h
  exact ⟨(_, some value), ⟨hs, rfl, rfl⟩, rfl⟩

lemma deleteStorageItem_eq_ok {key : Octets} (h : st.deleteStorageItem s key true = .ok st') :
    ∃ w, storageItemKind.Writes (s, key) none w ∧
      st' = ⟨Store.write st.stateStorage w, st.pendingChanges, st.services⟩ := by
  rw [ServicesState.deleteStorageItem] at h
  obtain ⟨stateKey, hkey, h⟩ := Except.bind_eq_ok.mp h
  obtain ⟨hs, rfl⟩ := serviceAccountValue_eq_ok hkey
  cases h
  exact ⟨(_, none), ⟨hs, rfl, rfl⟩, rfl⟩

lemma storePreimage_eq_ok {blob : Octets} (h : st.storePreimage P s blob true = .ok st') :
    ∃ w, preimageKind.Writes (s, P.blake2b256Hash blob) (some blob) w ∧
      st' = ⟨Store.write st.stateStorage w,
        (st.setPendingPreimage s (P.blake2b256Hash blob) (some blob)).pendingChanges, st.services⟩ := by
  rw [ServicesState.storePreimage] at h
  obtain ⟨stateKey, hkey, h⟩ := Except.bind_eq_ok.mp h
  obtain ⟨hs, rfl⟩ := serviceAccountValue_eq_ok hkey
  cases h
  exact ⟨(_, some blob), ⟨hs, rfl, rfl⟩, rfl⟩

lemma deletePreimage_eq_ok {preimageHash : Octets32}
    (h : st.deletePreimage s preimageHash true = .ok st') :
    ∃ w, preimageKind.Writes (s, preimageHash) none w ∧
      st' = ⟨Store.write st.stateStorage w, st.pendingChanges, st.services⟩ := by
  rw [ServicesState.deletePreimage] at h
  obtain ⟨stateKey, hkey, h⟩ := Except.bind_eq_ok.mp h
  obtain ⟨hs, rfl⟩ := serviceAccountValue_eq_ok hkey
  cases h
  exact ⟨(_, none), ⟨hs, rfl, rfl⟩, rfl⟩

/-- The key of an availability history exists when the id and the length fit. -/
lemma preimageAvailability_key_eq_ok {preimageHash : Octets32} {z : ℕ} {key : StateKey}
    (h : stateKeyConstructorPreimageAvailability s preimageHash z = .ok key) :
    s < 2 ^ 32 ∧ key = .serviceValue s (littleEndian 4 z ++ preimageHash.toList) := by
  rw [stateKeyConstructorPreimageAvailability] at h
  split at h
  · exact serviceAccountValue_eq_ok h
  · cases h

/-- A write to the key of a history, which is one of the history where the length is no tag. -/
structure WritesHistory (P : Primitives) (k : ℕ × Octets32 × ℕ) (v : Option (List ℕ))
    (w : StoreWrite) : Prop where
  service : w.1.OfService k.1
  deletion : v = none → w.2 = none
  writes : k.2.2 < 2 ^ 32 - 2 → (availabilityKind P).Writes k v w

lemma storePreimageAvailability_eq_ok {preimageHash : Octets32} {z : ℕ} {value : List ℕ}
    (h : st.storePreimageAvailability P s preimageHash z value true = .ok st') :
    ∃ w, WritesHistory P (s, preimageHash, z) (some value) w ∧
      st' = ⟨Store.write st.stateStorage w,
        (st.setPendingAvailability s preimageHash z (some value)).pendingChanges, st.services⟩ := by
  rw [ServicesState.storePreimageAvailability] at h
  obtain ⟨stateKey, hkey, h⟩ := Except.bind_eq_ok.mp h
  obtain ⟨hs, rfl⟩ := preimageAvailability_key_eq_ok hkey
  simp only [if_true] at h
  split at h
  · next data hdata =>
    cases h
    refine ⟨(.serviceValue s (littleEndian 4 z ++ preimageHash.toList), some data),
      ⟨rfl, nofun, fun hz => ⟨⟨hz, hs⟩, rfl, ?_⟩⟩, ServicesState.writeStorage_eq _ _ _⟩
    simp only [ItemKind.encodeItem, availabilityKind, hdata, Option.map_some]
  · cases h

lemma deletePreimageAvailability_eq_ok {preimageHash : Octets32} {z : ℕ}
    (h : st.deletePreimageAvailability s preimageHash z true = .ok st') :
    ∃ w, WritesHistory P (s, preimageHash, z) none w ∧
      st' = ⟨Store.write st.stateStorage w, st.pendingChanges, st.services⟩ := by
  rw [ServicesState.deletePreimageAvailability] at h
  obtain ⟨stateKey, hkey, h⟩ := Except.bind_eq_ok.mp h
  obtain ⟨hs, rfl⟩ := preimageAvailability_key_eq_ok hkey
  cases h
  exact ⟨(.serviceValue s (littleEndian 4 z ++ preimageHash.toList), none),
    ⟨rfl, fun _ => rfl, fun hz => ⟨⟨hz, hs⟩, rfl, rfl⟩⟩, rfl⟩

end SaveToTx

end Services
