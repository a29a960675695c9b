import Pyjamaz.Services.Overlay

/-!
# The bytes of the state keys

Every entry of the state is kept under a key of 31 bytes.  A state component has its index and zeros,
a service account the byte 255 and its id between zeros; the key of an item of a service interleaves
the id with the first 27 bytes of the hash of the item's tag and name.

Two things keep these families apart: the tags, as long as no preimage has a length that is the tag
of another kind, and the hash.  Of the hash it is assumed that, on the inputs in use, its first 27
bytes tell the inputs apart (`HashSeparates.injective`) and that the bytes that a component's and an
account's key leave zero are not all zero (`HashSeparates.spread`).  Under these assumptions the bytes
determine the key (`bytes_inj`), which is why the rest of the development can keep the hashed string
itself as the key.
-/

namespace Services

open Octets

/-! ## Keys as bytes -/

/-- `WELL_KNOWN_STORAGE_KEYS` -/
def wellKnownStorageKey (index : ℕ) : Octets := UInt8.ofNat index :: List.replicate 30 0

def stateKeyBytesServiceAccount (service : ℕ) : Octets :=
  let key := littleEndian 4 service
  [255, key.getD 0 0, 0, key.getD 1 0, 0, key.getD 2 0, 0, key.getD 3 0] ++ List.replicate 23 0

def stateKeyBytesServiceAccountValue (hash : Octets → Octets32) (service : ℕ) (value : Octets) :
    Octets :=
  let key := littleEndian 4 service
  let value := (hash value).toList
  [key.getD 0 0, value.getD 0 0, key.getD 1 0, value.getD 1 0, key.getD 2 0, value.getD 2 0,
    key.getD 3 0] ++ slice value 3 27

/-- The bytes of a key. -/
def StateKey.bytes (hash : Octets → Octets32) : StateKey → Octets
  | .component index => wellKnownStorageKey index
  | .serviceAccount service => stateKeyBytesServiceAccount service
  | .serviceValue service value => stateKeyBytesServiceAccountValue hash service value

/-! ## Entries of the state -/

/-- The entries of the state, by the names they have in the program. -/
inductive Entry where
  | component (index : ℕ)
  | account (service : ℕ)
  | storageItem (service : ℕ) (key : Octets)
  | preimage (service : ℕ) (hash : Octets32)
  | availability (service : ℕ) (hash : Octets32) (length : ℕ)
  deriving DecidableEq, Repr

/-- The key of an entry, from the constructor of its kind. -/
def Entry.stateKey : Entry → Except ServiceError StateKey
  | .component index => .ok (.component index)
  | .account service => if service < 2 ^ 32 then .ok (.serviceAccount service) else .error .overflow
  | .storageItem service key => stateKeyConstructorStorageItem service key
  | .preimage service hash => stateKeyConstructorPreimage service hash
  | .availability service hash length =>
    stateKeyConstructorPreimageAvailability service hash length

/-- The key of an entry as bytes. -/
def Entry.keyBytes (hash : Octets → Octets32) (e : Entry) : Except ServiceError Octets := do
  let key ← e.stateKey
  return key.bytes hash

/-- The string that is hashed for an entry. -/
def Entry.hashed : Entry → Option Octets
  | .component _ => none
  | .account _ => none
  | .storageItem _ key => some (littleEndian 4 (2 ^ 32 - 1) ++ key)
  | .preimage _ hash => some (littleEndian 4 (2 ^ 32 - 2) ++ hash.toList)
  | .availability _ hash length => some (littleEndian 4 length ++ hash.toList)

/-- The components there are, the ids of four bytes, and the lengths that the host calls admit. -/
def Entry.Admitted : Entry → Prop
  | .component index => 1 ≤ index ∧ index ≤ 16
  | .account service => service < 2 ^ 32
  | .storageItem service _ => service < 2 ^ 32
  | .preimage service _ => service < 2 ^ 32
  | .availability service _ length => service < 2 ^ 32 ∧ length < 2 ^ 32

/-- An availability entry whose length is the tag of a storage item or of a preimage, and that
item. -/
inductive TagShared : Entry → Entry → Prop
  | storageItem (service : ℕ) (hash : Octets32) :
      TagShared (.availability service hash (2 ^ 32 - 1)) (.storageItem service hash.toList)
  | preimage (service : ℕ) (hash : Octets32) :
      TagShared (.availability service hash (2 ^ 32 - 2)) (.preimage service hash)

/-- What is assumed of the hash on the inputs in use. -/
structure HashSeparates (hash : Octets → Octets32) (used : Set Octets) : Prop where
  injective : Set.InjOn (fun value => (hash value).toList.take 27) used
  spread : ∀ value ∈ used, slice (hash value).toList 4 27 ≠ List.replicate 23 0

/-! ## The bytes determine the key -/

variable {hash : Octets → Octets32} {used : Set Octets}

lemma littleEndian_four (n : ℕ) :
    littleEndian 4 n = [(littleEndian 4 n).getD 0 0, (littleEndian 4 n).getD 1 0,
      (littleEndian 4 n).getD 2 0, (littleEndian 4 n).getD 3 0] := rfl

lemma take_three {l : Octets} (h : 3 ≤ l.length) :
    l.take 3 = [l.getD 0 0, l.getD 1 0, l.getD 2 0] := by
  match l, h with
  | a :: b :: c :: rest, _ => rfl

lemma drop_wellKnownStorageKey (index : ℕ) :
    (wellKnownStorageKey index).drop 8 = List.replicate 23 0 := rfl

lemma drop_stateKeyBytesServiceAccount (service : ℕ) :
    (stateKeyBytesServiceAccount service).drop 8 = List.replicate 23 0 := rfl

lemma drop_stateKeyBytesServiceAccountValue (service : ℕ) (value : Octets) :
    (stateKeyBytesServiceAccountValue hash service value).drop 8 =
      slice (hash value).toList 4 27 := by
  change (slice (hash value).toList 3 27).drop 1 = slice (hash value).toList 4 27
  rw [slice, slice, List.drop_take, List.drop_drop]

lemma stateKeyBytesServiceAccount_inj {s s' : ℕ} (hs : s < 2 ^ 32) (hs' : s' < 2 ^ 32)
    (h : stateKeyBytesServiceAccount s = stateKeyBytesServiceAccount s') : s = s' := by
  simp only [stateKeyBytesServiceAccount, List.cons_append, List.cons.injEq, true_and] at h
  obtain ⟨h0, h1, h2, h3, -⟩ := h
  apply littleEndian_inj (w := 4) hs hs'
  rw [littleEndian_four s, littleEndian_four s', h0, h1, h2, h3]

lemma stateKeyBytesServiceAccountValue_inj (hhash : HashSeparates hash used) {s s' : ℕ}
    (hs : s < 2 ^ 32) (hs' : s' < 2 ^ 32) {v v' : Octets} (hv : v ∈ used) (hv' : v' ∈ used)
    (h : stateKeyBytesServiceAccountValue hash s v = stateKeyBytesServiceAccountValue hash s' v') :
    s = s' ∧ v = v' := by
  simp only [stateKeyBytesServiceAccountValue, List.cons_append, List.cons.injEq, List.nil_append]
    at h
  obtain ⟨k0, v0, k1, v1, k2, v2, k3, hrest⟩ := h
  constructor
  · apply littleEndian_inj (w := 4) hs hs'
    rw [littleEndian_four s, littleEndian_four s', k0, k1, k2, k3]
  · apply hhash.injective hv hv'
    change (hash v).toList.take (3 + 24) = (hash v').toList.take (3 + 24)
    rw [List.take_add, List.take_add, take_three (by simp), take_three (by simp), v0, v1, v2]
    exact congrArg _ hrest

/-- The keys that belong to admitted entries. -/
def StateKey.InUse (used : Set Octets) : StateKey → Prop
  | .component index => 1 ≤ index ∧ index ≤ 16
  | .serviceAccount service => service < 2 ^ 32
  | .serviceValue service value => service < 2 ^ 32 ∧ value ∈ used

/-- The key of a value is none that has zeros from the ninth byte on. -/
lemma HashSeparates.bytes_serviceValue_ne (hhash : HashSeparates hash used) {s : ℕ} {v : Octets}
    (hv : v ∈ used) {bytes : Octets} (hzeros : bytes.drop 8 = List.replicate 23 0) :
    (StateKey.serviceValue s v).bytes hash ≠ bytes := by
  rintro rfl
  rw [StateKey.bytes, drop_stateKeyBytesServiceAccountValue] at hzeros
  exact hhash.spread v hv hzeros

/-- The first byte tells a component from an account. -/
lemma bytes_component_ne {i s : ℕ} (hi : i ≤ 16) :
    (StateKey.component i).bytes hash ≠ (StateKey.serviceAccount s).bytes hash := by
  intro h
  have hbyte := congrArg UInt8.toNat (List.cons.inj h).1
  rw [UInt8.toNat_ofNat', Nat.mod_eq_of_lt (by omega)] at hbyte
  change i = 255 at hbyte
  omega

lemma bytes_inj (hhash : HashSeparates hash used) {k k' : StateKey} (hk : k.InUse used)
    (hk' : k'.InUse used) (h : k.bytes hash = k'.bytes hash) : k = k' := by
  cases k with
  | component i =>
    cases k' with
    | component j =>
      have hbyte := congrArg UInt8.toNat (List.cons.inj h).1
      rw [UInt8.toNat_ofNat', UInt8.toNat_ofNat'] at hbyte
      have hi := hk.2
      have hj := hk'.2
      rw [Nat.mod_eq_of_lt (by omega), Nat.mod_eq_of_lt (by omega)] at hbyte
      rw [hbyte]
    | serviceAccount s => exact absurd h (bytes_component_ne hk.2)
    | serviceValue s v =>
      exact absurd h.symm (hhash.bytes_serviceValue_ne hk'.2 (drop_wellKnownStorageKey i))
  | serviceAccount s =>
    cases k' with
    | component j => exact absurd h.symm (bytes_component_ne hk'.2)
    | serviceAccount s' => rw [stateKeyBytesServiceAccount_inj hk hk' h]
    | serviceValue s' v =>
      exact absurd h.symm (hhash.bytes_serviceValue_ne hk'.2 (drop_stateKeyBytesServiceAccount s))
  | serviceValue s v =>
    cases k' with
    | component j => exact absurd h (hhash.bytes_serviceValue_ne hk.2 (drop_wellKnownStorageKey j))
    | serviceAccount s' =>
      exact absurd h (hhash.bytes_serviceValue_ne hk.2 (drop_stateKeyBytesServiceAccount s'))
    | serviceValue s' v' =>
      obtain ⟨hs, hv⟩ := stateKeyBytesServiceAccountValue_inj hhash hk.1 hk'.1 hk.2 hk'.2 h
      rw [hs, hv]

lemma length_bytes (k : StateKey) : (k.bytes hash).length = 31 := by
  cases k with
  | component i => rfl
  | serviceAccount s => rfl
  | serviceValue s v =>
    have hslice : (slice (hash v).toList 3 27).length = 24 := by
      rw [slice, List.length_take, List.length_drop, Vector.length_toList]
      rfl
    rw [StateKey.bytes, stateKeyBytesServiceAccountValue, List.length_append, hslice]
    rfl

/-! ## The entries that share a key -/

/-- The key in closed form. -/
def Entry.key : Entry → StateKey
  | .component index => .component index
  | .account service => .serviceAccount service
  | .storageItem service key => .serviceValue service (littleEndian 4 (2 ^ 32 - 1) ++ key)
  | .preimage service hash => .serviceValue service (littleEndian 4 (2 ^ 32 - 2) ++ hash.toList)
  | .availability service hash length =>
    .serviceValue service (littleEndian 4 length ++ hash.toList)

lemma Entry.stateKey_eq {e : Entry} (he : e.Admitted) : e.stateKey = .ok e.key := by
  cases e with
  | component index => rfl
  | account service => exact if_pos he
  | storageItem service key => exact if_pos he
  | preimage service hash => exact if_pos he
  | availability service hash length =>
    rw [Entry.stateKey, stateKeyConstructorPreimageAvailability, if_pos he.2,
      stateKeyConstructorServiceAccountValue, if_pos he.1]
    rfl

/-- Two items of a service with one key have one tag and one name. -/
lemma serviceValue_tag_inj {s s' n n' : ℕ} {rest rest' : Octets} (hn : n < 2 ^ 32)
    (hn' : n' < 2 ^ 32)
    (h : StateKey.serviceValue s (littleEndian 4 n ++ rest) =
      .serviceValue s' (littleEndian 4 n' ++ rest')) : s = s' ∧ n = n' ∧ rest = rest' := by
  obtain ⟨hs, hvalue⟩ := StateKey.serviceValue.inj h
  obtain ⟨htag, hrest⟩ := append_tag_inj hvalue
  exact ⟨hs, littleEndian_inj (w := 4) hn hn' htag, hrest⟩

lemma Entry.key_inUse {e : Entry} (he : e.Admitted)
    (hused : ∀ value, e.hashed = some value → value ∈ used) : e.key.InUse used := by
  cases e with
  | component index => exact he
  | account service => exact he
  | storageItem service key => exact ⟨he, hused _ rfl⟩
  | preimage service hash => exact ⟨he, hused _ rfl⟩
  | availability service hash length => exact ⟨he.1, hused _ rfl⟩

lemma TagShared.key_eq {e e' : Entry} (h : TagShared e e') : e.key = e'.key := by
  cases h with
  | storageItem service hash => rfl
  | preimage service hash => rfl

/-- Entries with one key are one entry or share a tag. -/
lemma tagShared_of_key_eq {e e' : Entry} (he : e.Admitted) (he' : e'.Admitted)
    (h : e.key = e'.key) : e = e' ∨ TagShared e e' ∨ TagShared e' e := by
  cases e with
  | component i =>
    cases e' <;> cases h
    exact .inl rfl
  | account s =>
    cases e' <;> cases h
    exact .inl rfl
  | storageItem s key =>
    cases e' with
    | component j => cases h
    | account s' => cases h
    | storageItem s' key' =>
      obtain ⟨rfl, -, rfl⟩ := serviceValue_tag_inj (by decide) (by decide) h
      exact .inl rfl
    | preimage s' hash' =>
      obtain ⟨-, htag, -⟩ := serviceValue_tag_inj (by decide) (by decide) h
      cases htag
    | availability s' hash' z =>
      obtain ⟨rfl, rfl, rfl⟩ := serviceValue_tag_inj (by decide) he'.2 h
      exact .inr (.inr (.storageItem s hash'))
  | preimage s hash =>
    cases e' with
    | component j => cases h
    | account s' => cases h
    | storageItem s' key' =>
      obtain ⟨-, htag, -⟩ := serviceValue_tag_inj (by decide) (by decide) h
      cases htag
    | preimage s' hash' =>
      obtain ⟨rfl, -, hhash⟩ := serviceValue_tag_inj (by decide) (by decide) h
      rw [toList_inj hhash]
      exact .inl rfl
    | availability s' hash' z =>
      obtain ⟨rfl, rfl, hhash⟩ := serviceValue_tag_inj (by decide) he'.2 h
      rw [toList_inj hhash]
      exact .inr (.inr (.preimage s hash'))
  | availability s hash z =>
    cases e' with
    | component j => cases h
    | account s' => cases h
    | storageItem s' key' =>
      obtain ⟨rfl, rfl, rfl⟩ := serviceValue_tag_inj he.2 (by decide) h
      exact .inr (.inl (.storageItem s hash))
    | preimage s' hash' =>
      obtain ⟨rfl, rfl, hhash⟩ := serviceValue_tag_inj he.2 (by decide) h
      rw [toList_inj hhash]
      exact .inr (.inl (.preimage s hash'))
    | availability s' hash' z' =>
      obtain ⟨rfl, rfl, hhash⟩ := serviceValue_tag_inj he.2 he'.2 h
      rw [toList_inj hhash]
      exact .inl rfl

/-- Two different admitted entries have the same 31 bytes for a key exactly when one is an
availability entry whose length is the tag of the other. -/
theorem keyBytes_eq_iff (hhash : HashSeparates hash used) {e e' : Entry} (he : e.Admitted)
    (he' : e'.Admitted) (hused : ∀ value, e.hashed = some value → value ∈ used)
    (hused' : ∀ value, e'.hashed = some value → value ∈ used) (hne : e ≠ e') :
    (∃ bytes, e.keyBytes hash = .ok bytes ∧ e'.keyBytes hash = .ok bytes ∧ bytes.length = 31) ↔
      TagShared e e' ∨ TagShared e' e := by
  have hbytes : ∀ {e : Entry}, e.Admitted → e.keyBytes hash = .ok (e.key.bytes hash) := by
    intro e he
    rw [Entry.keyBytes, Entry.stateKey_eq he]
    rfl
  rw [hbytes he, hbytes he']
  constructor
  · rintro ⟨bytes, h, h', -⟩
    have hkey : e.key = e'.key :=
      bytes_inj hhash (Entry.key_inUse he hused) (Entry.key_inUse he' hused')
        (Except.ok.inj (h.trans h'.symm))
    exact (tagShared_of_key_eq he he' hkey).resolve_left hne
  · intro h
    have hkey : e.key = e'.key := h.elim TagShared.key_eq (fun h => h.key_eq.symm)
    refine ⟨_, rfl, by rw [hkey], ?_⟩
    exact length_bytes e.key

/-! ## Sample entries -/

/-- A hash by the length of its input. -/
def sampleHash (value : Octets) : Octets32 := Vector.replicate 32 (UInt8.ofNat value.length)

def sampleName : Octets32 := Vector.replicate 32 7

/-- Whatever the hash, a requested length of `2 ^ 32 - 1` meets the storage item of the same name,
and one of `2 ^ 32 - 2` the preimage; and a hash that separates its inputs may still come out as
zeros, which is the key of a component. -/
theorem sampleEntries_share_keys :
    ((Entry.availability 7 sampleName (2 ^ 32 - 1)).Admitted ∧
      (Entry.storageItem 7 sampleName.toList).Admitted ∧
      (Entry.availability 7 sampleName (2 ^ 32 - 1)).keyBytes sampleHash =
        (Entry.storageItem 7 sampleName.toList).keyBytes sampleHash) ∧
    ((Entry.availability 7 sampleName (2 ^ 32 - 2)).Admitted ∧
      (Entry.preimage 7 sampleName).Admitted ∧
      (Entry.availability 7 sampleName (2 ^ 32 - 2)).keyBytes sampleHash =
        (Entry.preimage 7 sampleName).keyBytes sampleHash) ∧
    (Entry.component 1).keyBytes (fun _ => Vector.replicate 32 0) =
      (Entry.storageItem 1 []).keyBytes (fun _ => Vector.replicate 32 0) := by
  have hservice : 7 < 2 ^ 32 := by decide
  exact ⟨⟨⟨hservice, by decide⟩, hservice, rfl⟩, ⟨⟨hservice, by decide⟩, hservice, rfl⟩, rfl⟩

/-- A storage item and a preimage of one service have different keys. -/
theorem sampleEntries_distinct :
    ¬ ∃ bytes, (Entry.storageItem 7 []).keyBytes sampleHash = .ok bytes ∧
      (Entry.preimage 7 sampleName).keyBytes sampleHash = .ok bytes ∧ bytes.length = 31 := by
  have hhash : HashSeparates sampleHash
      {littleEndian 4 (2 ^ 32 - 1) ++ [], littleEndian 4 (2 ^ 32 - 2) ++ sampleName.toList} := by
    constructor
    · rintro v (rfl | rfl) v' (rfl | rfl) h
      · rfl
      · exact absurd h (by decide)
      · exact absurd h (by decide)
      · rfl
    · rintro v (rfl | rfl)
      · decide
      · decide
  have hitem : (Entry.storageItem 7 []).Admitted := (by decide : 7 < 2 ^ 32)
  have hpreimage : (Entry.preimage 7 sampleName).Admitted := (by decide : 7 < 2 ^ 32)
  intro h
  rcases (keyBytes_eq_iff hhash hitem hpreimage (by rintro v ⟨⟩; exact .inl rfl)
    (by rintro v ⟨⟩; exact .inr rfl) nofun).mp h with h | h
  · cases h
  · cases h

end Services
