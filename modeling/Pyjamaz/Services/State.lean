import Mathlib.Data.Finset.Basic
import Pyjamaz.Services.Account
import Pyjamaz.State.Storage

/-!
# The services state

`ServicesState` is a view of all service accounts: maps of pending changes over the state store.  A
read looks in the pending maps first, where `none` marks a deletion, and in the store otherwise.  A
write changes the pending maps; with `save_to_tx` it also writes the store's transaction.  A delete
with `save_to_tx` writes the transaction only.

## Keys

In the store, an item of a service is kept under a key that is built from the service id and a hash
of a byte string: a four-byte tag and the item's name.  The hash is taken to be injective, so the
model keeps the byte string itself (`StateKey.serviceValue`).  The tags are the constructors'
own: `2 ^ 32 - 1` for storage items, `2 ^ 32 - 2` for preimages, and the length of the preimage for
availability.  A length can be equal to one of the two other tags, and then two different items share
one key.
-/

namespace Services

open State Octets

/-! ## Keys and errors -/

/-- A key of the state store. -/
inductive StateKey where
  | component (index : ℕ)
  | serviceAccount (service : ℕ)
  | serviceValue (service : ℕ) (value : Octets)
  deriving DecidableEq, Repr

/-- What an access to the services state can raise. -/
inductive ServiceError where
  /-- `StateKeyNoResult` -/
  | noResult
  /-- an id or a length that does not fit four bytes -/
  | overflow
  /-- stored bytes that do not decode -/
  | decode
  /-- a value that does not encode -/
  | encode
  | storage (e : StorageError)
  deriving DecidableEq, Repr

def stateKeyConstructorServiceAccountValue (service : ℕ) (value : Octets) :
    Except ServiceError StateKey :=
  if service < 2 ^ 32 then .ok (.serviceValue service value) else .error .overflow

def stateKeyConstructorStorageItem (service : ℕ) (storageItemKey : Octets) :
    Except ServiceError StateKey :=
  stateKeyConstructorServiceAccountValue service (littleEndian 4 (2 ^ 32 - 1) ++ storageItemKey)

def stateKeyConstructorPreimage (service : ℕ) (preimageHash : Octets32) :
    Except ServiceError StateKey :=
  stateKeyConstructorServiceAccountValue service
    (littleEndian 4 (2 ^ 32 - 2) ++ preimageHash.toList)

def stateKeyConstructorPreimageAvailability (service : ℕ) (preimageHash : Octets32)
    (preimageLength : ℕ) : Except ServiceError StateKey :=
  if preimageLength < 2 ^ 32 then
    stateKeyConstructorServiceAccountValue service
      (littleEndian 4 preimageLength ++ preimageHash.toList)
  else .error .overflow

/-- The hash function and the codec of availability histories, which come from other packages: what
the encoder accepts is not empty and decodes to the same history. -/
structure Primitives where
  blake2b256Hash : Octets → Octets32
  encodeHistory : List ℕ → Option Octets
  decodeHistory : Octets → Option (List ℕ)
  decode_encode : ∀ {history bytes}, encodeHistory history = some bytes →
    decodeHistory bytes = some history
  encode_ne_nil : ∀ {history bytes}, encodeHistory history = some bytes → bytes ≠ []

/-- `Vec(U32)` on fewer than 128 timeslots: their number in one byte and four bytes for each. -/
def encodeShortHistory (history : List ℕ) : Option Octets :=
  if history.length < 128 ∧ ∀ t ∈ history, t < 2 ^ 32 then
    some (UInt8.ofNat history.length :: history.flatMap (littleEndian 4))
  else none

/-- The timeslots in a sequence of four-byte words. -/
def decodeTimeslots : ℕ → Octets → List ℕ
  | 0, _ => []
  | n + 1, data => ofLittleEndian (data.take 4) :: decodeTimeslots n (data.drop 4)

def decodeShortHistory : Octets → Option (List ℕ)
  | [] => none
  | n :: data => some (decodeTimeslots n.toNat data)

lemma decodeTimeslots_flatMap {history : List ℕ} (h : ∀ t ∈ history, t < 2 ^ 32) :
    decodeTimeslots history.length (history.flatMap (littleEndian 4)) = history := by
  induction history with
  | nil => rfl
  | cons t rest ih =>
    have ht : t < 2 ^ (8 * 4) := h t List.mem_cons_self
    rw [List.length_cons, decodeTimeslots, List.flatMap_cons, List.take_left' (by simp),
      List.drop_left' (by simp), ofLittleEndian_littleEndian 4 ht,
      ih (fun t ht => h t (List.mem_cons_of_mem _ ht))]

/-- The primitives with a given hash function, for short histories. -/
def Primitives.ofHash (hash : Octets → Octets32) : Primitives where
  blake2b256Hash := hash
  encodeHistory := encodeShortHistory
  decodeHistory := decodeShortHistory
  decode_encode := by
    intro history bytes h
    unfold encodeShortHistory at h
    split at h
    · next hshort =>
      cases h
      have hlen : (UInt8.ofNat history.length).toNat = history.length := by
        simpa using hshort.1.trans (by decide)
      rw [decodeShortHistory, hlen, decodeTimeslots_flatMap hshort.2]
    · cases h
  encode_ne_nil := by
    intro history bytes h
    unfold encodeShortHistory at h
    split at h
    · cases h
      exact List.cons_ne_nil _ _
    · cases h

/-! ## Pending changes over the store -/

/-- `PendingChanges` -/
structure PendingChanges where
  serviceAccounts : Dict ℕ (Option ServiceAccount)
  storageItems : Dict (ℕ × Octets) (Option Octets)
  preimages : Dict (ℕ × Octets32) (Option Octets)
  preimagesAvailability : Dict (ℕ × Octets32 × ℕ) (Option (List ℕ))
  deriving DecidableEq

/-- `PendingChanges()` -/
def PendingChanges.empty : PendingChanges := ⟨∅, ∅, ∅, ∅⟩

/-- The store that services are kept in. -/
abbrev Store := StateStorage StateKey Octets

/-- `ServicesState` -/
structure ServicesState where
  stateStorage : Store
  pendingChanges : PendingChanges
  /-- the accounts that are held in memory; what they hold there nothing reads -/
  services : Finset ℕ
  deriving DecidableEq

/-- A read through a pending map: a value, a deletion marker, or the store's answer. -/
def readOverlay {V : Type} (pending : Option (Option V)) (stored : Except ServiceError V) :
    Except ServiceError V :=
  match pending with
  | some (some v) => .ok v
  | some none => .error .noResult
  | none => stored

/-- `state_storage.get` -/
def Store.read (storage : Store) (key : StateKey) : Except ServiceError (Option Octets) :=
  match storage.get key false with
  | .ok data => .ok data
  | .error e => .error (.storage e)

/-- The account kept in the store. -/
def Store.serviceAccount (storage : Store) (service : ℕ) : Except ServiceError ServiceAccount := do
  match ← storage.read (.serviceAccount service) with
  | none => throw .noResult
  | some data =>
    if data = [] then throw .noResult
    else match ServiceAccount.fromSerializedBytes data with
      | some account => return account
      | none => throw .decode

/-- The preimage kept in the store. -/
def Store.preimage (storage : Store) (service : ℕ) (preimageHash : Octets32) :
    Except ServiceError Octets := do
  let key ← stateKeyConstructorPreimage service preimageHash
  match ← storage.read key with
  | none => throw .noResult
  | some data => return data

/-- The availability history kept in the store. -/
def Store.preimageAvailability (P : Primitives) (storage : Store) (service : ℕ)
    (preimageHash : Octets32) (preimageLength : ℕ) : Except ServiceError (List ℕ) := do
  let key ← stateKeyConstructorPreimageAvailability service preimageHash preimageLength
  match ← storage.read key with
  | none => throw .noResult
  | some data =>
    if data = [] then throw .noResult
    else match P.decodeHistory data with
      | some history => return history
      | none => throw .decode

/-- The storage item kept in the store. -/
def Store.storageItem (storage : Store) (service : ℕ) (key : Octets) :
    Except ServiceError Octets := do
  let stateKey ← stateKeyConstructorStorageItem service key
  match ← storage.read stateKey with
  | none => throw .noResult
  | some data => return data

namespace ServicesState

/-! ## Reads -/

def retrieveServiceAccount (st : ServicesState) (service : ℕ) :
    Except ServiceError ServiceAccount :=
  if 2 ^ 32 ≤ service then .error .noResult
  else readOverlay (st.pendingChanges.serviceAccounts.get? service)
    (st.stateStorage.serviceAccount service)

/-- `service_exists`; only a missing account is an answer, every other error is passed on. -/
def serviceExists (st : ServicesState) (service : ℕ) : Except ServiceError Bool :=
  match st.retrieveServiceAccount service with
  | .ok _ => .ok true
  | .error .noResult => .ok false
  | .error e => .error e

def retrievePreimage (st : ServicesState) (service : ℕ) (preimageHash : Octets32) :
    Except ServiceError Octets :=
  readOverlay (st.pendingChanges.preimages.get? (service, preimageHash))
    (st.stateStorage.preimage service preimageHash)

def retrievePreimageAvailability (P : Primitives) (st : ServicesState) (service : ℕ)
    (preimageHash : Octets32) (preimageLength : ℕ) : Except ServiceError (List ℕ) :=
  if service < 2 ^ 32 ∧ preimageLength < 2 ^ 32 then
    readOverlay
      (st.pendingChanges.preimagesAvailability.get? (service, preimageHash, preimageLength))
      (st.stateStorage.preimageAvailability P service preimageHash preimageLength)
  else .error .noResult

/-- Does a preimage with this availability history count as there at a slot? -/
def isPreimageAvailable (history : List ℕ) (timeslot : ℕ) : Bool :=
  match history with
  | [requested] => requested ≤ timeslot
  | [requested, dropped] => requested ≤ timeslot ∧ timeslot < dropped
  | [requested, dropped, again] => (requested ≤ timeslot ∧ timeslot < dropped) ∨ again ≤ timeslot
  | _ => false

/-- `historical_preimage_lookup`: a missing preimage or history is no error. -/
def historicalPreimageLookup (P : Primitives) (st : ServicesState) (service timeslot : ℕ)
    (preimageHash : Octets32) : Except ServiceError (Option Octets) :=
  let lookup := do
    let preimage ← st.retrievePreimage service preimageHash
    let history ← st.retrievePreimageAvailability P service preimageHash preimage.length
    return if isPreimageAvailable history timeslot then some preimage else none
  match lookup with
  | .error .noResult => .ok none
  | result => result

def retrieveStorageItem (st : ServicesState) (service : ℕ) (key : Octets) :
    Except ServiceError Octets :=
  readOverlay (st.pendingChanges.storageItems.get? (service, key))
    (st.stateStorage.storageItem service key)

/-! ## Writes

Storing an account over a pending one copies every field into it, which is the same as replacing
it. -/

def setPendingAccount (st : ServicesState) (service : ℕ) (account : Option ServiceAccount) :
    ServicesState :=
  { st with pendingChanges := { st.pendingChanges with
      serviceAccounts := st.pendingChanges.serviceAccounts.insert service account } }

def setPendingStorageItem (st : ServicesState) (service : ℕ) (key : Octets)
    (value : Option Octets) : ServicesState :=
  { st with pendingChanges := { st.pendingChanges with
      storageItems := st.pendingChanges.storageItems.insert (service, key) value } }

def setPendingPreimage (st : ServicesState) (service : ℕ) (preimageHash : Octets32)
    (value : Option Octets) : ServicesState :=
  { st with pendingChanges := { st.pendingChanges with
      preimages := st.pendingChanges.preimages.insert (service, preimageHash) value } }

def setPendingAvailability (st : ServicesState) (service : ℕ) (preimageHash : Octets32)
    (preimageLength : ℕ) (value : Option (List ℕ)) : ServicesState :=
  { st with pendingChanges := { st.pendingChanges with
      preimagesAvailability := st.pendingChanges.preimagesAvailability.insert
        (service, preimageHash, preimageLength) value } }

/-- `state_storage.put` and `state_storage.delete` -/
def writeStorage (st : ServicesState) (key : StateKey) (value : Option Octets) : ServicesState :=
  { st with stateStorage :=
      match value with
      | some data => st.stateStorage.put key data
      | none => st.stateStorage.delete key }

def storeServiceAccount (st : ServicesState) (service : ℕ) (account : ServiceAccount)
    (saveToTx : Bool) : Except ServiceError ServicesState :=
  if 2 ^ 32 ≤ service then .error .noResult
  else
    let st := st.setPendingAccount service (some account)
    if saveToTx then
      match account.toSerializedBytes with
      | some data => .ok (st.writeStorage (.serviceAccount service) (some data))
      | none => .error .encode
    else .ok st

def deleteServiceAccount (st : ServicesState) (service : ℕ) (saveToTx : Bool) :
    Except ServiceError ServicesState :=
  if 2 ^ 32 ≤ service then .error .noResult
  else if saveToTx then .ok (st.writeStorage (.serviceAccount service) none)
  else .ok (st.setPendingAccount service none)

def storePreimage (P : Primitives) (st : ServicesState) (service : ℕ) (preimageBlob : Octets)
    (saveToTx : Bool) : Except ServiceError ServicesState := do
  let preimageHash := P.blake2b256Hash preimageBlob
  let st := st.setPendingPreimage service preimageHash (some preimageBlob)
  let key ← stateKeyConstructorPreimage service preimageHash
  return if saveToTx then st.writeStorage key (some preimageBlob) else st

def deletePreimage (st : ServicesState) (service : ℕ) (preimageHash : Octets32) (saveToTx : Bool) :
    Except ServiceError ServicesState := do
  let key ← stateKeyConstructorPreimage service preimageHash
  return if saveToTx then st.writeStorage key none
    else st.setPendingPreimage service preimageHash none

def storePreimageAvailability (P : Primitives) (st : ServicesState) (service : ℕ)
    (preimageHash : Octets32) (preimageLength : ℕ) (value : List ℕ) (saveToTx : Bool) :
    Except ServiceError ServicesState := do
  let key ← stateKeyConstructorPreimageAvailability service preimageHash preimageLength
  let st := st.setPendingAvailability service preimageHash preimageLength (some value)
  if saveToTx then
    match P.encodeHistory value with
    | some data => return st.writeStorage key (some data)
    | none => throw .encode
  else return st

def deletePreimageAvailability (st : ServicesState) (service : ℕ) (preimageHash : Octets32)
    (preimageLength : ℕ) (saveToTx : Bool) : Except ServiceError ServicesState := do
  let key ← stateKeyConstructorPreimageAvailability service preimageHash preimageLength
  return if saveToTx then st.writeStorage key none
    else st.setPendingAvailability service preimageHash preimageLength none

def storeStorageItem (st : ServicesState) (service : ℕ) (storageKey value : Octets)
    (saveToTx : Bool) : Except ServiceError ServicesState := do
  let st := st.setPendingStorageItem service storageKey (some value)
  let key ← stateKeyConstructorStorageItem service storageKey
  return if saveToTx then st.writeStorage key (some value) else st

def deleteStorageItem (st : ServicesState) (service : ℕ) (storageKey : Octets) (saveToTx : Bool) :
    Except ServiceError ServicesState := do
  let key ← stateKeyConstructorStorageItem service storageKey
  return if saveToTx then st.writeStorage key none
    else st.setPendingStorageItem service storageKey none

end ServicesState

end Services
