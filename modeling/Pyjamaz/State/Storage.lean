import Pyjamaz.Library.Dict

/-!
# The fork-aware state store

`StateStorage` keeps the finalized state in a storage engine and, over it, one change set for every
retained unfinalized block.  A block is executed with its hash selected: writes collect in a
transaction, `commit` turns the transaction into the block's change set, and a read walks the
transaction, the change sets of the selected block and its ancestors, and the engine.

Block hashes are 256-bit words, `0` being the hash of the block before genesis; keys and values of
the store are left general.  A deleted item (`ItemStatus.deleted`) is `none`.  Every operation that
raises does so before its first write, with the exception of `update_temporary_block_hash`, so an
`Except` with no state in the error case is faithful for the others.
-/

namespace State

/-- A block hash, 32 bytes. -/
abbrev Hash := BitVec 256

instance lawfulBEq_hash : LawfulBEq Hash := inferInstance

/-- The part of a block header that the store and the entry of the transition read. -/
structure Header where
  hash : Hash
  parent : Hash
  timeslot : ℕ
  extrinsicHash : Hash
  deriving DecidableEq, Repr

/-- What is remembered of an ancestor: its header, or a reference without commitments. -/
inductive Ancestor where
  | header (h : Header)
  | reference (hash parent : Hash) (timeslot : ℕ)
  deriving DecidableEq, Repr

/-- The hash of an ancestor. -/
def Ancestor.hash : Ancestor → Hash
  | .header h => h.hash
  | .reference hash _ _ => hash

/-- The parent hash of an ancestor. -/
def Ancestor.parent : Ancestor → Hash
  | .header h => h.parent
  | .reference _ parent _ => parent

/-- The timeslot of an ancestor. -/
def Ancestor.timeslot : Ancestor → ℕ
  | .header h => h.timeslot
  | .reference _ _ timeslot => timeslot

/-- `Header.default()` -/
def Header.default : Header := ⟨0, 0, 0, 0⟩

/-- The exceptions of the store. -/
inductive StorageError where
  | invalidParentHash
  | pendingTransaction
  | stateUnavailable
  | cycleDetected
  | outsideFinalizedBranch
  | commitTemporary
  | discardFinalized
  | candidateNotSelected
  | restoreUnavailable
  | invalidStateHash
  | ancestryUnavailable
  | ancestryCycle
  | keyError
  deriving DecidableEq, Repr

/-- Items a block has written (`some`) or deleted (`none`). -/
abbrev ChangeSet (Key Value : Type) := Dict Key (Option Value)

/-- `StateStorage` -/
structure StateStorage (Key Value : Type) where
  storageEngine : Dict Key Value
  finalizedBlockHash : Option Hash
  blockHash : Option Hash
  changeSets : Dict Hash (ChangeSet Key Value)
  transaction : ChangeSet Key Value
  parents : Dict Hash (Option Hash)
  ancestors : Dict Hash Ancestor
  deriving DecidableEq

namespace StateStorage

variable {Key Value : Type} [DecidableEq Key]

/-- `StateStorage(storage_engine)` -/
def init (engine : Dict Key Value) : StateStorage Key Value :=
  ⟨engine, none, none, ∅, ∅, ∅, ∅⟩

/-! ## Selecting blocks -/

def addAncestor (s : StateStorage Key Value) (a : Ancestor) : StateStorage Key Value :=
  { s with
    ancestors := s.ancestors.insert a.hash a
    parents := s.parents.insert a.hash (some a.parent) }

def getParent (s : StateStorage Key Value) (header : Header) : Option Ancestor :=
  if header.parent = 0 then some (.header Header.default) else s.ancestors.get? header.parent

/-- The first test of `set_block_hash`: the parent is linked, finalized or before genesis. -/
def parentKnown (s : StateStorage Key Value) (parentHash : Hash) : Bool :=
  s.parents.contains parentHash || s.finalizedBlockHash = some parentHash || parentHash = 0

def setBlockHash (s : StateStorage Key Value) (blockHash parentHash : Hash) :
    Except StorageError (StateStorage Key Value) :=
  if !s.parentKnown parentHash then .error .invalidParentHash
  else if s.transaction.entries ≠ [] then .error .pendingTransaction
  else .ok { s with
    blockHash := some blockHash
    parents := s.parents.insert blockHash (some parentHash)
    changeSets := s.changeSets.insert blockHash ∅ }

def setHeader (s : StateStorage Key Value) (header : Header) :
    Except StorageError (StateStorage Key Value) := do
  let s ← s.setBlockHash header.hash header.parent
  return { s with ancestors := s.ancestors.insert header.hash (.header header) }

def setFinalizedBlockHash (s : StateStorage Key Value) (blockHash : Hash) :
    StateStorage Key Value :=
  { s with finalizedBlockHash := some blockHash }

def setFinalizedHeader (s : StateStorage Key Value) (header : Header) : StateStorage Key Value :=
  (s.setFinalizedBlockHash header.hash).addAncestor (.header header)

def setTemporaryBlockHash (s : StateStorage Key Value) (parentHash : Hash) :
    Except StorageError (StateStorage Key Value) := s.setBlockHash 0 parentHash

def hasStateAt (s : StateStorage Key Value) (blockHash : Hash) : Bool :=
  s.finalizedBlockHash = some blockHash || s.changeSets.contains blockHash

def selectBlockHash (s : StateStorage Key Value) (blockHash : Hash) :
    Except StorageError (StateStorage Key Value) :=
  if s.transaction.entries ≠ [] then .error .pendingTransaction
  else if !s.hasStateAt blockHash then .error .stateUnavailable
  else .ok { s with blockHash := some blockHash }

/-- `update_temporary_block_hash`; the second `pop` may raise after the links have moved. -/
def updateTemporaryBlockHash (s : StateStorage Key Value) (blockHash : Hash) :
    StateStorage Key Value × Option StorageError :=
  match s.parents.get? 0 with
  | none => (s, some .keyError)
  | some link =>
    let s := { s with parents := (s.parents.erase 0).insert blockHash link }
    match s.changeSets.get? 0 with
    | none => (s, some .keyError)
    | some changes =>
      ({ s with
        changeSets := (s.changeSets.erase 0).insert blockHash changes
        blockHash := some blockHash }, none)

def clearBlockHash (s : StateStorage Key Value) : StateStorage Key Value :=
  { s with blockHash := none }

/-! ## Reading and writing -/

/-- The walk of `get` up the retained ancestry: the item found, or `none` when the walk ends. -/
def lookupItem (s : StateStorage Key Value) (key : Key) :
    ℕ → Option Hash → List Hash → Except StorageError (Option (Option Value))
  | _, none, _ => .ok none
  | 0, some _, _ => .error .cycleDetected
  | fuel + 1, some h, visited =>
    if h ∈ visited then .error .cycleDetected
    else match (s.changeSets.get? h).bind (fun changes => changes.get? key) with
      | some item => .ok (some item)
      | none => lookupItem s key fuel (s.parents.get? h).join (h :: visited)

/-- `get`.  A walk without a repeated hash visits at most the linked blocks and one more. -/
def get (s : StateStorage Key Value) (key : Key) (changesetOnly : Bool) :
    Except StorageError (Option Value) := do
  let base := if changesetOnly then none else s.storageEngine.get? key
  match s.blockHash with
  | none => return base
  | some h =>
    match s.transaction.get? key with
    | some item => return item
    | none =>
      match ← s.lookupItem key (s.parents.entries.length + 2) (some h) [] with
      | some item => return item
      | none => return base

def put (s : StateStorage Key Value) (key : Key) (value : Value) : StateStorage Key Value :=
  match s.blockHash with
  | some _ => { s with transaction := s.transaction.insert key (some value) }
  | none => { s with storageEngine := s.storageEngine.insert key value }

def delete (s : StateStorage Key Value) (key : Key) : StateStorage Key Value :=
  match s.blockHash with
  | some _ => { s with transaction := s.transaction.insert key none }
  | none => { s with storageEngine := s.storageEngine.erase key }

/-- A walk does not see the transaction or the engine. -/
lemma lookupItem_congr {s s' : StateStorage Key Value} (hchanges : s'.changeSets = s.changeSets)
    (hparents : s'.parents = s.parents) (key : Key) (fuel : ℕ) :
    ∀ cursor visited, s'.lookupItem key fuel cursor visited = s.lookupItem key fuel cursor visited := by
  induction fuel with
  | zero =>
    intro cursor visited
    cases cursor <;> rfl
  | succ fuel ih =>
    intro cursor visited
    cases cursor with
    | none => rfl
    | some h => rw [lookupItem, lookupItem, hchanges, hparents, ih]

/-- With a block selected, a read sees the transaction first. -/
lemma get_insert_transaction {s : StateStorage Key Value} (hblock : s.blockHash ≠ none)
    (key key' : Key) (item : Option Value) :
    ({ s with transaction := s.transaction.insert key item }).get key' false =
      if key' = key then .ok item else s.get key' false := by
  obtain ⟨engine, finalized, block, changeSets, transaction, parents, ancestors⟩ := s
  cases block with
  | none => exact absurd rfl hblock
  | some h =>
    by_cases hk : key' = key
    · simp only [get, Dict.get?_insert, hk, if_true]
      rfl
    · have hwalk : lookupItem ⟨engine, finalized, some h, changeSets, transaction.insert key item,
          parents, ancestors⟩ key' = lookupItem ⟨engine, finalized, some h, changeSets, transaction,
          parents, ancestors⟩ key' := by
        funext fuel cursor visited
        exact lookupItem_congr (by rfl) (by rfl) key' fuel cursor visited
      simp only [get, Dict.get?_insert, hk, if_false, hwalk]

lemma get_put (s : StateStorage Key Value) (key key' : Key) (value : Value) :
    (s.put key value).get key' false = if key' = key then .ok (some value) else s.get key' false := by
  cases hblock : s.blockHash with
  | none =>
    by_cases hk : key' = key
    · simp only [get, put, hblock, Dict.get?_insert, hk, if_true]
      rfl
    · simp only [get, put, hblock, Dict.get?_insert, hk, if_false]
  | some h =>
    rw [← get_insert_transaction (by simp [hblock])]
    simp only [put, hblock]

lemma get_delete (s : StateStorage Key Value) (key key' : Key) :
    (s.delete key).get key' false = if key' = key then .ok none else s.get key' false := by
  cases hblock : s.blockHash with
  | none =>
    by_cases hk : key' = key
    · simp only [get, delete, hblock, Dict.get?_erase, hk, if_true]
      rfl
    · simp only [get, delete, hblock, Dict.get?_erase, hk, if_false]
  | some h =>
    rw [← get_insert_transaction (by simp [hblock])]
    simp only [delete, hblock]

/-! ## Transactions -/

def startTx (s : StateStorage Key Value) : StateStorage Key Value := { s with transaction := ∅ }

def commit (s : StateStorage Key Value) : Except StorageError (StateStorage Key Value) :=
  match s.blockHash with
  | none => .ok { s with transaction := ∅ }
  | some h =>
    if h = 0 then .error .commitTemporary
    else .ok { s with changeSets := s.changeSets.insert h s.transaction, transaction := ∅ }

def rollback (s : StateStorage Key Value) : StateStorage Key Value :=
  match s.blockHash with
  | none => { s with transaction := ∅ }
  | some h => { s with changeSets := s.changeSets.erase h, transaction := ∅ }

def discardCandidate (s : StateStorage Key Value) (blockHash : Hash) (restoreHash : Option Hash) :
    Except StorageError (StateStorage Key Value) :=
  if s.finalizedBlockHash = some blockHash then .error .discardFinalized
  else if s.blockHash ≠ some blockHash then .error .candidateNotSelected
  else if restoreHash.any (fun h => !s.hasStateAt h) then .error .restoreUnavailable
  else .ok { s with
    changeSets := s.changeSets.erase blockHash
    parents := s.parents.erase blockHash
    ancestors := s.ancestors.erase blockHash
    transaction := ∅
    blockHash := restoreHash }

/-- `clear` -/
def clear (s : StateStorage Key Value) (keepAncestors : Bool) : StateStorage Key Value :=
  { s with
    changeSets := ∅
    ancestors := if keepAncestors then s.ancestors else ∅
    parents := ∅
    blockHash := none
    finalizedBlockHash := none
    transaction := ∅ }

/-! ## Finalization -/

/-- The walk of `finalize` from the target back to the finalized block; `none` when it leaves the
retained branch. -/
def finalizePath (s : StateStorage Key Value) : ℕ → Option Hash → List Hash → Option (List Hash)
  | 0, _, _ => none
  | fuel + 1, cursor, path =>
    if cursor = s.finalizedBlockHash then some path
    else match cursor with
      | none => none
      | some h =>
        if h ∈ path ∨ s.changeSets.contains h = false then none
        else finalizePath s fuel (s.parents.get? h).join (path ++ [h])

/-- `descends_from_target` -/
def descendsFromTarget (parents : Dict Hash (Option Hash)) (target : Hash) :
    ℕ → Hash → List Hash → Bool
  | 0, _, _ => false
  | fuel + 1, cursor, seen =>
    if cursor ∈ seen then false
    else if cursor = target then true
    else match (parents.get? cursor).join with
      | none => false
      | some parent => descendsFromTarget parents target fuel parent (cursor :: seen)

/-- The writes of a branch in chronological order, applied to the engine. -/
def applyChanges (engine : Dict Key Value) (changes : ChangeSet Key Value) : Dict Key Value :=
  changes.entries.foldl (fun e (key, item) =>
    match item with
    | some value => e.insert key value
    | none => e.erase key) engine

def finalize (s : StateStorage Key Value) (blockHash : Hash) :
    Except StorageError (StateStorage Key Value) :=
  if s.transaction.entries ≠ [] then .error .pendingTransaction
  else if s.finalizedBlockHash = some blockHash then .ok s
  else match s.finalizePath (s.changeSets.entries.length + 1) (some blockHash) [] with
    | none => .error .outsideFinalizedBranch
    | some path =>
      let batch := path.reverse.foldl (fun batch h =>
        batch.update ((s.changeSets.get? h).getD ∅)) ∅
      let retained := fun h => s.changeSets.contains h && !path.contains h &&
        descendsFromTarget s.parents blockHash (s.parents.entries.length + 2) h []
      let retainedWithFinalized := fun h => retained h || h = blockHash
      .ok { s with
        storageEngine := applyChanges s.storageEngine batch
        changeSets := s.changeSets.filterKeys retained
        parents := (s.parents.filterKeys retainedWithFinalized).insert blockHash none
        ancestors := s.ancestors.filterKeys retainedWithFinalized
        finalizedBlockHash := some blockHash
        blockHash := if s.blockHash.any retainedWithFinalized then s.blockHash else some blockHash }

end StateStorage

end State
