import Pyjamaz.State.Storage

/-!
# Importing a block

`_import_block` runs the state transition of a block on the store and, when it raises, cleans up: it
discards the block's candidate overlay if the block's hash is the selected one.  The comparison of
hashes cannot tell an overlay that this attempt has created from one that an earlier import of the
same header has left, and that is where a rejected block loses accepted state.

The transition itself is a parameter here: `Runtime.execute` stands for everything that happens
between the selection of the candidate and the end of `state_transition`, and says which items were
written and whether it raised before or after the commit.  The steps before it, which decide whether
the candidate is selected at all, are modelled as they are.

`importBlock_eq_self` says when a rejected import leaves the store as it was, and
`rejected_imports_restore` what follows for a whole run.
-/

namespace State

/-- A block: its header and its extrinsic. -/
structure Block (Body : Type) where
  header : Header
  extrinsic : Body

/-- What the transition does after the candidate has been selected. -/
inductive Execution (Key Value : Type) where
  /-- the items written before it raised -/
  | rejected (writes : List (Key × Option Value))
  /-- the items committed, and whether something after the commit raised -/
  | committed (writes : List (Key × Option Value)) (raised : Bool)

/-- What an import depends on besides the store and the block. -/
structure Runtime (Key Value Body : Type) where
  skipTimeslotWallClockCheck : Bool
  currentTimeslot : ℕ
  generateExtrinsicHash : Body → Hash
  execute : StateStorage Key Value → Block Body → Execution Key Value

/-- The exceptions that leave `state_transition`. -/
inductive ImportError where
  | badSlot
  | extrinsicHashMismatch
  | noValidAncestor
  | storage (e : StorageError)
  | rejected
  deriving DecidableEq, Repr

section Import

variable {Key Value Body : Type}

/-- The checks of `state_transition` before the transaction starts. -/
def precheck (r : Runtime Key Value Body) (b : Block Body) (s : StateStorage Key Value) :
    Option ImportError :=
  if !r.skipTimeslotWallClockCheck && r.currentTimeslot < b.header.timeslot then some .badSlot
  else if b.header.extrinsicHash ≠ r.generateExtrinsicHash b.extrinsic then
    some .extrinsicHashMismatch
  else match s.getParent b.header with
    | none => some .noValidAncestor
    | some parentHeader =>
      if b.header.parent = 0 ∧ s.finalizedBlockHash ≠ none ∧ s.finalizedBlockHash ≠ some 0 then
        some .noValidAncestor
      else if b.header.timeslot ≤ parentHeader.timeslot then some .badSlot
      else none

/-! ## Selecting the candidate -/

lemma StateStorage.startTx_eq_self {s : StateStorage Key Value} (h : s.transaction = ∅) :
    s.startTx = s := by
  rw [StateStorage.startTx, ← h]

/-- The store with a block selected as a candidate, a change set and pending writes of its own. -/
def candidateState (b : Block Body) (s : StateStorage Key Value) (changes tx : ChangeSet Key Value) :
    StateStorage Key Value :=
  { s with
    blockHash := some b.header.hash
    parents := s.parents.insert b.header.hash (some b.header.parent)
    changeSets := s.changeSets.insert b.header.hash changes
    transaction := tx }

lemma setBlockHash_startTx_of_known {b : Block Body} {s : StateStorage Key Value}
    (h : s.parentKnown b.header.parent = true) :
    s.startTx.setBlockHash b.header.hash b.header.parent = .ok (candidateState b s ∅ ∅) := by
  have hknown : s.startTx.parentKnown b.header.parent = true := h
  rw [StateStorage.setBlockHash, hknown]
  rfl

lemma setBlockHash_startTx_of_not_known {b : Block Body} {s : StateStorage Key Value}
    (h : s.parentKnown b.header.parent = false) :
    s.startTx.setBlockHash b.header.hash b.header.parent = .error .invalidParentHash := by
  have hknown : s.startTx.parentKnown b.header.parent = false := h
  rw [StateStorage.setBlockHash, hknown]
  rfl

/-! ## The transition and the clean-up -/

variable [DecidableEq Key]

/-- The writes of a transition, through `put` and `delete`. -/
def applyWrites (s : StateStorage Key Value) (writes : List (Key × Option Value)) :
    StateStorage Key Value :=
  writes.foldl (fun s (key, item) =>
    match item with
    | some value => s.put key value
    | none => s.delete key) s

/-- `state_transition` with `produce=False`: the store it leaves and the exception it raised. -/
def stateTransition (r : Runtime Key Value Body) (b : Block Body) (s : StateStorage Key Value) :
    StateStorage Key Value × Option ImportError :=
  match precheck r b s with
  | some e => (s, some e)
  | none =>
    match s.startTx.setBlockHash b.header.hash b.header.parent with
    | .error e => (s.startTx, some (.storage e))
    | .ok candidate =>
      match r.execute candidate b with
      | .rejected writes => (applyWrites candidate writes, some .rejected)
      | .committed writes raised =>
        let written := applyWrites candidate writes
        match written.commit with
        | .error e => (written, some (.storage e))
        | .ok committed => (committed, if raised then some .rejected else none)

/-- The hash that `_import_block` would go back to. -/
def restoreHash (b : Block Body) (s : StateStorage Key Value) : Option Hash :=
  if s.blockHash = some b.header.hash then
    if s.hasStateAt b.header.parent then some b.header.parent else none
  else s.blockHash

/-- `_import_block`: the store it leaves and the exception it raised. -/
def importBlock (r : Runtime Key Value Body) (b : Block Body) (s : StateStorage Key Value) :
    StateStorage Key Value × Option ImportError :=
  match stateTransition r b s with
  | (s', none) => (s'.addAncestor (.header b.header), none)
  | (s', some e) =>
    if s'.blockHash = some b.header.hash then
      match s'.discardCandidate b.header.hash (restoreHash b s) with
      | .ok s'' => (s'', some e)
      | .error e' => (s', some (.storage e'))
    else (s', some e)

/-! ## When a rejected import restores the store -/

/-- The clean-up does not touch an overlay: the block is not selected, or it is the finalized one,
which `discard_candidate` refuses. -/
def NotDiscarded (b : Block Body) (s : StateStorage Key Value) : Prop :=
  s.blockHash ≠ some b.header.hash ∨ s.finalizedBlockHash = some b.header.hash

/-- The store knows nothing of the block, has no pending writes, and what is selected can be selected
again. -/
structure FreshCandidate (b : Block Body) (s : StateStorage Key Value) : Prop where
  not_selected : s.blockHash ≠ some b.header.hash
  not_finalized : s.finalizedBlockHash ≠ some b.header.hash
  no_change_set : s.changeSets.contains b.header.hash = false
  no_parent_link : s.parents.contains b.header.hash = false
  no_ancestor : s.ancestors.contains b.header.hash = false
  no_transaction : s.transaction = ∅
  restorable : ∀ h ∈ s.blockHash, s.hasStateAt h = true

/-- The condition, by how far the attempt gets: before the transaction starts, before the candidate is
selected, or beyond. -/
def ImportOk (r : Runtime Key Value Body) (b : Block Body) (s : StateStorage Key Value) : Prop :=
  if (precheck r b s).isSome then NotDiscarded b s
  else if s.parentKnown b.header.parent then FreshCandidate b s
  else s.transaction = ∅ ∧ NotDiscarded b s

/-! ## What each stage leaves behind -/

/-- Writes under a selected block only extend the transaction. -/
lemma applyWrites_eq (writes : List (Key × Option Value)) :
    ∀ {s : StateStorage Key Value}, s.blockHash ≠ none →
      ∃ tx, applyWrites s writes = { s with transaction := tx } := by
  induction writes with
  | nil =>
    intro s hs
    exact ⟨s.transaction, rfl⟩
  | cons write rest ih =>
    intro s hs
    obtain ⟨key, item⟩ := write
    obtain ⟨h, hh⟩ := Option.ne_none_iff_exists'.mp hs
    -- both kinds of write put one item in the transaction and leave the selection alone
    have hstep : ∀ s' : StateStorage Key Value,
        s' = { s with transaction := s.transaction.insert key item } →
        ∃ tx, applyWrites s' rest = { s with transaction := tx } := by
      rintro s' rfl
      obtain ⟨tx, htx⟩ := ih (s := { s with transaction := s.transaction.insert key item }) hs
      exact ⟨tx, htx⟩
    cases item with
    | some value =>
      apply hstep (s.put key value)
      rw [StateStorage.put, hh]
    | none =>
      apply hstep (s.delete key)
      rw [StateStorage.delete, hh]

omit [DecidableEq Key] in
lemma commit_candidateState (b : Block Body) (s : StateStorage Key Value)
    (changes tx : ChangeSet Key Value) :
    (candidateState b s changes tx).commit =
      if b.header.hash = 0 then .error .commitTemporary else .ok (candidateState b s tx ∅) := by
  simp only [StateStorage.commit, candidateState, Dict.insert_insert]

/-- Once the candidate is selected, a transition leaves it with some change set and some pending
writes, whether it raises or not. -/
lemma stateTransition_selected {r : Runtime Key Value Body} {b : Block Body}
    {s : StateStorage Key Value} (hpre : precheck r b s = none)
    (hknown : s.parentKnown b.header.parent = true) :
    ∃ changes tx, (stateTransition r b s).1 = candidateState b s changes tx := by
  have hselected : (candidateState b s ∅ ∅).blockHash ≠ none := nofun
  rw [stateTransition, hpre]
  simp only [setBlockHash_startTx_of_known hknown]
  cases r.execute (candidateState b s ∅ ∅) b with
  | rejected writes =>
    obtain ⟨tx, htx⟩ := applyWrites_eq writes hselected
    exact ⟨∅, tx, htx⟩
  | committed writes raised =>
    obtain ⟨tx, htx⟩ := applyWrites_eq writes hselected
    have hwritten : applyWrites (candidateState b s ∅ ∅) writes = candidateState b s ∅ tx := htx
    simp only [hwritten, commit_candidateState]
    by_cases hzero : b.header.hash = 0
    · rw [if_pos hzero]
      exact ⟨∅, tx, rfl⟩
    · rw [if_neg hzero]
      exact ⟨tx, ∅, rfl⟩

lemma stateTransition_of_precheck {r : Runtime Key Value Body} {b : Block Body}
    {s : StateStorage Key Value} {e : ImportError} (hpre : precheck r b s = some e) :
    stateTransition r b s = (s, some e) := by
  rw [stateTransition, hpre]

lemma stateTransition_of_not_known {r : Runtime Key Value Body} {b : Block Body}
    {s : StateStorage Key Value} (hpre : precheck r b s = none)
    (hknown : s.parentKnown b.header.parent = false) :
    stateTransition r b s = (s.startTx, some (.storage .invalidParentHash)) := by
  rw [stateTransition, hpre]
  simp only [setBlockHash_startTx_of_not_known hknown]

/-- The clean-up after a transition that raised. -/
def cleanUp (b : Block Body) (restore : Option Hash) (s : StateStorage Key Value) :
    StateStorage Key Value :=
  if s.blockHash = some b.header.hash then
    match s.discardCandidate b.header.hash restore with
    | .ok s' => s'
    | .error _ => s
  else s

/-- An import that raises is a transition followed by the clean-up. -/
lemma importBlock_of_raised {r : Runtime Key Value Body} {b : Block Body}
    {s : StateStorage Key Value} (h : (importBlock r b s).2.isSome = true) :
    (importBlock r b s).1 = cleanUp b (restoreHash b s) (stateTransition r b s).1 := by
  rw [importBlock] at h ⊢
  rcases hst : stateTransition r b s with ⟨s', _ | e⟩
  · simp [hst] at h
  · simp only [cleanUp]
    split
    · cases s'.discardCandidate b.header.hash (restoreHash b s) <;> rfl
    · rfl

/-! ## Clean-up -/

omit [DecidableEq Key] in
/-- Where nothing is discarded, the clean-up does nothing. -/
lemma cleanUp_of_notDiscarded {b : Block Body} {s : StateStorage Key Value} (restore : Option Hash)
    (h : NotDiscarded b s) : cleanUp b restore s = s := by
  rw [cleanUp]
  split
  · next hsel =>
    rcases h with hne | hfin
    · exact absurd hsel hne
    · rw [StateStorage.discardCandidate, if_pos hfin]
  · rfl

omit [DecidableEq Key] in
/-- A candidate adds its own state to those that are available. -/
lemma hasStateAt_candidateState (b : Block Body) (s : StateStorage Key Value)
    (changes tx : ChangeSet Key Value) (h : Hash) :
    (candidateState b s changes tx).hasStateAt h = true ↔
      h = b.header.hash ∨ s.hasStateAt h = true := by
  have hfin : (candidateState b s changes tx).finalizedBlockHash = s.finalizedBlockHash := rfl
  have hchanges : (candidateState b s changes tx).changeSets =
      s.changeSets.insert b.header.hash changes := rfl
  simp only [StateStorage.hasStateAt, hfin, hchanges, Dict.contains_insert, Bool.or_eq_true,
    decide_eq_true_eq]
  tauto

omit [DecidableEq Key] in
/-- Discarding a candidate of which nothing was known before leaves no trace. -/
lemma discardCandidate_candidateState {b : Block Body} {s : StateStorage Key Value}
    (h : FreshCandidate b s) (changes tx : ChangeSet Key Value) :
    (candidateState b s changes tx).discardCandidate b.header.hash s.blockHash = .ok s := by
  have havailable :
      ¬ s.blockHash.any (fun x => !(candidateState b s changes tx).hasStateAt x) = true := by
    intro hbad
    obtain ⟨x, hx, hnot⟩ := (Option.any_eq_true _ _).mp hbad
    rw [(hasStateAt_candidateState b s changes tx x).mpr (.inr (h.restorable x hx))] at hnot
    cases hnot
  have hfin : (candidateState b s changes tx).finalizedBlockHash ≠ some b.header.hash :=
    h.not_finalized
  have hsel : ¬ (candidateState b s changes tx).blockHash ≠ some b.header.hash := by
    simp [candidateState]
  rw [StateStorage.discardCandidate, if_neg hfin, if_neg hsel, if_neg havailable]
  simp only [candidateState, Dict.erase_insert, Dict.erase_of_not_contains h.no_change_set,
    Dict.erase_of_not_contains h.no_parent_link, Dict.erase_of_not_contains h.no_ancestor,
    ← h.no_transaction]

omit [DecidableEq Key] in
lemma cleanUp_candidateState {b : Block Body} {s : StateStorage Key Value} (h : FreshCandidate b s)
    (changes tx : ChangeSet Key Value) :
    cleanUp b (restoreHash b s) (candidateState b s changes tx) = s := by
  have hrestore : restoreHash b s = s.blockHash := if_neg h.not_selected
  have hsel : (candidateState b s changes tx).blockHash = some b.header.hash := rfl
  rw [cleanUp, if_pos hsel, hrestore, discardCandidate_candidateState h]

/-- Under the condition, a rejected import leaves the store as it was. -/
lemma importBlock_eq_self {r : Runtime Key Value Body} {b : Block Body} {s : StateStorage Key Value}
    (hraised : (importBlock r b s).2.isSome = true) (hok : ImportOk r b s) :
    (importBlock r b s).1 = s := by
  rw [importBlock_of_raised hraised]
  rw [ImportOk] at hok
  cases hpre : precheck r b s with
  | some e =>
    rw [hpre] at hok
    rw [stateTransition_of_precheck hpre]
    exact cleanUp_of_notDiscarded _ hok
  | none =>
    rw [hpre] at hok
    cases hknown : s.parentKnown b.header.parent with
    | true =>
      rw [hknown] at hok
      obtain ⟨changes, tx, hst⟩ := stateTransition_selected hpre hknown
      rw [hst]
      exact cleanUp_candidateState hok changes tx
    | false =>
      rw [hknown] at hok
      rw [stateTransition_of_not_known hpre hknown, StateStorage.startTx_eq_self hok.1]
      exact cleanUp_of_notDiscarded _ hok.2

/-! ## The condition is exact -/

/-- The parts of the store that an import works on, unchanged up to the order of dictionaries. -/
structure Restored (before after : StateStorage Key Value) : Prop where
  blockHash : after.blockHash = before.blockHash
  changeSets : after.changeSets.Same before.changeSets
  parents : after.parents.Same before.parents
  ancestors : after.ancestors.Same before.ancestors
  transaction : after.transaction.Same before.transaction

/-- Discarding a selected block that is not finalized loses its change set or the selection. -/
lemma notDiscarded_of_restored {b : Block Body} {s s' : StateStorage Key Value}
    (hsel : s'.blockHash = s.blockHash) (hfin : s'.finalizedBlockHash = s.finalizedBlockHash)
    (hstate : ∀ h, s.hasStateAt h = true → s'.hasStateAt h = true)
    (h : Restored s (cleanUp b (restoreHash b s) s')) : NotDiscarded b s := by
  by_contra hnot
  rw [NotDiscarded, not_or, not_not] at hnot
  obtain ⟨hselected, hnotfin⟩ := hnot
  have hrestore : restoreHash b s =
      if s.hasStateAt b.header.parent then some b.header.parent else none := if_pos hselected
  have havailable : ¬ (restoreHash b s).any (fun x => !s'.hasStateAt x) = true := by
    rw [hrestore]
    split
    · next hparent => simp [hstate _ hparent]
    · simp
  have hblock := h.blockHash
  have hchanges := h.changeSets b.header.hash
  rw [cleanUp, if_pos (hsel.trans hselected), StateStorage.discardCandidate,
    if_neg (by rw [hfin]; exact hnotfin), if_neg (by rw [hsel, hselected]; simp),
    if_neg havailable] at hblock hchanges
  simp only [hselected, Dict.get?_erase, if_true] at hblock hchanges
  -- the selection can only survive when the block is its own parent, and then its state is gone
  rw [hrestore] at hblock
  split at hblock
  · next hparent =>
    rw [Option.some.inj hblock, StateStorage.hasStateAt, Dict.contains, ← hchanges] at hparent
    simp [hnotfin] at hparent
  · cases hblock

/-- Past the selection, a restored store had never seen the block. -/
lemma freshCandidate_of_restored {b : Block Body} {s : StateStorage Key Value}
    {changes tx : ChangeSet Key Value}
    (hnew : ¬ (s.finalizedBlockHash = some b.header.hash ∧ s.blockHash = some b.header.hash))
    (h : Restored s (cleanUp b (restoreHash b s) (candidateState b s changes tx))) :
    FreshCandidate b s := by
  have hsel : (candidateState b s changes tx).blockHash = some b.header.hash := rfl
  have hnotsel : s.blockHash ≠ some b.header.hash := by
    intro hselected
    have hnot := notDiscarded_of_restored (hsel.trans hselected.symm) rfl
      (fun x hx => (hasStateAt_candidateState b s changes tx x).mpr (.inr hx)) h
    rcases hnot with hne | hfin
    · exact hne hselected
    · exact hnew ⟨hfin, hselected⟩
  have hrestore : restoreHash b s = s.blockHash := if_neg hnotsel
  rw [cleanUp, if_pos hsel, hrestore] at h
  -- an error of `discard_candidate` would leave the candidate selected
  cases hd : (candidateState b s changes tx).discardCandidate b.header.hash s.blockHash with
  | error e =>
    rw [hd] at h
    exact absurd h.blockHash.symm hnotsel
  | ok s' =>
    rw [hd] at h
    rw [StateStorage.discardCandidate] at hd
    split_ifs at hd with hfin hsel' hrestorable
    cases hd
    have hchanges := h.changeSets b.header.hash
    have hparents := h.parents b.header.hash
    have hancestors := h.ancestors b.header.hash
    simp only [Dict.get?_erase, if_true] at hchanges hparents hancestors
    refine ⟨hnotsel, hfin, Dict.get?_eq_none_iff.mp hchanges.symm,
      Dict.get?_eq_none_iff.mp hparents.symm, Dict.get?_eq_none_iff.mp hancestors.symm,
      Dict.eq_empty_of_same h.transaction.symm, ?_⟩
    intro x hx
    by_contra hnone
    apply hrestorable
    have hxne : x ≠ b.header.hash := by
      rintro rfl
      exact hnotsel hx
    rw [Option.mem_def.mp hx, Option.any_some, Bool.not_eq_true', ← Bool.not_eq_true,
      hasStateAt_candidateState, not_or]
    exact ⟨hxne, hnone⟩

/-- A rejected import leaves the store as it was exactly under the condition, unless the block is
both finalized and selected: then what the attempt overwrites may happen to be what it writes. -/
theorem importBlock_restored_iff {r : Runtime Key Value Body} {b : Block Body}
    {s : StateStorage Key Value} (hraised : (importBlock r b s).2.isSome = true)
    (hnew : ¬ (s.finalizedBlockHash = some b.header.hash ∧ s.blockHash = some b.header.hash)) :
    Restored s (importBlock r b s).1 ↔ ImportOk r b s := by
  constructor
  · intro h
    rw [importBlock_of_raised hraised] at h
    rw [ImportOk]
    cases hpre : precheck r b s with
    | some e =>
      rw [stateTransition_of_precheck hpre] at h
      exact notDiscarded_of_restored rfl rfl (fun _ hx => hx) h
    | none =>
      cases hknown : s.parentKnown b.header.parent with
      | true =>
        obtain ⟨changes, tx, hst⟩ := stateTransition_selected hpre hknown
        rw [hst] at h
        exact freshCandidate_of_restored hnew h
      | false =>
        rw [stateTransition_of_not_known hpre hknown] at h
        have hstarted : Restored s (cleanUp b (restoreHash b s) s.startTx) := h
        have hnot : NotDiscarded b s := by
          refine notDiscarded_of_restored ?_ ?_ ?_ hstarted
          · rfl
          · rfl
          · exact fun _ hx => hx
        refine ⟨?_, hnot⟩
        have htx := h.transaction
        rw [cleanUp_of_notDiscarded (s := s.startTx) _ hnot] at htx
        exact Dict.eq_empty_of_same htx.symm
  · intro hok
    rw [importBlock_eq_self hraised hok]
    exact ⟨rfl, .refl _, .refl _, .refl _, .refl _⟩

end Import

/-! ## Runs of the store -/

/-- What can happen to a store: an import, or one of its own operations. -/
inductive StoreOp (Key Value Body : Type) where
  | importBlock (r : Runtime Key Value Body) (b : Block Body)
  | addAncestor (a : Ancestor)
  | setHeader (header : Header)
  | setFinalizedHeader (header : Header)
  | setFinalizedBlockHash (blockHash : Hash)
  | setBlockHash (blockHash parentHash : Hash)
  | setTemporaryBlockHash (parentHash : Hash)
  | updateTemporaryBlockHash (blockHash : Hash)
  | selectBlockHash (blockHash : Hash)
  | clearBlockHash
  | put (key : Key) (value : Value)
  | delete (key : Key)
  | startTx
  | commit
  | rollback
  | discardCandidate (blockHash : Hash) (restoreHash : Option Hash)
  | finalize (blockHash : Hash)
  | clear (keepAncestors : Bool)

section Runs

variable {Key Value Body : Type} [DecidableEq Key]

/-- The store after an operation; one that raises leaves it as it is. -/
def step (s : StateStorage Key Value) : StoreOp Key Value Body → StateStorage Key Value
  | .importBlock r b => (importBlock r b s).1
  | .addAncestor a => s.addAncestor a
  | .setHeader header => (s.setHeader header).toOption.getD s
  | .setFinalizedHeader header => s.setFinalizedHeader header
  | .setFinalizedBlockHash blockHash => s.setFinalizedBlockHash blockHash
  | .setBlockHash blockHash parentHash => (s.setBlockHash blockHash parentHash).toOption.getD s
  | .setTemporaryBlockHash parentHash => (s.setTemporaryBlockHash parentHash).toOption.getD s
  | .updateTemporaryBlockHash blockHash => (s.updateTemporaryBlockHash blockHash).1
  | .selectBlockHash blockHash => (s.selectBlockHash blockHash).toOption.getD s
  | .clearBlockHash => s.clearBlockHash
  | .put key value => s.put key value
  | .delete key => s.delete key
  | .startTx => s.startTx
  | .commit => s.commit.toOption.getD s
  | .rollback => s.rollback
  | .discardCandidate blockHash restoreHash =>
    (s.discardCandidate blockHash restoreHash).toOption.getD s
  | .finalize blockHash => (s.finalize blockHash).toOption.getD s
  | .clear keepAncestors => s.clear keepAncestors

/-- The store after a run. -/
def run (s : StateStorage Key Value) (ops : List (StoreOp Key Value Body)) : StateStorage Key Value :=
  ops.foldl step s

/-- The operation is an import that raises. -/
def Rejected (s : StateStorage Key Value) : StoreOp Key Value Body → Bool
  | .importBlock r b => (importBlock r b s).2.isSome
  | _ => false

/-- The operation is an import that is accepted. -/
def Accepted (s : StateStorage Key Value) : StoreOp Key Value Body → Bool
  | .importBlock r b => (importBlock r b s).2.isNone
  | _ => false

/-- If the operation is an import that raises, it meets the condition. -/
def StepOk (s : StateStorage Key Value) (op : StoreOp Key Value Body) : Prop :=
  ∀ r b, op = .importBlock r b → (importBlock r b s).2.isSome = true → ImportOk r b s

/-- Every rejected import of a run meets the condition in the store it meets. -/
def RunOk (s : StateStorage Key Value) : List (StoreOp Key Value Body) → Prop
  | [] => True
  | op :: ops => StepOk s op ∧ RunOk (step s op) ops

/-- The run with its rejected imports left out. -/
def dropRejected (s : StateStorage Key Value) :
    List (StoreOp Key Value Body) → List (StoreOp Key Value Body)
  | [] => []
  | op :: ops =>
    if Rejected s op then dropRejected (step s op) ops else op :: dropRejected (step s op) ops

/-- One step: a rejected import that meets the condition changes nothing. -/
lemma step_of_rejected {s : StateStorage Key Value} {op : StoreOp Key Value Body}
    (hok : StepOk s op) (hrejected : Rejected s op = true) : step s op = s := by
  cases op with
  | importBlock r b => exact importBlock_eq_self hrejected (hok r b rfl hrejected)
  | _ => cases hrejected

lemma runOk_append {s : StateStorage Key Value} {pre post : List (StoreOp Key Value Body)}
    (h : RunOk s (pre ++ post)) : RunOk (run s pre) post := by
  induction pre generalizing s with
  | nil => exact h
  | cons op pre ih => exact ih h.2

lemma run_dropRejected {s : StateStorage Key Value} {ops : List (StoreOp Key Value Body)}
    (hok : RunOk s ops) : run s (dropRejected s ops) = run s ops := by
  induction ops generalizing s with
  | nil => rfl
  | cons op ops ih =>
    rw [dropRejected]
    split
    · next hrejected =>
      have hstep := step_of_rejected hok.1 hrejected
      have hrun := ih hok.2
      rw [hstep] at hrun ⊢
      rw [hrun, run, run, List.foldl_cons, hstep]
    · exact ih hok.2

/-! ## Accepted blocks stay available -/

/-- A block whose children can be imported: it is linked, its header is known and its state can be
selected. -/
structure AvailableParent (s : StateStorage Key Value) (h : Hash) : Prop where
  linked : s.parents.contains h = true
  ancestor : s.ancestors.contains h = true
  state : s.hasStateAt h = true

/-- An accepted import has selected its candidate and remembered its header. -/
lemma importBlock_of_accepted {r : Runtime Key Value Body} {b : Block Body}
    {s : StateStorage Key Value} (h : (importBlock r b s).2 = none) :
    ∃ changes tx, (importBlock r b s).1 =
      (candidateState b s changes tx).addAncestor (.header b.header) := by
  have hst : (stateTransition r b s).2 = none ∧
      (importBlock r b s).1 = (stateTransition r b s).1.addAncestor (.header b.header) := by
    rw [importBlock] at h ⊢
    rcases hcase : stateTransition r b s with ⟨s', _ | e⟩
    · exact ⟨rfl, rfl⟩
    · simp only [hcase] at h
      split at h
      · split at h <;> cases h
      · cases h
  obtain ⟨hnone, himport⟩ := hst
  cases hpre : precheck r b s with
  | some e =>
    rw [stateTransition_of_precheck hpre] at hnone
    cases hnone
  | none =>
    cases hknown : s.parentKnown b.header.parent with
    | false =>
      rw [stateTransition_of_not_known hpre hknown] at hnone
      cases hnone
    | true =>
      obtain ⟨changes, tx, hselected⟩ := stateTransition_selected hpre hknown
      exact ⟨changes, tx, by rw [himport, hselected]⟩

/-- After an accepted import the block is available, and so is every block that was. -/
lemma availableParent_of_accepted {r : Runtime Key Value Body} {b : Block Body}
    {s : StateStorage Key Value} (haccepted : (importBlock r b s).2 = none) {h : Hash}
    (hh : h = b.header.hash ∨ AvailableParent s h) : AvailableParent (importBlock r b s).1 h := by
  obtain ⟨changes, tx, himport⟩ := importBlock_of_accepted haccepted
  have hhash : (Ancestor.header b.header).hash = b.header.hash := rfl
  have hlinked : s.parents.contains h = true ∨ h = b.header.hash := by
    rcases hh with rfl | hh
    · exact .inr rfl
    · exact .inl hh.linked
  have hancestor : s.ancestors.contains h = true ∨ h = b.header.hash := by
    rcases hh with rfl | hh
    · exact .inr rfl
    · exact .inl hh.ancestor
  have hstate : h = b.header.hash ∨ s.hasStateAt h = true := hh.imp_right AvailableParent.state
  rw [himport]
  refine ⟨?_, ?_, (hasStateAt_candidateState b s changes tx h).mpr hstate⟩
  · simp only [StateStorage.addAncestor, candidateState, hhash, Dict.contains_insert,
      Bool.or_eq_true, decide_eq_true_eq]
    tauto
  · simp only [StateStorage.addAncestor, candidateState, hhash, Dict.contains_insert,
      Bool.or_eq_true, decide_eq_true_eq]
    tauto

/-- Imports, accepted or not, keep a block available. -/
lemma availableParent_run {s : StateStorage Key Value} {ops : List (StoreOp Key Value Body)} {h : Hash}
    (himports : ∀ op ∈ ops, ∃ r b, op = .importBlock r b) (hok : RunOk s ops)
    (hh : AvailableParent s h) : AvailableParent (run s ops) h := by
  induction ops generalizing s with
  | nil => exact hh
  | cons op ops ih =>
    apply ih (fun o ho => himports o (List.mem_cons_of_mem _ ho)) hok.2
    obtain ⟨r, b, rfl⟩ := himports op List.mem_cons_self
    cases herr : (importBlock r b s).2 with
    | none => exact availableParent_of_accepted herr (.inr hh)
    | some e =>
      have hrejected : Rejected s (.importBlock r b) = true := by
        rw [Rejected, herr]
        rfl
      rw [step_of_rejected hok.1 hrejected]
      exact hh

/-- In a run whose rejected imports all meet the condition, each of them leaves the store as it was;
the whole run ends where it would have ended without them; and an accepted block stays available as
a parent through the imports that follow it. -/
theorem rejected_imports_restore (engine : Dict Key Value) (ops : List (StoreOp Key Value Body))
    (hok : RunOk (.init engine) ops) :
    (∀ pre r b post, ops = pre ++ .importBlock r b :: post →
      (importBlock r b (run (.init engine) pre)).2.isSome = true →
        (importBlock r b (run (.init engine) pre)).1 = run (.init engine) pre) ∧
    run (.init engine) (dropRejected (.init engine) ops) = run (.init engine) ops ∧
    (∀ pre r b post, ops = pre ++ .importBlock r b :: post →
      (importBlock r b (run (.init engine) pre)).2 = none →
        (∀ op ∈ post, ∃ r' b', op = .importBlock r' b') →
          AvailableParent (run (.init engine) ops) b.header.hash) := by
  refine ⟨?_, run_dropRejected hok, ?_⟩
  · rintro pre r b post rfl hraised
    have hstep := (runOk_append hok).1
    exact importBlock_eq_self hraised (hstep r b rfl hraised)
  · rintro pre r b post rfl haccepted himports
    have hpost := (runOk_append hok).2
    have hstart := availableParent_of_accepted haccepted (.inl rfl)
    have hrun := availableParent_run himports hpost hstart
    rw [run, List.foldl_append, List.foldl_cons]
    exact hrun

end Runs

/-! ## A block that comes back with another body -/

/-- A runtime whose extrinsic hash is the extrinsic itself and whose transition writes one item. -/
def sampleRuntime : Runtime ℕ ℕ Hash where
  skipTimeslotWallClockCheck := true
  currentTimeslot := 0
  generateExtrinsicHash := id
  execute := fun _ b => if b.header.timeslot = 1 then .committed [(7, some 9)] false else .rejected []

def sampleGenesis : Header := ⟨1, 0, 0, 0⟩

/-- A child of the finalized block. -/
def sampleBlock : Block Hash := ⟨⟨2, 1, 1, 5⟩, 5⟩

/-- The same header over another extrinsic. -/
def sampleForgery : Block Hash := ⟨⟨2, 1, 1, 5⟩, 6⟩

/-- A child of `sampleBlock` that is rejected by the transition. -/
def sampleChild : Block Hash := ⟨⟨3, 2, 2, 5⟩, 5⟩

/-- A finalized block and an accepted child of it. -/
def sampleRun : List (StoreOp ℕ ℕ Hash) :=
  [.setFinalizedHeader sampleGenesis, .importBlock sampleRuntime sampleBlock]

/-- The header of the selected block with another body: the import is rejected, and the accepted
block is gone from the store. -/
theorem sampleForgery_discards_accepted_block :
    (importBlock sampleRuntime sampleForgery (run (.init ∅) sampleRun)).2 =
        some .extrinsicHashMismatch ∧
      AvailableParent (run (.init ∅) sampleRun) sampleBlock.header.hash ∧
      ¬ Restored (run (.init ∅) sampleRun)
        (importBlock sampleRuntime sampleForgery (run (.init ∅) sampleRun)).1 ∧
      ¬ AvailableParent (importBlock sampleRuntime sampleForgery (run (.init ∅) sampleRun)).1
        sampleBlock.header.hash := by
  refine ⟨by decide, ⟨by decide, by decide, by decide⟩, ?_, ?_⟩
  · intro h
    have hselected := h.blockHash
    revert hselected
    decide
  · intro h
    have hlinked := h.linked
    revert hlinked
    decide

/-- A rejected child of the accepted block meets the condition, and the store keeps both. -/
theorem sampleChild_restores :
    (importBlock sampleRuntime sampleChild (run (.init ∅) sampleRun)).2 = some .rejected ∧
      run (.init ∅) (sampleRun ++ [.importBlock sampleRuntime sampleChild]) =
        run (.init ∅) sampleRun := by
  have hraised : (importBlock sampleRuntime sampleChild (run (.init ∅) sampleRun)).2 =
      some .rejected := by decide
  refine ⟨hraised, ?_⟩
  have hok : RunOk (.init ∅) (sampleRun ++ [.importBlock sampleRuntime sampleChild]) := by
    refine ⟨?_, ?_, ?_, trivial⟩
    · rintro r b ⟨⟩
    · rintro r b ⟨⟩ hrejected
      exact absurd hrejected (by decide)
    · rintro r b ⟨⟩ -
      rw [ImportOk, if_neg (by decide), if_pos (by decide)]
      refine ⟨by decide, by decide, by decide, by decide, by decide, by decide, ?_⟩
      rintro h ⟨⟩
      decide
  have hstep := (rejected_imports_restore ∅ _ hok).1 sampleRun sampleRuntime sampleChild [] rfl
    (by rw [hraised]; rfl)
  exact hstep

end State
