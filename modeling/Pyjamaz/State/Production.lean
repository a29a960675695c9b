import Pyjamaz.State.Import
import Pyjamaz.State.Views

/-!
# Producing a block

A node produces a block with the same state transition that imports one.  The hash of the block is not
known before it is sealed, so a temporary hash of zeros is selected until then.  When the transition
raises, the worker of the timeslot reads the working state anew and drops its tickets.  It does not
give up the candidate, as an import does (`importBlock`): what was selected, linked and written for
it stays.  If there are writes among it, reading the working state raises in turn, since its root cannot
be computed while they are pending, and the node keeps the working state that the transition left in
memory; otherwise the working state that is read is the candidate's.

`failed_productions_undone` says when a failed production leaves the node as it was: it has to fail
before the temporary hash is selected.  `produceBlock_undone_iff` says that this is all there is, as long
as the temporary hash or the hash of the block were not selected before.
-/

namespace State

/-- Where a production raises after its commit: before its header is remembered, or after that. -/
inductive Late where
  | unremembered
  | remembered

/-- The working state of a node: its components as the items that were read from the store, the block
it belongs to, and the items of which `state_root` is the root. -/
structure JamState (Key Value : Type) where
  components : Key → Except StorageError (Option Value)
  blockHash : Option Hash
  stateRoot : Dict Key Value

/-- What the transition of a production does after the temporary hash has been selected, and the working
state that it leaves in memory. -/
inductive Production (Key Value : Type) where
  /-- it raised before the block was sealed -/
  | unsealed (writes : List (Key × Option Value)) (workingState : JamState Key Value)
  /-- it raised after the block got its hash -/
  | sealed (hash : Hash) (writes : List (Key × Option Value)) (workingState : JamState Key Value)
  /-- it committed, and raised later or not at all -/
  | committed (hash : Hash) (writes : List (Key × Option Value)) (late : Option Late)
      (workingState : JamState Key Value)

def Production.workingState {Key Value : Type} : Production Key Value → JamState Key Value
  | .unsealed _ workingState => workingState
  | .sealed _ _ workingState => workingState
  | .committed _ _ _ workingState => workingState

/-- What a production depends on besides the store: the block that was put together, if that did not
raise, and its transition. -/
structure Attempt (Key Value Body : Type) where
  runtime : Runtime Key Value Body
  block : Option (Block Body)
  execute : StateStorage Key Value → Block Body → Production Key Value

/-- A node: its store and its working state. -/
structure Node (Key Value : Type) where
  stateStorage : StateStorage Key Value
  workingState : JamState Key Value

section Production

variable {Key Value Body : Type} [DecidableEq Key]

/-- `retrieve_jam_state`; `state_root` raises while writes are pending. -/
def retrieveJamState (s : StateStorage Key Value) : Except StorageError (JamState Key Value) := do
  let items ← s.asDict
  return { components := fun key => s.get key false, blockHash := s.blockHash, stateRoot := items }

/-- `state_transition` with `produce=True`, and what `produce_block` does after it. -/
def produceTransition (a : Attempt Key Value Body) (b : Block Body) (s : StateStorage Key Value) :
    StateStorage Key Value × Option ImportError :=
  match precheck a.runtime b s with
  | some e => (s, some e)
  | none =>
    match s.startTx.setTemporaryBlockHash b.header.parent with
    | .error e => (s.startTx, some (.storage e))
    | .ok candidate =>
      match a.execute candidate b with
      | .unsealed writes _ => (applyWrites candidate writes, some .rejected)
      | .sealed hash writes _ =>
        match candidate.updateTemporaryBlockHash hash with
        | (s', some e) => (s', some (.storage e))
        | (s', none) => (applyWrites s' writes, some .rejected)
      | .committed hash writes late _ =>
        match candidate.updateTemporaryBlockHash hash with
        | (s', some e) => (s', some (.storage e))
        | (s', none) =>
          match (applyWrites s' writes).commit with
          | .error e => (applyWrites s' writes, some (.storage e))
          | .ok committed =>
            let remembered := committed.addAncestor (.header { b.header with hash := hash })
            match late with
            | none => (remembered, none)
            | some .unremembered => (committed, some .rejected)
            | some .remembered => (remembered, some .rejected)

/-- `produce_block` -/
def produceBlock (a : Attempt Key Value Body) (s : StateStorage Key Value) :
    StateStorage Key Value × Option ImportError :=
  match a.block with
  | none => (s, some .rejected)
  | some b => produceTransition a b s

/-- The working state in memory after `produce_block`: nothing touches it before the temporary hash is
selected. -/
def memoryAfter (a : Attempt Key Value Body) (n : Node Key Value) : JamState Key Value :=
  match a.block with
  | none => n.workingState
  | some b =>
    match precheck a.runtime b n.stateStorage with
    | some _ => n.workingState
    | none =>
      match n.stateStorage.startTx.setTemporaryBlockHash b.header.parent with
      | .error _ => n.workingState
      | .ok candidate => (a.execute candidate b).workingState

/-- The handler's assignment to the working state, which keeps its value when reading raises. -/
def rereadState (s : StateStorage Key Value) (memory : JamState Key Value) : JamState Key Value :=
  match retrieveJamState s with
  | .ok workingState => workingState
  | .error _ => memory

/-- The worker of the timeslot around `produce_block`. -/
def produce (a : Attempt Key Value Body) (n : Node Key Value) : Node Key Value :=
  match produceBlock a n.stateStorage with
  | (s, none) => ⟨s, memoryAfter a n⟩
  | (s, some _) => ⟨s, rereadState s (memoryAfter a n)⟩

/-! ## When a failed production is undone -/

/-- The attempt raises before it selects the temporary hash, and drops no pending writes. -/
def ProductionOk (a : Attempt Key Value Body) (s : StateStorage Key Value) : Prop :=
  ∀ b ∈ a.block, (precheck a.runtime b s).isSome = true ∨
    s.parentKnown b.header.parent = false ∧ s.transaction = ∅

/-- A failed production under the condition leaves the store as it was. -/
lemma produceBlock_eq_self {a : Attempt Key Value Body} {s : StateStorage Key Value}
    (hok : ProductionOk a s) : (produceBlock a s).1 = s := by
  rw [produceBlock]
  cases hblock : a.block with
  | none => rfl
  | some b =>
    change (produceTransition a b s).1 = s
    rw [produceTransition]
    cases hpre : precheck a.runtime b s with
    | some e => rfl
    | none =>
      rcases hok b hblock with hsome | ⟨hunknown, htx⟩
      · rw [hpre] at hsome
        cases hsome
      · have hset : s.startTx.setTemporaryBlockHash b.header.parent = .error .invalidParentHash := by
          have hstarted : s.startTx.parentKnown b.header.parent = false := hunknown
          rw [StateStorage.setTemporaryBlockHash, StateStorage.setBlockHash, hstarted]
          rfl
        simp only [hset]
        exact StateStorage.startTx_eq_self htx

omit [DecidableEq Key] in
/-- The condition leaves the working state alone as well. -/
lemma memoryAfter_eq_self {a : Attempt Key Value Body} {s : StateStorage Key Value}
    (hok : ProductionOk a s) (w : JamState Key Value) : memoryAfter a ⟨s, w⟩ = w := by
  rw [memoryAfter]
  cases hblock : a.block with
  | none => rfl
  | some b =>
    cases hpre : precheck a.runtime b s with
    | some e => simp only [hpre]
    | none =>
      rcases hok b hblock with hsome | ⟨hunknown, -⟩
      · rw [hpre] at hsome
        cases hsome
      · have hstarted : s.startTx.parentKnown b.header.parent = false := hunknown
        simp only [hpre, StateStorage.setTemporaryBlockHash, StateStorage.setBlockHash, hstarted,
          Bool.not_false, if_true]

/-! ## The condition is exact -/

/-- The parts of the store that a production works on, unchanged up to the order of dictionaries. -/
structure Undone (before after : StateStorage Key Value) : Prop where
  blockHash : after.blockHash = before.blockHash
  changeSets : after.changeSets.Same before.changeSets
  parents : after.parents.Same before.parents
  transaction : after.transaction.Same before.transaction

/-- The hash that a production gives its block. -/
def Production.hash? : Production Key Value → Option Hash
  | .unsealed _ _ => none
  | .sealed hash _ _ => some hash
  | .committed hash _ _ _ => some hash

omit [DecidableEq Key] in
/-- Getting its hash selects a block, and otherwise the temporary hash stays selected. -/
lemma updateTemporaryBlockHash_blockHash (s : StateStorage Key Value) (hash : Hash) :
    (s.updateTemporaryBlockHash hash).1.blockHash = s.blockHash ∨
      (s.updateTemporaryBlockHash hash).1.blockHash = some hash := by
  rw [StateStorage.updateTemporaryBlockHash]
  split
  · exact .inl rfl
  · dsimp only
    split
    · exact .inl rfl
    · exact .inr rfl

lemma applyWrites_blockHash (writes : List (Key × Option Value)) {s : StateStorage Key Value}
    (h : s.blockHash ≠ none) : (applyWrites s writes).blockHash = s.blockHash := by
  obtain ⟨tx, htx⟩ := applyWrites_eq writes h
  rw [htx]

omit [DecidableEq Key] in
lemma commit_blockHash {s s' : StateStorage Key Value} (h : s.commit = .ok s') :
    s'.blockHash = s.blockHash := by
  rw [StateStorage.commit] at h
  split at h
  · next hnone =>
    cases h
    exact hnone.symm ▸ rfl
  · split_ifs at h
    cases h
    rfl

/-- Once the temporary hash has been selected, it stays selected or gives way to that of the block. -/
lemma produceTransition_blockHash {a : Attempt Key Value Body} {b : Block Body}
    {s candidate : StateStorage Key Value} (hpre : precheck a.runtime b s = none)
    (hset : s.startTx.setTemporaryBlockHash b.header.parent = .ok candidate) :
    (produceTransition a b s).1.blockHash = some 0 ∨
      ∃ hash ∈ (a.execute candidate b).hash?, (produceTransition a b s).1.blockHash = some hash := by
  have hcandidate : candidate.blockHash = some 0 := by
    rw [StateStorage.setTemporaryBlockHash, StateStorage.setBlockHash] at hset
    split_ifs at hset
    cases hset
    rfl
  have hupdate : ∀ hash, (candidate.updateTemporaryBlockHash hash).1.blockHash = some 0 ∨
      (candidate.updateTemporaryBlockHash hash).1.blockHash = some hash := by
    intro hash
    rw [← hcandidate]
    exact updateTemporaryBlockHash_blockHash candidate hash
  have hwritten : ∀ hash s' writes, candidate.updateTemporaryBlockHash hash = (s', none) →
      (applyWrites s' writes).blockHash = some 0 ∨
        (applyWrites s' writes).blockHash = some hash := by
    intro hash s' writes heq
    have hselected := hupdate hash
    rw [heq] at hselected
    rw [applyWrites_blockHash writes (by rcases hselected with h | h <;> rw [h] <;> simp)]
    exact hselected
  rw [produceTransition, hpre]
  simp only [hset]
  cases hexecute : a.execute candidate b with
  | unsealed writes _ =>
    left
    change (applyWrites candidate writes).blockHash = some 0
    rw [applyWrites_blockHash writes (by rw [hcandidate]; simp), hcandidate]
  | «sealed» hash writes _ =>
    simp only [Production.hash?, Option.mem_def, Option.some.injEq, exists_eq_left']
    rcases hcase : candidate.updateTemporaryBlockHash hash with ⟨s', _ | e⟩
    · exact hwritten hash s' writes hcase
    · have hselected := hupdate hash
      rw [hcase] at hselected
      exact hselected
  | committed hash writes late _ =>
    simp only [Production.hash?, Option.mem_def, Option.some.injEq, exists_eq_left']
    rcases hcase : candidate.updateTemporaryBlockHash hash with ⟨s', _ | e⟩
    · have hselected := hwritten hash s' writes hcase
      simp only
      cases hcommit : (applyWrites s' writes).commit with
      | error e => exact hselected
      | ok committed =>
        rw [← commit_blockHash hcommit] at hselected
        cases late with
        | none => exact hselected
        | some late => cases late <;> exact hselected
    · have hselected := hupdate hash
      rw [hcase] at hselected
      exact hselected

/-- A failed production leaves the store as it was exactly under the condition, where neither the
temporary hash nor the hash of the block was selected before. -/
theorem produceBlock_undone_iff {a : Attempt Key Value Body} {s : StateStorage Key Value}
    (htemporary : s.blockHash ≠ some 0)
    (hnew : ∀ b ∈ a.block, ∀ candidate, ∀ hash ∈ (a.execute candidate b).hash?,
      s.blockHash ≠ some hash) :
    Undone s (produceBlock a s).1 ↔ ProductionOk a s := by
  constructor
  · intro h b hblock
    by_contra hnot
    rw [not_or, Bool.not_eq_true, Option.isSome_eq_false_iff, Option.isNone_iff_eq_none] at hnot
    obtain ⟨hpre, hnot⟩ := hnot
    have hproduce : produceBlock a s = produceTransition a b s := by
      rw [produceBlock, Option.mem_def.mp hblock]
    rw [hproduce] at h
    cases hset : s.startTx.setTemporaryBlockHash b.header.parent with
    | error e =>
      have hstart : (produceTransition a b s).1 = s.startTx := by
        rw [produceTransition, hpre]
        simp only [hset]
      rw [hstart] at h
      have htx : s.transaction = ∅ := Dict.eq_empty_of_same h.transaction.symm
      refine hnot ⟨?_, htx⟩
      by_contra hknown
      have hstarted : s.startTx.parentKnown b.header.parent = true := Bool.not_eq_false _ ▸ hknown
      rw [StateStorage.setTemporaryBlockHash, StateStorage.setBlockHash, hstarted] at hset
      cases hset
    | ok candidate =>
      rcases produceTransition_blockHash hpre hset with hzero | ⟨hash, hmem, hhash⟩
      · exact htemporary (h.blockHash ▸ hzero)
      · exact hnew b hblock candidate hash hmem (h.blockHash ▸ hhash)
  · intro hok
    rw [produceBlock_eq_self hok]
    exact ⟨rfl, .refl _, .refl _, .refl _⟩

/-! ## Runs of the node -/

/-- What happens to the store of a node: an operation of the store, an import among them, or an attempt
to produce a block. -/
inductive NodeOp (Key Value Body : Type) where
  | store (op : StoreOp Key Value Body)
  | produce (a : Attempt Key Value Body)

/-- The store after an operation. -/
def nodeStep (s : StateStorage Key Value) : NodeOp Key Value Body → StateStorage Key Value
  | .store op => step s op
  | .produce a => (produceBlock a s).1

/-- The store after a run. -/
def nodeRun (s : StateStorage Key Value) (ops : List (NodeOp Key Value Body)) :
    StateStorage Key Value :=
  ops.foldl nodeStep s

/-- The operation is a production that raises. -/
def Failed (s : StateStorage Key Value) : NodeOp Key Value Body → Bool
  | .store _ => false
  | .produce a => (produceBlock a s).2.isSome

/-- Every failed production of a run meets the condition in the store it meets. -/
def FailuresOk (s : StateStorage Key Value) : List (NodeOp Key Value Body) → Prop
  | [] => True
  | op :: ops => (∀ a, op = .produce a → Failed s op = true → ProductionOk a s) ∧
      FailuresOk (nodeStep s op) ops

/-- The run with its failed productions left out. -/
def dropFailed (s : StateStorage Key Value) :
    List (NodeOp Key Value Body) → List (NodeOp Key Value Body)
  | [] => []
  | op :: ops =>
    if Failed s op then dropFailed (nodeStep s op) ops else op :: dropFailed (nodeStep s op) ops

lemma failuresOk_append {s : StateStorage Key Value} {pre post : List (NodeOp Key Value Body)}
    (h : FailuresOk s (pre ++ post)) : FailuresOk (nodeRun s pre) post := by
  induction pre generalizing s with
  | nil => exact h
  | cons op pre ih => exact ih h.2

lemma nodeStep_of_failed {s : StateStorage Key Value} {op : NodeOp Key Value Body}
    (hok : ∀ a, op = .produce a → Failed s op = true → ProductionOk a s)
    (hfailed : Failed s op = true) : nodeStep s op = s := by
  cases op with
  | store op => cases hfailed
  | produce a => exact produceBlock_eq_self (hok a rfl hfailed)

lemma nodeRun_dropFailed {s : StateStorage Key Value} {ops : List (NodeOp Key Value Body)}
    (hok : FailuresOk s ops) : nodeRun s (dropFailed s ops) = nodeRun s ops := by
  induction ops generalizing s with
  | nil => rfl
  | cons op ops ih =>
    rw [dropFailed]
    split
    · next hfailed =>
      have hstep := nodeStep_of_failed hok.1 hfailed
      have hrun := ih hok.2
      rw [hstep] at hrun ⊢
      rw [hrun, nodeRun, nodeRun, List.foldl_cons, hstep]
    · exact ih hok.2

/-- In every run of a node whose failed productions raise before the temporary hash is selected, every
one of them leaves the store as it was and the working state the one of the block that is selected, or
as it was where that cannot be read; and the run goes on as if it had not been attempted. -/
theorem failed_productions_undone (engine : Dict Key Value) (ops : List (NodeOp Key Value Body))
    (hok : FailuresOk (.init engine) ops) :
    (∀ pre a post, ops = pre ++ .produce a :: post →
      (produceBlock a (nodeRun (.init engine) pre)).2.isSome = true →
        ∀ w, produce a ⟨nodeRun (.init engine) pre, w⟩ =
            ⟨nodeRun (.init engine) pre, rereadState (nodeRun (.init engine) pre) w⟩ ∧
          (retrieveJamState (nodeRun (.init engine) pre) = .ok w →
            produce a ⟨nodeRun (.init engine) pre, w⟩ = ⟨nodeRun (.init engine) pre, w⟩)) ∧
    nodeRun (.init engine) (dropFailed (.init engine) ops) = nodeRun (.init engine) ops := by
  refine ⟨?_, nodeRun_dropFailed hok⟩
  rintro pre a post rfl hfailed w
  have hattempt := (failuresOk_append hok).1 a rfl hfailed
  have hproduce : produce a ⟨nodeRun (.init engine) pre, w⟩ =
      ⟨nodeRun (.init engine) pre, rereadState (nodeRun (.init engine) pre) w⟩ := by
    obtain ⟨e, hraised⟩ := Option.isSome_iff_exists.mp hfailed
    have hself : produceBlock a (nodeRun (.init engine) pre) = (nodeRun (.init engine) pre, some e) :=
      Prod.ext (produceBlock_eq_self hattempt) hraised
    simp only [produce, hself, memoryAfter_eq_self hattempt]
  refine ⟨hproduce, fun hread => ?_⟩
  rw [hproduce, rereadState, hread]

end Production

/-! ## A production that fails after it was sealed -/

/-- The working state before any block. -/
def sampleState : JamState ℕ ℕ := ⟨fun _ => .ok none, none, ∅⟩

/-- A production on top of `sampleBlock` that fails after writing an item. -/
def sampleAttempt : Attempt ℕ ℕ Hash :=
  ⟨sampleRuntime, some ⟨⟨0, 2, 2, 5⟩, 5⟩, fun _ _ => .sealed 3 [(7, some 5)] sampleState⟩

/-- A production for the slot of its parent. -/
def sampleLateAttempt : Attempt ℕ ℕ Hash :=
  ⟨sampleRuntime, some ⟨⟨0, 2, 1, 5⟩, 5⟩, fun _ _ => .sealed 3 [(7, some 5)] sampleState⟩

def sampleNodeRun : List (NodeOp ℕ ℕ Hash) := sampleRun.map .store

/-- A production that the first checks refuse is undone. -/
theorem sampleLateAttempt_undone :
    (produceBlock sampleLateAttempt (nodeRun (.init ∅) sampleNodeRun)).2 = some .badSlot ∧
      ∀ w, produce sampleLateAttempt ⟨nodeRun (.init ∅) sampleNodeRun, w⟩ =
        ⟨nodeRun (.init ∅) sampleNodeRun, rereadState (nodeRun (.init ∅) sampleNodeRun) w⟩ := by
  have hraised : (produceBlock sampleLateAttempt (nodeRun (.init ∅) sampleNodeRun)).2 =
      some .badSlot := by decide
  refine ⟨hraised, fun w => ?_⟩
  have hok : FailuresOk (.init ∅) (sampleNodeRun ++ [.produce sampleLateAttempt]) := by
    refine ⟨?_, ?_, ?_, trivial⟩
    · rintro a ⟨⟩
    · rintro a ⟨⟩
    · rintro a ⟨⟩ - b ⟨⟩
      exact .inl (by decide)
  exact ((failed_productions_undone ∅ _ hok).1 sampleNodeRun sampleLateAttempt [] rfl
    (by rw [hraised]; rfl) w).1

/-- A production that fails after it was sealed leaves its candidate selected and linked, with its
writes pending.  The working state could be read before, and then the handler raises. -/
theorem sampleAttempt_not_undone :
    (produceBlock sampleAttempt (nodeRun (.init ∅) sampleNodeRun)).2 = some .rejected ∧
      (∃ w, retrieveJamState (nodeRun (.init ∅) sampleNodeRun) = .ok w ∧
        w.components 7 = .ok (some 9)) ∧
      ∀ w, ¬ Undone (nodeRun (.init ∅) sampleNodeRun)
          (produce sampleAttempt ⟨nodeRun (.init ∅) sampleNodeRun, w⟩).stateStorage ∧
        retrieveJamState (produce sampleAttempt ⟨nodeRun (.init ∅) sampleNodeRun, w⟩).stateStorage =
          .error .pendingTransaction := by
  refine ⟨by decide, ⟨_, rfl, by decide⟩, fun w => ⟨?_, rfl⟩⟩
  intro h
  have hselected : (produceBlock sampleAttempt (nodeRun (.init ∅) sampleNodeRun)).1.blockHash =
      (nodeRun (.init ∅) sampleNodeRun).blockHash := h.blockHash
  revert hselected
  decide

end State
