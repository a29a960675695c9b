import Mathlib.Logic.Relation
import Pyjamaz.State.Import

/-!
# Collecting blocks

Blocks come in any order.  The collect worker of the accumulate pipeline takes them one after another:
a block whose parent is known to the store goes to the import queue, any other is parked under the hash
of its parent, and when a block goes to the import queue, the one that is parked under its hash
follows.  A second worker imports the blocks of the import queue.  The workers run side by side, and
can be interleaved wherever one of them waits.

There is one place under each hash, so a second block with the same parent takes the place of the
first; and a parent that waits in the import queue is not known to the store yet, but will not pass
the collect worker again.  `collected_blocks_handed` says that these are the only ways to lose a block:
where no block is parked in either situation (`ParksSafely`), all blocks of a tree go to the import
queue, each after its parent.
-/

namespace Runtime

open State

/-- `AccumulatePipeline`, with what its two workers have in hand and what has happened so far. -/
structure AccumulatePipeline (Key Value Body : Type) where
  blockCollectQueue : List (Block Body)
  importQueue : List (Block Body)
  collectedBlocks : Dict Hash (Block Body)
  stateStorage : StateStorage Key Value
  /-- the block that the collect worker puts into the import queue next -/
  collecting : Option (Block Body)
  /-- the block that the import worker imports -/
  importing : Option (Block Body)
  /-- all blocks that `add_block` has received -/
  received : List (Block Body)
  /-- all blocks that went to the import queue, in order -/
  handed : List (Block Body)

/-- What the parts of the pipeline do between two places where they wait. -/
inductive Action (Body : Type) where
  | addBlock (b : Block Body)
  | collect
  | handOver
  | startImport
  | finishImport

section Pipeline

variable {Key Value Body : Type}

/-- A pipeline at the start of the node. -/
def AccumulatePipeline.init (s : StateStorage Key Value) : AccumulatePipeline Key Value Body :=
  ⟨[], [], ∅, s, none, none, [], []⟩

/-- `_block_collect_worker` with a block from its queue. -/
def AccumulatePipeline.collect (p : AccumulatePipeline Key Value Body) (b : Block Body)
    (rest : List (Block Body)) : AccumulatePipeline Key Value Body :=
  if (p.stateStorage.getParent b.header).isSome then
    { p with blockCollectQueue := rest, collecting := some b }
  else
    { p with
      blockCollectQueue := rest
      collectedBlocks := p.collectedBlocks.insert b.header.parent b }

/-- The worker puts the block into the import queue and looks for one that is parked under its
hash. -/
def AccumulatePipeline.handOver (p : AccumulatePipeline Key Value Body) (b : Block Body) :
    AccumulatePipeline Key Value Body :=
  let p := { p with importQueue := p.importQueue ++ [b], handed := p.handed ++ [b] }
  match p.collectedBlocks.get? b.header.hash with
  | some child => { p with
      collectedBlocks := p.collectedBlocks.erase b.header.hash
      collecting := some child }
  | none => { p with collecting := none }

variable [DecidableEq Key]

/-- One step of the pipeline, where it can be taken; the queues hold at most `queueSize` blocks.
When an import raises, that is logged and what its clean-up left stays. -/
def act (r : State.Runtime Key Value Body) (queueSize : ℕ) (p : AccumulatePipeline Key Value Body) :
    Action Body → Option (AccumulatePipeline Key Value Body)
  | .addBlock b =>
    if p.blockCollectQueue.length < queueSize then some { p with
      blockCollectQueue := p.blockCollectQueue ++ [b]
      received := p.received ++ [b] }
    else none
  | .collect =>
    match p.collecting, p.blockCollectQueue with
    | none, b :: rest => some (p.collect b rest)
    | _, _ => none
  | .handOver =>
    match p.collecting with
    | some b => if p.importQueue.length < queueSize then some (p.handOver b) else none
    | none => none
  | .startImport =>
    match p.importing, p.importQueue with
    | none, b :: rest => some { p with importQueue := rest, importing := some b }
    | _, _ => none
  | .finishImport =>
    match p.importing with
    | some b => some { p with
        stateStorage := (importBlock r b p.stateStorage).1
        importing := none }
    | none => none

/-- The steps of an interleaving, one after the other. -/
def run (r : State.Runtime Key Value Body) (queueSize : ℕ) (p : AccumulatePipeline Key Value Body)
    (actions : List (Action Body)) : Option (AccumulatePipeline Key Value Body) :=
  actions.foldlM (act r queueSize) p

/-- A condition holds before every step of an interleaving. -/
def EachStep (r : State.Runtime Key Value Body) (queueSize : ℕ)
    (ok : AccumulatePipeline Key Value Body → Action Body → Prop) :
    AccumulatePipeline Key Value Body → List (Action Body) → Prop
  | _, [] => True
  | p, a :: actions =>
    ok p a ∧ ∀ p', act r queueSize p a = some p' → EachStep r queueSize ok p' actions

/-- A block that is imported is valid. -/
def ValidImport (r : State.Runtime Key Value Body) (p : AccumulatePipeline Key Value Body) :
    Action Body → Prop
  | .finishImport => ∀ b ∈ p.importing, (importBlock r b p.stateStorage).2 = none
  | _ => True

omit [DecidableEq Key] in
/-- When the collect worker parks a block, no other block is parked under its parent, and the parent
has not gone to the import queue. -/
def ParksSafely (p : AccumulatePipeline Key Value Body) : Action Body → Prop
  | .collect => ∀ b ∈ p.blockCollectQueue.head?, (p.stateStorage.getParent b.header).isSome = false →
      (∀ b' ∈ p.collectedBlocks.get? b.header.parent, b' = b) ∧
        ∀ b' ∈ p.handed, b'.header.hash ≠ b.header.parent
  | _ => True

/-- The parent of a block is known to a store, or among blocks that were handed over before. -/
def ParentKnown (s : StateStorage Key Value) (before : List (Block Body)) (b : Block Body) : Prop :=
  (s.getParent b.header).isSome = true ∨ ∃ b' ∈ before, b'.header.hash = b.header.parent

/-! ## The invariant -/

/-- What holds in every state of a run in which blocks are parked safely; `s` is the store at its
start. -/
structure Collecting (s : StateStorage Key Value) (p : AccumulatePipeline Key Value Body) : Prop where
  /-- no block is lost -/
  received : ∀ b ∈ p.received, b ∈ p.blockCollectQueue ∨
    p.collectedBlocks.get? b.header.parent = some b ∨ p.collecting = some b ∨ b ∈ p.handed
  /-- a parked block waits for a parent that is still to come -/
  parked : ∀ key b, p.collectedBlocks.get? key = some b → b.header.parent = key ∧ b ∈ p.received ∧
    (s.getParent b.header).isSome = false ∧ ∀ b' ∈ p.handed, b'.header.hash ≠ key
  ordered : ∀ before b after, p.handed = before ++ b :: after → ParentKnown s before b
  collecting : ∀ b, p.collecting = some b → ParentKnown s p.handed b
  importing : ∀ b, b ∈ p.importQueue ∨ p.importing = some b → b ∈ p.handed
  queued : ∀ b ∈ p.blockCollectQueue, b ∈ p.received
  ancestors : ∀ header, (p.stateStorage.getParent header).isSome = true →
    (s.getParent header).isSome = true ∨ ∃ b ∈ p.handed, b.header.hash = header.parent
  kept : ∀ header, (s.getParent header).isSome = true →
    (p.stateStorage.getParent header).isSome = true

variable {r : State.Runtime Key Value Body} {queueSize : ℕ} {s : StateStorage Key Value}
  {p p' : AccumulatePipeline Key Value Body}

omit [DecidableEq Key] in
lemma collecting_init (s : StateStorage Key Value) :
    Collecting s (AccumulatePipeline.init s : AccumulatePipeline Key Value Body) where
  received b h := by cases h
  parked key b h := by cases h
  ordered before b after h := by simp [AccumulatePipeline.init] at h
  collecting b h := by cases h
  importing b h := by rcases h with h | h <;> cases h
  queued b h := by cases h
  ancestors header h := .inl h
  kept header h := h

/-- An import makes the block known to the store, and nothing else. -/
lemma isSome_getParent_importBlock {b : Block Body} (h : (importBlock r b s).2 = none)
    (header : Header) : ((importBlock r b s).1.getParent header).isSome = true ↔
      (s.getParent header).isSome = true ∨ b.header.hash = header.parent := by
  obtain ⟨changes, tx, himport⟩ := importBlock_of_accepted h
  have hancestors : (importBlock r b s).1.ancestors =
      s.ancestors.insert b.header.hash (.header b.header) := by
    rw [himport]
    rfl
  rw [StateStorage.getParent, StateStorage.getParent, hancestors, Dict.get?_insert]
  by_cases hzero : header.parent = 0
  · simp [hzero]
  · rw [if_neg hzero, if_neg hzero]
    by_cases hhash : header.parent = b.header.hash
    · simp [hhash]
    · simp [hhash, Ne.symm hhash]

omit [DecidableEq Key] in
lemma ParentKnown.append {before : List (Block Body)} {b : Block Body} (h : ParentKnown s before b)
    (after : List (Block Body)) : ParentKnown s (before ++ after) b :=
  h.imp_right (fun ⟨b', hb', hhash⟩ => ⟨b', List.mem_append_left _ hb', hhash⟩)

omit [DecidableEq Key] in
lemma Collecting.collect (h : Collecting s p) {b : Block Body} {rest : List (Block Body)}
    (hqueue : p.blockCollectQueue = b :: rest) (hidle : p.collecting = none)
    (hsafe : ParksSafely p .collect) : Collecting s (p.collect b rest) := by
  have hreceived : b ∈ p.received := h.queued b (by rw [hqueue]; exact List.mem_cons_self)
  have hqueued : ∀ b' ∈ rest, b' ∈ p.received :=
    fun b' hb' => h.queued b' (by rw [hqueue]; exact List.mem_cons_of_mem b hb')
  rw [AccumulatePipeline.collect]
  split
  · next hknown =>
    refine ⟨?_, h.parked, h.ordered, ?_, h.importing, hqueued, h.ancestors, h.kept⟩
    · intro b' hb'
      have hcases := h.received b' hb'
      rw [hqueue, hidle, List.mem_cons] at hcases
      rcases hcases with (rfl | hrest) | hparked | hnone | hhanded
      · exact .inr (.inr (.inl rfl))
      · exact .inl hrest
      · exact .inr (.inl hparked)
      · cases hnone
      · exact .inr (.inr (.inr hhanded))
    · rintro b' ⟨⟩
      exact h.ancestors b.header hknown
  · next hunknown =>
    obtain ⟨hplace, hunhanded⟩ := hsafe b (by rw [hqueue]; rfl) (Bool.eq_false_iff.mpr hunknown)
    refine ⟨?_, ?_, h.ordered, h.collecting, h.importing, hqueued, h.ancestors, h.kept⟩
    · intro b' hb'
      have hcases := h.received b' hb'
      rw [hqueue, List.mem_cons] at hcases
      change _ ∨ (p.collectedBlocks.insert b.header.parent b).get? b'.header.parent = some b' ∨ _
      rw [Dict.get?_insert]
      rcases hcases with (rfl | hrest) | hparked | hcollecting | hhanded
      · exact .inr (.inl (if_pos rfl))
      · exact .inl hrest
      · refine .inr (.inl ?_)
        split
        · next hsame =>
          rw [hsame] at hparked
          rw [hplace b' hparked]
        · exact hparked
      · exact .inr (.inr (.inl hcollecting))
      · exact .inr (.inr (.inr hhanded))
    · intro key b' hget
      change (p.collectedBlocks.insert b.header.parent b).get? key = some b' at hget
      rw [Dict.get?_insert] at hget
      split at hget
      · next hkey =>
        cases hget
        refine ⟨hkey.symm, hreceived, ?_, by rw [hkey]; exact hunhanded⟩
        by_contra hsome
        exact hunknown (h.kept b.header (Bool.not_eq_false _ ▸ hsome))
      · exact h.parked key b' hget

omit [DecidableEq Key] in
/-- The block that is handed over comes after its parent. -/
lemma Collecting.ordered_concat (h : Collecting s p) {b : Block Body}
    (hcollecting : p.collecting = some b) {before after : List (Block Body)} {b' : Block Body}
    (hsplit : p.handed ++ [b] = before ++ b' :: after) : ParentKnown s before b' := by
  rcases List.eq_nil_or_concat after with rfl | ⟨after', last, rfl⟩
  · obtain ⟨rfl, hb⟩ := List.append_inj' hsplit rfl
    obtain rfl := List.singleton_inj.mp hb
    exact h.collecting b hcollecting
  · rw [List.concat_eq_append, ← List.cons_append, ← List.append_assoc] at hsplit
    exact h.ordered before b' after' (List.append_inj' hsplit rfl).1

omit [DecidableEq Key] in
/-- What is parked under another hash than that of the block handed over still waits. -/
lemma Collecting.parked_concat (h : Collecting s p) {b b' : Block Body} {key : Hash}
    (hkey : key ≠ b.header.hash) (hget : p.collectedBlocks.get? key = some b') :
    b'.header.parent = key ∧ b' ∈ p.received ∧ (s.getParent b'.header).isSome = false ∧
      ∀ b'' ∈ p.handed ++ [b], b''.header.hash ≠ key := by
  obtain ⟨hparent, hreceived, hunknown, hunhanded⟩ := h.parked key b' hget
  refine ⟨hparent, hreceived, hunknown, ?_⟩
  intro b'' hb''
  rcases List.mem_append.mp hb'' with hb'' | hb''
  · exact hunhanded b'' hb''
  · rw [List.mem_singleton.mp hb'']
    exact hkey.symm

omit [DecidableEq Key] in
/-- A received block is in the queue, parked or among those handed over. -/
lemma Collecting.received_concat (h : Collecting s p) {b b' : Block Body}
    (hcollecting : p.collecting = some b) (hb' : b' ∈ p.received) :
    b' ∈ p.blockCollectQueue ∨ p.collectedBlocks.get? b'.header.parent = some b' ∨
      b' ∈ p.handed ++ [b] := by
  rcases h.received b' hb' with hqueue | hpark | hnext | hhanded
  · exact .inl hqueue
  · exact .inr (.inl hpark)
  · rw [hcollecting] at hnext
    cases hnext
    exact .inr (.inr (List.mem_append_right _ List.mem_cons_self))
  · exact .inr (.inr (List.mem_append_left _ hhanded))

omit [DecidableEq Key] in
lemma Collecting.handOver (h : Collecting s p) {b : Block Body} (hcollecting : p.collecting = some b) :
    Collecting s (p.handOver b) := by
  have hordered : ∀ before b' after, p.handed ++ [b] = before ++ b' :: after →
      ParentKnown s before b' := fun _ _ _ => h.ordered_concat hcollecting
  have himporting : ∀ b', b' ∈ p.importQueue ++ [b] ∨ p.importing = some b' →
      b' ∈ p.handed ++ [b] := by
    rintro b' (hb' | hb')
    · rcases List.mem_append.mp hb' with hb' | hb'
      · exact List.mem_append_left _ (h.importing b' (.inl hb'))
      · exact List.mem_append_right _ hb'
    · exact List.mem_append_left _ (h.importing b' (.inr hb'))
  have hancestors : ∀ header, (p.stateStorage.getParent header).isSome = true →
      (s.getParent header).isSome = true ∨ ∃ b' ∈ p.handed ++ [b], b'.header.hash = header.parent :=
    fun header hsome => (h.ancestors header hsome).imp_right
      (fun ⟨b', hb', hhash⟩ => ⟨b', List.mem_append_left _ hb', hhash⟩)
  rw [AccumulatePipeline.handOver]
  cases hget : p.collectedBlocks.get? b.header.hash with
  | none =>
    simp only
    refine ⟨?_, ?_, hordered, nofun, himporting, h.queued, hancestors, h.kept⟩
    · intro b' hb'
      rcases h.received_concat hcollecting hb' with hqueue | hpark | hhanded
      · exact .inl hqueue
      · exact .inr (.inl hpark)
      · exact .inr (.inr (.inr hhanded))
    · intro key b' hkey
      refine h.parked_concat ?_ hkey
      rintro rfl
      rw [hget] at hkey
      cases hkey
  | some child =>
    simp only
    refine ⟨?_, ?_, hordered, ?_, himporting, h.queued, hancestors, h.kept⟩
    · intro b' hb'
      change _ ∨ (p.collectedBlocks.erase b.header.hash).get? b'.header.parent = some b' ∨
        some child = some b' ∨ _
      rw [Dict.get?_erase]
      rcases h.received_concat hcollecting hb' with hqueue | hpark | hhanded
      · exact .inl hqueue
      · by_cases hhash : b'.header.parent = b.header.hash
        · rw [hhash, hget] at hpark
          exact .inr (.inr (.inl hpark))
        · exact .inr (.inl (by rw [if_neg hhash]; exact hpark))
      · exact .inr (.inr (.inr hhanded))
    · intro key b' hkey
      change (p.collectedBlocks.erase b.header.hash).get? key = some b' at hkey
      rw [Dict.get?_erase] at hkey
      split at hkey
      · cases hkey
      · next hne => exact h.parked_concat hne hkey
    · rintro b' ⟨⟩
      exact .inr ⟨b, by simp, (h.parked _ _ hget).1.symm⟩

/-- One step in which blocks are parked safely keeps the invariant. -/
lemma Collecting.act (h : Collecting s p) {a : Action Body} (hact : act r queueSize p a = some p')
    (hvalid : ValidImport r p a) (hsafe : ParksSafely p a) : Collecting s p' := by
  cases a with
  | addBlock b =>
    rw [Runtime.act] at hact
    split at hact
    · cases hact
      refine ⟨?_, ?_, h.ordered, h.collecting, h.importing, ?_, h.ancestors, h.kept⟩
      · intro b' hb'
        rcases List.mem_append.mp hb' with hb' | hb'
        · exact (h.received b' hb').imp_left (List.mem_append_left _)
        · exact .inl (List.mem_append_right _ hb')
      · intro key b' hget
        obtain ⟨hparent, hreceived, hrest⟩ := h.parked key b' hget
        exact ⟨hparent, List.mem_append_left _ hreceived, hrest⟩
      · intro b' hb'
        rcases List.mem_append.mp hb' with hb' | hb'
        · exact List.mem_append_left _ (h.queued b' hb')
        · exact List.mem_append_right _ hb'
    · cases hact
  | collect =>
    rw [Runtime.act] at hact
    split at hact
    · next b rest hidle hqueue =>
      cases hact
      exact h.collect hqueue hidle hsafe
    · cases hact
  | handOver =>
    rw [Runtime.act] at hact
    split at hact
    · next b hcollecting =>
      split at hact
      · cases hact
        exact h.handOver hcollecting
      · cases hact
    · cases hact
  | startImport =>
    rw [Runtime.act] at hact
    split at hact
    · next b rest hidle hqueue =>
      cases hact
      refine ⟨h.received, h.parked, h.ordered, h.collecting, ?_, h.queued, h.ancestors, h.kept⟩
      intro b' hb'
      apply h.importing b' (.inl ?_)
      rw [hqueue]
      rcases hb' with hrest | hb'
      · exact List.mem_cons_of_mem b hrest
      · rw [Option.some.inj hb']
        exact List.mem_cons_self
    · cases hact
  | finishImport =>
    rw [Runtime.act] at hact
    split at hact
    · next b himporting =>
      cases hact
      have hknown := isSome_getParent_importBlock (hvalid b himporting)
      refine ⟨h.received, h.parked, h.ordered, h.collecting, ?_, h.queued, ?_, ?_⟩
      · rintro b' (hb' | hb')
        · exact h.importing b' (.inl hb')
        · cases hb'
      · intro header hsome
        rcases (hknown header).mp hsome with hbefore | hhash
        · exact h.ancestors header hbefore
        · exact .inr ⟨b, h.importing b (.inr himporting), hhash⟩
      · exact fun header hsome => (hknown header).mpr (.inl (h.kept header hsome))
    · cases hact

/-- Every state of an interleaving has the invariant. -/
lemma Collecting.run {actions : List (Action Body)} : ∀ {p : AccumulatePipeline Key Value Body},
    Collecting s p → run r queueSize p actions = some p' →
      EachStep r queueSize (ValidImport r) p actions →
      EachStep r queueSize ParksSafely p actions → Collecting s p' := by
  induction actions with
  | nil =>
    intro p h hrun _ _
    cases hrun
    exact h
  | cons a actions ih =>
    intro p h hrun hvalid hsafe
    rw [Runtime.run, List.foldlM_cons] at hrun
    obtain ⟨p₁, hact, hrun⟩ := Option.bind_eq_some_iff.mp hrun
    exact ih (h.act hact hvalid.1 hsafe.1) hrun (hvalid.2 p₁ hact) (hsafe.2 p₁ hact)

/-! ## Nothing is lost -/

/-- The blocks form a tree over the store: the parent of each is known to it, or it is another block
with an earlier timeslot. -/
def TreeOver (s : StateStorage Key Value) (blocks : List (Block Body)) : Prop :=
  ∀ b ∈ blocks, (s.getParent b.header).isSome = true ∨
    ∃ b' ∈ blocks, b'.header.hash = b.header.parent ∧ b'.header.timeslot < b.header.timeslot

/-- In whatever order the blocks of a tree are received, and however the workers are interleaved: if
blocks are parked safely then, once the collect queue is empty and its worker waits for a block, every
block has been handed to the import queue after its parent, and none is parked. -/
theorem collected_blocks_handed (r : State.Runtime Key Value Body) (queueSize : ℕ)
    (s : StateStorage Key Value) (actions : List (Action Body))
    (p : AccumulatePipeline Key Value Body) (hrun : run r queueSize (.init s) actions = some p)
    (hvalid : EachStep r queueSize (ValidImport r) (.init s) actions)
    (hsafe : EachStep r queueSize ParksSafely (.init s) actions) (htree : TreeOver s p.received)
    (hcollect : p.blockCollectQueue = []) (hidle : p.collecting = none) :
    (∀ b ∈ p.received, ∃ before after, p.handed = before ++ b :: after ∧ ParentKnown s before b) ∧
      p.collectedBlocks = ∅ := by
  have h := (collecting_init s).run hrun hvalid hsafe
  have hhanded : ∀ n, ∀ b ∈ p.received, b.header.timeslot = n → b ∈ p.handed := by
    intro n
    induction n using Nat.strongRecOn with
    | ind n ih =>
      rintro b hb rfl
      rcases h.received b hb with hqueue | hparked | hnext | hdone
      · rw [hcollect] at hqueue
        cases hqueue
      · obtain ⟨-, -, hunknown, hwaits⟩ := h.parked _ b hparked
        rcases htree b hb with hknown | ⟨b', hb', hhash, hslot⟩
        · rw [hknown] at hunknown
          cases hunknown
        · exact absurd hhash (hwaits b' (ih _ hslot b' hb' rfl))
      · rw [hidle] at hnext
        cases hnext
      · exact hdone
  constructor
  · intro b hb
    obtain ⟨before, after, hsplit⟩ := List.append_of_mem (hhanded _ b hb rfl)
    exact ⟨before, after, hsplit, h.ordered before b after hsplit⟩
  · apply Dict.eq_empty_of_same
    intro key
    rw [Dict.get?_empty]
    by_contra hsome
    obtain ⟨b, hget⟩ := Option.ne_none_iff_exists'.mp hsome
    obtain ⟨hparent, hreceived, hunknown, hwaits⟩ := h.parked key b hget
    rcases htree b hreceived with hknown | ⟨b', hb', hhash, -⟩
    · rw [hknown] at hunknown
      cases hunknown
    · exact hwaits b' (hhanded _ b' hb' rfl) (hhash.trans hparent)

end Pipeline

/-! ## Losing a block -/

/-- A store with a finalized block, and nothing else. -/
def sampleStore : StateStorage ℕ ℕ := (StateStorage.init ∅).setFinalizedHeader sampleGenesis

/-- A runtime that accepts every block. -/
def acceptingRuntime : State.Runtime ℕ ℕ Hash where
  skipTimeslotWallClockCheck := true
  currentTimeslot := 0
  generateExtrinsicHash := id
  execute := fun _ _ => .committed [] false

/-- A block with the hash 4 and the same parent as `sampleChild`. -/
def sampleSibling : Block Hash := ⟨⟨4, 2, 3, 5⟩, 5⟩

/-- The steps by which the pipeline takes a block on and imports it. -/
def importSteps : List (Action Hash) := [.collect, .handOver, .startImport, .finishImport]

/-- A block, its two children and no others: the children come first, and one of them is lost. -/
def sampleFork : List (Action Hash) :=
  [.addBlock sampleChild, .addBlock sampleSibling, .addBlock sampleBlock, .collect, .collect] ++
    importSteps ++ [.handOver, .startImport, .finishImport]

/-- A child that comes while its parent waits in the import queue. -/
def sampleRace : List (Action Hash) :=
  [.addBlock sampleBlock, .addBlock sampleChild, .collect, .handOver, .collect, .startImport,
    .finishImport]

/-- A condition on the steps of an interleaving can be checked by running it. -/
instance decidableEachStep {r : State.Runtime ℕ ℕ Hash} {queueSize : ℕ}
    {ok : AccumulatePipeline ℕ ℕ Hash → Action Hash → Prop} [∀ p a, Decidable (ok p a)] :
    ∀ p actions, Decidable (EachStep r queueSize ok p actions)
  | _, [] => .isTrue trivial
  | p, a :: actions =>
    match hact : act r queueSize p a with
    | none => decidable_of_iff (ok p a)
        ⟨fun h => ⟨h, fun p' hp' => by rw [hact] at hp'; cases hp'⟩, fun h => h.1⟩
    | some p' =>
      have : Decidable (EachStep r queueSize ok p' actions) := decidableEachStep p' actions
      decidable_of_iff (ok p a ∧ EachStep r queueSize ok p' actions)
        ⟨fun h => ⟨h.1, fun p'' hp'' => by rw [hact] at hp''; cases hp''; exact h.2⟩,
          fun h => ⟨h.1, h.2 p' hact⟩⟩

instance (r : State.Runtime ℕ ℕ Hash) (p : AccumulatePipeline ℕ ℕ Hash) :
    ∀ a, Decidable (ValidImport r p a)
  | .finishImport =>
    inferInstanceAs (Decidable (∀ b ∈ p.importing, (importBlock r b p.stateStorage).2 = none))
  | .addBlock _ => .isTrue trivial
  | .collect => .isTrue trivial
  | .handOver => .isTrue trivial
  | .startImport => .isTrue trivial

deriving instance DecidableEq for State.Block

instance (p : AccumulatePipeline ℕ ℕ Hash) : ∀ a, Decidable (ParksSafely p a)
  | .collect => inferInstanceAs (Decidable (∀ b ∈ p.blockCollectQueue.head?,
      (p.stateStorage.getParent b.header).isSome = false →
        (∀ b' ∈ p.collectedBlocks.get? b.header.parent, b' = b) ∧
          ∀ b' ∈ p.handed, b'.header.hash ≠ b.header.parent))
  | .addBlock _ => .isTrue trivial
  | .handOver => .isTrue trivial
  | .startImport => .isTrue trivial
  | .finishImport => .isTrue trivial

/-- A child comes before its parent, and both are imported. -/
def sampleOrphan : List (Action Hash) :=
  [.addBlock sampleChild, .addBlock sampleBlock, .collect] ++ importSteps ++
    [.handOver, .startImport, .finishImport]

/-- The child waits for its parent and follows it. -/
theorem sampleOrphan_handed :
    ∃ p, run acceptingRuntime 4096 (.init sampleStore) sampleOrphan = some p ∧
      p.received = [sampleChild, sampleBlock] ∧ p.handed = [sampleBlock, sampleChild] ∧
      (∀ b ∈ p.received, ∃ before after, p.handed = before ++ b :: after ∧
        ParentKnown sampleStore before b) ∧ p.collectedBlocks = ∅ := by
  have hrun : ∃ p, run acceptingRuntime 4096 (.init sampleStore) sampleOrphan = some p ∧
      p.received = [sampleChild, sampleBlock] ∧ p.handed = [sampleBlock, sampleChild] ∧
      p.blockCollectQueue = [] ∧ p.collecting = none := ⟨_, rfl, rfl, rfl, rfl, rfl⟩
  obtain ⟨p, hrun, hreceived, hhanded, hqueue, hidle⟩ := hrun
  have htree : TreeOver sampleStore p.received := by
    rw [hreceived]
    intro b hb
    rcases List.mem_cons.mp hb with rfl | hb
    · exact .inr ⟨sampleBlock, by simp, rfl, by decide⟩
    · rw [List.mem_singleton.mp hb]
      exact .inl rfl
  exact ⟨p, hrun, hreceived, hhanded, collected_blocks_handed acceptingRuntime 4096 sampleStore
    sampleOrphan p hrun (by decide) (by decide) htree hqueue hidle⟩

/-- Two children that come before their parent: one takes the place of the other.  A child that comes
while its parent waits in the import queue: it is parked for good. -/
theorem blocks_lost :
    (∃ p, run acceptingRuntime 4096 (.init sampleStore) sampleFork = some p ∧
      EachStep acceptingRuntime 4096 (ValidImport acceptingRuntime) (.init sampleStore) sampleFork ∧
      TreeOver sampleStore p.received ∧ p.blockCollectQueue = [] ∧ p.importQueue = [] ∧
      p.collecting = none ∧ p.importing = none ∧ sampleChild ∈ p.received ∧ sampleChild ∉ p.handed ∧
      p.collectedBlocks = ∅) ∧
    ∃ p, run acceptingRuntime 4096 (.init sampleStore) sampleRace = some p ∧
      EachStep acceptingRuntime 4096 (ValidImport acceptingRuntime) (.init sampleStore) sampleRace ∧
      TreeOver sampleStore p.received ∧ p.blockCollectQueue = [] ∧ p.importQueue = [] ∧
      p.collecting = none ∧ p.importing = none ∧ sampleChild ∈ p.received ∧ sampleChild ∉ p.handed ∧
      p.collectedBlocks.get? sampleBlock.header.hash = some sampleChild ∧
      (p.stateStorage.getParent sampleChild.header).isSome = true := by
  have htree : ∀ blocks : List (Block Hash), sampleBlock ∈ blocks →
      (∀ b ∈ blocks, b = sampleBlock ∨ b.header.parent = 2 ∧ 1 < b.header.timeslot) →
      TreeOver sampleStore blocks := by
    intro blocks hmem hblocks b hb
    rcases hblocks b hb with rfl | ⟨hparent, hslot⟩
    · exact .inl rfl
    · exact .inr ⟨sampleBlock, hmem, hparent.symm, hslot⟩
  refine ⟨⟨_, rfl, by decide, htree _ (by decide) (by decide), rfl, rfl, rfl, rfl, by decide,
    by decide, rfl⟩, ⟨_, rfl, by decide, htree _ (by decide) (by decide), rfl, rfl, rfl, rfl,
    by decide, by decide, rfl, rfl⟩⟩

end Runtime
