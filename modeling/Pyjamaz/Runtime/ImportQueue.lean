import Mathlib.Data.List.Sort
import Mathlib.Order.Nat

/-!
# The import queue

Received blocks wait in a queue.  Processing takes all of them out at once and imports them in the
order of their slots, leaving out those whose slot is not above the one of the working state.  A block
that is imported becomes the working state.  While a block is imported, others may be received.

A block that is rejected raises, and the exception leaves the loop; the blocks behind it are in no
list then.  `keepsBlocks_iff` says when none of them is missed.  Only the first block of a slot can
raise, since the working state has moved to this slot or the loop has ended when the others come
(`mem_openers_iff`).
-/

namespace Runtime

variable {Hash : Type}

/-- The part of a block that the queue reads. -/
structure QueuedBlock (Hash : Type) where
  hash : Hash
  parent : Hash
  timeslot : ℕ
  deriving DecidableEq, Repr

/-- The order of the sort key. -/
def QueuedBlock.slotLe (a b : QueuedBlock Hash) : Bool := decide (a.timeslot ≤ b.timeslot)

lemma QueuedBlock.slotLe_trans (a b c : QueuedBlock Hash) (hab : a.slotLe b = true)
    (hbc : b.slotLe c = true) : a.slotLe c = true :=
  decide_eq_true ((of_decide_eq_true hab).trans (of_decide_eq_true hbc))

lemma QueuedBlock.slotLe_total (a b : QueuedBlock Hash) : (a.slotLe b || b.slotLe a) = true := by
  rw [Bool.or_eq_true]
  exact (Nat.le_total a.timeslot b.timeslot).imp decide_eq_true decide_eq_true

/-- The timeslot of the working state, the blocks that are imported, and the queue. -/
structure PyjamazApp (Hash : Type) where
  timeslot : ℕ
  imported : List (QueuedBlock Hash)
  importQueue : List (QueuedBlock Hash)
  deriving DecidableEq, Repr

/-- Which blocks are rejected, and which blocks are received while a block is imported. -/
structure Importing (Hash : Type) where
  rejects : QueuedBlock Hash → Bool
  arrivals : QueuedBlock Hash → List (QueuedBlock Hash)

/-- A call returns or raises. -/
inductive Outcome (Hash : Type) where
  | returned (app : PyjamazApp Hash)
  | raised (app : PyjamazApp Hash)
  deriving DecidableEq, Repr

/-- The application after a call. -/
def Outcome.app : Outcome Hash → PyjamazApp Hash
  | .returned app => app
  | .raised app => app

section Process

variable (env : Importing Hash)

/-- `import_block`.  When it raises, the working state is the one of before. -/
def PyjamazApp.importBlock (app : PyjamazApp Hash) (b : QueuedBlock Hash) : Outcome Hash :=
  if env.rejects b then .raised { app with importQueue := app.importQueue ++ env.arrivals b }
  else .returned ⟨b.timeslot, b :: app.imported, app.importQueue ++ env.arrivals b⟩

/-- The loop over the blocks that were taken out of the queue. -/
def PyjamazApp.importAll (app : PyjamazApp Hash) : List (QueuedBlock Hash) → Outcome Hash
  | [] => .returned app
  | b :: blocks =>
    if b.timeslot ≤ app.timeslot then app.importAll blocks
    else
      match app.importBlock env b with
      | .returned app => app.importAll blocks
      | .raised app => .raised app

/-- The queue in the order of the slots. -/
def PyjamazApp.sortedBlocks (app : PyjamazApp Hash) : List (QueuedBlock Hash) :=
  app.importQueue.mergeSort QueuedBlock.slotLe

/-- `process_import_queue` -/
def PyjamazApp.processImportQueue (app : PyjamazApp Hash) : Outcome Hash :=
  { app with importQueue := [] }.importAll env app.sortedBlocks

/-- A block has a parent that is imported, or that is queued and not rejected. -/
def PyjamazApp.ParentImportable (app : PyjamazApp Hash) (b : QueuedBlock Hash) : Prop :=
  (∃ p ∈ app.imported, p.hash = b.parent) ∨
    ∃ p ∈ app.importQueue, p.hash = b.parent ∧ env.rejects p = false

/-- Processing the queue forgets no block: a block that is not rejected, is above the working state
and has an importable parent is imported or in the queue afterwards. -/
def PyjamazApp.KeepsBlocks (app : PyjamazApp Hash) : Prop :=
  ∀ b ∈ app.importQueue, env.rejects b = false →
    (app.processImportQueue env).app.timeslot < b.timeslot → app.ParentImportable env b →
      b ∈ (app.processImportQueue env).app.imported ∨
        b ∈ (app.processImportQueue env).app.importQueue

/-- A block is the first queued one of its slot, which is above the working state. -/
def PyjamazApp.Opens (app : PyjamazApp Hash) (b : QueuedBlock Hash) : Prop :=
  app.timeslot < b.timeslot ∧
    (app.importQueue.filter (fun a => a.timeslot = b.timeslot)).head? = some b

/-- No block that can be imported stands behind a block that raises: the blocks at or above the slot
of a rejected block that opens its slot are rejected, have no importable parent, are imported already
or are received again meanwhile. -/
def PyjamazApp.NoneBehind (app : PyjamazApp Hash) : Prop :=
  ∀ r, app.Opens r → env.rejects r = true →
    ∀ b ∈ app.importQueue, env.rejects b = false → r.timeslot ≤ b.timeslot →
      app.ParentImportable env b →
        b ∈ app.imported ∨ ∃ a, app.Opens a ∧ a.timeslot ≤ r.timeslot ∧ b ∈ env.arrivals a

end Process

/-! ## The blocks that are tried -/

/-- The first blocks of the slots above a slot, in a sorted list: those that are tried as long as
none is rejected. -/
def openers (timeslot : ℕ) : List (QueuedBlock Hash) → List (QueuedBlock Hash)
  | [] => []
  | b :: blocks =>
    if b.timeslot ≤ timeslot then openers timeslot blocks else b :: openers b.timeslot blocks

section Openers

variable {env : Importing Hash} {app : PyjamazApp Hash} {blocks : List (QueuedBlock Hash)}

/-- The slots of the openers increase. -/
lemma openers_increasing (blocks : List (QueuedBlock Hash)) :
    ∀ timeslot, (∀ a ∈ openers timeslot blocks, timeslot < a.timeslot) ∧
      (openers timeslot blocks).Pairwise (fun a b => a.timeslot < b.timeslot) := by
  induction blocks with
  | nil =>
    intro timeslot
    exact ⟨fun a ha => absurd ha List.not_mem_nil, .nil⟩
  | cons b blocks ih =>
    intro timeslot
    rw [openers]
    by_cases h : b.timeslot ≤ timeslot
    · rw [if_pos h]
      exact ih timeslot
    · obtain ⟨habove, hpairwise⟩ := ih b.timeslot
      rw [if_neg h]
      refine ⟨fun a ha => ?_, List.pairwise_cons.mpr ⟨habove, hpairwise⟩⟩
      rcases List.mem_cons.mp ha with rfl | ha
      · omega
      · exact Nat.lt_trans (Nat.lt_of_not_le h) (habove a ha)

/-- In a sorted list, the openers are the first blocks of their slots. -/
lemma mem_openers_iff {blocks : List (QueuedBlock Hash)}
    (hsorted : blocks.Pairwise (fun a b => a.timeslot ≤ b.timeslot)) {b : QueuedBlock Hash} :
    ∀ {timeslot}, b ∈ openers timeslot blocks ↔ timeslot < b.timeslot ∧
      (blocks.filter (fun a => a.timeslot = b.timeslot)).head? = some b := by
  induction blocks with
  | nil =>
    intro timeslot
    exact iff_of_false List.not_mem_nil (fun h => by cases h.2)
  | cons x blocks ih =>
    intro timeslot
    obtain ⟨hx, hsorted⟩ := List.pairwise_cons.mp hsorted
    have hmem : (blocks.filter (fun a => a.timeslot = b.timeslot)).head? = some b →
        b ∈ blocks := fun h => List.mem_of_mem_filter (List.mem_of_head? h)
    rw [openers]
    by_cases h : x.timeslot ≤ timeslot
    · rw [if_pos h, ih hsorted]
      refine and_congr_right fun hb => ?_
      rw [List.filter_cons_of_neg (by simp; omega)]
    · rw [if_neg h, List.mem_cons, ih hsorted]
      by_cases heq : x.timeslot = b.timeslot
      · rw [List.filter_cons_of_pos (by simp [heq]), List.head?_cons, Option.some_inj]
        constructor
        · rintro (rfl | ⟨hlt, -⟩)
          · exact ⟨Nat.lt_of_not_le h, rfl⟩
          · omega
        · rintro ⟨-, rfl⟩
          exact .inl rfl
      · rw [List.filter_cons_of_neg (by simp [heq])]
        constructor
        · rintro (rfl | ⟨hlt, hhead⟩)
          · exact absurd rfl heq
          · exact ⟨by omega, hhead⟩
        · rintro ⟨-, hhead⟩
          have hle := hx b (hmem hhead)
          exact .inr ⟨by omega, hhead⟩

/-- The sort keeps the order of the blocks of one slot. -/
lemma filter_sortedBlocks (app : PyjamazApp Hash) (timeslot : ℕ) :
    app.sortedBlocks.filter (fun a => a.timeslot = timeslot) =
      app.importQueue.filter (fun a => a.timeslot = timeslot) := by
  have hperm : app.sortedBlocks.Perm app.importQueue := List.mergeSort_perm ..
  have hsame : (app.importQueue.filter (fun a => a.timeslot = timeslot)).Pairwise
      (fun a b => a.slotLe b = true) := by
    refine List.pairwise_of_forall_mem_list (fun a ha b hb => ?_)
    have ha := of_decide_eq_true (List.mem_filter.mp ha).2
    have hb := of_decide_eq_true (List.mem_filter.mp hb).2
    exact decide_eq_true (by omega)
  have hsublist : (app.importQueue.filter (fun a => a.timeslot = timeslot)).Sublist
      app.sortedBlocks :=
    List.sublist_mergeSort QueuedBlock.slotLe_trans QueuedBlock.slotLe_total hsame
      List.filter_sublist
  have hfiltered := hsublist.filter (fun a => decide (a.timeslot = timeslot))
  rw [List.filter_filter] at hfiltered
  simp only [Bool.and_self] at hfiltered
  exact (hfiltered.eq_of_length (hperm.filter _).length_eq.symm).symm

lemma pairwise_sortedBlocks (app : PyjamazApp Hash) :
    app.sortedBlocks.Pairwise (fun a b => a.timeslot ≤ b.timeslot) :=
  (List.pairwise_mergeSort QueuedBlock.slotLe_trans QueuedBlock.slotLe_total app.importQueue).imp
    of_decide_eq_true

lemma mem_sortedBlocks {app : PyjamazApp Hash} {b : QueuedBlock Hash} :
    b ∈ app.sortedBlocks ↔ b ∈ app.importQueue :=
  (List.mergeSort_perm ..).mem_iff

/-- The blocks that open a slot are the openers of the sorted queue. -/
lemma opens_iff {b : QueuedBlock Hash} :
    app.Opens b ↔ b ∈ openers app.timeslot app.sortedBlocks := by
  rw [mem_openers_iff (pairwise_sortedBlocks app), filter_sortedBlocks]
  exact Iff.rfl

end Openers

/-! ## What processing does -/

section Runs

variable {env : Importing Hash} {app : PyjamazApp Hash}

/-- The application after the import of blocks none of which is rejected. -/
def PyjamazApp.afterImports (env : Importing Hash) (app : PyjamazApp Hash) :
    List (QueuedBlock Hash) → PyjamazApp Hash
  | [] => app
  | b :: blocks => afterImports env
      ⟨b.timeslot, b :: app.imported, app.importQueue ++ env.arrivals b⟩ blocks

lemma mem_imported_afterImports (blocks : List (QueuedBlock Hash)) :
    ∀ {app : PyjamazApp Hash} {b : QueuedBlock Hash},
      b ∈ (app.afterImports env blocks).imported ↔ b ∈ app.imported ∨ b ∈ blocks := by
  induction blocks with
  | nil =>
    intro app b
    exact ⟨.inl, fun h => h.resolve_right List.not_mem_nil⟩
  | cons x blocks ih =>
    intro app b
    rw [PyjamazApp.afterImports, ih, List.mem_cons, List.mem_cons, or_assoc, or_left_comm]

lemma mem_importQueue_afterImports (blocks : List (QueuedBlock Hash)) :
    ∀ {app : PyjamazApp Hash} {b : QueuedBlock Hash},
      b ∈ (app.afterImports env blocks).importQueue ↔
        b ∈ app.importQueue ∨ ∃ a ∈ blocks, b ∈ env.arrivals a := by
  induction blocks with
  | nil =>
    intro app b
    exact ⟨.inl, fun h => h.resolve_right (fun ⟨a, ha, _⟩ => List.not_mem_nil ha)⟩
  | cons x blocks ih =>
    intro app b
    rw [PyjamazApp.afterImports, ih, List.mem_append, or_assoc]
    simp only [List.mem_cons, exists_eq_or_imp]

variable (env) in
/-- The working state ends at the slot of one of the blocks, or where it was. -/
lemma timeslot_afterImports (blocks : List (QueuedBlock Hash)) :
    ∀ app : PyjamazApp Hash, blocks.Pairwise (fun a b => a.timeslot < b.timeslot) →
      (∀ a ∈ blocks, app.timeslot < a.timeslot) →
        (∀ a ∈ blocks, a.timeslot ≤ (app.afterImports env blocks).timeslot) ∧
        app.timeslot ≤ (app.afterImports env blocks).timeslot ∧
        ∀ t, app.timeslot < t → (∀ a ∈ blocks, a.timeslot < t) →
          (app.afterImports env blocks).timeslot < t := by
  induction blocks with
  | nil =>
    intro app _ _
    exact ⟨fun a ha => absurd ha List.not_mem_nil, le_refl _, fun t ht _ => ht⟩
  | cons x blocks ih =>
    intro app hpairwise habove
    obtain ⟨hx, hpairwise⟩ := List.pairwise_cons.mp hpairwise
    obtain ⟨hall, hle, hbelow⟩ :=
      ih ⟨x.timeslot, x :: app.imported, app.importQueue ++ env.arrivals x⟩ hpairwise hx
    refine ⟨fun a ha => ?_, (habove x List.mem_cons_self).le.trans hle, fun t _ hlt => ?_⟩
    · rcases List.mem_cons.mp ha with rfl | ha
      · exact hle
      · exact hall a ha
    · exact hbelow t (hlt x List.mem_cons_self) (fun a ha => hlt a (List.mem_cons_of_mem _ ha))

/-- The loop imports the openers, as far as none is rejected. -/
lemma importAll_eq (blocks : List (QueuedBlock Hash)) :
    ∀ {app : PyjamazApp Hash}, (∀ a ∈ openers app.timeslot blocks, env.rejects a = false) →
      app.importAll env blocks =
        .returned (app.afterImports env (openers app.timeslot blocks)) := by
  induction blocks with
  | nil =>
    intro app _
    rfl
  | cons b blocks ih =>
    intro app hall
    rw [openers] at hall
    rw [PyjamazApp.importAll, openers]
    by_cases h : b.timeslot ≤ app.timeslot
    · rw [if_pos h] at hall
      rw [if_pos h, if_pos h, ih hall]
    · rw [if_neg h] at hall
      have hb := hall b List.mem_cons_self
      rw [if_neg h, if_neg h, PyjamazApp.importBlock, hb, if_neg Bool.false_ne_true]
      exact ih (fun a ha => hall a (List.mem_cons_of_mem _ ha))

/-- The loop ends at the first opener that is rejected. -/
lemma importAll_eq_raised (blocks : List (QueuedBlock Hash)) :
    ∀ {app : PyjamazApp Hash} {front rest : List (QueuedBlock Hash)} {r : QueuedBlock Hash},
      openers app.timeslot blocks = front ++ r :: rest →
      (∀ a ∈ front, env.rejects a = false) → env.rejects r = true →
        app.importAll env blocks = .raised { app.afterImports env front with
          importQueue := (app.afterImports env front).importQueue ++ env.arrivals r } := by
  induction blocks with
  | nil =>
    intro app front rest r hopeners
    cases front <;> cases hopeners
  | cons b blocks ih =>
    intro app front rest r hopeners hfront hr
    rw [openers] at hopeners
    rw [PyjamazApp.importAll]
    by_cases h : b.timeslot ≤ app.timeslot
    · rw [if_pos h] at hopeners
      rw [if_pos h, ih hopeners hfront hr]
    · rw [if_neg h] at hopeners
      rw [if_neg h, PyjamazApp.importBlock]
      cases front with
      | nil =>
        obtain ⟨rfl, -⟩ := List.cons.inj hopeners
        rw [hr, if_pos rfl]
        rfl
      | cons x front =>
        obtain ⟨rfl, htail⟩ := List.cons.inj hopeners
        rw [hfront b List.mem_cons_self, if_neg Bool.false_ne_true]
        exact ih htail (fun a ha => hfront a (List.mem_cons_of_mem _ ha)) hr

/-- Every block of a list is at or below the last slot that it opens. -/
lemma timeslot_le_of_mem (blocks : List (QueuedBlock Hash)) :
    ∀ {timeslot : ℕ} {t : ℕ}, timeslot ≤ t → (∀ a ∈ openers timeslot blocks, a.timeslot ≤ t) →
      ∀ b ∈ blocks, b.timeslot ≤ t := by
  induction blocks with
  | nil =>
    intro timeslot t _ _ b hb
    exact absurd hb List.not_mem_nil
  | cons x blocks ih =>
    intro timeslot t ht hall b hb
    rw [openers] at hall
    by_cases h : x.timeslot ≤ timeslot
    · rw [if_pos h] at hall
      rcases List.mem_cons.mp hb with rfl | hb
      · exact h.trans ht
      · exact ih ht hall b hb
    · rw [if_neg h] at hall
      have hx := hall x List.mem_cons_self
      rcases List.mem_cons.mp hb with rfl | hb
      · exact hx
      · exact ih hx (fun a ha => hall a (List.mem_cons_of_mem _ ha)) b hb

/-- Without a rejection among the blocks that open a slot, all blocks are at or below the working
state in the end. -/
lemma processImportQueue_of_none (h : ∀ r, app.Opens r → env.rejects r = false) :
    ∀ b ∈ app.importQueue, b.timeslot ≤ (app.processImportQueue env).app.timeslot := by
  have hnone : ∀ a ∈ openers app.timeslot app.sortedBlocks, env.rejects a = false :=
    fun a ha => h a (opens_iff.mpr ha)
  obtain ⟨habove, hpairwise⟩ := openers_increasing app.sortedBlocks app.timeslot
  obtain ⟨hall, hle, -⟩ := timeslot_afterImports env _
    { app with importQueue := [] } hpairwise habove
  have hrun : app.processImportQueue env = .returned (PyjamazApp.afterImports env
      { app with importQueue := [] } (openers app.timeslot app.sortedBlocks)) :=
    importAll_eq app.sortedBlocks hnone
  rw [hrun]
  intro b hb
  exact timeslot_le_of_mem app.sortedBlocks hle hall b (mem_sortedBlocks.mpr hb)

/-- What is left when a block that opens its slot is the first to be rejected. -/
structure StoppedAt (env : Importing Hash) (app : PyjamazApp Hash) (r : QueuedBlock Hash)
    (after : PyjamazApp Hash) : Prop where
  opens : app.Opens r
  rejected : env.rejects r = true
  first : ∀ a, app.Opens a → env.rejects a = true → r.timeslot ≤ a.timeslot
  timeslot_lt : after.timeslot < r.timeslot
  timeslot_le : ∀ b ∈ app.importQueue, b.timeslot < r.timeslot → b.timeslot ≤ after.timeslot
  imported : ∀ b, b ∈ after.imported ↔ b ∈ app.imported ∨ app.Opens b ∧ b.timeslot < r.timeslot
  queued : ∀ b, b ∈ after.importQueue ↔
    ∃ a, app.Opens a ∧ a.timeslot ≤ r.timeslot ∧ b ∈ env.arrivals a

/-- A block of the sorted list that is below one of the openers is at or below one before it. -/
lemma timeslot_le_of_lt (blocks : List (QueuedBlock Hash)) :
    ∀ {timeslot t : ℕ} {front rest : List (QueuedBlock Hash)} {r : QueuedBlock Hash},
      blocks.Pairwise (fun a b => a.timeslot ≤ b.timeslot) →
      openers timeslot blocks = front ++ r :: rest → timeslot ≤ t →
      (∀ a ∈ front, a.timeslot ≤ t) → ∀ b ∈ blocks, b.timeslot < r.timeslot → b.timeslot ≤ t := by
  induction blocks with
  | nil =>
    intro timeslot t front rest r _ _ _ _ b hb
    exact absurd hb List.not_mem_nil
  | cons x blocks ih =>
    intro timeslot t front rest r hsorted hopeners ht hfront b hb hlt
    obtain ⟨hx, hsorted⟩ := List.pairwise_cons.mp hsorted
    rw [openers] at hopeners
    by_cases h : x.timeslot ≤ timeslot
    · rw [if_pos h] at hopeners
      rcases List.mem_cons.mp hb with rfl | hb
      · exact h.trans ht
      · exact ih hsorted hopeners ht hfront b hb hlt
    · rw [if_neg h] at hopeners
      cases front with
      | nil =>
        obtain ⟨rfl, -⟩ := List.cons.inj hopeners
        rcases List.mem_cons.mp hb with rfl | hb
        · exact absurd hlt (Nat.lt_irrefl _)
        · exact absurd hlt (Nat.not_lt.mpr (hx b hb))
      | cons y front =>
        obtain ⟨rfl, htail⟩ := List.cons.inj hopeners
        have hle := hfront x List.mem_cons_self
        rcases List.mem_cons.mp hb with rfl | hb
        · exact hle
        · exact ih hsorted htail hle (fun a ha => hfront a (List.mem_cons_of_mem _ ha)) b hb hlt

/-- The blocks that open a slot, at one of them. -/
lemma opens_iff_of_openers {r : QueuedBlock Hash} {front rest : List (QueuedBlock Hash)}
    (hopeners : openers app.timeslot app.sortedBlocks = front ++ r :: rest) (a : QueuedBlock Hash) :
    app.Opens a ↔ a ∈ front ∨ a = r ∨ a ∈ rest := by
  rw [opens_iff, hopeners, List.mem_append, List.mem_cons]

/-- Those before it have lower slots, those after it higher ones. -/
lemma openers_split {r : QueuedBlock Hash} {front rest : List (QueuedBlock Hash)}
    (hopeners : openers app.timeslot app.sortedBlocks = front ++ r :: rest) :
    (∀ a ∈ front, a.timeslot < r.timeslot) ∧ ∀ a ∈ rest, r.timeslot < a.timeslot := by
  have hpairwise := (openers_increasing app.sortedBlocks app.timeslot).2
  rw [hopeners] at hpairwise
  obtain ⟨-, hbehind, hbefore⟩ := List.pairwise_append.mp hpairwise
  exact ⟨fun a ha => hbefore a ha r List.mem_cons_self, (List.pairwise_cons.mp hbehind).1⟩

lemma opens_before_iff {r : QueuedBlock Hash} {front rest : List (QueuedBlock Hash)}
    (hopeners : openers app.timeslot app.sortedBlocks = front ++ r :: rest) (a : QueuedBlock Hash) :
    app.Opens a ∧ a.timeslot < r.timeslot ↔ a ∈ front := by
  obtain ⟨hlt, hrest⟩ := openers_split hopeners
  rw [opens_iff_of_openers hopeners]
  constructor
  · rintro ⟨ha | rfl | ha, hless⟩
    · exact ha
    · exact absurd hless (Nat.lt_irrefl _)
    · exact absurd hless (Nat.lt_asymm (hrest a ha))
  · intro ha
    exact ⟨.inl ha, hlt a ha⟩

lemma opens_upto_iff {r : QueuedBlock Hash} {front rest : List (QueuedBlock Hash)}
    (hopeners : openers app.timeslot app.sortedBlocks = front ++ r :: rest) (a : QueuedBlock Hash) :
    app.Opens a ∧ a.timeslot ≤ r.timeslot ↔ a ∈ front ∨ a = r := by
  obtain ⟨hlt, hrest⟩ := openers_split hopeners
  rw [opens_iff_of_openers hopeners]
  constructor
  · rintro ⟨ha | rfl | ha, hle⟩
    · exact .inl ha
    · exact .inr rfl
    · exact absurd (hrest a ha) (Nat.not_lt.mpr hle)
  · rintro (ha | rfl)
    · exact ⟨.inl ha, (hlt a ha).le⟩
    · exact ⟨.inr (.inl rfl), le_refl _⟩

/-- With a rejection among the blocks that open a slot, the loop stops at the first of them. -/
lemma exists_stoppedAt (h : ∃ r, app.Opens r ∧ env.rejects r = true) :
    ∃ r, StoppedAt env app r (app.processImportQueue env).app := by
  obtain ⟨r₀, hr₀, hrejected₀⟩ := h
  obtain ⟨r, hfind⟩ : ∃ r, (openers app.timeslot app.sortedBlocks).find? env.rejects = some r := by
    rw [← Option.isSome_iff_exists, List.find?_isSome]
    exact ⟨r₀, opens_iff.mp hr₀, hrejected₀⟩
  obtain ⟨hr, front, rest, hopeners, hfront⟩ := List.find?_eq_some_iff_append.mp hfind
  have hfront : ∀ a ∈ front, env.rejects a = false := fun a ha => by simpa using hfront a ha
  obtain ⟨habove, hpairwise⟩ := openers_increasing app.sortedBlocks app.timeslot
  rw [hopeners] at hpairwise habove
  obtain ⟨hlt, hrest⟩ := openers_split hopeners
  have hmem := opens_iff_of_openers hopeners
  obtain ⟨hall, hle, hbelow⟩ := timeslot_afterImports env front { app with importQueue := [] }
    (List.pairwise_append.mp hpairwise).1 (fun a ha => habove a (List.mem_append_left _ ha))
  have hrun : app.processImportQueue env = .raised
      { PyjamazApp.afterImports env { app with importQueue := [] } front with
        importQueue := (PyjamazApp.afterImports env { app with importQueue := [] }
          front).importQueue ++ env.arrivals r } :=
    importAll_eq_raised app.sortedBlocks hopeners hfront hr
  rw [hrun]
  refine ⟨r, ⟨(hmem r).mpr (.inr (.inl rfl)), hr, ?_, ?_, ?_, ?_, ?_⟩⟩
  · intro a ha hrejected
    rcases (hmem a).mp ha with ha | rfl | ha
    · cases (hfront a ha).symm.trans hrejected
    · exact le_refl _
    · exact (hrest a ha).le
  · exact hbelow r.timeslot (habove r (List.mem_append_right _ List.mem_cons_self)) hlt
  · intro b hb
    exact timeslot_le_of_lt app.sortedBlocks (pairwise_sortedBlocks app) hopeners hle hall b
      (mem_sortedBlocks.mpr hb)
  · intro b
    show b ∈ (PyjamazApp.afterImports env { app with importQueue := [] } front).imported ↔ _
    rw [mem_imported_afterImports, opens_before_iff hopeners]
  · intro b
    show b ∈ (PyjamazApp.afterImports env { app with importQueue := [] } front).importQueue ++
      env.arrivals r ↔ _
    rw [List.mem_append, mem_importQueue_afterImports]
    constructor
    · rintro ((hnil | ⟨a, ha, hb⟩) | hb)
      · exact absurd hnil List.not_mem_nil
      · obtain ⟨hopens, hless⟩ := (opens_upto_iff hopeners a).mpr (.inl ha)
        exact ⟨a, hopens, hless, hb⟩
      · obtain ⟨hopens, hless⟩ := (opens_upto_iff hopeners r).mpr (.inr rfl)
        exact ⟨r, hopens, hless, hb⟩
    · rintro ⟨a, hopens, hless, hb⟩
      rcases (opens_upto_iff hopeners a).mp ⟨hopens, hless⟩ with ha | rfl
      · exact .inl (.inr ⟨a, ha, hb⟩)
      · exact .inr hb

/-- Processing the queue forgets no block exactly when none that can be imported stands behind a
block that raises. -/
theorem keepsBlocks_iff (env : Importing Hash) (app : PyjamazApp Hash) :
    app.KeepsBlocks env ↔ app.NoneBehind env := by
  by_cases h : ∃ r, app.Opens r ∧ env.rejects r = true
  · obtain ⟨r, hr⟩ := exists_stoppedAt h
    constructor
    · intro hkeeps r' hopens hrejected b hb haccepted hle hparent
      have hfirst := hr.first r' hopens hrejected
      have habove := hr.timeslot_lt
      rcases hkeeps b hb haccepted (by omega) hparent with himported | hqueued
      · rcases (hr.imported b).mp himported with hb | ⟨-, hlt⟩
        · exact .inl hb
        · omega
      · obtain ⟨a, ha, hale, harrives⟩ := (hr.queued b).mp hqueued
        exact .inr ⟨a, ha, hale.trans hfirst, harrives⟩
    · intro hnone b hb haccepted hlt hparent
      have hle : r.timeslot ≤ b.timeslot := by
        by_contra hless
        have := hr.timeslot_le b hb (Nat.lt_of_not_le hless)
        omega
      rcases hnone r hr.opens hr.rejected b hb haccepted hle hparent with himported | harrives
      · exact .inl ((hr.imported b).mpr (.inl himported))
      · exact .inr ((hr.queued b).mpr harrives)
  · have haccepted : ∀ r, app.Opens r → env.rejects r = false := by
      intro r hr
      by_contra hrejected
      exact h ⟨r, hr, by simpa using hrejected⟩
    constructor
    · intro _ r hr hrejected
      cases (haccepted r hr).symm.trans hrejected
    · intro _ b hb _ hlt _
      have hle := processImportQueue_of_none haccepted b hb
      omega

/-- Two blocks on one imported parent; the first is rejected. -/
def forgetfulApp : PyjamazApp ℕ := ⟨0, [⟨0, 0, 0⟩], [⟨1, 0, 1⟩, ⟨2, 0, 2⟩]⟩

def forgetfulEnvironment : Importing ℕ := ⟨fun b => b.hash = 1, fun _ => []⟩

/-- The first of two queued blocks is rejected, and the second is in no list then. -/
theorem rejected_forgets_next : ¬ forgetfulApp.KeepsBlocks forgetfulEnvironment := by
  have hsorted : forgetfulApp.sortedBlocks = forgetfulApp.importQueue :=
    List.mergeSort_of_pairwise (by decide)
  have hrun : forgetfulApp.processImportQueue forgetfulEnvironment =
      .raised ⟨0, [⟨0, 0, 0⟩], []⟩ := by
    rw [PyjamazApp.processImportQueue, hsorted]
    rfl
  intro h
  have hkept := h ⟨2, 0, 2⟩ (by decide) (by decide) (by rw [hrun]; decide)
    (.inl ⟨⟨0, 0, 0⟩, by decide, rfl⟩)
  rw [hrun] at hkept
  revert hkept
  decide

end Runs

end Runtime
