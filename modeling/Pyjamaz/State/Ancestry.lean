import Mathlib.Algebra.Order.Ring.Int
import Mathlib.Data.List.Nodup
import Mathlib.Data.List.Perm.Subperm
import Mathlib.Order.Nat
import Pyjamaz.Library.Iteration
import Pyjamaz.State.Storage

/-!
# The ancestry of a lookup anchor

A report names a lookup anchor by its hash, its slot and its state root.  Whether the anchor is an
ancestor of the block is found out by a walk along the parents of the block's header, whose headers
are either retained or looked up.  The state root is not part of the anchor's own header: the header
below it on the chain commits to it, so the walk carries this child along.

The walk ends whatever the maps hold (`walk_isSome`), as it stops at a hash it has visited.  When
headers are stored under their hash and slots decrease along parents, none of its early exits hides an
ancestor (`answer_iff`): one step up the chain says what the exits decide (`known_iff`).
-/

namespace State

open Iteration (Round run)

/-- A header as far as the walk reads it; a reference to an ancestor commits to no state root. -/
structure LinkedHeader where
  hash : Hash
  parent : Hash
  timeslot : ℕ
  parentStateRoot : Option Hash
  deriving DecidableEq, Repr

/-- What a report says of its lookup anchor. -/
structure AnchorContext where
  lookupAnchor : Hash
  lookupAnchorSlot : ℕ
  lookupAnchorStateRoot : Hash
  deriving DecidableEq, Repr

/-! ## The walk -/

section Walk

variable (context : AnchorContext) (ancestors : Dict Hash LinkedHeader)
  (headerLookup : Hash → Option LinkedHeader)

/-- A retained header, or one that is looked up. -/
def resolve (hash : Hash) : Option LinkedHeader :=
  (ancestors.get? hash).or (headerLookup hash)

/-- The variables of the loop. -/
structure AnchorWalk where
  cursor : Hash
  visited : List Hash
  child : LinkedHeader

/-- The body of the loop, with its condition. -/
def AnchorWalk.round (s : AnchorWalk) : Round AnchorWalk Bool :=
  if s.cursor = 0 ∨ s.cursor ∈ s.visited then .done false
  else
    match resolve ancestors headerLookup s.cursor with
    | none => .done false
    | some ancestor =>
      if ancestor.hash ≠ s.cursor then .done false
      else if s.cursor = context.lookupAnchor then
        .done (ancestor.timeslot = context.lookupAnchorSlot &&
          s.child.parentStateRoot = some context.lookupAnchorStateRoot)
      else if ancestor.timeslot < context.lookupAnchorSlot then .done false
      else .next ⟨ancestor.parent, s.cursor :: s.visited, ancestor⟩

/-- The check without a store of headers, among the supplied ancestors. -/
def isSuppliedAnchor (header : Option LinkedHeader) : Bool :=
  let commits (child : LinkedHeader) : Bool := child.parent = context.lookupAnchor &&
    child.parentStateRoot = some context.lookupAnchorStateRoot
  match ancestors.get? context.lookupAnchor with
  | none => false
  | some lookupHeader =>
    lookupHeader.timeslot = context.lookupAnchorSlot &&
      (ancestors.values.any commits || header.any commits)

end Walk

/-- `lookup_anchor_is_known`, for at most `fuel` headers. -/
def lookupAnchorIsKnown (fuel : ℕ) (context : AnchorContext)
    (stateStorage : Option (Dict Hash LinkedHeader)) (header : Option LinkedHeader)
    (headerLookup : Option (Hash → Option LinkedHeader)) : Option Bool :=
  match stateStorage with
  | none => some false
  | some ancestors =>
    match header, headerLookup with
    | some header, some headerLookup =>
      run (AnchorWalk.round context ancestors headerLookup) fuel ⟨header.parent, [], header⟩
    | header, _ => some (isSuppliedAnchor context ancestors header)

/-! ## The parent chain -/

section Chain

variable (ancestors : Dict Hash LinkedHeader) (headerLookup : Hash → Option LinkedHeader)

/-- The parent of a header.  The zero hash is the parent of the first header and names none. -/
def IsParent (x a : LinkedHeader) : Prop :=
  x.parent ≠ 0 ∧ resolve ancestors headerLookup x.parent = some a

/-- A header on the parent chain of `x`, with the next header down the chain. -/
inductive OnChain : LinkedHeader → LinkedHeader → LinkedHeader → Prop
  | parent {x a : LinkedHeader} (h : IsParent ancestors headerLookup x a) : OnChain x x a
  | above {x b child a : LinkedHeader} (h : IsParent ancestors headerLookup x b)
      (hrest : OnChain b child a) : OnChain x child a

/-- The headers are stored under their hash. -/
def StoredUnderHash : Prop :=
  ∀ hash a, resolve ancestors headerLookup hash = some a → a.hash = hash

/-- Slots decrease along the parents of stored headers. -/
def SlotsDecrease : Prop :=
  ∀ hash x a, resolve ancestors headerLookup hash = some x → IsParent ancestors headerLookup x a →
    a.timeslot < x.timeslot

/-- The anchor is on the parent chain of a header, and the next header down the chain commits to its
state root. -/
def AnchorKnown (context : AnchorContext) (x : LinkedHeader) : Prop :=
  ∃ child a, OnChain ancestors headerLookup x child a ∧ a.hash = context.lookupAnchor ∧
    a.timeslot = context.lookupAnchorSlot ∧
    child.parentStateRoot = some context.lookupAnchorStateRoot

end Chain

section Answer

variable {context : AnchorContext} {ancestors : Dict Hash LinkedHeader}
  {headerLookup : Hash → Option LinkedHeader}

/-- A header on the chain of a header is its parent or on the chain of its parent. -/
lemma onChain_iff {x child a : LinkedHeader} :
    OnChain ancestors headerLookup x child a ↔ ∃ b, IsParent ancestors headerLookup x b ∧
      (child = x ∧ a = b ∨ OnChain ancestors headerLookup b child a) := by
  constructor
  · intro h
    cases h with
    | parent h => exact ⟨a, h, .inl ⟨rfl, rfl⟩⟩
    | above h hrest => exact ⟨_, h, .inr hrest⟩
  · rintro ⟨b, h, ⟨rfl, rfl⟩ | hrest⟩
    · exact .parent h
    · exact .above h hrest

lemma IsParent.unique {x a b : LinkedHeader} (h : IsParent ancestors headerLookup x a)
    (h' : IsParent ancestors headerLookup x b) : a = b :=
  Option.some.inj (h.2.symm.trans h'.2)

/-- Headers on a chain are stored. -/
lemma OnChain.stored {x child a : LinkedHeader} (h : OnChain ancestors headerLookup x child a) :
    ∃ hash, resolve ancestors headerLookup hash = some a := by
  induction h with
  | parent h => exact ⟨_, h.2⟩
  | above _ _ ih => exact ih

/-- The slots of the headers on the chain of a stored header are below its own. -/
lemma OnChain.timeslot_lt (hslots : SlotsDecrease ancestors headerLookup) {x child a : LinkedHeader}
    (h : OnChain ancestors headerLookup x child a) :
    ∀ {hash}, resolve ancestors headerLookup hash = some x → a.timeslot < x.timeslot := by
  induction h with
  | parent h =>
    intro hash hx
    exact hslots _ _ _ hx h
  | above h _ ih =>
    intro hash hx
    exact (ih h.2).trans (hslots _ _ _ hx h)

/-- No parent, no anchor. -/
lemma not_known {x : LinkedHeader} (h : ∀ a, ¬ IsParent ancestors headerLookup x a) :
    ¬ AnchorKnown ancestors headerLookup context x := by
  rintro ⟨child, a, hchain, -⟩
  obtain ⟨b, hb, -⟩ := onChain_iff.mp hchain
  exact h b hb

/-- Where the parent is the anchor, nothing above it is. -/
lemma known_iff_of_eq (hstored : StoredUnderHash ancestors headerLookup)
    (hslots : SlotsDecrease ancestors headerLookup) {x a : LinkedHeader}
    (h : IsParent ancestors headerLookup x a) (ha : a.hash = context.lookupAnchor) :
    AnchorKnown ancestors headerLookup context x ↔ a.timeslot = context.lookupAnchorSlot ∧
      x.parentStateRoot = some context.lookupAnchorStateRoot := by
  constructor
  · rintro ⟨child, a', hchain, ha', hslot, hroot⟩
    obtain ⟨b, hb, ⟨rfl, rfl⟩ | hrest⟩ := onChain_iff.mp hchain
    · obtain rfl := h.unique hb
      exact ⟨hslot, hroot⟩
    · obtain rfl := h.unique hb
      -- a header above with the same hash would be the same header
      obtain ⟨hash', hresolve'⟩ := hrest.stored
      have hhash' : hash' = x.parent := by
        rw [← hstored _ _ hresolve', ha', ← ha, hstored _ _ h.2]
      have hsame : a' = a := by
        rw [hhash', h.2] at hresolve'
        exact (Option.some.inj hresolve').symm
      have hlt := hrest.timeslot_lt hslots h.2
      rw [hsame] at hlt
      exact absurd hlt (Nat.lt_irrefl _)
  · rintro ⟨hslot, hroot⟩
    exact ⟨x, a, .parent h, ha, hslot, hroot⟩

/-- Where the parent is not the anchor, the anchor is above it. -/
lemma known_iff_of_ne {x a : LinkedHeader} (h : IsParent ancestors headerLookup x a)
    (ha : a.hash ≠ context.lookupAnchor) :
    AnchorKnown ancestors headerLookup context x ↔
      AnchorKnown ancestors headerLookup context a := by
  constructor
  · rintro ⟨child, a', hchain, hanchor⟩
    obtain ⟨b, hb, ⟨rfl, rfl⟩ | hrest⟩ := onChain_iff.mp hchain
    · obtain rfl := h.unique hb
      exact absurd hanchor.1 ha
    · obtain rfl := h.unique hb
      exact ⟨child, a', hrest, hanchor⟩
  · rintro ⟨child, a', hchain, hanchor⟩
    exact ⟨child, a', .above h hchain, hanchor⟩

/-! ## The walk answers -/

/-- What holds of the walk between its rounds: it has come to the parent of the child, what it has
visited is not below the child, and the anchor is known to the child if it is known to the header it
started from. -/
structure AnchorWalk.Upto (context : AnchorContext) (ancestors : Dict Hash LinkedHeader)
    (headerLookup : Hash → Option LinkedHeader) (header : LinkedHeader) (s : AnchorWalk) : Prop where
  cursor : s.cursor = s.child.parent
  stored : s.visited = [] ∨ ∃ hash, resolve ancestors headerLookup hash = some s.child
  visited : ∀ hash ∈ s.visited, ∀ a, resolve ancestors headerLookup hash = some a →
    s.child.timeslot ≤ a.timeslot
  known : AnchorKnown ancestors headerLookup context header ↔
    AnchorKnown ancestors headerLookup context s.child

namespace AnchorWalk

variable {header : LinkedHeader} {s s' : AnchorWalk}

/-- A round that goes on has found a parent that is not the anchor. -/
lemma round_next (h : round context ancestors headerLookup s = .next s') :
    s.cursor ≠ 0 ∧ s.cursor ∉ s.visited ∧
      ∃ a, resolve ancestors headerLookup s.cursor = some a ∧ a.hash = s.cursor ∧
        s.cursor ≠ context.lookupAnchor ∧ s' = ⟨a.parent, s.cursor :: s.visited, a⟩ := by
  unfold round at h
  by_cases hstop : s.cursor = 0 ∨ s.cursor ∈ s.visited
  · rw [if_pos hstop] at h
    cases h
  rw [if_neg hstop] at h
  rw [not_or] at hstop
  cases hresolve : resolve ancestors headerLookup s.cursor with
  | none =>
    rw [hresolve] at h
    cases h
  | some a =>
    rw [hresolve] at h
    dsimp only at h
    split_ifs at h with hhash hanchor hslot
    cases h
    exact ⟨hstop.1, hstop.2, a, rfl, not_not.mp hhash, hanchor, rfl⟩

lemma Upto.next (hslots : SlotsDecrease ancestors headerLookup)
    (hs : s.Upto context ancestors headerLookup header)
    (h : round context ancestors headerLookup s = .next s') :
    s'.Upto context ancestors headerLookup header := by
  obtain ⟨hzero, -, a, hresolve, hhash, hanchor, rfl⟩ := round_next h
  have hparent : IsParent ancestors headerLookup s.child a := by
    rw [IsParent, ← hs.cursor]
    exact ⟨hzero, hresolve⟩
  refine ⟨rfl, .inr ⟨_, hresolve⟩, ?_, ?_⟩
  · intro hash hmem b hb
    rcases List.mem_cons.mp hmem with rfl | hmem
    · obtain rfl := Option.some.inj (hresolve.symm.trans hb)
      exact le_refl _
    · obtain ⟨hash', hchild⟩ := hs.stored.resolve_left (List.ne_nil_of_mem hmem)
      exact (hslots _ _ _ hchild hparent).le.trans (hs.visited hash hmem b hb)
  · exact hs.known.trans (known_iff_of_ne hparent (fun heq => hanchor (hhash.symm.trans heq)))

/-- No exit of the walk hides the anchor, and none admits a header that is not it. -/
lemma Upto.done (hstored : StoredUnderHash ancestors headerLookup)
    (hslots : SlotsDecrease ancestors headerLookup)
    (hs : s.Upto context ancestors headerLookup header) {answer : Bool}
    (h : round context ancestors headerLookup s = .done answer) :
    answer = true ↔ AnchorKnown ancestors headerLookup context header := by
  rw [hs.known]
  unfold round at h
  by_cases hstop : s.cursor = 0 ∨ s.cursor ∈ s.visited
  · rw [if_pos hstop] at h
    cases h
    refine iff_of_false Bool.false_ne_true (not_known fun a ha => ?_)
    rcases hstop with hzero | hmem
    · exact ha.1 (hs.cursor.symm.trans hzero)
    · -- a visited header does not lie above the child
      obtain ⟨hash, hchild⟩ := hs.stored.resolve_left (List.ne_nil_of_mem hmem)
      have hlt := hslots _ _ _ hchild ha
      have hle := hs.visited _ hmem a (by rw [hs.cursor]; exact ha.2)
      omega
  · rw [if_neg hstop] at h
    rw [not_or] at hstop
    cases hresolve : resolve ancestors headerLookup s.cursor with
    | none =>
      rw [hresolve] at h
      cases h
      refine iff_of_false Bool.false_ne_true (not_known fun a ha => ?_)
      rw [IsParent, ← hs.cursor] at ha
      cases hresolve.symm.trans ha.2
    | some a =>
      have hparent : IsParent ancestors headerLookup s.child a := by
        rw [IsParent, ← hs.cursor]
        exact ⟨hstop.1, hresolve⟩
      have hhash := hstored _ _ hresolve
      rw [hresolve] at h
      dsimp only at h
      rw [if_neg (not_not_intro hhash)] at h
      by_cases hanchor : s.cursor = context.lookupAnchor
      · rw [if_pos hanchor] at h
        cases h
        rw [known_iff_of_eq hstored hslots hparent (hhash.trans hanchor), Bool.and_eq_true,
          decide_eq_true_eq, decide_eq_true_eq]
      · rw [if_neg hanchor] at h
        split_ifs at h with hslot
        cases h
        refine iff_of_false Bool.false_ne_true ?_
        rw [known_iff_of_ne hparent (fun heq => hanchor (hhash.symm.trans heq))]
        -- the slots above are smaller still
        rintro ⟨child, a', hchain, -, hslot', -⟩
        have hlt := hchain.timeslot_lt hslots hresolve
        omega

/-- Distinct hashes are at most `2 ^ 256`. -/
lemma length_visited_le {visited : List Hash} (h : visited.Nodup) : visited.length ≤ 2 ^ 256 := by
  have hnodup : (visited.map BitVec.toNat).Nodup := h.map fun _ _ => BitVec.eq_of_toNat_eq
  have hsubset : visited.map BitVec.toNat ⊆ List.range (2 ^ 256) := by
    intro n hn
    obtain ⟨hash, -, rfl⟩ := List.mem_map.mp hn
    exact List.mem_range.mpr hash.isLt
  have hle := (hnodup.subperm hsubset).length_le
  rwa [List.length_map, List.length_range] at hle

/-- The walk ends, whatever the maps hold. -/
lemma walk_isSome (fuel : ℕ) (hfuel : 2 ^ 256 < fuel) :
    (run (round context ancestors headerLookup) fuel ⟨header.parent, [], header⟩).isSome := by
  have hkept : ∀ s s' : AnchorWalk, s.visited.Nodup →
      round context ancestors headerLookup s = .next s' → s'.visited.Nodup := by
    intro s s' hs h
    obtain ⟨-, hnew, a, -, -, -, rfl⟩ := round_next h
    exact List.nodup_cons.mpr ⟨hnew, hs⟩
  have hless : ∀ s s' : AnchorWalk, s.visited.Nodup →
      round context ancestors headerLookup s = .next s' →
        2 ^ 256 - s'.visited.length < 2 ^ 256 - s.visited.length := by
    intro s s' hs h
    have hle := length_visited_le (hkept s s' hs h)
    obtain ⟨-, -, a, -, -, -, rfl⟩ := round_next h
    rw [List.length_cons] at hle ⊢
    omega
  exact Iteration.run_isSome hkept hless fuel _ List.nodup_nil (Nat.lt_of_le_of_lt (Nat.sub_le ..) hfuel)

end AnchorWalk

/-- The check ends with an answer whatever the maps hold, and when headers are stored under their
hash and slots decrease along parents, it says whether the anchor is on the parent chain of the
incoming header with its state root committed to by the next header down the chain. -/
theorem lookupAnchorIsKnown_iff (context : AnchorContext) (ancestors : Dict Hash LinkedHeader)
    (header : LinkedHeader) (headerLookup : Hash → Option LinkedHeader) :
    ∃ answer, (∀ fuel, 2 ^ 256 < fuel →
        lookupAnchorIsKnown fuel context (some ancestors) (some header) (some headerLookup) =
          some answer) ∧
      (StoredUnderHash ancestors headerLookup → SlotsDecrease ancestors headerLookup →
        (answer = true ↔ ∃ child a, OnChain ancestors headerLookup header child a ∧
          a.hash = context.lookupAnchor ∧ a.timeslot = context.lookupAnchorSlot ∧
          child.parentStateRoot = some context.lookupAnchorStateRoot)) := by
  have hsome : (run (AnchorWalk.round context ancestors headerLookup) (2 ^ 256 + 1)
      ⟨header.parent, [], header⟩).isSome := AnchorWalk.walk_isSome _ (Nat.lt_succ_self _)
  obtain ⟨answer, hanswer⟩ := Option.isSome_iff_exists.mp hsome
  refine ⟨answer, fun fuel hfuel => Iteration.run_mono hanswer hfuel, fun hstored hslots => ?_⟩
  refine Iteration.run_result (I := AnchorWalk.Upto context ancestors headerLookup header)
    (fun s s' hs h => hs.next hslots h) (fun s answer hs h => hs.done hstored hslots h) _ _ answer
    ⟨rfl, .inl rfl, fun hash hmem => absurd hmem List.not_mem_nil, Iff.rfl⟩ hanswer

end Answer

/-! ## An anchor two blocks down -/

/-- The retained parent of the incoming header, and its own parent, which is looked up. -/
def sampleParent : LinkedHeader := ⟨2, 1, 5, some 9⟩

def sampleAnchor : LinkedHeader := ⟨1, 0, 3, some 8⟩

def sampleAncestors : Dict Hash LinkedHeader := (∅ : Dict Hash LinkedHeader).insert 2 sampleParent

def sampleLookup (hash : Hash) : Option LinkedHeader := if hash = 1 then some sampleAnchor else none

lemma resolve_sample {hash : Hash} {a : LinkedHeader}
    (h : resolve sampleAncestors sampleLookup hash = some a) :
    hash = 2 ∧ a = sampleParent ∨ hash = 1 ∧ a = sampleAnchor := by
  rw [resolve, sampleAncestors, Dict.get?_insert, Dict.get?_empty, sampleLookup] at h
  by_cases h2 : hash = 2
  · rw [if_pos h2] at h
    exact .inl ⟨h2, (Option.some.inj h).symm⟩
  · rw [if_neg h2] at h
    by_cases h1 : hash = 1
    · rw [if_pos h1] at h
      exact .inr ⟨h1, (Option.some.inj h).symm⟩
    · rw [if_neg h1] at h
      cases h

/-- The anchor two blocks down is known, with the root that the retained parent commits to. -/
theorem lookupAnchorIsKnown_sample :
    ∃ answer, (∀ fuel, 2 ^ 256 < fuel →
        lookupAnchorIsKnown fuel ⟨1, 3, 9⟩ (some sampleAncestors) (some ⟨3, 2, 6, some 7⟩)
          (some sampleLookup) = some answer) ∧ answer = true := by
  obtain ⟨answer, hends, hiff⟩ :=
    lookupAnchorIsKnown_iff ⟨1, 3, 9⟩ sampleAncestors ⟨3, 2, 6, some 7⟩ sampleLookup
  have hstored : StoredUnderHash sampleAncestors sampleLookup := by
    intro hash a h
    rcases resolve_sample h with ⟨rfl, rfl⟩ | ⟨rfl, rfl⟩ <;> rfl
  have hslots : SlotsDecrease sampleAncestors sampleLookup := by
    rintro hash x a hx ⟨hzero, ha⟩
    rcases resolve_sample hx with ⟨-, rfl⟩ | ⟨-, rfl⟩
    · rcases resolve_sample ha with ⟨hparent, -⟩ | ⟨-, rfl⟩
      · exact absurd hparent (by decide)
      · decide
    · exact absurd rfl hzero
  refine ⟨answer, hends, (hiff hstored hslots).mpr ⟨sampleParent, sampleAnchor, ?_, rfl, rfl, rfl⟩⟩
  exact .above (b := sampleParent) ⟨by decide, rfl⟩ (.parent ⟨by decide, rfl⟩)

end State
