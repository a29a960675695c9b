import Pyjamaz.State.Views

/-!
# Runs of the fork-aware store

The operations of the store as one step function.  An operation that raises leaves the store as it
was.  Everything a step can do is said once, by `Change` and `change_apply`; an accepted finalization
is described by `FinalizedTo`.  The invariants of a run follow by cases on the change.
-/

namespace State

open Links

/-- The operations that change a store with a finalized block. -/
inductive Operation (Key Value : Type) where
  | setBlockHash (blockHash parentHash : Hash)
  | setHeader (header : Header)
  | addAncestor (ancestor : Ancestor)
  | selectBlockHash (blockHash : Hash)
  | clearBlockHash
  | put (key : Key) (value : Value)
  | delete (key : Key)
  | startTx
  | commit
  | rollback
  | discardCandidate (blockHash : Hash) (restoreHash : Option Hash)
  | finalize (blockHash : Hash)

/-- The block that an operation makes a candidate, and its parent. -/
def Operation.candidate {Key Value : Type} : Operation Key Value → Option (Hash × Hash)
  | .setBlockHash blockHash parentHash => some (blockHash, parentHash)
  | .setHeader header => some (header.hash, header.parent)
  | _ => none

/-- The parent link that an operation is asked to set. -/
def Operation.newLink {Key Value : Type} : Operation Key Value → Option (Hash × Hash)
  | .setBlockHash blockHash parentHash => some (blockHash, parentHash)
  | .setHeader header => some (header.hash, header.parent)
  | .addAncestor ancestor => some (ancestor.hash, ancestor.parent)
  | _ => none

namespace StateStorage

variable {Key Value : Type}

/-! ## What the operations do -/

lemma setBlockHash_eq_ok {s s' : StateStorage Key Value} {b p : Hash}
    (h : s.setBlockHash b p = .ok s') :
    s.parentKnown p = true ∧ s.transaction.entries = [] ∧
      s' = { s with
        blockHash := some b
        parents := s.parents.insert b (some p)
        changeSets := s.changeSets.insert b ∅ } := by
  unfold setBlockHash at h
  split at h
  · cases h
  · next hknown =>
    split at h
    · cases h
    · next htx =>
      cases h
      exact ⟨by simpa using hknown, by simpa using htx, rfl⟩

lemma setHeader_eq_ok {s s' : StateStorage Key Value} {header : Header}
    (h : s.setHeader header = .ok s') :
    ∃ s₁, s.setBlockHash header.hash header.parent = .ok s₁ ∧
      s' = { s₁ with ancestors := s₁.ancestors.insert header.hash (.header header) } := by
  unfold setHeader at h
  cases hset : s.setBlockHash header.hash header.parent with
  | error e =>
    rw [hset] at h
    cases h
  | ok s₁ =>
    rw [hset] at h
    cases h
    exact ⟨s₁, rfl, rfl⟩

lemma selectBlockHash_eq_ok {s s' : StateStorage Key Value} {b : Hash}
    (h : s.selectBlockHash b = .ok s') :
    s.transaction.entries = [] ∧ s.hasStateAt b = true ∧ s' = { s with blockHash := some b } := by
  unfold selectBlockHash at h
  split at h
  · cases h
  · next htx =>
    split at h
    · cases h
    · next hstate =>
      cases h
      exact ⟨by simpa using htx, by simpa using hstate, rfl⟩

lemma commit_eq_ok {s s' : StateStorage Key Value} (h : s.commit = .ok s') :
    (s.blockHash = none ∧ s' = { s with transaction := ∅ }) ∨
      ∃ b, s.blockHash = some b ∧ b ≠ 0 ∧
        s' = { s with changeSets := s.changeSets.insert b s.transaction, transaction := ∅ } := by
  unfold commit at h
  split at h
  · next hblock =>
    cases h
    exact .inl ⟨hblock, rfl⟩
  · next b hblock =>
    split at h
    · cases h
    · next hb =>
      cases h
      exact .inr ⟨b, hblock, hb, rfl⟩

lemma discardCandidate_eq_ok {s s' : StateStorage Key Value} {b : Hash} {restore : Option Hash}
    (h : s.discardCandidate b restore = .ok s') :
    s.finalizedBlockHash ≠ some b ∧ s.blockHash = some b ∧
      (∀ r, restore = some r → s.hasStateAt r = true) ∧
      s' = { s with
        changeSets := s.changeSets.erase b
        parents := s.parents.erase b
        ancestors := s.ancestors.erase b
        transaction := ∅
        blockHash := restore } := by
  unfold discardCandidate at h
  split at h
  · cases h
  · next hfinal =>
    split at h
    · cases h
    · next hblock =>
      split at h
      · cases h
      · next hrestore =>
        cases h
        refine ⟨hfinal, by simpa using hblock, fun r hr => ?_, rfl⟩
        subst hr
        simpa using hrestore

/-! ## Steps -/

variable [DecidableEq Key]

/-- The store after an operation that may raise. -/
def attempt (s : StateStorage Key Value) :
    Except StorageError (StateStorage Key Value) → StateStorage Key Value
  | .ok s' => s'
  | .error _ => s

/-- One operation. -/
def apply (s : StateStorage Key Value) : Operation Key Value → StateStorage Key Value
  | .setBlockHash blockHash parentHash => s.attempt (s.setBlockHash blockHash parentHash)
  | .setHeader header => s.attempt (s.setHeader header)
  | .addAncestor ancestor => s.addAncestor ancestor
  | .selectBlockHash blockHash => s.attempt (s.selectBlockHash blockHash)
  | .clearBlockHash => s.clearBlockHash
  | .put key value => s.put key value
  | .delete key => s.delete key
  | .startTx => s.startTx
  | .commit => s.attempt s.commit
  | .rollback => s.rollback
  | .discardCandidate blockHash restoreHash => s.attempt (s.discardCandidate blockHash restoreHash)
  | .finalize blockHash => s.attempt (s.finalize blockHash)

/-- A store at the start of a run: a finalized block, links without a cycle, nothing selected and no
changes. -/
structure Started (s : StateStorage Key Value) : Prop where
  finalized : s.finalizedBlockHash ≠ none
  ranked : ∃ rank, Ranked s.link rank
  blockHash : s.blockHash = none
  changeSets : s.changeSets = ∅
  transaction : s.transaction = ∅

/-! ## Finalization -/

section Links

omit [DecidableEq Key]

/-- An accepted walk of `finalize` is a complete one. -/
lemma finalizePath_eq_some {s : StateStorage Key Value} :
    ∀ {fuel cursor path path'}, s.finalizePath fuel cursor path = some path' →
      ∃ l, path' = path ++ l ∧ s.Complete cursor l := by
  intro fuel
  induction fuel with
  | zero =>
    intro cursor path path' h
    cases h
  | succ fuel ih =>
    intro cursor path path' h
    unfold finalizePath at h
    by_cases hend : cursor = s.finalizedBlockHash
    · rw [if_pos hend] at h
      cases h
      exact ⟨[], (List.append_nil path).symm, hend ▸ .stop _, nofun⟩
    rw [if_neg hend] at h
    cases cursor with
    | none => cases h
    | some b =>
      simp only at h
      split at h
      · cases h
      · next hb =>
        rw [not_or, Bool.not_eq_false] at hb
        obtain ⟨l, rfl, hwalk, hall⟩ := ih h
        refine ⟨b :: l, by simp, .move hwalk, ?_⟩
        intro x hx
        rcases List.mem_cons.mp hx with rfl | hx
        · exact hb.2
        · exact hall x hx

/-- Each round of `descends_from_target` follows one link. -/
lemma reaches_of_descendsFromTarget {s : StateStorage Key Value} {t : Hash} :
    ∀ {fuel b seen}, descendsFromTarget s.parents t fuel b seen = true → Reaches s.link b t := by
  intro fuel
  induction fuel with
  | zero =>
    intro b seen h
    cases h
  | succ fuel ih =>
    intro b seen h
    unfold descendsFromTarget at h
    split at h
    · cases h
    · split at h
      · next hb =>
        subst hb
        exact Reaches.refl _ _
      · split at h
        · cases h
        · next parent hparent =>
          obtain ⟨l, hl⟩ := ih h
          have hlink : s.link b = some parent := hparent
          exact ⟨b :: l, .move (hlink ▸ hl)⟩

/-- `descends_from_target` follows a walk to the target that passes no block twice. -/
lemma descendsFromTarget_of_walk {s : StateStorage Key Value} {t : Hash} :
    ∀ {fuel c l seen}, Walk s.link (some c) l (some t) → (l ++ seen).Nodup → t ∉ l ++ seen →
      l.length < fuel → descendsFromTarget s.parents t fuel c seen = true := by
  intro fuel
  induction fuel with
  | zero =>
    intro c l seen _ _ _ hfuel
    exact absurd hfuel (Nat.not_lt_zero _)
  | succ fuel ih =>
    intro c l seen hwalk hnodup ht hfuel
    unfold descendsFromTarget
    cases l with
    | nil =>
      cases hwalk.of_nil
      rw [if_neg (by simpa using ht), if_pos rfl]
    | cons x l =>
      obtain ⟨hx, hwalk⟩ := hwalk.of_cons
      cases hx
      rw [List.cons_append, List.nodup_cons] at hnodup
      have hseen : c ∉ seen := fun hmem => hnodup.1 (List.mem_append_right _ hmem)
      have hct : c ≠ t := by
        rintro rfl
        exact ht (by simp)
      have hnext : (l ++ c :: seen).Nodup := by
        rw [List.nodup_middle]
        exact List.nodup_cons.mpr hnodup
      have ht' : t ∉ l ++ c :: seen := by
        simp only [List.cons_append, List.mem_cons, List.mem_append, not_or] at ht ⊢
        exact ⟨ht.2.1, ht.1, ht.2.2⟩
      rw [if_neg hseen, if_neg hct]
      cases hlink : s.link c with
      | none =>
        rw [hlink] at hwalk
        cases hwalk.of_none.2
      | some parent =>
        rw [hlink] at hwalk
        have hjoin : (s.parents.get? c).join = some parent := hlink
        rw [hjoin]
        exact ih hwalk hnext ht' (by rw [List.length_cons] at hfuel; omega)

/-- `descends_from_target` decides whether the links lead to the target. -/
lemma descendsFromTarget_iff {s : StateStorage Key Value} {rank : Hash → ℕ}
    (hrank : Ranked s.link rank) (t b : Hash) :
    descendsFromTarget s.parents t (s.parents.entries.length + 2) b [] = true ↔
      Reaches s.link b t := by
  constructor
  · exact reaches_of_descendsFromTarget
  · rintro ⟨l, hl⟩
    apply descendsFromTarget_of_walk hl
    · simpa using hl.nodup hrank
    · simpa using hl.not_mem_end hrank
    · exact Nat.lt_succ_of_le (length_le_of_walk hrank hl)

end Links

lemma applyChanges_eq (engine : Dict Key Value) (changes : ChangeSet Key Value) :
    applyChanges engine changes =
      changes.entries.foldl (fun items entry => putItem items entry.1 entry.2) engine := by
  apply List.foldl_ext
  intro items entry _
  obtain ⟨key, item⟩ := entry
  cases item with
  | none => rfl
  | some value => rfl

/-- The changes of a change set count, the other items stay. -/
lemma get?_applyChanges (engine : Dict Key Value) (changes : ChangeSet Key Value) (key : Key) :
    (applyChanges engine changes).get? key = (changes.get? key).getD (engine.get? key) := by
  rw [applyChanges_eq]
  obtain ⟨entries, hnodup⟩ := changes
  simp only [Dict.get?]
  induction entries generalizing engine with
  | nil => rfl
  | cons entry rest ih =>
    obtain ⟨k, item⟩ := entry
    rw [List.map_cons, List.nodup_cons] at hnodup
    have hget := get?_putItem engine k key item
    simp only [Dict.get?] at hget
    rw [List.foldl_cons, ih (putItem engine k item) hnodup.2, hget]
    by_cases hkey : key = k
    · subst hkey
      rw [Dict.lookup_eq_none_iff.mpr hnodup.1, if_pos rfl, List.lookup_cons, beq_self_eq_true]
      rfl
    · rw [if_neg hkey, List.lookup_cons, beq_false_of_ne hkey]

/-- The transaction of `finalize` holds the hits on the path. -/
lemma get?_batch (s : StateStorage Key Value) (path : List Hash) (key : Key) :
    (path.reverse.foldl (fun (batch : ChangeSet Key Value) h =>
      batch.update (s.overlayOf h)) ∅).get? key = s.hit path key := by
  induction path with
  | nil => rfl
  | cons h path ih =>
    rw [List.reverse_cons, List.foldl_append, List.foldl_cons, List.foldl_nil, Dict.get?_update, ih,
      hit, hit, List.findSome?_cons]
    cases (s.overlayOf h).get? key with
    | none => rfl
    | some item => rfl

/-- What an accepted finalization of a new block does. -/
structure FinalizedTo (s : StateStorage Key Value) (t : Hash) (path : List Hash)
    (s' : StateStorage Key Value) : Prop where
  complete : s.Complete (some t) path
  engine : ∀ key, s'.storageEngine.get? key = (s.hit path key).getD (s.storageEngine.get? key)
  finalized : s'.finalizedBlockHash = some t
  retained : ∀ h, h ≠ t → Reaches s.link h t → s'.changeSets.get? h = s.changeSets.get? h
  pruned : ∀ h, h = t ∨ ¬ Reaches s.link h t → s'.changeSets.get? h = none
  targetLink : s'.parents.get? t = some none
  retainedLink : ∀ h, h ≠ t → Reaches s.link h t → s.changeSets.contains h = true →
    s'.parents.get? h = s.parents.get? h
  prunedLink : ∀ h, h ≠ t → ¬ (Reaches s.link h t ∧ s.changeSets.contains h = true) →
    s'.parents.get? h = none
  blockHash : s'.blockHash = if s.blockHash.any s'.hasStateAt then s.blockHash else some t
  transaction : s'.transaction = s.transaction

omit [DecidableEq Key] in
/-- `finalize` retains the change sets of the blocks that come after the target. -/
lemma Complete.retained_iff {s : StateStorage Key Value} {rank : Hash → ℕ} {t : Hash}
    {path : List Hash} (h : s.Complete (some t) path) (hrank : Ranked s.link rank)
    (hfinal : s.finalizedBlockHash ≠ some t) {b : Hash} :
    (s.changeSets.contains b && !path.contains b &&
        descendsFromTarget s.parents t (s.parents.entries.length + 2) b []) = true ↔
      s.changeSets.contains b = true ∧ b ≠ t ∧ Reaches s.link b t := by
  -- the target is the first block of the path, and no other block of the path descends from it
  have htarget : t ∈ path := by
    cases path with
    | nil => exact absurd h.1.of_nil.symm hfinal
    | cons x path =>
      obtain ⟨hx, -⟩ := h.1.of_cons
      cases hx
      exact List.mem_cons_self
  simp only [Bool.and_eq_true, Bool.not_eq_true', descendsFromTarget_iff hrank]
  constructor
  · rintro ⟨⟨hcontains, hout⟩, hreach⟩
    refine ⟨hcontains, ?_, hreach⟩
    rintro rfl
    rw [List.contains_iff_mem.mpr htarget] at hout
    cases hout
  · rintro ⟨hcontains, hne, hreach⟩
    refine ⟨⟨hcontains, ?_⟩, hreach⟩
    rw [Bool.eq_false_iff]
    intro hmem
    exact hne (hreach.antisymm hrank (reaches_of_mem h.1 (List.contains_iff_mem.mp hmem)))

/-- `finalize` accepts the finalized block, and then does nothing, or moves on to a new one. -/
lemma finalize_eq_ok {s s' : StateStorage Key Value} {rank : Hash → ℕ} (hrank : Ranked s.link rank)
    {t : Hash} (h : s.finalize t = .ok s') :
    (s.finalizedBlockHash = some t ∧ s' = s) ∨
      (s.finalizedBlockHash ≠ some t ∧ s.transaction.entries = [] ∧
        ∃ path, FinalizedTo s t path s') := by
  unfold finalize at h
  split at h
  · cases h
  next htx =>
  rw [not_not] at htx
  split at h
  · next hfinal =>
    cases h
    exact .inl ⟨hfinal, rfl⟩
  next hfinal =>
  split at h
  · cases h
  next path hpath =>
  obtain ⟨l, hl, hcomplete⟩ := finalizePath_eq_some hpath
  rw [List.nil_append] at hl
  subst hl
  set retained : Hash → Bool := fun b => s.changeSets.contains b && !path.contains b &&
    descendsFromTarget s.parents t (s.parents.entries.length + 2) b [] with hretained
  have hiff : ∀ b, retained b = true ↔
      s.changeSets.contains b = true ∧ b ≠ t ∧ Reaches s.link b t :=
    fun b => hcomplete.retained_iff hrank hfinal
  cases h
  refine .inr ⟨hfinal, htx, path, ?_⟩
  refine ⟨hcomplete, ?_, rfl, ?_, ?_, ?_, ?_, ?_, ?_, rfl⟩
  · intro key
    have hbatch := get?_batch s path key
    simp only [overlayOf] at hbatch
    rw [get?_applyChanges, hbatch]
  · intro b hne hreach
    simp only [Dict.get?_filterKeys]
    cases hcontains : s.changeSets.contains b with
    | true => rw [if_pos ((hiff b).mpr ⟨hcontains, hne, hreach⟩)]
    | false =>
      rw [Dict.get?_eq_none_iff.mpr hcontains]
      exact ite_self _
  · intro b hb
    simp only [Dict.get?_filterKeys]
    refine if_neg ?_
    rw [hiff]
    rintro ⟨-, hne, hreach⟩
    rcases hb with rfl | hb
    · exact hne rfl
    · exact hb hreach
  · simp
  · intro b hne hreach hcontains
    have hkeep : retained b = true := (hiff b).mpr ⟨hcontains, hne, hreach⟩
    simp [hne, hkeep]
  · intro b hne hb
    have hdrop : retained b = false := by
      rw [Bool.eq_false_iff, ne_eq, hiff]
      rintro ⟨hcontains, -, hreach⟩
      exact hb ⟨hreach, hcontains⟩
    simp [hne, hdrop]
  · have hstate : ∀ b, (retained b || decide (b = t)) =
        (decide (some t = some b) || (s.changeSets.filterKeys retained).contains b) := by
      intro b
      rw [Dict.contains, Dict.get?_filterKeys]
      cases hkeep : retained b with
      | true =>
        have hsome : (s.changeSets.get? b).isSome = true := ((hiff b).mp hkeep).1
        simp [hsome]
      | false => simp [eq_comm]
    simp only [hstate]
    rfl

/-! ## What a step can do -/

/-- Everything a step can do to a store: nothing, or the effect of one of the operations. -/
inductive Change (s : StateStorage Key Value) (op : Operation Key Value) :
    StateStorage Key Value → Prop
  | unchanged : Change s op s
  | set (b p : Hash) (ancestors : Dict Hash Ancestor) (hlink : op.newLink = some (b, p))
      (hcandidate : op.candidate = some (b, p)) (hknown : s.parentKnown p = true)
      (htx : s.transaction.entries = []) :
      Change s op { s with
        blockHash := some b
        parents := s.parents.insert b (some p)
        changeSets := s.changeSets.insert b ∅
        ancestors := ancestors }
  | ancestor (a : Ancestor) (hop : op = .addAncestor a) : Change s op (s.addAncestor a)
  | select (b : Hash) (hstate : s.hasStateAt b = true) : Change s op { s with blockHash := some b }
  | clear : Change s op { s with blockHash := none }
  | engine (engine : Dict Key Value) : Change s op { s with storageEngine := engine }
  | transaction (tx : ChangeSet Key Value) : Change s op { s with transaction := tx }
  | commit (b : Hash) (hop : op = .commit) (hblock : s.blockHash = some b) (hb : b ≠ 0) :
      Change s op { s with changeSets := s.changeSets.insert b s.transaction, transaction := ∅ }
  | rollback (b : Hash) (hblock : s.blockHash = some b) :
      Change s op { s with changeSets := s.changeSets.erase b, transaction := ∅ }
  | discard (b : Hash) (restore : Option Hash) (hfinal : s.finalizedBlockHash ≠ some b)
      (hblock : s.blockHash = some b) (hrestore : ∀ r, restore = some r → s.hasStateAt r = true) :
      Change s op { s with
        changeSets := s.changeSets.erase b
        parents := s.parents.erase b
        ancestors := s.ancestors.erase b
        transaction := ∅
        blockHash := restore }
  | finalize (t : Hash) (path : List Hash) {s' : StateStorage Key Value}
      (hto : FinalizedTo s t path s') : Change s op s'

/-- Every step is one of these. -/
lemma change_apply {s : StateStorage Key Value} {rank : Hash → ℕ} (hrank : Ranked s.link rank)
    (op : Operation Key Value) : Change s op (s.apply op) := by
  cases op with
  | setBlockHash b p =>
    rw [apply]
    cases hset : s.setBlockHash b p with
    | error e => exact .unchanged
    | ok s' =>
      obtain ⟨hknown, htx, rfl⟩ := setBlockHash_eq_ok hset
      exact .set b p s.ancestors rfl rfl hknown htx
  | setHeader header =>
    rw [apply]
    cases hset : s.setHeader header with
    | error e => exact .unchanged
    | ok s' =>
      obtain ⟨s₁, hset₁, rfl⟩ := setHeader_eq_ok hset
      obtain ⟨hknown, htx, rfl⟩ := setBlockHash_eq_ok hset₁
      exact .set header.hash header.parent _ rfl rfl hknown htx
  | addAncestor a => exact .ancestor a rfl
  | selectBlockHash b =>
    rw [apply]
    cases hselect : s.selectBlockHash b with
    | error e => exact .unchanged
    | ok s' =>
      obtain ⟨-, hstate, rfl⟩ := selectBlockHash_eq_ok hselect
      exact .select b hstate
  | clearBlockHash => exact .clear
  | put key value =>
    rw [apply, put]
    split
    · exact .transaction _
    · exact .engine _
  | delete key =>
    rw [apply, delete]
    split
    · exact .transaction _
    · exact .engine _
  | startTx => exact .transaction ∅
  | commit =>
    rw [apply]
    cases hcommit : s.commit with
    | error e => exact .unchanged
    | ok s' =>
      rcases commit_eq_ok hcommit with ⟨-, rfl⟩ | ⟨b, hblock, hb, rfl⟩
      · exact .transaction ∅
      · exact .commit b rfl hblock hb
  | rollback =>
    rw [apply, rollback]
    split
    · exact .transaction ∅
    · next b hblock => exact .rollback b hblock
  | discardCandidate b restore =>
    rw [apply]
    cases hdiscard : s.discardCandidate b restore with
    | error e => exact .unchanged
    | ok s' =>
      obtain ⟨hfinal, hblock, hrestore, rfl⟩ := discardCandidate_eq_ok hdiscard
      exact .discard b restore hfinal hblock hrestore
  | finalize t =>
    rw [apply]
    cases hfinalize : s.finalize t with
    | error e => exact .unchanged
    | ok s' =>
      rcases finalize_eq_ok hrank hfinalize with ⟨-, rfl⟩ | ⟨-, -, path, hto⟩
      · exact .unchanged
      · exact .finalize t path hto

omit [DecidableEq Key] in
/-- A new link, the others unchanged. -/
lemma link_insert {s s' : StateStorage Key Value} {b p : Hash}
    (h : s'.parents = s.parents.insert b (some p)) :
    s'.link b = some p ∧ ∀ x, x ≠ b → s'.link x = s.link x := by
  simp only [link, h, Dict.get?_insert]
  refine ⟨by simp, fun x hx => ?_⟩
  rw [if_neg hx]

lemma FinalizedTo.link {s s' : StateStorage Key Value} {t : Hash} {path : List Hash}
    (hto : FinalizedTo s t path s') (h : Hash) : s'.link h = s.link h ∨ s'.link h = none := by
  simp only [StateStorage.link]
  by_cases ht : h = t
  · subst ht
    exact .inr (by rw [hto.targetLink]; rfl)
  · by_cases hkeep : Reaches s.link h t ∧ s.changeSets.contains h = true
    · exact .inl (by rw [hto.retainedLink h ht hkeep.1 hkeep.2])
    · exact .inr (by rw [hto.prunedLink h ht hkeep]; rfl)

/-- A step sets the link it is asked to set, or keeps and removes links. -/
lemma Change.link {s s' : StateStorage Key Value} {op : Operation Key Value}
    (hchange : Change s op s') :
    (∀ h, s'.link h = s.link h ∨ s'.link h = none) ∨
      ∃ b p, op.newLink = some (b, p) ∧ s'.link b = some p ∧
        ∀ h, h ≠ b → s'.link h = s.link h := by
  cases hchange with
  | set b p ancestors hlink => exact .inr ⟨b, p, hlink, link_insert rfl⟩
  | ancestor a hop => exact .inr ⟨a.hash, a.parent, by rw [hop]; rfl, link_insert rfl⟩
  | discard b restore =>
    refine .inl (fun h => ?_)
    simp only [StateStorage.link, Dict.get?_erase]
    by_cases hb : h = b
    · exact .inr (by rw [if_pos hb]; rfl)
    · exact .inl (by rw [if_neg hb])
  | finalize t path hto => exact .inl hto.link
  | unchanged | select | clear | engine | transaction | commit | rollback =>
    exact .inl (fun h => .inl rfl)

/-- A step keeps the finalized block or finalizes another one. -/
lemma Change.finalized {s s' : StateStorage Key Value} {op : Operation Key Value}
    (hchange : Change s op s') (h : s.finalizedBlockHash ≠ none) : s'.finalizedBlockHash ≠ none := by
  cases hchange with
  | finalize t path hto =>
    rw [hto.finalized]
    exact Option.some_ne_none t
  | set | ancestor | discard | unchanged | select | clear | engine | transaction | commit | rollback =>
    exact h

/-! ## Runs -/

/-- A run from a started store in which no block is set below itself. -/
inductive GroundedRun : StateStorage Key Value → Prop
  | start {s : StateStorage Key Value} (h : Started s) : GroundedRun s
  | step {s : StateStorage Key Value} (hrun : GroundedRun s) (op : Operation Key Value)
      (hground : ∀ b p, op.newLink = some (b, p) → ¬ Reaches s.link p b) : GroundedRun (s.apply op)

/-- Over a run the links have no cycle, and a block is finalized. -/
lemma GroundedRun.invariant {s : StateStorage Key Value} (hrun : GroundedRun s) :
    (∃ rank, Ranked s.link rank) ∧ s.finalizedBlockHash ≠ none := by
  induction hrun with
  | start h => exact ⟨h.ranked, h.finalized⟩
  | @step s hrun op hground ih =>
    obtain ⟨⟨rank, hrank⟩, hfinal⟩ := ih
    have hchange := change_apply hrank op
    refine ⟨?_, hchange.finalized hfinal⟩
    rcases hchange.link with hless | ⟨b, p, hlink, hb, hother⟩
    · exact ⟨rank, hrank.mono hless⟩
    · exact exists_ranked_update hrank (hground b p hlink) (fun x hx => .inl (hother x hx)) hb

/-- Operations in turn. -/
def applyAll (s : StateStorage Key Value) (ops : List (Operation Key Value)) :
    StateStorage Key Value :=
  ops.foldl apply s

/-- A store with the finalized block `1` and one item. -/
def sampleStart : StateStorage ℕ ℕ :=
  (init ((∅ : Dict ℕ ℕ).insert 0 7)).setFinalizedBlockHash 1

/-- A child of the finalized block, written and committed. -/
def sampleChildStore : StateStorage ℕ ℕ :=
  applyAll sampleStart [.setBlockHash 2 1, .put 0 8, .commit]

end StateStorage

end State
