import Mathlib.Data.List.Induction
import Pyjamaz.Library.Walk
import Pyjamaz.State.Storage

/-!
# Views of the fork-aware store

The store has three readers of a block's posterior state: `get` looks one key up, `as_dict` collects
the items at the selected block, `as_dict_at` those at any retained block.  Each follows the parent
links from its block; the first two go on to the end of the links and skip blocks without a change
set, the third ends at the finalized block and raises when a change set is missing.

Over blocks `l`, nearest first, the item a reader finds under a key is `hit s l key`: the entry of
the first change set that has one.  Every reader is reduced to a walk along the links and the hits on
it: `lookupItem_of_walk`, `asDict_of_walk`, `asDictAt_of_walk`.
-/

namespace State

open Links

namespace StateStorage

variable {Key Value : Type} [DecidableEq Key]

/-! ## The dictionaries of the state at a block -/

/-- One change of a change set, applied to a dictionary of items. -/
def putItem (items : Dict Key Value) (key : Key) : Option Value → Dict Key Value
  | some value => items.insert key value
  | none => items.erase key

/-- The loop of both dictionaries over one change set: items and keys already processed. -/
def applyOverlay (acc : Dict Key Value × List Key) (changes : ChangeSet Key Value) :
    Dict Key Value × List Key :=
  changes.entries.foldl (fun (items, processed) (key, item) =>
    if key ∈ processed then (items, processed)
    else (putItem items key item, key :: processed)) acc

/-- The change set of a block as `as_dict` reads it; nothing where there is none. -/
def overlayOf (s : StateStorage Key Value) (h : Hash) : ChangeSet Key Value :=
  (s.changeSets.get? h).getD ∅

/-- The loop of `as_dict` up the retained ancestry. -/
def asDictLoop (s : StateStorage Key Value) :
    ℕ → Option Hash → List Hash → Dict Key Value × List Key → Except StorageError (Dict Key Value)
  | _, none, _, acc => .ok acc.1
  | 0, some _, _, _ => .error .cycleDetected
  | fuel + 1, some h, visited, acc =>
    if h ∈ visited then .error .cycleDetected
    else asDictLoop s fuel (s.parents.get? h).join (h :: visited) (applyOverlay acc (s.overlayOf h))

/-- `as_dict` -/
def asDict (s : StateStorage Key Value) : Except StorageError (Dict Key Value) :=
  if s.transaction.entries ≠ [] then .error .pendingTransaction
  else s.asDictLoop (s.parents.entries.length + 2) s.blockHash [] (s.storageEngine, [])

/-- The loop of `as_dict_at`.  The cursor is compared with the finalized hash before it is read, so
the test for `None` of the other loops is a missing change set here. -/
def asDictAtLoop (s : StateStorage Key Value) :
    ℕ → Option Hash → List Hash → Dict Key Value × List Key → Except StorageError (Dict Key Value)
  | 0, _, _, _ => .error .ancestryCycle
  | fuel + 1, cursor, visited, acc =>
    if cursor = s.finalizedBlockHash then .ok acc.1
    else match cursor with
      | none => .error .ancestryUnavailable
      | some h =>
        if h ∈ visited then .error .ancestryCycle
        else match s.changeSets.get? h with
          | none => .error .ancestryUnavailable
          | some changes =>
            match s.parents.get? h with
            | none => .error .ancestryUnavailable
            | some parent => asDictAtLoop s fuel parent (h :: visited) (applyOverlay acc changes)

/-- `as_dict_at` -/
def asDictAt (s : StateStorage Key Value) (blockHash : Hash) :
    Except StorageError (Dict Key Value) :=
  if blockHash = 0 then .error .invalidStateHash
  else if s.finalizedBlockHash = some blockHash then .ok s.storageEngine
  else if s.changeSets.contains blockHash = false then .error .stateUnavailable
  else s.asDictAtLoop (s.changeSets.entries.length + 1) (some blockHash) [] (s.storageEngine, [])

/-! ## The items over a list of blocks -/

/-- The parent link of a block, `None` where there is none. -/
def link (s : StateStorage Key Value) (h : Hash) : Option Hash := (s.parents.get? h).join

/-- The entry for a key in the first change set, of the listed blocks, that has one. -/
def hit (s : StateStorage Key Value) (l : List Hash) (key : Key) : Option (Option Value) :=
  l.findSome? (fun h => (s.overlayOf h).get? key)

lemma hit_append (s : StateStorage Key Value) (l l' : List Hash) (key : Key) :
    s.hit (l ++ l') key = (s.hit l key).or (s.hit l' key) := List.findSome?_append

/-- What the loops have collected after a list of blocks. -/
def collect (s : StateStorage Key Value) (acc : Dict Key Value × List Key) (l : List Hash) :
    Dict Key Value × List Key :=
  l.foldl (fun acc h => applyOverlay acc (s.overlayOf h)) acc

lemma get?_putItem (items : Dict Key Value) (key key' : Key) (item : Option Value) :
    (putItem items key item).get? key' = if key' = key then item else items.get? key' := by
  cases item with
  | none => rw [putItem, Dict.get?_erase]
  | some value => rw [putItem, Dict.get?_insert]

/-- A change set adds its keys to those processed, and counts for the keys not processed before. -/
lemma applyOverlay_spec (items : Dict Key Value) (processed : List Key)
    (changes : ChangeSet Key Value) (key : Key) :
    (key ∈ (applyOverlay (items, processed) changes).2 ↔
        key ∈ processed ∨ changes.get? key ≠ none) ∧
      (applyOverlay (items, processed) changes).1.get? key =
        if key ∈ processed then items.get? key
        else (changes.get? key).getD (items.get? key) := by
  obtain ⟨entries, hnodup⟩ := changes
  simp only [applyOverlay, Dict.get?]
  induction entries generalizing items processed with
  | nil => simp
  | cons entry rest ih =>
    obtain ⟨k, item⟩ := entry
    rw [List.map_cons, List.nodup_cons] at hnodup
    have hlookup : List.lookup key ((k, item) :: rest) =
        if key = k then some item else rest.lookup key := by
      by_cases hkey : key = k
      · rw [if_pos hkey, List.lookup_cons, beq_iff_eq.mpr hkey]
      · rw [if_neg hkey, List.lookup_cons, beq_false_of_ne hkey]
    rw [List.foldl_cons, hlookup]
    by_cases hk : k ∈ processed
    · rw [if_pos hk]
      obtain ⟨hmem, hget⟩ := ih items processed hnodup.2
      rw [hmem, hget]
      by_cases hkey : key = k
      · subst hkey
        simp [hk]
      · simp [hkey]
    · rw [if_neg hk]
      obtain ⟨hmem, hget⟩ := ih (putItem items k item) (k :: processed) hnodup.2
      have hput := get?_putItem items k key item
      simp only [Dict.get?] at hput
      rw [hmem, hget]
      by_cases hkey : key = k
      · subst hkey
        simp [hk, hput]
      · simp [hkey, hput]

/-- The collected items are those found by the hits. -/
lemma collect_spec (s : StateStorage Key Value) (l : List Hash) (key : Key) :
    (key ∈ (s.collect (s.storageEngine, []) l).2 ↔ s.hit l key ≠ none) ∧
      (s.collect (s.storageEngine, []) l).1.get? key =
        (s.hit l key).getD (s.storageEngine.get? key) := by
  induction l using List.reverseRecOn with
  | nil => simp [collect, hit]
  | append_singleton l h ih =>
    obtain ⟨hmem, hget⟩ := ih
    have hlast : s.hit [h] key = (s.overlayOf h).get? key := by
      rw [hit, List.findSome?_singleton]
    have hcollect : s.collect (s.storageEngine, []) (l ++ [h]) =
        applyOverlay (s.collect (s.storageEngine, []) l) (s.overlayOf h) := by
      rw [collect, List.foldl_append]
      rfl
    obtain ⟨hmem', hget'⟩ := applyOverlay_spec (s.collect (s.storageEngine, []) l).1
      (s.collect (s.storageEngine, []) l).2 (s.overlayOf h) key
    rw [hcollect, hit_append, hlast, hmem', hget', hget]
    simp only [hmem]
    cases s.hit l key with
    | none => simp
    | some item => simp

/-! ## The readers along a walk -/

lemma get?_overlayOf (s : StateStorage Key Value) (h : Hash) (key : Key) :
    (s.overlayOf h).get? key = (s.changeSets.get? h).bind (fun changes => changes.get? key) := by
  rw [overlayOf]
  cases s.changeSets.get? h with
  | none => rfl
  | some changes => rfl

/-- `get` finds the hit on the walk from its block to the end of the links. -/
lemma lookupItem_of_walk {s : StateStorage Key Value} {cursor : Option Hash} {l : List Hash}
    (hwalk : Walk s.link cursor l none) (key : Key) :
    ∀ fuel visited, (l ++ visited).Nodup → l.length ≤ fuel →
      s.lookupItem key fuel cursor visited = .ok (s.hit l key) := by
  generalize hend : (none : Option Hash) = last at hwalk
  induction hwalk with
  | stop c =>
    intro fuel visited _ _
    subst hend
    cases fuel <;> rfl
  | @move h l c hwalk ih =>
    intro fuel visited hnodup hfuel
    rw [List.cons_append, List.nodup_cons] at hnodup
    obtain ⟨fuel, rfl⟩ : ∃ n, fuel = n + 1 := ⟨fuel - 1, by rw [List.length_cons] at hfuel; omega⟩
    have hvisited : h ∉ visited := fun hmem => hnodup.1 (List.mem_append_right _ hmem)
    have hnext : (l ++ h :: visited).Nodup := by
      rw [List.nodup_middle]
      exact List.nodup_cons.mpr hnodup
    rw [lookupItem, if_neg hvisited, hit, List.findSome?_cons, ← get?_overlayOf]
    cases (s.overlayOf h).get? key with
    | some item => rfl
    | none => exact ih hend _ _ hnext (by rw [List.length_cons] at hfuel; omega)

lemma asDictLoop_of_walk {s : StateStorage Key Value} {cursor : Option Hash} {l : List Hash}
    (hwalk : Walk s.link cursor l none) :
    ∀ fuel visited acc, (l ++ visited).Nodup → l.length ≤ fuel →
      s.asDictLoop fuel cursor visited acc = .ok (s.collect acc l).1 := by
  generalize hend : (none : Option Hash) = last at hwalk
  induction hwalk with
  | stop c =>
    intro fuel visited acc _ _
    subst hend
    cases fuel <;> rfl
  | @move h l c hwalk ih =>
    intro fuel visited acc hnodup hfuel
    rw [List.cons_append, List.nodup_cons] at hnodup
    obtain ⟨fuel, rfl⟩ : ∃ n, fuel = n + 1 := ⟨fuel - 1, by rw [List.length_cons] at hfuel; omega⟩
    have hvisited : h ∉ visited := fun hmem => hnodup.1 (List.mem_append_right _ hmem)
    have hnext : (l ++ h :: visited).Nodup := by
      rw [List.nodup_middle]
      exact List.nodup_cons.mpr hnodup
    rw [asDictLoop, if_neg hvisited]
    exact ih hend _ _ _ hnext (by rw [List.length_cons] at hfuel; omega)

omit [DecidableEq Key] in
/-- The linked blocks are keys of the parent links. -/
lemma mem_keys_of_link {s : StateStorage Key Value} {h : Hash} (hlink : s.link h ≠ none) :
    h ∈ s.parents.keys := by
  rw [← Dict.contains_iff, Dict.contains]
  cases hget : s.parents.get? h with
  | none => exact absurd (by rw [link, hget]; rfl) hlink
  | some _ => rfl

omit [DecidableEq Key] in
/-- Where links are ranked, a walk fits the fuel of `get`, `as_dict` and `finalize`. -/
lemma length_le_of_walk {s : StateStorage Key Value} {rank : Hash → ℕ} (hrank : Ranked s.link rank)
    {cursor last : Option Hash} {l : List Hash} (hwalk : Walk s.link cursor l last) :
    l.length ≤ s.parents.entries.length + 1 := by
  have h := hwalk.length_le (hwalk.nodup hrank) (fun _ => mem_keys_of_link)
  rwa [Dict.keys, List.length_map] at h

/-- `as_dict` at a selected block. -/
lemma asDict_of_walk {s : StateStorage Key Value} {rank : Hash → ℕ} (hrank : Ranked s.link rank)
    (htx : s.transaction.entries = []) {l : List Hash} (hwalk : Walk s.link s.blockHash l none) :
    s.asDict = .ok (s.collect (s.storageEngine, []) l).1 := by
  rw [asDict, if_neg (by simp [htx])]
  apply asDictLoop_of_walk hwalk
  · simpa using hwalk.nodup hrank
  · exact (length_le_of_walk hrank hwalk).trans (by omega)

/-- `get` at a selected block. -/
lemma get_of_walk {s : StateStorage Key Value} {rank : Hash → ℕ} (hrank : Ranked s.link rank)
    (htx : s.transaction.entries = []) {h : Hash} (hblock : s.blockHash = some h) {l : List Hash}
    (hwalk : Walk s.link (some h) l none) (key : Key) :
    s.get key false = .ok ((s.hit l key).getD (s.storageEngine.get? key)) := by
  have hnone : s.transaction.get? key = none := by
    rw [Dict.get?, htx]
    rfl
  have hlookup := lookupItem_of_walk hwalk key (s.parents.entries.length + 2) []
    (by simpa using hwalk.nodup hrank) ((length_le_of_walk hrank hwalk).trans (by omega))
  simp only [get, hblock, hnone, hlookup]
  cases s.hit l key with
  | none => rfl
  | some item => rfl

/-- A block from which a walk over change sets leads to the finalized one. -/
def Complete (s : StateStorage Key Value) (cursor : Option Hash) (l : List Hash) : Prop :=
  Walk s.link cursor l s.finalizedBlockHash ∧ ∀ h ∈ l, s.changeSets.contains h = true

omit [DecidableEq Key] in
lemma Complete.unique {s : StateStorage Key Value} {rank : Hash → ℕ} (hrank : Ranked s.link rank)
    (hfinal : s.finalizedBlockHash ≠ none) {cursor : Option Hash} {l l' : List Hash}
    (h : s.Complete cursor l) (h' : s.Complete cursor l') : l = l' := by
  obtain ⟨f, hf⟩ := Option.ne_none_iff_exists'.mp hfinal
  have hwalk := h.1
  have hwalk' := h'.1
  rw [hf] at hwalk hwalk'
  exact hwalk.unique hwalk' (hwalk.not_mem_end hrank) (hwalk'.not_mem_end hrank)

omit [DecidableEq Key] in
/-- A complete walk that is not at its end passes a block with a change set. -/
lemma Complete.of_ne_end {s : StateStorage Key Value} {h : Hash} {l : List Hash}
    (hend : some h ≠ s.finalizedBlockHash) (hl : s.Complete (some h) l) :
    ∃ l', l = h :: l' ∧ s.Complete (s.link h) l' ∧ s.changeSets.contains h = true := by
  obtain ⟨hwalk, hall⟩ := hl
  cases l with
  | nil => exact absurd hwalk.of_nil hend
  | cons x l' =>
    obtain ⟨heq, hwalk⟩ := hwalk.of_cons
    cases heq
    exact ⟨l', rfl, ⟨hwalk, fun y hy => hall y (List.mem_cons_of_mem _ hy)⟩,
      hall h List.mem_cons_self⟩

/-- `as_dict_at` ends with the items of a complete walk, or finds an overlay missing. -/
lemma asDictAtLoop_cases {s : StateStorage Key Value} {rank : Hash → ℕ}
    (hrank : Ranked s.link rank) (hfinal : s.finalizedBlockHash ≠ none) :
    ∀ fuel cursor visited acc, visited.Nodup → (∀ v ∈ visited, s.changeSets.contains v = true) →
      (∀ v ∈ visited, ∃ r, Walk s.link (some v) (v :: r) cursor) →
      s.changeSets.entries.length < fuel + visited.length →
      (∃ l, s.Complete cursor l ∧
          s.asDictAtLoop fuel cursor visited acc = .ok (s.collect acc l).1) ∨
        (s.asDictAtLoop fuel cursor visited acc = .error .ancestryUnavailable ∧
          ¬ ∃ l, s.Complete cursor l) := by
  intro fuel
  induction fuel with
  | zero =>
    intro cursor visited acc hnodup hcontains _ hlength
    have hsub : visited ⊆ s.changeSets.keys := fun v hv => Dict.contains_iff.mp (hcontains v hv)
    have hle := (hnodup.subperm hsub).length_le
    rw [Dict.keys, List.length_map] at hle
    omega
  | succ fuel ih =>
    intro cursor visited acc hnodup hcontains hback hlength
    unfold asDictAtLoop
    by_cases hend : cursor = s.finalizedBlockHash
    · rw [if_pos hend]
      exact .inl ⟨[], ⟨hend ▸ .stop _, nofun⟩, rfl⟩
    rw [if_neg hend]
    cases cursor with
    | none =>
      refine .inr ⟨rfl, ?_⟩
      rintro ⟨l, hwalk, -⟩
      exact hend hwalk.of_none.2.symm
    | some h =>
      have hnew : h ∉ visited := by
        intro hv
        obtain ⟨r, hr⟩ := hback h hv
        exact absurd ((hr.rank_lt hrank).2 h rfl) (lt_irrefl _)
      simp only [if_neg hnew]
      cases hchanges : s.changeSets.get? h with
      | none =>
        refine .inr ⟨rfl, ?_⟩
        rintro ⟨l, hl⟩
        obtain ⟨-, -, -, hc⟩ := hl.of_ne_end hend
        rw [Dict.contains, hchanges] at hc
        cases hc
      | some changes =>
        have hoverlay : s.overlayOf h = changes := by rw [overlayOf, hchanges]; rfl
        cases hparent : s.parents.get? h with
        | none =>
          refine .inr ⟨rfl, ?_⟩
          rintro ⟨l, hl⟩
          obtain ⟨l', -, ⟨hwalk, -⟩, -⟩ := hl.of_ne_end hend
          rw [link, hparent] at hwalk
          exact hfinal hwalk.of_none.2
        | some parent =>
          have hlink : s.link h = parent := by rw [link, hparent]; rfl
          have hcontains' : ∀ v ∈ h :: visited, s.changeSets.contains v = true := by
            intro v hv
            rcases List.mem_cons.mp hv with rfl | hv
            · rw [Dict.contains, hchanges]
              rfl
            · exact hcontains v hv
          have hback' : ∀ v ∈ h :: visited, ∃ r, Walk s.link (some v) (v :: r) parent := by
            intro v hv
            rcases List.mem_cons.mp hv with rfl | hv
            · exact ⟨[], .move (hlink ▸ .stop _)⟩
            · obtain ⟨r, hr⟩ := hback v hv
              exact ⟨r ++ [h], hr.append (.move (hlink ▸ .stop _))⟩
          have hlength' : s.changeSets.entries.length < fuel + (h :: visited).length := by
            rw [List.length_cons]
            omega
          rcases ih parent (h :: visited) (applyOverlay acc changes)
            (List.nodup_cons.mpr ⟨hnew, hnodup⟩) hcontains' hback' hlength' with
            ⟨l, ⟨hwalk, hall⟩, hok⟩ | ⟨herr, hno⟩
          · refine .inl ⟨h :: l, ⟨.move (hlink.symm ▸ hwalk), ?_⟩, ?_⟩
            · intro x hx
              rcases List.mem_cons.mp hx with rfl | hx
              · exact hcontains' _ List.mem_cons_self
              · exact hall x hx
            · rw [collect, List.foldl_cons, hoverlay]
              exact hok
          · refine .inr ⟨herr, ?_⟩
            rintro ⟨l, hl⟩
            obtain ⟨l', -, hcomplete, -⟩ := hl.of_ne_end hend
            exact hno ⟨l', hlink ▸ hcomplete⟩

/-- `as_dict_at` of a block with a complete walk. -/
lemma asDictAt_of_complete {s : StateStorage Key Value} {rank : Hash → ℕ}
    (hrank : Ranked s.link rank) (hfinal : s.finalizedBlockHash ≠ none) {b : Hash} (hb : b ≠ 0)
    {l : List Hash} (hcomplete : s.Complete (some b) l) :
    s.asDictAt b = .ok (s.collect (s.storageEngine, []) l).1 := by
  rw [asDictAt, if_neg hb]
  by_cases hend : s.finalizedBlockHash = some b
  · have hnil : l = [] := by
      cases l with
      | nil => rfl
      | cons x l =>
        obtain ⟨hx, -⟩ := hcomplete.1.of_cons
        cases hx
        exact absurd List.mem_cons_self ((hend ▸ hcomplete.1).not_mem_end hrank)
    rw [if_pos hend, hnil]
    rfl
  · have hcontains : s.changeSets.contains b = true := by
      cases l with
      | nil => exact absurd hcomplete.1.of_nil.symm hend
      | cons x l =>
        obtain ⟨hx, -⟩ := hcomplete.1.of_cons
        cases hx
        exact hcomplete.2 b List.mem_cons_self
    rw [if_neg hend, if_neg (by simp [hcontains])]
    rcases asDictAtLoop_cases hrank hfinal (s.changeSets.entries.length + 1) (some b) []
      (s.storageEngine, []) List.nodup_nil nofun nofun (by simp) with ⟨l', hl', hok⟩ | ⟨-, hno⟩
    · rw [hok, hl'.unique hrank hfinal hcomplete]
    · exact absurd ⟨l, hcomplete⟩ hno

/-- `as_dict_at` of a block without one. -/
lemma asDictAt_of_not_complete {s : StateStorage Key Value} {rank : Hash → ℕ}
    (hrank : Ranked s.link rank) (hfinal : s.finalizedBlockHash ≠ none) {b : Hash} (hb : b ≠ 0)
    (hcontains : s.changeSets.contains b = true) (hno : ¬ ∃ l, s.Complete (some b) l) :
    s.asDictAt b = .error .ancestryUnavailable := by
  have hend : s.finalizedBlockHash ≠ some b := fun hend => hno ⟨[], hend ▸ .stop _, nofun⟩
  rw [asDictAt, if_neg hb, if_neg hend, if_neg (by simp [hcontains])]
  rcases asDictAtLoop_cases hrank hfinal (s.changeSets.entries.length + 1) (some b) []
    (s.storageEngine, []) List.nodup_nil nofun nofun (by simp) with ⟨l, hl, -⟩ | ⟨herr, -⟩
  · exact absurd ⟨l, hl⟩ hno
  · exact herr

end StateStorage

end State
