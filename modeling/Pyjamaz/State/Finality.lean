import Pyjamaz.State.Operations

/-!
# Finalization

`finalize` folds the change sets from the target down to the finalized block into the storage engine
and prunes every block that does not descend from the target.  The engine is written in the order of
the blocks while a reader takes the nearest change set first, so both agree by an induction over the
path (`get?_batch`); what is left of a descendant's walk is the part above the target.

`finalization_correct` is about every store that a run reaches.  It leaves out the zero hash, which
stands for the block before genesis and for a candidate without a header: `as_dict_at` refuses it
while `finalize` and `set_block_hash` take it.
-/

namespace State

open Links

/-- Two answers of a reader that hold the same items, or raise the same exception. -/
def SameView {Key Value : Type} [DecidableEq Key] :
    Except StorageError (Dict Key Value) → Except StorageError (Dict Key Value) → Prop
  | .ok items, .ok items' => items.Same items'
  | .error e, .error e' => e = e'
  | _, _ => False

namespace StateStorage

variable {Key Value : Type} [DecidableEq Key]

lemma SameView.refl (view : Except StorageError (Dict Key Value)) : SameView view view := by
  cases view with
  | error e => rfl
  | ok items => exact Dict.Same.refl items

namespace FinalizedTo

variable {s s' : StateStorage Key Value} {t : Hash} {path : List Hash} {rank : Hash → ℕ}

/-- What is retained: the target and the change sets of its descendants. -/
lemma hasStateAt_iff (hto : FinalizedTo s t path s') (h : Hash) :
    s'.hasStateAt h = true ↔
      h = t ∨ s.changeSets.contains h = true ∧ Reaches s.link h t := by
  rw [hasStateAt, Bool.or_eq_true, decide_eq_true_eq, hto.finalized, Option.some_inj, eq_comm]
  refine or_congr_right' ?_
  intro hne
  rw [Dict.contains, Dict.contains]
  by_cases hreach : Reaches s.link h t
  · rw [hto.retained h hne hreach]
    exact (and_iff_left hreach).symm
  · rw [hto.pruned h (.inr hreach)]
    simp [hreach]

/-- The engine holds what the target's view held. -/
lemma same_target (hto : FinalizedTo s t path s') :
    s'.storageEngine.Same (s.collect (s.storageEngine, []) path).1 := by
  intro key
  rw [hto.engine, (s.collect_spec path key).2]

/-- The change sets above the target are found as before. -/
lemma hit_eq (hto : FinalizedTo s t path s') {l : List Hash}
    (hl : ∀ h ∈ l, h ≠ t ∧ Reaches s.link h t) (key : Key) : s'.hit l key = s.hit l key := by
  induction l with
  | nil => rfl
  | cons h l ih =>
    obtain ⟨hne, hreach⟩ := hl h List.mem_cons_self
    have hl' := ih (fun x hx => hl x (List.mem_cons_of_mem _ hx))
    rw [hit, hit] at hl' ⊢
    rw [List.findSome?_cons, List.findSome?_cons, overlayOf, overlayOf, hto.retained h hne hreach,
      hl']

/-- A complete walk from a descendant passes the target; above it nothing has changed. -/
lemma complete_iff (hto : FinalizedTo s t path s') (hrank : Ranked s.link rank) {d : Hash}
    {l : List Hash} :
    s'.Complete (some d) l ↔ s.Complete (some d) (l ++ path) ∧ Walk s.link (some d) l (some t) := by
  have hpath : ∀ {l}, Walk s.link (some d) l (some t) → ∀ h ∈ l, h ≠ t ∧ Reaches s.link h t := by
    intro l hwalk h hh
    obtain ⟨l₁, l₂, rfl, -, h₂⟩ := hwalk.split hh
    refine ⟨?_, h :: l₂, h₂⟩
    rintro rfl
    exact hwalk.not_mem_end hrank (by simp)
  constructor
  · rintro ⟨hwalk, hall⟩
    rw [hto.finalized] at hwalk
    -- the links of a retained block other than the target are those of before
    have hold : Walk s.link (some d) l (some t) := by
      refine hwalk.congr (fun h hh => ?_)
      have hne : h ≠ t := by
        rintro rfl
        have hsome := hall h hh
        rw [Dict.contains, hto.pruned h (.inl rfl)] at hsome
        cases hsome
      have hsome := hall h hh
      rcases hto.link h with hlink | hlink
      · exact hlink.symm
      · by_cases hkeep : Reaches s.link h t
        · rw [Dict.contains, hto.retained h hne hkeep, ← Dict.contains] at hsome
          rw [StateStorage.link, StateStorage.link, hto.retainedLink h hne hkeep hsome]
        · rw [Dict.contains, hto.pruned h (.inr hkeep)] at hsome
          cases hsome
    refine ⟨⟨hold.append hto.complete.1, ?_⟩, hold⟩
    intro h hh
    rcases List.mem_append.mp hh with hh | hh
    · obtain ⟨hne, hkeep⟩ := hpath hold h hh
      have hsome := hall h hh
      rwa [Dict.contains, hto.retained h hne hkeep] at hsome
    · exact hto.complete.2 h hh
  · rintro ⟨⟨-, hall⟩, hwalk⟩
    have hcontains : ∀ h ∈ l, s.changeSets.contains h = true := fun h hh =>
      hall h (List.mem_append_left _ hh)
    refine ⟨?_, fun h hh => ?_⟩
    · rw [hto.finalized]
      refine hwalk.congr (fun h hh => ?_)
      obtain ⟨hne, hkeep⟩ := hpath hwalk h hh
      rw [StateStorage.link, StateStorage.link, hto.retainedLink h hne hkeep (hcontains h hh)]
    · obtain ⟨hne, hkeep⟩ := hpath hwalk h hh
      rw [Dict.contains, hto.retained h hne hkeep]
      exact hcontains h hh

/-- A complete walk from a descendant goes to the target and then along the path. -/
lemma eq_append (hto : FinalizedTo s t path s') (hrank : Ranked s.link rank)
    (hfinal : s.finalizedBlockHash ≠ none) {d : Hash} {l r : List Hash}
    (hwalk : Walk s.link (some d) l (some t)) (hr : s.Complete (some d) r) : r = l ++ path := by
  rcases hwalk.comparable hr.1 with ⟨x, rfl, hx⟩ | ⟨x, rfl, hx⟩
  · have hcomplete : s.Complete (some t) x :=
      ⟨hx, fun h hh => hr.2 h (List.mem_append_right _ hh)⟩
    rw [hcomplete.unique hrank hfinal hto.complete]
  · -- the finalized block would come before the target, so it is the target
    obtain ⟨f, hf⟩ := Option.ne_none_iff_exists'.mp hfinal
    have hpath := hto.complete.1
    rw [hf] at hx hpath
    have hft : f = t := Reaches.antisymm hrank ⟨x, hx⟩ ⟨path, hpath⟩
    subst hft
    have hx' : x = [] := hx.unique (.stop _) (hx.not_mem_end hrank) List.not_mem_nil
    have hpath' : path = [] := hpath.unique (.stop _) (hpath.not_mem_end hrank) List.not_mem_nil
    rw [hx', hpath', List.append_nil, List.append_nil]

/-- The view of a retained block stays as it was. -/
lemma sameView (hto : FinalizedTo s t path s') (hrank : Ranked s.link rank)
    (hfinal : s.finalizedBlockHash ≠ none) {d : Hash} (hd : s'.hasStateAt d = true) :
    SameView (s'.asDictAt d) (s.asDictAt d) := by
  by_cases hzero : d = 0
  · subst hzero
    exact rfl
  have hrank' : Ranked s'.link rank := hrank.mono hto.link
  have hfinal' : s'.finalizedBlockHash ≠ none := by
    rw [hto.finalized]
    exact Option.some_ne_none t
  have hreach : Reaches s.link d t := by
    rcases (hto.hasStateAt_iff d).mp hd with rfl | ⟨-, hreach⟩
    · exact Reaches.refl _ _
    · exact hreach
  obtain ⟨l, hwalk⟩ := hreach
  by_cases hcomplete : s.Complete (some d) (l ++ path)
  · have hcomplete' : s'.Complete (some d) l :=
      (hto.complete_iff hrank).mpr ⟨hcomplete, hwalk⟩
    rw [asDictAt_of_complete hrank' hfinal' hzero hcomplete',
      asDictAt_of_complete hrank hfinal hzero hcomplete]
    intro key
    have hl : ∀ h ∈ l, h ≠ t ∧ Reaches s.link h t := by
      intro h hh
      obtain ⟨l₁, l₂, rfl, -, h₂⟩ := hwalk.split hh
      refine ⟨?_, h :: l₂, h₂⟩
      rintro rfl
      exact hwalk.not_mem_end hrank (by simp)
    rw [(s'.collect_spec l key).2, (s.collect_spec (l ++ path) key).2, hto.engine, hto.hit_eq hl,
      hit_append]
    cases s.hit l key with
    | none => rfl
    | some item => rfl
  · -- without a complete walk before there is none afterwards
    have hno : ¬ ∃ r, s.Complete (some d) r := by
      rintro ⟨r, hr⟩
      exact hcomplete (hto.eq_append hrank hfinal hwalk hr ▸ hr)
    have hno' : ¬ ∃ r, s'.Complete (some d) r := by
      rintro ⟨r, hr⟩
      obtain ⟨hr, -⟩ := (hto.complete_iff hrank).mp hr
      exact hno ⟨_, hr⟩
    have hne : d ≠ t := by
      rintro rfl
      exact hno ⟨path, hto.complete⟩
    have hcontains : s.changeSets.contains d = true :=
      (((hto.hasStateAt_iff d).mp hd).resolve_left hne).1
    have hcontains' : s'.changeSets.contains d = true := by
      rw [Dict.contains, hto.retained d hne ⟨l, hwalk⟩]
      exact hcontains
    rw [asDictAt_of_not_complete hrank' hfinal' hzero hcontains' hno',
      asDictAt_of_not_complete hrank hfinal hzero hcontains hno]
    rfl

end FinalizedTo

/-- The hashes that can be a parent after a finalization. -/
lemma FinalizedTo.reaches_of_parentKnown {s s' : StateStorage Key Value} {t : Hash}
    {path : List Hash} (hto : FinalizedTo s t path s') {p : Hash} (hp : p ≠ 0)
    (hknown : s'.parentKnown p = true) : Reaches s.link p t := by
  rw [parentKnown, hto.finalized] at hknown
  simp only [Bool.or_eq_true, decide_eq_true_eq, hp, or_false, Option.some_inj] at hknown
  rcases hknown with hparent | rfl
  · by_contra hno
    have hne : p ≠ t := by
      rintro rfl
      exact hno (Reaches.refl _ _)
    rw [Dict.contains, hto.prunedLink p hne (fun h => hno h.1)] at hparent
    cases hparent
  · exact Reaches.refl _ _

/-- For every store that a run reaches and every accepted target: the engine holds the items that
the target's view held, the views of the retained blocks stay, what does not descend from the target
can neither be selected nor be a parent, and the selection is kept where it was retained; a
finalization that raises changes nothing. -/
theorem finalization_correct {s : StateStorage Key Value} (hrun : GroundedRun s) {t : Hash}
    (ht : t ≠ 0) :
    (∀ e, s.finalize t = .error e → s.apply (.finalize t) = s) ∧
      ∀ s', s.finalize t = .ok s' →
        (∃ items, s.asDictAt t = .ok items ∧ s'.storageEngine.Same items) ∧
        (∀ d, s.hasStateAt d = true → Reaches s.link d t → s'.hasStateAt d = true) ∧
        (∀ d, s'.hasStateAt d = true → SameView (s'.asDictAt d) (s.asDictAt d)) ∧
        (s.finalizedBlockHash ≠ some t →
          (∀ h, ¬ Reaches s.link h t → s'.selectBlockHash h = .error .stateUnavailable) ∧
          (∀ h, h ≠ 0 → ¬ Reaches s.link h t →
            ∀ b, s'.setBlockHash b h = .error .invalidParentHash) ∧
          s'.blockHash = if s.blockHash.any s'.hasStateAt then s.blockHash else some t) := by
  obtain ⟨⟨rank, hrank⟩, hfinal⟩ := hrun.invariant
  refine ⟨fun e he => by rw [apply, he]; rfl, fun s' hs' => ?_⟩
  rcases finalize_eq_ok hrank hs' with ⟨hsame, rfl⟩ | ⟨hnew, htx, path, hto⟩
  · refine ⟨⟨s'.storageEngine, ?_, Dict.Same.refl _⟩, fun d hd _ => hd, fun d _ => SameView.refl _,
      fun hnew => absurd hsame hnew⟩
    rw [asDictAt, if_neg ht, if_pos hsame]
  · refine ⟨⟨_, asDictAt_of_complete hrank hfinal ht hto.complete, hto.same_target⟩, ?_,
      fun d hd => hto.sameView hrank hfinal hd, fun _ => ⟨?_, ?_, hto.blockHash⟩⟩
    · intro d hd hreach
      rw [hto.hasStateAt_iff]
      rw [hasStateAt, Bool.or_eq_true, decide_eq_true_eq] at hd
      rcases hd with hd | hd
      · -- the finalized block descends from the target only if it is the target
        have hpath := hto.complete.1
        rw [hd] at hpath
        exact .inl (hreach.antisymm hrank ⟨path, hpath⟩)
      · exact .inr ⟨hd, hreach⟩
    · intro h hno
      have hstate : s'.hasStateAt h = false := by
        rw [Bool.eq_false_iff, ne_eq, hto.hasStateAt_iff, not_or]
        refine ⟨?_, fun hh => hno hh.2⟩
        rintro rfl
        exact hno (Reaches.refl _ _)
      rw [selectBlockHash, hto.transaction, if_neg (by simp [htx]), hstate]
      rfl
    · intro h hzero hno b
      have hunknown : s'.parentKnown h = false := by
        rw [Bool.eq_false_iff]
        exact fun hknown => hno (hto.reaches_of_parentKnown hzero hknown)
      rw [setBlockHash, hunknown]
      rfl

/-! ## Sample runs -/

/-- A block that was discarded and restored at once, then written: it has no parent link. -/
def sampleUnlinked : StateStorage ℕ ℕ :=
  applyAll (init ∅) [.setBlockHash 5 0, .discardCandidate 5 (some 5), .put 0 8, .commit]

/-- A block on top of the hash before genesis, next to the finalized one. -/
def sampleRootless : StateStorage ℕ ℕ := applyAll sampleStart [.setBlockHash 2 0]

/-- The finalized block set again, below its own child. -/
def sampleBelowItself : StateStorage ℕ ℕ :=
  applyAll sampleStart [.setBlockHash 2 1, .put 0 8, .commit, .setBlockHash 1 2]

/-- A candidate without a header. -/
def sampleTemporary : StateStorage ℕ ℕ := applyAll sampleStart [.setBlockHash 0 1]

/-- Targets are accepted that have no view; finalizing the finalized block prunes nothing; and a
finalized block that was set below its child is retained with other items. -/
theorem sampleRuns_finalize_otherwise :
    (∃ s', sampleUnlinked.finalize 5 = .ok s' ∧
      sampleUnlinked.asDictAt 5 = .error .ancestryUnavailable) ∧
    (∃ s', sampleTemporary.finalize 0 = .ok s' ∧
      sampleTemporary.asDictAt 0 = .error .invalidStateHash) ∧
    (∃ s' s'', sampleRootless.finalize 1 = .ok s' ∧ s'.selectBlockHash 2 = .ok s'' ∧
      ¬ Reaches sampleRootless.link 2 1) ∧
    (∃ s' items items', sampleBelowItself.finalize 2 = .ok s' ∧ s'.hasStateAt 1 = true ∧
      sampleBelowItself.asDictAt 1 = .ok items ∧ s'.asDictAt 1 = .ok items' ∧
      items.get? 0 = some 7 ∧ items'.get? 0 = some 8) := by
  refine ⟨⟨_, rfl, rfl⟩, ⟨_, rfl, rfl⟩, ⟨_, _, rfl, rfl, ?_⟩, ⟨_, _, _, rfl, rfl, rfl, rfl, rfl, rfl⟩⟩
  intro hreach
  obtain ⟨c, hc, hreach⟩ := hreach.eq_or_next.resolve_left (by decide)
  cases hc
  obtain ⟨c, hc, -⟩ := hreach.eq_or_next.resolve_left (by decide)
  cases hc

/-- Finalizing the child writes its item to the engine. -/
theorem sampleChild_finalized :
    ∃ s', sampleChildStore.finalize 2 = .ok s' ∧
      ∃ items, sampleChildStore.asDictAt 2 = .ok items ∧ s'.storageEngine.Same items := by
  have hstart : GroundedRun sampleStart := by
    refine .start ⟨by decide, ⟨fun _ => 0, ?_⟩, rfl, rfl, rfl⟩
    intro a b hlink
    cases hlink
  have hset : GroundedRun (sampleStart.apply (.setBlockHash 2 1)) := by
    refine .step hstart _ ?_
    rintro b p ⟨⟩ hreach
    obtain ⟨c, hc, -⟩ := hreach.eq_or_next.resolve_left (by decide)
    cases hc
  have hput := GroundedRun.step hset (.put 0 8) (by rintro b p ⟨⟩)
  have hcommit : GroundedRun sampleChildStore := GroundedRun.step hput .commit (by rintro b p ⟨⟩)
  exact ⟨_, rfl, ((finalization_correct hcommit (by decide)).2 _ rfl).1⟩

end StateStorage

end State
