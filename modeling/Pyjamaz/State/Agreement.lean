import Pyjamaz.State.Operations

/-!
# Agreement of the views

Three readers follow the parent links with different ends.  `get` and `as_dict` go on past the
finalized block and skip a block without a change set; `as_dict_at` ends at the finalized block and
raises at a missing change set.  They agree as long as nothing is found past the finalized block,
which needs an invariant over the run: every change set belongs to a descendant of the finalized
block, and the finalized block's own change set is empty.

The descent is meant in a fixed tree of blocks, as a block's hash commits to its parent; the links of
the store are a part of the tree.
-/

namespace State

open Links

/-- A tree of blocks above the zero hash. -/
structure BlockTree where
  parent : Hash → Hash
  height : Hash → ℕ
  height_parent_lt : ∀ h, h ≠ 0 → height (parent h) < height h

namespace BlockTree

/-- The parent of every block but the zero hash. -/
def next (tree : BlockTree) (h : Hash) : Option Hash := if h = 0 then none else some (tree.parent h)

/-- A block and its descendants. -/
def Descends (tree : BlockTree) (h f : Hash) : Prop := Reaches tree.next h f

lemma next_eq (tree : BlockTree) {h : Hash} (hh : h ≠ 0) : tree.next h = some (tree.parent h) :=
  if_neg hh

lemma ranked (tree : BlockTree) : Ranked tree.next tree.height := by
  intro a b hnext
  rw [next] at hnext
  split at hnext
  · cases hnext
  · next ha =>
    cases hnext
    exact tree.height_parent_lt a ha

end BlockTree

namespace StateStorage

variable {Key Value : Type} [DecidableEq Key] {tree : BlockTree}

/-- What an operation keeps to: blocks are set under their parents in the tree, with the parent
retained, and nothing is committed to the finalized block. -/
structure Tidy (tree : BlockTree) (s : StateStorage Key Value) (op : Operation Key Value) :
    Prop where
  link : ∀ b p, op.newLink = some (b, p) → b ≠ 0 ∧ p = tree.parent b
  parent : ∀ b p, op.candidate = some (b, p) → s.hasStateAt p = true
  commit : op = .commit → s.blockHash = s.finalizedBlockHash → s.transaction.entries = []

/-- The links of the store are links of the tree. -/
def LinksIn (tree : BlockTree) (s : StateStorage Key Value) : Prop :=
  ∀ h p, s.link h = some p → tree.next h = some p

/-- A run from a started store of tidy operations. -/
inductive TidyRun (tree : BlockTree) : StateStorage Key Value → Prop
  | start {s : StateStorage Key Value} (h : Started s) (hlinks : LinksIn tree s) : TidyRun tree s
  | step {s : StateStorage Key Value} (hrun : TidyRun tree s) (op : Operation Key Value)
      (htidy : Tidy tree s op) : TidyRun tree (s.apply op)

/-- The invariant of a tidy run. -/
structure Rooted (tree : BlockTree) (s : StateStorage Key Value) (f : Hash) : Prop where
  finalized : s.finalizedBlockHash = some f
  links : LinksIn tree s
  descends : ∀ h, s.changeSets.contains h = true → tree.Descends h f
  unwritten : (s.overlayOf f).entries = []
  selected : ∀ b, s.blockHash = some b → tree.Descends b f

omit [DecidableEq Key] in
lemma LinksIn.ranked {s : StateStorage Key Value} (h : LinksIn tree s) :
    Ranked s.link tree.height := by
  intro a b hlink
  exact tree.ranked a b (h a b hlink)

omit [DecidableEq Key] in
lemma LinksIn.reaches {s : StateStorage Key Value} (h : LinksIn tree s) {a b : Hash}
    (hreach : Reaches s.link a b) : tree.Descends a b := by
  obtain ⟨l, hl⟩ := hreach
  generalize hc : some a = c at hl
  generalize hd : some b = d at hl
  induction hl generalizing a with
  | stop c =>
    cases hc.trans hd.symm
    exact Reaches.refl _ _
  | @move x l d hl ih =>
    cases hc
    cases hlink : s.link x with
    | none =>
      rw [hlink] at hl
      cases hd.trans hl.of_none.2
    | some p =>
      obtain ⟨r, hr⟩ := ih hlink.symm hd
      exact ⟨x :: r, .move (h x p hlink ▸ hr)⟩

omit [DecidableEq Key] in
lemma Rooted.descends_of_hasStateAt {s : StateStorage Key Value} {f : Hash} (h : Rooted tree s f)
    {b : Hash} (hb : s.hasStateAt b = true) : tree.Descends b f := by
  rw [hasStateAt, Bool.or_eq_true, decide_eq_true_eq, h.finalized, Option.some_inj] at hb
  rcases hb with rfl | hb
  · exact Reaches.refl _ _
  · exact h.descends b hb

omit [DecidableEq Key] in
lemma overlayOf_insert (s : StateStorage Key Value) (b h : Hash) (changes : ChangeSet Key Value)
    {s' : StateStorage Key Value} (hs' : s'.changeSets = s.changeSets.insert b changes) :
    s'.overlayOf h = if h = b then changes else s.overlayOf h := by
  rw [overlayOf, hs', Dict.get?_insert]
  by_cases hb : h = b
  · rw [if_pos hb, if_pos hb]
    rfl
  · rw [if_neg hb, if_neg hb]
    rfl

omit [DecidableEq Key] in
lemma overlayOf_erase (s : StateStorage Key Value) (b h : Hash) {s' : StateStorage Key Value}
    (hs' : s'.changeSets = s.changeSets.erase b) :
    s'.overlayOf h = if h = b then ∅ else s.overlayOf h := by
  rw [overlayOf, hs', Dict.get?_erase]
  by_cases hb : h = b
  · rw [if_pos hb, if_pos hb]
    rfl
  · rw [if_neg hb, if_neg hb]
    rfl

omit [DecidableEq Key] in
/-- A change set is put, which is empty if it is that of the finalized block. -/
lemma Rooted.of_insert {s s' : StateStorage Key Value} {f b : Hash} (h : Rooted tree s f)
    {changes : ChangeSet Key Value} (hfinal : s'.finalizedBlockHash = s.finalizedBlockHash)
    (hlinks : LinksIn tree s') (hinsert : s'.changeSets = s.changeSets.insert b changes)
    (hb : tree.Descends b f) (hempty : b = f → changes.entries = [])
    (hselected : ∀ x, s'.blockHash = some x → tree.Descends x f) : Rooted tree s' f := by
  refine ⟨hfinal.trans h.finalized, hlinks, ?_, ?_, hselected⟩
  · intro x hx
    rw [hinsert, Dict.contains_insert, Bool.or_eq_true, decide_eq_true_eq] at hx
    rcases hx with rfl | hx
    · exact hb
    · exact h.descends x hx
  · rw [overlayOf_insert s b f changes hinsert]
    split
    · next hbf => exact hempty hbf.symm
    · exact h.unwritten

omit [DecidableEq Key] in
/-- A change set is dropped. -/
lemma Rooted.of_erase {s s' : StateStorage Key Value} {f b : Hash} (h : Rooted tree s f)
    (hfinal : s'.finalizedBlockHash = s.finalizedBlockHash) (hlinks : LinksIn tree s')
    (herase : s'.changeSets = s.changeSets.erase b)
    (hselected : ∀ x, s'.blockHash = some x → tree.Descends x f) : Rooted tree s' f := by
  refine ⟨hfinal.trans h.finalized, hlinks, ?_, ?_, hselected⟩
  · intro x hx
    rw [herase, Dict.contains_erase, Bool.and_eq_true] at hx
    exact h.descends x hx.2
  · rw [overlayOf_erase s b f herase]
    split
    · rfl
    · exact h.unwritten

/-- One tidy step sets links of the tree alone. -/
lemma LinksIn.step {s s' : StateStorage Key Value} (h : LinksIn tree s) {op : Operation Key Value}
    (htidy : Tidy tree s op) (hchange : Change s op s') : LinksIn tree s' := by
  intro x y hxy
  rcases hchange.link with hless | ⟨b, p, hlink, hb, hother⟩
  · rcases hless x with heq | heq
    · exact h x y (heq ▸ hxy)
    · cases heq.symm.trans hxy
  · by_cases hx : x = b
    · subst hx
      obtain ⟨hne, hp⟩ := htidy.link x p hlink
      cases hb.symm.trans hxy
      rw [tree.next_eq hne, hp]
    · exact h x y (hother x hx ▸ hxy)

/-- A new block is finalized, which only its descendants outlive. -/
lemma Rooted.of_finalized {s s' : StateStorage Key Value} {f t : Hash} {path : List Hash}
    (h : Rooted tree s f) (hlinks : LinksIn tree s') (hto : FinalizedTo s t path s') :
    Rooted tree s' t := by
  have hreach : ∀ x, s'.changeSets.contains x = true → tree.Descends x t := by
    intro x hx
    by_cases hxt : Reaches s.link x t
    · exact h.links.reaches hxt
    · rw [Dict.contains, hto.pruned x (.inr hxt)] at hx
      cases hx
  refine ⟨hto.finalized, hlinks, hreach, ?_, ?_⟩
  · rw [overlayOf, hto.pruned t (.inl rfl)]
    rfl
  · intro x hx
    rw [hto.blockHash] at hx
    split at hx
    · next hany =>
      rw [hx, Option.any_some, hasStateAt, hto.finalized, Bool.or_eq_true, decide_eq_true_eq,
        Option.some_inj] at hany
      rcases hany with rfl | hany
      · exact Reaches.refl _ _
      · exact hreach x hany
    · cases hx
      exact Reaches.refl _ _

/-- One tidy step keeps the invariant. -/
lemma Rooted.step {s s' : StateStorage Key Value} {f : Hash} (h : Rooted tree s f)
    {op : Operation Key Value} (htidy : Tidy tree s op) (hchange : Change s op s') :
    ∃ f', Rooted tree s' f' := by
  have hlinks := h.links.step htidy hchange
  cases hchange with
  | unchanged => exact ⟨f, h⟩
  | set b p ancestors hlink hcandidate =>
    -- the new block is a child of a retained one
    have hb : tree.Descends b f := by
      obtain ⟨hne, hp⟩ := htidy.link b p hlink
      obtain ⟨l, hl⟩ := h.descends_of_hasStateAt (htidy.parent b p hcandidate)
      exact ⟨b :: l, .move (by rw [tree.next_eq hne, ← hp]; exact hl)⟩
    refine ⟨f, h.of_insert rfl hlinks rfl hb (fun _ => rfl) ?_⟩
    intro x hx
    cases hx
    exact hb
  | ancestor a hop => exact ⟨f, h.finalized, hlinks, h.descends, h.unwritten, h.selected⟩
  | select b hstate =>
    refine ⟨f, h.finalized, hlinks, h.descends, h.unwritten, ?_⟩
    intro x hx
    cases hx
    exact h.descends_of_hasStateAt hstate
  | clear => exact ⟨f, h.finalized, hlinks, h.descends, h.unwritten, nofun⟩
  | engine => exact ⟨f, h.finalized, hlinks, h.descends, h.unwritten, h.selected⟩
  | transaction => exact ⟨f, h.finalized, hlinks, h.descends, h.unwritten, h.selected⟩
  | commit b hop hblock =>
    refine ⟨f, h.of_insert rfl hlinks rfl (h.selected b hblock) ?_ h.selected⟩
    rintro rfl
    exact htidy.commit hop (hblock.trans h.finalized.symm)
  | rollback b hblock => exact ⟨f, h.of_erase rfl hlinks rfl h.selected⟩
  | discard b restore hfinal hblock hrestore =>
    exact ⟨f, h.of_erase rfl hlinks rfl
      (fun x hx => h.descends_of_hasStateAt (hrestore x hx))⟩
  | finalize t path hto => exact ⟨t, h.of_finalized hlinks hto⟩

/-- Every store of a tidy run has the invariant. -/
lemma TidyRun.rooted {s : StateStorage Key Value} (hrun : TidyRun tree s) :
    ∃ f, Rooted tree s f := by
  induction hrun with
  | start h hlinks =>
    obtain ⟨f, hf⟩ := Option.ne_none_iff_exists'.mp h.finalized
    refine ⟨f, hf, hlinks, ?_, ?_, ?_⟩
    · intro x hx
      rw [h.changeSets] at hx
      cases hx
    · rw [overlayOf, h.changeSets]
      rfl
    · intro b hb
      rw [h.blockHash] at hb
      cases hb
  | step hrun op htidy ih =>
    obtain ⟨f, h⟩ := ih
    exact h.step htidy (change_apply h.links.ranked op)

/-- Past the finalized block no reader finds anything. -/
lemma Rooted.hit_past {s : StateStorage Key Value} {f : Hash} (h : Rooted tree s f) {r : List Hash}
    {last : Option Hash} (hr : Walk s.link (some f) r last) (key : Key) : s.hit r key = none := by
  rw [hit, List.findSome?_eq_none_iff]
  intro x hx
  cases hcontains : s.changeSets.contains x with
  | false =>
    rw [overlayOf, Dict.get?_eq_none_iff.mpr hcontains]
    rfl
  | true =>
    have hxf : x = f :=
      (h.descends x hcontains).antisymm tree.ranked (h.links.reaches (reaches_of_mem hr hx))
    rw [hxf, Dict.get?, h.unwritten]
    rfl

/-! ## Isolation -/

/-- Two stores that differ only in the change set and the link of one block. -/
structure DifferAt (x : Hash) (s s' : StateStorage Key Value) : Prop where
  engine : s'.storageEngine = s.storageEngine
  finalized : s'.finalizedBlockHash = s.finalizedBlockHash
  changeSets : ∀ h, h ≠ x → s'.changeSets.get? h = s.changeSets.get? h
  parents : ∀ h, h ≠ x → s'.parents.get? h = s.parents.get? h

omit [DecidableEq Key] in
lemma DifferAt.symm {x : Hash} {s s' : StateStorage Key Value} (h : DifferAt x s s') :
    DifferAt x s' s :=
  ⟨h.engine.symm, h.finalized.symm, fun a ha => (h.changeSets a ha).symm,
    fun a ha => (h.parents a ha).symm⟩

omit [DecidableEq Key] in
/-- A walk that does not come to the block is the same in both. -/
lemma DifferAt.complete {x : Hash} {s s' : StateStorage Key Value} (h : DifferAt x s s') {b : Hash}
    (hb : ¬ Reaches s.link b x) {l : List Hash} (hl : s.Complete (some b) l) :
    s'.Complete (some b) l := by
  have hne : ∀ a ∈ l, a ≠ x := by
    rintro a ha rfl
    exact hb (reaches_of_mem hl.1 ha)
  refine ⟨?_, fun a ha => ?_⟩
  · rw [h.finalized]
    exact hl.1.congr (fun a ha => by rw [link, link, h.parents a (hne a ha)])
  · rw [Dict.contains, h.changeSets a (hne a ha)]
    exact hl.2 a ha

omit [DecidableEq Key] in
lemma DifferAt.not_reaches {x : Hash} {s s' : StateStorage Key Value} (h : DifferAt x s s')
    {rank : Hash → ℕ} (hrank : Ranked s'.link rank) {b : Hash} (hb : ¬ Reaches s.link b x) :
    ¬ Reaches s'.link b x := by
  rintro ⟨l, hl⟩
  refine hb ⟨l, hl.congr (fun a ha => ?_)⟩
  have hne : a ≠ x := by
    rintro rfl
    exact hl.not_mem_end hrank ha
  rw [link, link, h.parents a hne]

/-- The view of a block that does not descend from the changed one stays. -/
lemma DifferAt.asDictAt_eq {x : Hash} {s s' : StateStorage Key Value} (h : DifferAt x s s')
    {rank rank' : Hash → ℕ} (hrank : Ranked s.link rank) (hrank' : Ranked s'.link rank')
    (hfinal : s.finalizedBlockHash ≠ none) {b : Hash} (hb : ¬ Reaches s.link b x) :
    s'.asDictAt b = s.asDictAt b := by
  have hbx : b ≠ x := by
    rintro rfl
    exact hb (Reaches.refl _ _)
  have hfinal' : s'.finalizedBlockHash ≠ none := h.finalized ▸ hfinal
  have hcontains : s'.changeSets.contains b = s.changeSets.contains b := by
    rw [Dict.contains, Dict.contains, h.changeSets b hbx]
  by_cases hzero : b = 0
  · rw [asDictAt, asDictAt, if_pos hzero, if_pos hzero]
  by_cases hcomplete : ∃ l, s.Complete (some b) l
  · obtain ⟨l, hl⟩ := hcomplete
    rw [asDictAt_of_complete hrank' hfinal' hzero (h.complete hb hl),
      asDictAt_of_complete hrank hfinal hzero hl, h.engine]
    -- the overlays on the walk are the same
    have hcollect : ∀ acc, s'.collect acc l = s.collect acc l := by
      intro acc
      apply List.foldl_ext
      intro acc a ha
      have hne : a ≠ x := by
        rintro rfl
        exact hb (reaches_of_mem hl.1 ha)
      rw [overlayOf, overlayOf, h.changeSets a hne]
    rw [hcollect]
  · have hno : ¬ ∃ l, s'.Complete (some b) l := by
      rintro ⟨l, hl⟩
      exact hcomplete ⟨l, h.symm.complete (h.not_reaches hrank' hb) hl⟩
    cases hc : s.changeSets.contains b with
    | true =>
      rw [asDictAt_of_not_complete hrank' hfinal' hzero (hcontains.trans hc) hno,
        asDictAt_of_not_complete hrank hfinal hzero hc hcomplete]
    | false =>
      have hend : s.finalizedBlockHash ≠ some b := fun hend =>
        hcomplete ⟨[], hend ▸ .stop _, fun h hmem => by cases hmem⟩
      rw [asDictAt, asDictAt, h.finalized, hcontains, hc, if_neg hend, if_neg hzero, if_neg hzero,
        if_pos rfl, if_neg hend, if_pos rfl]

omit [DecidableEq Key] in
lemma differAt_commit {s s' : StateStorage Key Value} {x : Hash} (hx : s.blockHash = some x)
    (h : s.commit = .ok s') : DifferAt x s s' ∧ s'.parents = s.parents := by
  rcases commit_eq_ok h with ⟨hnone, -⟩ | ⟨y, hy, -, rfl⟩
  · cases hnone.symm.trans hx
  · cases hy.symm.trans hx
    exact ⟨⟨rfl, rfl, fun h hh => Dict.get?_insert_of_ne _ hh _, fun h hh => rfl⟩, rfl⟩

omit [DecidableEq Key] in
lemma differAt_rollback {s : StateStorage Key Value} {x : Hash} (hx : s.blockHash = some x) :
    DifferAt x s s.rollback ∧ s.rollback.parents = s.parents := by
  have hrollback : s.rollback = { s with changeSets := s.changeSets.erase x, transaction := ∅ } := by
    simp only [rollback, hx]
  rw [hrollback]
  refine ⟨⟨rfl, rfl, fun h hh => ?_, fun h hh => rfl⟩, rfl⟩
  rw [Dict.get?_erase, if_neg hh]

omit [DecidableEq Key] in
lemma differAt_discardCandidate {s s' : StateStorage Key Value} {x : Hash} {restore : Option Hash}
    (h : s.discardCandidate x restore = .ok s') :
    DifferAt x s s' ∧ ∀ h, s'.link h = s.link h ∨ s'.link h = none := by
  obtain ⟨-, -, -, rfl⟩ := discardCandidate_eq_ok h
  refine ⟨⟨rfl, rfl, fun h hh => ?_, fun h hh => ?_⟩, fun h => ?_⟩
  · rw [Dict.get?_erase, if_neg hh]
  · rw [Dict.get?_erase, if_neg hh]
  · simp only [link, Dict.get?_erase]
    by_cases hh : h = x
    · exact .inr (by rw [if_pos hh]; rfl)
    · exact .inl (by rw [if_neg hh])

/-- Over every tidy run: at a selected block `get` reads the items of `as_dict`; these are the items
of `as_dict_at` where the change sets down to the finalized block are retained; and changing the
overlay of a block leaves the views of the blocks that do not descend from it. -/
theorem views_agree {s : StateStorage Key Value} (hrun : TidyRun tree s) :
    (∀ b s', b ≠ 0 → s.selectBlockHash b = .ok s' →
      ∃ items, s'.asDict = .ok items ∧ (∀ key, s'.get key false = .ok (items.get? key)) ∧
        ((∃ l, s.Complete (some b) l) →
          ∃ items', s'.asDictAt b = .ok items' ∧ items.Same items')) ∧
    ∀ x b, s.blockHash = some x → ¬ Reaches s.link b x →
      (∀ s', s.commit = .ok s' → s'.asDictAt b = s.asDictAt b) ∧
      s.rollback.asDictAt b = s.asDictAt b ∧
      (∀ restore s', s.discardCandidate x restore = .ok s' → s'.asDictAt b = s.asDictAt b) := by
  obtain ⟨f, hrooted⟩ := hrun.rooted
  have hrank : Ranked s.link tree.height := hrooted.links.ranked
  have hfinal : s.finalizedBlockHash ≠ none := by
    rw [hrooted.finalized]
    exact Option.some_ne_none f
  refine ⟨fun b s' hb hselect => ?_, fun x b hx hreach => ⟨fun s' hcommit => ?_, ?_, ?_⟩⟩
  · obtain ⟨htx, -, rfl⟩ := selectBlockHash_eq_ok hselect
    obtain ⟨l, hl⟩ := exists_walk_none hrank (some b)
    refine ⟨_, asDict_of_walk (s := { s with blockHash := some b }) hrank htx hl, fun key => ?_, ?_⟩
    · rw [get_of_walk (s := { s with blockHash := some b }) hrank htx rfl hl,
        (collect_spec _ l key).2]
    · rintro ⟨r, hr⟩
      refine ⟨_, asDictAt_of_complete (s := { s with blockHash := some b }) hrank hfinal hb hr,
        fun key => ?_⟩
      -- the walk to the end goes on from the finalized block, where nothing is found
      obtain ⟨p, rfl, hp⟩ : ∃ p, l = r ++ p ∧ Walk s.link (some f) p none := by
        have hwalk := hr.1
        rw [hrooted.finalized] at hwalk
        rcases hwalk.comparable hl with ⟨p, hlp, hp⟩ | ⟨p, -, hp⟩
        · exact ⟨p, hlp, hp⟩
        · cases hp.of_none.2
      have hpast : s.hit p key = none := hrooted.hit_past hp key
      rw [(collect_spec _ _ key).2, (collect_spec _ _ key).2]
      change (s.hit (r ++ p) key).getD _ = (s.hit r key).getD _
      rw [hit_append, hpast, Option.or_none]
  · obtain ⟨hdiffer, hparents⟩ := differAt_commit hx hcommit
    have hrank' : Ranked s'.link tree.height :=
      hrank.mono (fun h => .inl (by rw [link, link, hparents]))
    exact hdiffer.asDictAt_eq hrank hrank' hfinal hreach
  · obtain ⟨hdiffer, hparents⟩ := differAt_rollback hx
    have hrank' : Ranked s.rollback.link tree.height :=
      hrank.mono (fun h => .inl (by rw [link, link, hparents]))
    exact hdiffer.asDictAt_eq hrank hrank' hfinal hreach
  · intro restore s' hdiscard
    obtain ⟨hdiffer, hless⟩ := differAt_discardCandidate hdiscard
    exact hdiffer.asDictAt_eq hrank (hrank.mono hless) hfinal hreach

/-! ## Sample runs -/

/-- A child whose parent was rolled back afterwards. -/
def sampleRolledBack : StateStorage ℕ ℕ :=
  applyAll sampleStart [.setBlockHash 2 1, .put 0 8, .commit, .setBlockHash 3 2, .put 1 9, .commit,
    .selectBlockHash 2, .rollback]

/-- The finalized block, written to. -/
def sampleFinalizedWritten : StateStorage ℕ ℕ :=
  applyAll sampleStart [.selectBlockHash 1, .put 0 8, .commit]

/-- Where the parent's overlay is gone `as_dict` reads past it and `as_dict_at` raises; and what was
committed to the finalized block is in one of the two views only. -/
theorem sampleRuns_views_differ :
    (∃ s' items, sampleRolledBack.selectBlockHash 3 = .ok s' ∧ s'.asDict = .ok items ∧
      s'.asDictAt 3 = .error .ancestryUnavailable) ∧
    (∃ s' items items', sampleFinalizedWritten.selectBlockHash 1 = .ok s' ∧ s'.asDict = .ok items ∧
      s'.asDictAt 1 = .ok items' ∧ items.get? 0 = some 8 ∧ items'.get? 0 = some 7) :=
  ⟨⟨_, _, rfl, rfl, rfl⟩, ⟨_, _, _, rfl, rfl, rfl, rfl, rfl⟩⟩

/-- The tree in which every hash is the child of the one before. -/
def sampleTree : BlockTree where
  parent h := h - 1
  height h := h.toNat
  height_parent_lt := by
    intro h hh
    have hpos : 0 < h.toNat := by
      rw [Nat.pos_iff_ne_zero]
      intro hzero
      exact hh (BitVec.eq_of_toNat_eq hzero)
    bv_omega

/-- The views of a committed child agree. -/
theorem sampleChild_views_agree :
    ∃ s' items items', sampleChildStore.selectBlockHash 2 = .ok s' ∧ s'.asDict = .ok items ∧
      (∀ key, s'.get key false = .ok (items.get? key)) ∧ s'.asDictAt 2 = .ok items' ∧
      items.Same items' := by
  have hstart : TidyRun sampleTree sampleStart := by
    refine .start ⟨by decide, ⟨fun _ => 0, ?_⟩, rfl, rfl, rfl⟩ ?_
    · intro a b hlink
      cases hlink
    · intro a b hlink
      cases hlink
  have hset : TidyRun sampleTree (sampleStart.apply (.setBlockHash 2 1)) := by
    refine .step hstart _ ⟨?_, ?_, nofun⟩
    · rintro b p ⟨⟩
      exact ⟨by decide, rfl⟩
    · rintro b p ⟨⟩
      rfl
  have hput := TidyRun.step hset (.put 0 8) ⟨by rintro b p ⟨⟩, by rintro b p ⟨⟩, nofun⟩
  have hcommit : TidyRun sampleTree sampleChildStore :=
    TidyRun.step hput .commit ⟨by rintro b p ⟨⟩, by rintro b p ⟨⟩, fun _ h => by cases h⟩
  obtain ⟨items, hitems, hget, hat⟩ := (views_agree hcommit).1 2 _ (by decide) rfl
  have hcomplete : sampleChildStore.Complete (some 2) [2] := by
    refine ⟨.move (.stop _), fun h hh => ?_⟩
    cases List.mem_singleton.mp hh
    rfl
  obtain ⟨items', hitems', hsame⟩ := hat ⟨_, hcomplete⟩
  exact ⟨_, items, items', rfl, hitems, hget, hitems', hsame⟩

end StateStorage

end State
