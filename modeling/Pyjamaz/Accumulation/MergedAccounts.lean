import Pyjamaz.Accumulation.MergedViews

/-!
# The accounts after a round

The account of a service after a round is told by a single output, whatever else is in the outputs: by
one that has removed it, by that of the service itself, or by that of its creator; and if there is none
of these, it is the account from before the round.  Storage items, preimages and requests play no part
in it, so nothing is asked of them (`finishRound_account`).
-/

namespace Accumulation

open Services Octets

variable {coreCount : ℕ}

/-! ## Steps that leave the accounts alone -/

/-- The accounts are the same, in the store and pending. -/
structure SameAccounts (st st' : ServicesState) : Prop where
  pending : st'.pendingChanges.serviceAccounts = st.pendingChanges.serviceAccounts
  stored : ∀ s, st'.stateStorage.read (.serviceAccount s) = st.stateStorage.read (.serviceAccount s)

section SameAccounts

variable {P : Primitives} {timeslot : ℕ} {st st' st'' : ServicesState}

lemma SameAccounts.refl (st : ServicesState) : SameAccounts st st := ⟨rfl, fun _ => rfl⟩

lemma SameAccounts.trans (h : SameAccounts st st') (h' : SameAccounts st' st'') :
    SameAccounts st st'' :=
  ⟨h'.pending.trans h.pending, fun s => (h'.stored s).trans (h.stored s)⟩

lemma SameAccounts.retrieve_eq (h : SameAccounts st st') (s : ℕ) :
    st'.retrieveServiceAccount s = st.retrieveServiceAccount s := by
  simp only [ServicesState.retrieveServiceAccount, Store.serviceAccount_eq, h.pending, h.stored]

/-- A write of a value of a service. -/
lemma sameAccounts_write {w : StoreWrite} {s : ℕ} {value : Octets} (hkey : w.1 = .serviceValue s value)
    {pending : PendingChanges}
    (hpending : pending.serviceAccounts = st.pendingChanges.serviceAccounts) :
    SameAccounts st ⟨Store.write st.stateStorage w, pending, st.services⟩ := by
  refine ⟨hpending, fun t => ?_⟩
  rw [Store.read_write, if_neg]
  rw [hkey]
  exact nofun

lemma sameAccounts_foldlM {E : Type} {f : ServicesState → E → Except AccumulationError ServicesState}
    (hstep : ∀ st e st', f st e = .ok st' → SameAccounts st st') {entries : List E} :
    ∀ {st st' : ServicesState}, entries.foldlM f st = .ok st' → SameAccounts st st' := by
  induction entries with
  | nil =>
    intro st st' h
    cases h
    exact .refl st
  | cons e rest ih =>
    intro st st' h
    rw [List.foldlM_cons] at h
    obtain ⟨st₁, hfirst, h⟩ := Except.bind_eq_ok.mp h
    exact (hstep st e st₁ hfirst).trans (ih h)

lemma storePreimage_sameAccounts {s : ℕ} {blob : Octets}
    (h : st.storePreimage P s blob true = .ok st') : SameAccounts st st' := by
  obtain ⟨w, hw, rfl⟩ := storePreimage_eq_ok h
  exact sameAccounts_write hw.2.1 rfl

/-- The key of a history is a key of a value. -/
lemma storePreimageAvailability_sameAccounts {s z : ℕ} {preimageHash : Octets32} {value : List ℕ}
    (h : st.storePreimageAvailability P s preimageHash z value true = .ok st') :
    SameAccounts st st' := by
  rw [ServicesState.storePreimageAvailability] at h
  obtain ⟨stateKey, hkey, h⟩ := Except.bind_eq_ok.mp h
  obtain ⟨-, rfl⟩ := preimageAvailability_key_eq_ok hkey
  simp only [if_true] at h
  split at h
  · next data hdata =>
    cases h
    rw [ServicesState.writeStorage_eq]
    exact sameAccounts_write rfl rfl
  · cases h

lemma deletePreimageAvailability_sameAccounts {s z : ℕ} {preimageHash : Octets32}
    (h : st.deletePreimageAvailability s preimageHash z true = .ok st') : SameAccounts st st' := by
  rw [ServicesState.deletePreimageAvailability] at h
  obtain ⟨stateKey, hkey, h⟩ := Except.bind_eq_ok.mp h
  obtain ⟨-, rfl⟩ := preimageAvailability_key_eq_ok hkey
  rw [if_pos rfl] at h
  cases h
  rw [ServicesState.writeStorage_eq]
  exact sameAccounts_write rfl rfl

lemma commitStorageItems_sameAccounts (h : commitStorageItems st = .ok st') : SameAccounts st st' := by
  refine sameAccounts_foldlM ?_ h
  rintro st ⟨key, value⟩ st' hstep
  have hstep := liftServices_eq_ok hstep
  cases value with
  | none =>
    obtain ⟨w, hw, rfl⟩ := deleteStorageItem_eq_ok hstep
    exact sameAccounts_write hw.2.1 rfl
  | some value =>
    obtain ⟨w, hw, rfl⟩ := storeStorageItem_eq_ok hstep
    exact sameAccounts_write hw.2.1 rfl

lemma commitPreimages_sameAccounts (h : commitPreimages P st = .ok st') : SameAccounts st st' := by
  refine sameAccounts_foldlM ?_ h
  intro st key st' hstep
  rw [commitPreimage] at hstep
  split at hstep
  · obtain ⟨w, hw, rfl⟩ := deletePreimage_eq_ok (liftServices_eq_ok hstep)
    exact sameAccounts_write hw.2.1 rfl
  · obtain ⟨st₁, hstore, hstep⟩ := Except.bind_eq_ok.mp hstep
    split at hstep
    · cases hstep
    · cases hstep
      exact storePreimage_sameAccounts (liftServices_eq_ok hstore)

lemma commitPreimagesAvailability_sameAccounts (h : commitPreimagesAvailability P st = .ok st') :
    SameAccounts st st' := by
  refine sameAccounts_foldlM ?_ h
  rintro st ⟨key, value⟩ st' hstep
  have hstep := liftServices_eq_ok hstep
  cases value with
  | none => exact deletePreimageAvailability_sameAccounts hstep
  | some value => exact storePreimageAvailability_sameAccounts hstep

lemma integrateProvisions_sameAccounts {outputs : Outputs coreCount}
    (h : integrateProvisions P timeslot outputs st = .ok st') : SameAccounts st st' := by
  refine sameAccounts_foldlM ?_ h
  rintro st ⟨s, blob⟩ st' hstep
  rw [integrateProvision, Except.bind_eq_ok] at hstep
  obtain ⟨known, -, hstep⟩ := hstep
  cases known with
  | false =>
    cases hstep
    exact .refl st
  | true =>
    simp only [Bool.not_true, Bool.false_eq_true, if_false] at hstep
    split at hstep
    · cases hstep
      exact .refl st
    · cases hstep
    · split at hstep
      · obtain ⟨st₁, h₁, hstep⟩ := Except.bind_eq_ok.mp hstep
        have hheld : SameAccounts st { st with services := insert s st.services } :=
          ⟨rfl, fun _ => rfl⟩
        exact (hheld.trans (storePreimageAvailability_sameAccounts (liftServices_eq_ok h₁))).trans
          (storePreimage_sameAccounts (liftServices_eq_ok hstep))
      · cases hstep
        exact .refl st

/-- The accounts are written as they are pending. -/
lemma commitServiceAccounts_retrieve (h : commitServiceAccounts st = .ok st') (s : ℕ) :
    st'.retrieveServiceAccount s = st.retrieveServiceAccount s := by
  obtain ⟨writes, rfl, hwrites⟩ := commitServiceAccounts_eq_ok h
  have hread : accountKind.read ⟨Store.writeAll st.stateStorage writes, st.pendingChanges, st.services⟩ s =
      accountKind.read ⟨st.stateStorage, st.pendingChanges, st.services⟩ s := by
    refine read_writeAll (fun hnone storage => ItemKind.stored_writeAll_of_ne ?_ storage) _
    intro w hw hkey
    obtain ⟨⟨t, v⟩, hmem, hwrite⟩ := (exists_write_of_mem hwrites).2 w hw
    obtain rfl := hwrite.eq_of_key trivial hkey
    cases hnone.symm.trans (Dict.mem_entries_iff.mp hmem)
  rw [retrieveServiceAccount_eq_read, retrieveServiceAccount_eq_read, hread]

/-- After a round the accounts are those of the merged changes. -/
lemma finishRound_retrieve {state : AccumulationStateComponents coreCount}
    {outputs : Outputs coreCount} {out : ParallelAccumulationOutput coreCount}
    (h : finishRound P timeslot state outputs = .ok out) :
    ∃ merged, mergeAccumulationServiceChanges state.services outputs = .ok merged ∧
      ∀ s, out.accumulationState.services.retrieveServiceAccount s =
        ServicesState.retrieveServiceAccount ⟨state.services.stateStorage, merged,
          state.services.services⟩ s := by
  obtain ⟨merged, committed, provided, services, hmerge, hcommit, hprovide, rfl⟩ :=
    finishRound_eq_ok h
  refine ⟨merged, hmerge, fun s => ?_⟩
  rw [commitChanges, Except.bind_eq_ok] at hcommit
  obtain ⟨st₁, h₁, hcommit⟩ := hcommit
  obtain ⟨st₂, h₂, hcommit⟩ := Except.bind_eq_ok.mp hcommit
  obtain ⟨st₃, h₃, hcommit⟩ := Except.bind_eq_ok.mp hcommit
  have hsame := (((commitStorageItems_sameAccounts h₂).trans (commitPreimages_sameAccounts h₃)).trans
    (commitPreimagesAvailability_sameAccounts hcommit)).trans
      (integrateProvisions_sameAccounts hprovide)
  exact (hsame.retrieve_eq s).trans (commitServiceAccounts_retrieve h₁ s)

end SameAccounts

/-! ## Whose account it is -/

/-- The services have an account for an id. -/
def HasAccount (services : ServicesState) (s : ℕ) : Prop :=
  ∃ account, services.retrieveServiceAccount s = .ok account

/-- An output removes the account of a service. -/
def Removes (o : PvmAccumulateOutput coreCount) (s : ℕ) : Prop :=
  o.pending.serviceAccounts.get? s = some none

/-- An output has a record of the account of a service. -/
def Stores (o : PvmAccumulateOutput coreCount) (s : ℕ) : Prop :=
  ∃ account, o.pending.serviceAccounts.get? s = some (some account)

/-- A service that exists is removed by one of the outputs. -/
def Ejected (services : ServicesState) (outputs : Outputs coreCount) (s : ℕ) : Prop :=
  HasAccount services s ∧ ∃ p ∈ outputs, Removes p.2 s

/-- The output of a service itself, or of the one that creates its account. -/
def Tells (services : ServicesState) (p : ℕ × PvmAccumulateOutput coreCount) (s : ℕ) : Prop :=
  (p.1 = s ∧ HasAccount services s) ∨ (¬ HasAccount services s ∧ Stores p.2 s)

/-- Where the account of a service after a round comes from. -/
inductive AccountAfter (services : ServicesState) (outputs : Outputs coreCount) (s : ℕ) :
    Except ServiceError ServiceAccount → Prop
  | ejected (h : Ejected services outputs s) :
      AccountAfter services outputs s (.error .noResult)
  | told {p : ℕ × PvmAccumulateOutput coreCount} (hp : p ∈ outputs)
      (hkept : ¬ Ejected services outputs s) (htells : Tells services p s)
      (honly : ∀ q ∈ outputs, Tells services q s → q.1 = p.1) :
      AccountAfter services outputs s (p.2.stateContext.services.retrieveServiceAccount s)
  | same (hkept : ¬ Ejected services outputs s) (huntold : ∀ p ∈ outputs, ¬ Tells services p s) :
      AccountAfter services outputs s (services.retrieveServiceAccount s)

section Sources

variable {services : ServicesState} {existing : List ℕ} {outputs : Outputs coreCount} {s : ℕ}

lemma hasAccount_iff : HasAccount services s ↔ services.serviceExists s = .ok true := by
  rw [HasAccount, ServicesState.serviceExists]
  constructor
  · rintro ⟨account, haccount⟩
    rw [haccount]
  · intro h
    split at h
    · next account haccount => exact ⟨account, haccount⟩
    · cases h
    · cases h

/-- An id that some output has a change for is a candidate. -/
lemma mem_candidates {p : ℕ × PvmAccumulateOutput coreCount} (hp : p ∈ outputs)
    {change : Option ServiceAccount} (hget : p.2.pending.serviceAccounts.get? s = some change) :
    s ∈ candidates outputs := by
  refine mem_sortedSet.mpr (List.mem_flatMap.mpr ⟨p, hp, ?_⟩)
  simp only [mentioned, List.mem_append]
  exact .inl (.inl (.inl (List.mem_map.mpr ⟨(s, change), Dict.mem_entries_iff.mpr hget, rfl⟩)))

/-- Among the ids that the outputs change, those that exist are those with an account. -/
lemma mem_existing_iff (hexisting : existingServices services outputs = .ok existing)
    {p : ℕ × PvmAccumulateOutput coreCount} (hp : p ∈ outputs) {change : Option ServiceAccount}
    (hget : p.2.pending.serviceAccounts.get? s = some change) :
    s ∈ existing ↔ HasAccount services s := by
  rw [mem_existingAmong hexisting, hasAccount_iff]
  exact and_iff_right (mem_candidates hp hget)

lemma hasAccount_of_mem_existing (hexisting : existingServices services outputs = .ok existing)
    (hs : s ∈ existing) : HasAccount services s :=
  hasAccount_iff.mpr ((mem_existingAmong hexisting s).mp hs).2

lemma mem_deletedServices_iff (hexisting : existingServices services outputs = .ok existing) :
    s ∈ deletedServices existing outputs ↔ Ejected services outputs s := by
  rw [mem_deletedServices]
  constructor
  · rintro ⟨hs, hremoved⟩
    exact ⟨hasAccount_of_mem_existing hexisting hs, hremoved⟩
  · rintro ⟨haccount, p, hp, hget⟩
    exact ⟨(mem_existing_iff hexisting hp hget).mpr haccount, p, hp, hget⟩

lemma stores_iff {o : PvmAccumulateOutput coreCount} :
    Stores o s ↔ (o.pending.serviceAccounts.get? s).join ≠ none := by
  rw [Option.ne_none_iff_exists', Stores]
  constructor
  · rintro ⟨account, hget⟩
    exact ⟨account, by rw [hget]; rfl⟩
  · rintro ⟨account, hjoin⟩
    exact ⟨account, Option.join_eq_some_iff.mp hjoin⟩

/-- What the merge selects tells about the account. -/
lemma Selected.tells (hexisting : existingServices services outputs = .ok existing)
    {o : PvmAccumulateOutput coreCount} (h : Selected existing outputs s o) :
    ∃ p ∈ outputs, p.2 = o ∧ Tells services p s := by
  obtain ⟨-, w, ho, ⟨rfl, hs⟩ | ⟨hs, hjoin⟩⟩ := h
  · exact ⟨(s, o), ho, rfl, .inl ⟨rfl, hasAccount_of_mem_existing hexisting hs⟩⟩
  · obtain ⟨account, hget⟩ := stores_iff.mpr hjoin
    refine ⟨(w, o), ho, rfl, .inr ⟨fun haccount => hs ?_, account, hget⟩⟩
    exact (mem_existing_iff hexisting ho hget).mpr haccount

/-- What tells about the account is selected by the merge, unless it says nothing. -/
lemma selected_of_tells (hexisting : existingServices services outputs = .ok existing)
    {p : ℕ × PvmAccumulateOutput coreCount} (hp : p ∈ outputs)
    (hkept : ¬ Ejected services outputs s) (h : Tells services p s) :
    Selected existing outputs s p.2 ∨ (s ∉ candidates outputs ∧ HasAccount services s) := by
  have hkept' : s ∉ deletedServices existing outputs :=
    fun hdel => hkept ((mem_deletedServices_iff hexisting).mp hdel)
  rcases h with ⟨rfl, haccount⟩ | ⟨hnone, hstores⟩
  · by_cases hcandidate : p.1 ∈ candidates outputs
    · refine .inl ⟨hkept', p.1, hp, .inl ⟨rfl, ?_⟩⟩
      exact (mem_existingAmong hexisting _).mpr ⟨hcandidate, hasAccount_iff.mp haccount⟩
    · exact .inr ⟨hcandidate, haccount⟩
  · obtain ⟨account, hget⟩ := hstores
    refine .inl ⟨hkept', p.1, hp, .inr ⟨fun hs => hnone ?_, stores_iff.mp ⟨account, hget⟩⟩⟩
    exact hasAccount_of_mem_existing hexisting hs

/-- At most one output tells about a service. -/
lemma Tells.writer_unique (hexisting : existingServices services outputs = .ok existing)
    (hconf : ¬ Conflicting existing (accountEntries outputs))
    {p q : ℕ × PvmAccumulateOutput coreCount} (hp : p ∈ outputs) (hq : q ∈ outputs)
    (h : Tells services p s) (h' : Tells services q s) : q.1 = p.1 := by
  rcases h with ⟨rfl, haccount⟩ | ⟨hnone, hstores⟩
  · rcases h' with ⟨hown, -⟩ | ⟨hnone, -⟩
    · exact hown
    · exact absurd haccount hnone
  · rcases h' with ⟨-, haccount⟩ | ⟨-, hstores'⟩
    · exact absurd haccount hnone
    · have hs : s ∉ existing := fun hs => hnone (hasAccount_of_mem_existing hexisting hs)
      exact creator_unique hconf hq hp hs (stores_iff.mp hstores') (stores_iff.mp hstores)

/-- The account of a service after a round. -/
lemma finishRound_account {P : Primitives} {timeslot : ℕ}
    {state : AccumulationStateComponents coreCount} {out : ParallelAccumulationOutput coreCount}
    (hcoherent : Coherent P state.services) (hnodup : (outputs.map Prod.fst).Nodup)
    (hstorage : ∀ p ∈ outputs, p.2.stateContext.services.stateStorage = state.services.stateStorage)
    (h : finishRound P timeslot state outputs = .ok out) (s : ℕ) :
    AccountAfter state.services outputs s
      (out.accumulationState.services.retrieveServiceAccount s) := by
  obtain ⟨merged, hmerge, hafter⟩ := finishRound_retrieve h
  obtain ⟨existing, hexisting, hconf, rfl⟩ := merge_eq_ok hmerge
  have hfresh : state.services.retrieveServiceAccount s =
      state.services.fresh.retrieveServiceAccount s := hcoherent.sameReads_fresh.account s
  rw [hafter]
  by_cases hejected : Ejected state.services outputs s
  · have hget := get?_mergedAccounts_of_deleted hnodup hconf
      ((mem_deletedServices_iff hexisting).mpr hejected)
    have hgone : ServicesState.retrieveServiceAccount ⟨state.services.stateStorage,
        mergedChanges existing outputs, state.services.services⟩ s = .error .noResult := by
      rw [ServicesState.retrieveServiceAccount, hget]
      exact ite_self _
    rw [hgone]
    exact .ejected hejected
  · have hkept : s ∉ deletedServices existing outputs :=
      fun hdel => hejected ((mem_deletedServices_iff hexisting).mp hdel)
    -- what is selected is what the merged changes answer
    have hselected : ∀ {o : PvmAccumulateOutput coreCount}, Selected existing outputs s o →
        o.stateContext.services.stateStorage = state.services.stateStorage →
          ServicesState.retrieveServiceAccount ⟨state.services.stateStorage,
            mergedChanges existing outputs, state.services.services⟩ s = o.stateContext.services.retrieveServiceAccount s := by
      intro o hselected hsame
      simp only [ServicesState.retrieveServiceAccount,
        get?_mergedAccounts_of_selected hnodup hconf hselected, hsame]
      rfl
    by_cases htold : ∃ p ∈ outputs, Tells state.services p s
    · obtain ⟨p, hp, htells⟩ := htold
      have hanswer : ServicesState.retrieveServiceAccount ⟨state.services.stateStorage,
          mergedChanges existing outputs, state.services.services⟩ s = p.2.stateContext.services.retrieveServiceAccount s := by
        rcases selected_of_tells hexisting hp hejected htells with hsel | ⟨hcandidate, -⟩
        · exact hselected hsel (hstorage p hp)
        -- no output says anything about the account
        · have hunselected : ∀ o, ¬ Selected existing outputs s o := by
            rintro o ⟨-, w, ho, ⟨-, hs⟩ | ⟨-, hjoin⟩⟩
            · exact hcandidate ((mem_existingAmong hexisting s).mp hs).1
            · obtain ⟨account, hget⟩ := stores_iff.mpr hjoin
              exact hcandidate (mem_candidates ho hget)
          have hpending : p.2.stateContext.services.pendingChanges.serviceAccounts.get? s = none := by
            rw [Option.eq_none_iff_forall_ne_some]
            exact fun change hget => hcandidate (mem_candidates hp hget)
          simp only [ServicesState.retrieveServiceAccount, hpending, hstorage p hp,
            get?_mergedAccounts_of_unselected hkept hunselected]
      rw [hanswer]
      exact .told hp hejected htells (fun q hq h' => htells.writer_unique hexisting hconf hp hq h')
    · have huntold : ∀ o, ¬ Selected existing outputs s o := by
        intro o hsel
        obtain ⟨p, hp, -, htells⟩ := hsel.tells hexisting
        exact htold ⟨p, hp, htells⟩
      have hanswer : ServicesState.retrieveServiceAccount ⟨state.services.stateStorage,
          mergedChanges existing outputs, state.services.services⟩ s = state.services.retrieveServiceAccount s := by
        rw [hfresh]
        simp only [ServicesState.retrieveServiceAccount,
          get?_mergedAccounts_of_unselected hkept huntold]
        rfl
      rw [hanswer]
      exact .same hejected (fun p hp htells => htold ⟨p, hp, htells⟩)

end Sources

end Accumulation
