import Pyjamaz.Accumulation.Preimages

/-!
# Whose changes the merge keeps

What the merge says about one service comes from a single output: that of the service itself or, for a
new account, that of its creator.  If an output has removed the service, all that the outputs say
about it becomes deletions.

So after the merge every service looks as before the round or as one of the outputs left it.  A
removed one looks as it does to the output that removed it, as long as that output has left nothing of
it; what others say about it does not matter.  `finishRound_changes` carries this through the commit
and the provisions.
-/

namespace Accumulation

open Services Octets

variable {coreCount : ℕ}

section Sources

variable {existing : List ℕ} {outputs : Outputs coreCount} {s : ℕ}
  {o : PvmAccumulateOutput coreCount}

/-! ## The merged maps -/

section Maps

variable {K V : Type} [DecidableEq K] {owner : K → ℕ} {map : PendingChanges → Dict K (Option V)}

lemma get?_mapWritesOf_of_selected (hnodup : (outputs.map Prod.fst).Nodup)
    (hconf : ¬ Conflicting existing (accountEntries outputs)) {key : K}
    (h : Selected existing outputs (owner key) o) :
    (Dict.assign ∅ (mapWritesOf owner existing map outputs)).get? key = (map o.pending).get? key := by
  apply Option.ext
  intro v
  constructor
  · intro hget
    rcases mem_mapWritesOf (Dict.mem_of_get?_assign hget) with
      ⟨hdel, -⟩ | ⟨hdel, w, o', ho', hget', hkeep'⟩
    · exact absurd hdel h.kept
    · rwa [h.unique hnodup hconf ⟨hdel, w, ho', hkeep'⟩]
  · intro hget
    obtain ⟨hdel, w, ho, hkeep⟩ := h
    have hmem : (key, v) ∈ mapWritesOf owner existing map outputs := by
      simp only [mapWritesOf, mapWrites, List.mem_flatMap, List.mem_filterMap]
      exact ⟨(w, o), ho, (key, v), Dict.mem_entries_iff.mpr hget,
        by rw [if_neg hdel, if_pos hkeep]⟩
    exact (Dict.get?_assign_eq_some (mapWritesOf_agree owner map hnodup hconf)).mpr (.inl hmem)

lemma get?_mapWritesOf_of_unselected {key : K}
    (hkept : owner key ∉ deletedServices existing outputs)
    (h : ∀ o, ¬ Selected existing outputs (owner key) o) :
    (Dict.assign ∅ (mapWritesOf owner existing map outputs)).get? key = none := by
  rw [Option.eq_none_iff_forall_ne_some]
  intro v hget
  rcases mem_mapWritesOf (Dict.mem_of_get?_assign hget) with ⟨hdel, -⟩ | ⟨-, w, o, ho, -, hkeep⟩
  · exact hkept hdel
  · exact h o ⟨hkept, w, ho, hkeep⟩

/-- Of a removed service only deletions are left, one for everything that an output mentions. -/
lemma get?_mapWritesOf_of_deleted {key : K} (hdel : owner key ∈ deletedServices existing outputs) :
    (∀ v, (Dict.assign ∅ (mapWritesOf owner existing map outputs)).get? key = some v → v = none) ∧
      ((Dict.assign ∅ (mapWritesOf owner existing map outputs)).get? key = none →
        ∀ p ∈ outputs, (map p.2.pending).get? key = none) := by
  have hnone : ∀ v, (key, v) ∈ mapWritesOf owner existing map outputs → v = none := by
    intro v hmem
    rcases mem_mapWritesOf hmem with ⟨-, hv, -⟩ | ⟨hkept, -⟩
    · exact hv
    · exact absurd hdel hkept
  refine ⟨fun v hget => hnone v (Dict.mem_of_get?_assign hget), ?_⟩
  intro hget p hp
  rw [Option.eq_none_iff_forall_ne_some]
  intro v hmentioned
  have hmem : (key, none) ∈ mapWritesOf owner existing map outputs := by
    simp only [mapWritesOf, mapWrites, List.mem_flatMap, List.mem_filterMap]
    exact ⟨p, hp, (key, v), Dict.mem_entries_iff.mpr hmentioned, if_pos hdel⟩
  rw [Dict.get?_assign, Dict.get?_empty, Option.or_none, Dict.lookup_eq_none_iff] at hget
  exact hget (List.mem_map.mpr ⟨(key, none), List.mem_reverse.mpr hmem, rfl⟩)

end Maps

/-! ## The merged accounts -/

lemma get?_mergedAccounts_of_selected (hnodup : (outputs.map Prod.fst).Nodup)
    (hconf : ¬ Conflicting existing (accountEntries outputs))
    (h : Selected existing outputs s o) :
    (mergedChanges existing outputs).serviceAccounts.get? s = o.pending.serviceAccounts.get? s := by
  apply Option.ext
  intro a
  constructor
  · intro hget
    rcases mem_accountWrites.mp (Dict.mem_of_get?_assign hget) with ⟨hdel, -⟩ | ⟨-, o', h', hget'⟩
    · exact absurd hdel h.kept
    · rwa [h.unique hnodup hconf h']
  · intro hget
    have hsome : a ≠ none := by
      rintro rfl
      obtain ⟨hkept, w, ho, hkeep⟩ := h
      rcases hkeep with ⟨-, hex⟩ | ⟨-, hjoin⟩
      · exact hkept (mem_deletedServices.mpr ⟨hex, (w, o), ho, hget⟩)
      · rw [hget] at hjoin
        exact hjoin rfl
    exact (Dict.get?_assign_eq_some (accountWrites_agree hnodup hconf)).mpr
      (.inl (mem_accountWrites.mpr (.inr ⟨hsome, o, h, hget⟩)))

lemma get?_mergedAccounts_of_unselected (hkept : s ∉ deletedServices existing outputs)
    (h : ∀ o, ¬ Selected existing outputs s o) :
    (mergedChanges existing outputs).serviceAccounts.get? s = none := by
  rw [Option.eq_none_iff_forall_ne_some]
  intro a hget
  rcases mem_accountWrites.mp (Dict.mem_of_get?_assign hget) with ⟨hdel, -⟩ | ⟨-, o, hselected, -⟩
  · exact hkept hdel
  · exact h o hselected

lemma get?_mergedAccounts_of_deleted (hnodup : (outputs.map Prod.fst).Nodup)
    (hconf : ¬ Conflicting existing (accountEntries outputs))
    (hdel : s ∈ deletedServices existing outputs) :
    (mergedChanges existing outputs).serviceAccounts.get? s = some none :=
  (Dict.get?_assign_eq_some (accountWrites_agree hnodup hconf)).mpr
    (.inl (mem_accountWrites.mpr (.inl ⟨hdel, rfl⟩)))

/-! ## The merged services -/

/-- Pending changes that say the same about a service. -/
structure AgreeOn (s : ℕ) (pending pending' : PendingChanges) : Prop where
  account : pending.serviceAccounts.get? s = pending'.serviceAccounts.get? s
  storageItem : ∀ key, pending.storageItems.get? (s, key) = pending'.storageItems.get? (s, key)
  preimage : ∀ preimageHash,
    pending.preimages.get? (s, preimageHash) = pending'.preimages.get? (s, preimageHash)
  availability : ∀ r,
    pending.preimagesAvailability.get? (s, r) = pending'.preimagesAvailability.get? (s, r)

lemma AgreeOn.refl (s : ℕ) (pending : PendingChanges) : AgreeOn s pending pending :=
  ⟨rfl, fun _ => rfl, fun _ => rfl, fun _ => rfl⟩

lemma AgreeOn.trans {pending pending' pending'' : PendingChanges} (h : AgreeOn s pending pending')
    (h' : AgreeOn s pending' pending'') : AgreeOn s pending pending'' :=
  ⟨h.account.trans h'.account, fun key => (h.storageItem key).trans (h'.storageItem key),
    fun preimageHash => (h.preimage preimageHash).trans (h'.preimage preimageHash),
    fun r => (h.availability r).trans (h'.availability r)⟩

lemma AgreeOn.view_eq {pending pending' : PendingChanges} (h : AgreeOn s pending pending')
    (P : Primitives) (storage : Store) (held held' : Finset ℕ) :
    ServicesState.view P ⟨storage, pending, held⟩ s =
      ServicesState.view P ⟨storage, pending', held'⟩ s := by
  have havailability : ∀ preimageHash z,
      pending.preimagesAvailability.get? (s, preimageHash, z) =
        pending'.preimagesAvailability.get? (s, preimageHash, z) :=
    fun preimageHash z => h.availability (preimageHash, z)
  simp only [ServicesState.view, ServicesState.retrieveServiceAccount,
    ServicesState.retrieveStorageItem, ServicesState.retrievePreimage,
    ServicesState.retrievePreimageAvailability, h.account, h.storageItem, h.preimage, havailability]

lemma mergedChanges_of_selected (hnodup : (outputs.map Prod.fst).Nodup)
    (hconf : ¬ Conflicting existing (accountEntries outputs)) (h : Selected existing outputs s o) :
    AgreeOn s (mergedChanges existing outputs) o.pending where
  account := get?_mergedAccounts_of_selected hnodup hconf h
  storageItem _ := get?_mapWritesOf_of_selected hnodup hconf h
  preimage _ := get?_mapWritesOf_of_selected hnodup hconf h
  availability _ := get?_mapWritesOf_of_selected hnodup hconf h

lemma mergedChanges_of_unselected (hkept : s ∉ deletedServices existing outputs)
    (h : ∀ o, ¬ Selected existing outputs s o) :
    AgreeOn s (mergedChanges existing outputs) .empty where
  account := get?_mergedAccounts_of_unselected hkept h
  storageItem _ := get?_mapWritesOf_of_unselected hkept h
  preimage _ := get?_mapWritesOf_of_unselected hkept h
  availability _ := get?_mapWritesOf_of_unselected hkept h

/-! ## Removed services -/

/-- What is deleted, or mentioned by no one and absent. -/
lemma readOverlay_of_deleted {V : Type} {merged pending : Option (Option V)}
    {stored : Except ServiceError V} (hdeletions : ∀ v, merged = some v → v = none)
    (hunmentioned : merged = none → pending = none)
    (hgone : (readOverlay pending stored).toOption = none) :
    (readOverlay merged stored).toOption = none := by
  cases merged with
  | none => rwa [hunmentioned rfl] at hgone
  | some v =>
    rw [hdeletions v rfl]
    rfl

/-- A service of which some output has left nothing is gone when it is removed. -/
lemma view_of_deleted (hnodup : (outputs.map Prod.fst).Nodup)
    (hconf : ¬ Conflicting existing (accountEntries outputs))
    (hdel : s ∈ deletedServices existing outputs) {p : ℕ × PvmAccumulateOutput coreCount}
    (hp : p ∈ outputs) {P : Primitives} {storage : Store} {held held' : Finset ℕ}
    (hvacant : ServicesState.view P ⟨storage, p.2.pending, held⟩ s = .vacant) :
    ServicesState.view P ⟨storage, mergedChanges existing outputs, held'⟩ s = .vacant := by
  have hgone : ∀ {K V : Type} [DecidableEq K] (owner : K → ℕ)
      (map : PendingChanges → Dict K (Option V)) (key : K) (stored : Except ServiceError V),
      owner key = s → (readOverlay ((map p.2.pending).get? key) stored).toOption = none →
        (readOverlay ((Dict.assign ∅ (mapWritesOf owner existing map outputs)).get? key)
          stored).toOption = none := by
    intro K V _ owner map key stored howner
    have hdeleted : owner key ∈ deletedServices existing outputs := howner ▸ hdel
    have hunmentioned : (Dict.assign ∅ (mapWritesOf owner existing map outputs)).get? key = none →
        ∀ p ∈ outputs, (map p.2.pending).get? key = none :=
      (get?_mapWritesOf_of_deleted hdeleted).2
    exact readOverlay_of_deleted (get?_mapWritesOf_of_deleted hdeleted).1
      (fun hnone => hunmentioned hnone p hp)
  have haccount := get?_mergedAccounts_of_deleted hnodup hconf hdel
  rw [View.vacant, ServicesState.view, View.mk.injEq] at hvacant ⊢
  obtain ⟨-, hitem, hpreimage, hrequest⟩ := hvacant
  refine ⟨?_, ?_, ?_, ?_⟩
  · rw [ServicesState.retrieveServiceAccount, haccount]
    exact ite_self _
  · funext key
    exact hgone Prod.fst PendingChanges.storageItems (s, key) _ rfl (congrFun hitem key)
  · funext preimageHash
    exact hgone Prod.fst PendingChanges.preimages (s, preimageHash) _ rfl
      (congrFun hpreimage preimageHash)
  · funext r
    have hr := congrFun hrequest r
    simp only [ServicesState.retrievePreimageAvailability] at hr ⊢
    split_ifs at hr ⊢ with hshort hfits
    · exact hgone Prod.fst PendingChanges.preimagesAvailability (s, r) _ rfl hr
    · rfl
    · rfl

end Sources

/-! ## The merged services -/

/-- Over a coherent store the pending changes do not matter. -/
lemma view_fresh {P : Primitives} {st : ServicesState} (h : Coherent P st) (s : ℕ) :
    st.fresh.view P s = st.view P s := by
  have hsame := h.sameReads_fresh
  simp only [ServicesState.view, hsame.account, hsame.storageItem, hsame.preimage,
    hsame.availability]

/-- After the merge a service looks as before the round or as one of the outputs left it, where an
output that has removed the service has left nothing of it. -/
lemma view_merged {P : Primitives} {services : ServicesState} {outputs : Outputs coreCount}
    {merged : PendingChanges} {held : Finset ℕ} {s : ℕ} (hcoherent : Coherent P services)
    (hnodup : (outputs.map Prod.fst).Nodup)
    (hmerge : mergeAccumulationServiceChanges services outputs = .ok merged)
    (hstorage : ∀ p ∈ outputs, p.2.stateContext.services.stateStorage = services.stateStorage)
    (hvacant : ∀ p ∈ outputs,
      (p.2.stateContext.services.view P s).account = .error .noResult →
        p.2.stateContext.services.view P s = .vacant) :
    ServicesState.view P ⟨services.stateStorage, merged, held⟩ s = services.view P s ∨
      ∃ p ∈ outputs, ServicesState.view P ⟨services.stateStorage, merged, held⟩ s =
        p.2.stateContext.services.view P s := by
  obtain ⟨existing, -, hconf, rfl⟩ := merge_eq_ok hmerge
  have hservices : ∀ p ∈ outputs,
      p.2.stateContext.services =
        ⟨services.stateStorage, p.2.pending, p.2.stateContext.services.services⟩ := by
    intro p hp
    rw [← hstorage p hp]
    rfl
  by_cases hdel : s ∈ deletedServices existing outputs
  · obtain ⟨-, p, hp, hget⟩ := mem_deletedServices.mp hdel
    have hnone : (p.2.stateContext.services.view P s).account = .error .noResult := by
      change ServicesState.retrieveServiceAccount _ s = _
      rw [ServicesState.retrieveServiceAccount]
      rw [PvmAccumulateOutput.pending] at hget
      rw [hget]
      exact ite_self _
    refine .inr ⟨p, hp, ?_⟩
    rw [hvacant p hp hnone]
    have hleft := hvacant p hp hnone
    rw [hservices p hp] at hleft
    exact view_of_deleted hnodup hconf hdel hp hleft
  · by_cases hselected : ∃ o, Selected existing outputs s o
    · obtain ⟨o, hselected⟩ := hselected
      obtain ⟨w, ho, -⟩ := hselected.writer
      refine .inr ⟨(w, o), ho, ?_⟩
      rw [hservices (w, o) ho]
      exact (mergedChanges_of_selected hnodup hconf hselected).view_eq P _ _ _
    · refine .inl ?_
      rw [← view_fresh hcoherent]
      exact (mergedChanges_of_unselected hdel (not_exists.mp hselected)).view_eq P _ _ _

/-! ## The round -/

/-- A round changes a service only in the ways that `View.Change` lists, when the invocations do. -/
lemma finishRound_changes {P : Primitives} {timeslot expungePeriod s : ℕ}
    {state : AccumulationStateComponents coreCount} {outputs : Outputs coreCount}
    {out : ParallelAccumulationOutput coreCount} (hcoherent : Coherent P state.services)
    (hfooted : (state.services.view P s).WellFooted)
    (hsound : (state.services.view P s).PreimageSound P timeslot)
    (hnodup : (outputs.map Prod.fst).Nodup)
    (hstorage : ∀ p ∈ outputs, p.2.stateContext.services.stateStorage = state.services.stateStorage)
    (hfiled : ∀ p ∈ outputs, FiledPreimages P p.2.pending)
    (hshort : ∀ p ∈ outputs, p.2.pending.ShortRequestsOf s)
    (hlength : ∀ p ∈ provisionsOf outputs, p.1 = s → p.2.length < 2 ^ 32 - 2)
    (hchanges : ∀ p ∈ outputs, (state.services.view P s).Changes P timeslot expungePeriod
      (p.2.stateContext.services.view P s))
    (h : finishRound P timeslot state outputs = .ok out) :
    (state.services.view P s).Changes P timeslot expungePeriod
      (out.accumulationState.services.view P s) := by
  obtain ⟨merged, committed, provided, services, hmerge, hcommit, hprovide, rfl⟩ :=
    finishRound_eq_ok h
  obtain ⟨existing, -, -, hmerged⟩ := merge_eq_ok hmerge
  have hfiled' : FiledPreimages P merged := by
    rw [hmerged]
    exact filedPreimages_mergedChanges hfiled
  have hshort' : merged.ShortRequestsOf s := by
    rw [hmerged]
    exact shortRequests_mergedChanges hshort
  obtain ⟨writes, rfl, hcommits⟩ := commitChanges_writes hfiled' hcommit
  have hprovided : (ServicesState.view P ⟨Store.writeAll state.services.stateStorage writes, merged,
      state.services.services⟩ s).Changes P timeslot expungePeriod (provided.view P s) :=
    integrateProvisions_changes hlength hprovide
  rw [view_writeAll (hcommits.committedOf hshort').only] at hprovided
  have hvacant : ∀ p ∈ outputs, (p.2.stateContext.services.view P s).account = .error .noResult →
      p.2.stateContext.services.view P s = .vacant :=
    fun p hp => (hfooted.changes (hchanges p hp)).eq_vacant (hsound.changes (hchanges p hp))
  rcases view_merged hcoherent hnodup hmerge hstorage hvacant with hsame | ⟨p, hp, hview⟩
  · rwa [hsame] at hprovided
  · rw [hview] at hprovided
    exact (hchanges p hp).trans hprovided

end Accumulation
