import Pyjamaz.Accumulation.Components
import Pyjamaz.Library.SortedSet

/-!
# Merging the changes of one round

`_merge_accumulation_service_changes` collects what the invocations of a round did to the services.
An invocation may change its own account and create new ones; a deletion by anyone wins over every
other change.  Two invocations that create the same account are a conflict.

The merge folds the outputs in the order of the list.  The writes to one key that survive the case
split all carry the same value, whoever made them, so the order does not matter.
-/

namespace Accumulation

open Services

variable {coreCount : ℕ}

/-! ## The merge -/

/-- The services that a pending change mentions. -/
def mentioned (pending : PendingChanges) : List ℕ :=
  pending.serviceAccounts.keys ++ pending.storageItems.keys.map Prod.fst ++
    pending.preimages.keys.map Prod.fst ++ pending.preimagesAvailability.keys.map Prod.fst

/-- `candidates`: every service that some output mentions. -/
def candidates (outputs : Outputs coreCount) : List ℕ :=
  sortedSet (outputs.flatMap (fun (_, output) => mentioned output.pending))

/-- The services of a list that exist. -/
def existingAmong (services : ServicesState) : List ℕ → Except AccumulationError (List ℕ)
  | [] => .ok []
  | s :: rest => do
    let known ← liftServices (services.serviceExists s)
    let others ← existingAmong services rest
    return if known then s :: others else others

/-- `existing`: the candidates that the pre-round services know. -/
def existingServices (services : ServicesState) (outputs : Outputs coreCount) :
    Except AccumulationError (List ℕ) :=
  existingAmong services (candidates outputs)

/-- `deleted`: the existing services that some invocation has removed. -/
def deletedServices (existing : List ℕ) (outputs : Outputs coreCount) : List ℕ :=
  sortedSet (outputs.flatMap (fun (_, output) =>
    output.pending.serviceAccounts.entries.filterMap (fun (s, account) =>
      if s ∈ existing ∧ account = none then some s else none)))

/-- The accounts selected so far and `new_writers`. -/
structure MergedAccounts where
  accounts : Dict ℕ (Option ServiceAccount)
  newWriters : Dict ℕ ℕ

/-- One account of one output. -/
def mergeAccount (existing deleted : List ℕ) (writer : ℕ) (acc : MergedAccounts)
    (entry : ℕ × Option ServiceAccount) : Except AccumulationError MergedAccounts :=
  let (s, account) := entry
  if account = none ∨ s ∈ deleted ∨ (s ∈ existing ∧ s ≠ writer) then .ok acc
  else if s ∈ existing then .ok { acc with accounts := acc.accounts.insert s account }
  else if (acc.newWriters.get? s).any (fun w => w ≠ writer) then .error .conflict
  else .ok ⟨acc.accounts.insert s account, acc.newWriters.insert s writer⟩

/-- One of the three maps of one output; `owner` is the service that a key belongs to. -/
def mergeMap {K V : Type} [DecidableEq K] (owner : K → ℕ) (existing deleted : List ℕ) (writer : ℕ)
    (pending : PendingChanges) (target map : Dict K (Option V)) : Dict K (Option V) :=
  map.entries.foldl (fun target (key, value) =>
    if owner key ∈ deleted then target.insert key none
    else if (owner key = writer ∧ owner key ∈ existing) ∨
        (owner key ∉ existing ∧ (pending.serviceAccounts.get? (owner key)).join ≠ none) then
      target.insert key value
    else target) target

/-- The round of the loop for one output. -/
def mergeOutput (existing deleted : List ℕ) (acc : MergedAccounts × PendingChanges)
    (entry : ℕ × PvmAccumulateOutput coreCount) :
    Except AccumulationError (MergedAccounts × PendingChanges) := do
  let (writer, output) := entry
  let pending := output.pending
  let accounts ← pending.serviceAccounts.entries.foldlM (mergeAccount existing deleted writer) acc.1
  return (accounts, { acc.2 with
    storageItems :=
      mergeMap Prod.fst existing deleted writer pending acc.2.storageItems pending.storageItems
    preimages :=
      mergeMap Prod.fst existing deleted writer pending acc.2.preimages pending.preimages
    preimagesAvailability :=
      mergeMap Prod.fst existing deleted writer pending acc.2.preimagesAvailability
        pending.preimagesAvailability })

/-- `_merge_accumulation_service_changes` -/
def mergeAccumulationServiceChanges (services : ServicesState) (outputs : Outputs coreCount) :
    Except AccumulationError PendingChanges := do
  let existing ← existingServices services outputs
  let deleted := deletedServices existing outputs
  let (accounts, merged) ← outputs.foldlM (mergeOutput existing deleted) (⟨∅, ∅⟩, .empty)
  return { merged with
    serviceAccounts := accounts.accounts.assign (deleted.map (fun s => (s, none))) }

/-! ## Existing services -/

lemma liftServices_eq_error {α : Type} {x : Except ServiceError α} {e : AccumulationError}
    (h : liftServices x = .error e) : ∃ e₀, x = .error e₀ ∧ e = .services e₀ := by
  cases x with
  | ok a => cases h
  | error e₀ =>
    cases h
    exact ⟨e₀, rfl, rfl⟩

lemma liftServices_eq_ok {α : Type} {x : Except ServiceError α} {a : α}
    (h : liftServices x = .ok a) : x = .ok a := by
  cases x with
  | ok a' =>
    cases h
    rfl
  | error e => cases h

/-- Looking for existing services raises only what a lookup raises. -/
lemma existingAmong_eq_error {services : ServicesState} {ids : List ℕ} {e : AccumulationError}
    (h : existingAmong services ids = .error e) :
    ∃ s ∈ ids, ∃ e₀, services.serviceExists s = .error e₀ ∧ e = .services e₀ := by
  induction ids with
  | nil => cases h
  | cons s rest ih =>
    rw [existingAmong] at h
    cases hs : liftServices (services.serviceExists s) with
    | error e' =>
      rw [hs] at h
      cases h
      obtain ⟨e₀, he₀, rfl⟩ := liftServices_eq_error hs
      exact ⟨s, List.mem_cons_self, e₀, he₀, rfl⟩
    | ok known =>
      rw [hs, Except.ok_bind] at h
      cases hrest : existingAmong services rest with
      | error e' =>
        rw [hrest] at h
        cases h
        obtain ⟨s', hs', he⟩ := ih hrest
        exact ⟨s', List.mem_cons_of_mem _ hs', he⟩
      | ok others =>
        rw [hrest] at h
        cases h

/-- The members of the result are the services that exist. -/
lemma mem_existingAmong {services : ServicesState} {ids : List ℕ} :
    ∀ {existing : List ℕ}, existingAmong services ids = .ok existing →
      ∀ s, s ∈ existing ↔ s ∈ ids ∧ services.serviceExists s = .ok true := by
  induction ids with
  | nil =>
    intro existing h s
    cases h
    simp
  | cons s₀ rest ih =>
    intro existing h s
    rw [existingAmong, Except.bind_eq_ok] at h
    obtain ⟨known, hknown, h⟩ := h
    obtain ⟨others, hothers, h⟩ := Except.bind_eq_ok.mp h
    have hlift := liftServices_eq_ok hknown
    cases known with
    | true =>
      cases h
      rw [if_pos rfl, List.mem_cons, List.mem_cons, ih hothers s]
      constructor
      · rintro (rfl | hs)
        · exact ⟨.inl rfl, hlift⟩
        · exact ⟨.inr hs.1, hs.2⟩
      · rintro ⟨rfl | hs, hexists⟩
        · exact .inl rfl
        · exact .inr ⟨hs, hexists⟩
    | false =>
      cases h
      rw [if_neg Bool.false_ne_true, List.mem_cons, ih hothers s]
      constructor
      · rintro ⟨hs, hexists⟩
        exact ⟨.inr hs, hexists⟩
      · rintro ⟨rfl | hs, hexists⟩
        · rw [hlift] at hexists
          cases hexists
        · exact ⟨hs, hexists⟩

/-! ## The merge as a list of assignments -/

/-- An account in some output's pending changes: the writer, the service and the change. -/
abbrev AccountEntry := ℕ × ℕ × Option ServiceAccount

/-- The accounts of all outputs in the order of the loops. -/
def accountEntries (outputs : Outputs coreCount) : List AccountEntry :=
  outputs.flatMap (fun (writer, output) =>
    output.pending.serviceAccounts.entries.map (fun e => (writer, e)))

/-- The merge takes the account. -/
def Takes (existing deleted : List ℕ) (e : AccountEntry) : Prop :=
  ¬ (e.2.2 = none ∨ e.2.1 ∈ deleted ∨ (e.2.1 ∈ existing ∧ e.2.1 ≠ e.1))

instance (existing deleted : List ℕ) (e : AccountEntry) : Decidable (Takes existing deleted e) :=
  inferInstanceAs (Decidable (¬ _))

/-- The entries of one of the maps that the merge takes, deletions made explicit. -/
def mapWrites {K V : Type} [DecidableEq K] (owner : K → ℕ) (existing deleted : List ℕ)
    (map : PendingChanges → Dict K (Option V)) (entry : ℕ × PvmAccumulateOutput coreCount) :
    List (K × Option V) :=
  (map entry.2.pending).entries.filterMap (fun e =>
    if owner e.1 ∈ deleted then some (e.1, none)
    else if (owner e.1 = entry.1 ∧ owner e.1 ∈ existing) ∨
        (owner e.1 ∉ existing ∧
          (entry.2.pending.serviceAccounts.get? (owner e.1)).join ≠ none) then
      some e
    else none)

lemma mergeMap_eq {K V : Type} [DecidableEq K] (owner : K → ℕ) (existing deleted : List ℕ)
    (map : PendingChanges → Dict K (Option V)) (entry : ℕ × PvmAccumulateOutput coreCount)
    (target : Dict K (Option V)) :
    mergeMap owner existing deleted entry.1 entry.2.pending target (map entry.2.pending) =
      target.assign (mapWrites owner existing deleted map entry) := by
  rw [mergeMap, Dict.assign, mapWrites, List.foldl_filterMap]
  congr 1
  funext target e
  obtain ⟨key, value⟩ := e
  simp only
  split_ifs <;> rfl

/-- The accounts of all outputs, one after the other. -/
def mergeAccounts (existing deleted : List ℕ) (acc : MergedAccounts) (entries : List AccountEntry) :
    Except AccumulationError MergedAccounts :=
  entries.foldlM (fun acc e => mergeAccount existing deleted e.1 acc e.2) acc

/-- The loop over the outputs keeps accounts and maps apart. -/
lemma foldlM_mergeOutput (existing deleted : List ℕ) (outputs : Outputs coreCount) :
    ∀ acc : MergedAccounts × PendingChanges,
      outputs.foldlM (mergeOutput existing deleted) acc =
        (do
          let accounts ← mergeAccounts existing deleted acc.1 (accountEntries outputs)
          return (accounts, { acc.2 with
            storageItems := acc.2.storageItems.assign
              (outputs.flatMap (mapWrites Prod.fst existing deleted PendingChanges.storageItems))
            preimages := acc.2.preimages.assign
              (outputs.flatMap (mapWrites Prod.fst existing deleted PendingChanges.preimages))
            preimagesAvailability := acc.2.preimagesAvailability.assign
              (outputs.flatMap
                (mapWrites Prod.fst existing deleted PendingChanges.preimagesAvailability)) })) := by
  induction outputs with
  | nil =>
    intro acc
    rfl
  | cons entry rest ih =>
    intro acc
    have hentries : accountEntries (entry :: rest) =
        entry.2.pending.serviceAccounts.entries.map (fun e => (entry.1, e)) ++
          accountEntries rest := rfl
    rw [List.foldlM_cons, hentries, mergeAccounts, List.foldlM_append, List.foldlM_map]
    simp only [mergeOutput, bind_assoc, pure_bind, ih, List.flatMap_cons]
    congr 1
    funext accounts
    simp only [mergeMap_eq, Dict.assign_append]
    rfl

lemma mem_deletedServices {existing : List ℕ} {outputs : Outputs coreCount} {s : ℕ} :
    s ∈ deletedServices existing outputs ↔
      s ∈ existing ∧ ∃ p ∈ outputs, p.2.pending.serviceAccounts.get? s = some none := by
  simp only [deletedServices, mem_sortedSet, List.mem_flatMap, List.mem_filterMap]
  constructor
  · rintro ⟨p, hp, ⟨s', account⟩, hmem, hif⟩
    split at hif
    · next hcond =>
      cases hif
      obtain ⟨hex, rfl⟩ := hcond
      exact ⟨hex, p, hp, Dict.mem_entries_iff.mp hmem⟩
    · cases hif
  · rintro ⟨hex, p, hp, hget⟩
    exact ⟨p, hp, (s, none), Dict.mem_entries_iff.mpr hget, if_pos ⟨hex, rfl⟩⟩

/-! ## New accounts and conflicts -/

/-- The entry creates an account. -/
def IsNew (existing : List ℕ) (e : AccountEntry) : Prop := e.2.2 ≠ none ∧ e.2.1 ∉ existing

/-- Two writers create one account. -/
def Conflicting (existing : List ℕ) (entries : List AccountEntry) : Prop :=
  ∃ e ∈ entries, ∃ e' ∈ entries, IsNew existing e ∧ IsNew existing e' ∧ e.2.1 = e'.2.1 ∧ e.1 ≠ e'.1

/-- What the loop over the accounts knows when it has not raised. -/
structure MergeState (existing deleted : List ℕ) (entries : List AccountEntry)
    (acc : MergedAccounts) : Prop where
  accounts : acc.accounts =
    Dict.assign ∅ ((entries.filter (fun e => Takes existing deleted e)).map Prod.snd)
  newWriters : ∀ s w, acc.newWriters.get? s = some w ↔
    ∃ account, (w, s, account) ∈ entries ∧ IsNew existing (w, s, account)
  no_conflict : ¬ Conflicting existing entries

lemma takes_of_isNew {existing deleted : List ℕ} (hsub : ∀ s ∈ deleted, s ∈ existing)
    {e : AccountEntry} (h : IsNew existing e) : Takes existing deleted e := by
  rintro (hnone | hdel | hex)
  · exact h.1 hnone
  · exact h.2 (hsub _ hdel)
  · exact h.2 hex.1

/-- One more entry conflicts with those before it when it creates an account of another writer. -/
lemma conflicting_append_iff {existing : List ℕ} {entries : List AccountEntry} {e : AccountEntry} :
    Conflicting existing (entries ++ [e]) ↔ Conflicting existing entries ∨
      (IsNew existing e ∧ ∃ x ∈ entries, IsNew existing x ∧ x.2.1 = e.2.1 ∧ x.1 ≠ e.1) := by
  constructor
  · rintro ⟨x, hx, y, hy, hnx, hny, hsame, hne⟩
    simp only [List.mem_append, List.mem_singleton] at hx hy
    rcases hx with hx | rfl
    · rcases hy with hy | rfl
      · exact .inl ⟨x, hx, y, hy, hnx, hny, hsame, hne⟩
      · exact .inr ⟨hny, x, hx, hnx, hsame, hne⟩
    · rcases hy with hy | rfl
      · exact .inr ⟨hnx, y, hy, hny, hsame.symm, hne.symm⟩
      · exact absurd rfl hne
  · rintro (⟨x, hx, y, hy, hconf⟩ | ⟨hne, x, hx, hnx, hsame, hw⟩)
    · exact ⟨x, by simp [hx], y, by simp [hy], hconf⟩
    · exact ⟨x, by simp [hx], e, by simp, hnx, hne, hsame, hw⟩

/-- An entry that creates nothing changes neither the writers nor the conflicts. -/
lemma MergeState.append_of_not_isNew {existing deleted : List ℕ} {entries : List AccountEntry}
    {acc : MergedAccounts} (hst : MergeState existing deleted entries acc) {e : AccountEntry}
    (hnew : ¬ IsNew existing e) {accounts : Dict ℕ (Option ServiceAccount)}
    (haccounts : accounts = acc.accounts.assign
      (([e].filter (fun e => Takes existing deleted e)).map Prod.snd)) :
    MergeState existing deleted (entries ++ [e]) { acc with accounts := accounts } := by
  refine ⟨?_, ?_, ?_⟩
  · rw [haccounts, hst.accounts, List.filter_append, List.map_append, Dict.assign_append]
  · intro s w
    rw [hst.newWriters]
    constructor
    · rintro ⟨account, hmem, hn⟩
      exact ⟨account, by simp [hmem], hn⟩
    · rintro ⟨account, hmem, hn⟩
      simp only [List.mem_append, List.mem_singleton] at hmem
      rcases hmem with hmem | rfl
      · exact ⟨account, hmem, hn⟩
      · exact absurd hn hnew
  · rw [conflicting_append_iff]
    rintro (hconf | hconf)
    · exact hst.no_conflict hconf
    · exact hnew hconf.1

/-- An entry that creates an account of no other writer. -/
lemma MergeState.append_of_isNew {existing deleted : List ℕ} {entries : List AccountEntry}
    {acc : MergedAccounts} (hst : MergeState existing deleted entries acc) {w s : ℕ}
    {account : Option ServiceAccount} (hnew : IsNew existing (w, s, account))
    (hsame : ∀ x ∈ entries, IsNew existing x → x.2.1 = s → x.1 = w)
    {accounts : Dict ℕ (Option ServiceAccount)}
    (haccounts : accounts = acc.accounts.assign
      (([(w, s, account)].filter (fun e => Takes existing deleted e)).map Prod.snd)) :
    MergeState existing deleted (entries ++ [(w, s, account)])
      ⟨accounts, acc.newWriters.insert s w⟩ := by
  refine ⟨?_, ?_, ?_⟩
  · rw [haccounts, hst.accounts, List.filter_append, List.map_append, Dict.assign_append]
  · intro s' w'
    simp only [Dict.get?_insert, List.mem_append, List.mem_singleton]
    by_cases hs : s' = s
    · subst hs
      rw [if_pos rfl, Option.some.injEq]
      constructor
      · rintro rfl
        exact ⟨account, .inr rfl, hnew⟩
      · rintro ⟨account', hmem | heq, hn⟩
        · exact (hsame _ hmem hn rfl).symm
        · cases heq
          rfl
    · rw [if_neg hs, hst.newWriters]
      constructor
      · rintro ⟨account', hmem, hn⟩
        exact ⟨account', .inl hmem, hn⟩
      · rintro ⟨account', hmem | heq, hn⟩
        · exact ⟨account', hmem, hn⟩
        · cases heq
          exact absurd rfl hs
  · rw [conflicting_append_iff]
    rintro (hconf | ⟨-, x, hx, hnx, hs, hw⟩)
    · exact hst.no_conflict hconf
    · exact hw (hsame x hx hnx hs)

/-- One step of the loop: it raises on a new conflict and keeps its state otherwise. -/
lemma mergeAccount_step {existing deleted : List ℕ} (hsub : ∀ s ∈ deleted, s ∈ existing)
    {entries : List AccountEntry} {acc : MergedAccounts}
    (hst : MergeState existing deleted entries acc) (e : AccountEntry) :
    (Conflicting existing (entries ++ [e]) ∧
        mergeAccount existing deleted e.1 acc e.2 = .error .conflict) ∨
      ∃ acc', mergeAccount existing deleted e.1 acc e.2 = .ok acc' ∧
        MergeState existing deleted (entries ++ [e]) acc' := by
  obtain ⟨w, s, account⟩ := e
  by_cases htakes : Takes existing deleted (w, s, account)
  · have hfilter : ([(w, s, account)].filter (fun e => Takes existing deleted e)).map Prod.snd =
        [(s, account)] := by simp [htakes]
    by_cases hex : s ∈ existing
    · -- the writer's own account
      refine .inr ⟨_, by rw [mergeAccount, if_neg htakes, if_pos hex], ?_⟩
      apply hst.append_of_not_isNew (fun h => h.2 hex)
      rw [hfilter]
      rfl
    · have hnew : IsNew existing (w, s, account) := ⟨fun h => htakes (.inl h), hex⟩
      by_cases hother : (acc.newWriters.get? s).any (fun w' => w' ≠ w) = true
      · -- another writer has created it
        obtain ⟨w', hw', hne⟩ := (Option.any_eq_true _ _).mp hother
        obtain ⟨account', hmem, hnew'⟩ := (hst.newWriters s w').mp hw'
        refine .inl ⟨conflicting_append_iff.mpr (.inr ⟨hnew, _, hmem, hnew', rfl, ?_⟩), ?_⟩
        · simpa using hne
        · rw [mergeAccount, if_neg htakes, if_neg hex, if_pos hother]
      · have hsame : ∀ x ∈ entries, IsNew existing x → x.2.1 = s → x.1 = w := by
          rintro ⟨w', s', account'⟩ hx hnx rfl
          have hget := (hst.newWriters s' w').mpr ⟨account', hx, hnx⟩
          by_contra hne
          apply hother
          rw [hget]
          simpa using hne
        refine .inr ⟨_, by rw [mergeAccount, if_neg htakes, if_neg hex, if_neg hother], ?_⟩
        apply hst.append_of_isNew hnew hsame
        rw [hfilter]
        rfl
  · have hnew : ¬ IsNew existing (w, s, account) := fun h => htakes (takes_of_isNew hsub h)
    have hskip : account = none ∨ s ∈ deleted ∨ (s ∈ existing ∧ s ≠ w) := not_not.mp htakes
    refine .inr ⟨acc, by rw [mergeAccount, if_pos hskip], ?_⟩
    apply hst.append_of_not_isNew hnew
    simp [htakes]

/-- The loop raises exactly on a conflict. -/
lemma mergeAccounts_cases {existing deleted : List ℕ} (hsub : ∀ s ∈ deleted, s ∈ existing)
    (entries : List AccountEntry) :
    (Conflicting existing entries ∧
        mergeAccounts existing deleted ⟨∅, ∅⟩ entries = .error .conflict) ∨
      ∃ acc, mergeAccounts existing deleted ⟨∅, ∅⟩ entries = .ok acc ∧
        MergeState existing deleted entries acc := by
  induction entries using List.reverseRecOn with
  | nil =>
    refine .inr ⟨⟨∅, ∅⟩, rfl, rfl, ?_, ?_⟩
    · simp
    · rintro ⟨e, he, -⟩
      cases he
  | append_singleton entries e ih =>
    have happend : mergeAccounts existing deleted ⟨∅, ∅⟩ (entries ++ [e]) =
        mergeAccounts existing deleted ⟨∅, ∅⟩ entries >>=
          fun acc => mergeAccount existing deleted e.1 acc e.2 := by
      simp [mergeAccounts, List.foldlM_append]
    rcases ih with ⟨hconf, herr⟩ | ⟨acc, hok, hst⟩
    · refine .inl ⟨conflicting_append_iff.mpr (.inl hconf), ?_⟩
      rw [happend, herr]
      rfl
    · rw [happend, hok]
      exact mergeAccount_step hsub hst e

/-! ## The merged changes -/

/-- The assignments that make up the merged accounts. -/
def accountWrites (existing : List ℕ) (outputs : Outputs coreCount) :
    List (ℕ × Option ServiceAccount) :=
  ((accountEntries outputs).filter
      (fun e => Takes existing (deletedServices existing outputs) e)).map Prod.snd ++
    (deletedServices existing outputs).map (fun s => (s, none))

/-- The assignments that make up one of the merged maps. -/
def mapWritesOf {K V : Type} [DecidableEq K] (owner : K → ℕ) (existing : List ℕ)
    (map : PendingChanges → Dict K (Option V)) (outputs : Outputs coreCount) :
    List (K × Option V) :=
  outputs.flatMap (mapWrites owner existing (deletedServices existing outputs) map)

/-- The merged changes in closed form. -/
def mergedChanges (existing : List ℕ) (outputs : Outputs coreCount) : PendingChanges where
  serviceAccounts := Dict.assign ∅ (accountWrites existing outputs)
  storageItems :=
    Dict.assign ∅ (mapWritesOf Prod.fst existing PendingChanges.storageItems outputs)
  preimages := Dict.assign ∅ (mapWritesOf Prod.fst existing PendingChanges.preimages outputs)
  preimagesAvailability :=
    Dict.assign ∅ (mapWritesOf Prod.fst existing PendingChanges.preimagesAvailability outputs)

/-- The merge raises on a conflict and is `mergedChanges` otherwise. -/
lemma merge_cases {services : ServicesState} {outputs : Outputs coreCount} {existing : List ℕ}
    (hexisting : existingServices services outputs = .ok existing) :
    (Conflicting existing (accountEntries outputs) ∧
        mergeAccumulationServiceChanges services outputs = .error .conflict) ∨
      (¬ Conflicting existing (accountEntries outputs) ∧
        mergeAccumulationServiceChanges services outputs = .ok (mergedChanges existing outputs)) := by
  have hsub : ∀ s ∈ deletedServices existing outputs, s ∈ existing :=
    fun s hs => (mem_deletedServices.mp hs).1
  have hmerge : mergeAccumulationServiceChanges services outputs = (do
      let accounts ← mergeAccounts existing (deletedServices existing outputs) ⟨∅, ∅⟩
        (accountEntries outputs)
      return { mergedChanges existing outputs with
        serviceAccounts := accounts.accounts.assign
          ((deletedServices existing outputs).map (fun s => (s, none))) }) := by
    rw [mergeAccumulationServiceChanges, hexisting, Except.ok_bind]
    simp only [foldlM_mergeOutput, bind_assoc, pure_bind]
    rfl
  rcases mergeAccounts_cases hsub (accountEntries outputs) with ⟨hconf, herr⟩ | ⟨acc, hok, hst⟩
  · refine .inl ⟨hconf, ?_⟩
    rw [hmerge, herr]
    rfl
  · refine .inr ⟨hst.no_conflict, ?_⟩
    rw [hmerge, hok]
    simp only [mergedChanges, accountWrites, Dict.assign_append, ← hst.accounts]
    rfl

/-- A merge that succeeds has found the existing services and no conflict. -/
lemma merge_eq_ok {services : ServicesState} {outputs : Outputs coreCount} {merged : PendingChanges}
    (h : mergeAccumulationServiceChanges services outputs = .ok merged) :
    ∃ existing, existingServices services outputs = .ok existing ∧
      ¬ Conflicting existing (accountEntries outputs) ∧ merged = mergedChanges existing outputs := by
  cases hexisting : existingServices services outputs with
  | error e =>
    rw [mergeAccumulationServiceChanges, hexisting] at h
    cases h
  | ok existing =>
    rcases merge_cases hexisting with ⟨-, hmerge⟩ | ⟨hconf, hmerge⟩
    · rw [hmerge] at h
      cases h
    · rw [hmerge] at h
      cases h
      exact ⟨existing, rfl, hconf, rfl⟩

/-- What the merge writes to one of the maps is in the output of some service, or a deletion there. -/
lemma mem_mapWritesOf {K V : Type} [DecidableEq K] {owner : K → ℕ} {existing : List ℕ}
    {map : PendingChanges → Dict K (Option V)} {outputs : Outputs coreCount} {key : K} {v : Option V}
    (h : (key, v) ∈ mapWritesOf owner existing map outputs) :
    (owner key ∈ deletedServices existing outputs ∧ v = none ∧
        ∃ p ∈ outputs, ∃ v', (map p.2.pending).get? key = some v') ∨
      (owner key ∉ deletedServices existing outputs ∧ ∃ w o, (w, o) ∈ outputs ∧
        (map o.pending).get? key = some v ∧
        ((owner key = w ∧ owner key ∈ existing) ∨ (owner key ∉ existing ∧
          (o.pending.serviceAccounts.get? (owner key)).join ≠ none))) := by
  simp only [mapWritesOf, mapWrites, List.mem_flatMap, List.mem_filterMap] at h
  obtain ⟨⟨w, o⟩, ho, ⟨key', value⟩, he, hif⟩ := h
  split_ifs at hif with hdel hkeep
  · cases hif
    exact .inl ⟨hdel, rfl, (w, o), ho, value, Dict.mem_entries_iff.mp he⟩
  · cases hif
    exact .inr ⟨hdel, w, o, ho, Dict.mem_entries_iff.mp he, hkeep⟩

/-! ## Writes to one key agree -/

section Agreement

variable {existing : List ℕ} {outputs : Outputs coreCount}

lemma mem_accountEntries {e : AccountEntry} :
    e ∈ accountEntries outputs ↔
      ∃ o, (e.1, o) ∈ outputs ∧ o.pending.serviceAccounts.get? e.2.1 = some e.2.2 := by
  simp only [accountEntries, List.mem_flatMap, List.mem_map]
  constructor
  · rintro ⟨⟨w, o⟩, hmem, e', he', rfl⟩
    exact ⟨o, hmem, Dict.mem_entries_iff.mp he'⟩
  · rintro ⟨o, hmem, hget⟩
    exact ⟨(e.1, o), hmem, e.2, Dict.mem_entries_iff.mpr hget, rfl⟩

/-- Outputs of one writer are one output. -/
lemma output_unique (hnodup : (outputs.map Prod.fst).Nodup) {w : ℕ}
    {o o' : PvmAccumulateOutput coreCount} (h : (w, o) ∈ outputs) (h' : (w, o') ∈ outputs) :
    o = o' := by
  have heq := List.inj_on_of_nodup_map hnodup h h' rfl
  exact congrArg Prod.snd heq

/-- Without a conflict, a new account has one creator. -/
lemma creator_unique (hconf : ¬ Conflicting existing (accountEntries outputs)) {w w' s : ℕ}
    {o o' : PvmAccumulateOutput coreCount} (h : (w, o) ∈ outputs) (h' : (w', o') ∈ outputs)
    (hs : s ∉ existing) (hc : (o.pending.serviceAccounts.get? s).join ≠ none)
    (hc' : (o'.pending.serviceAccounts.get? s).join ≠ none) : w = w' := by
  have hentry : ∀ {w : ℕ} {o : PvmAccumulateOutput coreCount}, (w, o) ∈ outputs →
      (o.pending.serviceAccounts.get? s).join ≠ none →
        ∃ e ∈ accountEntries outputs, IsNew existing e ∧ e.2.1 = s ∧ e.1 = w := by
    intro w o hmem hjoin
    obtain ⟨account, haccount⟩ := Option.ne_none_iff_exists'.mp hjoin
    have hget : o.pending.serviceAccounts.get? s = some (some account) :=
      Option.join_eq_some_iff.mp haccount
    exact ⟨(w, s, some account), mem_accountEntries.mpr ⟨o, hmem, hget⟩, ⟨nofun, hs⟩, rfl, rfl⟩
  obtain ⟨e, he, hn, hse, rfl⟩ := hentry h hc
  obtain ⟨e', he', hn', hse', rfl⟩ := hentry h' hc'
  by_contra hne
  exact hconf ⟨e, he, e', he', hn, hn', hse.trans hse'.symm, hne⟩

/-- The merge takes from the output what it says about the service. -/
structure Selected (existing : List ℕ) (outputs : Outputs coreCount) (s : ℕ)
    (o : PvmAccumulateOutput coreCount) : Prop where
  kept : s ∉ deletedServices existing outputs
  writer : ∃ w, (w, o) ∈ outputs ∧ ((s = w ∧ s ∈ existing) ∨
    (s ∉ existing ∧ (o.pending.serviceAccounts.get? s).join ≠ none))

lemma Selected.unique (hnodup : (outputs.map Prod.fst).Nodup)
    (hconf : ¬ Conflicting existing (accountEntries outputs)) (h : Selected existing outputs s o)
    {o' : PvmAccumulateOutput coreCount} (h' : Selected existing outputs s o') : o = o' := by
  obtain ⟨-, w, ho, hkeep⟩ := h
  obtain ⟨-, w', ho', hkeep'⟩ := h'
  have hw : w = w' := by
    rcases hkeep with ⟨hown, hex⟩ | ⟨hex, hc⟩
    · rcases hkeep' with ⟨hown', -⟩ | ⟨hex', -⟩
      · exact hown.symm.trans hown'
      · exact absurd hex hex'
    · rcases hkeep' with ⟨-, hex'⟩ | ⟨-, hc'⟩
      · exact absurd hex' hex
      · exact creator_unique hconf ho ho' hex hc hc'
  subst hw
  exact output_unique hnodup ho ho'

lemma mem_accountWrites {a : Option ServiceAccount} :
    (s, a) ∈ accountWrites existing outputs ↔
      (s ∈ deletedServices existing outputs ∧ a = none) ∨
        (a ≠ none ∧ ∃ o, Selected existing outputs s o ∧ o.pending.serviceAccounts.get? s = some a) := by
  simp only [accountWrites, List.mem_append, List.mem_map, List.mem_filter, decide_eq_true_eq]
  constructor
  · rintro (⟨⟨w, s', a'⟩, ⟨he, htakes⟩, heq⟩ | ⟨s', hs', heq⟩)
    · cases heq
      obtain ⟨o, ho, hget⟩ := mem_accountEntries.mp he
      simp only [Takes, not_or, not_and, not_not] at htakes
      obtain ⟨hsome, hkept, hown⟩ := htakes
      refine .inr ⟨hsome, o, ⟨hkept, w, ho, ?_⟩, hget⟩
      by_cases hex : s ∈ existing
      · exact .inl ⟨hown hex, hex⟩
      · refine .inr ⟨hex, ?_⟩
        rw [show o.pending.serviceAccounts.get? s = some a from hget, Option.join_some]
        exact hsome
    · cases heq
      exact .inl ⟨hs', rfl⟩
  · rintro (⟨hdel, rfl⟩ | ⟨hsome, o, ⟨hkept, w, ho, hkeep⟩, hget⟩)
    · exact .inr ⟨s, hdel, rfl⟩
    · refine .inl ⟨(w, s, a), ⟨mem_accountEntries.mpr ⟨o, ho, hget⟩, ?_⟩, rfl⟩
      rintro (hnone | hdel | ⟨hex, hne⟩)
      · exact hsome hnone
      · exact hkept hdel
      · rcases hkeep with ⟨hown, -⟩ | ⟨hex', -⟩
        · exact hne hown
        · exact hex' hex

lemma accountWrites_agree (hnodup : (outputs.map Prod.fst).Nodup)
    (hconf : ¬ Conflicting existing (accountEntries outputs)) (s : ℕ)
    (a a' : Option ServiceAccount) (h : (s, a) ∈ accountWrites existing outputs)
    (h' : (s, a') ∈ accountWrites existing outputs) : a = a' := by
  rcases mem_accountWrites.mp h with ⟨hdel, rfl⟩ | ⟨-, o, hselected, hget⟩
  · rcases mem_accountWrites.mp h' with ⟨-, rfl⟩ | ⟨-, o, hselected, -⟩
    · rfl
    · exact absurd hdel hselected.kept
  · rcases mem_accountWrites.mp h' with ⟨hdel, -⟩ | ⟨-, o', hselected', hget'⟩
    · exact absurd hdel hselected.kept
    · obtain rfl := hselected.unique hnodup hconf hselected'
      exact Option.some.inj (hget.symm.trans hget')

lemma mapWritesOf_agree {K V : Type} [DecidableEq K] (owner : K → ℕ)
    (map : PendingChanges → Dict K (Option V)) (hnodup : (outputs.map Prod.fst).Nodup)
    (hconf : ¬ Conflicting existing (accountEntries outputs)) (key : K) (v v' : Option V)
    (h : (key, v) ∈ mapWritesOf owner existing map outputs)
    (h' : (key, v') ∈ mapWritesOf owner existing map outputs) : v = v' := by
  rcases mem_mapWritesOf h with ⟨hdel, rfl, -⟩ | ⟨hkept, w, o, ho, hget, hkeep⟩
  · rcases mem_mapWritesOf h' with ⟨-, rfl, -⟩ | ⟨hkept', -⟩
    · rfl
    · exact absurd hdel hkept'
  · rcases mem_mapWritesOf h' with ⟨hdel', -⟩ | ⟨hkept', w', o', ho', hget', hkeep'⟩
    · exact absurd hdel' hkept
    · have hselected : Selected existing outputs (owner key) o := ⟨hkept, w, ho, hkeep⟩
      obtain rfl := hselected.unique hnodup hconf ⟨hkept', w', ho', hkeep'⟩
      exact Option.some.inj (hget.symm.trans hget')

end Agreement

/-! ## Order -/

/-- The same changes, up to the order of the dictionaries. -/
structure SameChanges (p q : PendingChanges) : Prop where
  serviceAccounts : p.serviceAccounts.Same q.serviceAccounts
  storageItems : p.storageItems.Same q.storageItems
  preimages : p.preimages.Same q.preimages
  preimagesAvailability : p.preimagesAvailability.Same q.preimagesAvailability

section Order

variable {outputs outputs' : Outputs coreCount}

lemma candidates_perm (h : outputs.Perm outputs') : candidates outputs = candidates outputs' := by
  apply sortedSet_congr
  intro s
  simp only [List.mem_flatMap, h.mem_iff]

lemma deletedServices_perm (h : outputs.Perm outputs') (existing : List ℕ) :
    deletedServices existing outputs = deletedServices existing outputs' := by
  apply sortedSet_congr
  intro s
  simp only [List.mem_flatMap, h.mem_iff]

lemma existingServices_perm (h : outputs.Perm outputs') (services : ServicesState) :
    existingServices services outputs = existingServices services outputs' := by
  rw [existingServices, candidates_perm h, existingServices]

lemma mem_accountEntries_perm (h : outputs.Perm outputs') (e : AccountEntry) :
    e ∈ accountEntries outputs ↔ e ∈ accountEntries outputs' := by
  simp only [mem_accountEntries, h.mem_iff]

lemma conflicting_perm (h : outputs.Perm outputs') (existing : List ℕ) :
    Conflicting existing (accountEntries outputs) ↔
      Conflicting existing (accountEntries outputs') := by
  simp only [Conflicting, mem_accountEntries_perm h]

lemma mem_accountWrites_perm (h : outputs.Perm outputs') (existing : List ℕ)
    (w : ℕ × Option ServiceAccount) :
    w ∈ accountWrites existing outputs ↔ w ∈ accountWrites existing outputs' := by
  simp only [accountWrites, deletedServices_perm h, List.mem_append, List.mem_map, List.mem_filter,
    mem_accountEntries_perm h]

lemma mem_mapWritesOf_perm {K V : Type} [DecidableEq K] (owner : K → ℕ)
    (map : PendingChanges → Dict K (Option V)) (h : outputs.Perm outputs') (existing : List ℕ)
    (w : K × Option V) :
    w ∈ mapWritesOf owner existing map outputs ↔ w ∈ mapWritesOf owner existing map outputs' := by
  simp only [mapWritesOf, deletedServices_perm h, List.mem_flatMap, h.mem_iff]

/-- Without a conflict the merged changes do not depend on the order of the outputs. -/
lemma mergedChanges_perm (hnodup : (outputs.map Prod.fst).Nodup) (h : outputs.Perm outputs')
    {existing : List ℕ} (hconf : ¬ Conflicting existing (accountEntries outputs)) :
    SameChanges (mergedChanges existing outputs) (mergedChanges existing outputs') where
  serviceAccounts :=
    Dict.same_assign (mem_accountWrites_perm h existing) (accountWrites_agree hnodup hconf) ∅
  storageItems :=
    Dict.same_assign (mem_mapWritesOf_perm _ _ h existing) (mapWritesOf_agree _ _ hnodup hconf) ∅
  preimages :=
    Dict.same_assign (mem_mapWritesOf_perm _ _ h existing) (mapWritesOf_agree _ _ hnodup hconf) ∅
  preimagesAvailability :=
    Dict.same_assign (mem_mapWritesOf_perm _ _ h existing) (mapWritesOf_agree _ _ hnodup hconf) ∅

/-- Two results that Python cannot tell apart: the same exception, or equal changes. -/
def SameMerge : Except AccumulationError PendingChanges →
    Except AccumulationError PendingChanges → Prop
  | .ok p, .ok q => SameChanges p q
  | .error e, .error e' => e = e'
  | _, _ => False

/-- The merge raises on a conflict or because it cannot read an account. -/
lemma merge_eq_error {services : ServicesState} {e : AccumulationError}
    (h : mergeAccumulationServiceChanges services outputs = .error e) :
    e = .conflict ∨ ∃ s ∈ candidates outputs, ∃ e₀, services.serviceExists s = .error e₀ ∧
      e = .services e₀ := by
  cases hexisting : existingServices services outputs with
  | error e' =>
    rw [mergeAccumulationServiceChanges, hexisting] at h
    cases h
    exact .inr (existingAmong_eq_error hexisting)
  | ok existing =>
    rcases merge_cases hexisting with ⟨-, hmerge⟩ | ⟨-, hmerge⟩
    · rw [hmerge] at h
      cases h
      exact .inl rfl
    · rw [hmerge] at h
      cases h

/-- The merge of the same outputs in another order. -/
lemma merge_perm (services : ServicesState) (hnodup : (outputs.map Prod.fst).Nodup)
    (h : outputs.Perm outputs') :
    SameMerge (mergeAccumulationServiceChanges services outputs)
      (mergeAccumulationServiceChanges services outputs') := by
  cases hexisting : existingServices services outputs with
  | error e =>
    have hexisting' : existingServices services outputs' = .error e := by
      rw [← existingServices_perm h, hexisting]
    rw [mergeAccumulationServiceChanges, hexisting, mergeAccumulationServiceChanges, hexisting']
    exact rfl
  | ok existing =>
    have hexisting' : existingServices services outputs' = .ok existing := by
      rw [← existingServices_perm h, hexisting]
    rcases merge_cases hexisting with ⟨hconf, hmerge⟩ | ⟨hconf, hmerge⟩
    · rcases merge_cases hexisting' with ⟨-, hmerge'⟩ | ⟨hconf', -⟩
      · rw [hmerge, hmerge']
        exact rfl
      · exact absurd ((conflicting_perm h existing).mp hconf) hconf'
    · rcases merge_cases hexisting' with ⟨hconf', -⟩ | ⟨-, hmerge'⟩
      · exact absurd ((conflicting_perm h existing).mpr hconf') hconf
      · rw [hmerge, hmerge']
        exact mergedChanges_perm hnodup h hconf

end Order

end Accumulation
