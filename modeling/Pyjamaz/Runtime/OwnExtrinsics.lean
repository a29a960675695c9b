import Pyjamaz.Runtime.ExtrinsicCollector

/-!
# The node's own extrinsics

A block is only good when its extrinsics pass the checks of the state transition.  The tickets and the
order of the preimages are made to pass them when they are collected.  Guarantees, credentials and
assurances are taken as they have come, and a preimage as often as it has come: these pass as long as
they are fed in order and once, which is what `Node.Admits` says of a step.  `collected_passes` is for
every run of such steps.

The accumulator that tickets are collected for has to be without repeated ids, because the collector
counts its ids as a set and the state transition its tickets as a list.
-/

namespace Extrinsics

open Octets Safrole Services
open Assurances (AssuranceStateItem Credential Guarantee ReportFields areAssurancesSorted
  areGuarantorsUnqiueAndSorted areGuarenteesSorted hasDuplicatedGuarentees hasDuplicatedValidators)

variable {Report Hash Signature : Type}

/-! ## What a good block has -/

/-- The order of two validator indexes; comparing with a missing one raises. -/
def Precedes : Option ℕ → Option ℕ → Prop
  | some i, some j => i < j
  | _, _ => False

instance : DecidableRel Precedes := fun i j =>
  match i, j with
  | some i, some j => inferInstanceAs (Decidable (i < j))
  | some _, none => isFalse id
  | none, _ => isFalse id

lemma Precedes.trans {i j k : Option ℕ} (h : Precedes i j) (h' : Precedes j k) : Precedes i k := by
  match i, j, k, h, h' with
  | some i, some j, some k, h, h' => exact Nat.lt_trans h h'

/-- Two or three credentials in the order of their validators. -/
structure GoodCredentials (credentials : List (Credential Signature)) : Prop where
  enough : 2 ≤ credentials.length
  notMore : credentials.length ≤ 3
  increasing : (credentials.map Credential.validatorIndex).Pairwise (· < ·)

/-- The bodies of collected tickets. -/
def Extrinsic.ticketBodies (e : Extrinsic Report Hash Signature) : List TicketBody :=
  e.tickets.map fun t => ⟨t.1, t.2.attempt⟩

section Valid

variable (env : Environment Report Hash Signature) (chain : ChainState)
  (e : Extrinsic Report Hash Signature)

/-- Tickets with increasing ids that are not in the accumulator and get into it. -/
structure TicketsPass : Prop where
  increasing : (e.tickets.map Prod.fst).Pairwise (· < ·)
  unknown : ∀ ticket ∈ e.ticketBodies, ∀ existing ∈ chain.ticketAccumulator,
    existing.id ≠ ticket.id
  retained : ∀ epochChange, ∃ accumulator,
    updateAccumulator env.config epochChange e.ticketBodies chain.ticketAccumulator =
      .ok accumulator

/-- Guarantees for increasing cores, with good credentials. -/
structure GuaranteesPass : Prop where
  increasing : (e.guarantees.map (fun g => env.report.coreIndex g.report)).Pairwise (· < ·)
  credentials : ∀ g ∈ e.guarantees, GoodCredentials g.signatures

def AssurancesPass : Prop := (e.assurances.map Assurance.validatorIndex).Pairwise Precedes

/-- Sorted preimages, no two the same, that are still needed. -/
structure PreimagesPass : Prop where
  sorted : (e.preimages.map Preimage.sortKey).Pairwise (· ≤ ·)
  unique : e.preimages.Nodup
  needed : ∀ p ∈ e.preimages, isPreimageNeeded env.primitives chain.services p = .ok true

/-- The collected extrinsics pass the checks of the state transition. -/
structure Passes : Prop where
  tickets : TicketsPass env chain e
  guarantees : GuaranteesPass env e
  assurances : AssurancesPass e
  preimages : PreimagesPass env chain e

end Valid

/-! ## What may be fed -/

namespace Node

variable [DecidableEq Hash] (env : Environment Report Hash Signature)
  (n : Node Report Hash Signature)

/-- A report that waits already, or one for a core behind those of all reports that wait. -/
def Fits (report : Report) : Prop :=
  match n.guarenteesQueue.get? (env.report.hash report) with
  | some g => env.report.coreIndex report = env.report.coreIndex g.report
  | none => ∀ g ∈ n.guarenteesQueue.values,
      env.report.coreIndex g.report < env.report.coreIndex report

/-- A guarantee of this work package would fit, and its credentials are good. -/
def FitsItem (index : ℕ) : Prop :=
  ∀ item report, n.items[index]? = some item → item.workReport = some report →
    n.Fits env report ∧ GoodCredentials item.signatures

/-- A guarantee that waits shares its credentials with the work package. -/
def Shared (index : ℕ) : Prop := ∃ g ∈ n.guarenteesQueue.values, g.signatures = .item index

/-- What must hold of a step: guarantees and assurances come in order with good credentials, a
guarantee that waits gets at most a third credential of a later validator and loses none, and no
preimage comes that is queued already. -/
def Admits : Action Report Hash Signature → Prop
  | .addGuarantee report _ signatures => n.Fits env report ∧ GoodCredentials signatures
  | .addAssurance assurance =>
    ∀ a ∈ n.assurancesQueue, Precedes a.validatorIndex assurance.validatorIndex
  | .addPreimage preimage => preimage ∉ n.preimageQueue
  | .processAssurances _ validatorIndex assignments =>
    engagedCores assignments = [] ∨
      (engagedCores assignments).length = 1 ∧
      (∀ a ∈ n.assurancesQueue, Precedes a.validatorIndex validatorIndex) ∧
      (env.config.soloMode → validatorIndex = some 0)
  | .retry index => ¬ n.Shared index
  | .addSignature package credential => ∀ index, n.pendingWorkPackages.get? package = some index →
      n.Shared index → (n.credentials (.item index)).length = 2 ∧
        ∀ c ∈ n.credentials (.item index), c.validatorIndex < credential.validatorIndex
  | .takeGuarantee _ => ∀ package rest index, n.waiting = none →
      n.guaranteeQueue = package :: rest → n.pendingWorkPackages.get? package = some index →
      2 < (n.credentials (.item index)).length → n.FitsItem env index
  | .endWait _ => ∀ index, n.waiting = some index → n.FitsItem env index
  | _ => True

/-- All steps of a run are admitted where they are taken. -/
def AdmitsAll : Node Report Hash Signature → List (Action Report Hash Signature) → Prop
  | _, [] => True
  | n, action :: actions => n.Admits env action ∧ AdmitsAll (n.act env action) actions

/-- What waits would pass. -/
structure InOrder : Prop where
  cores : (n.guarenteesQueue.values.map (fun g => env.report.coreIndex g.report)).Pairwise (· < ·)
  credentials : ∀ g ∈ n.guarenteesQueue.values, GoodCredentials (n.credentials g.signatures)
  assurances : (n.assurancesQueue.map Assurance.validatorIndex).Pairwise Precedes
  preimages : n.preimageQueue.Nodup

end Node

/-! ## Tickets -/

section Tickets

variable {cfg : Config} {accumulator : List TicketBody} {queue : Dict ℕ TicketEnvelope}
  {allowed : Bool}

/-- What is collected comes from the queue, in order, and is new to the accumulator. -/
lemma mem_collectTickets {t : ℕ × TicketEnvelope}
    (h : t ∈ (collectTickets cfg accumulator allowed queue).1) :
    t.1 ∉ accumulator.map TicketBody.id ∧
      t.1 ∈ winningIds cfg (accumulator.map TicketBody.id) queue.keys := by
  unfold collectTickets at h
  split at h
  · cases h
  · have hmem := List.mem_of_mem_take h
    rw [List.mem_insertionSort] at hmem
    have hkept := (List.mem_filter.mp hmem).2
    simpa using hkept

lemma collectTickets_increasing :
    ((collectTickets cfg accumulator allowed queue).1.map Prod.fst).Pairwise (· < ·) := by
  unfold collectTickets
  split
  · exact .nil
  · have hsorted : ((candidates cfg accumulator queue).entries.insertionSort
        (fun a b => a.1 ≤ b.1)).Pairwise (fun a b => a.1 ≤ b.1) := by
      have : Std.Total (fun a b : ℕ × TicketEnvelope => a.1 ≤ b.1) :=
        ⟨fun a b => le_total a.1 b.1⟩
      have : IsTrans (ℕ × TicketEnvelope) (fun a b => a.1 ≤ b.1) := ⟨fun _ _ _ h h' => h.trans h'⟩
      exact List.pairwise_insertionSort _ _
    have hnodup : (((candidates cfg accumulator queue).entries.insertionSort
        (fun a b => a.1 ≤ b.1)).map Prod.fst).Nodup :=
      ((List.perm_insertionSort _ _).map Prod.fst).nodup_iff.mpr
        (candidates cfg accumulator queue).nodup
    rw [List.Nodup, List.pairwise_map] at hnodup
    rw [List.pairwise_map]
    exact (hsorted.imp₂ (fun _ _ hle hne => lt_of_le_of_ne hle hne) hnodup).sublist
      (List.take_sublist _ _)

/-- Sorting tickets of different ids sorts the ids. -/
lemma map_id_sortedTickets {tickets : List TicketBody} (hnodup : (tickets.map TicketBody.id).Nodup) :
    (sortedTickets cfg tickets).map TicketBody.id =
      (sortedSet (tickets.map TicketBody.id)).take cfg.epochTimeslots := by
  have hsorted : (tickets.insertionSort (fun a b => a.id ≤ b.id)).Pairwise
      (fun a b => a.id ≤ b.id) := by
    have : Std.Total (fun a b : TicketBody => a.id ≤ b.id) := ⟨fun a b => le_total a.id b.id⟩
    have : IsTrans TicketBody (fun a b => a.id ≤ b.id) := ⟨fun _ _ _ h h' => h.trans h'⟩
    exact List.pairwise_insertionSort _ tickets
  have hperm : ((tickets.insertionSort (fun a b => a.id ≤ b.id)).map TicketBody.id).Perm
      (sortedSet (tickets.map TicketBody.id)) := by
    refine ((List.perm_insertionSort _ tickets).map TicketBody.id).trans ?_
    rw [sortedSet, hnodup.dedup]
    exact (List.perm_insertionSort _ _).symm
  rw [sortedTickets, List.map_take]
  congr 1
  exact hperm.eq_of_pairwise' (List.pairwise_map.mpr hsorted) (pairwise_sortedSet _)

/-- New tickets that win against all others are in the accumulator after it is cut. -/
lemma updateAccumulator_eq_ok_of_winning {tickets : List TicketBody} {others : List ℕ}
    (haccumulator : (accumulator.map TicketBody.id).Nodup)
    (htickets : (tickets.map TicketBody.id).Nodup)
    (hunknown : ∀ ticket ∈ tickets, ticket.id ∉ accumulator.map TicketBody.id)
    (hothers : ∀ ticket ∈ tickets, ticket.id ∈ others)
    (hwinning : ∀ ticket ∈ tickets,
      ticket.id ∈ winningIds cfg (accumulator.map TicketBody.id) others) (epochChange : Bool) :
    ∃ post, updateAccumulator cfg epochChange tickets accumulator = .ok post := by
  have hall : (tickets.map TicketBody.id ++ accumulator.map TicketBody.id).Nodup := by
    rw [List.nodup_append]
    refine ⟨htickets, haccumulator, ?_⟩
    rintro id hid _ hid' rfl
    obtain ⟨ticket, hticket, rfl⟩ := List.mem_map.mp hid
    exact hunknown ticket hticket hid'
  -- the tickets that are sorted, of which those that win here win among fewer
  obtain ⟨kept, hkept, hnodup, hsub, hmem⟩ : ∃ kept,
      kept = (if epochChange then tickets else tickets ++ accumulator) ∧
      (kept.map TicketBody.id).Nodup ∧
      kept.map TicketBody.id ⊆ accumulator.map TicketBody.id ++ others ∧ tickets ⊆ kept := by
    refine ⟨_, rfl, ?_⟩
    have hsub : tickets.map TicketBody.id ⊆ accumulator.map TicketBody.id ++ others := by
      intro id hid
      obtain ⟨ticket, hticket, rfl⟩ := List.mem_map.mp hid
      exact List.mem_append_right _ (hothers ticket hticket)
    cases epochChange with
    | true => exact ⟨htickets, hsub, List.Subset.refl _⟩
    | false =>
      refine ⟨by simpa using hall, ?_, List.subset_append_left _ _⟩
      rw [if_neg Bool.false_ne_true, List.map_append]
      exact List.append_subset.mpr ⟨hsub, List.subset_append_left _ _⟩
  unfold updateAccumulator
  rw [← hkept]
  refine ⟨sortedTickets cfg kept, if_neg ?_⟩
  rw [List.any_eq_true]
  rintro ⟨ticket, hticket, hlost⟩
  refine of_decide_eq_true hlost ?_
  have hid : ticket.id ∈ (sortedTickets cfg kept).map TicketBody.id := by
    rw [map_id_sortedTickets hnodup]
    exact mem_take_sortedSet_of_subset hsub (List.mem_map_of_mem (hmem hticket))
      (hwinning ticket hticket)
  obtain ⟨ticket', hticket', heq⟩ := List.mem_map.mp hid
  have hticket'' : ticket' ∈ kept := by
    rw [sortedTickets] at hticket'
    exact (List.mem_insertionSort _).mp (List.mem_of_mem_take hticket')
  rwa [← List.inj_on_of_nodup_map hnodup hticket'' (hmem hticket) heq]

end Tickets

/-! ## Preimages -/

section Preimages

variable {P : Services.Primitives} {st : ServicesState} {queue : List Preimage}

lemma sortedPreimages_eq_ok {sorted : List Preimage} (h : sortedPreimages queue = .ok sorted) :
    sorted.Perm queue ∧ (sorted.map Preimage.sortKey).Pairwise (· ≤ ·) := by
  unfold sortedPreimages at h
  split at h
  · cases h
    refine ⟨List.perm_insertionSort _ _, ?_⟩
    have : Std.Total (fun p q : Preimage => p.sortKey ≤ q.sortKey) :=
      ⟨fun p q => List.le_total p.sortKey q.sortKey⟩
    have : IsTrans Preimage (fun p q => p.sortKey ≤ q.sortKey) := ⟨fun _ _ _ => List.le_trans⟩
    exact List.pairwise_map.mpr (List.pairwise_insertionSort _ _)
  · cases h

/-- The queue is split in two in its order, and the first part is needed. -/
lemma splitNeeded_eq_ok {taken left : List Preimage} (h : splitNeeded P st queue = .ok (taken, left)) :
    taken.Sublist queue ∧ left.Sublist queue ∧
      ∀ p ∈ taken, isPreimageNeeded P st p = .ok true := by
  induction queue generalizing taken left with
  | nil =>
    cases h
    exact ⟨.slnil, .slnil, nofun⟩
  | cons p rest ih =>
    rw [splitNeeded, Except.bind_eq_ok] at h
    obtain ⟨needed, hneeded, h⟩ := h
    rw [Except.bind_eq_ok] at h
    obtain ⟨⟨taken', left'⟩, hrest, h⟩ := h
    obtain ⟨htaken, hleft, hall⟩ := ih hrest
    cases needed with
    | true =>
      cases h
      refine ⟨htaken.cons_cons p, hleft.cons p, ?_⟩
      intro q hq
      rcases List.mem_cons.mp hq with rfl | hq
      · exact hneeded
      · exact hall q hq
    | false =>
      cases h
      exact ⟨htaken.cons p, hleft.cons_cons p, hall⟩

end Preimages

/-! ## One step -/

lemma GoodCredentials.append {credentials : List (Credential Signature)}
    {credential : Credential Signature} (h : GoodCredentials credentials)
    (hlength : credentials.length = 2)
    (hlast : ∀ c ∈ credentials, c.validatorIndex < credential.validatorIndex) :
    GoodCredentials (credentials ++ [credential]) := by
  refine ⟨by simp [hlength], by simp [hlength], ?_⟩
  rw [List.map_append, List.pairwise_append]
  refine ⟨h.increasing, List.pairwise_singleton _ _, ?_⟩
  intro i hi j hj
  obtain ⟨c, hc, rfl⟩ := List.mem_map.mp hi
  rw [List.map_singleton, List.mem_singleton] at hj
  rw [hj]
  exact hlast c hc

namespace Node

variable {env : Environment Report Hash Signature} {n : Node Report Hash Signature}
  {chain : ChainState} {e : Extrinsic Report Hash Signature}

/-- What a block takes and what stays, where collecting does not raise. -/
lemma produceBlock_eq_ok (h : (n.produceBlock env chain).2 = .ok e) :
    ∃ sorted left, sortedPreimages n.preimageQueue = .ok sorted ∧
      splitNeeded env.primitives chain.services sorted = .ok (e.preimages, left) ∧
      e.tickets = (collectTickets env.config chain.ticketAccumulator
        (slotPhaseIndex env.config chain.timeslot < env.config.ticketSubmissionEndSlot)
        n.ticketsQueue).1 ∧
      e.assurances = n.assurancesQueue ∧ e.guarantees = n.collectGuarantees := by
  simp only [produceBlock] at h
  split at h
  · cases h
  next sorted hsorted =>
  split at h
  · cases h
  next preimages left hsplit =>
  cases h
  exact ⟨sorted, left, hsorted, hsplit, rfl, rfl, rfl⟩

lemma credentials_changeItem {index : ℕ} {change : WorkPackageQueueItem Report Signature →
    WorkPackageQueueItem Report Signature} {l : CredentialList Signature}
    (h : l = .item index → ∀ item, (change item).signatures = item.signatures) :
    (n.changeItem index change).credentials l = n.credentials l := by
  cases l with
  | own credentials => rfl
  | item index' =>
    change ((n.items.modify index change)[index']?).elim [] _ = (n.items[index']?).elim [] _
    rw [List.getElem?_modify]
    by_cases hindex : index = index'
    · subst hindex
      cases n.items[index]? with
      | none => rfl
      | some item => simpa using h rfl item
    · simp [hindex]

/-- A change to a work package keeps the order when it keeps the credentials of guarantees good. -/
lemma InOrder.changeItem (h : n.InOrder env) {index : ℕ}
    {change : WorkPackageQueueItem Report Signature → WorkPackageQueueItem Report Signature}
    (hgood : n.Shared index → GoodCredentials ((n.changeItem index change).credentials (.item index))) :
    (n.changeItem index change).InOrder env := by
  refine ⟨h.cores, ?_, h.assurances, h.preimages⟩
  intro g hg
  by_cases hshared : g.signatures = .item index
  · rw [hshared]
    exact hgood ⟨g, hg, hshared⟩
  · rw [credentials_changeItem (fun heq => absurd heq hshared)]
    exact h.credentials g hg

/-- Assurances behind the others. -/
lemma InOrder.addAssurances (h : n.InOrder env) {as : List (Assurance Hash Signature)}
    (has : (as.map Assurance.validatorIndex).Pairwise Precedes)
    (hall : ∀ a ∈ n.assurancesQueue, ∀ a' ∈ as, Precedes a.validatorIndex a'.validatorIndex) :
    { n with assurancesQueue := n.assurancesQueue ++ as }.InOrder env := by
  refine ⟨h.cores, h.credentials, ?_, h.preimages⟩
  rw [List.map_append, List.pairwise_append]
  refine ⟨h.assurances, has, ?_⟩
  intro i hi j hj
  obtain ⟨a, ha, rfl⟩ := List.mem_map.mp hi
  obtain ⟨a', ha', rfl⟩ := List.mem_map.mp hj
  exact hall a ha a' ha'

/-- The queues after a block are empty or what is left. -/
lemma InOrder.produceBlock (h : n.InOrder env) (chain : ChainState) :
    (n.produceBlock env chain).1.InOrder env := by
  simp only [Node.produceBlock]
  split
  · exact ⟨h.cores, h.credentials, h.assurances, h.preimages⟩
  next sorted hsorted =>
  have hnodup : sorted.Nodup := (sortedPreimages_eq_ok hsorted).1.nodup_iff.mpr h.preimages
  split
  · exact ⟨h.cores, h.credentials, h.assurances, hnodup⟩
  next preimages left hsplit =>
  exact ⟨.nil, nofun, .nil, hnodup.sublist (splitNeeded_eq_ok hsplit).2.1⟩

/-- The assurances of one core are in order, in solo mode when the node has the first index. -/
lemma pairwise_assurers {validatorIndex : Option ℕ}
    (hsolo : env.config.soloMode → validatorIndex = some 0) :
    (assurers env validatorIndex).Pairwise Precedes := by
  unfold assurers
  split
  · next hmode =>
    rw [hsolo hmode]
    decide
  · exact List.pairwise_singleton _ _

lemma precedes_assurers {validatorIndex i j : Option ℕ}
    (hsolo : env.config.soloMode → validatorIndex = some 0) (hi : Precedes i validatorIndex)
    (hj : j ∈ assurers env validatorIndex) : Precedes i j := by
  have hpairwise := List.pairwise_cons.mp (pairwise_assurers hsolo)
  rcases List.mem_cons.mp hj with rfl | hj
  · exact hi
  · exact hi.trans (hpairwise.1 j hj)

lemma inOrder_init : (init : Node Report Hash Signature).InOrder env := ⟨.nil, nofun, .nil, .nil⟩

variable [DecidableEq Hash]

/-- A guarantee that fits goes to its place. -/
lemma InOrder.addGuarantee (h : n.InOrder env) {g : QueuedGuarantee Report Signature}
    (hfits : n.Fits env g.report) (hgood : GoodCredentials (n.credentials g.signatures)) :
    (n.addGuarantee env g).InOrder env := by
  refine ⟨?_, ?_, h.assurances, h.preimages⟩
  · change ((n.guarenteesQueue.insert (env.report.hash g.report) g).values.map
      (fun g => env.report.coreIndex g.report)).Pairwise (· < ·)
    rw [Fits] at hfits
    cases hget : n.guarenteesQueue.get? (env.report.hash g.report) with
    | some g' =>
      rw [hget] at hfits
      rw [Dict.map_values_insert (v := g') hget hfits]
      exact h.cores
    | none =>
      rw [hget] at hfits
      rw [Dict.values_insert_of_none hget, List.map_append, List.pairwise_append]
      refine ⟨h.cores, List.pairwise_singleton _ _, ?_⟩
      intro core hcore core' hcore'
      obtain ⟨g', hg', rfl⟩ := List.mem_map.mp hcore
      rw [List.map_singleton, List.mem_singleton] at hcore'
      rw [hcore']
      exact hfits g' hg'
  · intro g' hg'
    change GoodCredentials (n.credentials g'.signatures)
    rcases Dict.mem_values_insert hg' with rfl | hg'
    · exact hgood
    · exact h.credentials g' hg'

/-- The worker's guarantee, where it fits. -/
lemma InOrder.ingest (h : n.InOrder env) {index slot : ℕ} (hfits : n.FitsItem env index) :
    (n.ingest env index slot).InOrder env := by
  unfold Node.ingest
  split
  · next report hreport =>
    obtain ⟨item, hitem, hreport⟩ := Option.bind_eq_some_iff.mp hreport
    obtain ⟨hfits, hgood⟩ := hfits item report hitem hreport
    refine h.addGuarantee hfits ?_
    change GoodCredentials ((n.items[index]?).elim [] _)
    rw [hitem]
    exact hgood
  · exact h

/-- The node's assurances of one core, behind those that wait. -/
lemma InOrder.processAssurances (h : n.InOrder env) {anchor : Hash} {validatorIndex : Option ℕ}
    {assignments : List (Option (AssuranceStateItem Report Signature))}
    (hadmits : n.Admits env (.processAssurances anchor validatorIndex assignments)) :
    (n.act env (.processAssurances anchor validatorIndex assignments)).InOrder env := by
  rcases hadmits with hnone | ⟨hone, hlast, hsolo⟩
  · refine h.addAssurances ?_ ?_
    · rw [Extrinsics.processAssurances, hnone]
      exact .nil
    · rw [Extrinsics.processAssurances, hnone]
      nofun
  · obtain ⟨core, hcore⟩ := List.length_eq_one_iff.mp hone
    have hindexes : ((Extrinsics.processAssurances env anchor validatorIndex assignments).map
        Assurance.validatorIndex) = assurers env validatorIndex := by
      rw [Extrinsics.processAssurances, hcore, List.flatMap_singleton, List.map_map]
      exact List.map_id _
    refine h.addAssurances ?_ ?_
    · rw [hindexes]
      exact pairwise_assurers hsolo
    · intro a ha a' ha'
      exact precedes_assurers hsolo (hlast a ha)
        (hindexes ▸ List.mem_map_of_mem ha')

/-- A new work package has a list of credentials that no waiting guarantee shares. -/
lemma InOrder.addWorkPackage (h : n.InOrder env) {package : Hash} :
    (n.act env (.addWorkPackage package)).InOrder env := by
  refine ⟨h.cores, ?_, h.assurances, h.preimages⟩
  intro g hg
  have hgood := h.credentials g hg
  -- the list of a guarantee that waits is not empty, so it is not the new one
  cases hlist : g.signatures with
  | own credentials =>
    rw [hlist] at hgood
    exact hgood
  | item index =>
    rw [hlist] at hgood
    change GoodCredentials (((n.items ++ [⟨none, []⟩])[index]?).elim [] _)
    have hindex : index < n.items.length := by
      by_contra hlarge
      have henough := hgood.enough
      rw [Node.credentials, List.getElem?_eq_none (not_lt.mp hlarge)] at henough
      cases henough
    rw [List.getElem?_append_left hindex]
    exact hgood

/-- A credential goes to the end of its list, which a waiting guarantee may share. -/
lemma InOrder.addSignature (h : n.InOrder env) {package : Hash} {credential : Credential Signature}
    (hadmits : n.Admits env (.addSignature package credential)) :
    (n.act env (.addSignature package credential)).InOrder env := by
  simp only [Node.act]
  split
  · next index hindex =>
    have hqueue : ({ n with guaranteeQueue := n.guaranteeQueue ++ [package] } :
        Node Report Hash Signature).InOrder env :=
      ⟨h.cores, h.credentials, h.assurances, h.preimages⟩
    refine hqueue.changeItem ?_
    intro hshared
    obtain ⟨hlength, hlast⟩ := hadmits index hindex hshared
    obtain ⟨g, hg, hlist⟩ := hshared
    have hgood := h.credentials g hg
    rw [hlist] at hgood
    change GoodCredentials (((n.items.modify index _)[index]?).elim [] _)
    rw [Node.credentials] at hgood hlength hlast
    rw [List.getElem?_modify]
    cases hitem : n.items[index]? with
    | none =>
      rw [hitem] at hlength
      cases hlength
    | some item =>
      rw [hitem] at hgood hlength hlast
      simpa using hgood.append hlength hlast
  · exact h

/-- The worker makes a guarantee of the next package, or waits. -/
lemma InOrder.takeGuarantee (h : n.InOrder env) {slot : ℕ} (hadmits : n.Admits env (.takeGuarantee slot)) :
    (n.act env (.takeGuarantee slot)).InOrder env := by
  simp only [Node.act]
  split
  · next package rest hwaiting hqueue =>
    have hrest : ({ n with guaranteeQueue := rest } : Node Report Hash Signature).InOrder env :=
      ⟨h.cores, h.credentials, h.assurances, h.preimages⟩
    unfold takePackage
    split
    · exact hrest
    next index hindex =>
    split
    · exact hrest
    next item hitem =>
    split
    · exact hrest
    next hready =>
    split
    · exact ⟨h.cores, h.credentials, h.assurances, h.preimages⟩
    next hmore =>
    refine hrest.ingest (hadmits package rest index hwaiting hqueue hindex ?_)
    have hitem' : n.items[index]? = some item := hitem
    rw [Node.credentials, hitem']
    change 2 < item.signatures.length
    omega
  · exact h

/-- A step that is admitted keeps what waits in order. -/
theorem InOrder.act (h : n.InOrder env) {action : Action Report Hash Signature}
    (hadmits : n.Admits env action) : (n.act env action).InOrder env := by
  cases action with
  | addTicket ticket ringPublicKeys entropy =>
    simp only [Node.act]
    split
    · exact ⟨h.cores, h.credentials, h.assurances, h.preimages⟩
    · exact h
  | addOwnTicket ticketId signature validatorCount =>
    simp only [Node.act]
    split
    · split
      · exact h
      · exact ⟨h.cores, h.credentials, h.assurances, h.preimages⟩
    · exact h
  | clearTickets => exact ⟨h.cores, h.credentials, h.assurances, h.preimages⟩
  | processEpochChange => exact ⟨h.cores, h.credentials, h.assurances, h.preimages⟩
  | addGuarantee report slot signatures => exact h.addGuarantee hadmits.1 hadmits.2
  | addAssurance assurance =>
    refine h.addAssurances (List.pairwise_singleton _ _) ?_
    intro a ha a' ha'
    rw [List.mem_singleton.mp ha']
    exact hadmits a ha
  | addPreimage preimage =>
    refine ⟨h.cores, h.credentials, h.assurances, ?_⟩
    change (n.preimageQueue ++ [preimage]).Nodup
    exact List.nodup_append.mpr ⟨h.preimages, List.nodup_singleton _, fun p hp q hq heq =>
      hadmits (by rwa [← List.mem_singleton.mp hq, ← heq])⟩
  | processAssurances anchor validatorIndex assignments => exact h.processAssurances hadmits
  | addWorkPackage package => exact h.addWorkPackage
  | report index workReport =>
    refine h.changeItem ?_
    rintro ⟨g, hg, hshared⟩
    have hkept : (n.changeItem index
        (fun item => { item with workReport := some workReport })).credentials (.item index) =
          n.credentials (.item index) := credentials_changeItem (fun _ _ => rfl)
    rw [hkept, ← hshared]
    exact h.credentials g hg
  | retry index => exact h.changeItem (fun hshared => absurd hshared hadmits)
  | addSignature package credential => exact h.addSignature hadmits
  | takeGuarantee slot => exact h.takeGuarantee hadmits
  | endWait slot =>
    simp only [Node.act]
    split
    · next index hwaiting =>
      have hidle : ({ n with waiting := none } : Node Report Hash Signature).InOrder env :=
        ⟨h.cores, h.credentials, h.assurances, h.preimages⟩
      exact hidle.ingest (hadmits index hwaiting)
    · exact h
  | produceBlock chain => exact h.produceBlock chain

/-- A run of admitted steps keeps what waits in order. -/
theorem InOrder.run (h : n.InOrder env) {actions : List (Action Report Hash Signature)}
    (hadmits : n.AdmitsAll env actions) : (n.run env actions).InOrder env := by
  induction actions generalizing n with
  | nil => exact h
  | cons action actions ih => exact ih (h.act hadmits.1) hadmits.2

end Node

/-! ## Blocks -/

section Blocks

variable {env : Environment Report Hash Signature} {n : Node Report Hash Signature}
  {chain : ChainState} {e : Extrinsic Report Hash Signature}

/-- The tickets of a block pass, whatever has been fed. -/
lemma ticketsPass_of_produceBlock
    (haccumulator : (chain.ticketAccumulator.map TicketBody.id).Nodup)
    (h : (n.produceBlock env chain).2 = .ok e) : TicketsPass env chain e := by
  obtain ⟨-, -, -, -, htickets, -, -⟩ := Node.produceBlock_eq_ok h
  have hids : e.ticketBodies.map TicketBody.id = e.tickets.map Prod.fst := by
    rw [Extrinsic.ticketBodies, List.map_map]
    rfl
  have hincreasing : (e.tickets.map Prod.fst).Pairwise (· < ·) := by
    rw [htickets]
    exact collectTickets_increasing
  have hmem : ∀ ticket ∈ e.ticketBodies,
      ticket.id ∉ chain.ticketAccumulator.map TicketBody.id ∧
        ticket.id ∈ winningIds env.config (chain.ticketAccumulator.map TicketBody.id)
          n.ticketsQueue.keys := by
    intro ticket hticket
    obtain ⟨t, ht, rfl⟩ := List.mem_map.mp hticket
    rw [htickets] at ht
    exact mem_collectTickets ht
  refine ⟨hincreasing, ?_, ?_⟩
  · intro ticket hticket existing hexisting heq
    exact (hmem ticket hticket).1 (List.mem_map.mpr ⟨existing, hexisting, heq⟩)
  · intro epochChange
    refine updateAccumulator_eq_ok_of_winning haccumulator ?_
      (fun ticket hticket => (hmem ticket hticket).1) ?_
      (fun ticket hticket => (hmem ticket hticket).2) epochChange
    · rw [hids]
      exact hincreasing.imp (fun hlt => hlt.ne)
    · intro ticket hticket
      have hset := List.mem_of_mem_take (hmem ticket hticket).2
      rw [mem_sortedSet, List.mem_append] at hset
      exact hset.resolve_left (hmem ticket hticket).1

/-- The preimages of a block are sorted and needed, whatever has been fed. -/
lemma preimages_of_produceBlock (h : (n.produceBlock env chain).2 = .ok e) :
    (e.preimages.map Preimage.sortKey).Pairwise (· ≤ ·) ∧
      ∀ p ∈ e.preimages, isPreimageNeeded env.primitives chain.services p = .ok true := by
  obtain ⟨sorted, left, hsorted, hsplit, -, -, -⟩ := Node.produceBlock_eq_ok h
  obtain ⟨htaken, -, hneeded⟩ := splitNeeded_eq_ok hsplit
  exact ⟨(sortedPreimages_eq_ok hsorted).2.sublist (htaken.map _), hneeded⟩

/-- The block of a node passes when what waits is in order. -/
lemma Node.InOrder.passes (hn : n.InOrder env)
    (haccumulator : (chain.ticketAccumulator.map TicketBody.id).Nodup)
    (h : (n.produceBlock env chain).2 = .ok e) : Passes env chain e := by
  obtain ⟨hpreimages, hneeded⟩ := preimages_of_produceBlock h
  obtain ⟨sorted, left, hsorted, hsplit, -, hassurances, hguarantees⟩ := Node.produceBlock_eq_ok h
  refine ⟨ticketsPass_of_produceBlock haccumulator h, ⟨?_, ?_⟩, ?_, ⟨hpreimages, ?_, hneeded⟩⟩
  · rw [hguarantees, collectGuarantees, List.map_map]
    exact hn.cores
  · intro g hg
    rw [hguarantees] at hg
    obtain ⟨queued, hqueued, rfl⟩ := List.mem_map.mp hg
    exact hn.credentials queued hqueued
  · rw [AssurancesPass, hassurances]
    exact hn.assurances
  · have hnodup : sorted.Nodup := (sortedPreimages_eq_ok hsorted).1.nodup_iff.mpr hn.preimages
    exact hnodup.sublist (splitNeeded_eq_ok hsplit).1

/-! ## The checks of the state transition -/

lemma ticketsInOrder_of_pairwise {tickets : List TicketBody}
    (h : (tickets.map TicketBody.id).Pairwise (· < ·)) : ticketsInOrder tickets = true := by
  rw [ticketsInOrder, List.all_eq_true]
  generalize tickets.map TicketBody.id = ids at h
  induction ids with
  | nil => nofun
  | cons id ids ih =>
    obtain ⟨hid, hids⟩ := List.pairwise_cons.mp h
    cases ids with
    | nil => nofun
    | cons id' ids =>
      intro pair hpair
      rcases List.mem_cons.mp hpair with rfl | hpair
      · exact decide_eq_true (hid id' List.mem_cons_self).le
      · exact ih hids pair hpair

/-- Tickets that verify to the ids they were queued under get through the loop of the transition, and
their order is accepted. -/
theorem TicketsPass.checks (h : TicketsPass env chain e) {validatorCount : ℕ} {ring : List Octets32}
    {entropy : Octets32} (hverify : ∀ t ∈ e.tickets,
      createTicketBody env.config env.vrf validatorCount ring entropy t.2 = .ok ⟨t.1, t.2.attempt⟩) :
    inputTickets env.config env.vrf validatorCount ring entropy chain.ticketAccumulator
        (e.tickets.map Prod.snd) = .ok e.ticketBodies ∧
      ticketsInOrder e.ticketBodies = true := by
  have hincreasing : (e.ticketBodies.map TicketBody.id).Pairwise (· < ·) := by
    rw [Extrinsic.ticketBodies, List.map_map]
    exact h.increasing
  refine ⟨?_, ticketsInOrder_of_pairwise hincreasing⟩
  have hunknown := h.unknown
  rw [Extrinsic.ticketBodies] at hunknown ⊢
  generalize e.tickets = tickets at hverify hunknown
  induction tickets with
  | nil => rfl
  | cons t tickets ih =>
    have hrest := ih (fun t ht => hverify t (List.mem_cons_of_mem _ ht))
      (fun ticket hticket => hunknown ticket (List.mem_cons_of_mem _ hticket))
    have hnew : chain.ticketAccumulator.any (fun existing => existing.id = t.1) = false := by
      rw [List.any_eq_false]
      intro existing hexisting
      simpa using hunknown _ List.mem_cons_self existing hexisting
    rw [List.map_cons, inputTickets, hverify t List.mem_cons_self]
    change (if _ then _ else _) = _
    rw [hnew, if_neg Bool.false_ne_true, hrest]
    rfl

theorem GuaranteesPass.checks (h : GuaranteesPass env e) :
    areGuarenteesSorted env.report e.guarantees = true ∧
      hasDuplicatedGuarentees env.report e.guarantees = false ∧
      ∀ g ∈ e.guarantees, areGuarantorsUnqiueAndSorted g.signatures = true ∧
        ¬ (g.signatures.length < 2 ∨ 3 < g.signatures.length) := by
  refine ⟨decide_eq_true (h.increasing.imp Nat.le_of_lt).isChain, ?_, ?_⟩
  · rw [hasDuplicatedGuarentees, Bool.not_eq_false', decide_eq_true_eq]
    exact h.increasing.imp Nat.ne_of_lt
  · intro g hg
    have hgood := h.credentials g hg
    exact ⟨decide_eq_true hgood.increasing.isChain, not_or.mpr
      ⟨not_lt.mpr hgood.enough, not_lt.mpr hgood.notMore⟩⟩

/-- The assurances of validators of the pool. -/
theorem AssurancesPass.checks (h : AssurancesPass e)
    {assurances : List (Assurances.Assurance Hash Signature)}
    (hindexes : e.assurances.map Assurance.validatorIndex =
      assurances.map (fun a => some a.validatorIndex)) :
    areAssurancesSorted assurances = true ∧ hasDuplicatedValidators assurances = false := by
  have hincreasing : (assurances.map Assurances.Assurance.validatorIndex).Pairwise (· < ·) := by
    rw [AssurancesPass, hindexes, List.pairwise_map] at h
    exact List.pairwise_map.mpr h
  refine ⟨decide_eq_true (hincreasing.imp Nat.le_of_lt).isChain, ?_⟩
  rw [hasDuplicatedValidators, Bool.not_eq_false', decide_eq_true_eq]
  exact hincreasing.imp Nat.ne_of_lt

theorem PreimagesPass.checks (h : PreimagesPass env chain e) :
    arePreimagesUnique e.preimages = true ∧ arePreimagesSorted e.preimages = true :=
  ⟨decide_eq_true h.unique, decide_eq_true h.sorted.isChain⟩

end Blocks

/-! ## Runs -/

/-- In every run of admitted steps, from the start of a node and for every state of the chain whose
accumulator has no id twice, the extrinsics that are collected for a block pass. -/
theorem collected_passes [DecidableEq Hash] (env : Environment Report Hash Signature)
    (actions : List (Action Report Hash Signature)) (chain : ChainState)
    (e : Extrinsic Report Hash Signature) (hadmits : Node.init.AdmitsAll env actions)
    (haccumulator : (chain.ticketAccumulator.map TicketBody.id).Nodup)
    (h : ((Node.init.run env actions).produceBlock env chain).2 = .ok e) : Passes env chain e :=
  (Node.inOrder_init.run hadmits).passes haccumulator h

/-! ## Sample runs -/

/-- Reports are numbers of cores. -/
def sampleEnvironment : Environment ℕ ℕ Unit where
  config := sampleConfig
  vrf := samplePrimitives id
  primitives := .ofHash (fun _ => Vector.replicate 32 0)
  report := ⟨id, id, fun _ => 6⟩
  sign _ _ _ := ()

def sampleChain : ChainState := ⟨1, [], ⟨State.StateStorage.init ∅, .empty, ∅⟩⟩

/-- Credentials of two validators come in this order, and the worker makes a guarantee. -/
def sampleGuarantee (first second : ℕ) : List (Action ℕ ℕ Unit) :=
  [.addWorkPackage 7, .report 0 1, .addSignature 7 ⟨first, ()⟩, .addSignature 7 ⟨second, ()⟩,
    .takeGuarantee 5, .endWait 5]

/-- The cores with a report, as `process_assurances` meets them. -/
def sampleAssignments (engaged : List Bool) : List (Option (AssuranceStateItem ℕ Unit)) :=
  engaged.map fun core => if core then some ⟨⟨0, 0, []⟩, 0⟩ else none

/-- The block of validator 4 with a guarantee for core 1 and assurances of these cores. -/
def sampleExtrinsic (first second : ℕ) (bitfields : List (List Bool)) : Extrinsic ℕ ℕ Unit :=
  ⟨[], [], bitfields.map (fun bitfield => ⟨0, bitfield, some 4, ()⟩),
    [⟨1, 5, [⟨first, ()⟩, ⟨second, ()⟩]⟩]⟩

/-- Where the second credential is of an earlier validator and two cores are engaged, the block has the
credentials of validators 3 and 1 in this order and two assurances of validator 4.  The transition
refuses both. -/
theorem sampleFeed_refused :
    ((Node.init.run sampleEnvironment (sampleGuarantee 3 1 ++
        [.processAssurances 0 (some 4) (sampleAssignments [true, true])])).produceBlock
          sampleEnvironment sampleChain).2 =
        .ok (sampleExtrinsic 3 1 [[true, false], [false, true]]) ∧
      areGuarantorsUnqiueAndSorted [(⟨3, ()⟩ : Credential Unit), ⟨1, ()⟩] = false ∧
      ¬ GuaranteesPass sampleEnvironment (sampleExtrinsic 3 1 [[true, false], [false, true]]) ∧
      ¬ AssurancesPass (sampleExtrinsic 3 1 [[true, false], [false, true]]) := by
  refine ⟨rfl, by decide, ?_, ?_⟩
  · intro h
    have hgood := (h.credentials _ List.mem_cons_self).increasing
    exact absurd hgood (by decide)
  · intro h
    have hpairwise : [some 4, some 4].Pairwise Precedes := h
    exact absurd hpairwise (by decide)

/-- With the credentials in order and one core engaged the block passes. -/
theorem sampleFeed_passes :
    ((Node.init.run sampleEnvironment (sampleGuarantee 1 3 ++
        [.processAssurances 0 (some 4) (sampleAssignments [false, true])])).produceBlock
          sampleEnvironment sampleChain).2 = .ok (sampleExtrinsic 1 3 [[false, true]]) ∧
      Passes sampleEnvironment sampleChain (sampleExtrinsic 1 3 [[false, true]]) := by
  have hadmits : Node.init.AdmitsAll sampleEnvironment (sampleGuarantee 1 3 ++
      [.processAssurances 0 (some 4) (sampleAssignments [false, true])]) := by
    refine ⟨trivial, trivial, ?_, ?_, ?_, ?_, .inr ⟨rfl, nofun, nofun⟩, trivial⟩
    · rintro index - ⟨g, hg, -⟩
      cases hg
    · rintro index - ⟨g, hg, -⟩
      cases hg
    · rintro package rest index - hqueue hindex hmore
      cases hqueue
      cases hindex
      exact absurd hmore (by decide)
    · rintro index hwaiting item report hitem hreport
      cases hwaiting
      cases hitem
      cases hreport
      exact ⟨nofun, by decide, by decide, by decide⟩
  exact ⟨rfl, collected_passes sampleEnvironment _ sampleChain _ hadmits .nil rfl⟩

end Extrinsics
