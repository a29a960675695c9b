import Pyjamaz.Assurances.Guarantors
import Pyjamaz.Library.Window

/-!
# Authorizations

A report is accepted on a core when its authorizer is in the pool of the core.  A block takes the
authorizers of its reports out of the pools and puts one more into each pool, from the queue of the
core; a pool keeps eight, and the oldest one goes when there are more.

The reports are checked against the pools before the block, and the authorizers are taken out after
accumulation, where a missing one would refuse a block whose accumulation is already done.
`authorizations_conserved` says that this does not happen, and that on every chain an authorizer is
used on a core at most as often as the queue of the core gave it.
-/

namespace Chain

open Assurances (Guarantee GuaranteeFields GuaranteeContext GuaranteeError AssignmentState
  BlockContext Constants checkGuarantee checkGuarantees checkAuthorizer)

variable {Report Hash Key Signature : Type} [DecidableEq Hash] [DecidableEq Key]

/-! ## The code -/

/-- `MAXIMUM_AUTHORIZATION_QUEUE_ITEMS` -/
def maximumAuthorizationQueueItems : ℕ := 80

/-- `MAXIMIM_AUTHORIZATION_POOL_ITEMS` -/
def maximumAuthorizationPoolItems : ℕ := 8

/-- The authorizer of a report is taken out of the pool of its core. -/
def useAuthorizer (fields : GuaranteeFields Report Hash) (authorizerPools : List (List Hash))
    (g : Guarantee Report Signature) : Except GuaranteeError (List (List Hash)) :=
  match authorizerPools[fields.coreIndex g.report]? with
  | none => .error .indexError
  | some pool =>
    if fields.authorizerHash g.report ∈ pool then
      .ok (authorizerPools.set (fields.coreIndex g.report)
        (pool.erase (fields.authorizerHash g.report)))
    else .error .coreUnauthorized

/-- The entry of the queue of a core at a timeslot. -/
def queueEntry (authorizerQueues : List (List Hash)) (timeslot core : ℕ) : Option Hash :=
  authorizerQueues[core]?.bind (fun queue => queue[timeslot % maximumAuthorizationQueueItems]?)

/-- The pool of a core gets one more authorizer. -/
def grantAuthorizer (authorizerQueues : List (List Hash)) (timeslot : ℕ)
    (authorizerPools : List (List Hash)) (core : ℕ) : Except GuaranteeError (List (List Hash)) :=
  match authorizerPools[core]?, queueEntry authorizerQueues timeslot core with
  | some pool, some entry =>
    .ok (authorizerPools.set core (Window.push maximumAuthorizationPoolItems pool entry))
  | _, _ => .error .indexError

/-- `AuthorizerPools.state_transition` -/
def authorizerPoolsTransition (coreCount : ℕ) (fields : GuaranteeFields Report Hash) (timeslot : ℕ)
    (guarantees : List (Guarantee Report Signature))
    (authorizerQueues authorizerPools : List (List Hash)) :
    Except GuaranteeError (List (List Hash)) := do
  let used ← guarantees.foldlM (useAuthorizer fields) authorizerPools
  (List.range coreCount).foldlM (grantAuthorizer authorizerQueues timeslot) used

/-! ## One block -/

section Block

variable {fields : GuaranteeFields Report Hash} {constants : Constants}
  {authorizerQueues pools pools' : List (List Hash)} {timeslot : ℕ}

/-- The pool of a core. -/
def poolAt (authorizerPools : List (List Hash)) (core : ℕ) : List Hash := authorizerPools.getD core []

omit [DecidableEq Hash] in
lemma poolAt_set {core core' : ℕ} {pool : List Hash} (hcore : core < pools.length) :
    poolAt (pools.set core pool) core' = if core = core' then pool else poolAt pools core' := by
  rw [poolAt, poolAt, List.getD_eq_getElem?_getD, List.getD_eq_getElem?_getD, List.getElem?_set]
  by_cases h : core = core'
  · rw [if_pos h, if_pos h, if_pos hcore, Option.getD_some]
  · rw [if_neg h, if_neg h]

omit [DecidableEq Hash] in
lemma poolAt_eq {core : ℕ} {pool : List Hash} (h : pools[core]? = some pool) :
    poolAt pools core = pool := by
  rw [poolAt, List.getD_eq_getElem?_getD, h, Option.getD_some]

/-- What a use takes out of the pools. -/
lemma useAuthorizer_spec {g : Guarantee Report Signature}
    (h : useAuthorizer fields pools g = .ok pools') :
    pools'.length = pools.length ∧ ∀ core, (poolAt pools' core).length ≤ (poolAt pools core).length ∧
      ∀ a, (poolAt pools core).count a = (poolAt pools' core).count a +
        if fields.coreIndex g.report = core ∧ fields.authorizerHash g.report = a then 1 else 0 := by
  unfold useAuthorizer at h
  cases hpool : pools[fields.coreIndex g.report]? with
  | none =>
    rw [hpool] at h
    cases h
  | some pool =>
    simp only [hpool] at h
    split_ifs at h with hmem
    cases h
    have hcore := (List.getElem?_eq_some_iff.mp hpool).1
    refine ⟨List.length_set, fun core => ?_⟩
    rw [poolAt_set hcore]
    by_cases heq : fields.coreIndex g.report = core
    · rw [if_pos heq, ← heq, poolAt_eq hpool]
      refine ⟨List.erase_sublist.length_le, fun a => ?_⟩
      by_cases ha : fields.authorizerHash g.report = a
      · rw [if_pos ⟨rfl, ha⟩, ← ha, List.count_erase_self]
        have hpos := List.count_pos_iff.mpr hmem
        omega
      · rw [if_neg (fun hboth => ha hboth.2), List.count_erase_of_ne (Ne.symm ha), Nat.add_zero]
    · rw [if_neg heq]
      refine ⟨le_refl _, fun a => ?_⟩
      rw [if_neg (fun hboth => heq hboth.1), Nat.add_zero]

/-- What the reports of a block take out of the pools. -/
lemma foldlM_useAuthorizer_spec {guarantees : List (Guarantee Report Signature)}
    (h : guarantees.foldlM (useAuthorizer fields) pools = .ok pools') :
    pools'.length = pools.length ∧ ∀ core, (poolAt pools' core).length ≤ (poolAt pools core).length ∧
      ∀ a, (poolAt pools core).count a = (poolAt pools' core).count a + guarantees.countP
        (fun g => fields.coreIndex g.report = core ∧ fields.authorizerHash g.report = a) := by
  induction guarantees generalizing pools with
  | nil =>
    cases h
    exact ⟨rfl, fun core => ⟨le_refl _, fun a => rfl⟩⟩
  | cons g guarantees ih =>
    rw [List.foldlM_cons] at h
    obtain ⟨middle, hg, h⟩ := Except.bind_eq_ok.mp h
    obtain ⟨hlength, huse⟩ := useAuthorizer_spec hg
    obtain ⟨hlength', huse'⟩ := ih h
    refine ⟨hlength'.trans hlength, fun core => ⟨(huse' core).1.trans (huse core).1, fun a => ?_⟩⟩
    rw [(huse core).2 a, (huse' core).2 a, List.countP_cons, Nat.add_assoc]
    simp only [decide_eq_true_eq]

/-- When no core has two reports and each authorizer is there, they can all be taken out. -/
lemma exists_foldlM_useAuthorizer {guarantees : List (Guarantee Report Signature)}
    (hcores : (guarantees.map (fun g => fields.coreIndex g.report)).Nodup)
    (hpools : ∀ g ∈ guarantees, ∃ pool, pools[fields.coreIndex g.report]? = some pool ∧
      fields.authorizerHash g.report ∈ pool) :
    ∃ pools', guarantees.foldlM (useAuthorizer fields) pools = .ok pools' := by
  induction guarantees generalizing pools with
  | nil => exact ⟨pools, rfl⟩
  | cons g guarantees ih =>
    rw [List.map_cons, List.nodup_cons] at hcores
    obtain ⟨pool, hpool, hmem⟩ := hpools g List.mem_cons_self
    have hg : useAuthorizer fields pools g = .ok (pools.set (fields.coreIndex g.report)
        (pool.erase (fields.authorizerHash g.report))) := by
      unfold useAuthorizer
      simp only [hpool]
      rw [if_pos hmem]
    rw [List.foldlM_cons, hg, Except.ok_bind]
    refine ih hcores.2 (fun g' hg' => ?_)
    -- the report is on another core
    have hne : fields.coreIndex g.report ≠ fields.coreIndex g'.report := by
      intro heq
      exact hcores.1 (heq ▸ List.mem_map_of_mem hg')
    rw [List.getElem?_set_ne hne]
    exact hpools g' (List.mem_cons_of_mem _ hg')

omit [DecidableEq Hash] in
/-- What the queues put into the pools. -/
lemma foldlM_grantAuthorizer_spec {n : ℕ}
    (h : (List.range n).foldlM (grantAuthorizer authorizerQueues timeslot) pools = .ok pools') :
    pools'.length = pools.length ∧
      (∀ core < n, ∃ entry, queueEntry authorizerQueues timeslot core = some entry ∧
        poolAt pools' core =
          Window.push maximumAuthorizationPoolItems (poolAt pools core) entry) ∧
      ∀ core, n ≤ core → poolAt pools' core = poolAt pools core := by
  induction n generalizing pools' with
  | zero =>
    cases h
    exact ⟨rfl, fun core hlt => absurd hlt (Nat.not_lt_zero core), fun core _ => rfl⟩
  | succ n ih =>
    rw [List.range_succ, List.foldlM_append] at h
    obtain ⟨middle, hfront, h⟩ := Except.bind_eq_ok.mp h
    obtain ⟨last, hgrant, h⟩ := Except.bind_eq_ok.mp h
    cases h
    obtain ⟨hlength, hbelow, habove⟩ := ih hfront
    unfold grantAuthorizer at hgrant
    split at hgrant
    · next pool entry hpool hentry =>
      cases hgrant
      have hcore := (List.getElem?_eq_some_iff.mp hpool).1
      refine ⟨List.length_set.trans hlength, fun core hlt => ?_, fun core hle => ?_⟩
      · rw [poolAt_set hcore]
        by_cases heq : n = core
        · rw [if_pos heq, ← heq, ← habove n (le_refl _), poolAt_eq hpool]
          exact ⟨entry, hentry, rfl⟩
        · rw [if_neg heq]
          exact hbelow core (by omega)
      · rw [poolAt_set hcore, if_neg (by omega)]
        exact habove core (by omega)
    · cases hgrant

omit [DecidableEq Hash] in
/-- With an entry for each core the pools can be filled. -/
lemma exists_foldlM_grantAuthorizer {n : ℕ} (hlength : n ≤ pools.length)
    (hqueues : ∀ core < n, ∃ entry, queueEntry authorizerQueues timeslot core = some entry) :
    ∃ pools', (List.range n).foldlM (grantAuthorizer authorizerQueues timeslot) pools =
      .ok pools' := by
  induction n with
  | zero => exact ⟨pools, rfl⟩
  | succ n ih =>
    obtain ⟨middle, hfront⟩ := ih (by omega) (fun core hlt => hqueues core (by omega))
    have hmiddle : n < middle.length := by
      rw [(foldlM_grantAuthorizer_spec hfront).1]
      omega
    obtain ⟨entry, hentry⟩ := hqueues n (Nat.lt_succ_self n)
    refine ⟨middle.set n (Window.push maximumAuthorizationPoolItems middle[n] entry), ?_⟩
    rw [List.range_succ, List.foldlM_append, hfront, Except.ok_bind, List.foldlM_cons,
      grantAuthorizer, List.getElem?_eq_getElem hmiddle, hentry]
    rfl

end Block

/-! ## Chains -/

/-- What a block brings: its guarantees, the queues after accumulation, and what its guarantees are
checked against, apart from the pools. -/
structure AuthorizationBlock (Report Hash Key Signature : Type) where
  guarantees : List (Guarantee Report Signature)
  authorizerQueues : List (List Hash)
  context : GuaranteeContext Report Hash Key Signature
  assignment : AssignmentState Key
  blockContext : BlockContext Key

variable (constants : Constants) (fields : GuaranteeFields Report Hash)

/-- The guarantees of a block pass their checks, with the pools before it. -/
def AuthorizationBlock.Accepted (b : AuthorizationBlock Report Hash Key Signature)
    (authorizerPools : List (List Hash)) : Prop :=
  checkGuarantees constants { b.context with fields := fields, authorizerPools := authorizerPools }
    b.assignment b.blockContext b.guarantees = .ok ()

/-- The pools after a block. -/
def AuthorizationBlock.transition (b : AuthorizationBlock Report Hash Key Signature)
    (authorizerPools : List (List Hash)) : Except GuaranteeError (List (List Hash)) :=
  authorizerPoolsTransition constants.coreCount fields b.assignment.timeslot b.guarantees
    b.authorizerQueues authorizerPools

/-- A chain of imported blocks. -/
inductive PoolRun (start : List (List Hash)) :
    List (AuthorizationBlock Report Hash Key Signature) → List (List Hash) → Prop where
  | start : PoolRun start [] start
  | block {chain : List (AuthorizationBlock Report Hash Key Signature)}
      {pools pools' : List (List Hash)} {b : AuthorizationBlock Report Hash Key Signature} :
      PoolRun start chain pools → b.Accepted constants fields pools →
      b.transition constants fields pools = .ok pools' → PoolRun start (chain ++ [b]) pools'

/-- Every core has a queue of full length. -/
def AuthorizationBlock.HasQueues (b : AuthorizationBlock Report Hash Key Signature) : Prop :=
  ∀ core < constants.coreCount, ∃ queue, b.authorizerQueues[core]? = some queue ∧
    queue.length = maximumAuthorizationQueueItems

/-- How often the reports of a block use an authorizer on a core. -/
def AuthorizationBlock.uses (b : AuthorizationBlock Report Hash Key Signature) (core : ℕ) (a : Hash) :
    ℕ :=
  b.guarantees.countP
    (fun g => fields.coreIndex g.report = core ∧ fields.authorizerHash g.report = a)

/-- Whether the queue of a core gives an authorizer in a block. -/
def AuthorizationBlock.grants (b : AuthorizationBlock Report Hash Key Signature) (core : ℕ)
    (a : Hash) : Prop :=
  queueEntry b.authorizerQueues b.assignment.timeslot core = some a

instance (b : AuthorizationBlock Report Hash Key Signature) (core : ℕ) (a : Hash) :
    Decidable (b.grants core a) :=
  inferInstanceAs (Decidable (_ = _))

/-- The uses of an authorizer on a chain. -/
def used (chain : List (AuthorizationBlock Report Hash Key Signature)) (core : ℕ) (a : Hash) : ℕ :=
  (chain.map (fun b => b.uses fields core a)).sum

/-- The grants of an authorizer on a chain. -/
def granted (chain : List (AuthorizationBlock Report Hash Key Signature)) (core : ℕ) (a : Hash) : ℕ :=
  chain.countP (fun b => b.grants core a)

section Runs

variable {constants : Constants} {fields : GuaranteeFields Report Hash}
  {start pools pools' : List (List Hash)}
  {chain : List (AuthorizationBlock Report Hash Key Signature)}
  {b : AuthorizationBlock Report Hash Key Signature}

/-- The check of the authorizer is one of the checks of a guarantee. -/
lemma checkAuthorizer_of_checkGuarantee {ctx : GuaranteeContext Report Hash Key Signature}
    {s : AssignmentState Key} {blockContext : BlockContext Key} {packages : List Hash}
    {g : Guarantee Report Signature}
    (h : checkGuarantee constants ctx s blockContext packages g = .ok ()) :
    checkAuthorizer ctx g.report = .ok () := by
  rw [checkGuarantee] at h
  obtain ⟨-, -, h⟩ := Except.bind_eq_ok.mp h
  obtain ⟨-, -, h⟩ := Except.bind_eq_ok.mp h
  obtain ⟨-, -, h⟩ := Except.bind_eq_ok.mp h
  obtain ⟨-, -, h⟩ := Except.bind_eq_ok.mp h
  obtain ⟨-, -, h⟩ := Except.bind_eq_ok.mp h
  obtain ⟨-, -, h⟩ := Except.bind_eq_ok.mp h
  obtain ⟨-, -, h⟩ := Except.bind_eq_ok.mp h
  obtain ⟨-, -, h⟩ := Except.bind_eq_ok.mp h
  obtain ⟨-, -, h⟩ := Except.bind_eq_ok.mp h
  obtain ⟨⟨⟩, hauthorizer, -⟩ := Except.bind_eq_ok.mp h
  exact hauthorizer

/-- The guarantees of an accepted block are on different cores, and authorized there. -/
lemma AuthorizationBlock.Accepted.authorized (h : b.Accepted constants fields pools) :
    (b.guarantees.map (fun g => fields.coreIndex g.report)).Nodup ∧
      ∀ g ∈ b.guarantees, ∃ pool, pools[fields.coreIndex g.report]? = some pool ∧
        fields.authorizerHash g.report ∈ pool := by
  rw [AuthorizationBlock.Accepted, checkGuarantees] at h
  obtain ⟨-, -, h⟩ := Except.bind_eq_ok.mp h
  obtain ⟨-, -, h⟩ := Except.bind_eq_ok.mp h
  obtain ⟨_, hduplicated, h⟩ := Except.bind_eq_ok.mp h
  obtain ⟨-, -, h⟩ := Except.bind_eq_ok.mp h
  obtain ⟨⟨⟩, hguarantees, -⟩ := Except.bind_eq_ok.mp h
  rw [Except.raiseIf_eq_ok, Assurances.hasDuplicatedGuarentees, Bool.not_eq_true',
    decide_eq_false_iff_not, not_not] at hduplicated
  refine ⟨hduplicated, fun g hg => ?_⟩
  have hauthorizer := checkAuthorizer_of_checkGuarantee (Except.forM_eq_ok hguarantees g hg)
  rw [checkAuthorizer] at hauthorizer
  cases hpool : pools[fields.coreIndex g.report]? with
  | none =>
    simp only [hpool] at hauthorizer
    cases hauthorizer
  | some pool =>
    simp only [hpool] at hauthorizer
    exact ⟨pool, rfl, not_not.mp (Except.raiseIf_eq_ok.mp hauthorizer)⟩

omit [DecidableEq Key] in
/-- The pools after a block, core by core. -/
lemma transition_spec (h : b.transition constants fields pools = .ok pools') :
    pools'.length = pools.length ∧ ∀ core < constants.coreCount,
      ((poolAt pools core).length ≤ maximumAuthorizationPoolItems →
        (poolAt pools' core).length ≤ maximumAuthorizationPoolItems) ∧
      ∀ a, b.uses fields core a + (poolAt pools' core).count a ≤
        (poolAt pools core).count a + if b.grants core a then 1 else 0 := by
  rw [AuthorizationBlock.transition, authorizerPoolsTransition] at h
  obtain ⟨middle, huse, hgrant⟩ := Except.bind_eq_ok.mp h
  obtain ⟨hlength, huse⟩ := foldlM_useAuthorizer_spec huse
  obtain ⟨hlength', hgrant, -⟩ := foldlM_grantAuthorizer_spec hgrant
  refine ⟨hlength'.trans hlength, fun core hcore => ?_⟩
  obtain ⟨entry, hentry, hpool⟩ := hgrant core hcore
  rw [hpool]
  refine ⟨fun hle => Window.length_push_le ((huse core).1.trans hle) entry, fun a => ?_⟩
  have hpush := Window.count_push_le (n := maximumAuthorizationPoolItems) (poolAt middle core) entry a
  have hgrants : b.grants core a ↔ entry = a := by
    rw [AuthorizationBlock.grants, hentry, Option.some.injEq]
  simp only [hgrants]
  rw [(huse core).2 a, AuthorizationBlock.uses]
  omega

/-- On every chain there is one pool of at most eight authorizers for each core, an authorizer is used
on a core at most as often as it was in its pool and was given by its queue, and the pools of a block
whose guarantees passed their checks are always found. -/
theorem authorizations_conserved (h : PoolRun constants fields start chain pools)
    (hstart : start.length = constants.coreCount)
    (hbound : ∀ core < constants.coreCount,
      (poolAt start core).length ≤ maximumAuthorizationPoolItems) :
    pools.length = constants.coreCount ∧
      (∀ core < constants.coreCount, (poolAt pools core).length ≤ maximumAuthorizationPoolItems ∧
        ∀ a, used fields chain core a + (poolAt pools core).count a ≤
          (poolAt start core).count a + granted chain core a) ∧
      ∀ b : AuthorizationBlock Report Hash Key Signature, b.Accepted constants fields pools →
        b.HasQueues constants → ∃ pools', b.transition constants fields pools = .ok pools' := by
  have hrun : pools.length = constants.coreCount ∧
      ∀ core < constants.coreCount, (poolAt pools core).length ≤ maximumAuthorizationPoolItems ∧
        ∀ a, used fields chain core a + (poolAt pools core).count a ≤
          (poolAt start core).count a + granted chain core a := by
    induction h with
    | start =>
      refine ⟨hstart, fun core hcore => ⟨hbound core hcore, fun a => ?_⟩⟩
      rw [used, List.map_nil, List.sum_nil, Nat.zero_add]
      exact Nat.le_add_right _ _
    | @block chain pools pools' b hrun haccepted htransition ih =>
      obtain ⟨hlength, hstep⟩ := transition_spec htransition
      obtain ⟨hsame, hold⟩ := ih
      refine ⟨hlength.trans hsame, fun core hcore => ?_⟩
      obtain ⟨hkeep, hcount⟩ := hstep core hcore
      refine ⟨hkeep (hold core hcore).1, fun a => ?_⟩
      have hbefore := (hold core hcore).2 a
      have hblock := hcount a
      have hgranted : granted (chain ++ [b]) core a =
          granted chain core a + if b.grants core a then 1 else 0 := by
        rw [granted, List.countP_append, List.countP_singleton]
        simp only [decide_eq_true_eq]
        rfl
      rw [used, List.map_append, List.sum_append, List.map_singleton, List.sum_singleton, hgranted]
      rw [used] at hbefore
      omega
  refine ⟨hrun.1, hrun.2, fun b haccepted hqueues => ?_⟩
  obtain ⟨hcores, hpools⟩ := haccepted.authorized
  obtain ⟨middle, huse⟩ := exists_foldlM_useAuthorizer hcores hpools
  have hlength : constants.coreCount ≤ middle.length := by
    rw [(foldlM_useAuthorizer_spec huse).1, hrun.1]
  have hentries : ∀ core < constants.coreCount, ∃ entry,
      queueEntry b.authorizerQueues b.assignment.timeslot core = some entry := by
    intro core hcore
    obtain ⟨queue, hqueue, hfull⟩ := hqueues core hcore
    have hoffset : b.assignment.timeslot % maximumAuthorizationQueueItems < queue.length := by
      rw [hfull]
      exact Nat.mod_lt _ (by decide)
    exact ⟨queue[b.assignment.timeslot % maximumAuthorizationQueueItems], by
      rw [queueEntry, hqueue, Option.bind_some, List.getElem?_eq_getElem hoffset]⟩
  obtain ⟨pools', hgrant⟩ := exists_foldlM_grantAuthorizer hlength hentries
  refine ⟨pools', ?_⟩
  rw [AuthorizationBlock.transition, authorizerPoolsTransition, huse]
  exact hgrant

end Runs

/-! ## A block with one report -/

/-- The second core of two is guaranteed, with the authorizer in its pool. -/
def authorizedBlock : AuthorizationBlock ℕ ℕ ℕ Unit where
  guarantees := [Assurances.pairGuarantee]
  authorizerQueues := List.replicate 2 (List.replicate 80 5)
  context := Assurances.pairContext
  assignment := Assurances.pairAssignment
  blockContext :=
    ⟨[⟨1, 10⟩, ⟨0, 11⟩, ⟨0, 12⟩, ⟨0, 13⟩, ⟨1, 14⟩, ⟨1, 15⟩], []⟩

lemma authorizedBlock_accepted :
    authorizedBlock.Accepted Assurances.tinyConstants Assurances.coreFields [[0], [1]] := by
  rw [AuthorizationBlock.Accepted]
  decide +kernel

theorem authorizations_conserved_sample :
    PoolRun Assurances.tinyConstants Assurances.coreFields [[0], [1]] [authorizedBlock]
      [[0, 5], [5]] ∧
    used Assurances.coreFields [authorizedBlock] 1 1 + (poolAt [[0, 5], [5]] 1).count 1 ≤
      (poolAt [[0], [1]] 1).count 1 + granted [authorizedBlock] 1 1 := by
  have hrun : PoolRun Assurances.tinyConstants Assurances.coreFields [[0], [1]] [authorizedBlock]
      [[0, 5], [5]] := PoolRun.start.block authorizedBlock_accepted (by decide +kernel)
  exact ⟨hrun, ((authorizations_conserved hrun rfl (by decide)).2.1 1 (by decide)).2 1⟩

end Chain
