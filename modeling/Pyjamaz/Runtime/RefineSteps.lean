import Pyjamaz.Runtime.RefinePipeline

/-!
# What a step of the refine pipeline brings

`Effect` lists what a step can bring: a package, a job, a report, credentials, or what the collector
does.  Any other step leaves all of it alone, or withdraws what the one submission has that the worker
holds (`Frame`).  The lemmas of `Effect` answer one question each: where a report, a job, a guarantee
or a package comes from.  Facts about runs are proved from these, and not from the steps.
-/

namespace Refinement

open Octets Services

variable {Signature : Type}

/-! ## The guarantees of the collector -/

section Collector

variable {collector : Extrinsics.Environment WorkReport Octets32 Signature}
  {n : Extrinsics.Node WorkReport Octets32 Signature}
  {g : Extrinsics.QueuedGuarantee WorkReport Signature} {own : ℕ}

lemma ingest_guarantee {index slot : ℕ}
    (h : g ∈ (n.ingest collector index slot).guarenteesQueue.values)
    (hown : g.signatures = .item own) :
    g ∈ n.guarenteesQueue.values ∨ own = index ∧
      (n.items[own]?).bind Extrinsics.WorkPackageQueueItem.workReport = some g.report := by
  rw [Extrinsics.Node.ingest] at h
  split at h
  · next report hreport =>
    rcases Dict.mem_values_insert h with rfl | h
    · cases hown
      exact .inr ⟨rfl, hreport⟩
    · exact .inl h
  · exact .inl h

lemma credentials_ne_nil {item : Extrinsics.WorkPackageQueueItem WorkReport Signature}
    (hitem : n.items[own]? = some item) (h : 2 ≤ item.signatures.length) :
    n.credentials (.item own) ≠ [] := by
  rw [Extrinsics.Node.credentials, hitem]
  intro hnil
  rw [show item.signatures = [] from hnil] at h
  cases h

lemma takePackage_guarantee {package : Octets32} {slot : ℕ}
    (h : g ∈ (n.takePackage collector package slot).guarenteesQueue.values)
    (hown : g.signatures = .item own) :
    g ∈ n.guarenteesQueue.values ∨
      (n.items[own]?).bind Extrinsics.WorkPackageQueueItem.workReport = some g.report ∧
        n.credentials (.item own) ≠ [] := by
  rw [Extrinsics.Node.takePackage] at h
  split at h
  · exact .inl h
  split at h
  · exact .inl h
  next item hitem =>
  split at h
  · exact .inl h
  next hready =>
  split at h
  · exact .inl h
  · rcases ingest_guarantee h hown with h | ⟨rfl, hreport⟩
    · exact .inl h
    · exact .inr ⟨hreport, credentials_ne_nil hitem (not_lt.mp (not_or.mp hready).2)⟩

/-- The worker waits on a submission with a report and credentials. -/
lemma takePackage_waiting {package : Octets32} {slot : ℕ}
    (h : (n.takePackage collector package slot).waiting = some own) :
    n.waiting = some own ∨ n.credentials (.item own) ≠ [] ∧
      ((n.items[own]?).bind Extrinsics.WorkPackageQueueItem.workReport).isSome := by
  rw [Extrinsics.Node.takePackage] at h
  split at h
  · exact .inl h
  split at h
  · exact .inl h
  next item hitem =>
  split at h
  · exact .inl h
  next hready =>
  obtain ⟨hreport, hlength⟩ := not_or.mp hready
  split at h
  · cases h
    refine .inr ⟨credentials_ne_nil hitem (not_lt.mp hlength), ?_⟩
    rw [hitem, Option.bind_some]
    exact Option.isSome_iff_ne_none.mpr (fun hnone => hreport (by rw [hnone]; rfl))
  · rw [Extrinsics.Node.ingest] at h
    split at h <;> exact .inl h

/-- A guarantee of an own submission is made of the report that this submission has, when it has
credentials or was waited on. -/
lemma act_guarantee {action : Extrinsics.Action WorkReport Octets32 Signature}
    (h : g ∈ (n.act collector action).guarenteesQueue.values) (hown : g.signatures = .item own) :
    g ∈ n.guarenteesQueue.values ∨
      (n.items[own]?).bind Extrinsics.WorkPackageQueueItem.workReport = some g.report ∧
        (n.credentials (.item own) ≠ [] ∨ n.waiting = some own) := by
  cases action with
  | addTicket ticket ringPublicKeys entropy =>
    rw [Extrinsics.Node.act] at h
    split at h <;> exact .inl h
  | addOwnTicket id signature validatorCount =>
    rw [Extrinsics.Node.act] at h
    split at h
    · split at h <;> exact .inl h
    · exact .inl h
  | addGuarantee report slot signatures =>
    rcases Dict.mem_values_insert h with rfl | h
    · cases hown
    · exact .inl h
  | addSignature package credential =>
    rw [(RefinePipeline.act_addSignature n collector package credential).2.2.1] at h
    exact .inl h
  | takeGuarantee slot =>
    rw [Extrinsics.Node.act] at h
    split at h
    · next package rest _ _ =>
      exact (takePackage_guarantee (n := { n with guaranteeQueue := rest }) h hown).imp id
        (fun hnew => ⟨hnew.1, .inl hnew.2⟩)
    · exact .inl h
  | endWait slot =>
    rw [Extrinsics.Node.act] at h
    split at h
    · next index hwaiting =>
      rcases ingest_guarantee (n := { n with waiting := none }) h hown with h | ⟨rfl, hreport⟩
      · exact .inl h
      · exact .inr ⟨hreport, .inr hwaiting⟩
    · exact .inl h
  | produceBlock chain =>
    rw [Extrinsics.Node.act, Extrinsics.Node.produceBlock] at h
    dsimp only at h
    split at h
    · exact .inl h
    split at h
    · exact .inl h
    · cases h
  | _ => exact .inl h

/-- The worker comes to wait on a submission with a report and credentials. -/
lemma act_waiting {action : Extrinsics.Action WorkReport Octets32 Signature}
    (h : (n.act collector action).waiting = some own) :
    n.waiting = some own ∨ n.credentials (.item own) ≠ [] ∧
      ((n.items[own]?).bind Extrinsics.WorkPackageQueueItem.workReport).isSome := by
  cases action with
  | addTicket ticket ringPublicKeys entropy =>
    rw [Extrinsics.Node.act] at h
    split at h <;> exact .inl h
  | addOwnTicket id signature validatorCount =>
    rw [Extrinsics.Node.act] at h
    split at h
    · split at h <;> exact .inl h
    · exact .inl h
  | addSignature package credential =>
    rw [Extrinsics.Node.act] at h
    split at h <;> exact .inl h
  | takeGuarantee slot =>
    rw [Extrinsics.Node.act] at h
    split at h
    · next package rest _ _ =>
      exact takePackage_waiting (n := { n with guaranteeQueue := rest }) h
    · exact .inl h
  | endWait slot =>
    rw [Extrinsics.Node.act] at h
    split at h
    · rw [Extrinsics.Node.ingest] at h
      split at h <;> cases h
    · exact .inl h
  | produceBlock chain =>
    rw [Extrinsics.Node.act, Extrinsics.Node.produceBlock] at h
    dsimp only at h
    split at h
    · exact .inl h
    split at h <;> exact .inl h
  | _ => exact .inl h

end Collector

namespace RefinePipeline

variable {env : Environment Signature} {p : RefinePipeline Signature}

/-! ## What a step does -/

/-- The worker takes a job. -/
structure Taking (env : Environment Signature) (p : RefinePipeline Signature) (job : Job) : Prop where
  idle : p.worker = .idle
  head : p.refineQueue.head? = some job.index
  package : p.packages[job.index]? = some job.package
  captured : p.Captured env job

/-- The worker files what the job gives. -/
structure Filing (env : Environment Signature) (p : RefinePipeline Signature) (job : Job)
    (out : RefinementOutput) : Prop where
  computing : p.worker = .computing job
  computed : compute env job = .ok out
  agrees : p.view.agrees env job = true

/-- Nothing comes: no package, no report, no credential, no guarantee and no job.  What one
submission has may be withdrawn. -/
structure Frame (p : RefinePipeline Signature) (own : Option ℕ) (q : RefinePipeline Signature) :
    Prop where
  packages : q.packages = p.packages
  d3lStore : q.d3lStore = p.d3lStore
  extrinsics : q.extrinsics = p.extrinsics
  guarantees : q.node.guarenteesQueue = p.node.guarenteesQueue
  waiting : q.node.waiting = p.node.waiting
  reports : ∀ {index report}, q.report? index = some report → p.report? index = some report
  others : ∀ {index}, own ≠ some index → q.report? index = p.report? index
  credentials : ∀ {index c}, c ∈ q.node.credentials (.item index) →
    c ∈ p.node.credentials (.item index) ∧ q.report? index = p.report? index
  computing : ∀ {job}, q.worker = .computing job → p.worker = .computing job
  publishing : ∀ {job report}, q.worker = .publishing job report →
    p.worker = .publishing job report
  signing : ∀ {job report hash others}, q.worker = .signing job report hash others →
    p.worker = .signing job report hash others
  cancelled : p.worker = .cancelled → q.worker = .cancelled

/-- The submission is with the worker, which has not signed it yet. -/
inductive Held (p : RefinePipeline Signature) (index : ℕ) : Prop where
  | next (hworker : p.worker = .idle) (hindex : index ∈ p.refineQueue)
  | computing {job : Job} (hworker : p.worker = .computing job) (hindex : job.index = index)
  | publishing {job : Job} {report : WorkReport} (hworker : p.worker = .publishing job report)
      (hindex : job.index = index)

/-- A step brings nothing, or one of five things; only a worker that is cancelled withdraws what it
signs. -/
inductive Effect (env : Environment Signature) (p : RefinePipeline Signature) :
    PipelineAction Signature → RefinePipeline Signature → Prop where
  | frame {action own q} (h : p.Frame own q) (hown : ∀ index, own = some index → p.Held index) :
      Effect env p action q
  | collected {action} (h : isPipelineStep action = false) :
      Effect env p (.collect action) { p with node := p.node.act env.collector action }
  | added {package extrinsics hash} (h : packageHash env package = some hash) :
      Effect env p (.addWorkPackage package extrinsics) { p with
        node := p.node.act env.collector (.addWorkPackage hash)
        packages := p.packages ++ [package]
        statuses := p.statuses ++ [.reportable 4]
        extrinsics := p.extrinsics.add env.primitives.blake2b256Hash hash extrinsics }
  | taken {job rest} (h : p.Taking env job) :
      Effect env p .takeItem { p with refineQueue := rest, worker := .computing job }
  | filed {job out d3lStore status} (h : p.Filing env job out)
      (hstored : p.storeReport env out = .ok d3lStore) :
      Effect env p .endCompute ({ p with
        d3lStore := d3lStore
        node := p.node.act env.collector (.report job.index out.report)
        worker := .publishing job out.report }.setStatus job.index status)
  | signed {action job report hash credentials q}
      (hworker : p.worker = .publishing job report ∧ packageHash env job.package = some hash ∨
        ∃ others, p.worker = .signing job report hash others)
      (hsigned : ∀ c ∈ credentials, (∃ others, p.worker = .signing job report hash others ∧
        c ∈ others.getD []) ∨ ∃ validator, c.signature = env.signReport validator report)
      (h : p.Signing job report hash credentials q) : Effect env p action q
  | withdrawn {job report hash others q} (hworker : p.worker = .signing job report hash others)
      (h : p.Frame (some job.index) q) (hreport : q.report? job.index = none)
      (hcancelled : q.worker = .cancelled) : Effect env p .cancel q

lemma Frame.of_node {own : Option ℕ} {q : RefinePipeline Signature}
    (hpackages : q.packages = p.packages) (hstore : q.d3lStore = p.d3lStore)
    (hextrinsics : q.extrinsics = p.extrinsics) (hnode : q.node = p.node)
    (hcomputing : ∀ {job}, q.worker = .computing job → p.worker = .computing job)
    (hpublishing : ∀ {job report}, q.worker = .publishing job report →
      p.worker = .publishing job report)
    (hsigning : ∀ {job report hash others}, q.worker = .signing job report hash others →
      p.worker = .signing job report hash others)
    (hcancelled : p.worker = .cancelled → q.worker = .cancelled) : p.Frame own q where
  packages := hpackages
  d3lStore := hstore
  extrinsics := hextrinsics
  guarantees := congrArg _ hnode
  waiting := congrArg _ hnode
  reports h := (report?_eq (congrArg _ hnode) _).symm.trans h
  others _ := report?_eq (congrArg _ hnode) _
  credentials h := ⟨hnode ▸ h, report?_eq (congrArg _ hnode) _⟩
  computing := hcomputing
  publishing := hpublishing
  signing := hsigning
  cancelled := hcancelled

lemma Frame.refl (p : RefinePipeline Signature) (own : Option ℕ) : p.Frame own p :=
  .of_node rfl rfl rfl rfl id id id id

lemma Frame.trans {own : Option ℕ} {q r : RefinePipeline Signature} (h : p.Frame own q)
    (h' : q.Frame own r) : p.Frame own r where
  packages := h'.packages.trans h.packages
  d3lStore := h'.d3lStore.trans h.d3lStore
  extrinsics := h'.extrinsics.trans h.extrinsics
  guarantees := h'.guarantees.trans h.guarantees
  waiting := h'.waiting.trans h.waiting
  reports hr := h.reports (h'.reports hr)
  others hown := (h'.others hown).trans (h.others hown)
  credentials hc := by
    obtain ⟨hq, hsame⟩ := h'.credentials hc
    obtain ⟨hp, hsame'⟩ := h.credentials hq
    exact ⟨hp, hsame.trans hsame'⟩
  computing hjob := h.computing (h'.computing hjob)
  publishing hjob := h.publishing (h'.publishing hjob)
  signing hjob := h.signing (h'.signing hjob)
  cancelled hworker := h'.cancelled (h.cancelled hworker)

/-- Nothing at all is withdrawn. -/
lemma Effect.same {action : PipelineAction Signature} {q : RefinePipeline Signature}
    (h : p.Frame none q) : Effect env p action q :=
  .frame h (fun _ hown => (by cases hown))

lemma frame_retry (env : Environment Signature) (p : RefinePipeline Signature) (index : ℕ) :
    p.Frame (some index) (p.retry env index) where
  packages := rfl
  d3lStore := rfl
  extrinsics := rfl
  guarantees := rfl
  waiting := rfl
  reports {j report} h := by
    rw [report?_retry] at h
    split at h
    · cases h
    · exact h
  others {j} hj := by
    rw [report?_retry, if_neg (fun heq => hj (congrArg some heq.symm))]
  credentials {j c} hc := by
    have hleft := credentials_changeItem p.node index (fun _ => ⟨none, []⟩) j ▸ hc
    rw [report?_retry]
    split at hleft
    · cases hitem : p.node.items[j]? <;> rw [hitem] at hleft <;> cases hleft
    · next hj => exact ⟨hleft, if_neg hj⟩
  computing := id
  publishing := id
  signing := id
  cancelled := id

lemma frame_reject (env : Environment Signature) (p : RefinePipeline Signature) (index : ℕ)
    (reason : ReportError) : p.Frame (some index) (p.reject env index reason) :=
  (frame_retry env p index).trans (.of_node rfl rfl rfl rfl id id id id)

lemma frame_handle (env : Environment Signature) (p : RefinePipeline Signature) (index : ℕ)
    (e : RefineError) : p.Frame (some index) (p.handle env index e) := by
  cases e with
  | dataUnavailable message => exact frame_retry env p index
  | report reason => exact frame_reject env p index reason

lemma frame_enqueueAuthorized (size : ℕ) (indices : List ℕ) :
    p.Frame none (p.enqueueAuthorized env size indices) := by
  induction indices generalizing p with
  | nil => exact .refl p none
  | cons index rest ih =>
    rw [RefinePipeline.enqueueAuthorized]
    split
    · split
      · exact .refl p none
      · exact ih
      · split
        · have hqueued : p.Frame none { p.setStatus index .reporting with
              refineQueue := p.refineQueue ++ [index] } := .of_node rfl rfl rfl rfl id id id id
          exact hqueued.trans ih
        · exact .of_node rfl rfl rfl rfl id id id id
    · exact ih

lemma frame_takeTimeslot : p.Frame none (p.takeTimeslot env) := by
  unfold RefinePipeline.takeTimeslot
  split
  · next rest _ _ =>
    have htaken : p.Frame none { p with timeslotQueue := rest } :=
      .of_node rfl rfl rfl rfl id id id id
    dsimp only
    split
    · exact htaken
    · exact htaken.trans (frame_enqueueAuthorized _ _)
  · exact .refl p none

lemma frame_endPut : p.Frame none (p.endPut env) := by
  unfold RefinePipeline.endPut
  split
  · exact .refl p none
  · next index size left _ =>
    have hput : p.Frame none { p with
        timeslotWorker := .idle, refineQueue := p.refineQueue ++ [index] } :=
      .of_node rfl rfl rfl rfl id id id id
    split
    · dsimp only
      split
      · exact hput.trans (frame_enqueueAuthorized _ _)
      · exact hput
    · exact .refl p none

lemma effect_takeItem : Effect env p .takeItem (p.takeItem env) := by
  unfold RefinePipeline.takeItem
  split
  · next index rest hworker hqueue =>
    have hheld : ∀ j, some index = some j → p.Held j := by
      intro j hj
      refine .next hworker ?_
      rw [hqueue, Option.some.inj hj]
      exact List.mem_cons_self ..
    have hpopped : p.Frame (some index) { p with refineQueue := rest } :=
      .of_node rfl rfl rfl rfl id id id id
    dsimp only
    split
    · exact .frame hpopped hheld
    · next package hpackage =>
      split
      · exact .frame (hpopped.trans (frame_handle env _ index _)) hheld
      · exact .frame (hpopped.trans (frame_retry env _ index)) hheld
      · next job hjob =>
        -- what is captured does not depend on the queue
        obtain ⟨rfl, rfl, hvalid, hcore, hhead, hcommitted, hroot, hslot, hkeys, hservices, hmappings,
          hdata⟩ := capture_eq_some hjob
        exact .taken ⟨hworker, by rw [hqueue]; rfl, hpackage, hvalid, hcore, hhead, hcommitted, hroot,
          hslot, hkeys, hservices, hmappings, hdata⟩
  · exact .same (.refl p none)

/-- The worker stops. -/
lemma frame_stop (own : Option ℕ) {worker : RefineWorker Signature}
    (h : worker = .idle ∨ worker = .cancelled) (hlive : worker = .idle → p.worker ≠ .cancelled) :
    p.Frame own { p with worker := worker } := by
  rcases h with rfl | rfl
  · exact .of_node rfl rfl rfl rfl (fun hjob => (by cases hjob)) (fun hjob => (by cases hjob))
      (fun hjob => (by cases hjob)) (fun hcancelled => absurd hcancelled (hlive rfl))
  · exact .of_node rfl rfl rfl rfl (fun hjob => (by cases hjob)) (fun hjob => (by cases hjob))
      (fun hjob => (by cases hjob)) (fun _ => rfl)

lemma effect_endCompute : Effect env p .endCompute (p.endCompute env) := by
  unfold RefinePipeline.endCompute
  split
  · next job hjob =>
    have hheld : ∀ j, some job.index = some j → p.Held j :=
      fun j hj => .computing hjob (Option.some.inj hj)
    have hstopped : p.Frame (some job.index) { p with worker := .idle } :=
      frame_stop _ (.inl rfl) (fun _ hworker => (by cases hjob.symm.trans hworker))
    dsimp only
    split
    · exact .frame (hstopped.trans (frame_reject env _ job.index _)) hheld
    · next out hout =>
      split
      · exact .frame (hstopped.trans (frame_retry env _ job.index)) hheld
      · next hagrees =>
        split
        · exact .frame (hstopped.trans (frame_reject env _ job.index _)) hheld
        · next d3lStore hstored => exact .filed ⟨hjob, hout, not_not.mp hagrees⟩ hstored
  · exact .same (.refl p none)

lemma signed_otherCredentials {core : ℕ} {report : WorkReport}
    {c : Assurances.Credential Signature} (h : c ∈ p.otherCredentials env core report) :
    ∃ validator, c.signature = env.signReport validator report := by
  unfold otherCredentials at h
  split at h
  · obtain ⟨assignment, -, rfl⟩ := List.mem_map.mp h
    exact ⟨_, rfl⟩
  · cases h

lemma effect_endPublish (raised : Bool) :
    Effect env p (.endPublish raised) (p.endPublish env raised) := by
  unfold RefinePipeline.endPublish
  split
  · next job report hworker =>
    have hheld : ∀ j, some job.index = some j → p.Held j :=
      fun j hj => .publishing hworker (Option.some.inj hj)
    have hstopped : p.Frame (some job.index) { p with worker := .idle } :=
      frame_stop _ (.inl rfl) (fun _ hcancelled => (by cases hworker.symm.trans hcancelled))
    split
    · cases hhash : packageHash env job.package with
      | none => exact .frame (hstopped.trans (frame_reject env _ job.index .raised)) hheld
      | some hash =>
        refine .signed (.inl ⟨hworker, hhash⟩) (fun c hc => .inr ?_) (signing_sign p _)
        rcases List.mem_cons.mp hc with rfl | hc
        · exact ⟨none, rfl⟩
        · exact signed_otherCredentials hc
    · exact .frame (hstopped.trans (frame_reject env _ job.index .raised)) hheld
  · exact .same (.refl p none)

lemma effect_endSign : Effect env p .endSign (p.endSign env) := by
  unfold RefinePipeline.endSign
  split
  · next job report hash others hworker =>
    split
    · refine .signed (.inr ⟨others, hworker⟩) (fun c hc => ?_) (signing_addSignatures _).put
      cases others with
      | none => exact .inr (signed_otherCredentials hc)
      | some others => exact .inl ⟨some others, hworker, hc⟩
    · exact .same (.refl p none)
  · exact .same (.refl p none)

lemma effect_cancel : Effect env p .cancel (p.cancel env) := by
  have hstopped (own : Option ℕ) : p.Frame own { p with worker := .cancelled } :=
    frame_stop own (.inr rfl) (fun h => (by cases h))
  unfold RefinePipeline.cancel
  split
  · next job hjob =>
    exact .frame ((hstopped _).trans (frame_retry env _ job.index))
      (fun j hj => .computing hjob (Option.some.inj hj))
  · next job report hworker =>
    exact .frame ((hstopped _).trans (frame_retry env _ job.index))
      (fun j hj => .publishing hworker (Option.some.inj hj))
  · next job report hash others hworker =>
    refine .withdrawn hworker ((hstopped _).trans (frame_retry env _ job.index)) ?_ rfl
    rw [report?_retry, if_pos rfl]
  · exact .same (hstopped none)

lemma effect_act (p : RefinePipeline Signature) (action : PipelineAction Signature) :
    Effect env p action (p.act env action) := by
  cases action with
  | changeView view => exact .same (.of_node rfl rfl rfl rfl id id id id)
  | collect action =>
    rw [RefinePipeline.act]
    split
    · exact .same (.refl p none)
    · next haction => exact .collected (eq_false_of_ne_true haction)
  | addWorkPackage package extrinsics =>
    rw [RefinePipeline.act, RefinePipeline.addWorkPackage]
    cases hhash : packageHash env package with
    | none => exact .same (.refl p none)
    | some hash => exact .added hhash
  | notifyTimeslot timeslot =>
    rw [RefinePipeline.act, RefinePipeline.notifyTimeslot]
    split
    · exact .same (.of_node rfl rfl rfl rfl id id id id)
    · exact .same (.refl p none)
  | takeTimeslot => exact .same frame_takeTimeslot
  | endPut => exact .same frame_endPut
  | takeItem => exact effect_takeItem
  | endCompute => exact effect_endCompute
  | endPublish raised => exact effect_endPublish raised
  | endSign => exact effect_endSign
  | cancel => exact effect_cancel

namespace Effect

variable {q : RefinePipeline Signature} {action : PipelineAction Signature}

/-- A report comes at the end of its computation. -/
lemma report? (h : Effect env p action q) (hscheduled : p.Scheduled env none) {index : ℕ}
    {report : WorkReport} (hreport : q.report? index = some report) :
    p.report? index = some report ∨ action = .endCompute ∧
      ∃ job out, job.index = index ∧ out.report = report ∧ p.Filing env job out := by
  cases h with
  | frame h _ => exact .inl (h.reports hreport)
  | collected haction =>
    exact .inl ((report?_eq (act_items env.collector p.node haction).1 index).symm.trans hreport)
  | added hhash =>
    exact .inl ((report?_append (act_addWorkPackage env.collector p.node _).1 index).symm.trans
      hreport)
  | taken h => exact .inl hreport
  | @filed job out _ _ hfiling _ =>
    have hlt : job.index < p.node.items.length := by
      rw [hscheduled.items_length]
      exact (List.getElem?_eq_some_iff.mp (hscheduled.computing hfiling.computing)).1
    have hfiled :=
      (bind_workReport_report p.node env.collector hlt out.report index).symm.trans hreport
    split at hfiled
    · next heq =>
      cases hfiled
      exact .inr ⟨rfl, job, out, heq.symm, rfl, hfiling⟩
    · exact .inl hfiled
  | signed _ _ h => exact .inl ((h.reports index).symm.trans hreport)
  | withdrawn _ h _ _ => exact .inl (h.reports hreport)

/-- A job comes when the worker takes it. -/
lemma computing (h : Effect env p action q) {job : Job} (hjob : q.worker = .computing job) :
    p.worker = .computing job ∨ action = .takeItem ∧ p.Taking env job := by
  cases h with
  | frame h _ => exact .inl (h.computing hjob)
  | taken h =>
    cases hjob
    exact .inr ⟨rfl, h⟩
  | filed _ _ => cases hjob
  | signed _ _ h =>
    rcases h.worker with hworker | ⟨_, hworker, -⟩ <;> cases hworker.symm.trans hjob
  | withdrawn _ h _ _ => exact .inl (h.computing hjob)
  | _ => exact .inl hjob

/-- A guarantee of an own submission comes when the submission has its report. -/
lemma guarantee (h : Effect env p action q) {g : Extrinsics.QueuedGuarantee WorkReport Signature}
    {own : ℕ} (hg : g ∈ q.node.guarenteesQueue.values) (hown : g.signatures = .item own) :
    g ∈ p.node.guarenteesQueue.values ∨ p.report? own = some g.report := by
  cases h with
  | frame h _ =>
    rw [h.guarantees] at hg
    exact .inl hg
  | collected _ => exact (act_guarantee hg hown).imp id And.left
  | signed _ _ h => exact .inl (h.guarantees ▸ hg)
  | withdrawn _ h _ _ => exact .inl (h.guarantees ▸ hg)
  | _ => exact .inl hg

/-- Submissions stay at their places. -/
lemma packages_grow (h : Effect env p action q) : p.packages <+: q.packages := by
  cases h with
  | frame h _ => exact h.packages ▸ List.prefix_rfl
  | added _ => exact List.prefix_append ..
  | signed _ _ h => exact h.packages ▸ List.prefix_rfl
  | withdrawn _ h _ _ => exact h.packages ▸ List.prefix_rfl
  | _ => exact List.prefix_rfl

end Effect

end RefinePipeline

end Refinement
