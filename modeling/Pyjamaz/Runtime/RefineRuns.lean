import Pyjamaz.Refinement.Checks
import Pyjamaz.Runtime.RefineSteps

/-!
# The reports of the refine pipeline

What holds in every order in which blocks are imported, packages come, and workers take their turns,
fail or are cancelled.

`guarantees_of_filed_reports` follows a guarantee that the node makes itself back to its report: it
is what the computation gives for the package on one committed view of the node, and the node stood at
the same state, with the same core and validators, when the report was filed.  `submissions_scheduled`
says that the status of a submission is always where the submission is, and `gathered_data_passes`
that what the node stores for its own reports never makes it fail on a package.

`credentials_of_guarantees` is about what the node signs, and has a condition.  A credential goes to
the submission that its package has when it is signed, so a package that is submitted again while its
report is published gets the credentials of the earlier report.  While no package is submitted twice,
the credentials of a guarantee are for its report.
-/

namespace Refinement

open Octets Services

namespace RefinePipeline

variable {Signature : Type} {env : Environment Signature} {p : RefinePipeline Signature}

/-! ## Over a run -/

lemma run_append (p : RefinePipeline Signature) (actions more : List (PipelineAction Signature)) :
    p.run env (actions ++ more) = (p.run env actions).run env more := by
  induction actions generalizing p with
  | nil => rfl
  | cons action actions ih => exact ih (p.act env action)

lemma packages_run (env : Environment Signature) (p : RefinePipeline Signature)
    (actions : List (PipelineAction Signature)) :
    p.packages <+: (p.run env actions).packages := by
  induction actions generalizing p with
  | nil => exact List.prefix_rfl
  | cons action actions ih => exact (effect_act p action).packages_grow.trans (ih _)

lemma getElem?_packages_run {actions : List (PipelineAction Signature)} {index : ℕ}
    {package : WorkPackage} (h : p.packages[index]? = some package) :
    (p.run env actions).packages[index]? = some package := by
  obtain ⟨more, hmore⟩ := packages_run env p actions
  rw [← hmore, List.getElem?_append_left (List.getElem?_eq_some_iff.mp h).1, h]

section Runs

variable {view : NodeView} {d3lStore : Option DataAvailabilityStore}
  {actions : List (PipelineAction Signature)}

lemma scheduled_run (env : Environment Signature) (view : NodeView)
    (d3lStore : Option DataAvailabilityStore) (actions : List (PipelineAction Signature)) :
    ((init view d3lStore).run env actions).Scheduled env none :=
  (scheduled_init view d3lStore).run actions

/-- What the worker computes it has taken. -/
lemma taken_of_computing {job : Job}
    (h : ((init view d3lStore).run env actions).worker = .computing job) :
    ∃ before after, actions = before ++ .takeItem :: after ∧
      ((init view d3lStore).run env before).Taking env job := by
  induction actions using List.reverseRecOn with
  | nil => cases h
  | append_singleton actions action ih =>
    rw [run_append] at h
    rcases (effect_act _ action).computing h with hbefore | ⟨rfl, htaking⟩
    · obtain ⟨before, after, rfl, htaking⟩ := ih hbefore
      exact ⟨before, after ++ [action], by simp, htaking⟩
    · exact ⟨actions, [], rfl, htaking⟩

/-- A report that a submission has was filed. -/
lemma filed_of_report? {index : ℕ} {report : WorkReport}
    (h : ((init view d3lStore).run env actions).report? index = some report) :
    ∃ job out before after, actions = before ++ .endCompute :: after ∧ job.index = index ∧
      out.report = report ∧ ((init view d3lStore).run env before).Filing env job out := by
  induction actions using List.reverseRecOn with
  | nil =>
    rw [run, report?, init, Extrinsics.Node.init] at h
    cases h
  | append_singleton actions action ih =>
    rw [run_append] at h
    rcases (effect_act _ action).report? (scheduled_run env view d3lStore actions) h with
      hbefore | ⟨rfl, job, out, hindex, hout, hfiling⟩
    · obtain ⟨job, out, before, after, rfl, hindex, hout, hfiling⟩ := ih hbefore
      exact ⟨job, out, before, after ++ [action], by simp, hindex, hout, hfiling⟩
    · exact ⟨job, out, actions, [], rfl, hindex, hout, hfiling⟩

/-- A guarantee of an own submission was made of the report that the submission had. -/
lemma report?_of_guarantee {g : Extrinsics.QueuedGuarantee WorkReport Signature} {index : ℕ}
    (h : g ∈ ((init view d3lStore).run env actions).node.guarenteesQueue.values)
    (hown : g.signatures = .item index) :
    ∃ before after, actions = before ++ after ∧
      ((init view d3lStore).run env before).report? index = some g.report := by
  induction actions using List.reverseRecOn with
  | nil => cases h
  | append_singleton actions action ih =>
    rw [run_append] at h
    rcases (effect_act _ action).guarantee h hown with hbefore | hreport
    · obtain ⟨before, after, rfl, hreport⟩ := ih hbefore
      exact ⟨before, after ++ [action], by simp, hreport⟩
    · exact ⟨actions, [action], rfl, hreport⟩

/-- A report that the node guarantees of its own submission was computed of the package of this
submission, on what was captured in one committed view of the node; when it was filed, the node stood
again at the same state, with the same core and validators and no block half imported. -/
theorem guarantees_of_filed_reports {g : Extrinsics.QueuedGuarantee WorkReport Signature} {index : ℕ}
    (hg : g ∈ ((init view d3lStore).run env actions).node.guarenteesQueue.values)
    (hown : g.signatures = .item index) :
    ∃ job out before between after,
      actions = before ++ .takeItem :: (between ++ .endCompute :: after) ∧
      job.index = index ∧
      ((init view d3lStore).run env actions).packages[index]? = some job.package ∧
      ((init view d3lStore).run env before).Captured env job ∧
      compute env job = .ok out ∧ out.report = g.report ∧
      ((init view d3lStore).run env (before ++ .takeItem :: between)).view.agrees env job = true := by
  obtain ⟨earlier, later, rfl, hreport⟩ := report?_of_guarantee hg hown
  obtain ⟨job, out, filed, after, rfl, rfl, hsame, hfiling⟩ := filed_of_report? hreport
  obtain ⟨before, between, rfl, htaking⟩ := taken_of_computing hfiling.computing
  refine ⟨job, out, before, between, after ++ later, by simp, rfl, ?_, htaking.captured,
    hfiling.computed, hsame, hfiling.agrees⟩
  rw [List.append_assoc, List.append_assoc, run_append]
  exact getElem?_packages_run htaking.package

/-- Over every run the statuses say where the submissions are.  A submission is `Reporting` exactly
when it is in the refine queue, with the worker, or with the timeslot worker that waits for a place in
the queue, there only once, and `Reported` exactly when it has a report; the worker computes the package
that was submitted, and publishes and signs the report that was filed. -/
theorem submissions_scheduled (view : NodeView) (d3lStore : Option DataAvailabilityStore)
    (actions : List (PipelineAction Signature)) :
    let p := (init view d3lStore).run env actions
    p.statuses.length = p.packages.length ∧ p.waiting.Nodup ∧
      (∀ index, p.statuses[index]? = some .reporting ↔ index ∈ p.waiting) ∧
      (∀ index, (∃ slot headerHash core reportHash,
        p.statuses[index]? = some (.reported slot headerHash core reportHash)) ↔
          (p.report? index).isSome) ∧
      (∀ job, p.worker = .computing job → p.packages[job.index]? = some job.package) ∧
      (∀ job report, p.worker = .publishing job report → p.report? job.index = some report) ∧
      ∀ job report hash others, p.worker = .signing job report hash others →
        p.report? job.index = some report := by
  have h := scheduled_run env view d3lStore actions
  exact ⟨h.statuses_length, h.nodup, fun index => h.reporting index (by simp),
    fun index => h.reported index (by simp), fun job hjob => h.computing hjob,
    fun job report hjob => (h.publishing hjob).2,
    fun job report hash others hjob => (h.signing hjob).2.2⟩

end Runs

/-! ## What is gathered -/

/-- What the node keeps is what it says, and its packages encode. -/
structure Stocked (env : Environment Signature) (p : RefinePipeline Signature) : Prop where
  store : ∀ store ∈ p.d3lStore, store.Sound env.d3lCodec env.primitives.blake2b256Hash
  extrinsics : p.extrinsics.Sound env.primitives.blake2b256Hash
  packages : ∀ package ∈ p.packages, (packageHash env package).isSome

lemma Stocked.congr (h : p.Stocked env) {q : RefinePipeline Signature}
    (hstore : q.d3lStore = p.d3lStore) (hextrinsics : q.extrinsics = p.extrinsics)
    (hpackages : q.packages = p.packages) : q.Stocked env where
  store := hstore ▸ h.store
  extrinsics := hextrinsics ▸ h.extrinsics
  packages := hpackages ▸ h.packages

/-- A report that is computed can be stored, and the store keeps it. -/
lemma Stocked.storeReport (hD : env.d3lCodec.RoundTrip) (h : p.Stocked env) {job : Job} {out : RefinementOutput}
    (hout : compute env job = .ok out) :
    ∃ d3lStore, p.storeReport env out = .ok d3lStore ∧ ∀ store ∈ d3lStore,
      store.Sound env.d3lCodec env.primitives.blake2b256Hash ∧
        store.Retains env.d3lCodec out.report.packageSpec out.bundle out.exportedSegments := by
  unfold RefinePipeline.storeReport
  cases hd3l : p.d3lStore with
  | none => exact ⟨none, rfl, fun store hstore => (by cases hstore)⟩
  | some store =>
    obtain ⟨store', hstored, hsound, hretains, -⟩ :=
      (h.store store hd3l).storeWorkReport hD (exports_of_computeWorkReport hout).1 out.bundle
    refine ⟨some store', ?_, ?_⟩
    · dsimp only
      rw [hstored]
      rfl
    · intro other hother
      cases hother
      exact ⟨hsound, hretains⟩

lemma Stocked.effect (hD : env.d3lCodec.RoundTrip) (h : p.Stocked env) {action : PipelineAction Signature}
    {q : RefinePipeline Signature} (heffect : Effect env p action q) : q.Stocked env := by
  cases heffect with
  | frame hframe _ => exact h.congr hframe.d3lStore hframe.extrinsics hframe.packages
  | collected _ => exact h.congr rfl rfl rfl
  | @added package extrinsics hash hhash =>
    refine ⟨h.store, WorkpackageExtrinsicCollector.Sound.add h.extrinsics hash extrinsics,
      fun other hother => ?_⟩
    rcases List.mem_append.mp hother with hother | hother
    · exact h.packages other hother
    · rw [List.mem_singleton.mp hother, hhash]
      rfl
  | taken _ => exact h.congr rfl rfl rfl
  | filed hfiling hstored =>
    obtain ⟨other, hother, hsound⟩ := h.storeReport hD hfiling.computed
    cases hother.symm.trans hstored
    exact ⟨fun store hstore => (hsound store hstore).1, h.extrinsics, h.packages⟩
  | @signed _ _ _ hash _ q _ _ hsigning =>
    refine ⟨hsigning.d3lStore ▸ h.store, ?_, hsigning.packages ▸ h.packages⟩
    rcases hsigning.extrinsics with hsame | hclear
    · rw [hsame]
      exact h.extrinsics
    · rw [hclear]
      exact WorkpackageExtrinsicCollector.Sound.clear h.extrinsics hash
  | withdrawn _ hframe _ _ => exact h.congr hframe.d3lStore hframe.extrinsics hframe.packages

lemma Stocked.run (hD : env.d3lCodec.RoundTrip) (h : p.Stocked env) (actions : List (PipelineAction Signature)) :
    (p.run env actions).Stocked env := by
  induction actions generalizing p with
  | nil => exact h
  | cons action actions ih => exact ih (h.effect hD (effect_act p action))

lemma stocked_init (view : NodeView) {d3lStore : Option DataAvailabilityStore}
    (hstore : ∀ store ∈ d3lStore, store.Sound env.d3lCodec env.primitives.blake2b256Hash) :
    (init view d3lStore : RefinePipeline Signature).Stocked env where
  store := hstore
  extrinsics := WorkpackageExtrinsicCollector.sound_init _
  packages package h := by cases h

/-- The roots that are looked up are there or may still come. -/
lemma segmentRootLookup_error {known : Dict Octets32 Octets32}
    {d3lStore : Option DataAvailabilityStore} {package : WorkPackage} {e : RefineError}
    (h : segmentRootLookup known d3lStore package = .error e) :
    ∃ message, e = .dataUnavailable message := by
  obtain ⟨mappings, entry, -, hadd⟩ := Except.exists_of_foldlM_eq_error h
  unfold addMapping at hadd
  split at hadd
  · cases hroot : segmentRootOf known d3lStore entry.treeRoot with
    | ok root =>
      rw [hroot] at hadd
      cases hadd
    | error e' =>
      rw [hroot] at hadd
      cases hadd
      unfold segmentRootOf at hroot
      split at hroot
      · cases hroot
      split at hroot
      · unfold DataAvailabilityStore.segmentRootForPackage at hroot
        split at hroot
        · cases hroot
          exact ⟨_, rfl⟩
        · cases hroot
      · cases hroot
        exact ⟨_, rfl⟩
  · cases hadd

/-- The bundle can be assembled of what is gathered, or nothing is. -/
lemma Stocked.bundle_cases (hcodec : env.primitives.codec.Documented) (h : p.Stocked env) {package : WorkPackage} {hash : Octets32}
    {mappings : Dict Octets32 Octets32} (hhash : packageHash env package = some hash)
    (hmappings : segmentRootLookup p.known p.d3lStore package = .ok mappings) :
    mappings.keys.toFinset = package.dependencies ∧
      ((∃ message, bundleData env.primitives env.d3lCodec p.d3lStore p.extrinsics hash package mappings =
          .error (.dataUnavailable message)) ∨
        bundleData env.primitives env.d3lCodec p.d3lStore p.extrinsics hash package mappings =
          .error (.report (.process "import segment index out of range")) ∨
        ∃ data bundle,
          bundleData env.primitives env.d3lCodec p.d3lStore p.extrinsics hash package mappings = .ok data ∧
            data.assembleBundle env.primitives package mappings = .ok bundle) := by
  have hmapped := mapped_of_segmentRootLookup hmappings
  obtain ⟨encoded, hencoded, -⟩ := Option.map_eq_some_iff.mp hhash
  exact ⟨hmapped.keys_eq, bundleData_cases hcodec h.store h.extrinsics ⟨encoded, hencoded⟩
    (fun entry hentry => (hmapped.resolveImportRoot hentry).imp (fun _ hroot => hroot.1)) hash⟩

/-- What stops a package before it is computed: the package itself, data that may still come, or
an import beyond the segments of its tree. -/
lemma Stocked.capture_error (hcodec : env.primitives.codec.Documented) (h : p.Stocked env) {index : ℕ} {package : WorkPackage}
    (hpackage : p.packages[index]? = some package) {e : RefineError}
    (he : p.capture env index package = .error e) :
    (∃ message, e = .dataUnavailable message) ∨
      e = .report (.process "import segment index out of range") ∨
      ∃ reason, validateWorkPackage env.config package = .error reason ∧ e = .report reason := by
  obtain ⟨hash, hhash⟩ := Option.isSome_iff_exists.mp
    (h.packages package (List.mem_of_getElem? hpackage))
  unfold capture at he
  cases hvalid : validateWorkPackage env.config package with
  | error reason =>
    rw [hvalid] at he
    cases he
    exact .inr (.inr ⟨reason, rfl, rfl⟩)
  | ok _ =>
    rw [hvalid] at he
    replace he := Except.ok_bind _ _ ▸ he
    split at he
    · split at he
      · cases he
      · cases hmappings : segmentRootLookup p.known p.d3lStore package with
        | error e' =>
          rw [hmappings] at he
          cases he
          exact .inl (segmentRootLookup_error hmappings)
        | ok mappings =>
          rw [hmappings, hhash] at he
          rcases (h.bundle_cases hcodec hhash hmappings).2 with
            ⟨message, hdata⟩ | hdata | ⟨data, _, hdata, _⟩
          · simp only [Option.elim_some, Except.ok_bind, hdata] at he
            cases he
            exact .inl ⟨message, rfl⟩
          · simp only [Option.elim_some, Except.ok_bind, hdata] at he
            cases he
            exact .inr (.inl rfl)
          · simp only [Option.elim_some, Except.ok_bind, hdata] at he
            cases he
    · cases he

/-- Over every run, what the node keeps never fails a package.  A job that is computed has the
mappings that the computation expects, and its bundle can be assembled; a report that is computed
can be stored, and what it exports is found again; and a package is stopped before that only by
itself, by data that may still come, or by an import beyond the segments of its tree. -/
theorem gathered_data_passes (view : NodeView) {d3lStore : Option DataAvailabilityStore}
    (hcodec : env.primitives.codec.Documented) (hD : env.d3lCodec.RoundTrip)
    (hstore : ∀ store ∈ d3lStore, store.Sound env.d3lCodec env.primitives.blake2b256Hash)
    (actions : List (PipelineAction Signature)) :
    let p := (init view d3lStore).run env actions
    (∀ job, p.worker = .computing job → job.mappings.keys.toFinset = job.package.dependencies ∧
      ∃ bundle, job.data.assembleBundle env.primitives job.package job.mappings = .ok bundle) ∧
    (∀ job out, compute env job = .ok out → ∃ d3lStore', p.storeReport env out = .ok d3lStore' ∧
      ∀ store ∈ d3lStore',
        store.Retains env.d3lCodec out.report.packageSpec out.bundle out.exportedSegments) ∧
    ∀ index package e, p.packages[index]? = some package → p.capture env index package = .error e →
      (∃ message, e = .dataUnavailable message) ∨
        e = .report (.process "import segment index out of range") ∨
        ∃ reason, validateWorkPackage env.config package = .error reason ∧ e = .report reason := by
  have hstocked : ∀ before, ((init view d3lStore).run env before).Stocked env :=
    fun before => (stocked_init view hstore).run hD before
  refine ⟨fun job hjob => ?_, fun job out hout => ?_, fun index package e hpackage he =>
    (hstocked actions).capture_error hcodec hpackage he⟩
  · obtain ⟨before, after, rfl, htaking⟩ := taken_of_computing hjob
    obtain ⟨hash, hhash, hdata⟩ := htaking.captured.data
    obtain ⟨hkeys, hcases⟩ := (hstocked before).bundle_cases hcodec hhash htaking.captured.mappings
    refine ⟨hkeys, ?_⟩
    rcases hcases with ⟨message, hfails⟩ | hfails | ⟨data, bundle, hgathered, hbundle⟩
    · cases hdata.symm.trans hfails
    · cases hdata.symm.trans hfails
    · cases hdata.symm.trans hgathered
      exact ⟨bundle, hbundle⟩
  · obtain ⟨d3lStore', hstored, hkept⟩ := (hstocked actions).storeReport hD hout
    exact ⟨d3lStore', hstored, fun store hmem => (hkept store hmem).2⟩

/-! ## Credentials -/

/-- There are no credentials of the submission, and nothing is made of its report. -/
structure Untouched (p : RefinePipeline Signature) (index : ℕ) : Prop where
  credentials : ∀ c, c ∉ p.node.credentials (.item index)
  waiting : p.node.waiting ≠ some index
  guarantees : ∀ g ∈ p.node.guarenteesQueue.values, g.signatures ≠ .item index

/-- The report of a submission was withdrawn for good: the worker was cancelled while it signed. -/
def Withdrawn (p : RefinePipeline Signature) (index : ℕ) : Prop :=
  p.worker = .cancelled ∧ p.report? index = none

/-- The credentials and the guarantees of a submission are for the report that it has, and there are
none while its report is published.  A report that is withdrawn leaves guarantees without credentials. -/
structure Credited (env : Environment Signature) (p : RefinePipeline Signature) : Prop where
  credentials : ∀ {index c}, c ∈ p.node.credentials (.item index) →
    ∃ validator report, p.report? index = some report ∧ c.signature = env.signReport validator report
  guarantees : ∀ {g index}, g ∈ p.node.guarenteesQueue.values → g.signatures = .item index →
    p.report? index = some g.report ∨ p.Withdrawn index
  waiting : ∀ {index}, p.node.waiting = some index → (p.report? index).isSome ∨ p.Withdrawn index
  publishing : ∀ {job report}, p.worker = .publishing job report → p.Untouched job.index
  signing : ∀ {job report hash others}, p.worker = .signing job report hash others →
    ∀ c ∈ others.getD [], ∃ validator, c.signature = env.signReport validator report

/-- A submission without a report is untouched, as long as the worker lives. -/
lemma Credited.untouched (h : p.Credited env) {index : ℕ} (hreport : p.report? index = none)
    (hlive : p.worker ≠ .cancelled) : p.Untouched index where
  credentials c hc := by
    obtain ⟨_, report, hsome, -⟩ := h.credentials hc
    rw [hreport] at hsome
    cases hsome
  waiting hwaits := by
    rcases h.waiting hwaits with hsome | ⟨hcancelled, -⟩
    · rw [hreport] at hsome
      cases hsome
    · exact hlive hcancelled
  guarantees g hg hown := by
    rcases h.guarantees hg hown with hsome | ⟨hcancelled, -⟩
    · rw [hreport] at hsome
      cases hsome
    · exact hlive hcancelled

lemma Scheduled.report?_of_waiting (h : p.Scheduled env none) {index : ℕ}
    (hwaits : index ∈ p.waiting) : p.report? index = none := by
  cases hreport : p.report? index with
  | none => rfl
  | some report =>
    obtain ⟨_, _, _, _, hreported⟩ := (h.reported index (by simp)).mpr (by rw [hreport]; rfl)
    rw [(h.reporting index (by simp)).mpr hwaits] at hreported
    cases hreported

/-- What the worker holds is untouched. -/
lemma Credited.held (h : p.Credited env) (hscheduled : p.Scheduled env none) {index : ℕ}
    (hheld : p.Held index) : p.Untouched index := by
  cases hheld with
  | next hworker hindex =>
    refine h.untouched (hscheduled.report?_of_waiting ?_)
      (fun hcancelled => (by cases hworker.symm.trans hcancelled))
    rw [waiting_of_done (.inl hworker), queued]
    exact List.mem_append_left _ hindex
  | computing hworker hindex =>
    refine h.untouched (hscheduled.report?_of_waiting ?_)
      (fun hcancelled => (by cases hworker.symm.trans hcancelled))
    rw [RefinePipeline.waiting, hworker, ← hindex]
    exact List.mem_cons_self ..
  | publishing hworker hindex => exact hindex ▸ h.publishing hworker

lemma credentials_eq {q : RefinePipeline Signature} (h : q.node.items = p.node.items) (index : ℕ) :
    q.node.credentials (.item index) = p.node.credentials (.item index) := by
  rw [Extrinsics.Node.credentials, Extrinsics.Node.credentials, h]

/-- What is withdrawn stays withdrawn. -/
lemma Frame.withdrawn {own : Option ℕ} {q : RefinePipeline Signature} (h : p.Frame own q) {index : ℕ}
    (hwithdrawn : p.Withdrawn index) : q.Withdrawn index := by
  refine ⟨h.cancelled hwithdrawn.1, ?_⟩
  cases hreport : q.report? index with
  | none => rfl
  | some report => cases (h.reports hreport).symm.trans hwithdrawn.2

lemma Credited.frame (h : p.Credited env) (hscheduled : p.Scheduled env none) {own : Option ℕ}
    {q : RefinePipeline Signature} (hframe : p.Frame own q)
    (hown : ∀ index, own = some index → p.Held index) : q.Credited env := by
  have hkept : ∀ {index}, ¬ p.Untouched index → q.report? index = p.report? index :=
    fun hnot => hframe.others (fun heq => hnot (h.held hscheduled (hown _ heq)))
  refine ⟨fun hc => ?_, fun hg hitem => ?_, fun hwaits => ?_, fun hworker => ?_,
    fun hworker => h.signing (hframe.signing hworker)⟩
  · obtain ⟨hmem, hsame⟩ := hframe.credentials hc
    rw [hsame]
    exact h.credentials hmem
  · rw [hframe.guarantees] at hg
    rw [hkept (fun hfresh => hfresh.guarantees _ hg hitem)]
    exact (h.guarantees hg hitem).imp_right hframe.withdrawn
  · rw [hframe.waiting] at hwaits
    rw [hkept (fun hfresh => hfresh.waiting hwaits)]
    exact (h.waiting hwaits).imp_right hframe.withdrawn
  · have hfresh := h.publishing (hframe.publishing hworker)
    refine ⟨fun c hc => hfresh.credentials c (hframe.credentials hc).1, ?_, ?_⟩
    · rw [hframe.waiting]
      exact hfresh.waiting
    · rw [hframe.guarantees]
      exact hfresh.guarantees

/-- The worker is cancelled while it signs: the submission loses its report and its credentials. -/
lemma Credited.withdrawn (h : p.Credited env) {index : ℕ} {q : RefinePipeline Signature}
    (hframe : p.Frame (some index) q) (hreport : q.report? index = none)
    (hcancelled : q.worker = .cancelled) : q.Credited env := by
  have hother : ∀ {j}, j ≠ index → q.report? j = p.report? j :=
    fun hj => hframe.others (fun heq => hj (Option.some.inj heq).symm)
  refine ⟨fun hc => ?_, fun {g j} hg hitem => ?_, fun {j} hwaits => ?_, fun hworker => ?_,
    fun hworker => ?_⟩
  · obtain ⟨hmem, hsame⟩ := hframe.credentials hc
    rw [hsame]
    exact h.credentials hmem
  · by_cases hj : j = index
    · exact .inr ⟨hcancelled, hj ▸ hreport⟩
    · rw [hframe.guarantees] at hg
      rw [hother hj]
      exact (h.guarantees hg hitem).imp_right hframe.withdrawn
  · by_cases hj : j = index
    · exact .inr ⟨hcancelled, hj ▸ hreport⟩
    · rw [hframe.waiting] at hwaits
      rw [hother hj]
      exact (h.waiting hwaits).imp_right hframe.withdrawn
  · cases hcancelled.symm.trans hworker
  · cases hcancelled.symm.trans hworker

lemma Credited.collected (h : p.Credited env)
    {action : Extrinsics.Action WorkReport Octets32 Signature}
    (haction : isPipelineStep action = false) :
    ({ p with node := p.node.act env.collector action } : RefinePipeline Signature).Credited env := by
  have hitems := (act_items env.collector p.node haction).1
  have hreports (index : ℕ) : ({ p with node := p.node.act env.collector action } :
      RefinePipeline Signature).report? index = p.report? index := report?_eq hitems index
  have hcredentials (index : ℕ) :
      (p.node.act env.collector action).credentials (.item index) =
        p.node.credentials (.item index) :=
    credentials_eq (p := p) (q := { p with node := p.node.act env.collector action }) hitems index
  have hwithdrawn {index : ℕ} (h : p.Withdrawn index) : ({ p with
      node := p.node.act env.collector action } : RefinePipeline Signature).Withdrawn index :=
    ⟨h.1, (hreports index).trans h.2⟩
  refine ⟨fun {index c} hc => ?_, fun {g index} hg hitem => ?_, fun {index} hwaits => ?_,
    fun {job report} hworker => ?_, fun hworker => h.signing hworker⟩
  · rw [hreports]
    exact h.credentials (hcredentials index ▸ hc)
  · rw [hreports]
    rcases act_guarantee hg hitem with hg | ⟨hreport, -⟩
    · exact (h.guarantees hg hitem).imp_right hwithdrawn
    · exact .inl hreport
  · rw [hreports]
    rcases act_waiting hwaits with hwaits | ⟨-, hreport⟩
    · exact (h.waiting hwaits).imp_right hwithdrawn
    · exact .inl hreport
  · have hfresh := h.publishing hworker
    have hnil : p.node.credentials (.item job.index) = [] :=
      List.eq_nil_iff_forall_not_mem.mpr hfresh.credentials
    refine ⟨fun c hc => hfresh.credentials c (hcredentials job.index ▸ hc), fun hwaits => ?_,
      fun g hg hitem => ?_⟩
    · rcases act_waiting hwaits with hwaits | ⟨hsigned, -⟩
      · exact hfresh.waiting hwaits
      · exact hsigned hnil
    · rcases act_guarantee hg hitem with hg | ⟨-, hsigned | hwaits⟩
      · exact hfresh.guarantees g hg hitem
      · exact hsigned hnil
      · exact hfresh.waiting hwaits

/-- A submission comes without credentials. -/
lemma mem_credentials_append {q : RefinePipeline Signature}
    (hitems : q.node.items = p.node.items ++ [⟨none, []⟩]) {index : ℕ}
    {c : Assurances.Credential Signature} (h : c ∈ q.node.credentials (.item index)) :
    c ∈ p.node.credentials (.item index) := by
  rw [Extrinsics.Node.credentials, hitems] at h
  rcases lt_trichotomy index p.node.items.length with hlt | rfl | hgt
  · rw [List.getElem?_append_left hlt] at h
    exact h
  · rw [List.getElem?_concat_length] at h
    cases h
  · rw [List.getElem?_eq_none (by rw [List.length_append, List.length_singleton]; omega)] at h
    cases h

lemma Credited.added (h : p.Credited env) {q : RefinePipeline Signature}
    (hitems : q.node.items = p.node.items ++ [⟨none, []⟩])
    (hguarantees : q.node.guarenteesQueue = p.node.guarenteesQueue)
    (hwaiting : q.node.waiting = p.node.waiting) (hworker : q.worker = p.worker) :
    q.Credited env := by
  have hwithdrawn {index : ℕ} (h : p.Withdrawn index) : q.Withdrawn index :=
    ⟨hworker.trans h.1, (report?_append hitems index).trans h.2⟩
  refine ⟨fun hc => ?_, fun hg hitem => ?_, fun hwaits => ?_, fun hjob => ?_,
    fun hjob => h.signing (hworker ▸ hjob)⟩
  · rw [report?_append hitems]
    exact h.credentials (mem_credentials_append hitems hc)
  · rw [report?_append hitems]
    exact (h.guarantees (hguarantees ▸ hg) hitem).imp_right hwithdrawn
  · rw [report?_append hitems]
    exact (h.waiting (hwaiting ▸ hwaits)).imp_right hwithdrawn
  · have hfresh := h.publishing (hworker ▸ hjob)
    refine ⟨fun c hc => hfresh.credentials c (mem_credentials_append hitems hc), ?_, ?_⟩
    · rw [hwaiting]
      exact hfresh.waiting
    · rw [hguarantees]
      exact hfresh.guarantees

lemma Credited.filed (h : p.Credited env) (hscheduled : p.Scheduled env none) {job : Job}
    {out : RefinementOutput} (hjob : p.worker = .computing job) {q : RefinePipeline Signature}
    (hnode : q.node = p.node.act env.collector (.report job.index out.report))
    (hworker : q.worker = .publishing job out.report) : q.Credited env := by
  have hfresh := h.held hscheduled (.computing hjob rfl)
  have hlive {index : ℕ} : ¬ p.Withdrawn index := fun hw => (by cases hjob.symm.trans hw.1)
  have hlt : job.index < p.node.items.length := by
    rw [hscheduled.items_length]
    exact (List.getElem?_eq_some_iff.mp (hscheduled.computing hjob)).1
  have hreport : ∀ {index}, ¬ p.Untouched index → q.report? index = p.report? index := by
    intro index hnot
    rw [RefinePipeline.report?, hnode]
    have hother : index ≠ job.index := by
      rintro rfl
      exact hnot hfresh
    exact (bind_workReport_report p.node env.collector hlt out.report index).trans (if_neg hother)
  have hcredentials : ∀ {index c}, c ∈ q.node.credentials (.item index) →
      c ∈ p.node.credentials (.item index) := by
    intro index c hc
    rw [hnode] at hc
    have hold := credentials_changeItem p.node job.index
      (fun item => { item with workReport := some out.report }) index ▸ hc
    split at hold
    · exact hold
    · exact hold
  have hguarantees : q.node.guarenteesQueue = p.node.guarenteesQueue := by rw [hnode]; rfl
  have hwaiting : q.node.waiting = p.node.waiting := by rw [hnode]; rfl
  refine ⟨fun hc => ?_, fun hg hitem => ?_, fun hwaits => ?_, fun hpublish => ?_,
    fun hsign => (by cases hworker.symm.trans hsign)⟩
  · rw [hreport (fun hnone => hnone.credentials _ (hcredentials hc))]
    exact h.credentials (hcredentials hc)
  · rw [hguarantees] at hg
    rw [hreport (fun hnone => hnone.guarantees _ hg hitem)]
    exact .inl ((h.guarantees hg hitem).resolve_right hlive)
  · rw [hwaiting] at hwaits
    rw [hreport (fun hnone => hnone.waiting hwaits)]
    exact .inl ((h.waiting hwaits).resolve_right hlive)
  · cases hworker.symm.trans hpublish
    exact ⟨fun c hc => hfresh.credentials c (hcredentials hc), hwaiting ▸ hfresh.waiting,
      hguarantees ▸ hfresh.guarantees⟩

/-- The credentials go to the submission that was signed, where its package was submitted once. -/
lemma Credited.signed (h : p.Credited env) (hscheduled : p.Scheduled env none)
    (hdistinct : (p.packages.map (packageHash env)).Nodup) {job : Job} {report : WorkReport}
    {hash : Octets32} {credentials : List (Assurances.Credential Signature)}
    (hworker : p.worker = .publishing job report ∧ packageHash env job.package = some hash ∨
      ∃ others, p.worker = .signing job report hash others)
    (hsigned : ∀ c ∈ credentials, ∃ validator, c.signature = env.signReport validator report)
    {q : RefinePipeline Signature} (hsigning : p.Signing job report hash credentials q) :
    q.Credited env := by
  obtain ⟨hhash, hjob, hfiled⟩ : packageHash env job.package = some hash ∧
      p.packages[job.index]? = some job.package ∧ p.report? job.index = some report := by
    rcases hworker with ⟨hworker, hhash⟩ | ⟨others, hworker⟩
    · exact ⟨hhash, hscheduled.publishing hworker⟩
    · exact hscheduled.signing hworker
  have hlive {index : ℕ} : ¬ p.Withdrawn index := by
    rintro ⟨hcancelled, -⟩
    rcases hworker with ⟨hworker, -⟩ | ⟨others, hworker⟩ <;> cases hworker.symm.trans hcancelled
  refine ⟨fun {index c} hc => ?_, fun hg hitem => ?_, fun hwaits => ?_, fun hpublish => ?_,
    fun hsign => ?_⟩
  · rw [hsigning.reports]
    rcases hsigning.added hc with hc | ⟨hc, hpending⟩
    · exact h.credentials hc
    · obtain ⟨package, hpackage, hsame⟩ := hscheduled.pending hpending
      obtain ⟨validator, hsignature⟩ := hsigned c hc
      have hindex : index = job.index := by
        have hlt : index < (p.packages.map (packageHash env)).length := by
          rw [List.length_map]
          exact (List.getElem?_eq_some_iff.mp hpackage).1
        refine (List.getElem?_inj hlt hdistinct).mp ?_
        rw [List.getElem?_map, List.getElem?_map, hpackage, hjob, Option.map_some, Option.map_some,
          hsame, hhash]
      exact ⟨validator, report, hindex ▸ hfiled, hsignature⟩
  · rw [hsigning.reports]
    exact .inl ((h.guarantees (hsigning.guarantees ▸ hg) hitem).resolve_right hlive)
  · rw [hsigning.reports]
    exact .inl ((h.waiting (hsigning.waiting ▸ hwaits)).resolve_right hlive)
  · rcases hsigning.worker with hidle | ⟨others, hidle, -⟩ <;> cases hidle.symm.trans hpublish
  · rcases hsigning.worker with hidle | ⟨others, hidle, hothers⟩
    · cases hidle.symm.trans hsign
    · cases hidle.symm.trans hsign
      exact fun c hc => hsigned c (hothers c hc)

/-- A step keeps the credentials right while every package was submitted once. -/
lemma Credited.effect (h : p.Credited env) (hscheduled : p.Scheduled env none)
    (hdistinct : (p.packages.map (packageHash env)).Nodup) {action : PipelineAction Signature}
    {q : RefinePipeline Signature} (heffect : Effect env p action q) : q.Credited env := by
  cases heffect with
  | frame hframe hown => exact h.frame hscheduled hframe hown
  | collected haction => exact h.collected haction
  | added _ => exact h.added rfl rfl rfl rfl
  | taken htaking =>
    have hlive {index : ℕ} : ¬ p.Withdrawn index := fun hw => (by cases htaking.idle.symm.trans hw.1)
    exact ⟨h.credentials, fun hg hitem => .inl ((h.guarantees hg hitem).resolve_right hlive),
      fun hwaits => .inl ((h.waiting hwaits).resolve_right hlive), fun hpublish => (by cases hpublish),
      fun hsign => (by cases hsign)⟩
  | filed hfiling _ => exact h.filed hscheduled hfiling.computing rfl rfl
  | signed hworker hsigned hsigning =>
    refine h.signed hscheduled hdistinct hworker (fun c hc => ?_) hsigning
    rcases hsigned c hc with ⟨others, hsigns, hmem⟩ | hsignature
    · exact h.signing hsigns c hmem
    · exact hsignature
  | withdrawn _ hframe hreport hcancelled => exact h.withdrawn hframe hreport hcancelled

lemma credited_init (view : NodeView) (d3lStore : Option DataAvailabilityStore) :
    (init view d3lStore : RefinePipeline Signature).Credited env where
  credentials {index c} hc := by
    rw [init, Extrinsics.Node.init, Extrinsics.Node.credentials] at hc
    cases hc
  guarantees hg := by cases hg
  waiting h := by cases h
  publishing h := by cases h
  signing h := by cases h

lemma credited_run (view : NodeView) (d3lStore : Option DataAvailabilityStore)
    (actions : List (PipelineAction Signature))
    (hdistinct : (((init view d3lStore).run env actions).packages.map (packageHash env)).Nodup) :
    ((init view d3lStore).run env actions).Credited env := by
  induction actions using List.reverseRecOn with
  | nil => exact credited_init view d3lStore
  | append_singleton actions action ih =>
    rw [run_append] at hdistinct ⊢
    have hearlier := hdistinct.sublist
      ((effect_act ((init view d3lStore).run env actions) action).packages_grow.map _).sublist
    exact (ih hearlier).effect (scheduled_run env view d3lStore actions) hearlier
      (effect_act _ action)

/-- While no package is submitted twice, every credential under a guarantee that the node makes of
its own submission is a signature of the report that it guarantees. -/
theorem credentials_of_guarantees {view : NodeView} {d3lStore : Option DataAvailabilityStore}
    {actions : List (PipelineAction Signature)}
    (hdistinct : (((init view d3lStore).run env actions).packages.map (packageHash env)).Nodup)
    {g : Extrinsics.QueuedGuarantee WorkReport Signature} {index : ℕ}
    (hg : g ∈ ((init view d3lStore).run env actions).node.guarenteesQueue.values)
    (hown : g.signatures = .item index) :
    ∀ c ∈ ((init view d3lStore).run env actions).node.credentials g.signatures,
      ∃ validator, c.signature = env.signReport validator g.report := by
  intro c hc
  have hcredited := credited_run view d3lStore actions hdistinct
  rw [hown] at hc
  obtain ⟨validator, report, hreport, hsignature⟩ := hcredited.credentials hc
  rcases hcredited.guarantees hg hown with hguaranteed | ⟨-, hnone⟩
  · cases hguaranteed.symm.trans hreport
    exact ⟨validator, hsignature⟩
  · cases hnone.symm.trans hreport

end RefinePipeline

/-! ## A sample -/

/-- A node in solo mode, with the first of six keys.  A signature tells who signed which package. -/
def soloEnvironment : Environment (Option ℕ × Octets32) where
  config := ⟨341, 5000000000⟩
  primitives := samplePrimitives
  d3lCodec := .natural
  invocations := sampleInvocations
  collector :=
    { config := ⟨2, 1, 3, 2, true⟩
      vrf :=
        { commitment := fun _ => []
          ringVrfVerify := fun _ _ _ => none
          blake2b256Hash := fun _ => Vector.replicate 32 0 }
      primitives := samplePrimitives.toPrimitives
      report := ⟨fun _ => Vector.replicate 32 0, fun _ => 0, fun _ => 6⟩
      sign := fun validator hash _ => (validator, hash) }
  publicKey := Vector.replicate 32 1
  signReport validator report := (validator, report.packageSpec.hash)
  queueSize := 4096

/-- The sample package with an export. -/
def soloExporter : WorkPackage :=
  { samplePackage with
    items := samplePackage.items.map (fun item => { item with exportCount := 1 }) }

/-- A package that imports this export. -/
def soloImporter : WorkPackage := sampleImporter ⟨Vector.replicate 32 0, 2 ^ 15⟩

/-- Three validators guarantee core 0, where the sample packages are authorized. -/
def soloView : NodeView where
  stateRoot := Vector.replicate 32 2
  timeslot := 5
  validatorKeys := [1, 2, 3, 4, 5, 6].map (fun n => Vector.replicate 32 n)
  authorIndex := some 0
  authorizerPools := [[samplePackage, soloImporter].map (authorizerHash soloEnvironment)]
  recentReports := []
  services := sampleServices
  transaction := false
  blockHash := none
  guarantorAssignments := [1, 2, 3].map (fun n => ⟨Vector.replicate 32 n, 0⟩)
  retrieveBlockHash _ := some (Vector.replicate 32 3)

/-- The package is submitted and taken; a block comes while it is computed. -/
def soloActions : List (PipelineAction (Option ℕ × Octets32)) :=
  [.addWorkPackage samplePackage [], .notifyTimeslot 5, .takeTimeslot, .takeItem,
    .changeView { soloView with timeslot := 6 }]

/-- The report is filed and signed, and a guarantee is made of it. -/
def soloGuaranteed : List (PipelineAction (Option ℕ × Octets32)) :=
  soloActions ++ [.endCompute, .endPublish false, .collect (.takeGuarantee 6)]

open RefinePipeline

/-- With room for one submission, the worker of the timeslot waits with the second one. -/
def soloCrowded : RefinePipeline (Option ℕ × Octets32) :=
  (init soloView none).run { soloEnvironment with queueSize := 1 }
    [.addWorkPackage samplePackage [], .addWorkPackage soloImporter [], .notifyTimeslot 5,
      .takeTimeslot]

/-- The submission that waits for its place is `Reporting` like the one that is queued. -/
example : soloCrowded.refineQueue = [0] ∧ soloCrowded.putting = [1] ∧
    soloCrowded.statuses = [.reporting, .reporting] := by decide +kernel

lemma soloGuaranteed_own : ∃ g ∈ ((init soloView none).run soloEnvironment
    soloGuaranteed).node.guarenteesQueue.values, g.signatures = .item 0 := by
  have hlength : ((init soloView none).run soloEnvironment
      soloGuaranteed).node.guarenteesQueue.values.length = 1 := by decide +kernel
  have hitems : ((init soloView none).run soloEnvironment
      soloGuaranteed).node.guarenteesQueue.values.all (fun g => match g.signatures with
        | .own _ => false
        | .item index => index == 0) = true := by decide +kernel
  obtain ⟨g, hvalues⟩ := List.length_eq_one_iff.mp hlength
  have hg : g ∈ ((init soloView none).run soloEnvironment
      soloGuaranteed).node.guarenteesQueue.values := by
    rw [hvalues]
    exact List.mem_singleton_self g
  refine ⟨g, hg, ?_⟩
  have hitem := List.all_eq_true.mp hitems g hg
  cases hs : g.signatures with
  | own credentials =>
    rw [hs] at hitem
    cases hitem
  | item index =>
    rw [hs] at hitem
    rw [eq_of_beq hitem]

/-- The node guarantees a report, and it is what the computation gives for the package. -/
theorem soloGuaranteed_filed : ∃ g job out,
    g ∈ ((init soloView none).run soloEnvironment soloGuaranteed).node.guarenteesQueue.values ∧
      job.package = samplePackage ∧ compute soloEnvironment job = .ok out ∧
      out.report = g.report := by
  have hsubmitted : ((init soloView none).run soloEnvironment soloGuaranteed).packages[0]? =
      some samplePackage := by decide +kernel
  obtain ⟨g, hg, hown⟩ := soloGuaranteed_own
  obtain ⟨job, out, _, _, _, -, -, hpackage, -, hout, hsame, -⟩ := guarantees_of_filed_reports hg hown
  exact ⟨g, job, out, hg, Option.some.inj (hpackage.symm.trans hsubmitted), hout, hsame⟩

/-- The guarantee has three credentials, and each is of its report. -/
theorem soloGuaranteed_credited : ∃ g,
    g ∈ ((init soloView none).run soloEnvironment soloGuaranteed).node.guarenteesQueue.values ∧
      (((init soloView none).run soloEnvironment soloGuaranteed).node.credentials
        g.signatures).length = 3 ∧
      ∀ c ∈ ((init soloView none).run soloEnvironment soloGuaranteed).node.credentials g.signatures,
        ∃ validator, c.signature = soloEnvironment.signReport validator g.report := by
  have hdistinct : (((init soloView none).run soloEnvironment soloGuaranteed).packages.map
      (packageHash soloEnvironment)).Nodup := by decide +kernel
  have hlength : (((init soloView none).run soloEnvironment soloGuaranteed).node.credentials
      (.item 0)).length = 3 := by decide +kernel
  obtain ⟨g, hg, hown⟩ := soloGuaranteed_own
  exact ⟨g, hg, hown ▸ hlength, credentials_of_guarantees hdistinct hg hown⟩

/-- A package that is submitted again while its report is published gets the credentials of that
report, and has none itself. -/
example : ((((init soloView none).run soloEnvironment (soloActions ++ [.endCompute,
    .addWorkPackage samplePackage [], .endPublish false])).node.items[1]?).map
      (fun item => (item.workReport.isNone, item.signatures.length))) = some (true, 3) := by
  decide +kernel

/-- The job of the thread, if it computes one. -/
def RefineWorker.job : RefineWorker (Option ℕ × Octets32) → Option Job
  | .computing job => some job
  | _ => none

lemma RefineWorker.job_eq_some {worker : RefineWorker (Option ℕ × Octets32)} {job : Job} :
    worker.job = some job ↔ worker = .computing job := by
  cases worker <;> simp [RefineWorker.job]

/-- A package is refined, and then one comes that imports its export and reads a blob. -/
def soloImporting : List (PipelineAction (Option ℕ × Octets32)) :=
  [.addWorkPackage soloExporter [], .notifyTimeslot 5, .takeTimeslot, .takeItem, .endCompute,
    .endPublish false, .addWorkPackage soloImporter [[2, 3]], .notifyTimeslot 6, .takeTimeslot,
    .takeItem]

set_option maxRecDepth 100000 in
/-- The segment, its proof and the blob are gathered, and the bundle of the package can be assembled. -/
theorem soloImporting_gathered : ∃ job bundle,
    ((init soloView (some .empty)).run soloEnvironment soloImporting).worker = .computing job ∧
      job.package = soloImporter ∧
      job.data.imports.get? (Vector.replicate 32 0, 2 ^ 15) = some ⟨List.replicate 4104 9, []⟩ ∧
      job.data.extrinsics.get? (toDigest [2, 3]) = some [2, 3] ∧
      job.mappings.keys.toFinset = soloImporter.dependencies ∧
      job.data.assembleBundle samplePrimitives job.package job.mappings = .ok bundle := by
  have hgathered : ((init soloView (some .empty)).run soloEnvironment soloImporting).worker.job.any
      (fun job => decide (job.package = soloImporter ∧
        job.data.imports.get? (Vector.replicate 32 0, 2 ^ 15) = some ⟨List.replicate 4104 9, []⟩ ∧
        job.data.extrinsics.get? (toDigest [2, 3]) = some [2, 3])) = true := by
    decide +kernel
  obtain ⟨job, hjob, hchecked⟩ := (Option.any_eq_true _ _).mp hgathered
  have hstore : ∀ store ∈ some DataAvailabilityStore.empty,
      store.Sound soloEnvironment.d3lCodec soloEnvironment.primitives.blake2b256Hash := by
    rintro store ⟨⟩
    exact DataAvailabilityStore.sound_empty _ _
  obtain ⟨hpackage, himport, hextrinsic⟩ := of_decide_eq_true hchecked
  have hworker := RefineWorker.job_eq_some.mp hjob
  obtain ⟨hkeys, bundle, hbundle⟩ := (gathered_data_passes soloView Codec.documented_natural
    D3LCodec.roundTrip_natural hstore soloImporting).1 job hworker
  exact ⟨job, bundle, hworker, hpackage, himport, hextrinsic, hpackage ▸ hkeys, hbundle⟩

end Refinement
