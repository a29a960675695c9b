import Pyjamaz.Refinement.Report

/-!
# The checks of a guaranteed report

A block that guarantees a report checks what the report says of itself: the number of its results,
the size of its outputs, its gas, the load of the refinement, the length of the bundle, the number of
exports and the number of dependencies.  These are limits on a report; the limits that
`computeWorkReport` enforces are on a package.

`computeWorkReport_passes_checks` says that the two agree: a report that was computed passes every
check that does not depend on the state.  Of `check_gas_requirements` these are the first and the last
one; the others compare an item with the service it names, which may have changed since.
-/

namespace Refinement

open Octets Services

/-! ## Errors -/

/-- The codes that the checks of this file raise. -/
inductive GuaranteeErrorCode where
  | badServiceId
  | badCodeHash
  | workReportGasTooHigh
  | serviceItemGasTooLow
  | tooManyDependencies
  | workReportTooBig
  | missingWorkResults
  | authorizerGasTooHigh
  | refineLoadTooHigh
  | bundleLengthTooHigh
  | exportsCountMismatch
  deriving DecidableEq, Repr

/-- `StateTransitionError`, or an error of the store. -/
inductive CheckError where
  | stateTransition (code : GuaranteeErrorCode)
  | service (e : ServiceError)
  deriving DecidableEq, Repr

/-! ## The checks -/

def checkWorkResultCount (report : WorkReport) : Except CheckError Unit :=
  Except.raiseIf (¬ (1 ≤ report.results.length ∧ report.results.length ≤ maximumWorkItems))
    (.stateTransition .missingWorkResults)

def checkSizeLimit (report : WorkReport) : Except CheckError Unit :=
  Except.raiseIf
    (report.authOutput.length + (report.results.map (fun r => r.result.output.length)).sum >
      maximumSizeEncodedWorkReport)
    (.stateTransition .workReportTooBig)

/-- The loop of `check_gas_requirements`, with the gas of the results before. -/
def checkResultGas (services : ServicesState) : ℤ → List WorkDigest → Except CheckError Unit
  | _, [] => .ok ()
  | totalGas, result :: results =>
    match services.retrieveServiceAccount result.serviceId with
    | .error .noResult => .error (.stateTransition .badServiceId)
    | .error e => .error (.service e)
    | .ok service => do
      Except.raiseIf (result.codeHash ≠ service.codeHash) (.stateTransition .badCodeHash)
      Except.raiseIf (result.accumulateGas < service.gasLimitAccumulate)
        (.stateTransition .serviceItemGasTooLow)
      Except.raiseIf (totalGas + result.accumulateGas > gasAccumulation)
        (.stateTransition .workReportGasTooHigh)
      checkResultGas services (totalGas + result.accumulateGas) results

def checkGasRequirements (report : WorkReport) (services : ServicesState) :
    Except CheckError Unit := do
  Except.raiseIf (report.authGasUsed > gasInvoke) (.stateTransition .authorizerGasTooHigh)
  checkResultGas services 0 report.results

def checkRefinementLoad (C : Config) (report : WorkReport) : Except CheckError Unit :=
  let loads := report.results.map (fun result => result.refineLoad)
  let gasUsed := (loads.map (fun load => load.gasUsed)).sum
  let imports := (loads.map (fun load => load.imports)).sum
  let exports := (loads.map (fun load => load.exports)).sum
  let extrinsicCount := (loads.map (fun load => load.extrinsicCount)).sum
  let extrinsicSize := (loads.map (fun load => load.extrinsicSize)).sum
  let footprint := (imports * importSegmentFootprint : ℕ) + extrinsicSize
  Except.raiseIf
    (gasUsed > C.gasRefine ∨ imports > maximumNumberImportsWorkPackage ∨
      exports > maximumNumberExportsWorkPackage ∨
      extrinsicCount > maximumNumberExtrinsicsWorkPackage ∨ footprint > maximumSizeWorkPackage)
    (.stateTransition .refineLoadTooHigh)

def checkBundleLength (report : WorkReport) : Except CheckError Unit :=
  Except.raiseIf (report.packageSpec.length > maximumSizeAuditableBundle)
    (.stateTransition .bundleLengthTooHigh)

def checkExportCount (report : WorkReport) : Except CheckError Unit :=
  Except.raiseIf
    ((report.packageSpec.exportsCount : ℤ) ≠
      (report.results.map (fun result => result.refineLoad.exports)).sum)
    (.stateTransition .exportsCountMismatch)

/-- The dependency limit in the loop of `validate_guarantees`. -/
def checkDependencyCount (report : WorkReport) : Except CheckError Unit :=
  Except.raiseIf (report.dependencyCount > maximumDependenciesWorkReport)
    (.stateTransition .tooManyDependencies)

/-! ## Sums over digests -/

/-- A quantity that digests take over from their items. -/
lemma map_eq_of_digests {α : Type} {items : List WorkItem} {digests : List WorkDigest}
    (h : List.Forall₂ Digests items digests) {f : WorkDigest → α} {g : WorkItem → α}
    (hfg : ∀ item digest, Digests item digest → f digest = g item) : digests.map f = items.map g := by
  induction h with
  | nil => rfl
  | cons hd _ ih => rw [List.map_cons, List.map_cons, hfg _ _ hd, ih]

/-- The gas that was used is bounded by the limits that were declared. -/
lemma sum_gasUsed_le {items : List WorkItem} {digests : List WorkDigest}
    (h : List.Forall₂ Digests items digests) :
    (digests.map (fun d => d.refineLoad.gasUsed)).sum ≤
      (items.map (fun w => w.refineGasLimit)).sum := by
  induction h with
  | nil => exact le_refl _
  | cons hd _ ih =>
    rw [List.map_cons, List.sum_cons, List.map_cons, List.sum_cons]
    exact add_le_add hd.gasUsed ih

/-- The manifest part of the footprint. -/
lemma sum_footprint_ge (items : List WorkItem) :
    (((items.map (fun w => w.importSegments.length)).sum * importSegmentFootprint : ℕ) : ℤ) +
        (items.map (fun w => (w.extrinsic.map (fun x => x.len)).sum)).sum ≤
      (items.map WorkItem.footprint).sum := by
  induction items with
  | nil => exact le_refl _
  | cons item items ih =>
    simp only [List.map_cons, List.sum_cons, WorkItem.footprint] at ih ⊢
    push_cast at ih ⊢
    have := Int.natCast_nonneg item.payload.length
    rw [add_mul]
    omega

/-- The running total of the accumulation gas never passes a bound that the whole total keeps to, so
an error of the loop is about an item and its service. -/
lemma checkResultGas_ne {services : ServicesState} {digests : List WorkDigest} {total : ℤ}
    (hnonneg : ∀ d ∈ digests, 0 ≤ d.accumulateGas)
    (hsum : total + (digests.map (fun d => d.accumulateGas)).sum ≤ gasAccumulation)
    {code : GuaranteeErrorCode}
    (h : checkResultGas services total digests = .error (.stateTransition code)) :
    code = .badServiceId ∨ code = .badCodeHash ∨ code = .serviceItemGasTooLow := by
  induction digests generalizing total with
  | nil => cases h
  | cons d digests ih =>
    rw [List.map_cons, List.sum_cons] at hsum
    have htail : ∀ d' ∈ digests, 0 ≤ d'.accumulateGas :=
      fun d' hd' => hnonneg d' (List.mem_cons_of_mem d hd')
    have hrest : 0 ≤ (digests.map (fun d => d.accumulateGas)).sum := by
      refine List.sum_nonneg ?_
      intro gas hgas
      obtain ⟨d', hd', rfl⟩ := List.mem_map.mp hgas
      exact htail d' hd'
    rw [checkResultGas] at h
    split at h
    · cases h
      exact .inl rfl
    · cases h
    · next service hservice =>
      rw [Except.raiseIf_bind] at h
      split at h
      · cases h
        exact .inr (.inl rfl)
      · rw [Except.raiseIf_bind] at h
        split at h
        · cases h
          exact .inr (.inr rfl)
        · rw [Except.raiseIf_bind, if_neg (by omega)] at h
          exact ih htail (by omega) h

/-! ## The result -/

/-- What the stages of a computation that returned established. -/
structure Computed (C : Config) (I : Invocations) (package : WorkPackage)
    (mappings : Dict Octets32 Octets32) (out : RefinementOutput) : Prop where
  valid : package.Valid C
  natural : ∀ item ∈ package.items, item.Natural
  mappings_eq : mappings.keys.toFinset = package.dependencies
  bundle_le : out.bundle.length ≤ maximumSizeAuditableBundle
  length_eq : out.report.packageSpec.length = out.bundle.length
  exportsCount_eq : (out.report.packageSpec.exportsCount : ℤ) =
    (package.items.map (fun w => w.exportCount)).sum
  context_eq : out.report.context = package.context
  segmentRootLookup_eq : out.report.segmentRootLookup = mappings
  authGasUsed_le : out.report.authGasUsed ≤ gasInvoke
  digests : List.Forall₂ Digests package.items out.report.results
  output_le : out.report.authOutput.length +
    (out.report.results.map (fun d => d.result.output.length)).sum ≤ maximumSizeEncodedWorkReport

lemma trace_of_authorizedTrace {authorization : PvmIsAuthorizedOutput} {trace : Octets}
    (h : authorizedTrace authorization = .ok trace) :
    trace.length ≤ maximumSizeEncodedWorkReport := by
  unfold authorizedTrace at h
  split at h
  · obtain ⟨_, hsize, htrace⟩ := Except.bind_eq_ok.mp h
    cases htrace
    exact not_lt.mp (Except.raiseIf_eq_ok.mp hsize)
  · cases h

lemma availabilitySpec_counts {C : Config} {P : Primitives} {packageHash : Octets32}
    {bundle : Octets} {exports : List Octets} {validatorCount : ℤ} {spec : WorkPackageSpec}
    (h : availabilitySpec C P packageHash bundle exports validatorCount = .ok spec) :
    spec.length = bundle.length ∧ spec.exportsCount = exports.length := by
  simp only [availabilitySpec, Except.bind_eq_ok] at h
  obtain ⟨_, -, _, -, _, -, _, -, _, -, hspec⟩ := h
  cases hspec
  exact ⟨rfl, rfl⟩

lemma computed_of_computeWorkReport {C : Config} {P : Primitives} {I : Invocations}
    (hcodec : P.codec.Documented) (hI : I.WithinLimits) {services : ServicesState}
    {data : BundleData} {package : WorkPackage} {coreIndex : ℤ}
    {mappings : Dict Octets32 Octets32} {erasureShards : ℤ} {out : RefinementOutput}
    (h : computeWorkReport C P I services data package coreIndex mappings erasureShards = .ok out) :
    Computed C I package mappings out := by
  simp only [computeWorkReport, Except.bind_eq_ok] at h
  obtain ⟨_, hvalidate, _, -, _, -, _, hmappings, bundle, hbundle, extrinsics, -, imports, -, code, -,
    authorization, hauthorization, trace, htrace, progress, hprogress, encoded, -, spec, hspec, hout⟩ := h
  cases hout
  have hvalid := valid_of_validateWorkPackage hvalidate
  have hnatural := BundleData.natural_of_assembleBundle hcodec hbundle
  have hstart : Refined trace []
      { digests := [], exports := [], outputSize := trace.length, exportOffset := 0 } :=
    ⟨.nil, rfl, trace_of_authorizedTrace htrace, rfl⟩
  have hrefined := refined_refineItems hI (fun item hitem => (hnatural item hitem).exportCount)
    hstart hprogress
  rw [List.nil_append] at hrefined
  obtain ⟨hlength, hcount⟩ := availabilitySpec_counts hspec
  exact {
    valid := hvalid
    natural := hnatural
    mappings_eq := not_not.mp (Except.raiseIf_eq_ok.mp hmappings)
    bundle_le := BundleData.length_assembleBundle_le_maximum hcodec hvalid hbundle
    length_eq := hlength
    exportsCount_eq := by
      rw [← hrefined.exports, hcount]
    context_eq := rfl
    segmentRootLookup_eq := rfl
    authGasUsed_le := hI.isAuthorized hauthorization
    digests := hrefined.digests
    output_le := hrefined.outputSize ▸ hrefined.outputSize_le }

/-! ## A computed report passes them -/

section Computed

variable {C : Config} {I : Invocations} {package : WorkPackage} {mappings : Dict Octets32 Octets32}
  {out : RefinementOutput}

lemma Computed.workResultCount (h : Computed C I package mappings out) :
    checkWorkResultCount out.report = .ok () := by
  refine Except.raiseIf_eq_ok.mpr (not_not.mpr ?_)
  rw [← h.digests.length_eq]
  exact ⟨h.valid.items_pos, h.valid.items_le⟩

lemma Computed.sizeLimit (h : Computed C I package mappings out) :
    checkSizeLimit out.report = .ok () :=
  Except.raiseIf_eq_ok.mpr (not_lt.mpr h.output_le)

/-- The gas of the authorizer and of all results together is within the limits. -/
lemma Computed.gasRequirements (h : Computed C I package mappings out) (current : ServicesState) :
    checkGasRequirements out.report current ≠ .error (.stateTransition .authorizerGasTooHigh) ∧
      checkGasRequirements out.report current ≠
        .error (.stateTransition .workReportGasTooHigh) := by
  have hgas := map_eq_of_digests h.digests (f := fun d => d.accumulateGas)
    (fun _ _ hd => hd.accumulateGas)
  have hnonneg : ∀ d ∈ out.report.results, 0 ≤ d.accumulateGas := by
    intro d hd
    have hmem := List.mem_map_of_mem (f := fun d => d.accumulateGas) hd
    rw [hgas] at hmem
    obtain ⟨item, hitem, hlimit⟩ := List.mem_map.mp hmem
    rw [← hlimit]
    exact (h.natural item hitem).accumulateGasLimit
  have hsum : 0 + (out.report.results.map (fun d => d.accumulateGas)).sum ≤ gasAccumulation := by
    rw [zero_add, hgas]
    exact h.valid.accumulateGas_le
  rw [checkGasRequirements, Except.raiseIf_bind, if_neg (not_lt.mpr h.authGasUsed_le)]
  constructor
  · intro herror
    rcases checkResultGas_ne hnonneg hsum herror with hcode | hcode | hcode <;> cases hcode
  · intro herror
    rcases checkResultGas_ne hnonneg hsum herror with hcode | hcode | hcode <;> cases hcode

/-- The digests carry the loads of the items, which the package was checked for. -/
lemma Computed.refinementLoad (h : Computed C I package mappings out) :
    checkRefinementLoad C out.report = .ok () := by
  refine Except.raiseIf_eq_ok.mpr ?_
  have hgas := sum_gasUsed_le h.digests
  have himports := map_eq_of_digests h.digests (fun _ _ hd => hd.imports)
  have hexports := map_eq_of_digests h.digests (fun _ _ hd => hd.exports)
  have hcount := map_eq_of_digests h.digests (fun _ _ hd => hd.extrinsicCount)
  have hsize := map_eq_of_digests h.digests (fun _ _ hd => hd.extrinsicSize)
  have hfootprint := sum_footprint_ge package.items
  have htotal := h.valid.footprint_le
  rw [WorkPackage.footprint] at htotal
  simp only [List.map_map, Function.comp_def, himports, hexports, hcount, hsize, not_or, gt_iff_lt,
    not_lt]
  exact ⟨hgas.trans h.valid.refineGas_le, h.valid.imports_le, h.valid.exports_le,
    h.valid.extrinsics_le, by rw [maximumSizeWorkPackage]; omega⟩

lemma Computed.bundleLength (h : Computed C I package mappings out) :
    checkBundleLength out.report = .ok () := by
  refine Except.raiseIf_eq_ok.mpr (not_lt.mpr ?_)
  rw [h.length_eq]
  exact h.bundle_le

lemma Computed.exportCount (h : Computed C I package mappings out) :
    checkExportCount out.report = .ok () := by
  refine Except.raiseIf_eq_ok.mpr (not_not.mpr ?_)
  rw [h.exportsCount_eq, map_eq_of_digests h.digests (fun _ _ hd => hd.exports)]

/-- The segment roots are those of the dependencies of the package. -/
lemma Computed.dependencyCount (h : Computed C I package mappings out) :
    checkDependencyCount out.report = .ok () := by
  refine Except.raiseIf_eq_ok.mpr (not_lt.mpr ?_)
  have hcard := List.toFinset_card_of_nodup (show mappings.keys.Nodup from mappings.nodup)
  rw [h.mappings_eq] at hcard
  have := h.valid.dependencies_le
  rw [WorkReport.dependencyCount, h.context_eq, h.segmentRootLookup_eq, ← hcard]
  exact this

end Computed

/-- A report that was computed passes the checks of the chain on its own numbers, and its bundle is
never too long to audit. -/
theorem computeWorkReport_passes_checks (C : Config) (P : Primitives) (I : Invocations)
    (hcodec : P.codec.Documented) (hI : I.WithinLimits) (services : ServicesState)
    (data : BundleData) (package : WorkPackage) (coreIndex : ℤ)
    (mappings : Dict Octets32 Octets32) (erasureShards : ℤ) (out : RefinementOutput)
    (h : computeWorkReport C P I services data package coreIndex mappings erasureShards = .ok out) :
    checkWorkResultCount out.report = .ok () ∧
      checkSizeLimit out.report = .ok () ∧
      (∀ current : ServicesState,
        checkGasRequirements out.report current ≠ .error (.stateTransition .authorizerGasTooHigh) ∧
        checkGasRequirements out.report current ≠ .error (.stateTransition .workReportGasTooHigh)) ∧
      checkRefinementLoad C out.report = .ok () ∧
      checkBundleLength out.report = .ok () ∧
      checkExportCount out.report = .ok () ∧
      checkDependencyCount out.report = .ok () ∧
      out.report.packageSpec.length = out.bundle.length ∧
      out.bundle.length ≤ maximumSizeAuditableBundle := by
  have hc := computed_of_computeWorkReport hcodec hI h
  exact ⟨hc.workResultCount, hc.sizeLimit, hc.gasRequirements, hc.refinementLoad, hc.bundleLength,
    hc.exportCount, hc.dependencyCount, hc.length_eq, hc.bundle_le⟩

/-- Code that authorizes everything, returns its payload and exports segments of nines. -/
def sampleInvocations : Invocations where
  pvmInvokeIsAuthorized code _ _ :=
    match code with
    | none => .ok ⟨.badCode, 0⟩
    | some _ => .ok ⟨.ok [1], 10⟩
  pvmInvokeRefine arguments :=
    .ok {
      workExecResult := .ok arguments.item.payload
      exportSegments := List.replicate arguments.item.exportCount.toNat (List.replicate 4104 9)
      gasUsed := min 10 arguments.item.refineGasLimit }

/-- A state in which service 0 has had its two authorization codes since slot 0. -/
def sampleServices : ServicesState where
  stateStorage := .init ∅
  pendingChanges :=
    { serviceAccounts := ∅
      storageItems := ∅
      preimages := Dict.insert (Dict.insert ∅ (0, Vector.replicate 32 0) (some [7]))
        (0, Vector.replicate 32 1) (some [8])
      preimagesAvailability := Dict.insert (Dict.insert ∅ (0, Vector.replicate 32 0, 1) (some [0]))
        (0, Vector.replicate 32 1, 1) (some [0]) }
  services := ∅

/-- A package of one item with a payload of one octet. -/
def samplePackage : WorkPackage where
  authCodeHost := 0
  authCodeHash := Vector.replicate 32 0
  context :=
    { anchor := Vector.replicate 32 0
      anchorSlot := 1
      stateRoot := Vector.replicate 32 0
      beefyRoot := Vector.replicate 32 0
      lookupAnchor := Vector.replicate 32 0
      lookupAnchorSlot := 1
      lookupAnchorStateRoot := Vector.replicate 32 0
      prerequisites := [] }
  authorization := []
  authorizerConfig := []
  items :=
    [{ service := 0
       codeHash := Vector.replicate 32 0
       refineGasLimit := 1000
       accumulateGasLimit := 1000
       exportCount := 0
       payload := [5]
       importSegments := []
       extrinsic := [] }]

/-- A package with another authorization, whose item imports a segment, reads a blob and exports a
segment. -/
def sampleImporter (entry : ImportSegment) : WorkPackage :=
  { samplePackage with
    authCodeHash := Vector.replicate 32 1
    items := samplePackage.items.map (fun item => { item with
      exportCount := 1
      importSegments := [entry]
      extrinsic := [⟨toDigest [2, 3], 2⟩] }) }

lemma sampleInvocations_withinLimits : sampleInvocations.WithinLimits where
  isAuthorized := by
    intro code package core output h
    cases code <;> cases h <;> decide
  refine := by
    intro arguments output h
    cases h
    exact min_le_right _ _

/-- The import of the first segment of a tree. -/
def sampleImport : ImportSegment := ⟨toDigest (Merkle.leafTag ++ List.replicate 4104 9), 0⟩

/-- The blob, and the segment of a tree of one. -/
def sampleData : BundleData where
  extrinsics := Dict.insert ∅ (toDigest [2, 3]) [2, 3]
  imports := Dict.insert ∅ (sampleImport.treeRoot, 0) ⟨List.replicate 4104 9, []⟩

set_option maxRecDepth 100000 in
/-- A package with an import, a blob and an export is computed, so its report passes. -/
theorem sampleReport_passes_checks : ∃ out,
    computeWorkReport ⟨341, 5000000000⟩ samplePrimitives sampleInvocations sampleServices sampleData
        (sampleImporter sampleImport) 0 ∅ 6 = .ok out ∧
      checkWorkResultCount out.report = .ok () ∧ checkSizeLimit out.report = .ok () ∧
      checkExportCount out.report = .ok () ∧ out.bundle.length ≤ maximumSizeAuditableBundle := by
  have hok : (computeWorkReport ⟨341, 5000000000⟩ samplePrimitives sampleInvocations sampleServices
      sampleData (sampleImporter sampleImport) 0 ∅ 6).isOk = true := by decide +kernel
  cases hout : computeWorkReport ⟨341, 5000000000⟩ samplePrimitives sampleInvocations sampleServices
      sampleData (sampleImporter sampleImport) 0 ∅ 6 with
  | error e =>
    rw [hout] at hok
    cases hok
  | ok out =>
    obtain ⟨hcount, hsize, -, -, -, hexports, -, -, hbundle⟩ :=
      computeWorkReport_passes_checks ⟨341, 5000000000⟩ samplePrimitives sampleInvocations
        Codec.documented_natural sampleInvocations_withinLimits sampleServices sampleData
        (sampleImporter sampleImport) 0 ∅ 6 out hout
    exact ⟨out, rfl, hcount, hsize, hexports, hbundle⟩

end Refinement
