import Pyjamaz.Refinement.Bundle

/-!
# Reports

`computeWorkReport` validates a package, assembles its bundle, asks whether it is authorized, refines
its items one after another and commits to the bundle and to the exported segments.  The two kinds of
invocation are parameters (`Invocations`): what they run is a program, and what is used of a run is its
result, its exports and the gas it reports.

## Failures of an item

A result that would make the report too large is replaced by `digestOversize`, and only then is the
number of exports looked at; whatever the reason, an item that failed exports as many zero segments as
it declared.  `Refined` is what the loop over the items keeps.
-/

namespace Refinement

open Octets Services

/-! ## Data -/

/-- Exactly one field of a `WorkExecResult` is set. -/
inductive WorkExecResult where
  | ok (output : Octets)
  | outOfGas
  | panic
  | badExports
  | digestOversize
  | badCode
  | codeOversize
  deriving DecidableEq, Repr

/-- `result.ok or b''` -/
def WorkExecResult.output : WorkExecResult → Octets
  | .ok output => output
  | _ => []

structure RefineLoad where
  gasUsed : ℤ
  imports : ℕ
  extrinsicCount : ℕ
  extrinsicSize : ℤ
  exports : ℤ
  deriving DecidableEq, Repr

structure WorkDigest where
  serviceId : ℕ
  codeHash : Octets32
  payloadHash : Octets32
  accumulateGas : ℤ
  result : WorkExecResult
  refineLoad : RefineLoad
  deriving DecidableEq, Repr

structure WorkPackageSpec where
  hash : Octets32
  length : ℕ
  erasureRoot : Octets
  erasureShards : ℤ
  exportsRoot : Octets
  exportsCount : ℕ
  deriving DecidableEq, Repr

structure WorkReport where
  packageSpec : WorkPackageSpec
  context : RefinementContext
  coreIndex : ℤ
  authorizerHash : Octets32
  authGasUsed : ℤ
  authOutput : Octets
  segmentRootLookup : Dict Octets32 Octets32
  results : List WorkDigest

def WorkReport.dependencyCount (report : WorkReport) : ℕ :=
  report.segmentRootLookup.keys.length + report.context.prerequisites.length

/-- `WorkDigest.from_work_item` -/
def WorkDigest.fromWorkItem (P : Primitives) (item : WorkItem) (result : WorkExecResult)
    (gasUsed : ℤ) : WorkDigest where
  serviceId := item.service
  codeHash := item.codeHash
  payloadHash := P.blake2b256Hash item.payload
  accumulateGas := item.accumulateGasLimit
  result := result
  refineLoad :=
    { gasUsed := gasUsed
      imports := item.importSegments.length
      extrinsicCount := item.extrinsic.length
      extrinsicSize := (item.extrinsic.map (fun x => x.len)).sum
      exports := item.exportCount }

/-! ## Invocations -/

structure PvmIsAuthorizedOutput where
  workExecResult : WorkExecResult
  gasUsed : ℤ

structure PvmRefineOutput where
  workExecResult : WorkExecResult
  exportSegments : List Octets
  gasUsed : ℤ

/-- The arguments of a refine invocation, with the item that its index stands for. -/
structure RefineArguments where
  coreIndex : ℤ
  workItemIndex : ℕ
  item : WorkItem
  package : WorkPackage
  authorizerOutput : Octets
  imports : List (List Octets)
  exportSegmentOffset : ℤ
  services : ServicesState
  extrinsics : List (List Octets)

/-- What the two kinds of invocation answer.  The first gets the authorization code as well, which is
nothing when it is not available. -/
structure Invocations where
  pvmInvokeIsAuthorized : Option Octets → WorkPackage → ℤ → Except ReportError PvmIsAuthorizedOutput
  pvmInvokeRefine : RefineArguments → Except ReportError PvmRefineOutput

/-- The reported gas is within the supplied limit. -/
structure Invocations.WithinLimits (I : Invocations) : Prop where
  isAuthorized : ∀ {code package core output},
    I.pvmInvokeIsAuthorized code package core = .ok output → output.gasUsed ≤ gasInvoke
  refine : ∀ {arguments output},
    I.pvmInvokeRefine arguments = .ok output → output.gasUsed ≤ arguments.item.refineGasLimit

/-! ## Availability -/

/-- `valid_validator_count` -/
def validValidatorCount (C : Config) (count : ℤ) : Prop :=
  6 ≤ count ∧ count ≤ 3 * C.coreCount ∧ count % 3 = 0

instance (C : Config) (count : ℤ) : Decidable (validValidatorCount C count) :=
  inferInstanceAs (Decidable (_ ∧ _))

/-- The largest number of data shards that divides a segment into pieces of two octets. -/
def erasureDataShards (C : Config) (validatorCount : ℤ) : Except ReportError ℕ := do
  Except.raiseIf (¬ validValidatorCount C validatorCount) (.value "invalid assurer count")
  return (((List.range (validatorCount.toNat / 3 + 2)).filter
    (fun d => 1 ≤ d ∧ ecSegmentSize % (2 * d) = 0)).foldl max 0)

/-- The erasure code answers one shard of the right size for each validator. -/
def encodeChunks (C : Config) (P : Primitives) (validatorCount : ℤ) (pieceCount : ℕ)
    (data : Octets) : Except ReportError (List Octets) := do
  let originals ← erasureDataShards C validatorCount
  Except.raiseIf (data.length ≠ 2 * pieceCount * originals)
    (.value "data length does not match erasure dimensions")
  if pieceCount = 0 then return List.replicate validatorCount.toNat []
  else
    match P.encodeShards data originals (validatorCount.toNat - originals) with
    | none => throw .raised
    | some shards =>
      Except.raiseIf
        (shards.length ≠ validatorCount.toNat ∨ shards.any (fun s => s.length ≠ 2 * pieceCount))
        .raised
      return shards

/-- `zero_pad` -/
def zeroPad (alignment : ℕ) (data : Octets) : Octets :=
  data ++ List.replicate ((alignment - data.length % alignment) % alignment) 0

/-- `[data[i:i + size] for i in range(0, len(data), size)]` -/
def pieces {α : Type} (size : ℕ) (data : List α) : List (List α) :=
  (List.range ((data.length + size - 1) / size)).map (fun i => (data.drop (i * size)).take size)

/-- A page for every 64 segments: the way to the page, and the hashes of its segments. -/
def pagedProofSegments (P : Primitives) (exports : List Octets) : Except ReportError (List Octets) :=
  let hashes := exports.map (fun segment => (P.blake2b256Hash (Merkle.leafTag ++ segment)).toList)
  let pageDepth := TwosComplement.bitLength (exports.length - 1) - 6
  (List.range ((exports.length + 63) / 64)).mapM (fun page => do
    let path ← match Merkle.trace Merkle.ceilLog2 P.blake2b256Hash exports ((page * 64 : ℕ) : ℤ) with
      | some path => pure (path.take pageDepth)
      | none => throw .raised
    let way ← orRaise (encodeVec P.codec P.codec.h256 path)
    let leaves ← orRaise (encodeVec P.codec P.codec.h256 ((hashes.drop (page * 64)).take 64))
    return zeroPad ecSegmentSize (way ++ leaves))

/-- `WellBalancedMerkleTree.root` -/
def wellBalancedRoot (hash : Octets → Octets32) (data : List Octets) : Octets :=
  match data with
  | [leaf] => (hash leaf).toList
  | _ => Merkle.node hash data

/-- The columns of segments: for each shard, its piece of every segment. -/
def transposed (originals shardSize : ℕ) (segments : List Octets) : Octets :=
  (List.range originals).flatMap (fun i =>
    segments.flatMap (fun segment => slice segment (i * shardSize) ((i + 1) * shardSize)))

def availabilitySpec (C : Config) (P : Primitives) (packageHash : Octets32) (bundle : Octets)
    (exports : List Octets) (validatorCount : ℤ) : Except ReportError WorkPackageSpec := do
  Except.raiseIf
    (exports.length > maximumNumberExportsWorkPackage ∨
      exports.any (fun s => s.length ≠ ecSegmentSize))
    (.process "invalid exported segments")
  let originals ← erasureDataShards C validatorCount
  let alignment := 2 * originals
  let pieceCount := (bundle.length + alignment - 1) / alignment
  let bundleShards ← encodeChunks C P validatorCount pieceCount (zeroPad alignment bundle)
  let pages ← pagedProofSegments P exports
  let segmentShardSize := ecSegmentSize / originals
  let columns := transposed originals segmentShardSize (exports ++ pages)
  let rows ← encodeChunks C P validatorCount (columns.length / alignment) columns
  let leaves := (bundleShards.zip rows).map (fun (bundleShard, row) =>
    (P.blake2b256Hash bundleShard).toList ++
      wellBalancedRoot P.blake2b256Hash (pieces segmentShardSize row))
  return {
    hash := packageHash
    length := bundle.length
    erasureRoot := wellBalancedRoot P.blake2b256Hash leaves
    erasureShards := validatorCount
    exportsRoot := Merkle.segmentRoot Merkle.ceilLog2 P.blake2b256Hash exports
    exportsCount := exports.length }

/-! ## The computation -/

/-- `set_authorization_code`: the program of the preimage, as the historical state knows it. -/
def authorizationCode (P : Primitives) (services : ServicesState) (package : WorkPackage) :
    Except ReportError (Option Octets) := do
  let preimage ← (services.historicalPreimageLookup P.toPrimitives package.authCodeHost
    package.context.lookupAnchorSlot package.authCodeHash).mapError ReportError.service
  return (preimage.filter (fun blob => blob ≠ [])).map P.serializedProgram

/-- The trace of an authorization, with the two checks on it. -/
def authorizedTrace (authorization : PvmIsAuthorizedOutput) : Except ReportError Octets :=
  match authorization.workExecResult with
  | .ok trace => do
    Except.raiseIf (trace.length > maximumSizeEncodedWorkReport) (.process "Oversized auth result")
    return trace
  | _ => .error (.process "Unauthorized")

/-- The variables of the loop over the items. -/
structure Progress where
  digests : List WorkDigest
  exports : List Octets
  outputSize : ℕ
  exportOffset : ℤ

/-- The result of an item in the report. -/
def reportedResult (item : WorkItem) (outputSize : ℕ) (output : PvmRefineOutput) : WorkExecResult :=
  if outputSize + output.workExecResult.output.length > maximumSizeEncodedWorkReport then
    .digestOversize
  else if (output.exportSegments.length : ℤ) ≠ item.exportCount then .badExports
  else output.workExecResult

/-- The exports of an item in the report: a failed one exports zeros. -/
def reportedExports (item : WorkItem) (result : WorkExecResult) (exportSegments : List Octets) :
    List Octets :=
  match result with
  | .ok _ => exportSegments
  | _ => List.replicate item.exportCount.toNat (List.replicate ecSegmentSize 0)

/-- The arguments that do not change from item to item. -/
structure RefinementTask where
  services : ServicesState
  package : WorkPackage
  coreIndex : ℤ
  trace : Octets
  imports : List (List Octets)
  extrinsics : List (List Octets)

/-- The body of the loop over the items. -/
def refineItem (P : Primitives) (I : Invocations) (task : RefinementTask) (index : ℕ) (item : WorkItem)
    (progress : Progress) : Except ReportError Progress := do
  let output ← I.pvmInvokeRefine
    { coreIndex := task.coreIndex
      workItemIndex := index
      item := item
      package := task.package
      authorizerOutput := task.trace
      imports := task.imports
      exportSegmentOffset := progress.exportOffset
      services := task.services
      extrinsics := task.extrinsics }
  let result := reportedResult item progress.outputSize output
  return {
    digests := progress.digests ++ [WorkDigest.fromWorkItem P item result output.gasUsed]
    exports := progress.exports ++ reportedExports item result output.exportSegments
    outputSize := progress.outputSize + result.output.length
    exportOffset := progress.exportOffset + item.exportCount }

def refineItems (P : Primitives) (I : Invocations) (task : RefinementTask) :
    ℕ → List WorkItem → Progress → Except ReportError Progress
  | _, [], progress => .ok progress
  | index, item :: items, progress => do
    let progress ← refineItem P I task index item progress
    refineItems P I task (index + 1) items progress

/-- The report, with the bundle and the exported segments that the runtime persists. -/
structure RefinementOutput where
  report : WorkReport
  bundle : Octets
  exportedSegments : List Octets

def computeWorkReport (C : Config) (P : Primitives) (I : Invocations) (services : ServicesState)
    (data : BundleData) (package : WorkPackage) (coreIndex : ℤ)
    (mappings : Dict Octets32 Octets32) (erasureShards : ℤ) :
    Except ReportError RefinementOutput := do
  validateWorkPackage C package
  Except.raiseIf (¬ (0 ≤ coreIndex ∧ coreIndex < C.coreCount)) (.process "invalid core index")
  let _ ← (erasureDataShards C erasureShards).mapError (fun e =>
    match e with
    | .value message => .process message
    | e => e)
  Except.raiseIf (mappings.keys.toFinset ≠ package.dependencies)
    (.process "segment-root dictionary has unexpected keys")
  let bundle ← data.assembleBundle P package mappings
  let extrinsics ← package.items.mapM (data.extrinsicData P)
  let imports ← package.items.mapM (data.importSegments P mappings)
  let code ← authorizationCode P services package
  let authorization ← I.pvmInvokeIsAuthorized code package coreIndex
  let trace ← authorizedTrace authorization
  let task : RefinementTask :=
    { services := services
      package := package
      coreIndex := coreIndex
      trace := trace
      imports := imports
      extrinsics := extrinsics }
  let progress ← refineItems P I task 0 package.items
    { digests := []
      exports := []
      outputSize := trace.length
      exportOffset := 0 }
  let encoded ← orRaise (package.toJamBytes P.codec)
  let spec ← availabilitySpec C P (P.blake2b256Hash encoded) bundle progress.exports erasureShards
  return {
    report :=
      { packageSpec := spec
        context := package.context
        coreIndex := coreIndex
        authorizerHash := P.blake2b256Hash (package.authCodeHash.toList ++ package.authorizerConfig)
        authGasUsed := authorization.gasUsed
        authOutput := trace
        segmentRootLookup := mappings
        results := progress.digests }
    bundle := bundle
    exportedSegments := progress.exports }

/-! ## What the loop keeps -/

/-- A digest of an item: everything but the result comes from the item, and the gas is within its
limit. -/
structure Digests (item : WorkItem) (digest : WorkDigest) : Prop where
  gasUsed : digest.refineLoad.gasUsed ≤ item.refineGasLimit
  accumulateGas : digest.accumulateGas = item.accumulateGasLimit
  imports : digest.refineLoad.imports = item.importSegments.length
  extrinsicCount : digest.refineLoad.extrinsicCount = item.extrinsic.length
  extrinsicSize : digest.refineLoad.extrinsicSize = (item.extrinsic.map (fun x => x.len)).sum
  exports : digest.refineLoad.exports = item.exportCount

/-- The state of the loop after some items. -/
structure Refined (trace : Octets) (done : List WorkItem) (progress : Progress) : Prop where
  digests : List.Forall₂ Digests done progress.digests
  outputSize : progress.outputSize =
    trace.length + (progress.digests.map (fun d => d.result.output.length)).sum
  outputSize_le : progress.outputSize ≤ maximumSizeEncodedWorkReport
  exports : (progress.exports.length : ℤ) = (done.map (fun w => w.exportCount)).sum

/-- The result that is reported fits. -/
lemma reportedResult_fits {item : WorkItem} {outputSize : ℕ} (output : PvmRefineOutput)
    (h : outputSize ≤ maximumSizeEncodedWorkReport) :
    outputSize + (reportedResult item outputSize output).output.length ≤
      maximumSizeEncodedWorkReport := by
  unfold reportedResult
  by_cases hsize : outputSize + output.workExecResult.output.length > maximumSizeEncodedWorkReport
  · rw [if_pos hsize]
    exact h
  · rw [if_neg hsize]
    by_cases hexports : (output.exportSegments.length : ℤ) ≠ item.exportCount
    · rw [if_pos hexports]
      exact h
    · rw [if_neg hexports]
      exact not_lt.mp hsize

/-- Whatever the reason of a failure, an item exports as many segments as it declared. -/
lemma length_reportedExports {item : WorkItem} (hcount : 0 ≤ item.exportCount) {outputSize : ℕ}
    (output : PvmRefineOutput) :
    ((reportedExports item (reportedResult item outputSize output) output.exportSegments).length : ℤ) =
      item.exportCount := by
  cases hresult : reportedResult item outputSize output with
  | ok bytes =>
    -- a result is kept only when the exports are as many as declared
    unfold reportedResult at hresult
    split at hresult
    · cases hresult
    · split at hresult
      · cases hresult
      · next hexports => exact not_not.mp hexports
  | _ =>
    simp only [reportedExports, List.length_replicate]
    omega

section

variable {P : Primitives} {I : Invocations} {task : RefinementTask}

lemma refined_refineItem (hI : I.WithinLimits) {index : ℕ} {item : WorkItem}
    (hcount : 0 ≤ item.exportCount) {done : List WorkItem} {progress progress' : Progress}
    (hprogress : Refined task.trace done progress)
    (h : refineItem P I task index item progress = .ok progress') :
    Refined task.trace (done ++ [item]) progress' := by
  obtain ⟨output, houtput, h⟩ := Except.bind_eq_ok.mp h
  cases h
  have hgas := hI.refine houtput
  refine ⟨?_, ?_, reportedResult_fits output hprogress.outputSize_le, ?_⟩
  · exact List.rel_append hprogress.digests (.cons ⟨hgas, rfl, rfl, rfl, rfl, rfl⟩ .nil)
  · have hsize := hprogress.outputSize
    simp only [List.map_append, List.sum_append, List.map_cons, List.map_nil, List.sum_cons,
      List.sum_nil, WorkDigest.fromWorkItem]
    omega
  · have hexports := hprogress.exports
    have hitem : ((reportedExports item (reportedResult item progress.outputSize output)
        output.exportSegments).length : ℤ) = item.exportCount := length_reportedExports hcount output
    simp only [List.length_append, List.map_append, List.sum_append, List.map_cons, List.map_nil,
      List.sum_cons, List.sum_nil]
    push_cast
    omega

lemma refined_refineItems (hI : I.WithinLimits) {items done : List WorkItem} {index : ℕ}
    {progress progress' : Progress} (hcount : ∀ item ∈ items, 0 ≤ item.exportCount)
    (hprogress : Refined task.trace done progress)
    (h : refineItems P I task index items progress = .ok progress') :
    Refined task.trace (done ++ items) progress' := by
  induction items generalizing done index progress with
  | nil =>
    cases h
    rwa [List.append_nil]
  | cons item items ih =>
    obtain ⟨next, hnext, h⟩ := Except.bind_eq_ok.mp h
    have hitem := refined_refineItem hI (hcount item (List.mem_cons_self ..)) hprogress hnext
    have hrest := ih (fun w hw => hcount w (List.mem_cons_of_mem item hw)) hitem h
    rwa [List.append_assoc, List.singleton_append] at hrest

end

end Refinement
