import Mathlib.Data.Finset.Card
import Mathlib.Data.Finset.Dedup
import Pyjamaz.Library.Encoding
import Pyjamaz.Library.Result
import Pyjamaz.Library.TwosComplement
import Pyjamaz.Merkle.ConstantDepth
import Pyjamaz.Services.State

/-!
# Work packages

A work package names a context and one to sixteen work items; an item names the segments it imports
and the blobs it reads, with their hashes and lengths, and declares how much gas it takes and how many
segments it exports.  Integers that a limit is computed from are kept as integers: the encoders raise
on what does not fit the type of a field, the checks do not.

`validateWorkPackage` bounds a package by what it declares, and `length_toJamBytes_le` bounds its
encoding by what it contains.
-/

namespace Refinement

open Octets Services

/-! ## Constants -/

/-- The constants that the test suites choose differently. -/
structure Config where
  coreCount : ℕ
  gasRefine : ℕ

def gasInvoke : ℕ := 50000000
def gasAccumulation : ℕ := 10000000
def maximumWorkItems : ℕ := 16
def maximumDependenciesWorkReport : ℕ := 8
def maximumNumberExtrinsicsWorkPackage : ℕ := 128
def maximumNumberImportsWorkPackage : ℕ := 3072
def maximumNumberExportsWorkPackage : ℕ := 3072
def maximumSizeWorkPackage : ℕ := 13791360
def maximumSizeEncodedWorkReport : ℕ := 48 * 2 ^ 10
def ecSegmentSize : ℕ := 4104

/-- `(MAXIMUM_NUMBER_EXPORTS_WORK_PACKAGE - 1).bit_length()` -/
def maximumProofLength : ℕ := TwosComplement.bitLength (maximumNumberExportsWorkPackage - 1)

/-- `IMPORT_SEGMENT_FOOTPRINT`: a segment and its longest proof. -/
def importSegmentFootprint : ℕ := ecSegmentSize + 32 * maximumProofLength

/-! ## Data -/

/-- The hash, and what comes from other packages: the codec of the basic types, the erasure code, and
the program inside a preimage. -/
structure Primitives extends Services.Primitives where
  codec : Codec
  encodeShards : Octets → ℕ → ℕ → Option (List Octets)
  serializedProgram : Octets → Octets

/-- A hash that keeps the first 32 octets, and an erasure code that repeats the first shard. -/
def samplePrimitives : Primitives where
  toPrimitives := .ofHash toDigest
  codec := .natural
  encodeShards data originals parity :=
    some (List.replicate (originals + parity) (data.take (data.length / originals)))
  serializedProgram blob := blob

/-- What a computation of a report can raise. -/
inductive ReportError where
  /-- `ProcessWorkpackageError` -/
  | process (message : String)
  /-- `ValueError`, with its text -/
  | value (message : String)
  /-- an error of an encoder or of the erasure code -/
  | raised
  | service (e : ServiceError)
  deriving DecidableEq, Repr

structure RefinementContext where
  anchor : Octets32
  anchorSlot : ℕ
  stateRoot : Octets32
  beefyRoot : Octets32
  lookupAnchor : Octets32
  lookupAnchorSlot : ℕ
  lookupAnchorStateRoot : Octets32
  prerequisites : List Octets32
  deriving DecidableEq, Repr

structure WorkItemExtrinsic where
  hash : Octets32
  len : ℤ
  deriving DecidableEq, Repr

structure ImportSegment where
  treeRoot : Octets32
  index : ℤ
  deriving DecidableEq, Repr

/-- Is the root the hash of a work package? The flag is bit 15 of the index. -/
def ImportSegment.isWorkPackageHash (entry : ImportSegment) : Bool := entry.index / 2 ^ 15 % 2 = 1

/-- The index without the flag. -/
def ImportSegment.segmentIndex (entry : ImportSegment) : ℤ := entry.index % 2 ^ 15

structure WorkItem where
  service : ℕ
  codeHash : Octets32
  refineGasLimit : ℤ
  accumulateGasLimit : ℤ
  exportCount : ℤ
  payload : Octets
  importSegments : List ImportSegment
  extrinsic : List WorkItemExtrinsic
  deriving DecidableEq, Repr

structure WorkPackage where
  authCodeHost : ℕ
  authCodeHash : Octets32
  context : RefinementContext
  authorization : Octets
  authorizerConfig : Octets
  items : List WorkItem
  deriving DecidableEq, Repr

/-- The package hashes that the imports refer to, each once. -/
def WorkPackage.dependencies (package : WorkPackage) : Finset Octets32 :=
  (package.items.flatMap (fun item =>
    (item.importSegments.filter (fun entry => entry.isWorkPackageHash)).map
      (fun entry => entry.treeRoot))).toFinset

/-! ## The encoding -/

section

variable (codec : Codec)

def RefinementContext.toJamBytes (context : RefinementContext) : Option Octets := do
  let anchor ← codec.h256 context.anchor.toList
  let anchorSlot ← codec.uint 4 context.anchorSlot
  let stateRoot ← codec.h256 context.stateRoot.toList
  let beefyRoot ← codec.h256 context.beefyRoot.toList
  let lookupAnchor ← codec.h256 context.lookupAnchor.toList
  let lookupAnchorSlot ← codec.uint 4 context.lookupAnchorSlot
  let lookupAnchorStateRoot ← codec.h256 context.lookupAnchorStateRoot.toList
  let prerequisites ← encodeVec codec (fun h => codec.h256 h.toList) context.prerequisites
  return anchor ++ anchorSlot ++ stateRoot ++ beefyRoot ++ lookupAnchor ++ lookupAnchorSlot ++
    lookupAnchorStateRoot ++ prerequisites

def WorkItemExtrinsic.toJamBytes (manifest : WorkItemExtrinsic) : Option Octets := do
  let hash ← codec.h256 manifest.hash.toList
  let len ← codec.uint 4 manifest.len
  return hash ++ len

def ImportSegment.toJamBytes (entry : ImportSegment) : Option Octets := do
  let treeRoot ← codec.h256 entry.treeRoot.toList
  let index ← codec.uint 2 entry.index
  return treeRoot ++ index

def WorkItem.toJamBytes (item : WorkItem) : Option Octets := do
  let service ← codec.uint 4 item.service
  let codeHash ← codec.h256 item.codeHash.toList
  let refineGasLimit ← codec.uint 8 item.refineGasLimit
  let accumulateGasLimit ← codec.uint 8 item.accumulateGasLimit
  let exportCount ← codec.uint 2 item.exportCount
  let importSegments ← encodeVec codec (ImportSegment.toJamBytes codec) item.importSegments
  let extrinsic ← encodeVec codec (WorkItemExtrinsic.toJamBytes codec) item.extrinsic
  return service ++ codeHash ++ refineGasLimit ++ accumulateGasLimit ++ exportCount ++
    codec.bytes item.payload ++ importSegments ++ extrinsic

def WorkPackage.toJamBytes (package : WorkPackage) : Option Octets := do
  let authCodeHost ← codec.uint 4 package.authCodeHost
  let authCodeHash ← codec.h256 package.authCodeHash.toList
  let context ← package.context.toJamBytes codec
  let items ← encodeVec codec (WorkItem.toJamBytes codec) package.items
  return authCodeHost ++ authCodeHash ++ context ++ codec.bytes package.authorization ++
    codec.bytes package.authorizerConfig ++ items

end

/-! ## Validation -/

/-- What an item adds to the footprint: its payload, its imports with their proofs, its blobs. -/
def WorkItem.footprint (item : WorkItem) : ℤ :=
  item.payload.length + item.importSegments.length * importSegmentFootprint +
    (item.extrinsic.map (fun x => x.len)).sum

def WorkPackage.footprint (package : WorkPackage) : ℤ :=
  package.authorization.length + package.authorizerConfig.length +
    (package.items.map WorkItem.footprint).sum

def validateWorkPackage (C : Config) (package : WorkPackage) : Except ReportError Unit := do
  Except.raiseIf (¬ (1 ≤ package.items.length ∧ package.items.length ≤ maximumWorkItems))
    (.process "invalid work-item count")
  Except.raiseIf
    ((package.items.map (fun w => w.extrinsic.length)).sum > maximumNumberExtrinsicsWorkPackage ∨
      (package.items.map (fun w => w.importSegments.length)).sum > maximumNumberImportsWorkPackage ∨
      (package.items.map (fun w => w.exportCount)).sum > maximumNumberExportsWorkPackage)
    (.process "work-package manifest exceeds its limits")
  Except.raiseIf
    (package.dependencies.card + package.context.prerequisites.length > maximumDependenciesWorkReport)
    (.process "too many work-package dependencies")
  Except.raiseIf (package.footprint > maximumSizeWorkPackage)
    (.process "work-package footprint exceeds its limit")
  Except.raiseIf
    ((package.items.map (fun w => w.refineGasLimit)).sum > C.gasRefine ∨
      (package.items.map (fun w => w.accumulateGasLimit)).sum > gasAccumulation)
    (.process "work-package gas limits exceed core limits")

/-- What a validated package keeps to. -/
structure WorkPackage.Valid (C : Config) (package : WorkPackage) : Prop where
  items_pos : 1 ≤ package.items.length
  items_le : package.items.length ≤ 16
  extrinsics_le : (package.items.map (fun w => w.extrinsic.length)).sum ≤ 128
  imports_le : (package.items.map (fun w => w.importSegments.length)).sum ≤ 3072
  exports_le : (package.items.map (fun w => w.exportCount)).sum ≤ 3072
  dependencies_le : package.dependencies.card + package.context.prerequisites.length ≤ 8
  footprint_le : package.footprint ≤ 13791360
  refineGas_le : (package.items.map (fun w => w.refineGasLimit)).sum ≤ C.gasRefine
  accumulateGas_le : (package.items.map (fun w => w.accumulateGasLimit)).sum ≤ 10000000

lemma valid_of_validateWorkPackage {C : Config} {package : WorkPackage} {u : Unit}
    (h : validateWorkPackage C package = .ok u) : package.Valid C := by
  simp only [validateWorkPackage, Except.bind_eq_ok, Except.raiseIf_eq_ok, not_not, not_or,
    not_lt, gt_iff_lt] at h
  obtain ⟨-, hitems, -, ⟨hextrinsics, himports, hexports⟩, -, hdependencies, -, hfootprint,
    hrefine, haccumulate⟩ := h
  exact ⟨hitems.1, hitems.2, hextrinsics, himports, hexports, hdependencies, hfootprint, hrefine,
    haccumulate⟩

/-! ## The size of the encoding -/

section

variable {codec : Codec}

lemma RefinementContext.length_toJamBytes_le (hcodec : codec.Documented)
    {context : RefinementContext} {bytes : Octets} (hprerequisites : context.prerequisites.length ≤ 8)
    (h : context.toJamBytes codec = some bytes) : bytes.length ≤ 5 * 32 + 2 * 4 + 1 + 32 * 8 := by
  simp only [RefinementContext.toJamBytes, bind, Option.bind_eq_some_iff, pure,
    Option.some.injEq] at h
  obtain ⟨_, hanchor, _, hanchorSlot, _, hstateRoot, _, hbeefyRoot, _, hlookup, _, hlookupSlot, _,
    hlookupRoot, _, hvec, rfl⟩ := h
  have hvec := hcodec.length_encodeVec_le (l := 0) (by decide)
    (fun x b hb => (hcodec.length_h256 _ _ hb).le) (by omega) hvec
  simp only [List.length_append, hcodec.length_h256 _ _ hanchor, hcodec.length_h256 _ _ hstateRoot,
    hcodec.length_h256 _ _ hbeefyRoot, hcodec.length_h256 _ _ hlookup,
    hcodec.length_h256 _ _ hlookupRoot, hcodec.length_uint (by decide) hanchorSlot,
    hcodec.length_uint (by decide) hlookupSlot]
  omega

lemma ImportSegment.length_toJamBytes (hcodec : codec.Documented) {entry : ImportSegment}
    {bytes : Octets} (h : entry.toJamBytes codec = some bytes) : bytes.length = 34 := by
  simp only [ImportSegment.toJamBytes, bind, Option.bind_eq_some_iff, pure, Option.some.injEq] at h
  obtain ⟨_, hroot, _, hindex, rfl⟩ := h
  rw [List.length_append, hcodec.length_h256 _ _ hroot, hcodec.length_uint (by decide) hindex]

lemma WorkItemExtrinsic.length_toJamBytes (hcodec : codec.Documented) {manifest : WorkItemExtrinsic}
    {bytes : Octets} (h : manifest.toJamBytes codec = some bytes) : bytes.length = 36 := by
  simp only [WorkItemExtrinsic.toJamBytes, bind, Option.bind_eq_some_iff, pure,
    Option.some.injEq] at h
  obtain ⟨_, hhash, _, hlen, rfl⟩ := h
  rw [List.length_append, hcodec.length_h256 _ _ hhash, hcodec.length_uint (by decide) hlen]

/-- The size of an item from its payload and its manifests. -/
def WorkItem.encodedSize (item : WorkItem) : ℕ :=
  (4 + 32 + 8 + 8 + 2 + 4 + 2 + 2) + item.payload.length + 34 * item.importSegments.length +
    36 * item.extrinsic.length

lemma WorkItem.length_toJamBytes_le (hcodec : codec.Documented) {item : WorkItem} {bytes : Octets}
    (hpayload : item.payload.length < 2 ^ 28) (himports : item.importSegments.length < 2 ^ 14)
    (hextrinsic : item.extrinsic.length < 2 ^ 14) (h : item.toJamBytes codec = some bytes) :
    bytes.length ≤ item.encodedSize := by
  simp only [WorkItem.toJamBytes, bind, Option.bind_eq_some_iff, pure, Option.some.injEq] at h
  obtain ⟨_, hservice, _, hcodeHash, _, hrefine, _, haccumulate, _, hexport, _, himportsVec, _,
    hextrinsicVec, rfl⟩ := h
  have himportsVec := hcodec.length_encodeVec_le (l := 1) (by decide)
    (fun x b hb => (ImportSegment.length_toJamBytes hcodec hb).le) (by omega) himportsVec
  have hextrinsicVec := hcodec.length_encodeVec_le (l := 1) (by decide)
    (fun x b hb => (WorkItemExtrinsic.length_toJamBytes hcodec hb).le) (by omega) hextrinsicVec
  have hpayload := hcodec.length_bytes_le (l := 3) (by decide)
    (show item.payload.length < 2 ^ (7 * (3 + 1)) by omega)
  simp only [List.length_append, hcodec.length_h256 _ _ hcodeHash,
    hcodec.length_uint (by decide) hservice, hcodec.length_uint (by decide) hrefine,
    hcodec.length_uint (by decide) haccumulate, hcodec.length_uint (by decide) hexport,
    WorkItem.encodedSize]
  omega

/-! ## What was encoded has no negative field -/

/-- The integers of an item that a limit is computed from are not negative. -/
structure WorkItem.Natural (item : WorkItem) : Prop where
  refineGasLimit : 0 ≤ item.refineGasLimit
  accumulateGasLimit : 0 ≤ item.accumulateGasLimit
  exportCount : 0 ≤ item.exportCount
  len : ∀ manifest ∈ item.extrinsic, 0 ≤ manifest.len

lemma WorkItem.natural_of_toJamBytes (hcodec : codec.Documented) {item : WorkItem} {bytes : Octets}
    (h : item.toJamBytes codec = some bytes) : item.Natural := by
  simp only [WorkItem.toJamBytes, bind, Option.bind_eq_some_iff, pure, Option.some.injEq] at h
  obtain ⟨_, -, _, -, _, hrefine, _, haccumulate, _, hexport, _, -, _, hextrinsic, -⟩ := h
  refine ⟨hcodec.nonneg_of_uint (by decide) hrefine, hcodec.nonneg_of_uint (by decide) haccumulate,
    hcodec.nonneg_of_uint (by decide) hexport, ?_⟩
  intro manifest hmanifest
  obtain ⟨encoded, hencoded⟩ := exists_of_encodeVec hextrinsic manifest hmanifest
  simp only [WorkItemExtrinsic.toJamBytes, bind, Option.bind_eq_some_iff, pure] at hencoded
  obtain ⟨_, -, _, hlen, -⟩ := hencoded
  exact hcodec.nonneg_of_uint (by decide) hlen

lemma WorkPackage.natural_of_toJamBytes (hcodec : codec.Documented) {package : WorkPackage}
    {bytes : Octets} (h : package.toJamBytes codec = some bytes) :
    ∀ item ∈ package.items, item.Natural := by
  simp only [WorkPackage.toJamBytes, bind, Option.bind_eq_some_iff, pure] at h
  obtain ⟨_, -, _, -, _, -, _, hitems, -⟩ := h
  intro item hitem
  obtain ⟨encoded, hencoded⟩ := exists_of_encodeVec hitems item hitem
  exact WorkItem.natural_of_toJamBytes hcodec hencoded

/-- The blobs of an item have the lengths of its manifest. -/
def WorkItem.extrinsicSize (item : WorkItem) : ℕ :=
  (item.extrinsic.map (fun manifest => manifest.len.toNat)).sum

lemma WorkItem.Natural.extrinsicSize_eq {item : WorkItem} (h : item.Natural) :
    (item.extrinsicSize : ℤ) = (item.extrinsic.map (fun x => x.len)).sum := by
  have hlen := h.len
  rw [WorkItem.extrinsicSize]
  generalize item.extrinsic = manifests at hlen
  induction manifests with
  | nil => rfl
  | cons x xs ih =>
    have hx := hlen x (List.mem_cons_self ..)
    have ih := ih (fun y hy => hlen y (List.mem_cons_of_mem x hy))
    rw [List.map_cons, List.sum_cons, List.map_cons, List.sum_cons, Nat.cast_add, ih,
      Int.toNat_of_nonneg hx]

lemma WorkItem.Natural.footprint_eq {item : WorkItem} (h : item.Natural) :
    item.footprint =
      (item.payload.length + item.importSegments.length * 4488 + item.extrinsicSize : ℕ) := by
  have hfootprint : importSegmentFootprint = 4488 := by decide
  rw [WorkItem.footprint, hfootprint, ← h.extrinsicSize_eq]
  push_cast
  rfl

/-- The footprint bounds every item of a package. -/
lemma footprint_le_sum {items : List WorkItem} (h : ∀ item ∈ items, item.Natural) :
    0 ≤ (items.map WorkItem.footprint).sum ∧
      ∀ item ∈ items, item.footprint ≤ (items.map WorkItem.footprint).sum := by
  induction items with
  | nil => exact ⟨le_refl _, fun item hitem => absurd hitem List.not_mem_nil⟩
  | cons x xs ih =>
    have hx := (h x (List.mem_cons_self ..)).footprint_eq
    obtain ⟨hnonneg, hle⟩ := ih (fun item hitem => h item (List.mem_cons_of_mem x hitem))
    rw [List.map_cons, List.sum_cons]
    refine ⟨by omega, ?_⟩
    intro item hitem
    rcases List.mem_cons.mp hitem with rfl | hitem
    · omega
    · have := hle item hitem
      omega

/-! ## The package as a whole -/

/-- A package without its items and blobs takes at most this much. -/
def WorkPackage.headSize (package : WorkPackage) : ℕ :=
  (4 + 32) + (5 * 32 + 2 * 4 + 1 + 32 * 8) + (2 * 4 + 1) + package.authorization.length +
    package.authorizerConfig.length

lemma WorkPackage.length_toJamBytes_le {C : Config} (hcodec : codec.Documented)
    {package : WorkPackage} {bytes : Octets} (hvalid : package.Valid C)
    (h : package.toJamBytes codec = some bytes) :
    bytes.length ≤ package.headSize + (package.items.map WorkItem.encodedSize).sum := by
  have hnatural := WorkPackage.natural_of_toJamBytes hcodec h
  obtain ⟨hsum, hitem⟩ := footprint_le_sum hnatural
  have hfootprint := hvalid.footprint_le
  rw [WorkPackage.footprint] at hfootprint
  simp only [WorkPackage.toJamBytes, bind, Option.bind_eq_some_iff, pure, Option.some.injEq] at h
  obtain ⟨_, hhost, _, hcodeHash, _, hcontext, _, hitems, rfl⟩ := h
  obtain ⟨encoded, hencoded, rfl⟩ := (encodeVec_eq_some hcodec).mp hitems
  have hprerequisites := hvalid.dependencies_le
  have hcontext := RefinementContext.length_toJamBytes_le hcodec (by omega) hcontext
  have hauthorization := hcodec.length_bytes_le (l := 3) (by decide)
    (show package.authorization.length < 2 ^ (7 * (3 + 1)) by omega)
  have hconfig := hcodec.length_bytes_le (l := 3) (by decide)
    (show package.authorizerConfig.length < 2 ^ (7 * (3 + 1)) by omega)
  have hcount := hcodec.varInt 0 (by decide) package.items.length
    (by have := hvalid.items_le; omega)
  have hsizes : encoded.length ≤ (package.items.map WorkItem.encodedSize).sum := by
    refine length_encodeItems_le ?_ hencoded
    intro item hmem b hb
    have hle := hitem item hmem
    have himports := List.le_sum_of_mem (List.mem_map_of_mem (f := fun w => w.importSegments.length) hmem)
    have hextrinsics := List.le_sum_of_mem (List.mem_map_of_mem (f := fun w => w.extrinsic.length) hmem)
    have himports_le := hvalid.imports_le
    have hextrinsics_le := hvalid.extrinsics_le
    have hitem_eq := (hnatural item hmem).footprint_eq
    exact WorkItem.length_toJamBytes_le hcodec (by omega) (by omega) (by omega) hb
  simp only [List.length_append, hcodec.length_uint (by decide) hhost,
    hcodec.length_h256 _ _ hcodeHash, WorkPackage.headSize]
  omega

end

end Refinement
