import Pyjamaz.Refinement.WorkPackage

/-!
# Bundles

A bundle is a package with everything an auditor needs to refine it again: the blobs its items read,
the segments they import, and the proofs that the segments belong to the trees they are imported from.
`BundleData` is where the blobs and segments are looked up; every one of them is checked against what
the package says of it.

The length of a bundle is bounded twice over: each blob has its declared length, each segment one
fixed length and each proof at most twelve hashes, so `length_assembleBundle_le` comes down to the
footprint of the package.
-/

namespace Refinement

open Octets Services

/-! ## Data -/

structure ImportedSegment where
  segment : Octets
  justification : List Octets
  deriving DecidableEq, Repr

/-- The blobs by their hashes, the segments by their roots and flagged indices. -/
structure BundleData where
  extrinsics : Dict Octets32 Octets
  imports : Dict (Octets32 × ℤ) ImportedSegment

/-- A reference to a segment tree: by its root, or by the hash of the package that exported it. -/
inductive ImportReference where
  | segmentRoot (root : Octets32)
  | workPackageHash (value : Octets32)
  deriving DecidableEq, Repr

def importReference (entry : ImportSegment) : ImportReference :=
  if entry.isWorkPackageHash then .workPackageHash entry.treeRoot else .segmentRoot entry.treeRoot

def resolveImportRoot (mappings : Dict Octets32 Octets32) :
    ImportReference → Except ReportError Octets32
  | .workPackageHash value =>
    match mappings.get? value with
    | some root => .ok root
    | none => .error (.process "missing segment-root mapping")
  | .segmentRoot root => .ok root

/-- What an encoder answers, with its exception. -/
def orRaise : Option Octets → Except ReportError Octets
  | some bytes => .ok bytes
  | none => .error .raised

namespace BundleData

variable (P : Primitives) (data : BundleData)

/-! ## Lookups -/

/-- The body of the loop of `extrinsic_data`. -/
def extrinsicBlob (manifest : WorkItemExtrinsic) : Except ReportError Octets :=
  match data.extrinsics.get? manifest.hash with
  | none => .error (.process "extrinsic data is unavailable or invalid")
  | some blob => do
    Except.raiseIf ((blob.length : ℤ) ≠ manifest.len ∨ P.blake2b256Hash blob ≠ manifest.hash)
      (.process "extrinsic data is unavailable or invalid")
    return blob

def extrinsicData (item : WorkItem) : Except ReportError (List Octets) :=
  item.extrinsic.mapM (data.extrinsicBlob P)

/-- The body of the loop of `_verified_imports`.  The root is resolved last, after the cheap checks. -/
def verifiedImport (mappings : Dict Octets32 Octets32) (entry : ImportSegment) :
    Except ReportError ImportedSegment :=
  match data.imports.get? (entry.treeRoot, entry.index) with
  | none => .error (.process "import segment is unavailable")
  | some imported => do
    Except.raiseIf
      (imported.segment.length ≠ ecSegmentSize ∨
        entry.segmentIndex ≥ maximumNumberExportsWorkPackage ∨
        imported.justification.length > maximumProofLength)
      (.process "invalid import segment justification")
    let root ← resolveImportRoot mappings (importReference entry)
    Except.raiseIf
      (¬ Merkle.verify P.blake2b256Hash imported.segment entry.segmentIndex imported.justification
        root.toList)
      (.process "invalid import segment justification")
    return imported

def verifiedImports (mappings : Dict Octets32 Octets32) (item : WorkItem) :
    Except ReportError (List ImportedSegment) :=
  item.importSegments.mapM (data.verifiedImport P mappings)

def importSegments (mappings : Dict Octets32 Octets32) (item : WorkItem) :
    Except ReportError (List Octets) := do
  let imports ← data.verifiedImports P mappings item
  return imports.map (fun imported => imported.segment)

def importJustifications (mappings : Dict Octets32 Octets32) (item : WorkItem) :
    Except ReportError (List (List Octets)) := do
  let imports ← data.verifiedImports P mappings item
  return imports.map (fun imported => imported.justification)

/-- The encoded proofs of an item. -/
def encodedJustifications (mappings : Dict Octets32 Octets32) (item : WorkItem) :
    Except ReportError (List Octets) := do
  let proofs ← data.importJustifications P mappings item
  proofs.mapM (fun proof => orRaise (encodeVec P.codec P.codec.h256 proof))

/-- The package, then all blobs, all segments and all proofs, each item by item. -/
def assembleBundle (package : WorkPackage) (mappings : Dict Octets32 Octets32) :
    Except ReportError Octets := do
  let encoded ← orRaise (package.toJamBytes P.codec)
  let blobs ← package.items.mapM (data.extrinsicData P)
  let segments ← package.items.mapM (data.importSegments P mappings)
  let proofs ← package.items.mapM (data.encodedJustifications P mappings)
  return encoded ++ blobs.flatten.flatten ++ segments.flatten.flatten ++ proofs.flatten.flatten

/-! ## Sizes -/

variable {P data}

lemma orRaise_eq_ok {encoded : Option Octets} {bytes : Octets} :
    orRaise encoded = .ok bytes ↔ encoded = some bytes := by
  cases encoded with
  | none => exact iff_of_false (fun h => nomatch h) (fun h => nomatch h)
  | some b => rw [orRaise, Except.ok.injEq, Option.some.injEq]

/-- A blob has its declared length. -/
lemma length_extrinsicBlob {manifest : WorkItemExtrinsic} {blob : Octets}
    (h : data.extrinsicBlob P manifest = .ok blob) : (blob.length : ℤ) = manifest.len := by
  cases hget : data.extrinsics.get? manifest.hash with
  | none =>
    rw [extrinsicBlob, hget] at h
    cases h
  | some found =>
    rw [extrinsicBlob, hget] at h
    obtain ⟨_, hgood, hfound⟩ := Except.bind_eq_ok.mp h
    cases hfound
    exact not_not.mp (fun hne => Except.raiseIf_eq_ok.mp hgood (.inl hne))

/-- A verified import is a whole segment with a short proof. -/
lemma sizes_of_verifiedImport {mappings : Dict Octets32 Octets32} {entry : ImportSegment}
    {imported : ImportedSegment} (h : data.verifiedImport P mappings entry = .ok imported) :
    imported.segment.length = 4104 ∧ imported.justification.length ≤ 12 := by
  have hproof : maximumProofLength = 12 := by decide
  cases hget : data.imports.get? (entry.treeRoot, entry.index) with
  | none =>
    rw [verifiedImport, hget] at h
    cases h
  | some found =>
    rw [verifiedImport, hget] at h
    obtain ⟨_, hgood, h⟩ := Except.bind_eq_ok.mp h
    obtain ⟨root, -, h⟩ := Except.bind_eq_ok.mp h
    obtain ⟨_, -, hfound⟩ := Except.bind_eq_ok.mp h
    cases hfound
    have hgood := Except.raiseIf_eq_ok.mp hgood
    simp only [not_or, not_not, not_lt, gt_iff_lt, hproof, ecSegmentSize] at hgood
    exact ⟨hgood.1, hgood.2.2⟩

lemma length_extrinsicData_le {item : WorkItem} {blobs : List Octets}
    (h : data.extrinsicData P item = .ok blobs) : blobs.flatten.length ≤ item.extrinsicSize := by
  rw [List.length_flatten]
  refine Except.sum_mapM_le (fun manifest _ blob hblob => ?_) h
  have := length_extrinsicBlob hblob
  omega

lemma length_importSegments_le {mappings : Dict Octets32 Octets32} {item : WorkItem}
    {segments : List Octets} (h : data.importSegments P mappings item = .ok segments) :
    segments.flatten.length ≤ 4104 * item.importSegments.length := by
  obtain ⟨imports, himports, hmap⟩ := Except.bind_eq_ok.mp h
  cases hmap
  have hsum : (imports.map fun imported => imported.segment.length).sum ≤
      (item.importSegments.map fun _ => 4104).sum :=
    Except.sum_mapM_le (fun entry _ imported himported => (sizes_of_verifiedImport himported).1.le)
      himports
  rw [List.map_const', List.sum_replicate_nat, Nat.mul_comm] at hsum
  rw [List.length_flatten, List.map_map]
  exact hsum

/-- An encoded proof is its number of hashes in one octet, and at most twelve hashes. -/
lemma length_encodedJustifications_le (hcodec : P.codec.Documented)
    {mappings : Dict Octets32 Octets32} {item : WorkItem} {proofs : List Octets}
    (h : data.encodedJustifications P mappings item = .ok proofs) :
    proofs.flatten.length ≤ (1 + 32 * 12) * item.importSegments.length := by
  obtain ⟨justifications, hjustifications, hproofs⟩ := Except.bind_eq_ok.mp h
  obtain ⟨imports, himports, hmap⟩ := Except.bind_eq_ok.mp hjustifications
  cases hmap
  have hshort : ∀ proof ∈ imports.map (fun imported => imported.justification), proof.length ≤ 12 := by
    intro proof hproof
    obtain ⟨imported, himported, rfl⟩ := List.mem_map.mp hproof
    obtain ⟨entry, -, hentry⟩ := Except.exists_of_mem_mapM himports imported himported
    exact (sizes_of_verifiedImport hentry).2
  have hsum : (proofs.map List.length).sum ≤
      ((imports.map fun imported => imported.justification).map fun _ => 1 + 32 * 12).sum := by
    refine Except.sum_mapM_le (fun proof hproof encoded hencoded => ?_) hproofs
    have hproof := hshort proof hproof
    have hle := hcodec.length_encodeVec_le (l := 0) (by decide)
      (fun h b hb => (hcodec.length_h256 h b hb).le) (by omega) (orRaise_eq_ok.mp hencoded)
    omega
  have hcount : (imports.map fun _ => 1).sum ≤ (item.importSegments.map fun _ => 1).sum :=
    Except.sum_mapM_le (fun _ _ _ _ => Nat.le_refl 1) himports
  rw [List.map_const', List.sum_replicate_nat, List.length_map] at hsum
  rw [List.map_const', List.sum_replicate_nat, List.map_const', List.sum_replicate_nat] at hcount
  rw [List.length_flatten]
  omega

end BundleData

/-- What an item adds to a bundle. -/
def WorkItem.bundleSize (item : WorkItem) : ℕ :=
  item.encodedSize + item.extrinsicSize + 4104 * item.importSegments.length +
    (1 + 32 * 12) * item.importSegments.length

/-- The footprint counts all of a bundle except the fixed parts of items and manifests. -/
lemma sum_bundleSize {items : List WorkItem} (h : ∀ item ∈ items, item.Natural) :
    ((items.map WorkItem.bundleSize).sum : ℤ) =
      (items.map WorkItem.footprint).sum + 62 * items.length +
        35 * (items.map (fun w => w.importSegments.length)).sum +
        36 * (items.map (fun w => w.extrinsic.length)).sum := by
  induction items with
  | nil => rfl
  | cons item items ih =>
    have hitem := (h item (List.mem_cons_self ..)).footprint_eq
    have ih := ih (fun x hx => h x (List.mem_cons_of_mem item hx))
    simp only [List.map_cons, List.sum_cons, List.length_cons]
    rw [Nat.cast_add, ih, hitem, WorkItem.bundleSize, WorkItem.encodedSize]
    push_cast
    ring

lemma sum_map_add {items : List WorkItem} {f g : WorkItem → ℕ} :
    (items.map (fun w => f w + g w)).sum = (items.map f).sum + (items.map g).sum := by
  induction items with
  | nil => rfl
  | cons w items ih =>
    simp only [List.map_cons, List.sum_cons, ih]
    omega

lemma BundleData.length_assembleBundle_le {C : Config} {P : Primitives} {data : BundleData}
    (hcodec : P.codec.Documented) {package : WorkPackage} {mappings : Dict Octets32 Octets32}
    {bundle : Octets} (hvalid : package.Valid C)
    (h : data.assembleBundle P package mappings = .ok bundle) :
    bundle.length ≤ package.headSize + (package.items.map WorkItem.bundleSize).sum := by
  simp only [assembleBundle, Except.bind_eq_ok] at h
  obtain ⟨encoded, hencoded, blobs, hblobs, segments, hsegments, proofs, hproofs, hbundle⟩ := h
  cases hbundle
  have hencoded := WorkPackage.length_toJamBytes_le hcodec hvalid (orRaise_eq_ok.mp hencoded)
  have hblobs : (blobs.map fun b => b.flatten.length).sum ≤
      (package.items.map WorkItem.extrinsicSize).sum :=
    Except.sum_mapM_le (fun item _ b hb => length_extrinsicData_le hb) hblobs
  have hsegments : (segments.map fun b => b.flatten.length).sum ≤
      (package.items.map fun w => 4104 * w.importSegments.length).sum :=
    Except.sum_mapM_le (fun item _ b hb => length_importSegments_le hb) hsegments
  have hproofs : (proofs.map fun b => b.flatten.length).sum ≤
      (package.items.map fun w => (1 + 32 * 12) * w.importSegments.length).sum :=
    Except.sum_mapM_le (fun item _ b hb => length_encodedJustifications_le hcodec hb) hproofs
  have hflatten : ∀ L : List (List Octets),
      L.flatten.flatten.length = (L.map (fun b => b.flatten.length)).sum := by
    intro L
    rw [List.length_flatten, List.map_flatten, List.sum_flatten, List.map_map]
    refine congrArg List.sum (List.map_congr_left fun b _ => ?_)
    rw [Function.comp_apply, List.length_flatten]
  have hsum : (package.items.map WorkItem.bundleSize).sum =
      (package.items.map WorkItem.encodedSize).sum +
        (package.items.map WorkItem.extrinsicSize).sum +
        (package.items.map (fun w => 4104 * w.importSegments.length)).sum +
        (package.items.map (fun w => (1 + 32 * 12) * w.importSegments.length)).sum := by
    rw [← sum_map_add, ← sum_map_add, ← sum_map_add]
    rfl
  simp only [List.length_append, hflatten]
  omega

/-- `MAXIMUM_SIZE_AUDITABLE_BUNDLE`: the footprint, and the fixed parts of a package, of its items, of
its imports and of its manifests. -/
def maximumSizeAuditableBundle : ℕ :=
  maximumSizeWorkPackage + (4 + 32) + (5 * 32 + 2 * 4 + 1 + 32 * maximumDependenciesWorkReport) +
    (2 * 4 + 1) + maximumWorkItems * (4 + 32 + 8 + 8 + 2 + 4 + 2 + 2) +
    maximumNumberImportsWorkPackage * (32 + 2 + 1) + maximumNumberExtrinsicsWorkPackage * (32 + 4)

/-- Only a package that encodes has a bundle. -/
lemma BundleData.natural_of_assembleBundle {P : Primitives} (hcodec : P.codec.Documented)
    {data : BundleData} {package : WorkPackage} {mappings : Dict Octets32 Octets32} {bundle : Octets}
    (h : data.assembleBundle P package mappings = .ok bundle) :
    ∀ item ∈ package.items, item.Natural := by
  obtain ⟨encoded, hencoded, -⟩ := Except.bind_eq_ok.mp h
  exact WorkPackage.natural_of_toJamBytes hcodec (orRaise_eq_ok.mp hencoded)

/-- The bundle of a package that was validated is not too long to audit. -/
lemma BundleData.length_assembleBundle_le_maximum {C : Config} {P : Primitives} {data : BundleData}
    (hcodec : P.codec.Documented) {package : WorkPackage} {mappings : Dict Octets32 Octets32}
    {bundle : Octets} (hvalid : package.Valid C)
    (h : data.assembleBundle P package mappings = .ok bundle) :
    bundle.length ≤ maximumSizeAuditableBundle := by
  have hle := BundleData.length_assembleBundle_le hcodec hvalid h
  have hsum := sum_bundleSize (BundleData.natural_of_assembleBundle hcodec h)
  have hfootprint := hvalid.footprint_le
  rw [WorkPackage.footprint] at hfootprint
  have hitems := hvalid.items_le
  have himports := hvalid.imports_le
  have hextrinsics := hvalid.extrinsics_le
  have hmaximum : maximumSizeAuditableBundle = 13791360 + 36 + 425 + 9 + 62 * 16 + 35 * 3072 + 36 * 128 := by
    decide
  rw [WorkPackage.headSize] at hle
  omega

end Refinement
