import Pyjamaz.Refinement.Bundle

/-!
# Bundles from flat lists

The wire carries the blobs, segments and proofs of a bundle as flat lists, in the order in which the
items of the package mention them.  `fromParts` files them away: a blob under its hash, a segment with
its proof under the root and the flagged index of its import.  What is mentioned twice is filed once.

`fromParts_round_trip` says that nothing is mixed up on the way back.  A later blob replaces an earlier
one under the same hash, so the blobs must not break the hash function; a segment is never replaced,
so nothing is needed for the imports.
-/

namespace Refinement

open Octets Services

/-! ## Filing -/

namespace BundleData

def empty : BundleData := ⟨∅, ∅⟩

/-- The body of the loop over the blobs. -/
def addExtrinsic (P : Primitives) (data : BundleData) (part : WorkItemExtrinsic × Octets) :
    Except ReportError BundleData := do
  let (manifest, blob) := part
  Except.raiseIf ((blob.length : ℤ) ≠ manifest.len ∨ P.blake2b256Hash blob ≠ manifest.hash)
    (.process "extrinsic hash or length does not match manifest")
  return { data with extrinsics := data.extrinsics.insert manifest.hash blob }

/-- The body of the loop over the segments. -/
def addImport (data : BundleData) (part : ImportSegment × Octets × List Octets) :
    Except ReportError BundleData := do
  let (entry, segment, proof) := part
  let key := (entry.treeRoot, entry.index)
  let imported : ImportedSegment := ⟨segment, proof⟩
  Except.raiseIf (data.imports.contains key ∧ data.imports.get? key ≠ some imported)
    (.process "conflicting data for duplicate imports")
  return { data with imports := data.imports.insert key imported }

def fromParts (P : Primitives) (package : WorkPackage) (extrinsics segments : List Octets)
    (justifications : List (List Octets)) : Except ReportError BundleData := do
  let manifests := package.items.flatMap (fun item => item.extrinsic)
  let imports := package.items.flatMap (fun item => item.importSegments)
  Except.raiseIf (extrinsics.length ≠ manifests.length)
    (.process "extrinsic count does not match manifest")
  Except.raiseIf (segments.length ≠ imports.length ∨ justifications.length ≠ imports.length)
    (.process "import or justification count does not match manifest")
  let data ← (manifests.zip extrinsics).foldlM (addExtrinsic P) empty
  (imports.zip (segments.zip justifications)).foldlM addImport data

/-! ## What is filed -/

/-- Every blob so far matches its manifest, and under its hash one of the blobs is filed. -/
def ExtrinsicsFiled (P : Primitives) (blobs : List Octets) (done : List (WorkItemExtrinsic × Octets))
    (data : BundleData) : Prop :=
  ∀ part ∈ done, (part.2.length : ℤ) = part.1.len ∧ P.blake2b256Hash part.2 = part.1.hash ∧
    ∃ blob ∈ blobs, data.extrinsics.get? part.1.hash = some blob ∧
      P.blake2b256Hash blob = part.1.hash

/-- Every segment so far is filed with its proof. -/
def ImportsFiled (done : List (ImportSegment × Octets × List Octets)) (data : BundleData) : Prop :=
  ∀ part ∈ done, data.imports.get? (part.1.treeRoot, part.1.index) = some ⟨part.2.1, part.2.2⟩

variable {P : Primitives} {data data' : BundleData}

lemma extrinsicsFiled_addExtrinsic {blobs : List Octets} {done : List (WorkItemExtrinsic × Octets)}
    {part : WorkItemExtrinsic × Octets} (hpart : part.2 ∈ blobs)
    (hdone : ExtrinsicsFiled P blobs done data) (h : addExtrinsic P data part = .ok data') :
    ExtrinsicsFiled P blobs (done ++ [part]) data' := by
  obtain ⟨_, hmatch, hdata⟩ := Except.bind_eq_ok.mp h
  cases hdata
  have hmatch := Except.raiseIf_eq_ok.mp hmatch
  simp only [not_or, not_not] at hmatch
  intro other hother
  rcases List.mem_append.mp hother with hother | hother
  · obtain ⟨hlen, hhash, blob, hblob, hget, hblobHash⟩ := hdone other hother
    refine ⟨hlen, hhash, ?_⟩
    by_cases hkey : other.1.hash = part.1.hash
    · -- the new blob takes the place of the old one
      refine ⟨part.2, hpart, ?_, hmatch.2.trans hkey.symm⟩
      rw [hkey]
      exact Dict.get?_insert_self _ _ _
    · exact ⟨blob, hblob, (Dict.get?_insert_of_ne _ hkey _).trans hget, hblobHash⟩
  · cases List.mem_singleton.mp hother
    exact ⟨hmatch.1, hmatch.2, part.2, hpart, Dict.get?_insert_self _ _ _, hmatch.2⟩

lemma importsFiled_addImport {done : List (ImportSegment × Octets × List Octets)}
    {part : ImportSegment × Octets × List Octets} (hdone : ImportsFiled done data)
    (h : addImport data part = .ok data') :
    ImportsFiled (done ++ [part]) data' ∧ data'.extrinsics = data.extrinsics := by
  obtain ⟨_, hfree, hdata⟩ := Except.bind_eq_ok.mp h
  cases hdata
  have hfree := Except.raiseIf_eq_ok.mp hfree
  refine ⟨?_, rfl⟩
  intro other hother
  rcases List.mem_append.mp hother with hother | hother
  · have hget := hdone other hother
    by_cases hkey : (other.1.treeRoot, other.1.index) = (part.1.treeRoot, part.1.index)
    · -- what was filed under this key is what is filed now
      rw [hkey] at hget ⊢
      have hcontains : data.imports.contains (part.1.treeRoot, part.1.index) = true := by
        rw [Dict.contains, hget]
        rfl
      have hsame : data.imports.get? (part.1.treeRoot, part.1.index) = some ⟨part.2.1, part.2.2⟩ :=
        not_not.mp (fun hne => hfree ⟨hcontains, hne⟩)
      exact (Dict.get?_insert_self _ _ _).trans (hsame.symm.trans hget)
    · exact (Dict.get?_insert_of_ne _ hkey _).trans hget
  · cases List.mem_singleton.mp hother
    exact Dict.get?_insert_self _ _ _

/-- What a data set of flat lists holds. -/
structure Filed (P : Primitives) (package : WorkPackage) (extrinsics segments : List Octets)
    (justifications : List (List Octets)) (data : BundleData) : Prop where
  length_extrinsics : extrinsics.length = (package.items.flatMap (fun item => item.extrinsic)).length
  length_segments : segments.length = (package.items.flatMap (fun item => item.importSegments)).length
  length_justifications :
    justifications.length = (package.items.flatMap (fun item => item.importSegments)).length
  extrinsics : ExtrinsicsFiled P extrinsics
    ((package.items.flatMap (fun item => item.extrinsic)).zip extrinsics) data
  imports : ImportsFiled
    ((package.items.flatMap (fun item => item.importSegments)).zip (segments.zip justifications)) data

lemma filed_of_fromParts {package : WorkPackage} {extrinsics segments : List Octets}
    {justifications : List (List Octets)}
    (h : fromParts P package extrinsics segments justifications = .ok data) :
    Filed P package extrinsics segments justifications data := by
  simp only [fromParts, Except.bind_eq_ok, Except.raiseIf_eq_ok, not_or, not_not] at h
  obtain ⟨-, hextrinsics, -, ⟨hsegments, hjustifications⟩, filed, hblobs, himports⟩ := h
  have hblobs := Except.foldlM_induction (P := ExtrinsicsFiled P extrinsics)
    (fun done b part b' hpart hdone hb' =>
      extrinsicsFiled_addExtrinsic (List.of_mem_zip (a := part.1) (b := part.2) hpart).2 hdone hb')
    (fun part hpart => absurd hpart List.not_mem_nil) hblobs
  have himports := Except.foldlM_induction
    (P := fun done b => ImportsFiled done b ∧ b.extrinsics = filed.extrinsics)
    (fun done b part b' _ hdone hb' =>
      have hadd := importsFiled_addImport hdone.1 hb'
      ⟨hadd.1, hadd.2.trans hdone.2⟩)
    ⟨fun part hpart => absurd hpart List.not_mem_nil, rfl⟩ himports
  refine ⟨hextrinsics, hsegments, hjustifications, ?_, himports.1⟩
  intro part hpart
  rw [himports.2]
  exact hblobs part hpart

/-! ## The way back -/

/-- The blobs come back, unless two of them have one hash. -/
lemma mapM_extrinsicData_of_filed {package : WorkPackage} {extrinsics segments : List Octets}
    {justifications : List (List Octets)}
    (hunbroken : ∀ b ∈ extrinsics, ∀ b' ∈ extrinsics,
      P.blake2b256Hash b = P.blake2b256Hash b' → b = b')
    (h : Filed P package extrinsics segments justifications data) :
    ∃ blobs, package.items.mapM (data.extrinsicData P) = .ok blobs ∧ blobs.flatten = extrinsics := by
  refine Except.mapM_flatMap_eq_ok.mp (Except.mapM_eq_ok_iff.mpr ?_)
  refine List.forall₂_iff_zip.mpr ⟨h.length_extrinsics.symm, ?_⟩
  intro manifest blob hmem
  obtain ⟨hlen, hhash, found, hfound, hget, hfoundHash⟩ := h.extrinsics (manifest, blob) hmem
  have heq : found = blob :=
    hunbroken found hfound blob (List.of_mem_zip hmem).2 (hfoundHash.trans hhash.symm)
  subst heq
  rw [extrinsicBlob, hget]
  exact Except.bind_eq_ok.mpr ⟨(), Except.raiseIf_eq_ok.mpr (by simp only [hlen, hhash, not_or,
    ne_eq, not_true_eq_false, not_false_eq_true, and_self]), rfl⟩

/-- What a verified import is: what is filed under its key, proven against the resolved root. -/
lemma verifiedImport_eq_ok {mappings : Dict Octets32 Octets32} {entry : ImportSegment}
    {imported : ImportedSegment} (h : data.verifiedImport P mappings entry = .ok imported) :
    data.imports.get? (entry.treeRoot, entry.index) = some imported ∧
      ∃ root, resolveImportRoot mappings (importReference entry) = .ok root ∧
        Merkle.verify P.blake2b256Hash imported.segment entry.segmentIndex imported.justification
          root.toList = true := by
  cases hget : data.imports.get? (entry.treeRoot, entry.index) with
  | none =>
    rw [verifiedImport, hget] at h
    cases h
  | some found =>
    rw [verifiedImport, hget] at h
    obtain ⟨_, -, h⟩ := Except.bind_eq_ok.mp h
    obtain ⟨root, hroot, h⟩ := Except.bind_eq_ok.mp h
    obtain ⟨_, hverify, hfound⟩ := Except.bind_eq_ok.mp h
    cases hfound
    exact ⟨rfl, root, hroot, not_not.mp (Except.raiseIf_eq_ok.mp hverify)⟩

/-- The verified imports of all items are what was filed, in the order of the lists. -/
lemma verifiedImports_of_filed {package : WorkPackage} {extrinsics segments : List Octets}
    {justifications : List (List Octets)} {mappings : Dict Octets32 Octets32}
    {parts : List (List ImportedSegment)}
    (h : Filed P package extrinsics segments justifications data)
    (hparts : package.items.mapM (data.verifiedImports P mappings) = .ok parts) :
    parts.flatten = (segments.zip justifications).map (fun part => ⟨part.1, part.2⟩) := by
  have hflat : (package.items.flatMap (fun item => item.importSegments)).mapM
      (data.verifiedImport P mappings) = .ok parts.flatten :=
    Except.mapM_flatMap_eq_ok.mpr ⟨parts, hparts, rfl⟩
  have hfound : List.Forall₂
      (fun entry imported => data.imports.get? (entry.treeRoot, entry.index) = some imported)
      (package.items.flatMap (fun item => item.importSegments)) parts.flatten :=
    (Except.mapM_eq_ok_iff.mp hflat).imp (fun _ _ hok => (verifiedImport_eq_ok hok).1)
  have hfiled : List.Forall₂
      (fun entry imported => data.imports.get? (entry.treeRoot, entry.index) = some imported)
      (package.items.flatMap (fun item => item.importSegments))
      ((segments.zip justifications).map (fun part => ⟨part.1, part.2⟩)) := by
    rw [List.forall₂_map_right_iff]
    refine List.forall₂_iff_zip.mpr ⟨?_, fun {entry part} hmem => h.imports (entry, part) hmem⟩
    rw [List.length_zip, h.length_segments, h.length_justifications, min_self]
  have hunique : Relator.RightUnique
      (fun (entry : ImportSegment) imported =>
        data.imports.get? (entry.treeRoot, entry.index) = some imported) :=
    fun _ _ _ hb hc => Option.some.inj (hb.symm.trans hc)
  exact hunique.forall₂ hfound hfiled

/-- Flat lists that are accepted come back from the items, and every segment that comes back is proven
against the root that its reference resolves to. -/
theorem fromParts_round_trip (P : Primitives) (package : WorkPackage)
    (extrinsics segments : List Octets) (justifications : List (List Octets)) (data : BundleData)
    (hunbroken : ∀ b ∈ extrinsics, ∀ b' ∈ extrinsics,
      P.blake2b256Hash b = P.blake2b256Hash b' → b = b')
    (h : fromParts P package extrinsics segments justifications = .ok data) :
    (∃ blobs, package.items.mapM (data.extrinsicData P) = .ok blobs ∧ blobs.flatten = extrinsics) ∧
      ∀ mappings bundle, data.assembleBundle P package mappings = .ok bundle →
        (∃ parts, package.items.mapM (data.importSegments P mappings) = .ok parts ∧
          parts.flatten = segments) ∧
        (∃ parts, package.items.mapM (data.importJustifications P mappings) = .ok parts ∧
          parts.flatten = justifications) ∧
        ∀ item ∈ package.items, ∀ itemSegments itemProofs,
          data.importSegments P mappings item = .ok itemSegments →
          data.importJustifications P mappings item = .ok itemProofs →
          List.Forall₂ (fun entry part => ∃ root,
              resolveImportRoot mappings (importReference entry) = .ok root ∧
              Merkle.verify P.blake2b256Hash part.1 entry.segmentIndex part.2 root.toList = true)
            item.importSegments (itemSegments.zip itemProofs) := by
  have hfiled := filed_of_fromParts h
  refine ⟨mapM_extrinsicData_of_filed hunbroken hfiled, ?_⟩
  intro mappings bundle hbundle
  simp only [assembleBundle, Except.bind_eq_ok] at hbundle
  obtain ⟨_, -, _, -, segmentParts, hsegmentParts, -⟩ := hbundle
  obtain ⟨parts, hparts, -⟩ := Except.mapM_map_eq_ok.mp hsegmentParts
  have hflatten := verifiedImports_of_filed hfiled hparts
  have hlength : segments.length = justifications.length :=
    hfiled.length_segments.trans hfiled.length_justifications.symm
  refine ⟨⟨_, Except.mapM_map_eq_ok.mpr ⟨parts, hparts, rfl⟩, ?_⟩,
    ⟨_, Except.mapM_map_eq_ok.mpr ⟨parts, hparts, rfl⟩, ?_⟩, ?_⟩
  · rw [← List.map_flatten, hflatten, List.map_map]
    exact List.map_fst_zip hlength.le
  · rw [← List.map_flatten, hflatten, List.map_map]
    exact List.map_snd_zip hlength.ge
  · intro item _ itemSegments itemProofs hsegments hproofs
    obtain ⟨imports, himports, hmap⟩ := Except.bind_eq_ok.mp hsegments
    obtain ⟨imports', himports', hmap'⟩ := Except.bind_eq_ok.mp hproofs
    cases himports.symm.trans himports'
    cases hmap
    cases hmap'
    have hzip : (imports.map (fun imported => imported.segment)).zip
        (imports.map (fun imported => imported.justification)) =
          imports.map (fun imported => (imported.segment, imported.justification)) :=
      List.zip_map'
    rw [hzip, List.forall₂_map_right_iff]
    exact (Except.mapM_eq_ok_iff.mp himports).imp (fun _ _ hok => (verifiedImport_eq_ok hok).2)

/-! ## A sample -/

/-- A segment tree of one segment has its leaf as its root. -/
def sampleRoot : Octets32 := toDigest (Merkle.leafTag ++ List.replicate 4104 9)

/-- A work item that reads one blob twice and imports one segment. -/
def sampleItem : WorkItem where
  service := 0
  codeHash := Vector.replicate 32 0
  refineGasLimit := 1000
  accumulateGasLimit := 1000
  exportCount := 0
  payload := []
  importSegments := [⟨sampleRoot, 0⟩]
  extrinsic := [⟨toDigest [1], 1⟩, ⟨toDigest [2], 1⟩, ⟨toDigest [1], 1⟩]

/-- Two equal items. -/
def sampleTwice : WorkPackage where
  authCodeHost := 0
  authCodeHash := Vector.replicate 32 0
  context :=
    { anchor := Vector.replicate 32 0
      anchorSlot := 1
      stateRoot := Vector.replicate 32 0
      beefyRoot := Vector.replicate 32 0
      lookupAnchor := Vector.replicate 32 0
      lookupAnchorSlot := 1
      lookupAnchorStateRoot := Vector.replicate 32 0
      prerequisites := [] }
  authorization := []
  authorizerConfig := []
  items := [sampleItem, sampleItem]

/-- The sample's flat lists. -/
def sampleParts : Except ReportError BundleData :=
  fromParts samplePrimitives sampleTwice [[1], [2], [1], [1], [2], [1]]
    [List.replicate 4104 9, List.replicate 4104 9] [[], []]

set_option maxRecDepth 100000 in
/-- The items share two blobs and a segment; each gets its own back. -/
theorem sampleTwice_round_trip : ∃ data bundle, sampleParts = .ok data ∧
    data.assembleBundle samplePrimitives sampleTwice ∅ = .ok bundle ∧
    (∃ blobs, sampleTwice.items.mapM (data.extrinsicData samplePrimitives) = .ok blobs ∧
      blobs.flatten = [[1], [2], [1], [1], [2], [1]]) ∧
    ∃ parts, sampleTwice.items.mapM (data.importSegments samplePrimitives ∅) = .ok parts ∧
      parts.flatten = [List.replicate 4104 9, List.replicate 4104 9] := by
  have hok : (sampleParts >>= fun data =>
      data.assembleBundle samplePrimitives sampleTwice ∅).isOk = true := by decide +kernel
  cases hboth : sampleParts >>= fun data => data.assembleBundle samplePrimitives sampleTwice ∅ with
  | error e =>
    rw [hboth] at hok
    cases hok
  | ok bundle =>
    obtain ⟨data, hdata, hbundle⟩ := Except.bind_eq_ok.mp hboth
    obtain ⟨hblobs, hback⟩ := fromParts_round_trip samplePrimitives sampleTwice
      [[1], [2], [1], [1], [2], [1]] [List.replicate 4104 9, List.replicate 4104 9] [[], []] data
      (by decide) hdata
    exact ⟨data, bundle, hdata, hbundle, hblobs, (hback ∅ bundle hbundle).1⟩

end BundleData

end Refinement
