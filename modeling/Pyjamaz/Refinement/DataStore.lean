import Pyjamaz.Library.Decoders
import Pyjamaz.Refinement.Pages
import Pyjamaz.Refinement.Parts

/-!
# Data that a node keeps for refinement

A node keeps the segments that its reports export under their root, the bundle of a report and the root
of its exports under the hash of the package.  It also keeps the blobs that came with a package, under
their hashes, until the package is reported.  What a package needs to be refined is gathered from these:
the roots that its imports by package hash stand for (`segmentRootLookup`), and the blobs, segments and
proofs (`bundleData`).

Gathering and refining check the same data twice, in different code.  `DataAvailabilityStore.Sound` is
what the store keeps over any sequence of reports, and with it the second check never fails:
`bundleData_cases` names the two reasons for which nothing is gathered, and says that otherwise the bundle
can be assembled of what was gathered.

A tree that has been fetched for an import is kept for the next import of the same root.  The store does
not change in between, so the model fetches it again.
-/

namespace Refinement

open Octets Services

/-- What stops a refinement: data that may come later, or an error. -/
inductive RefineError where
  /-- `DataUnavailable` -/
  | dataUnavailable (message : String)
  | report (e : ReportError)
  deriving DecidableEq

/-! ## The store -/

structure D3LEntry where
  segmentRoot : Octets
  segments : List Octets
  deriving DecidableEq

/-- `to_jam_bytes` and `from_jam_bytes` of the entries, which are of another package. -/
structure D3LCodec where
  toJamBytes : D3LEntry → Option Octets
  fromJamBytes : Octets → Option D3LEntry

/-- What is encoded is decoded again, and an entry with fields of the right sizes is encoded. -/
def D3LCodec.RoundTrip (D : D3LCodec) : Prop :=
  ∀ entry : D3LEntry, entry.segmentRoot.length = 32 →
    (∀ s ∈ entry.segments, s.length = ecSegmentSize) → entry.segments.length < 2 ^ 64 →
    ∃ bytes, D.toJamBytes entry = some bytes ∧ D.fromJamBytes bytes = some entry

/-- The root, and the segments with their number before them. -/
def D3LCodec.natural : D3LCodec where
  toJamBytes entry := do
    let root ← Codec.natural.h256 entry.segmentRoot
    let segments ← encodeVec .natural (encodeArray ecSegmentSize) entry.segments
    return root ++ segments
  fromJamBytes bytes :=
    if bytes.length < 32 then none
    else (takeVec ecSegmentSize (bytes.drop 32)).map (fun segments => ⟨bytes.take 32, segments.1⟩)

lemma D3LCodec.roundTrip_natural : D3LCodec.natural.RoundTrip := by
  intro entry hroot hsegments hcount
  obtain ⟨segments, hencode, hdecode⟩ := takeVec_encodeVec hsegments hcount
  refine ⟨entry.segmentRoot ++ segments, ?_, ?_⟩
  · simp only [natural, Codec.documented_natural.h256 _ hroot, hencode]
    rfl
  · have htake := hdecode []
    rw [List.append_nil] at htake
    simp only [natural]
    rw [if_neg (by rw [List.length_append]; omega), List.drop_left' hroot, List.take_left' hroot, htake]
    rfl

/-- The bytes of an ASCII text. -/
def ascii (text : String) : Octets := text.toList.map (fun c => UInt8.ofNat c.toNat)

/-- The key of the root of the exports of a package. -/
def packageRootKey (packageHash : Octets32) : Octets := ascii "package-root:" ++ packageHash.toList

def bundleKey (packageHash : Octets32) : Octets := ascii "bundle:" ++ packageHash.toList

structure DataAvailabilityStore where
  storageEngine : Dict Octets Octets

namespace DataAvailabilityStore

variable (D : D3LCodec) (store : DataAvailabilityStore)

def empty : DataAvailabilityStore := ⟨∅⟩

def put (key value : Octets) : DataAvailabilityStore := ⟨store.storageEngine.insert key value⟩

def retrieveSegments (segmentRoot : Octets) : Except RefineError (List Octets) :=
  match store.storageEngine.get? segmentRoot with
  | none => .error (.dataUnavailable "imported segments are unavailable")
  | some data =>
    match D.fromJamBytes data with
    | some entry => .ok entry.segments
    | none => .error (.report .raised)

def storeSegments (entry : D3LEntry) : Except ReportError DataAvailabilityStore := do
  let bytes ← orRaise (D.toJamBytes entry)
  return store.put entry.segmentRoot bytes

/-- `segment_root_for_package`; a root has 32 bytes. -/
def segmentRootForPackage (packageHash : Octets32) : Except RefineError Octets32 :=
  match store.storageEngine.get? (packageRootKey packageHash) with
  | none => .error (.dataUnavailable "segment-root mapping is unavailable")
  | some root => .ok (toDigest root)

def storeWorkReport (report : WorkReport) (bundle : Octets) (exports : List Octets) :
    Except ReportError DataAvailabilityStore := do
  let spec := report.packageSpec
  let store ← store.storeSegments D ⟨spec.exportsRoot, exports⟩
  return (store.put (bundleKey spec.hash) bundle).put (packageRootKey spec.hash) spec.exportsRoot

end DataAvailabilityStore

/-! ## The blobs of a package -/

/-- `WorkpackageExtrinsicCollector`: by package, the blobs by their hashes. -/
structure WorkpackageExtrinsicCollector where
  extrinsicData : Dict Octets32 (Dict Octets32 Octets)

namespace WorkpackageExtrinsicCollector

variable (collector : WorkpackageExtrinsicCollector)

def init : WorkpackageExtrinsicCollector := ⟨∅⟩

def add (hash : Octets → Octets32) (packageHash : Octets32) (extrinsics : List Octets) :
    WorkpackageExtrinsicCollector :=
  ⟨collector.extrinsicData.insert packageHash
    ((∅ : Dict Octets32 Octets).assign (extrinsics.map (fun e => (hash e, e))))⟩

def get (packageHash extrinsicHash : Octets32) (extrinsicLength : ℤ) : Option Octets :=
  ((collector.extrinsicData.get? packageHash).bind (fun blobs => blobs.get? extrinsicHash)).filter
    (fun extrinsic => extrinsicLength = extrinsic.length)

def clear (packageHash : Octets32) : WorkpackageExtrinsicCollector :=
  ⟨collector.extrinsicData.erase packageHash⟩

end WorkpackageExtrinsicCollector

/-! ## Gathering -/

section Gathering

variable (P : Primitives) (D : D3LCodec) (known : Dict Octets32 Octets32) (d3lStore : Option DataAvailabilityStore)
  (collector : WorkpackageExtrinsicCollector)

/-- The root that an import by package hash stands for: what the node knows comes before the store. -/
def segmentRootOf (packageHash : Octets32) : Except RefineError Octets32 :=
  match known.get? packageHash with
  | some root => .ok root
  | none =>
    match d3lStore with
    | some store => store.segmentRootForPackage packageHash
    | none => .error (.dataUnavailable "segment-root mapping is unavailable")

/-- The body of the loop of `_segment_root_lookup`. -/
def addMapping (mappings : Dict Octets32 Octets32) (entry : ImportSegment) :
    Except RefineError (Dict Octets32 Octets32) :=
  if entry.isWorkPackageHash ∧ mappings.contains entry.treeRoot = false then do
    let root ← segmentRootOf known d3lStore entry.treeRoot
    return mappings.insert entry.treeRoot root
  else .ok mappings

/-- `_segment_root_lookup` -/
def segmentRootLookup (package : WorkPackage) : Except RefineError (Dict Octets32 Octets32) :=
  (package.items.flatMap (fun item => item.importSegments)).foldlM (addMapping known d3lStore) ∅

/-- The blob that a manifest names. -/
def extrinsicPart (packageHash : Octets32) (manifest : WorkItemExtrinsic) :
    Except RefineError Octets :=
  match collector.get packageHash manifest.hash manifest.len with
  | some blob => .ok blob
  | none => .error (.dataUnavailable "extrinsic data is unavailable")

/-- The segment that an import names, with its proof. -/
def importPart (mappings : Dict Octets32 Octets32) (entry : ImportSegment) :
    Except RefineError (Octets × List Octets) := do
  let root ← (resolveImportRoot mappings (importReference entry)).mapError .report
  match d3lStore with
  | none => .error (.dataUnavailable "imported segments are unavailable")
  | some store => do
    let stored ← store.retrieveSegments D root.toList
    Except.raiseIf (Merkle.segmentRoot Merkle.ceilLog2 P.blake2b256Hash stored ≠ root.toList)
      (.report (.process "stored segments do not match their root"))
    Except.raiseIf (entry.segmentIndex ≥ stored.length)
      (.report (.process "import segment index out of range"))
    match stored[entry.segmentIndex.toNat]?,
        Merkle.trace Merkle.ceilLog2 P.blake2b256Hash stored entry.segmentIndex with
    | some segment, some proof => .ok (segment, proof)
    | _, _ => .error (.report .raised)

/-- The parts of one item. -/
def itemParts (packageHash : Octets32) (mappings : Dict Octets32 Octets32) (item : WorkItem) :
    Except RefineError (List Octets × List (Octets × List Octets)) := do
  let extrinsics ← item.extrinsic.mapM (extrinsicPart collector packageHash)
  let imports ← item.importSegments.mapM (importPart P D d3lStore mappings)
  return (extrinsics, imports)

/-- `_bundle_data` -/
def bundleData (packageHash : Octets32) (package : WorkPackage)
    (mappings : Dict Octets32 Octets32) : Except RefineError BundleData := do
  let parts ← package.items.mapM (itemParts P D d3lStore collector packageHash mappings)
  let imports := parts.flatMap Prod.snd
  (BundleData.fromParts P package (parts.flatMap Prod.fst) (imports.map Prod.fst)
    (imports.map Prod.snd)).mapError .report

end Gathering

/-! ## What is stored -/

/-- The root of segments is a digest. -/
lemma length_segmentRoot (hash : Octets → Octets32) (data : List Octets) :
    (Merkle.segmentRoot Merkle.ceilLog2 hash data).length = 32 := by
  rw [Merkle.segmentRoot_eq (Merkle.length_le_newSize data)]
  exact Vector.length_toList

/-! ## What the store keeps -/

/-- Under a root there are segments with this root, and the root of a package is one of them. -/
structure DataAvailabilityStore.Sound (D : D3LCodec) (hash : Octets → Octets32) (store : DataAvailabilityStore) :
    Prop where
  segments : ∀ (root : Octets32) {data}, store.storageEngine.get? root.toList = some data →
    ∃ segments, D.fromJamBytes data = some ⟨root.toList, segments⟩ ∧
      Merkle.segmentRoot Merkle.ceilLog2 hash segments = root.toList ∧ (∀ s ∈ segments, s.length = ecSegmentSize) ∧
      segments.length ≤ maximumNumberExportsWorkPackage
  packageRoots : ∀ (packageHash : Octets32) {root},
    store.storageEngine.get? (packageRootKey packageHash) = some root →
    root.length = 32 ∧ ∃ data, store.storageEngine.get? root = some data

/-- What a report says of the segments it exports. -/
structure WorkPackageSpec.Exports (hash : Octets → Octets32) (spec : WorkPackageSpec)
    (exports : List Octets) : Prop where
  root : spec.exportsRoot = Merkle.segmentRoot Merkle.ceilLog2 hash exports
  count : spec.exportsCount = exports.length
  count_le : exports.length ≤ maximumNumberExportsWorkPackage
  sizes : ∀ s ∈ exports, s.length = ecSegmentSize

section Store

variable {D : D3LCodec} {hash : Octets → Octets32} {store : DataAvailabilityStore}

lemma length_packageRootKey (packageHash : Octets32) : (packageRootKey packageHash).length = 45 := by
  rw [packageRootKey, List.length_append, Vector.length_toList]
  rfl

lemma length_bundleKey (packageHash : Octets32) : (bundleKey packageHash).length = 39 := by
  rw [bundleKey, List.length_append, Vector.length_toList]
  rfl

lemma ne_of_length_ne {a b : Octets} (h : a.length ≠ b.length) : a ≠ b :=
  fun heq => h (congrArg List.length heq)

namespace DataAvailabilityStore

lemma sound_empty (D : D3LCodec) (hash : Octets → Octets32) : empty.Sound D hash where
  segments root data h := by cases h
  packageRoots packageHash root h := by cases h

/-- What is stored under a root is found, with this root. -/
lemma Sound.retrieveSegments (h : store.Sound D hash) {root : Octets32} {data : Octets}
    (hdata : store.storageEngine.get? root.toList = some data) :
    ∃ segments, store.retrieveSegments D root.toList = .ok segments ∧
      Merkle.segmentRoot Merkle.ceilLog2 hash segments = root.toList ∧ (∀ s ∈ segments, s.length = ecSegmentSize) ∧
      segments.length ≤ maximumNumberExportsWorkPackage := by
  obtain ⟨segments, hdecode, hfacts⟩ := h.segments root hdata
  refine ⟨segments, ?_, hfacts⟩
  rw [DataAvailabilityStore.retrieveSegments, hdata]
  simp only [hdecode]

/-- What a root is stored for can be fetched, or there is nothing yet. -/
lemma Sound.retrieveSegments_error (h : store.Sound D hash) {root : Octets32} {e : RefineError}
    (he : store.retrieveSegments D root.toList = .error e) :
    e = .dataUnavailable "imported segments are unavailable" := by
  cases hdata : store.storageEngine.get? root.toList with
  | none =>
    rw [DataAvailabilityStore.retrieveSegments, hdata] at he
    cases he
    rfl
  | some data =>
    obtain ⟨segments, hok, -⟩ := h.retrieveSegments hdata
    rw [hok] at he
    cases he

/-- Segments under their root keep the store sound. -/
lemma Sound.putSegments (h : store.Sound D hash) {root : Octets32} {exports : List Octets}
    {data : Octets} (hroot : Merkle.segmentRoot Merkle.ceilLog2 hash exports = root.toList)
    (hsizes : ∀ s ∈ exports, s.length = ecSegmentSize)
    (hcount : exports.length ≤ maximumNumberExportsWorkPackage)
    (hdecode : D.fromJamBytes data = some ⟨root.toList, exports⟩) :
    (store.put root.toList data).Sound D hash where
  segments root' data' hdata' := by
    by_cases heq : root'.toList = root.toList
    · rw [put, heq, Dict.get?_insert_self] at hdata'
      obtain rfl := Option.some.inj hdata'
      exact ⟨exports, heq ▸ hdecode, heq ▸ hroot, hsizes, hcount⟩
    · rw [put, Dict.get?_insert_of_ne _ heq] at hdata'
      exact h.segments root' hdata'
  packageRoots packageHash found hfound := by
    have hne : packageRootKey packageHash ≠ root.toList :=
      ne_of_length_ne (by rw [length_packageRootKey, Vector.length_toList]; decide)
    rw [put, Dict.get?_insert_of_ne _ hne] at hfound
    obtain ⟨hlength, data', hdata'⟩ := h.packageRoots packageHash hfound
    refine ⟨hlength, ?_⟩
    by_cases heq : found = root.toList
    · exact ⟨data, by rw [put, heq, Dict.get?_insert_self]⟩
    · exact ⟨data', by rw [put, Dict.get?_insert_of_ne _ heq, hdata']⟩

/-- A bundle is not in the way of anything else. -/
lemma Sound.putBundle (h : store.Sound D hash) (packageHash : Octets32) (bundle : Octets) :
    (store.put (bundleKey packageHash) bundle).Sound D hash where
  segments root data hdata := by
    have hne : root.toList ≠ bundleKey packageHash :=
      ne_of_length_ne (by rw [length_bundleKey, Vector.length_toList]; decide)
    rw [put, Dict.get?_insert_of_ne _ hne] at hdata
    exact h.segments root hdata
  packageRoots other found hfound := by
    have hne : packageRootKey other ≠ bundleKey packageHash :=
      ne_of_length_ne (by rw [length_bundleKey, length_packageRootKey]; decide)
    rw [put, Dict.get?_insert_of_ne _ hne] at hfound
    obtain ⟨hlength, data, hdata⟩ := h.packageRoots other hfound
    have hroot : found ≠ bundleKey packageHash :=
      ne_of_length_ne (by rw [length_bundleKey, hlength]; decide)
    exact ⟨hlength, data, by rw [put, Dict.get?_insert_of_ne _ hroot, hdata]⟩

/-- The root of a package may be recorded once its segments are stored. -/
lemma Sound.putPackageRoot (h : store.Sound D hash) (packageHash : Octets32) {root : Octets}
    (hlength : root.length = 32) {data : Octets} (hdata : store.storageEngine.get? root = some data) :
    (store.put (packageRootKey packageHash) root).Sound D hash where
  segments root' data' hdata' := by
    have hne : root'.toList ≠ packageRootKey packageHash :=
      ne_of_length_ne (by rw [length_packageRootKey, Vector.length_toList]; decide)
    rw [put, Dict.get?_insert_of_ne _ hne] at hdata'
    exact h.segments root' hdata'
  packageRoots other found hfound := by
    have hkeep : ∀ {key : Octets}, key.length = 32 →
        (store.put (packageRootKey packageHash) root).storageEngine.get? key =
          store.storageEngine.get? key := by
      intro key hkey
      have hne : key ≠ packageRootKey packageHash :=
        ne_of_length_ne (by rw [length_packageRootKey, hkey]; decide)
      rw [put, Dict.get?_insert_of_ne _ hne]
    by_cases heq : packageRootKey other = packageRootKey packageHash
    · rw [put, heq, Dict.get?_insert_self] at hfound
      obtain rfl := Option.some.inj hfound
      exact ⟨hlength, data, (hkeep hlength).trans hdata⟩
    · rw [put, Dict.get?_insert_of_ne _ heq] at hfound
      obtain ⟨hlength', data', hdata'⟩ := h.packageRoots other hfound
      exact ⟨hlength', data', (hkeep hlength').trans hdata'⟩

/-- What a store holds after a report has been stored. -/
structure Retains (D : D3LCodec) (store' : DataAvailabilityStore) (spec : WorkPackageSpec) (bundle : Octets)
    (exports : List Octets) : Prop where
  segments : store'.retrieveSegments D spec.exportsRoot = .ok exports
  root : store'.segmentRootForPackage spec.hash = .ok (toDigest spec.exportsRoot)
  bundle : store'.storageEngine.get? (bundleKey spec.hash) = some bundle

/-- A report whose exports are what it says is stored, and the store stays sound. -/
lemma Sound.storeWorkReport (hD : D.RoundTrip) (h : store.Sound D hash) {report : WorkReport} {exports : List Octets}
    (hexports : report.packageSpec.Exports hash exports) (bundle : Octets) :
    ∃ store', store.storeWorkReport D report bundle exports = .ok store' ∧ store'.Sound D hash ∧
      store'.Retains D report.packageSpec bundle exports ∧
      ∀ root : Octets32, (store.storageEngine.get? root.toList).isSome →
        (store'.storageEngine.get? root.toList).isSome := by
  set spec := report.packageSpec with hspec
  have hlength : spec.exportsRoot.length = 32 := by rw [hexports.root, length_segmentRoot]
  obtain ⟨root, hroot⟩ : ∃ root : Octets32, root.toList = spec.exportsRoot :=
    ⟨_, toList_toDigest hlength⟩
  obtain ⟨data, hencode, hdecode⟩ : ∃ bytes, D.toJamBytes ⟨spec.exportsRoot, exports⟩ =
      some bytes ∧ D.fromJamBytes bytes = some ⟨spec.exportsRoot, exports⟩ :=
    hD _ hlength hexports.sizes (lt_of_le_of_lt hexports.count_le (by decide))
  have hsegments : (store.put spec.exportsRoot data).Sound D hash := by
    rw [← hroot] at hdecode ⊢
    exact h.putSegments (hexports.root.symm.trans hroot.symm) hexports.sizes hexports.count_le
      hdecode
  have hbundleNe : spec.exportsRoot ≠ bundleKey spec.hash :=
    ne_of_length_ne (by rw [length_bundleKey, hlength]; decide)
  have hrootNe : spec.exportsRoot ≠ packageRootKey spec.hash :=
    ne_of_length_ne (by rw [length_packageRootKey, hlength]; decide)
  have hkeysNe : bundleKey spec.hash ≠ packageRootKey spec.hash :=
    ne_of_length_ne (by rw [length_packageRootKey, length_bundleKey]; decide)
  have hdata : ((store.put spec.exportsRoot data).put (bundleKey spec.hash)
      bundle).storageEngine.get? spec.exportsRoot = some data := by
    rw [put, put, Dict.get?_insert_of_ne _ hbundleNe, Dict.get?_insert_self]
  have hsound := (hsegments.putBundle spec.hash bundle).putPackageRoot spec.hash hlength hdata
  refine ⟨_, ?_, hsound, ⟨?_, ?_, ?_⟩, fun other hother => ?_⟩
  · rw [DataAvailabilityStore.storeWorkReport, storeSegments, ← hspec, hencode]
    rfl
  · rw [DataAvailabilityStore.retrieveSegments, put, Dict.get?_insert_of_ne _ hrootNe, hdata]
    simp only [hdecode]
  · rw [segmentRootForPackage, put, Dict.get?_insert_self]
  · rw [put, Dict.get?_insert_of_ne _ hkeysNe, put, Dict.get?_insert_self]
  · have hother₁ : other.toList ≠ packageRootKey spec.hash :=
      ne_of_length_ne (by rw [length_packageRootKey, Vector.length_toList]; decide)
    have hother₂ : other.toList ≠ bundleKey spec.hash :=
      ne_of_length_ne (by rw [length_bundleKey, Vector.length_toList]; decide)
    rw [put, Dict.get?_insert_of_ne _ hother₁, put, Dict.get?_insert_of_ne _ hother₂, put]
    by_cases heq : other.toList = spec.exportsRoot
    · rw [heq, Dict.get?_insert_self]
      rfl
    · rwa [Dict.get?_insert_of_ne _ heq]

end DataAvailabilityStore

end Store

/-- A report that is computed exports what it says, for the package it is computed of. -/
lemma exports_of_computeWorkReport {C : Config} {P : Primitives} {I : Invocations}
    {services : ServicesState} {data : BundleData} {package : WorkPackage} {coreIndex : ℤ}
    {mappings : Dict Octets32 Octets32} {erasureShards : ℤ} {out : RefinementOutput}
    (h : computeWorkReport C P I services data package coreIndex mappings erasureShards = .ok out) :
    out.report.packageSpec.Exports P.blake2b256Hash out.exportedSegments ∧
      ∃ encoded, package.toJamBytes P.codec = some encoded ∧
        out.report.packageSpec.hash = P.blake2b256Hash encoded := by
  simp only [computeWorkReport, Except.bind_eq_ok] at h
  obtain ⟨_, -, _, -, _, -, _, -, bundle, -, _, -, _, -, _, -, _, -, trace, -, progress, -, encoded,
    hencoded, spec, hspec, hout⟩ := h
  cases hout
  simp only [availabilitySpec, Except.bind_eq_ok, Except.raiseIf_eq_ok, not_or, List.any_eq_true,
    not_exists, not_and, decide_eq_true_eq, not_not, gt_iff_lt, not_lt] at hspec
  obtain ⟨-, ⟨hcount, hsizes⟩, _, -, _, -, _, -, _, -, hspec⟩ := hspec
  cases hspec
  exact ⟨⟨rfl, rfl, hcount, hsizes⟩, encoded, BundleData.orRaise_eq_ok.mp hencoded, rfl⟩

/-! ## What is gathered -/

/-- The blobs are under their hashes. -/
def WorkpackageExtrinsicCollector.Sound (hash : Octets → Octets32)
    (collector : WorkpackageExtrinsicCollector) : Prop :=
  ∀ {packageHash blobs extrinsicHash blob},
    collector.extrinsicData.get? packageHash = some blobs → blobs.get? extrinsicHash = some blob →
    hash blob = extrinsicHash

namespace WorkpackageExtrinsicCollector

variable {hash : Octets → Octets32} {collector : WorkpackageExtrinsicCollector}

lemma sound_init (hash : Octets → Octets32) : init.Sound hash := by
  intro packageHash blobs extrinsicHash blob hblobs
  cases hblobs

lemma Sound.add (h : collector.Sound hash) (packageHash : Octets32) (extrinsics : List Octets) :
    (collector.add hash packageHash extrinsics).Sound hash := by
  intro other blobs extrinsicHash blob hblobs hblob
  by_cases heq : other = packageHash
  · rw [WorkpackageExtrinsicCollector.add, heq, Dict.get?_insert_self] at hblobs
    obtain rfl := Option.some.inj hblobs
    obtain ⟨e, -, he⟩ := List.mem_map.mp (Dict.mem_of_get?_assign hblob)
    cases he
    rfl
  · rw [WorkpackageExtrinsicCollector.add, Dict.get?_insert_of_ne _ heq] at hblobs
    exact h hblobs hblob

lemma Sound.clear (h : collector.Sound hash) (packageHash : Octets32) :
    (collector.clear packageHash).Sound hash := by
  intro other blobs extrinsicHash blob hblobs hblob
  rw [WorkpackageExtrinsicCollector.clear, Dict.get?_erase] at hblobs
  split at hblobs
  · cases hblobs
  · exact h hblobs hblob

/-- A blob that is found has the hash and the length that were asked for, and it is the only one. -/
lemma Sound.get (h : collector.Sound hash) {packageHash extrinsicHash : Octets32} {len : ℤ}
    {blob : Octets} (hget : collector.get packageHash extrinsicHash len = some blob) :
    hash blob = extrinsicHash ∧ (blob.length : ℤ) = len := by
  obtain ⟨hfound, hlen⟩ := Option.filter_eq_some_iff.mp hget
  obtain ⟨blobs, hblobs, hblob⟩ := Option.bind_eq_some_iff.mp hfound
  exact ⟨h hblobs hblob, (of_decide_eq_true hlen).symm⟩

lemma get_unique {packageHash extrinsicHash : Octets32} {len len' : ℤ} {blob blob' : Octets}
    (hget : collector.get packageHash extrinsicHash len = some blob)
    (hget' : collector.get packageHash extrinsicHash len' = some blob') : blob = blob' :=
  Option.some.inj ((Option.filter_eq_some_iff.mp hget).1.symm.trans
    (Option.filter_eq_some_iff.mp hget').1)

end WorkpackageExtrinsicCollector

section Gathered

variable {P : Primitives} {D : D3LCodec} {known : Dict Octets32 Octets32}
  {d3lStore : Option DataAvailabilityStore} {collector : WorkpackageExtrinsicCollector}

/-- The mappings of the imports that were looked at: these have the keys, and each its root. -/
structure Mapped (known : Dict Octets32 Octets32) (d3lStore : Option DataAvailabilityStore)
    (done : List ImportSegment) (mappings : Dict Octets32 Octets32) : Prop where
  keys : ∀ packageHash, packageHash ∈ mappings.keys ↔
    ∃ entry ∈ done, entry.isWorkPackageHash = true ∧ entry.treeRoot = packageHash
  roots : ∀ {packageHash root}, mappings.get? packageHash = some root →
    segmentRootOf known d3lStore packageHash = .ok root

lemma mapped_addMapping {done : List ImportSegment} {mappings mappings' : Dict Octets32 Octets32}
    {entry : ImportSegment} (h : Mapped known d3lStore done mappings)
    (hadd : addMapping known d3lStore mappings entry = .ok mappings') :
    Mapped known d3lStore (done ++ [entry]) mappings' := by
  have hsnoc : ∀ packageHash, (∃ x ∈ done ++ [entry], x.isWorkPackageHash = true ∧
      x.treeRoot = packageHash) ↔ (∃ x ∈ done, x.isWorkPackageHash = true ∧
        x.treeRoot = packageHash) ∨ (entry.isWorkPackageHash = true ∧
          entry.treeRoot = packageHash) := by
    intro packageHash
    simp only [List.mem_append, List.mem_singleton, or_and_right, exists_or, exists_eq_left]
  unfold addMapping at hadd
  split at hadd
  · next hnew =>
    obtain ⟨root, hroot, hinsert⟩ := Except.bind_eq_ok.mp hadd
    cases hinsert
    constructor
    · intro packageHash
      rw [hsnoc, ← h.keys, ← Dict.contains_iff, ← Dict.contains_iff, Dict.contains, Dict.contains]
      by_cases heq : packageHash = entry.treeRoot
      · rw [heq, Dict.get?_insert_self]
        exact iff_of_true rfl (.inr ⟨hnew.1, rfl⟩)
      · rw [Dict.get?_insert_of_ne _ heq]
        exact ⟨.inl, fun hor => hor.resolve_right (fun hentry => heq hentry.2.symm)⟩
    · intro packageHash found hfound
      by_cases heq : packageHash = entry.treeRoot
      · rw [heq, Dict.get?_insert_self] at hfound
        obtain rfl := Option.some.inj hfound
        exact heq ▸ hroot
      · rw [Dict.get?_insert_of_ne _ heq] at hfound
        exact h.roots hfound
  · next hold =>
    cases hadd
    refine ⟨fun packageHash => ?_, h.roots⟩
    rw [hsnoc, ← h.keys]
    refine ⟨.inl, fun hor => hor.elim id ?_⟩
    rintro ⟨hflag, rfl⟩
    exact Dict.contains_iff.mp (Bool.eq_true_of_not_eq_false (fun hfalse => hold ⟨hflag, hfalse⟩))

/-- The mappings that are looked up have the keys that the computation expects. -/
lemma mapped_of_segmentRootLookup {package : WorkPackage} {mappings : Dict Octets32 Octets32}
    (h : segmentRootLookup known d3lStore package = .ok mappings) :
    Mapped known d3lStore (package.items.flatMap (fun item => item.importSegments)) mappings :=
  Except.foldlM_induction (P := Mapped known d3lStore)
    (fun _ _ _ _ _ hdone hadd => mapped_addMapping hdone hadd)
    ⟨fun packageHash => by simp [Dict.keys], fun hget => by cases hget⟩ h

lemma Mapped.keys_eq {package : WorkPackage} {mappings : Dict Octets32 Octets32}
    (h : Mapped known d3lStore (package.items.flatMap (fun item => item.importSegments)) mappings) :
    mappings.keys.toFinset = package.dependencies := by
  ext packageHash
  rw [List.mem_toFinset, h.keys, WorkPackage.dependencies, List.mem_toFinset, List.mem_flatMap]
  simp only [List.mem_flatMap, List.mem_map, List.mem_filter]
  constructor
  · rintro ⟨entry, ⟨item, hitem, hentry⟩, hflag, hroot⟩
    exact ⟨item, hitem, entry, ⟨hentry, hflag⟩, hroot⟩
  · rintro ⟨item, hitem, entry, ⟨hentry, hflag⟩, hroot⟩
    exact ⟨entry, ⟨item, hitem, hentry⟩, hflag, hroot⟩

/-- The reference of an import whose package is mapped resolves. -/
lemma Mapped.resolveImportRoot {done : List ImportSegment} {mappings : Dict Octets32 Octets32}
    (h : Mapped known d3lStore done mappings) {entry : ImportSegment} (hentry : entry ∈ done) :
    ∃ root, Refinement.resolveImportRoot mappings (importReference entry) = .ok root ∧
      (entry.isWorkPackageHash = true → segmentRootOf known d3lStore entry.treeRoot = .ok root) := by
  unfold importReference
  split
  · next hflag =>
    obtain ⟨root, hroot⟩ : ∃ root, mappings.get? entry.treeRoot = some root :=
      Option.isSome_iff_exists.mp (Dict.contains_iff.mpr ((h.keys _).mpr ⟨entry, hentry, hflag, rfl⟩))
    refine ⟨root, ?_, fun _ => h.roots hroot⟩
    rw [Refinement.resolveImportRoot, hroot]
  · next hflag => exact ⟨entry.treeRoot, rfl, fun htrue => absurd htrue hflag⟩

/-- A segment with its proof as it is gathered: it passes the checks of the computation. -/
structure Importable (P : Primitives) (mappings : Dict Octets32 Octets32) (entry : ImportSegment)
    (part : Octets × List Octets) : Prop where
  size : part.1.length = ecSegmentSize
  index : entry.segmentIndex < maximumNumberExportsWorkPackage
  proof : part.2.length ≤ maximumProofLength
  siblings : ∀ sibling ∈ part.2, sibling.length = 32
  verified : ∃ root, resolveImportRoot mappings (importReference entry) = .ok root ∧
    Merkle.verify P.blake2b256Hash part.1 entry.segmentIndex part.2 root.toList = true

/-- The imports for which a store has the segments. -/
lemma importPart_of_stored {store : DataAvailabilityStore} (hsound : store.Sound D P.blake2b256Hash)
    {mappings : Dict Octets32 Octets32} {entry : ImportSegment} {root : Octets32}
    (hroot : resolveImportRoot mappings (importReference entry) = .ok root) {segments : List Octets}
    (hsegments : store.retrieveSegments D root.toList = .ok segments) :
    (entry.segmentIndex ≥ segments.length ∧ importPart P D (some store) mappings entry =
        .error (.report (.process "import segment index out of range"))) ∨
      ∃ part, importPart P D (some store) mappings entry = .ok part ∧
        segments[entry.segmentIndex.toNat]? = some part.1 ∧ Importable P mappings entry part := by
  obtain ⟨data, hdata⟩ : ∃ data, store.storageEngine.get? root.toList = some data := by
    cases hget : store.storageEngine.get? root.toList with
    | some data => exact ⟨data, rfl⟩
    | none =>
      rw [DataAvailabilityStore.retrieveSegments, hget] at hsegments
      cases hsegments
  obtain ⟨stored, hstored, hstoredRoot, hsizes, hcount⟩ := hsound.retrieveSegments hdata
  obtain rfl : stored = segments := Except.ok.inj (hstored.symm.trans hsegments)
  have hgood : ¬ Merkle.segmentRoot Merkle.ceilLog2 P.blake2b256Hash stored ≠ root.toList := not_not.mpr hstoredRoot
  simp only [importPart, hroot, Except.mapError, Except.ok_bind, hstored, Except.raiseIf_bind,
    if_neg hgood]
  by_cases hindex : entry.segmentIndex ≥ stored.length
  · exact .inl ⟨hindex, if_pos hindex⟩
  · right
    have hnonneg : 0 ≤ entry.segmentIndex := Int.emod_nonneg _ (by norm_num)
    obtain ⟨i, hi⟩ := Int.eq_ofNat_of_zero_le hnonneg
    have hlt : i < stored.length := by omega
    obtain ⟨proof, htrace, hverify, hsiblings, hlength⟩ := Merkle.verify_trace P.blake2b256Hash (Merkle.length_le_newSize stored) hlt
    rw [if_neg hindex]
    simp only [hi, Int.toNat_natCast, List.getElem?_eq_getElem hlt, htrace]
    refine ⟨(stored[i], proof), rfl, rfl, hsizes _ (List.getElem_mem hlt), by omega, ?_, hsiblings,
      root, hroot, ?_⟩
    · have hdepth : Nat.clog 2 (max 1 stored.length) ≤ 12 := by
        rw [Nat.clog_le_iff_le_pow (by norm_num)]
        have : maximumNumberExportsWorkPackage = 3072 := rfl
        omega
      have hmaximum : maximumProofLength = 12 := by decide
      rw [hmaximum]
      exact hlength.le.trans hdepth
    · rw [hi, ← hstoredRoot]
      exact hverify

/-- Why an import is not gathered. -/
lemma importPart_cases {mappings : Dict Octets32 Octets32} {entry : ImportSegment}
    (hsound : ∀ store ∈ d3lStore, store.Sound D P.blake2b256Hash)
    (hroot : ∃ root, resolveImportRoot mappings (importReference entry) = .ok root) :
    importPart P D d3lStore mappings entry =
        .error (.dataUnavailable "imported segments are unavailable") ∨
      importPart P D d3lStore mappings entry =
        .error (.report (.process "import segment index out of range")) ∨
      ∃ part, importPart P D d3lStore mappings entry = .ok part ∧
        Importable P mappings entry part := by
  obtain ⟨root, hroot⟩ := hroot
  cases d3lStore with
  | none =>
    left
    simp only [importPart, hroot, Except.mapError, Except.ok_bind]
  | some store =>
    have hstore := hsound store rfl
    cases hsegments : store.retrieveSegments D root.toList with
    | error e =>
      left
      obtain rfl := hstore.retrieveSegments_error hsegments
      simp only [importPart, hroot, Except.mapError, Except.ok_bind, hsegments, Except.error_bind]
    | ok segments =>
      right
      rcases importPart_of_stored hstore hroot hsegments with ⟨-, herror⟩ | ⟨part, hpart, -, hgood⟩
      · exact .inl herror
      · exact .inr ⟨part, hpart, hgood⟩

/-! ## What is gathered can be assembled -/

/-- The parts of all items, in the order of the package. -/
lemma parts_of_items {packageHash : Octets32} {package : WorkPackage}
    {mappings : Dict Octets32 Octets32} {parts : List (List Octets × List (Octets × List Octets))}
    (h : package.items.mapM (itemParts P D d3lStore collector packageHash mappings) = .ok parts) :
    (package.items.flatMap (fun item => item.extrinsic)).mapM (extrinsicPart collector packageHash) =
        .ok (parts.flatMap Prod.fst) ∧
      (package.items.flatMap (fun item => item.importSegments)).mapM
        (importPart P D d3lStore mappings) = .ok (parts.flatMap Prod.snd) := by
  have hitems : List.Forall₂ (fun (item : WorkItem) part =>
      item.extrinsic.mapM (extrinsicPart collector packageHash) = .ok part.1 ∧
        item.importSegments.mapM (importPart P D d3lStore mappings) = .ok part.2)
      package.items parts := by
    refine (Except.mapM_eq_ok_iff.mp h).imp (fun item part hpart => ?_)
    obtain ⟨extrinsics, hextrinsics, hpart⟩ := Except.bind_eq_ok.mp hpart
    obtain ⟨imports, himports, hpart⟩ := Except.bind_eq_ok.mp hpart
    cases hpart
    exact ⟨hextrinsics, himports⟩
  constructor
  · refine Except.mapM_flatMap_eq_ok.mpr ⟨parts.map Prod.fst, ?_, List.flatMap_def.symm⟩
    exact Except.mapM_eq_ok_iff.mpr (List.forall₂_map_right_iff.mpr (hitems.imp fun _ _ h => h.1))
  · refine Except.mapM_flatMap_eq_ok.mpr ⟨parts.map Prod.snd, ?_, List.flatMap_def.symm⟩
    exact Except.mapM_eq_ok_iff.mpr (List.forall₂_map_right_iff.mpr (hitems.imp fun _ _ h => h.2))

/-- Blobs that match their manifests are accepted. -/
lemma exists_foldlM_addExtrinsic {manifests : List WorkItemExtrinsic} {blobs : List Octets}
    (h : List.Forall₂ (fun manifest blob => P.blake2b256Hash blob = manifest.hash ∧
      (blob.length : ℤ) = manifest.len) manifests blobs) (data : BundleData) :
    ∃ data', (manifests.zip blobs).foldlM (BundleData.addExtrinsic P) data = .ok data' ∧
      data'.imports = data.imports := by
  induction h generalizing data with
  | nil => exact ⟨data, rfl, rfl⟩
  | @cons manifest blob manifests blobs hblob _ ih =>
    obtain ⟨data', hdata', himports⟩ :=
      ih { data with extrinsics := data.extrinsics.insert manifest.hash blob }
    refine ⟨data', ?_, himports⟩
    have hstep : BundleData.addExtrinsic P data (manifest, blob) =
        .ok { data with extrinsics := data.extrinsics.insert manifest.hash blob } := by
      refine Except.bind_eq_ok.mpr ⟨(), Except.raiseIf_eq_ok.mpr ?_, rfl⟩
      simp only [hblob.1, hblob.2, ne_eq, not_true_eq_false, or_self, not_false_eq_true]
    rw [List.zip_cons_cons, List.foldlM_cons, hstep, Except.ok_bind, hdata']

/-- Imports of which two of one name have one segment and proof are accepted. -/
lemma exists_foldlM_addImport {parts : List (ImportSegment × Octets × List Octets)}
    (hunique : ∀ part ∈ parts, ∀ part' ∈ parts, part.1 = part'.1 → part.2 = part'.2)
    {data : BundleData} (hempty : data.imports = ∅) :
    ∃ data', parts.foldlM BundleData.addImport data = .ok data' := by
  refine Except.exists_foldlM_eq_ok (P := fun done b => ∀ part ∈ parts, ∀ imported,
    b.imports.get? (part.1.treeRoot, part.1.index) = some imported →
      imported = ⟨part.2.1, part.2.2⟩) ?_ ?_
  · intro done b x hx hfiled
    refine ⟨{ b with imports := b.imports.insert (x.1.treeRoot, x.1.index) ⟨x.2.1, x.2.2⟩ }, ?_, ?_⟩
    · refine Except.bind_eq_ok.mpr ⟨(), Except.raiseIf_eq_ok.mpr ?_, rfl⟩
      rintro ⟨hcontains, hne⟩
      obtain ⟨imported, himported⟩ := Option.isSome_iff_exists.mp hcontains
      exact hne (himported.trans (congrArg some (hfiled x hx imported himported)))
    · intro part hpart imported himported
      by_cases hkey : (part.1.treeRoot, part.1.index) = (x.1.treeRoot, x.1.index)
      · obtain ⟨hroot, hindex⟩ := Prod.mk.inj hkey
        have hname : part.1 = x.1 := by
          cases hp : part.1
          cases hq : x.1
          rw [hp, hq] at hroot hindex
          simp_all
        rw [hkey, Dict.get?_insert_self] at himported
        rw [← Option.some.inj himported, hunique part hpart x hx hname]
      · rw [Dict.get?_insert_of_ne _ hkey] at himported
        exact hfiled part hpart imported himported
  · intro part _ imported himported
    rw [hempty] at himported
    cases himported

/-- What a data set answers for an import that it has a good part for. -/
lemma verifiedImport_of_importable {mappings : Dict Octets32 Octets32} {entry : ImportSegment}
    {part : Octets × List Octets} {data : BundleData}
    (hget : data.imports.get? (entry.treeRoot, entry.index) = some ⟨part.1, part.2⟩)
    (h : Importable P mappings entry part) :
    data.verifiedImport P mappings entry = .ok ⟨part.1, part.2⟩ := by
  obtain ⟨root, hroot, hverify⟩ := h.verified
  have hsizes : ¬ (part.1.length ≠ ecSegmentSize ∨
      entry.segmentIndex ≥ maximumNumberExportsWorkPackage ∨
      part.2.length > maximumProofLength) := by
    simp only [not_or, not_not, ge_iff_le, not_le, gt_iff_lt, not_lt]
    exact ⟨h.size, h.index, h.proof⟩
  rw [BundleData.verifiedImport, hget]
  refine Except.bind_eq_ok.mpr ⟨(), Except.raiseIf_eq_ok.mpr hsizes, ?_⟩
  refine Except.bind_eq_ok.mpr ⟨root, hroot, ?_⟩
  exact Except.bind_eq_ok.mpr ⟨(), Except.raiseIf_eq_ok.mpr (not_not.mpr hverify), rfl⟩

/-- The bundle of a package, from parts that are good. -/
lemma assembleBundle_of_filed (hcodec : P.codec.Documented) {package : WorkPackage} {mappings : Dict Octets32 Octets32}
    {extrinsics : List Octets} {imports : List (Octets × List Octets)} {data : BundleData}
    (hencode : ∃ encoded, package.toJamBytes P.codec = some encoded)
    (hunique : ∀ b ∈ extrinsics, ∀ b' ∈ extrinsics,
      P.blake2b256Hash b = P.blake2b256Hash b' → b = b')
    (hgood : List.Forall₂ (Importable P mappings)
      (package.items.flatMap (fun item => item.importSegments)) imports)
    (hfiled : BundleData.Filed P package extrinsics (imports.map Prod.fst) (imports.map Prod.snd)
      data) : ∃ bundle, data.assembleBundle P package mappings = .ok bundle := by
  obtain ⟨encoded, hencoded⟩ := hencode
  obtain ⟨blobs, hblobs, -⟩ := BundleData.mapM_extrinsicData_of_filed hunique hfiled
  have hzip : (imports.map Prod.fst).zip (imports.map Prod.snd) = imports := by
    rw [List.zip_map']
    exact List.map_id _
  have hverified : ∀ item ∈ package.items, ∀ entry ∈ item.importSegments, ∃ imported,
      data.verifiedImport P mappings entry = .ok imported ∧
        ∀ sibling ∈ imported.justification, sibling.length = 32 := by
    intro item hitem entry hentry
    have hmem : entry ∈ package.items.flatMap (fun item => item.importSegments) :=
      List.mem_flatMap.mpr ⟨item, hitem, hentry⟩
    obtain ⟨i, hi, rfl⟩ := List.mem_iff_getElem.mp hmem
    have hlength := hgood.length_eq
    have himportable := hgood.get (i := i) hi (by omega)
    have hpart : ((package.items.flatMap (fun item => item.importSegments))[i], imports[i]) ∈
        (package.items.flatMap (fun item => item.importSegments)).zip imports :=
      List.mem_iff_getElem.mpr ⟨i, by rw [List.length_zip]; omega, List.getElem_zip⟩
    have hget := hfiled.imports _ (by rw [hzip]; exact hpart)
    exact ⟨_, verifiedImport_of_importable hget himportable, himportable.siblings⟩
  have hitems : ∀ item ∈ package.items, ∃ verified,
      data.verifiedImports P mappings item = .ok verified ∧ ∀ imported ∈ verified,
        ∀ sibling ∈ imported.justification, sibling.length = 32 := by
    intro item hitem
    obtain ⟨verified, hok⟩ := Except.exists_mapM_eq_ok
      (fun entry hentry => (hverified item hitem entry hentry).imp fun _ h => h.1)
    refine ⟨verified, hok, fun imported himported => ?_⟩
    obtain ⟨entry, hentry, hentryOk⟩ := Except.exists_of_mem_mapM hok imported himported
    obtain ⟨imported', hok', hsiblings⟩ := hverified item hitem entry hentry
    obtain rfl := Except.ok.inj (hok'.symm.trans hentryOk)
    exact hsiblings
  obtain ⟨segments, hsegments⟩ : ∃ segments,
      package.items.mapM (data.importSegments P mappings) = .ok segments := by
    refine Except.exists_mapM_eq_ok (fun item hitem => ?_)
    obtain ⟨verified, hok, -⟩ := hitems item hitem
    exact ⟨_, Except.bind_eq_ok.mpr ⟨verified, hok, rfl⟩⟩
  obtain ⟨proofs, hproofs⟩ : ∃ proofs,
      package.items.mapM (data.encodedJustifications P mappings) = .ok proofs := by
    refine Except.exists_mapM_eq_ok (fun item hitem => ?_)
    obtain ⟨verified, hok, hsiblings⟩ := hitems item hitem
    have hjustifications : data.importJustifications P mappings item =
        .ok (verified.map (fun imported => imported.justification)) :=
      Except.bind_eq_ok.mpr ⟨verified, hok, rfl⟩
    obtain ⟨encodings, hencodings⟩ : ∃ encodings,
        (verified.map (fun imported => imported.justification)).mapM
          (fun proof => orRaise (encodeVec P.codec P.codec.h256 proof)) = .ok encodings := by
      refine Except.exists_mapM_eq_ok (fun proof hproof => ?_)
      obtain ⟨imported, himported, rfl⟩ := List.mem_map.mp hproof
      exact ⟨_, congrArg orRaise (encodeVec_h256 hcodec (hsiblings imported himported))⟩
    exact ⟨encodings, Except.bind_eq_ok.mpr ⟨_, hjustifications, hencodings⟩⟩
  have hfirst : orRaise (package.toJamBytes P.codec) = .ok encoded :=
    BundleData.orRaise_eq_ok.mpr hencoded
  refine ⟨encoded ++ blobs.flatten.flatten ++ segments.flatten.flatten ++ proofs.flatten.flatten, ?_⟩
  rw [BundleData.assembleBundle, hfirst, Except.ok_bind, hblobs, Except.ok_bind, hsegments,
    Except.ok_bind, hproofs]
  rfl

lemma extrinsicPart_eq_ok {packageHash : Octets32} {manifest : WorkItemExtrinsic} {blob : Octets} :
    extrinsicPart collector packageHash manifest = .ok blob ↔
      collector.get packageHash manifest.hash manifest.len = some blob := by
  unfold extrinsicPart
  split
  · next hget => rw [hget, Except.ok.injEq, Option.some.injEq]
  · next hget =>
    rw [hget]
    exact iff_of_false (fun h => by cases h) (fun h => by cases h)

lemma extrinsicPart_eq_error {packageHash : Octets32} {manifest : WorkItemExtrinsic} {e : RefineError}
    (h : extrinsicPart collector packageHash manifest = .error e) :
    e = .dataUnavailable "extrinsic data is unavailable" := by
  unfold extrinsicPart at h
  split at h
  · cases h
  · cases h
    rfl

/-- The reasons for which an item is not gathered. -/
lemma itemParts_eq_error {packageHash : Octets32} {mappings : Dict Octets32 Octets32} {item : WorkItem}
    (hsound : ∀ store ∈ d3lStore, store.Sound D P.blake2b256Hash)
    (hroots : ∀ entry ∈ item.importSegments, ∃ root,
      resolveImportRoot mappings (importReference entry) = .ok root) {e : RefineError}
    (h : itemParts P D d3lStore collector packageHash mappings item = .error e) :
    (∃ message, e = .dataUnavailable message) ∨
      e = .report (.process "import segment index out of range") := by
  rw [itemParts] at h
  cases hextrinsics : item.extrinsic.mapM (extrinsicPart collector packageHash) with
  | error e' =>
    rw [hextrinsics] at h
    cases h
    obtain ⟨manifest, -, hmanifest⟩ := Except.exists_of_mapM_eq_error hextrinsics
    exact .inl ⟨_, extrinsicPart_eq_error hmanifest⟩
  | ok extrinsics =>
    rw [hextrinsics, Except.ok_bind] at h
    cases himports : item.importSegments.mapM (importPart P D d3lStore mappings) with
    | ok imports =>
      rw [himports] at h
      cases h
    | error e' =>
      rw [himports] at h
      cases h
      obtain ⟨entry, hentry, hpart⟩ := Except.exists_of_mapM_eq_error himports
      rcases importPart_cases hsound (hroots entry hentry) with hcase | hcase | ⟨part, hcase, -⟩
      · exact .inl ⟨_, Except.error.inj (hpart.symm.trans hcase)⟩
      · exact .inr (Except.error.inj (hpart.symm.trans hcase))
      · rw [hpart] at hcase
        cases hcase

/-- Parts that were gathered are accepted as the parts of a bundle, and the bundle can be assembled. -/
lemma fromParts_of_parts (hcodec : P.codec.Documented)
    (hsound : ∀ store ∈ d3lStore, store.Sound D P.blake2b256Hash)
    (hcollector : collector.Sound P.blake2b256Hash) {package : WorkPackage}
    {mappings : Dict Octets32 Octets32}
    (hencode : ∃ encoded, package.toJamBytes P.codec = some encoded)
    (hroots : ∀ entry ∈ package.items.flatMap (fun item => item.importSegments), ∃ root,
      resolveImportRoot mappings (importReference entry) = .ok root)
    {packageHash : Octets32} {extrinsics : List Octets} {imports : List (Octets × List Octets)}
    (hextrinsics : (package.items.flatMap (fun item => item.extrinsic)).mapM
      (extrinsicPart collector packageHash) = .ok extrinsics)
    (himports : (package.items.flatMap (fun item => item.importSegments)).mapM
      (importPart P D d3lStore mappings) = .ok imports) :
    ∃ data bundle, BundleData.fromParts P package extrinsics (imports.map Prod.fst)
        (imports.map Prod.snd) = .ok data ∧ data.assembleBundle P package mappings = .ok bundle := by
  have hblobs := (Except.mapM_eq_ok_iff.mp hextrinsics).imp
    (fun manifest blob hblob => hcollector.get (extrinsicPart_eq_ok.mp hblob))
  have hparted := Except.mapM_eq_ok_iff.mp himports
  have hgood : List.Forall₂ (Importable P mappings)
      (package.items.flatMap (fun item => item.importSegments)) imports := by
    refine List.forall₂_iff_zip.mpr ⟨hparted.length_eq, fun {entry part} hmem => ?_⟩
    have hpart := (List.forall₂_iff_zip.mp hparted).2 hmem
    rcases importPart_cases hsound (hroots entry (List.of_mem_zip hmem).1) with
      hcase | hcase | ⟨part', hcase, hgood⟩
    · rw [hpart] at hcase
      cases hcase
    · rw [hpart] at hcase
      cases hcase
    · rwa [← Except.ok.inj (hpart.symm.trans hcase)] at hgood
  have hunique : ∀ b ∈ extrinsics, ∀ b' ∈ extrinsics,
      P.blake2b256Hash b = P.blake2b256Hash b' → b = b' := by
    intro b hb b' hb' hhash
    obtain ⟨manifest, -, hpart⟩ := Except.exists_of_mem_mapM hextrinsics b hb
    obtain ⟨manifest', -, hpart'⟩ := Except.exists_of_mem_mapM hextrinsics b' hb'
    have hget := extrinsicPart_eq_ok.mp hpart
    have hget' := extrinsicPart_eq_ok.mp hpart'
    rw [← (hcollector.get hget).1] at hget
    rw [← (hcollector.get hget').1, ← hhash] at hget'
    exact WorkpackageExtrinsicCollector.get_unique hget hget'
  have hzip : (imports.map Prod.fst).zip (imports.map Prod.snd) = imports := by
    rw [List.zip_map']
    exact List.map_id _
  obtain ⟨filed, hfiled, hempty⟩ := exists_foldlM_addExtrinsic hblobs BundleData.empty
  obtain ⟨data, hdata⟩ : ∃ data, ((package.items.flatMap (fun item => item.importSegments)).zip
      imports).foldlM BundleData.addImport filed = .ok data := by
    refine exists_foldlM_addImport (fun part hpart part' hpart' hname => ?_) hempty
    have h := (List.forall₂_iff_zip.mp hparted).2 hpart
    have h' := (List.forall₂_iff_zip.mp hparted).2 hpart'
    exact Except.ok.inj (h.symm.trans (hname ▸ h'))
  have hfromParts : BundleData.fromParts P package extrinsics (imports.map Prod.fst)
      (imports.map Prod.snd) = .ok data := by
    refine Except.bind_eq_ok.mpr ⟨(), Except.raiseIf_eq_ok.mpr (not_not.mpr hblobs.length_eq.symm), ?_⟩
    refine Except.bind_eq_ok.mpr ⟨(), Except.raiseIf_eq_ok.mpr ?_, ?_⟩
    · simp only [List.length_map, hparted.length_eq, ne_eq, not_true_eq_false, or_self,
        not_false_eq_true]
    · refine Except.bind_eq_ok.mpr ⟨filed, hfiled, ?_⟩
      rw [hzip]
      exact hdata
  obtain ⟨bundle, hbundle⟩ := assembleBundle_of_filed hcodec hencode hunique hgood
    (BundleData.filed_of_fromParts hfromParts)
  exact ⟨data, bundle, hfromParts, hbundle⟩

/-- Nothing stops the gathering for a package but data that are not there, or an import beyond the
segments of its tree; and of what is gathered the bundle of the package can be assembled. -/
lemma bundleData_cases (hcodec : P.codec.Documented)
    (hsound : ∀ store ∈ d3lStore, store.Sound D P.blake2b256Hash)
    (hcollector : collector.Sound P.blake2b256Hash) {package : WorkPackage}
    {mappings : Dict Octets32 Octets32}
    (hencode : ∃ encoded, package.toJamBytes P.codec = some encoded)
    (hroots : ∀ entry ∈ package.items.flatMap (fun item => item.importSegments), ∃ root,
      resolveImportRoot mappings (importReference entry) = .ok root) (packageHash : Octets32) :
    (∃ message, bundleData P D d3lStore collector packageHash package mappings =
        .error (.dataUnavailable message)) ∨
      bundleData P D d3lStore collector packageHash package mappings =
        .error (.report (.process "import segment index out of range")) ∨
      ∃ data bundle, bundleData P D d3lStore collector packageHash package mappings = .ok data ∧
        data.assembleBundle P package mappings = .ok bundle := by
  unfold bundleData
  cases hparts : package.items.mapM (itemParts P D d3lStore collector packageHash mappings) with
  | error e =>
    obtain ⟨item, hitem, hraised⟩ := Except.exists_of_mapM_eq_error hparts
    rcases itemParts_eq_error hsound
        (fun entry hentry => hroots entry (List.mem_flatMap.mpr ⟨item, hitem, hentry⟩)) hraised with
      ⟨message, rfl⟩ | rfl
    · exact .inl ⟨message, rfl⟩
    · exact .inr (.inl rfl)
  | ok parts =>
    obtain ⟨hextrinsics, himports⟩ := parts_of_items hparts
    obtain ⟨data, bundle, hdata, hbundle⟩ :=
      fromParts_of_parts hcodec hsound hcollector hencode hroots hextrinsics himports
    refine .inr (.inr ⟨data, bundle, ?_, hbundle⟩)
    simp only [Except.ok_bind, hdata, Except.mapError]

end Gathered

end Refinement
