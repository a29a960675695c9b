import Pyjamaz.Refinement.Report

/-!
# Page proofs

Beside the exported segments, the availability data has one segment for every 64 of them: the hashes
of these segments, and the way from their subtree to the root of the segment tree.  With the page at
hand the proof of each of its segments can be rebuilt.

`pagedProofSegments_root` says that a page is what it should be: hashing its leaves up to one node, and
then along its path by the bits of the number of the page, gives the root of all exports.  A tree of at
most 64 leaves is one page and has an empty path; the last page of a larger tree is filled up with
zero hashes, as the tree is.
-/

namespace Refinement

open Octets Merkle

/-! ## What a page says -/

/-- The depth of the subtree of a page in the segment tree. -/
def pageDepth (exports : List Octets) : ℕ := TwosComplement.bitLength (exports.length - 1) - 6

/-- The number of leaves below a page. -/
def pageSubtreeSize (exports : List Octets) : ℕ :=
  newSize ceilLog2 exports.length / 2 ^ pageDepth exports

/-- The hashes of the segments of a page. -/
def pageLeaves (hash : Octets → Octets32) (exports : List Octets) (page : ℕ) : List Octets :=
  ((exports.drop (64 * page)).take 64).map (fun segment => (hash (leafTag ++ segment)).toList)

/-- The root that the leaves and the path of a page lead to. -/
def pageRoot (hash : Octets → Octets32) (size page : ℕ) (path leaves : List Octets) : Octets :=
  (path.foldr (ascend hash)
    (node hash (leaves ++ List.replicate (size - leaves.length) zeros.toList), page)).1

/-- A list of hashes with their number. -/
def hashVec (codec : Codec) (hashes : List Octets) : Octets :=
  codec.varInt hashes.length ++ hashes.flatten

/-! ## Sizes -/

lemma bitLength_pred {n : ℕ} (h : 1 ≤ n) :
    TwosComplement.bitLength (n - 1) = Nat.clog 2 (max 1 n) := by
  rw [max_eq_right h]
  refine eq_of_forall_ge_iff (fun k => ?_)
  rw [TwosComplement.bitLength, Nat.size_le, Nat.clog_le_iff_le_pow Nat.one_lt_two]
  omega

/-- Hashes are encoded as they are. -/
lemma encodeVec_h256 {codec : Codec} (hcodec : codec.Documented) {hashes : List Octets}
    (h : ∀ hash ∈ hashes, hash.length = 32) :
    encodeVec codec codec.h256 hashes = some (hashVec codec hashes) := by
  refine (encodeVec_eq_some hcodec).mpr ⟨hashes.flatten, ?_, rfl⟩
  induction hashes with
  | nil => rfl
  | cons hash hashes ih =>
    have hhead := h hash (List.mem_cons_self ..)
    have htail := ih (fun x hx => h x (List.mem_cons_of_mem hash hx))
    exact encodeItems_cons.mpr ⟨hash, hcodec.h256 hash hhead, hashes.flatten, htail, rfl⟩

lemma length_hashVec {codec : Codec} {hashes : List Octets}
    (h : ∀ hash ∈ hashes, hash.length = 32) :
    (hashVec codec hashes).length = (codec.varInt hashes.length).length + 32 * hashes.length := by
  have hsum : (hashes.map List.length).sum = hashes.length * 32 := by
    rw [List.map_congr_left h, List.map_const', List.sum_replicate_nat]
  rw [hashVec, List.length_append, List.length_flatten, hsum, Nat.mul_comm]

/-- Padding fills up one segment. -/
lemma length_zeroPad {alignment : ℕ} {data : Octets} (hpos : 0 < data.length)
    (hle : data.length ≤ alignment) : (zeroPad alignment data).length = alignment := by
  rw [zeroPad, List.length_append, List.length_replicate]
  rcases Nat.lt_or_eq_of_le hle with hlt | heq
  · rw [Nat.mod_eq_of_lt hlt, Nat.mod_eq_of_lt (by omega)]
    omega
  · rw [heq, Nat.mod_self, Nat.sub_zero, Nat.mod_self, Nat.add_zero]

lemma length_pageLeaves (hash : Octets → Octets32) (exports : List Octets) (page : ℕ) :
    (pageLeaves hash exports page).length = min 64 (exports.length - 64 * page) := by
  rw [pageLeaves, List.length_map, List.length_take, List.length_drop]

lemma length_of_mem_pageLeaves {hash : Octets → Octets32} {exports : List Octets} {page : ℕ} :
    ∀ leaf ∈ pageLeaves hash exports page, leaf.length = 32 := by
  intro leaf hleaf
  obtain ⟨segment, -, rfl⟩ := List.mem_map.mp hleaf
  exact Vector.length_toList

/-! ## The path of a page -/

/-- The path in a page: the first siblings of its first segment. -/
def pagePath (hash : Octets → Octets32) (exports : List Octets) (page : ℕ) : List Octets :=
  (descend hash (constancyPreprocessor ceilLog2 hash exports) (page * 64)).take (pageDepth exports)

lemma length_of_mem_pagePath {hash : Octets → Octets32} {exports : List Octets} {page : ℕ}
    (hpage : 64 * page < exports.length) :
    ∀ sibling ∈ pagePath hash exports page, sibling.length = 32 := by
  intro sibling hsibling
  have hle := length_le_newSize exports
  exact length_of_mem_descend hle (show page * 64 < newSize ceilLog2 _ by omega) sibling (List.mem_of_mem_take hsibling)

/-- The leaves of a page, filled up, are those of its subtree. -/
lemma pageLeaves_append {hash : Octets → Octets32} {exports : List Octets} {page depth : ℕ} :
    pageLeaves hash exports page ++
        List.replicate (2 ^ depth - (pageLeaves hash exports page).length) zeros.toList =
      leafNodes hash depth ((exports.drop (64 * page)).take 64) := by
  rw [leafNodes, pageLeaves, List.length_map]

/-- The leaves of a page and its path lead to the root of all exports. -/
lemma pageRoot_eq {hash : Octets → Octets32} {exports : List Octets} {page : ℕ}
    (hpage : 64 * page < exports.length) :
    pageRoot hash (pageSubtreeSize exports) page (pagePath hash exports page)
      (pageLeaves hash exports page) = segmentRoot ceilLog2 hash exports := by
  have hle : exports.length ≤ 2 ^ Nat.clog 2 (max 1 exports.length) := length_le_newSize exports
  have hbits : TwosComplement.bitLength (exports.length - 1) = Nat.clog 2 (max 1 exports.length) :=
    bitLength_pred (by omega)
  have hnodes : constancyPreprocessor ceilLog2 hash exports =
      leafNodes hash (Nat.clog 2 (max 1 exports.length)) exports := rfl
  rw [pageRoot, pagePath, pageSubtreeSize, pageDepth, hbits, newSize, segmentRoot, hnodes, ceilLog2]
  generalize Nat.clog 2 (max 1 exports.length) = depth at hle ⊢
  rcases Nat.lt_or_ge depth 6 with hsmall | hlarge
  · -- a small tree is one page
    have hpow : 2 ^ depth ≤ 2 ^ 6 := Nat.pow_le_pow_right Nat.two_pos hsmall.le
    obtain rfl : page = 0 := by omega
    rw [Nat.sub_eq_zero_of_le hsmall.le, pow_zero, Nat.div_one, List.take_zero, List.foldr_nil,
      pageLeaves_append, Nat.mul_zero, List.drop_zero,
      List.take_of_length_le (show exports.length ≤ 64 from hle.trans hpow)]
  · obtain ⟨k, rfl⟩ := Nat.exists_eq_add_of_le hlarge
    have hk : page < 2 ^ k := by
      rw [pow_add] at hle
      omega
    have hsize : 2 ^ (6 + k) / 2 ^ k = 2 ^ 6 := by
      rw [pow_add, Nat.mul_div_cancel _ (Nat.two_pow_pos k)]
    rw [Nat.add_sub_cancel_left, hsize, pageLeaves_append, Nat.mul_comm 64 page]
    exact congrArg Prod.fst (foldr_ascend_take 6 k hle hk 0)

/-- A page has at most six siblings. -/
lemma length_pagePath_le {hash : Octets → Octets32} {exports : List Octets} {page : ℕ}
    (h : exports.length ≤ 3072) : (pagePath hash exports page).length ≤ 6 := by
  have hsize : TwosComplement.bitLength (exports.length - 1) ≤ 12 :=
    Nat.size_le.mpr (by omega)
  rw [pagePath, List.length_take, pageDepth]
  omega

/-! ## The pages -/

/-- A page is one segment. -/
lemma length_page {codec : Codec} (hcodec : codec.Documented) {hash : Octets → Octets32}
    {exports : List Octets} {page : ℕ} (hpage : 64 * page < exports.length)
    (h : exports.length ≤ 3072) :
    (zeroPad ecSegmentSize (hashVec codec (pagePath hash exports page) ++
      hashVec codec (pageLeaves hash exports page))).length = 4104 := by
  have hpath : (pagePath hash exports page).length ≤ 6 := length_pagePath_le h
  have hleaves := length_pageLeaves hash exports page
  have hprefixPath := hcodec.varInt 0 (by decide) (pagePath hash exports page).length (by omega)
  have hprefixLeaves := hcodec.varInt 0 (by decide) (pageLeaves hash exports page).length (by omega)
  have hlength : (hashVec codec (pagePath hash exports page) ++
      hashVec codec (pageLeaves hash exports page)).length =
        (codec.varInt (pagePath hash exports page).length).length +
          32 * (pagePath hash exports page).length +
          ((codec.varInt (pageLeaves hash exports page).length).length +
            32 * (pageLeaves hash exports page).length) := by
    rw [List.length_append, length_hashVec (length_of_mem_pagePath hpage),
      length_hashVec length_of_mem_pageLeaves]
  exact length_zeroPad (by omega) (by rw [ecSegmentSize]; omega)

/-- The pages, one after another. -/
lemma pagedProofSegments_eq (P : Primitives) (hcodec : P.codec.Documented) (exports : List Octets) :
    pagedProofSegments P exports = .ok ((List.range ((exports.length + 63) / 64)).map (fun page =>
      zeroPad ecSegmentSize (hashVec P.codec (pagePath P.blake2b256Hash exports page) ++
        hashVec P.codec (pageLeaves P.blake2b256Hash exports page)))) := by
  refine Except.mapM_eq_ok_iff.mpr ?_
  rw [List.forall₂_map_right_iff, List.forall₂_same]
  intro page hpage
  have hlt : 64 * page < exports.length := by
    have := List.mem_range.mp hpage
    omega
  have htrace : trace ceilLog2 P.blake2b256Hash exports ((page * 64 : ℕ) : ℤ) =
      some (descend P.blake2b256Hash (constancyPreprocessor ceilLog2 P.blake2b256Hash exports)
        (page * 64)) := by
    rw [trace, if_pos ⟨Int.natCast_nonneg _, by omega⟩, Int.toNat_natCast]
  have hleaves : ((exports.map (fun segment =>
      (P.blake2b256Hash (leafTag ++ segment)).toList)).drop (page * 64)).take 64 =
        pageLeaves P.blake2b256Hash exports page := by
    rw [pageLeaves, List.map_take, List.map_drop, Nat.mul_comm 64 page]
  have hway : encodeVec P.codec P.codec.h256 (pagePath P.blake2b256Hash exports page) =
      some (hashVec P.codec (pagePath P.blake2b256Hash exports page)) :=
    encodeVec_h256 hcodec (length_of_mem_pagePath hlt)
  have hhashes : encodeVec P.codec P.codec.h256 (pageLeaves P.blake2b256Hash exports page) =
      some (hashVec P.codec (pageLeaves P.blake2b256Hash exports page)) :=
    encodeVec_h256 hcodec length_of_mem_pageLeaves
  rw [pagePath, pageDepth] at hway
  simp only [htrace, hleaves, hhashes, pure_bind, orRaise]
  rw [hway]
  rfl

/-- There is a page for every 64 exports, each one segment long, with the hashes of its exports and a
path that lead to the root of all exports. -/
theorem pagedProofSegments_root (P : Primitives) (hcodec : P.codec.Documented)
    (exports : List Octets) (hlength : exports.length ≤ maximumNumberExportsWorkPackage) :
    ∃ pages, pagedProofSegments P exports = .ok pages ∧
      pages.length = (exports.length + 63) / 64 ∧
      ∀ (page : ℕ) (h : page < pages.length), pages[page].length = ecSegmentSize ∧
        ∃ path leaves,
          pages[page] = zeroPad ecSegmentSize (hashVec P.codec path ++ hashVec P.codec leaves) ∧
          leaves = ((exports.drop (64 * page)).take 64).map
            (fun segment => (P.blake2b256Hash (leafTag ++ segment)).toList) ∧
          pageRoot P.blake2b256Hash (pageSubtreeSize exports) page path leaves =
            segmentRoot ceilLog2 P.blake2b256Hash exports := by
  refine ⟨_, pagedProofSegments_eq P hcodec exports, by rw [List.length_map, List.length_range], ?_⟩
  intro page h
  rw [List.length_map, List.length_range] at h
  have hlt : 64 * page < exports.length := by omega
  rw [List.getElem_map, List.getElem_range]
  exact ⟨length_page hcodec hlt hlength, pagePath P.blake2b256Hash exports page,
    pageLeaves P.blake2b256Hash exports page, rfl, rfl, pageRoot_eq hlt⟩

/-- Seventy exports have two pages, the second with six leaves. -/
theorem pagedProofSegments_seventy : ∃ pages,
    pagedProofSegments samplePrimitives (List.replicate 70 (List.replicate 4104 0)) = .ok pages ∧
      pages.length = 2 := by
  obtain ⟨pages, hpages, hlength, -⟩ := pagedProofSegments_root samplePrimitives
    Codec.documented_natural (List.replicate 70 (List.replicate 4104 0)) (by decide)
  exact ⟨pages, hpages, by rw [hlength, List.length_replicate]⟩

end Refinement
