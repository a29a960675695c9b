import Mathlib.Data.Nat.Log
import Pyjamaz.Library.HashTree
import Pyjamaz.Library.Octets

/-!
# Segment proofs

Exported segments are committed to by a binary tree whose depth depends on their number alone: the
hashes of the segments are filled up with zeros to a power of two.  `trace` walks down the tree and
collects the hashes beside the path to a segment, and `verify` walks up from the segment by the bits
of its index.

`segment_proofs` says that what `trace` answers is accepted, and that acceptance binds: from a proof
that is accepted for anything else `proofBreak` computes where the hash function was broken.  The tree
is `HashTree.complete`, and `root` and `trace` are its digest and its siblings (`node_leafNodes`,
`descend_leafNodes`), so the results of the library about audit paths apply.

The padded size is a power of two whose exponent the source computes by a logarithm in floating point,
rounded up: `math.log(2 ** 29, 2)` is a little more than 29, so a list of that length is padded to twice
its length.  The rounded logarithm is therefore a parameter, `ceilLog`, and all that is asked of it is
that the padded size is not below the length; rounding could only break this from `2 ^ 49` segments on.
Below `2 ^ 29` it is exact (`ceilLog2`).  The hash function is a parameter as well.
-/

namespace Merkle

open Octets

/-! ## The tree -/

/-- `b'leaf'` -/
def leafTag : Octets := [0x6c, 0x65, 0x61, 0x66]

/-- `b'node'` -/
def nodeTag : Octets := [0x6e, 0x6f, 0x64, 0x65]

/-- `b'\0' * 32` -/
def zeros : Octets32 := Vector.replicate 32 0

/-- `BinaryMerkleTree.node` -/
def node (hash : Octets → Octets32) (nodes : List Octets) : Octets :=
  match nodes with
  | [] => zeros.toList
  | [value] => value
  | a :: b :: rest =>
    let limit := ((a :: b :: rest).length + 1) / 2
    (hash (nodeTag ++ node hash ((a :: b :: rest).take limit) ++
      node hash ((a :: b :: rest).drop limit))).toList
termination_by nodes.length
decreasing_by
  · simp only [List.length_take, List.length_cons]
    omega
  · simp only [List.length_drop, List.length_cons]
    omega

/-- `new_size`, where `ceilLog n` is what `ceil(math.log(n, 2))` answers. -/
def newSize (ceilLog : ℕ → ℕ) (length : ℕ) : ℕ := 2 ^ ceilLog (max 1 length)

/-- `ceil(math.log(n, 2))` for `n` below `2 ^ 29`, where rounding does not reach the next integer. -/
def ceilLog2 : ℕ → ℕ := Nat.clog 2

/-- `constancy_preprocessor` -/
def constancyPreprocessor (ceilLog : ℕ → ℕ) (hash : Octets → Octets32) (data : List Octets) :
    List Octets :=
  data.map (fun v => (hash (leafTag ++ v)).toList) ++
    List.replicate (newSize ceilLog data.length - data.length) zeros.toList

/-- `ConstantDepthMerkleTree.root` -/
def segmentRoot (ceilLog : ℕ → ℕ) (hash : Octets → Octets32) (data : List Octets) : Octets :=
  node hash (constancyPreprocessor ceilLog hash data)

/-! ## Proofs -/

/-- The loop of `trace`. -/
def descend (hash : Octets → Octets32) (nodes : List Octets) (index : ℕ) : List Octets :=
  if _h : 1 < nodes.length then
    let split := nodes.length / 2
    if index < split then node hash (nodes.drop split) :: descend hash (nodes.take split) index
    else node hash (nodes.take split) :: descend hash (nodes.drop split) (index - split)
  else []
termination_by nodes.length
decreasing_by
  · simp only [List.length_take]
    omega
  · simp only [List.length_drop]
    omega

/-- `ConstantDepthMerkleTree.trace`, with `none` for `IndexError`. -/
def trace (ceilLog : ℕ → ℕ) (hash : Octets → Octets32) (data : List Octets) (index : ℤ) :
    Option (List Octets) :=
  if 0 ≤ index ∧ index < data.length then
    some (descend hash (constancyPreprocessor ceilLog hash data) index.toNat)
  else none

/-- The body of the loop of `verify`. -/
def ascend (hash : Octets → Octets32) (sibling : Octets) (state : Octets × ℕ) : Octets × ℕ :=
  let (value, index) := state
  let pair := if index &&& 1 ≠ 0 then sibling ++ value else value ++ sibling
  ((hash (nodeTag ++ pair)).toList, index >>> 1)

/-- `ConstantDepthMerkleTree.verify` -/
def verify (hash : Octets → Octets32) (segment : Octets) (index : ℤ) (proof : List Octets)
    (root : Octets) : Bool :=
  if ¬ (0 ≤ index ∧ index < 1 <<< proof.length) ∨ proof.any (fun h => h.length ≠ 32) then false
  else
    let (value, _) := proof.foldr (ascend hash) ((hash (leafTag ++ segment)).toList, index.toNat)
    value == root

/-! ## Messages -/

/-- The nodes of the tree as messages. -/
def segmentEncoding : NodeEncoding Octets Octets Octets32 Octets32 where
  leaf segment := leafTag ++ segment
  branch left right := nodeTag ++ left.toList ++ right.toList
  null := zeros
  keep := id

/-- Segments with one leaf are equal, so there is nothing to break in two leaves. -/
lemma segmentEncoding_separates (hash : Octets → Octets32) :
    segmentEncoding.Separates hash (fun _ _ => .null []) where
  leaf_ne_branch := by
    intro e d d' h
    have htags : leafTag = nodeTag :=
      (List.append_inj (h.trans (List.append_assoc _ _ _)) rfl).1
    exact absurd htags (by decide)
  branch_inj := by
    intro d₁ d₂ d₁' d₂' h
    obtain ⟨hleft, hright⟩ := List.append_inj h (by simp)
    exact ⟨Vector.toList_inj.mp (List.append_cancel_left hleft), Vector.toList_inj.mp hright⟩
  leafBreak_valid := fun hne h => absurd (List.append_cancel_left h) hne

/-! ## The root as a digest -/

/-- The padded leaves of the tree of a given depth. -/
def leafNodes (hash : Octets → Octets32) (depth : ℕ) (data : List Octets) : List Octets :=
  data.map (fun v => (hash (leafTag ++ v)).toList) ++
    List.replicate (2 ^ depth - data.length) zeros.toList

variable {hash : Octets → Octets32}

lemma length_leafNodes {depth : ℕ} {data : List Octets} (h : data.length ≤ 2 ^ depth) :
    (leafNodes hash depth data).length = 2 ^ depth := by
  rw [leafNodes, List.length_append, List.length_map, List.length_replicate]
  omega

lemma take_leafNodes (depth : ℕ) (data : List Octets) :
    (leafNodes hash (depth + 1) data).take (2 ^ depth) =
      leafNodes hash depth (data.take (2 ^ depth)) := by
  rw [leafNodes, leafNodes, List.take_append, List.map_take, List.length_map, List.take_replicate,
    List.length_take, Nat.pow_succ]
  congr 2
  omega

lemma drop_leafNodes (depth : ℕ) (data : List Octets) :
    (leafNodes hash (depth + 1) data).drop (2 ^ depth) =
      leafNodes hash depth (data.drop (2 ^ depth)) := by
  rw [leafNodes, leafNodes, List.drop_append, List.map_drop, List.length_map, List.drop_replicate,
    List.length_drop, Nat.pow_succ]
  congr 2
  omega

/-- The two halves of the tree hold the two halves of the data. -/
lemma length_halves {depth : ℕ} {data : List Octets} (h : data.length ≤ 2 ^ (depth + 1)) :
    (data.take (2 ^ depth)).length ≤ 2 ^ depth ∧ (data.drop (2 ^ depth)).length ≤ 2 ^ depth := by
  rw [Nat.pow_succ] at h
  rw [List.length_take, List.length_drop]
  omega

lemma node_of_lt {nodes : List Octets} (h : 1 < nodes.length) :
    node hash nodes = (hash (nodeTag ++ node hash (nodes.take ((nodes.length + 1) / 2)) ++
      node hash (nodes.drop ((nodes.length + 1) / 2)))).toList := by
  match nodes with
  | [] => exact absurd h (by simp)
  | [_] => exact absurd h (by simp)
  | a :: b :: rest => rw [node]

lemma one_lt_length_leafNodes {depth : ℕ} {data : List Octets} (h : data.length ≤ 2 ^ (depth + 1)) :
    1 < (leafNodes hash (depth + 1) data).length := by
  rw [length_leafNodes h]
  exact Nat.one_lt_two_pow (Nat.succ_ne_zero depth)

/-- The node over the padded leaves is made of the nodes over their halves. -/
lemma node_leafNodes_succ {depth : ℕ} {data : List Octets} (h : data.length ≤ 2 ^ (depth + 1)) :
    node hash (leafNodes hash (depth + 1) data) =
      (hash (nodeTag ++ node hash (leafNodes hash depth (data.take (2 ^ depth))) ++
        node hash (leafNodes hash depth (data.drop (2 ^ depth))))).toList := by
  have hhalf : ((leafNodes hash (depth + 1) data).length + 1) / 2 = 2 ^ depth := by
    rw [length_leafNodes h, Nat.pow_succ]
    omega
  rw [node_of_lt (one_lt_length_leafNodes h), hhalf, take_leafNodes, drop_leafNodes]

/-- The node over the padded leaves is the digest of the tree. -/
lemma node_leafNodes (depth : ℕ) : ∀ {data : List Octets}, data.length ≤ 2 ^ depth →
    node hash (leafNodes hash depth data) =
      ((HashTree.complete depth data).digest hash segmentEncoding).toList := by
  induction depth with
  | zero =>
    intro data h
    match data with
    | [] =>
      rw [leafNodes, List.map_nil, List.nil_append, List.length_nil, pow_zero, Nat.sub_zero,
        List.replicate_one, node]
      rfl
    | [v] =>
      rw [leafNodes, List.map_singleton, List.length_singleton, pow_zero, Nat.sub_self,
        List.replicate_zero, List.append_nil, node]
      rfl
  | succ depth ih =>
    intro data h
    obtain ⟨htake, hdrop⟩ := length_halves h
    rw [node_leafNodes_succ h, ih htake, ih hdrop]
    rfl

/-! ## Traces as siblings -/

/-- The last bits of an index, the most significant one first. -/
def directions : ℕ → ℕ → List Bool
  | 0, _ => []
  | depth + 1, index => index.testBit depth :: directions depth index

@[simp] lemma length_directions (depth index : ℕ) : (directions depth index).length = depth := by
  induction depth with
  | zero => rfl
  | succ depth ih => rw [directions, List.length_cons, ih]

lemma position_directions (depth index : ℕ) :
    HashTree.position (directions depth index) = index % 2 ^ depth := by
  induction depth with
  | zero => rw [pow_zero, Nat.mod_one]; rfl
  | succ depth ih =>
    rw [directions, HashTree.position, ih, length_directions, Nat.mod_pow_succ,
      Nat.testBit_eq_decide_div_mod_eq]
    rcases Nat.mod_two_eq_zero_or_one (index / 2 ^ depth) with hbit | hbit
    · simp [hbit]
    · simp [hbit, Nat.add_comm]

/-- A first bit that is zero can be left out, and so can a one with its weight. -/
lemma directions_sub (depth : ℕ) {index : ℕ} (h : 2 ^ depth ≤ index) :
    directions depth (index - 2 ^ depth) = directions depth index := by
  have hbits : ∀ k ≤ depth, directions k (index - 2 ^ depth) = directions k index := by
    intro k
    induction k with
    | zero => exact fun _ => rfl
    | succ k ih =>
      intro hk
      have hbit : (index - 2 ^ depth + 2 ^ depth).testBit k = (index - 2 ^ depth).testBit k := by
        rw [Nat.add_comm, Nat.testBit_two_pow_add_gt hk]
      rw [directions, directions, ih (by omega), ← hbit, Nat.sub_add_cancel h]
  exact hbits depth (le_refl _)

/-- The first turn of the loop of `trace`. -/
lemma descend_leafNodes_succ {depth : ℕ} {data : List Octets} (h : data.length ≤ 2 ^ (depth + 1))
    (index : ℕ) :
    descend hash (leafNodes hash (depth + 1) data) index =
      if index < 2 ^ depth then
        node hash (leafNodes hash depth (data.drop (2 ^ depth))) ::
          descend hash (leafNodes hash depth (data.take (2 ^ depth))) index
      else
        node hash (leafNodes hash depth (data.take (2 ^ depth))) ::
          descend hash (leafNodes hash depth (data.drop (2 ^ depth))) (index - 2 ^ depth) := by
  have hhalf : (leafNodes hash (depth + 1) data).length / 2 = 2 ^ depth := by
    rw [length_leafNodes h, Nat.pow_succ]
    omega
  rw [descend, dif_pos (one_lt_length_leafNodes h)]
  simp only [hhalf, take_leafNodes, drop_leafNodes]

/-- The loop of `trace` collects the digests beside the path. -/
lemma descend_leafNodes (depth : ℕ) : ∀ {data : List Octets} {index : ℕ},
    data.length ≤ 2 ^ depth → index < 2 ^ depth →
      descend hash (leafNodes hash depth data) index =
        ((HashTree.complete depth data).siblings hash segmentEncoding
          (directions depth index)).map Vector.toList := by
  induction depth with
  | zero =>
    intro data index h _
    have hlength : (leafNodes hash 0 data).length = 2 ^ 0 := length_leafNodes h
    rw [descend, dif_neg (by rw [hlength]; simp)]
    match data with
    | [] => rfl
    | [_] => rfl
  | succ depth ih =>
    intro data index h hindex
    obtain ⟨htake, hdrop⟩ := length_halves h
    rw [descend_leafNodes_succ h, HashTree.complete, directions]
    by_cases hside : index < 2 ^ depth
    · rw [if_pos hside, Nat.testBit_lt_two_pow hside, HashTree.siblings, ih htake hside,
        node_leafNodes depth hdrop]
      rfl
    · have hbit : index.testBit depth = true := by
        rw [Nat.testBit_of_two_pow_le_and_two_pow_add_one_gt (by omega) hindex]
      rw [Nat.pow_succ] at hindex
      rw [if_neg hside, hbit, HashTree.siblings, ih hdrop (by omega), node_leafNodes depth htake,
        directions_sub depth (by omega)]
      rfl

/-! ## Prefixes of traces

The first steps of a trace lead to a subtree, so they take the node of the subtree to the root. -/

/-- One step up from a left child. -/
lemma ascend_left (sibling value : Octets) (index : ℕ) :
    ascend hash sibling (value, 2 * index) = ((hash (nodeTag ++ (value ++ sibling))).toList, index) := by
  have hbit : 2 * index &&& 1 = 0 := by
    rw [Nat.and_one_is_mod]
    omega
  have hshift : (2 * index) >>> 1 = index := by
    rw [Nat.shiftRight_eq_div_pow]
    omega
  simp only [ascend, hbit, hshift, ne_eq, not_true_eq_false, if_false]

/-- One step up from a right child. -/
lemma ascend_right (sibling value : Octets) (index : ℕ) :
    ascend hash sibling (value, 2 * index + 1) =
      ((hash (nodeTag ++ (sibling ++ value))).toList, index) := by
  have hbit : 2 * index + 1 &&& 1 = 1 := by
    rw [Nat.and_one_is_mod]
    omega
  have hshift : (2 * index + 1) >>> 1 = index := by
    rw [Nat.shiftRight_eq_div_pow]
    omega
  simp only [ascend, hbit, hshift, ne_eq, one_ne_zero, not_false_eq_true, if_true]

/-- The first `k` siblings of a leaf in subtree `page` take the subtree to the root.  The bits of the
index above `k` are left over. -/
lemma foldr_ascend_take (depth : ℕ) : ∀ (k : ℕ) {data : List Octets} {page : ℕ},
    data.length ≤ 2 ^ (depth + k) → page < 2 ^ k → ∀ rest : ℕ,
      ((descend hash (leafNodes hash (depth + k) data) (page * 2 ^ depth)).take k).foldr (ascend hash)
          (node hash (leafNodes hash depth ((data.drop (page * 2 ^ depth)).take (2 ^ depth))),
            page + 2 ^ k * rest) =
        (node hash (leafNodes hash (depth + k) data), rest) := by
  intro k
  induction k with
  | zero =>
    intro data page h hpage rest
    obtain rfl : page = 0 := by omega
    rw [List.take_zero, List.foldr_nil, Nat.zero_mul, List.drop_zero, Nat.add_zero,
      List.take_of_length_le (by rwa [Nat.add_zero] at h), pow_zero, Nat.one_mul, Nat.zero_add]
  | succ k ih =>
    intro data page h hpage rest
    have h : data.length ≤ 2 ^ (depth + k + 1) := h
    obtain ⟨htake, hdrop⟩ := length_halves h
    have hpow : 2 ^ (depth + k) = 2 ^ k * 2 ^ depth := by rw [pow_add, Nat.mul_comm]
    rw [← Nat.add_assoc, descend_leafNodes_succ h, node_leafNodes_succ h, List.append_assoc]
    by_cases hside : page < 2 ^ k
    · have hle : (page + 1) * 2 ^ depth ≤ 2 ^ k * 2 ^ depth := Nat.mul_le_mul_right _ hside
      rw [Nat.add_mul, Nat.one_mul, ← hpow] at hle
      have hlt : page * 2 ^ depth < 2 ^ (depth + k) := by
        have := Nat.two_pow_pos depth
        omega
      have hpage : (data.drop (page * 2 ^ depth)).take (2 ^ depth) =
          ((data.take (2 ^ (depth + k))).drop (page * 2 ^ depth)).take (2 ^ depth) := by
        rw [List.drop_take, List.take_take, min_eq_left]
        omega
      have hindex : page + 2 ^ (k + 1) * rest = page + 2 ^ k * (2 * rest) := by
        rw [pow_succ, Nat.mul_assoc]
      rw [if_pos hlt, List.take_succ_cons, List.foldr_cons, hpage, hindex, ih htake hside, ascend_left]
    · have hindex : page * 2 ^ depth = 2 ^ (depth + k) + (page - 2 ^ k) * 2 ^ depth := by
        rw [hpow, ← Nat.add_mul, Nat.add_sub_cancel' (not_lt.mp hside)]
      have hrest : page + 2 ^ (k + 1) * rest = page - 2 ^ k + 2 ^ k * (2 * rest + 1) := by
        rw [pow_succ, Nat.mul_assoc, Nat.mul_add, Nat.mul_one]
        omega
      have hpage' : page - 2 ^ k < 2 ^ k := by
        rw [pow_succ] at hpage
        omega
      rw [if_neg (by rw [hindex]; exact not_lt.mpr (Nat.le_add_right _ _)), List.take_succ_cons,
        List.foldr_cons, hrest, hindex, Nat.add_sub_cancel_left, ← List.drop_drop, ih hdrop hpage',
        ascend_right]

/-- The siblings are digests. -/
lemma length_of_mem_descend {depth index : ℕ} {data : List Octets} (h : data.length ≤ 2 ^ depth)
    (hindex : index < 2 ^ depth) :
    ∀ sibling ∈ descend hash (leafNodes hash depth data) index, sibling.length = 32 := by
  intro sibling hsibling
  rw [descend_leafNodes depth h hindex] at hsibling
  obtain ⟨digest, -, rfl⟩ := List.mem_map.mp hsibling
  exact Vector.length_toList

/-! ## Verification as an audit path -/

/-- The audit path that a proof stands for at an index. -/
def auditPath (index : ℕ) (proof : List Octets) : List (Bool × Octets32) :=
  (directions proof.length index).zip (proof.map toDigest)

/-- The loop of `verify` computes the digest of the audit path. -/
lemma foldr_ascend (segment : Octets) (index : ℕ) (proof : List Octets)
    (h : ∀ sibling ∈ proof, sibling.length = 32) :
    proof.foldr (ascend hash) ((hash (leafTag ++ segment)).toList, index) =
      ((HashTree.pathDigest hash segmentEncoding segment (auditPath index proof)).toList,
        index >>> proof.length) := by
  induction proof with
  | nil => rfl
  | cons sibling proof ih =>
    have hsibling := toList_toDigest (h sibling (by simp))
    rw [List.foldr_cons, ih (fun s hs => h s (List.mem_cons_of_mem _ hs)), ascend]
    have hpath : auditPath index (sibling :: proof) =
        (index.testBit proof.length, toDigest sibling) :: auditPath index proof := rfl
    rw [hpath, HashTree.pathDigest, List.length_cons, Nat.shiftRight_add _ _ 1]
    have hbit : (index >>> proof.length &&& 1 ≠ 0) ↔ index.testBit proof.length = true := by
      rw [Nat.testBit, Nat.and_comm]
      simp
    by_cases hright : index.testBit proof.length = true
    · simp only [if_pos (hbit.mpr hright), hright, HashTree.turn, if_true, segmentEncoding, hsibling,
        List.append_assoc]
      rfl
    · simp only [if_neg (fun hne => hright (hbit.mp hne)), HashTree.turn,
        Bool.eq_false_of_not_eq_true hright, segmentEncoding, hsibling, List.append_assoc]
      rfl

/-- What `verify` accepts. -/
lemma verify_eq_true {segment root : Octets} {index : ℤ} {proof : List Octets} :
    verify hash segment index proof root = true ↔
      0 ≤ index ∧ index.toNat < 2 ^ proof.length ∧ (∀ sibling ∈ proof, sibling.length = 32) ∧
        (HashTree.pathDigest hash segmentEncoding segment
          (auditPath index.toNat proof)).toList = root := by
  have hany : proof.any (fun h => h.length ≠ 32) = true ↔
      ¬ ∀ sibling ∈ proof, sibling.length = 32 := by
    simp
  simp only [verify, hany, Nat.one_shiftLeft]
  by_cases hrange : 0 ≤ index ∧ index < (2 ^ proof.length : ℕ)
  · by_cases hall : ∀ sibling ∈ proof, sibling.length = 32
    · rw [if_neg (by simp only [not_or, not_not]; exact ⟨hrange, hall⟩), foldr_ascend _ _ _ hall]
      have htoNat : index.toNat < 2 ^ proof.length := by omega
      simp only [beq_iff_eq]
      exact ⟨fun h => ⟨hrange.1, htoNat, hall, h⟩, fun h => h.2.2.2⟩
    · rw [if_pos (.inr hall)]
      exact ⟨fun h => absurd h (by simp), fun h => absurd h.2.2.1 hall⟩
  · rw [if_pos (.inl hrange)]
    refine ⟨fun h => absurd h (by simp), fun h => absurd ⟨h.1, ?_⟩ hrange⟩
    have := h.2.1
    omega

/-! ## Completeness and soundness -/

/-- Where a proof that is accepted breaks the hash function. -/
def proofBreak (ceilLog : ℕ → ℕ) (hash : Octets → Octets32) (data : List Octets) (segment : Octets)
    (index : ℤ) (proof : List Octets) : HashBreak Octets :=
  HashTree.findPathBreak hash segmentEncoding (fun _ _ => .null []) segment
    (HashTree.complete (ceilLog (max 1 data.length)) data) (auditPath index.toNat proof)

/-- The exact logarithm pads to the least power of two that is not below the length. -/
lemma length_le_newSize (data : List Octets) : data.length ≤ newSize ceilLog2 data.length :=
  (le_max_right 1 data.length).trans (Nat.le_pow_clog (by norm_num) _)

section CeilLog

variable {ceilLog : ℕ → ℕ}

lemma segmentRoot_eq {data : List Octets} (h : data.length ≤ newSize ceilLog data.length) :
    segmentRoot ceilLog hash data = ((HashTree.complete (ceilLog (max 1 data.length)) data).digest hash
      segmentEncoding).toList :=
  node_leafNodes _ h

lemma map_fst_auditPath (index : ℕ) (proof : List Octets) :
    (auditPath index proof).map Prod.fst = directions proof.length index := by
  rw [auditPath, List.map_fst_zip (by simp)]

/-- The trace of a segment is the list of the siblings on the path to it. -/
lemma trace_eq {data : List Octets} (hsize : data.length ≤ newSize ceilLog data.length) {i : ℕ}
    (h : i < data.length) :
    trace ceilLog hash data i = some (((HashTree.complete (ceilLog (max 1 data.length)) data).siblings
      hash segmentEncoding (directions (ceilLog (max 1 data.length)) i)).map Vector.toList) := by
  rw [trace, if_pos ⟨Int.natCast_nonneg i, by exact_mod_cast h⟩, Int.toNat_natCast,
    ← descend_leafNodes _ hsize (h.trans_le hsize)]
  rfl

/-- The path to a segment leads to it. -/
lemma entryAt_directions {data : List Octets} (hsize : data.length ≤ newSize ceilLog data.length)
    {i : ℕ} (h : i < data.length) :
    (HashTree.complete (ceilLog (max 1 data.length)) data).entryAt
      (directions (ceilLog (max 1 data.length)) i) = some data[i] := by
  have hlt : i < 2 ^ ceilLog (max 1 data.length) := h.trans_le hsize
  have hcomplete := HashTree.entryAt_complete (directions (ceilLog (max 1 data.length)) i) data
  rwa [length_directions, position_directions, Nat.mod_eq_of_lt hlt,
    List.getElem?_eq_getElem h] at hcomplete

/-- The proof that is traced for a segment is accepted for it, and consists of as many digests as the
tree is deep. -/
lemma verify_trace (hash : Octets → Octets32) {data : List Octets}
    (hsize : data.length ≤ newSize ceilLog data.length) {i : ℕ} (h : i < data.length) :
    ∃ proof, trace ceilLog hash data i = some proof ∧
      verify hash data[i] i proof (segmentRoot ceilLog hash data) = true ∧
      (∀ sibling ∈ proof, sibling.length = 32) ∧ proof.length = ceilLog (max 1 data.length) := by
  set depth := ceilLog (max 1 data.length) with hdepth
  have hentry : (HashTree.complete depth data).entryAt (directions depth i) = some data[i] :=
    entryAt_directions hsize h
  set siblings := (HashTree.complete depth data).siblings hash segmentEncoding (directions depth i)
    with hsiblings
  have hlength : siblings.length = depth := by
    rw [hsiblings, HashTree.length_siblings _ _ hentry, length_directions]
  have hdigests : (siblings.map Vector.toList).map toDigest = siblings := by
    rw [List.map_map]
    exact (List.map_congr_left (fun d _ => toDigest_toList d)).trans (List.map_id _)
  have h32 : ∀ sibling ∈ siblings.map Vector.toList, sibling.length = 32 := by
    intro sibling hsibling
    obtain ⟨digest, -, rfl⟩ := List.mem_map.mp hsibling
    exact Vector.length_toList
  refine ⟨_, trace_eq hsize h, verify_eq_true.mpr ⟨Int.natCast_nonneg i, ?_, h32, ?_⟩, h32, ?_⟩
  · rw [Int.toNat_natCast, List.length_map, hlength]
    exact h.trans_le hsize
  · rw [auditPath, List.length_map, hlength, hdigests, Int.toNat_natCast,
      HashTree.pathDigest_siblings _ _ hentry, segmentRoot_eq hsize]
  · rw [List.length_map, hlength]

end CeilLog

/-- Where the padded size is not below the length, the proof that is traced for a segment is accepted
for it, and a proof of any length that is accepted for a segment at an index belongs to the segment that
the data have there, or breaks the hash function at messages that `proofBreak` computes. -/
theorem segment_proofs (ceilLog : ℕ → ℕ) (hash : Octets → Octets32) (data : List Octets)
    (hsize : data.length ≤ newSize ceilLog data.length) :
    (∀ (i : ℕ) (h : i < data.length), ∃ proof, trace ceilLog hash data i = some proof ∧
      verify hash data[i] i proof (segmentRoot ceilLog hash data) = true) ∧
    ∀ (segment : Octets) (index : ℤ) (proof : List Octets),
      verify hash segment index proof (segmentRoot ceilLog hash data) = true →
        (0 ≤ index ∧ index < data.length ∧ data[index.toNat]? = some segment) ∨
          (proofBreak ceilLog hash data segment index proof).Valid hash zeros id := by
  refine ⟨fun i h => ?_, fun segment index proof h => ?_⟩
  · obtain ⟨proof, htrace, hverify, -⟩ := verify_trace hash hsize h
    exact ⟨proof, htrace, hverify⟩
  · obtain ⟨hnonneg, hlt, -, hdigest⟩ := verify_eq_true.mp h
    rw [segmentRoot_eq hsize, Vector.toList_inj] at hdigest
    refine (HashTree.findPathBreak_valid (segmentEncoding_separates hash) _ _ hdigest).imp
      (fun hentry => ?_) id
    rw [map_fst_auditPath] at hentry
    have hlength := HashTree.length_eq_of_entryAt_complete _ _ _ hentry
    rw [← hlength, HashTree.entryAt_complete, position_directions,
      Nat.mod_eq_of_lt hlt] at hentry
    obtain ⟨hbound, -⟩ := List.getElem?_eq_some_iff.mp hentry
    exact ⟨hnonneg, by omega, hentry⟩

/-- A logarithm that is rounded up to the next integer at four, as the source's is at `2 ^ 29`. -/
def roundedLog (length : ℕ) : ℕ := if length = 4 then 3 else Nat.clog 2 length

/-- Under a hash function that answers zeros the traced proof of the third of four segments is accepted
in a tree that is padded to eight, and so is a proof of any three digests for a segment that is not
among them, which breaks the hash function. -/
theorem zeroHash_forges :
    (∃ proof, trace roundedLog (fun _ => zeros) [[1], [2], [3], [4]] 2 = some proof ∧
      verify (fun _ => zeros) [3] 2 proof
        (segmentRoot roundedLog (fun _ => zeros) [[1], [2], [3], [4]]) = true) ∧
    verify (fun _ => zeros) [9] 6 [zeros.toList, zeros.toList, zeros.toList]
        (segmentRoot roundedLog (fun _ => zeros) [[1], [2], [3], [4]]) = true ∧
      (proofBreak roundedLog (fun _ => zeros) [[1], [2], [3], [4]] [9] 6
        [zeros.toList, zeros.toList, zeros.toList]).Valid (fun _ => zeros) zeros id := by
  have hsize : [[1], [2], [3], [(4 : UInt8)]].length ≤ newSize roundedLog 4 := by decide
  have haccepts : verify (fun _ => zeros) [9] 6 [zeros.toList, zeros.toList, zeros.toList]
      (segmentRoot roundedLog (fun _ => zeros) [[1], [2], [3], [4]]) = true := by
    rw [segmentRoot_eq hsize, verify_eq_true]
    refine ⟨by decide, by decide, by simp [zeros], ?_⟩
    rfl
  exact ⟨(segment_proofs roundedLog (fun _ => zeros) _ hsize).1 2 (by decide), haccepts,
    ((segment_proofs roundedLog (fun _ => zeros) _ hsize).2 [9] 6 _ haccepts).resolve_left (by simp)⟩

end Merkle
