import Pyjamaz.Library.Layout
import Pyjamaz.Refinement.Pages

/-!
# The layout of the erasure code

The segments are not encoded one by one.  They are cut into as many pieces as there are data shards,
the first pieces of all segments are put in front of the second ones and so on, and the whole is
encoded at once; each validator's row is then cut into chunks again.

The code works on every column of two octets by itself (`ColumnCode`), so the chunk of a segment in a
row is what the encoding of the segment alone would have given (`availabilitySpec_layout`).  What the
layout needs is that the number of data shards divides a segment into pieces of an even length, which
is how this number is chosen (`DataShards`).
-/

namespace Refinement

open Octets

/-! ## The number of data shards -/

/-- What is known of the number of data shards. -/
structure DataShards (validatorCount : ℤ) (originals : ℕ) : Prop where
  pos : 1 ≤ originals
  le : originals ≤ validatorCount.toNat
  dvd : 2 * originals ∣ 4104

lemma le_foldl_max (xs : List ℕ) (a : ℕ) : a ≤ xs.foldl max a ∧ ∀ x ∈ xs, x ≤ xs.foldl max a := by
  induction xs generalizing a with
  | nil => exact ⟨le_refl a, fun x hx => absurd hx List.not_mem_nil⟩
  | cons y xs ih =>
    obtain ⟨hstart, hle⟩ := ih (max a y)
    rw [List.foldl_cons]
    refine ⟨(le_max_left a y).trans hstart, fun x hx => ?_⟩
    rcases List.mem_cons.mp hx with rfl | hx
    · exact (le_max_right a x).trans hstart
    · exact hle x hx

lemma foldl_max_mem (xs : List ℕ) (a : ℕ) : xs.foldl max a = a ∨ xs.foldl max a ∈ xs := by
  induction xs generalizing a with
  | nil => exact .inl rfl
  | cons y xs ih =>
    rw [List.foldl_cons]
    rcases ih (max a y) with h | h
    · rcases max_choice a y with hmax | hmax
      · exact .inl (h.trans hmax)
      · rw [h, hmax]
        exact .inr (List.mem_cons_self ..)
    · exact .inr (List.mem_cons_of_mem y h)

/-- One data shard is always possible, so the largest number is one that was looked at. -/
lemma erasureDataShards_eq {C : Config} {validatorCount : ℤ}
    (h : validValidatorCount C validatorCount) :
    ∃ originals, erasureDataShards C validatorCount = .ok originals ∧
      DataShards validatorCount originals := by
  refine ⟨_, Except.bind_eq_ok.mpr ⟨(), Except.raiseIf_eq_ok.mpr (not_not.mpr h), rfl⟩, ?_⟩
  set candidates := (List.range (validatorCount.toNat / 3 + 2)).filter
    (fun d => 1 ≤ d ∧ ecSegmentSize % (2 * d) = 0) with hcandidates
  have hone : 1 ∈ candidates := by
    rw [hcandidates, List.mem_filter]
    exact ⟨List.mem_range.mpr (by omega), by decide⟩
  have hpos := (le_foldl_max candidates 0).2 1 hone
  have hmem : candidates.foldl max 0 ∈ candidates :=
    (foldl_max_mem candidates 0).resolve_left (by omega)
  have hfilter := hmem
  rw [hcandidates, List.mem_filter, ← hcandidates, List.mem_range, decide_eq_true_eq] at hfilter
  obtain ⟨hsix, -⟩ := h
  exact ⟨hpos, by omega, Nat.dvd_of_mod_eq_zero hfilter.2.2⟩

/-- A piece of a segment: half of it is the number of its words. -/
lemma DataShards.exists_words {validatorCount : ℤ} {originals : ℕ}
    (h : DataShards validatorCount originals) :
    ∃ k, 0 < k ∧ ecSegmentSize / originals = 2 * k ∧ 2 * k * originals = 4104 ∧
      ecSegmentSize / (2 * originals) = k := by
  obtain ⟨k, hk⟩ := h.dvd
  have hpos := h.pos
  have hkpos : 0 < k := by
    rcases Nat.eq_zero_or_pos k with rfl | hkpos
    · omega
    · exact hkpos
  have hproduct : 2 * k * originals = 4104 := by rw [hk]; ring
  refine ⟨k, hkpos, ?_, hproduct, ?_⟩
  · rw [ecSegmentSize, ← hproduct, Nat.mul_div_cancel _ hpos]
  · rw [ecSegmentSize, hk, Nat.mul_div_cancel_left _ (by omega)]

/-! ## The erasure code -/

/-- The shard with a given number of the data itself. -/
def originalShard (size : ℕ) (data : Octets) (i : ℕ) : Octets := slice data (i * size) ((i + 1) * size)

lemma length_originalShard {size originals : ℕ} {data : Octets} (hdata : data.length = size * originals)
    {i : ℕ} (hi : i < originals) : (originalShard size data i).length = size := by
  have hle : (i + 1) * size ≤ originals * size := Nat.mul_le_mul_right _ hi
  rw [originalShard, length_slice (by rw [hdata, Nat.mul_comm size]; exact hle), Nat.add_mul, Nat.one_mul,
    Nat.add_sub_cancel_left]

/-- The words of the data in one column. -/
def columnWords (k originals : ℕ) (data : Octets) (column : ℕ) : List Octets :=
  (List.range originals).map (fun i => word column (originalShard (2 * k) data i))

/-- For these numbers of data and parity shards the erasure code answers shards of one size, the data
first, and each column of two octets depends on the same column of the data only. -/
structure ColumnCode (encodeShards : Octets → ℕ → ℕ → Option (List Octets)) (originals parity : ℕ)
    (code : List Octets → List Octets) : Prop where
  shards : ∀ {data k}, 0 < k → data.length = 2 * k * originals →
    ∃ shards, encodeShards data originals parity = some shards ∧
      shards.length = originals + parity ∧
      (∀ shard ∈ shards, shard.length = 2 * k) ∧
      (∀ i < originals, shards[i]? = some (originalShard (2 * k) data i)) ∧
      ∀ column < k, shards.map (word column) = code (columnWords k originals data column)

section

variable {C : Config} {P : Primitives} {validatorCount : ℤ} {originals : ℕ}
  {code : List Octets → List Octets}

/-- What `encodeChunks` answers for data of the right length. -/
structure Encoded (validatorCount : ℤ) (originals k : ℕ)
    (code : List Octets → List Octets) (data : Octets) (shards : List Octets) : Prop where
  length_eq : shards.length = validatorCount.toNat
  shard_length : ∀ shard ∈ shards, shard.length = 2 * k
  original : ∀ i < originals, shards[i]? = some (originalShard (2 * k) data i)
  columns : ∀ column < k, shards.map (word column) = code (columnWords k originals data column)

/-- Data of the right length is encoded without an error. -/
lemma encodeChunks_eq
    (hcode : ColumnCode P.encodeShards originals (validatorCount.toNat - originals) code)
    (horiginals : erasureDataShards C validatorCount = .ok originals)
    (hshards : DataShards validatorCount originals) {k : ℕ} {data : Octets}
    (hdata : data.length = 2 * k * originals) :
    ∃ shards, encodeChunks C P validatorCount k data = .ok shards ∧
      Encoded validatorCount originals k code data shards := by
  have hle := hshards.le
  have hcheck : Except.raiseIf (data.length ≠ 2 * k * originals)
      (ReportError.value "data length does not match erasure dimensions") = .ok () :=
    Except.raiseIf_eq_ok.mpr (not_not.mpr hdata)
  rw [encodeChunks, horiginals, Except.ok_bind, hcheck, Except.ok_bind]
  rcases Nat.eq_zero_or_pos k with rfl | hk
  · -- without data every shard is empty
    rw [if_pos rfl]
    refine ⟨_, rfl, by rw [List.length_replicate], ?_, ?_, fun column h => absurd h (Nat.not_lt_zero _)⟩
    · intro shard hshard
      rw [List.eq_of_mem_replicate hshard]
      rfl
    · intro i hi
      rw [List.getElem?_replicate, if_pos (by omega), originalShard, Nat.mul_zero, Nat.mul_zero,
        slice, Nat.sub_self, List.take_zero]
  · obtain ⟨shards, hencode, hlength, hsize, horiginal, hcolumns⟩ := hcode.shards hk hdata
    rw [if_neg (by omega), hencode]
    have hlength : shards.length = validatorCount.toNat := by omega
    have hchecked : Except.raiseIf
        (shards.length ≠ validatorCount.toNat ∨ shards.any (fun s => s.length ≠ 2 * k) = true)
        ReportError.raised = .ok () := by
      refine Except.raiseIf_eq_ok.mpr ?_
      rw [not_or, not_not, List.any_eq_true]
      refine ⟨hlength, ?_⟩
      rintro ⟨shard, hshard, hne⟩
      exact absurd (hsize shard hshard) (by simpa using hne)
    exact ⟨shards, Except.bind_eq_ok.mpr ⟨(), hchecked, rfl⟩, hlength, hsize, horiginal, hcolumns⟩

/-! ## The layout -/

variable {segments : List Octets} {k : ℕ}

/-- The piece of a segment for one data shard. -/
lemma length_piece {segment : Octets} (hsegment : segment.length = 4104)
    (hk : 2 * k * originals = 4104) {i : ℕ} (hi : i < originals) :
    (originalShard (2 * k) segment i).length = 2 * k :=
  length_originalShard (hsegment.trans hk.symm) hi

/-- The pieces of all segments for one data shard. -/
lemma length_columnBlock (hsegments : ∀ segment ∈ segments, segment.length = 4104)
    (hk : 2 * k * originals = 4104) {i : ℕ} (hi : i < originals) :
    (segments.flatMap (fun segment => originalShard (2 * k) segment i)).length =
      segments.length * (2 * k) :=
  length_flatMap_const (fun segment hsegment => length_piece (hsegments segment hsegment) hk hi)

lemma length_transposed (hsegments : ∀ segment ∈ segments, segment.length = 4104)
    (hk : 2 * k * originals = 4104) :
    (transposed originals (2 * k) segments).length = 2 * (segments.length * k) * originals := by
  have hblocks : ∀ i ∈ List.range originals,
      (segments.flatMap (fun segment => slice segment (i * (2 * k)) ((i + 1) * (2 * k)))).length =
        segments.length * (2 * k) :=
    fun i hi => length_columnBlock hsegments hk (List.mem_range.mp hi)
  rw [transposed, length_flatMap_const hblocks, List.length_range]
  ring

/-- A chunk of a data shard of the transposed segments is a piece of a segment. -/
lemma slice_originalShard_transposed (hsegments : ∀ segment ∈ segments, segment.length = 4104)
    (hk : 2 * k * originals = 4104) {i j : ℕ} (hi : i < originals) (hj : j < segments.length) :
    slice (originalShard (2 * (segments.length * k)) (transposed originals (2 * k) segments) i)
        (j * (2 * k)) ((j + 1) * (2 * k)) =
      originalShard (2 * k) segments[j] i := by
  have hblocks : ∀ i ∈ List.range originals,
      (segments.flatMap (fun segment => slice segment (i * (2 * k)) ((i + 1) * (2 * k)))).length =
        2 * (segments.length * k) := by
    intro i hi
    rw [show 2 * (segments.length * k) = segments.length * (2 * k) by ring]
    exact length_columnBlock hsegments hk (List.mem_range.mp hi)
  have hblock := slice_flatMap hblocks (i := i) (by rw [List.length_range]; exact hi)
  rw [List.getElem_range] at hblock
  rw [originalShard, transposed, hblock]
  exact slice_flatMap (fun segment hsegment => length_piece (hsegments segment hsegment) hk hi) hj

/-- How many words the transposed segments give to each data shard. -/
lemma words_transposed (hsegments : ∀ segment ∈ segments, segment.length = 4104)
    (hk : 2 * k * originals = 4104) (hpos : 0 < 2 * originals) :
    (transposed originals (2 * k) segments).length / (2 * originals) = segments.length * k := by
  rw [length_transposed hsegments hk, show 2 * (segments.length * k) * originals =
    2 * originals * (segments.length * k) by ring, Nat.mul_div_cancel_left _ hpos]

/-- A row cut into chunks. -/
lemma pieces_eq {row : Octets} {n : ℕ} (hkpos : 0 < k) (hrow : row.length = n * (2 * k)) :
    pieces (2 * k) row =
      (List.range n).map (fun j => slice row (j * (2 * k)) ((j + 1) * (2 * k))) := by
  have hcount : (row.length + 2 * k - 1) / (2 * k) = n := by
    rw [hrow, Nat.add_sub_assoc (by omega), Nat.mul_comm, Nat.mul_add_div (by omega),
      Nat.div_eq_of_lt (by omega), Nat.add_zero]
  rw [pieces, hcount]
  refine List.map_congr_left (fun j _ => ?_)
  rw [slice, Nat.add_mul, Nat.one_mul, Nat.add_sub_cancel_left]

/-- The chunk of a segment in a row is the shard of the segment encoded alone. -/
lemma chunk_eq (hsegments : ∀ segment ∈ segments, segment.length = 4104)
    (hk : 2 * k * originals = 4104) {rows : List Octets}
    (hrows : Encoded validatorCount originals (segments.length * k) code
      (transposed originals (2 * k) segments) rows)
    {j : ℕ} (hj : j < segments.length) {shards : List Octets}
    (hshards : Encoded validatorCount originals k code segments[j] shards) {i : ℕ} {row shard : Octets}
    (hrow : rows[i]? = some row) (hshard : shards[i]? = some shard) :
    slice row (j * (2 * k)) ((j + 1) * (2 * k)) = shard := by
  have hrowLength := hrows.shard_length row (List.mem_of_getElem? hrow)
  have hshardLength := hshards.shard_length shard (List.mem_of_getElem? hshard)
  have hjle : (j + 1) * (2 * k) ≤ segments.length * (2 * k) := Nat.mul_le_mul_right _ hj
  have hchunkLength : (slice row (j * (2 * k)) ((j + 1) * (2 * k))).length = 2 * k := by
    rw [length_slice (by rw [hrowLength]; linarith), Nat.add_mul, Nat.one_mul, Nat.add_sub_cancel_left]
  refine eq_of_word_eq hchunkLength hshardLength (fun column hcolumn => ?_)
  have hj2 : j * (2 * k) = 2 * (j * k) := by ring
  have hj3 : (j + 1) * (2 * k) = 2 * ((j + 1) * k) := by ring
  have hlt : j * k + column < (j + 1) * k := by
    rw [Nat.add_mul, Nat.one_mul]
    omega
  have hin : j * k + column < segments.length * k :=
    hlt.trans_le (Nat.mul_le_mul_right _ hj)
  -- the data of both encodings agree in this column
  have hdata : columnWords (segments.length * k) originals (transposed originals (2 * k) segments)
      (j * k + column) = columnWords k originals segments[j] column := by
    refine List.map_congr_left (fun i hi => ?_)
    rw [← slice_originalShard_transposed hsegments hk (List.mem_range.mp hi) hj, hj2, hj3,
      word_slice hlt]
  have hcolumns := hrows.columns (j * k + column) hin
  rw [hdata, ← hshards.columns column hcolumn] at hcolumns
  have hwords := congrArg (fun words => words[i]?) hcolumns
  simp only [List.getElem?_map, hrow, hshard, Option.map_some, Option.some.injEq] at hwords
  rw [hj2, hj3, word_slice hlt]
  exact hwords

/-- A row has a chunk for every segment, the validator's shard of that segment encoded alone. -/
lemma row_layout (hcode : ColumnCode P.encodeShards originals (validatorCount.toNat - originals) code)
    (horiginals : erasureDataShards C validatorCount = .ok originals)
    (hshards : DataShards validatorCount originals) (hkpos : 0 < k)
    (hsegments : ∀ segment ∈ segments, segment.length = 4104) (hk : 2 * k * originals = 4104)
    {rows : List Octets} (hrows : Encoded validatorCount originals (segments.length * k) code
      (transposed originals (2 * k) segments) rows) {i : ℕ} {row : Octets} (hrow : rows[i]? = some row) :
    (pieces (2 * k) row).length = segments.length ∧
      ∀ (j : ℕ) (segment : Octets), segments[j]? = some segment →
        ∃ shards shard, encodeChunks C P validatorCount k segment = .ok shards ∧
          shards[i]? = some shard ∧ (pieces (2 * k) row)[j]? = some shard ∧
          (i < originals → shard = originalShard (2 * k) segment i) := by
  have hrowLength : row.length = segments.length * (2 * k) := by
    rw [hrows.shard_length row (List.mem_of_getElem? hrow)]
    ring
  have hpieces := pieces_eq hkpos hrowLength
  refine ⟨by rw [hpieces, List.length_map, List.length_range], ?_⟩
  intro j segment hsegment
  obtain ⟨hj, rfl⟩ := List.getElem?_eq_some_iff.mp hsegment
  obtain ⟨shards, hencode, hencoded⟩ := encodeChunks_eq (k := k) hcode horiginals hshards
    (hsegments _ (List.getElem_mem hj) |>.trans hk.symm)
  have hi : i < shards.length := by
    rw [hencoded.length_eq, ← hrows.length_eq]
    exact (List.getElem?_eq_some_iff.mp hrow).1
  refine ⟨shards, shards[i], hencode, List.getElem?_eq_getElem hi, ?_, fun horiginal => ?_⟩
  · rw [hpieces, List.getElem?_map, List.getElem?_range hj, Option.map_some,
      chunk_eq hsegments hk hrows hj hencoded hrow (List.getElem?_eq_getElem hi)]
  · have hshard := hencoded.original i horiginal
    rwa [List.getElem?_eq_getElem hi, Option.some.injEq] at hshard

/-- Padding makes whole pieces. -/
lemma length_zeroPad_eq {alignment : ℕ} (hpos : 0 < alignment) (data : Octets) :
    (zeroPad alignment data).length = alignment * ((data.length + alignment - 1) / alignment) := by
  rw [zeroPad, List.length_append, List.length_replicate]
  have hdiv := Nat.div_add_mod data.length alignment
  have hmod := Nat.mod_lt data.length hpos
  rcases Nat.eq_zero_or_pos (data.length % alignment) with hzero | hrest
  · have hceil : (data.length + alignment - 1) / alignment = data.length / alignment := by
      refine Nat.div_eq_of_lt_le ?_ ?_
      · rw [Nat.mul_comm]
        omega
      · rw [Nat.succ_mul, Nat.mul_comm (data.length / alignment)]
        omega
    rw [hzero, Nat.sub_zero, Nat.mod_self, Nat.add_zero, hceil]
    omega
  · have hceil : (data.length + alignment - 1) / alignment = data.length / alignment + 1 := by
      refine Nat.div_eq_of_lt_le ?_ ?_
      · rw [Nat.succ_mul, Nat.mul_comm (data.length / alignment)]
        omega
      · rw [Nat.succ_mul, Nat.succ_mul, Nat.mul_comm (data.length / alignment)]
        omega
    rw [Nat.mod_eq_of_lt (by omega), hceil, Nat.mul_add, Nat.mul_one]
    omega

end

/-- Segments of the right number and size are not refused. -/
lemma raiseIf_exports_eq_ok {exports : List Octets}
    (hlength : exports.length ≤ maximumNumberExportsWorkPackage)
    (hsize : ∀ segment ∈ exports, segment.length = ecSegmentSize) :
    Except.raiseIf (exports.length > maximumNumberExportsWorkPackage ∨
        exports.any (fun s => s.length ≠ ecSegmentSize) = true)
      (ReportError.process "invalid exported segments") = .ok () := by
  refine Except.raiseIf_eq_ok.mpr ?_
  rw [not_or, List.any_eq_true]
  refine ⟨not_lt.mpr hlength, ?_⟩
  rintro ⟨segment, hmem, hne⟩
  exact absurd (hsize segment hmem) (by simpa using hne)

/-- The pages have the size of a segment. -/
lemma exists_pages (P : Primitives) (hcodec : P.codec.Documented) {exports : List Octets}
    (hlength : exports.length ≤ maximumNumberExportsWorkPackage) :
    ∃ pages, pagedProofSegments P exports = .ok pages ∧ ∀ page ∈ pages, page.length = 4104 := by
  refine ⟨_, pagedProofSegments_eq P hcodec exports, fun segment hsegment => ?_⟩
  obtain ⟨page, hmem, rfl⟩ := List.mem_map.mp hsegment
  have := List.mem_range.mp hmem
  exact length_page hcodec (by omega) hlength

/-- For every valid number of validators the encodings go through, a row has a chunk for every export
and every page, and the chunk is the validator's shard of that segment alone; the first validators have the
pieces of the segments themselves. -/
theorem availabilitySpec_layout (C : Config) (P : Primitives)
    (code : List Octets → List Octets) (hcodec : P.codec.Documented) (packageHash : Octets32)
    (bundle : Octets) (exports : List Octets) (validatorCount : ℤ)
    (hvalid : validValidatorCount C validatorCount)
    (hcode : ∀ originals, erasureDataShards C validatorCount = .ok originals →
      ColumnCode P.encodeShards originals (validatorCount.toNat - originals) code)
    (hlength : exports.length ≤ maximumNumberExportsWorkPackage)
    (hsize : ∀ segment ∈ exports, segment.length = ecSegmentSize) :
    ∃ spec originals pages bundleShards rows,
      availabilitySpec C P packageHash bundle exports validatorCount = .ok spec ∧
      erasureDataShards C validatorCount = .ok originals ∧
      pagedProofSegments P exports = .ok pages ∧
      encodeChunks C P validatorCount ((bundle.length + 2 * originals - 1) / (2 * originals))
        (zeroPad (2 * originals) bundle) = .ok bundleShards ∧
      encodeChunks C P validatorCount
        ((transposed originals (ecSegmentSize / originals) (exports ++ pages)).length / (2 * originals))
        (transposed originals (ecSegmentSize / originals) (exports ++ pages)) = .ok rows ∧
      spec.erasureRoot = wellBalancedRoot P.blake2b256Hash
        ((bundleShards.zip rows).map (fun shards => (P.blake2b256Hash shards.1).toList ++
          wellBalancedRoot P.blake2b256Hash (pieces (ecSegmentSize / originals) shards.2))) ∧
      bundleShards.length = validatorCount.toNat ∧ rows.length = validatorCount.toNat ∧
      ∀ (i : ℕ) (row : Octets), rows[i]? = some row →
        (pieces (ecSegmentSize / originals) row).length = exports.length + pages.length ∧
        ∀ (j : ℕ) (segment : Octets), (exports ++ pages)[j]? = some segment →
          ∃ shards shard,
            encodeChunks C P validatorCount (ecSegmentSize / (2 * originals)) segment = .ok shards ∧
            shards[i]? = some shard ∧
            (pieces (ecSegmentSize / originals) row)[j]? = some shard ∧
            (i < originals → shard = originalShard (ecSegmentSize / originals) segment i) := by
  obtain ⟨originals, horiginals, hshards⟩ := erasureDataShards_eq hvalid
  have hcode := hcode originals horiginals
  obtain ⟨k, hkpos, hpiece, hk, hwords⟩ := hshards.exists_words
  have hpos : 0 < 2 * originals := by
    have := hshards.pos
    omega
  obtain ⟨pages, hpages, hpageLength⟩ := exists_pages P hcodec hlength
  have hsegments : ∀ segment ∈ exports ++ pages, segment.length = 4104 :=
    fun segment hsegment => (List.mem_append.mp hsegment).elim (hsize segment) (hpageLength segment)
  have hbundle : (zeroPad (2 * originals) bundle).length =
      2 * ((bundle.length + 2 * originals - 1) / (2 * originals)) * originals := by
    rw [length_zeroPad_eq hpos]
    ring
  have hcount := words_transposed hsegments hk hpos
  obtain ⟨bundleShards, hbundleShards, hbundleEncoded⟩ :=
    encodeChunks_eq hcode horiginals hshards hbundle
  obtain ⟨rows, hrows, hrowsEncoded⟩ :=
    encodeChunks_eq hcode horiginals hshards (length_transposed hsegments hk)
  have hspec : availabilitySpec C P packageHash bundle exports validatorCount = .ok
      { hash := packageHash
        length := bundle.length
        erasureRoot := wellBalancedRoot P.blake2b256Hash
          ((bundleShards.zip rows).map (fun shards => (P.blake2b256Hash shards.1).toList ++
            wellBalancedRoot P.blake2b256Hash (pieces (2 * k) shards.2)))
        erasureShards := validatorCount
        exportsRoot := Merkle.segmentRoot Merkle.ceilLog2 P.blake2b256Hash exports
        exportsCount := exports.length } := by
    rw [availabilitySpec, raiseIf_exports_eq_ok hlength hsize, Except.ok_bind, horiginals,
      Except.ok_bind]
    simp only [hbundleShards, Except.ok_bind, hpages, hpiece, hcount, hrows]
    rfl
  refine ⟨_, originals, pages, bundleShards, rows, hspec, ?_⟩
  rw [hpiece, hwords, hcount]
  refine ⟨horiginals, hpages, hbundleShards, hrows, rfl, hbundleEncoded.length_eq,
    hrowsEncoded.length_eq, fun i row hrow => ?_⟩
  rw [← List.length_append]
  exact row_layout hcode horiginals hshards hkpos hsegments hk hrowsEncoded hrow

/-! ## A sample -/

lemma word_flatMap {α : Type} {f : α → Octets} {xs : List α} (hf : ∀ x ∈ xs, (f x).length = 2) {column : ℕ}
    (h : column < xs.length) : word column (xs.flatMap f) = f xs[column] := by
  rw [← slice_flatMap hf h, word, Nat.mul_comm 2, Nat.add_mul, Nat.one_mul]

/-- The shard with one parity word for each column. -/
def parityShard (k originals : ℕ) (data : Octets) (parityWord : List Octets → Octets) : Octets :=
  (List.range k).flatMap (fun column => parityWord (columnWords k originals data column))

/-- A code that is given by its parity words is a code of columns. -/
lemma columnCode_of_parityWords {encodeShards : Octets → ℕ → ℕ → Option (List Octets)} {originals : ℕ}
    {parityWords : List (List Octets → Octets)}
    (hwords : ∀ parityWord ∈ parityWords, ∀ words, (parityWord words).length = 2)
    (hencode : ∀ {data k}, 0 < k → data.length = 2 * k * originals →
      encodeShards data originals parityWords.length = some
        ((List.range originals).map (originalShard (2 * k) data) ++
          parityWords.map (parityShard k originals data))) :
    ColumnCode encodeShards originals parityWords.length
      (fun words => words ++ parityWords.map (fun parityWord => parityWord words)) where
  shards := by
    intro data k hk hdata
    refine ⟨_, hencode hk hdata, ?_, ?_, ?_, ?_⟩
    · rw [List.length_append, List.length_map, List.length_range, List.length_map]
    · intro shard hshard
      rcases List.mem_append.mp hshard with horiginal | hparity
      · obtain ⟨i, hi, rfl⟩ := List.mem_map.mp horiginal
        exact length_originalShard hdata (List.mem_range.mp hi)
      · obtain ⟨parityWord, hmem, rfl⟩ := List.mem_map.mp hparity
        rw [parityShard, length_flatMap_const (fun column _ => hwords parityWord hmem _),
          List.length_range, Nat.mul_comm]
    · intro i hi
      rw [List.getElem?_append_left (by rwa [List.length_map, List.length_range]), List.getElem?_map,
        List.getElem?_range hi, Option.map_some]
    · intro column hcolumn
      have hparity : ∀ parityWord ∈ parityWords, word column (parityShard k originals data parityWord) =
          parityWord (columnWords k originals data column) := by
        intro parityWord hmem
        rw [parityShard, word_flatMap (fun column _ => hwords parityWord hmem _)
          (by rwa [List.length_range]), List.getElem_range]
      rw [List.map_append, List.map_map, List.map_map]
      exact congrArg₂ (· ++ ·) rfl (List.map_congr_left hparity)

/-- The product in the field of `2 ^ 16` elements, the polynomials modulo
`x ^ 16 + x ^ 5 + x ^ 3 + x ^ 2 + 1`. -/
def fieldMul (a b : ℕ) : ℕ :=
  (List.range 16).foldr (fun i product =>
    (if product.testBit 15 then 2 * product ^^^ 0x1002D else 2 * product) ^^^
      (if b.testBit i then a else 0)) 0

/-- The sum of the entries of a table for the bits of a number. -/
def bitSum (table : List ℕ) (n : ℕ) : ℕ :=
  (table.zipIdx.filter (fun entry => n.testBit entry.2)).foldr (fun entry sum => entry.1 ^^^ sum) 0

/-- The basis in which the words of the code are written. -/
def cantorBasis : List ℕ :=
  [0x0001, 0xACCA, 0x3C0E, 0x163E, 0xC582, 0xED2E, 0x914C, 0x4012, 0x6C98, 0x10D8, 0x6A72, 0xB900, 0xFDB8,
    0xFB34, 0xFF38, 0x991E]

/-- The powers of `x` in this basis. -/
def cantorPowers : List ℕ :=
  [0x0001, 0x4690, 0x65D8, 0x62D0, 0x5734, 0x45F0, 0x53B8, 0x1E38, 0x7CAE, 0x4E38, 0x6708, 0xC25C, 0x7A64,
    0x9EAC, 0x1124, 0x523A]

/-- The two tables are inverse to each other. -/
example : cantorPowers.map (bitSum cantorBasis) = (List.range 16).map (2 ^ ·) := by decide

/-- The parity words of three data words: linear combinations over the field. -/
def tinyParityWords : List (List Octets → Octets) :=
  [[0x2A30, 0x86FB, 0xBAF4], [0x86FB, 0x2A30, 0x163E], [0xBAF4, 0x163E, 0x2A30]].map
    (fun coefficients words => littleEndian 2 (bitSum cantorPowers
      ((coefficients.zip words).foldr (fun term sum =>
        fieldMul term.1 (bitSum cantorBasis (ofLittleEndian term.2)) ^^^ sum) 0)))

/-- The erasure code for six validators: three data shards and three parity shards. -/
def tinyShards (data : Octets) (originals parity : ℕ) : Option (List Octets) :=
  if originals = 3 ∧ parity = 3 then
    let padded := zeroPad 6 data
    some ((List.range 3).map (originalShard (padded.length / 3) padded) ++
      tinyParityWords.map (parityShard (padded.length / 6) 3 padded))
  else none

/-- The vector of the source's tests. -/
example : tinyShards [0x61, 0x5D, 0x17] 3 3 =
    some [[0x61, 0x5D], [0x17, 0x00], [0x00, 0x00], [0x59, 0xD0], [0x06, 0x15], [0x75, 0x6D]] := by
  decide +kernel

/-- It is a code of columns. -/
lemma tinyShards_columnCode : ColumnCode tinyShards 3 3
    (fun words => words ++ tinyParityWords.map (fun parityWord => parityWord words)) := by
  have hwords : ∀ parityWord ∈ tinyParityWords, ∀ words, (parityWord words).length = 2 := by
    intro parityWord hmem words
    obtain ⟨coefficients, -, rfl⟩ := List.mem_map.mp hmem
    exact length_littleEndian 2 _
  refine columnCode_of_parityWords hwords ?_
  intro data k _ hdata
  have hpadded : zeroPad 6 data = data := by
    rw [zeroPad, hdata, show 2 * k * 3 % 6 = 0 by omega, Nat.sub_zero, Nat.mod_self, List.replicate_zero,
      List.append_nil]
  rw [tinyShards, if_pos ⟨rfl, rfl⟩]
  simp only [hpadded, hdata, show 2 * k * 3 / 3 = 2 * k by omega, show 2 * k * 3 / 6 = k by omega]

/-- The primitives with this code. -/
def tinyPrimitives : Primitives := { samplePrimitives with encodeShards := tinyShards }

/-- A segment with different octets and one with a single octet. -/
def tinyExports : List Octets := [(List.range 4104).map UInt8.ofNat, 1 :: List.replicate 4103 0]

/-- Six validators, three octets of a bundle and two exports: each row has a chunk for each export and
one for their page, the shards of these alone. -/
theorem tinyPrimitives_layout : ∃ spec pages, ∃ rows : List Octets,
    availabilitySpec ⟨341, 5000000000⟩ tinyPrimitives (Vector.replicate 32 0) [1, 2, 3] tinyExports 6 =
      .ok spec ∧
    pagedProofSegments tinyPrimitives tinyExports = .ok pages ∧ rows.length = 6 ∧
    ∀ (i : ℕ) (row : Octets), rows[i]? = some row →
      (pieces (ecSegmentSize / 3) row).length = 2 + pages.length ∧
      ∀ (j : ℕ) (segment : Octets), (tinyExports ++ pages)[j]? = some segment →
        ∃ shards shard,
          encodeChunks ⟨341, 5000000000⟩ tinyPrimitives 6 (ecSegmentSize / (2 * 3)) segment =
            .ok shards ∧
          shards[i]? = some shard ∧ (pieces (ecSegmentSize / 3) row)[j]? = some shard := by
  have hthree : erasureDataShards ⟨341, 5000000000⟩ 6 = .ok 3 := by decide
  have hcode : ∀ originals, erasureDataShards ⟨341, 5000000000⟩ 6 = .ok originals →
      ColumnCode tinyShards originals ((6 : ℤ).toNat - originals)
        (fun words => words ++ tinyParityWords.map (fun parityWord => parityWord words)) := by
    intro originals horiginals
    rw [hthree] at horiginals
    cases horiginals
    exact tinyShards_columnCode
  have hsize : ∀ segment ∈ tinyExports, segment.length = ecSegmentSize := by
    intro segment hsegment
    rw [tinyExports, List.mem_cons, List.mem_singleton] at hsegment
    rcases hsegment with hsegment | hsegment
    · rw [hsegment, List.length_map, List.length_range, ecSegmentSize]
    · rw [hsegment, List.length_cons, List.length_replicate, ecSegmentSize]
  obtain ⟨spec, originals, pages, bundleShards, rows, hspec, horiginals, hpages, -, -, -, -, hrows,
    hchunks⟩ := availabilitySpec_layout ⟨341, 5000000000⟩ tinyPrimitives _ Codec.documented_natural
      (Vector.replicate 32 0) [1, 2, 3] tinyExports 6 (by decide) hcode (by decide +kernel) hsize
  rw [hthree] at horiginals
  cases horiginals
  refine ⟨spec, pages, rows, hspec, hpages, hrows, fun i row hrow => ?_⟩
  obtain ⟨hcount, hsegments⟩ := hchunks i row hrow
  refine ⟨hcount, fun j segment hsegment => ?_⟩
  obtain ⟨shards, shard, hencode, hshard, hpiece, -⟩ := hsegments j segment hsegment
  exact ⟨shards, shard, hencode, hshard, hpiece⟩

end Refinement
