import Pyjamaz.Library.BinaryCounter
import Pyjamaz.Library.Octets

/-!
# Merkle mountain ranges

The accumulation outputs are committed to by an append-only list of peaks, each the root of a perfect
tree over a power of two of the values.  `insert` works in place: it makes room at the front when the
number of values is about to need one more bit, puts the value down, merges it with the first two peaks
in a case of its own, and sweeps over the peaks once to carry what is left.

`insert_eq_carry` says that this is the carry of a binary counter (`BinaryCounter.carry`).  After room
was made, every peak sits one place too low and the sweep merges neighbours of one size; otherwise
the sweep moves a tree that is already merged into its place.  `MountainRange.insertAll_spec` reads
the peaks off the values that were inserted.
-/

namespace Merkle

open Octets BinaryCounter

namespace MountainRange

variable (keccak : Octets → Octets32)

/-! ## The code -/

/-- A slot of the range. -/
abbrev Peak := Option Octets

/-- `get_item_count` -/
def getItemCount (peaks : List Peak) : ℕ :=
  (peaks.zipIdx.map (fun (v, i) => (if v.isSome then 1 else 0) <<< i)).sum

/-- `merge_peaks` -/
def mergePeaks (right left : Octets) : Octets := (keccak (right ++ left)).toList

/-- The body of the sweep at one index. -/
def mergeAttempt (itemCount : ℕ) (peaks : List Peak) (idx : ℕ) : List Peak :=
  match peaks.getD idx none with
  | none => peaks
  | some peak =>
    if itemCount % 2 ^ (idx + 1) = 0 then
      match peaks.getD (idx + 1) none with
      | some sibling => (peaks.set (idx + 1) (some (mergePeaks keccak sibling peak))).set idx none
      | none => (peaks.set (idx + 1) (some peak)).set idx none
    else peaks

/-- The value is put down on an even position: alone, or merged with the first two peaks. -/
def place (peaks : List Peak) (value : Octets) : Option (List Peak) := do
  match ← peaks[0]? with
  | none => return peaks.set 0 (some value)
  | some first =>
    match ← peaks[1]? with
    | some second =>
      return (peaks.set 1 (some (mergePeaks keccak second (mergePeaks keccak first value)))).set 0 none
    | none => return (peaks.set 1 (some (mergePeaks keccak first value))).set 0 none

/-- `insert`, with `none` for `IndexError`. -/
def insert (peaks : List Peak) (value : Octets) : Option (List Peak) :=
  let itemCount := getItemCount peaks
  let peaks :=
    if TwosComplement.bitLength (itemCount + 1) > TwosComplement.bitLength itemCount then none :: peaks
    else peaks
  if (itemCount + 1) % 2 = 1 then
    if 0 < peaks.length then some (peaks.set 0 (some value)) else none
  else do
    let placed ← place keccak peaks value
    return (List.range (placed.length - 1)).foldl (mergeAttempt keccak (itemCount + 1)) placed

/-- `b'peak'` -/
def peakTag : Octets := [0x70, 0x65, 0x61, 0x6b]

/-- The recursion of `super_peak`, on peaks that are there. -/
def superPeakOf (peaks : List Octets) : Octets :=
  match peaks with
  | [] => List.replicate 32 0
  | [peak] => peak
  | first :: second :: rest =>
    (keccak (peakTag ++ superPeakOf ((first :: second :: rest).dropLast) ++
      (second :: rest).getLast (List.cons_ne_nil _ _))).toList
termination_by peaks.length
decreasing_by
  simp only [List.length_dropLast, List.length_cons]
  omega

/-- `super_peak` -/
def superPeak (peaks : List Peak) : Octets := superPeakOf keccak (peaks.filterMap id)

/-- Inserting a list of values, one after another. -/
def insertAll (values : List Octets) : Option (List Peak) := values.foldlM (insert keccak) []

variable {keccak}

/-! ## Counting -/

lemma getItemCount_eq (peaks : List Peak) : getItemCount peaks = count peaks := by
  have hshift : ∀ (peaks : List Peak) (n : ℕ),
      ((peaks.zipIdx n).map (fun (v, i) => (if v.isSome then 1 else 0) <<< i)).sum =
        2 ^ n * count peaks := by
    intro peaks
    induction peaks with
    | nil => exact fun _ => rfl
    | cons peak peaks ih =>
      intro n
      rw [List.zipIdx_cons, List.map_cons, List.sum_cons, ih (n + 1), count, pow_succ]
      show (if peak.isSome then 1 else 0) <<< n + 2 ^ n * 2 * count peaks = _
      rw [Nat.shiftLeft_eq]
      ring
  rw [getItemCount, hshift peaks 0, pow_zero, Nat.one_mul]

/-! ## The sweep -/

/-- The neighbour of a peak that is carried into its slot. -/
def carried (peak : Octets) : Peak → Octets
  | some sibling => mergePeaks keccak sibling peak
  | none => peak

variable (keccak) in
/-- Two neighbouring slots after one step of the sweep. -/
def attempt (itemCount idx : ℕ) (peak next : Peak) : Peak × Peak :=
  match peak with
  | none => (none, next)
  | some peak =>
    if itemCount % 2 ^ (idx + 1) = 0 then (none, some (@carried keccak peak next))
    else (some peak, next)

variable (keccak) in
/-- The sweep over a peak and those behind it, from an index on. -/
def sweep (itemCount : ℕ) : ℕ → Peak → List Peak → List Peak
  | _, peak, [] => [peak]
  | idx, peak, next :: rest =>
    (attempt keccak itemCount idx peak next).1 ::
      sweep itemCount (idx + 1) (attempt keccak itemCount idx peak next).2 rest

lemma getD_append_cons {front : List Peak} {peak : Peak} {rest : List Peak} :
    (front ++ peak :: rest).getD front.length none = peak := by
  rw [List.getD_eq_getElem?_getD, List.getElem?_append_right (le_refl _), Nat.sub_self,
    List.getElem?_cons_zero, Option.getD_some]

lemma set_append_cons {front : List Peak} {peak new : Peak} {rest : List Peak} :
    (front ++ peak :: rest).set front.length new = front ++ new :: rest := by
  rw [List.set_append_right _ _ (le_refl _), Nat.sub_self, List.set_cons_zero]

lemma length_append_singleton (front : List Peak) (peak : Peak) :
    (front ++ [peak]).length = front.length + 1 := by
  rw [List.length_append, List.length_singleton]

/-- One step of the sweep. -/
lemma mergeAttempt_append {itemCount : ℕ} {front : List Peak} {peak next : Peak} {rest : List Peak} :
    mergeAttempt keccak itemCount (front ++ peak :: next :: rest) front.length =
      front ++ (attempt keccak itemCount front.length peak next).1 ::
        (attempt keccak itemCount front.length peak next).2 :: rest := by
  have hassoc : front ++ peak :: next :: rest = (front ++ [peak]) ++ next :: rest := by
    rw [List.append_assoc, List.singleton_append]
  have hnext : (front ++ peak :: next :: rest).getD (front.length + 1) none = next := by
    rw [hassoc, ← length_append_singleton front peak, getD_append_cons]
  have hset : ∀ new : Peak, ((front ++ peak :: next :: rest).set (front.length + 1) new).set
      front.length none = front ++ none :: new :: rest := by
    intro new
    rw [hassoc, ← length_append_singleton front peak, set_append_cons, List.append_assoc,
      List.singleton_append, set_append_cons]
  rw [mergeAttempt, getD_append_cons]
  cases peak with
  | none => rfl
  | some peak =>
    rw [attempt]
    simp only [hnext, hset]
    by_cases hmerge : itemCount % 2 ^ (front.length + 1) = 0
    · rw [if_pos hmerge, if_pos hmerge]
      cases next <;> rfl
    · rw [if_neg hmerge, if_neg hmerge]

/-- The loop of the sweep. -/
lemma foldl_mergeAttempt {itemCount : ℕ} (peak : Peak) (rest : List Peak) :
    ∀ front : List Peak, (List.range' front.length rest.length).foldl (mergeAttempt keccak itemCount)
      (front ++ peak :: rest) = front ++ sweep keccak itemCount front.length peak rest := by
  induction rest generalizing peak with
  | nil => exact fun _ => rfl
  | cons next rest ih =>
    intro front
    have h := ih (attempt keccak itemCount front.length peak next).2
      (front ++ [(attempt keccak itemCount front.length peak next).1])
    rw [length_append_singleton, List.append_assoc, List.append_assoc, List.singleton_append,
      List.singleton_append] at h
    rw [List.length_cons, List.range'_succ, List.foldl_cons, mergeAttempt_append, h, sweep]

/-! ## What the sweep carries -/

/-- A sweep that cannot merge at its index merges nowhere. -/
lemma sweep_eq_self {itemCount idx : ℕ} (peak : Peak) (rest : List Peak)
    (h : itemCount % 2 ^ (idx + 1) ≠ 0) : sweep keccak itemCount idx peak rest = peak :: rest := by
  induction rest generalizing idx peak with
  | nil => rfl
  | cons next rest ih =>
    have hnext : itemCount % 2 ^ (idx + 1 + 1) ≠ 0 := by
      intro hzero
      refine h (Nat.mod_eq_zero_of_dvd ((pow_dvd_pow 2 (Nat.le_succ _)).trans ?_))
      exact Nat.dvd_of_mod_eq_zero hzero
    have hattempt : attempt keccak itemCount idx peak next = (peak, next) := by
      cases peak with
      | none => rfl
      | some peak => rw [attempt, if_neg h]
    rw [sweep, hattempt, ih next hnext]

/-- After room was made, every peak is one place too low, and the sweep carries through all of
them. -/
lemma sweep_full {itemCount idx : ℕ} (tree : Octets) (rest : List Peak) (hfull : none ∉ rest)
    (h : 2 ^ (idx + rest.length) ∣ itemCount) :
    sweep keccak itemCount idx (some tree) rest = carry (mergePeaks keccak) tree rest := by
  induction rest generalizing idx tree with
  | nil => rfl
  | cons next rest ih =>
    cases next with
    | none => exact absurd (List.mem_cons_self ..) hfull
    | some next =>
      rw [List.length_cons, ← Nat.add_assoc, Nat.add_right_comm] at h
      have hmerge : itemCount % 2 ^ (idx + 1) = 0 :=
        Nat.mod_eq_zero_of_dvd ((pow_dvd_pow 2 (Nat.le_add_right _ _)).trans h)
      have hrest : none ∉ rest := fun hmem => hfull (List.mem_cons_of_mem _ hmem)
      rw [sweep, attempt, if_pos hmerge, carry]
      exact congrArg (none :: ·) (ih (mergePeaks keccak next tree) hrest h)

/-- A tree that was merged already sits one place too low; the sweep carries it to the first free
slot and stops there. -/
lemma sweep_carry {itemCount idx : ℕ} (tree : Octets) (rest : List Peak) (hfree : none ∈ rest)
    (h : itemCount = 2 ^ (idx + 1) * (count rest + 1)) :
    sweep keccak itemCount idx (some tree) rest = none :: carry (mergePeaks keccak) tree rest := by
  induction rest generalizing idx tree with
  | nil => exact absurd hfree List.not_mem_nil
  | cons next rest ih =>
    have hmerge : itemCount % 2 ^ (idx + 1) = 0 := by
      rw [h]
      exact Nat.mul_mod_right _ _
    rw [sweep, attempt, if_pos hmerge]
    cases next with
    | none =>
      -- the number is odd from here on
      have hodd : itemCount % 2 ^ (idx + 1 + 1) ≠ 0 := by
        rw [h, count_none, pow_succ 2 (idx + 1), Nat.mul_mod_mul_left]
        have := Nat.two_pow_pos (idx + 1)
        rw [show (2 * count rest + 1) % 2 = 1 by omega]
        omega
      exact congrArg (none :: ·) (sweep_eq_self (some tree) rest hodd)
    | some next =>
      have hrest : none ∈ rest := by
        rcases List.mem_cons.mp hfree with hnone | hmem
        · exact absurd hnone.symm (Option.some_ne_none next)
        · exact hmem
      have hcount : itemCount = 2 ^ (idx + 1 + 1) * (count rest + 1) := by
        rw [h, count_some, pow_succ 2 (idx + 1)]
        ring
      rw [carry]
      exact congrArg (none :: ·) (ih (mergePeaks keccak next tree) hrest hcount)

/-! ## Insertion is a carry -/

lemma foldl_range_mergeAttempt {itemCount : ℕ} (peak : Peak) (rest : List Peak) :
    (List.range ((peak :: rest).length - 1)).foldl (mergeAttempt keccak itemCount) (peak :: rest) =
      sweep keccak itemCount 0 peak rest := by
  rw [List.length_cons, Nat.add_sub_cancel, List.range_eq_range']
  exact foldl_mergeAttempt peak rest []

/-- Room is made when all peaks are there. -/
lemma bitLength_lt_iff {peaks : List Peak} (h : Trimmed peaks) :
    TwosComplement.bitLength (count peaks + 1) > TwosComplement.bitLength (count peaks) ↔
      none ∉ peaks := by
  obtain ⟨hle, hfull⟩ := count_lt peaks
  rw [← hfull, ← length_eq_bitLength h, gt_iff_lt, TwosComplement.bitLength, Nat.lt_size]
  exact ⟨fun hge => le_antisymm hle hge, fun heq => heq.ge⟩

/-- Inserting with all peaks there. -/
lemma insert_full {peaks : List Peak} (h : Trimmed peaks) (hfull : none ∉ peaks) (value : Octets) :
    insert keccak peaks value = some (carry (mergePeaks keccak) value peaks) := by
  have hcount := (count_lt peaks).2.mpr hfull
  rw [insert, getItemCount_eq]
  simp only [if_pos ((bitLength_lt_iff h).mpr hfull)]
  cases peaks with
  | nil => rfl
  | cons peak rest =>
    have heven : ¬ (count (peak :: rest) + 1) % 2 = 1 := by
      rw [hcount, List.length_cons, pow_succ]
      omega
    have hplace : place keccak (none :: peak :: rest) value = some (some value :: peak :: rest) := rfl
    have hdvd : 2 ^ (0 + (peak :: rest).length) ∣ count (peak :: rest) + 1 := by
      rw [hcount, Nat.zero_add]
    rw [if_neg heven, hplace]
    show some _ = _
    rw [foldl_range_mergeAttempt, sweep_full value (peak :: rest) hfull hdvd]

/-- Inserting with a free slot. -/
lemma insert_free {peaks : List Peak} (h : Trimmed peaks) (hfree : none ∈ peaks) (value : Octets) :
    insert keccak peaks value = some (carry (mergePeaks keccak) value peaks) := by
  have hroom : ¬ TwosComplement.bitLength (count peaks + 1) >
      TwosComplement.bitLength (count peaks) :=
    fun hgt => (bitLength_lt_iff h).mp hgt hfree
  rw [insert, getItemCount_eq]
  simp only [if_neg hroom]
  cases peaks with
  | nil => exact absurd hfree List.not_mem_nil
  | cons first rest =>
    cases first with
    | none =>
      rw [count_none, if_pos (by omega), if_pos (List.length_pos_of_mem hfree)]
      rfl
    | some first =>
      have hrest : none ∈ rest := by
        rcases List.mem_cons.mp hfree with hnone | hmem
        · exact absurd hnone.symm (Option.some_ne_none first)
        · exact hmem
      rw [if_neg (by rw [count_some]; omega)]
      cases rest with
      | nil => exact absurd hrest List.not_mem_nil
      | cons second rest =>
        cases second with
        | none =>
          -- the merged tree is where it belongs
          have hplace : place keccak (some first :: none :: rest) value =
              some (none :: some (mergePeaks keccak first value) :: rest) := rfl
          have hodd : (count (some first :: none :: rest) + 1) % 2 ^ (0 + 1 + 1) ≠ 0 := by
            rw [count_some, count_none]
            omega
          rw [hplace]
          show some _ = _
          rw [foldl_range_mergeAttempt]
          exact congrArg (fun peaks => some (none :: peaks)) (sweep_eq_self _ rest hodd)
        | some second =>
          have hrest : none ∈ rest := by
            rcases List.mem_cons.mp hrest with hnone | hmem
            · exact absurd hnone.symm (Option.some_ne_none second)
            · exact hmem
          have hplace : place keccak (some first :: some second :: rest) value =
              some (none :: some (mergePeaks keccak second (mergePeaks keccak first value)) :: rest) := rfl
          have hcount : count (some first :: some second :: rest) + 1 =
              2 ^ (0 + 1 + 1) * (count rest + 1) := by
            rw [count_some, count_some]
            omega
          rw [hplace]
          show some _ = _
          rw [foldl_range_mergeAttempt]
          exact congrArg (fun peaks => some (none :: peaks)) (sweep_carry _ rest hrest hcount)

/-- Inserting a value is adding one to the counter. -/
lemma insert_eq_carry {peaks : List Peak} (h : Trimmed peaks) (value : Octets) :
    insert keccak peaks value = some (carry (mergePeaks keccak) value peaks) := by
  by_cases hfree : none ∈ peaks
  · exact insert_free h hfree value
  · exact insert_full h hfree value

/-! ## The root of the range -/

lemma superPeakOf_singleton (peak : Octets) : superPeakOf keccak [peak] = peak := by
  rw [superPeakOf]

lemma superPeakOf_cons_cons (first second : Octets) (rest : List Octets) :
    superPeakOf keccak (first :: second :: rest) =
      (keccak (peakTag ++ superPeakOf keccak ((first :: second :: rest).dropLast) ++
        (second :: rest).getLast (List.cons_ne_nil _ _))).toList := by
  rw [superPeakOf]

/-- One step of the recursion takes the largest peak. -/
lemma superPeakOf_append (first : Octets) (rest : List Octets) (last : Octets) :
    superPeakOf keccak (first :: (rest ++ [last])) =
      (keccak (peakTag ++ superPeakOf keccak (first :: rest) ++ last)).toList := by
  cases rest with
  | nil =>
    rw [List.nil_append, superPeakOf_cons_cons]
    rfl
  | cons second rest =>
    have hlast : (second :: (rest ++ [last])).getLast (List.cons_ne_nil _ _) = last := by
      show ((second :: rest) ++ [last]).getLast _ = last
      exact List.getLast_append_singleton _
    have hfront : (first :: second :: (rest ++ [last])).dropLast = first :: second :: rest := by
      show ((first :: second :: rest) ++ [last]).dropLast = _
      exact List.dropLast_concat
    rw [List.cons_append, superPeakOf_cons_cons, hlast, hfront]

/-- The recursion of `super_peak` folds the peaks from the front. -/
lemma superPeakOf_eq (peak : Octets) (peaks : List Octets) :
    superPeakOf keccak (peak :: peaks) =
      peaks.foldl (fun root next => (keccak (peakTag ++ root ++ next)).toList) peak := by
  induction peaks using List.reverseRecOn with
  | nil => exact superPeakOf_singleton peak
  | append_singleton front last ih =>
    rw [List.foldl_append, List.foldl_cons, List.foldl_nil, ← ih, superPeakOf_append]

/-- The range after any number of values: it is the counter of these values, every peak that is there
is the root over its own block of them, and the root of the range folds the peaks from the smallest. -/
theorem insertAll_spec (keccak : Octets → Octets32) (values : List Octets) :
    ∃ peaks, insertAll keccak values = some peaks ∧
      peaks = values.foldl (fun peaks value => carry (mergePeaks keccak) value peaks) [] ∧
      getItemCount peaks = values.length ∧
      peaks.length = TwosComplement.bitLength values.length ∧
      (∀ i < peaks.length, peaks[i]? = some (if values.length.testBit i then
        some (perfectRoot (mergePeaks keccak) [] i
          ((values.drop (2 * 2 ^ i * (values.length / 2 ^ (i + 1)))).take (2 ^ i))) else none)) ∧
      superPeak keccak peaks =
        match peaks.filterMap id with
        | [] => List.replicate 32 0
        | smallest :: larger =>
          larger.foldl (fun root next => (keccak (peakTag ++ root ++ next)).toList) smallest := by
  have hrun : ∃ peaks, insertAll keccak values = some peaks ∧
      peaks = values.foldl (fun peaks value => carry (mergePeaks keccak) value peaks) [] ∧
      Trimmed peaks ∧ Mountain (mergePeaks keccak) [] 0 values peaks := by
    induction values using List.reverseRecOn with
    | nil => exact ⟨[], rfl, rfl, trimmed_nil, .empty 0⟩
    | append_singleton values value ih =>
      obtain ⟨peaks, hinsert, hfold, htrimmed, hmountain⟩ := ih
      refine ⟨_, ?_, ?_, trimmed_carry htrimmed,
        mountain_carry hmountain (show [value].length = 2 ^ 0 from rfl)⟩
      · rw [insertAll, List.foldlM_append]
        rw [insertAll] at hinsert
        rw [hinsert]
        show insert keccak peaks value >>= _ = _
        rw [insert_eq_carry htrimmed]
        rfl
      · rw [List.foldl_append, ← hfold]
        rfl
  obtain ⟨peaks, hinsert, hfold, htrimmed, hmountain⟩ := hrun
  have hcount : count peaks = values.length := by
    rw [hmountain.length_values, pow_zero, Nat.one_mul]
  refine ⟨peaks, hinsert, hfold, by rw [getItemCount_eq, hcount], by
    rw [length_eq_bitLength htrimmed, hcount], ?_, ?_⟩
  · intro i hi
    have hdigit := hmountain.digit_eq hi
    rwa [hcount, Nat.zero_add] at hdigit
  · rw [superPeak]
    cases peaks.filterMap id with
    | nil => rw [superPeakOf]
    | cons smallest larger => exact superPeakOf_eq smallest larger

end MountainRange

end Merkle
