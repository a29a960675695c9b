import Mathlib.Data.List.Perm.Basic
import Mathlib.Data.Vector.Basic
import Pyjamaz.Assurances.Transition
import Pyjamaz.Library.Octets
import Pyjamaz.Library.Result
import Pyjamaz.Library.Shuffle

/-!
# The guarantors of a core

The validators are divided into triples, one for each active core: the core indices are shuffled by
the entropy and then rotated by the timeslot.  A guarantee names its guarantors by their index, and
each of them has to be assigned to the core of the report, either in the rotation of the block or in
the one before it.

The shuffle happens in place: the loop shortens nothing but a counter and leaves stale elements
behind it (`Shuffling`), which does not matter (`fisherYatesShuffle_eq`).  That the shuffle permutes
and the rotation is a bijection gives every core three validators (`count_guarantorPermute`).
-/

namespace Assurances

open Octets (encodeUint ofLittleEndian slice)

variable {α Report Hash Key Signature : Type}

/-! ## The shuffle in place -/

section Shuffle

open FisherYates

/-- The variables of the loop: only the first `length` elements of the data count. -/
structure Shuffling (α : Type) where
  data : List α
  length : ℕ
  shuffled : List α
  length_le : length ≤ data.length

lemma Shuffling.index_lt (s : Shuffling α) (h : s.length ≠ 0) (item : ℤ) :
    itemIndex item s.length < s.data.length :=
  Nat.lt_of_lt_of_le (itemIndex_lt item h) s.length_le

/-- The body of the loop. -/
def Shuffling.step (s : Shuffling α) (item : ℤ) (h : s.length ≠ 0) : Shuffling α where
  data := s.data.set (itemIndex item s.length)
    (getElem s.data (s.length - 1) (by have := s.length_le; omega))
  length := s.length - 1
  shuffled := s.shuffled ++ [getElem s.data (itemIndex item s.length) (s.index_lt h item)]
  length_le := by
    have := s.length_le
    rw [List.length_set]
    omega

/-- The loop over the sequence, which stops when nothing is left. -/
def Shuffling.run (s : Shuffling α) : List ℤ → List α
  | [] => s.shuffled
  | item :: sequence => if h : s.length = 0 then s.shuffled else (s.step item h).run sequence

/-- The shuffle of a list in place. -/
def fisherYatesShuffle (data : List α) (sequence : List ℤ) : List α :=
  if data.length = 0 then [] else Shuffling.run ⟨data, data.length, [], le_refl _⟩ sequence

/-! ## The loop computes the recursion -/

/-- The part of the data that counts. -/
def Shuffling.live (s : Shuffling α) : List α := s.data.take s.length

lemma Shuffling.length_live (s : Shuffling α) : s.live.length = s.length := by
  rw [live, List.length_take, Nat.min_eq_left s.length_le]

/-- One turn of the loop takes its element out of the part that counts. -/
lemma Shuffling.live_step (s : Shuffling α) (item : ℤ) (h : s.length ≠ 0)
    (hindex : itemIndex item s.length < s.live.length) :
    (s.step item h).live = remaining s.live (itemIndex item s.length) hindex := by
  have hlast : getElem s.live (s.live.length - 1) (by omega) =
      getElem s.data (s.length - 1) (by have := s.length_le; omega) := by
    simp only [s.length_live]
    exact List.getElem_take ..
  rw [remaining, hlast, List.dropLast_eq_take, List.length_set, s.length_live]
  show (s.data.set _ _).take (s.length - 1) = _
  rw [live, List.take_set, List.take_set, List.take_take,
    Nat.min_eq_left (Nat.sub_le s.length 1)]

/-- The loop appends the shuffle of the part of the data that counts. -/
lemma Shuffling.run_eq (s : Shuffling α) (sequence : List ℤ) :
    s.run sequence = s.shuffled ++ shuffle s.live sequence := by
  induction sequence generalizing s with
  | nil => rw [run, shuffle, List.append_nil]
  | cons item sequence ih =>
    have hlength := s.length_live
    rw [run, shuffle]
    by_cases h : s.length = 0
    · rw [dif_pos h, dif_pos (by omega), List.append_nil]
    · have hindex : itemIndex item s.length < s.live.length := by
        rw [hlength]
        exact itemIndex_lt item h
      have heq : itemIndex item s.live.length = itemIndex item s.length := by rw [hlength]
      have htaken : getElem s.live (itemIndex item s.live.length) (by rw [heq]; exact hindex) =
          getElem s.data (itemIndex item s.length) (s.index_lt h item) := by
        simp only [heq]
        exact List.getElem_take ..
      rw [dif_neg h, dif_neg (by omega), ih, s.live_step item h hindex, htaken,
        remaining_congr heq]
      show (s.shuffled ++ [_]) ++ _ = _
      rw [List.append_assoc]
      rfl

/-- The shuffle in place is the recursion. -/
theorem fisherYatesShuffle_eq (data : List α) (sequence : List ℤ) :
    fisherYatesShuffle data sequence = shuffle data sequence := by
  rw [fisherYatesShuffle]
  by_cases h : data.length = 0
  · rw [if_pos h]
    cases sequence with
    | nil => rw [shuffle]
    | cons item sequence => rw [shuffle, dif_pos h]
  · rw [if_neg h, Shuffling.run_eq, Shuffling.live]
    show [] ++ shuffle (data.take data.length) sequence = _
    rw [List.take_length, List.nil_append]

end Shuffle

/-! ## The assignment -/

/-- The constants that the assignment reads. -/
structure Constants where
  coreCount : ℕ
  epochTimeslots : ℕ
  rotationPeriodCore : ℕ
  rotationPeriodCore_pos : 0 < rotationPeriodCore
  coreCount_le : coreCount ≤ 341

/-- `valid_validator_count` -/
def Constants.validValidatorCount (constants : Constants) (count : ℕ) : Bool :=
  6 ≤ count && count ≤ 3 * constants.coreCount && count % 3 = 0

/-- What the assignment raises. -/
inductive AssignmentError where
  | overflowError
  | valueError
  | indexError
  deriving DecidableEq, Repr

section Assignment

variable (constants : Constants) (blake2b256Hash : Octets → Octets32)

/-- `int.to_bytes(n, 4, byteorder='little')` -/
def toBytes (n : ℕ) : Except AssignmentError Octets :=
  (encodeUint 4 n).elim (.error .overflowError) .ok

/-- One number of the sequence. -/
def numericItem (entropy : Octets) (i : ℕ) : Except AssignmentError ℤ := do
  let preimage := entropy ++ (← toBytes (i / 8))
  let offset := 4 * i % 32
  return ofLittleEndian (slice (blake2b256Hash preimage).toList offset (offset + 4))

/-- `numeric_sequence_from_entropy` -/
def numericSequenceFromEntropy (entropy : Octets) (length : ℕ) :
    Except AssignmentError (List ℤ) :=
  (List.range length).mapM (numericItem blake2b256Hash entropy)

/-- `entropy_shuffle` -/
def entropyShuffle (data : List ℕ) (entropy : Octets) : Except AssignmentError (List ℕ) := do
  let sequence ← numericSequenceFromEntropy blake2b256Hash entropy data.length
  return fisherYatesShuffle data sequence

/-- `guarantor_rotation` -/
def guarantorRotation (coreIndices : List ℕ) (rotationOffset : ℕ) :
    Except AssignmentError (List ℕ) :=
  let activeCores := coreIndices.length / 3
  if activeCores = 0 ∨ coreIndices.length % 3 ≠ 0 then .error .valueError
  else .ok (coreIndices.map fun x => (x + rotationOffset) % activeCores)

/-- The rotation at a timeslot, which lies before the genesis when the rotation before the first one
is asked for. -/
def rotationOffset (timeslot : ℤ) : ℕ :=
  (timeslot % constants.epochTimeslots / constants.rotationPeriodCore).toNat

/-- `guarantor_permute` -/
def guarantorPermute (entropy : Octets) (timeslot : ℤ) (validatorCount : ℕ) :
    Except AssignmentError (List ℕ) := do
  let coreIndices ← entropyShuffle blake2b256Hash ((List.range validatorCount).map (· / 3)) entropy
  guarantorRotation coreIndices (rotationOffset constants timeslot)

structure GuarantorAssignment (Key : Type) where
  coreIndex : ℕ
  validatorEd25519 : Key
  deriving DecidableEq

/-- The assignments of a list of validators, each with its key. -/
def assignmentsOf (validators : List Key) (coreIndices : List ℕ) :
    Except AssignmentError (List (GuarantorAssignment Key)) :=
  coreIndices.zipIdx.mapM fun x =>
    match validators[x.2]? with
    | none => .error .indexError
    | some key => .ok ⟨x.1, key⟩

/-- The parts of the state after the block that the assignments depend on. -/
structure AssignmentState (Key : Type) where
  entropy : Vector Octets 4
  timeslot : ℕ
  validatorPool : List Key
  validatorArchive : List Key

/-- Whether the rotation before the one of the timeslot lies in the same epoch. -/
def AssignmentState.sameEpoch (s : AssignmentState Key) : Prop :=
  ((s.timeslot : ℤ) - constants.rotationPeriodCore) / constants.epochTimeslots =
    (s.timeslot : ℤ) / constants.epochTimeslots

instance (s : AssignmentState Key) : Decidable (s.sameEpoch constants) :=
  inferInstanceAs (Decidable (_ = _))

/-- The entropy and the validators of the rotation before. -/
def AssignmentState.prev (s : AssignmentState Key) : Octets × List Key :=
  if s.sameEpoch constants then (s.entropy.get 2, s.validatorPool)
  else (s.entropy.get 3, s.validatorArchive)

/-- `set_guarantor_assignments` -/
def setGuarantorAssignments (s : AssignmentState Key) :
    Except AssignmentError (List (GuarantorAssignment Key)) := do
  let assignments ← guarantorPermute constants blake2b256Hash (s.entropy.get 2) s.timeslot
    s.validatorPool.length
  assignmentsOf s.validatorPool assignments

/-- `set_prev_guarantor_assignments` -/
def setPrevGuarantorAssignments (s : AssignmentState Key) :
    Except AssignmentError (List (GuarantorAssignment Key)) := do
  let assignments ← guarantorPermute constants blake2b256Hash (s.prev constants).1
    ((s.timeslot : ℤ) - constants.rotationPeriodCore) (s.prev constants).2.length
  assignmentsOf (s.prev constants).2 assignments

end Assignment

/-! ## Three validators for each core -/

section Counts

variable {constants : Constants} {blake2b256Hash : Octets → Octets32}

/-- Every index of the triples below a bound stands three times. -/
lemma countP_triples (m x : ℕ) :
    (List.range (3 * m)).countP (fun i => i / 3 = x) = if x < m then 3 else 0 := by
  induction m with
  | zero => rw [if_neg (Nat.not_lt_zero x)]; rfl
  | succ m ih =>
    rw [Nat.mul_succ, List.range_succ, List.range_succ, List.range_succ, List.countP_append,
      List.countP_append, List.countP_append, ih]
    simp only [List.countP_singleton, decide_eq_true_eq]
    rw [show 3 * m / 3 = m by omega, show (3 * m + 1) / 3 = m by omega,
      show (3 * m + 2) / 3 = m by omega]
    split_ifs <;> omega

/-- The rotation moves exactly one core index to each core. -/
lemma rotate_eq_iff {m o c x : ℕ} (hc : c < m) (hx : x < m) :
    (x + o) % m = c ↔ x = (c + (m - o % m)) % m := by
  have ho := Nat.mod_lt o (Nat.lt_of_le_of_lt (Nat.zero_le c) hc)
  have hsplit : (x + o) % m = (x + o % m) % m := (Nat.add_mod_mod x o m).symm
  rw [hsplit]
  generalize o % m = r at ho
  rcases Nat.lt_or_ge (x + r) m with h | h
  · rw [Nat.mod_eq_of_lt h]
    rcases Nat.lt_or_ge (c + (m - r)) m with h' | h'
    · rw [Nat.mod_eq_of_lt h']
      omega
    · rw [Nat.mod_eq_sub_mod h', Nat.mod_eq_of_lt (by omega)]
      omega
  · rw [Nat.mod_eq_sub_mod h, Nat.mod_eq_of_lt (by omega)]
    rcases Nat.lt_or_ge (c + (m - r)) m with h' | h'
    · rw [Nat.mod_eq_of_lt h']
      omega
    · rw [Nat.mod_eq_sub_mod h', Nat.mod_eq_of_lt (by omega)]
      omega

/-- The sequence is as long as it is asked for. -/
lemma length_numericSequence {entropy : Octets} {length : ℕ} {sequence : List ℤ}
    (h : numericSequenceFromEntropy blake2b256Hash entropy length = .ok sequence) :
    sequence.length = length := by
  have hitems := (Except.mapM_eq_ok_iff.mp h).length_eq
  rw [← hitems, List.length_range]

/-- The core indices are shuffled. -/
lemma entropyShuffle_perm {data shuffled : List ℕ} {entropy : Octets}
    (h : entropyShuffle blake2b256Hash data entropy = .ok shuffled) : shuffled.Perm data := by
  obtain ⟨sequence, hsequence, h⟩ := Except.bind_eq_ok.mp h
  cases h
  rw [fisherYatesShuffle_eq]
  exact FisherYates.shuffle_perm (length_numericSequence hsequence).ge

/-- What a rotation that succeeds gives. -/
lemma guarantorRotation_eq_ok {coreIndices rotated : List ℕ} {o : ℕ} :
    guarantorRotation coreIndices o = .ok rotated ↔
      (coreIndices.length / 3 ≠ 0 ∧ coreIndices.length % 3 = 0) ∧
        coreIndices.map (fun x => (x + o) % (coreIndices.length / 3)) = rotated := by
  unfold guarantorRotation
  dsimp only
  by_cases h : coreIndices.length / 3 = 0 ∨ coreIndices.length % 3 ≠ 0
  · rw [if_pos h]
    refine iff_of_false (fun herror => by cases herror) (fun hok => ?_)
    exact h.elim hok.1.1 (fun hmod => hmod hok.1.2)
  · rw [if_neg h, Except.ok.injEq]
    rw [not_or, not_not] at h
    exact ⟨fun heq => ⟨h, heq⟩, fun hok => hok.2⟩

/-- An assignment that succeeds gives a core to every validator, and three validators to every
core. -/
lemma guarantorPermute_eq_ok {entropy : Octets} {timeslot : ℤ} {n : ℕ} {assignments : List ℕ}
    (h : guarantorPermute constants blake2b256Hash entropy timeslot n = .ok assignments) :
    assignments.length = n ∧ n % 3 = 0 ∧ (∀ core ∈ assignments, core < n / 3) ∧
      ∀ core < n / 3, assignments.count core = 3 := by
  obtain ⟨shuffled, hshuffled, h⟩ := Except.bind_eq_ok.mp h
  have hperm := entropyShuffle_perm hshuffled
  have hlength : shuffled.length = n := by
    rw [hperm.length_eq, List.length_map, List.length_range]
  obtain ⟨⟨hpos, hmod⟩, rfl⟩ := guarantorRotation_eq_ok.mp h
  rw [hlength] at hpos hmod ⊢
  refine ⟨by rw [List.length_map, hlength], hmod, ?_, ?_⟩
  · intro core hcore
    obtain ⟨x, -, rfl⟩ := List.mem_map.mp hcore
    exact Nat.mod_lt _ (Nat.pos_of_ne_zero hpos)
  · intro core hcore
    obtain ⟨m, rfl⟩ : ∃ m, n = 3 * m := ⟨n / 3, by omega⟩
    rw [Nat.mul_div_cancel_left m (by omega)] at hcore ⊢
    set o := rotationOffset constants timeslot
    have hx : (core + (m - o % m)) % m < m := Nat.mod_lt _ (by omega)
    calc (shuffled.map fun x => (x + o) % m).count core
        = (((List.range (3 * m)).map (· / 3)).map fun x => (x + o) % m).count core :=
          (hperm.map _).count_eq core
      _ = (List.range (3 * m)).countP (fun i => (i / 3 + o) % m = core) := by
          rw [List.map_map, List.count, List.countP_map]
          rfl
      _ = (List.range (3 * m)).countP (fun i => i / 3 = (core + (m - o % m)) % m) := by
          refine List.countP_congr (fun i hi => ?_)
          have hi := List.mem_range.mp hi
          rw [decide_eq_true_eq, decide_eq_true_eq]
          exact rotate_eq_iff hcore (by omega)
      _ = 3 := by rw [countP_triples, if_pos hx]

/-- The number of an index below `2 ^ 35` is there. -/
lemma exists_numericItem (entropy : Octets) {i : ℕ} (h : i < 2 ^ 35) :
    ∃ item, numericItem blake2b256Hash entropy i = .ok item := by
  have hbytes : toBytes (i / 8) = .ok (Octets.littleEndian 4 (i / 8)) := by
    rw [toBytes, encodeUint, if_pos (by omega)]
    rfl
  rw [numericItem, hbytes]
  exact ⟨_, rfl⟩

/-- A sequence of at most `2 ^ 35` numbers is there. -/
lemma exists_numericSequence (entropy : Octets) (length : ℕ) (h : length ≤ 2 ^ 35) :
    ∃ sequence, numericSequenceFromEntropy blake2b256Hash entropy length = .ok sequence :=
  Except.exists_mapM_eq_ok fun _ hi =>
    exists_numericItem entropy (Nat.lt_of_lt_of_le (List.mem_range.mp hi) h)

/-- The assignment of a valid number of validators succeeds. -/
lemma exists_guarantorPermute (entropy : Octets) (timeslot : ℤ) {n : ℕ}
    (hn : constants.validValidatorCount n = true) :
    ∃ assignments, guarantorPermute constants blake2b256Hash entropy timeslot n = .ok assignments := by
  have hcores := constants.coreCount_le
  simp only [Constants.validValidatorCount, Bool.and_eq_true, decide_eq_true_eq] at hn
  obtain ⟨⟨hlow, hhigh⟩, hmod⟩ := hn
  have hlength : ((List.range n).map (· / 3)).length = n := by
    rw [List.length_map, List.length_range]
  obtain ⟨sequence, hsequence⟩ : ∃ sequence, numericSequenceFromEntropy blake2b256Hash entropy
      ((List.range n).map (· / 3)).length = .ok sequence :=
    exists_numericSequence entropy _ (by omega)
  have hshuffled : entropyShuffle blake2b256Hash ((List.range n).map (· / 3)) entropy =
      .ok (fisherYatesShuffle ((List.range n).map (· / 3)) sequence) := by
    rw [entropyShuffle, hsequence]
    rfl
  have hsame := (entropyShuffle_perm hshuffled).length_eq.trans hlength
  rw [guarantorPermute, hshuffled]
  exact ⟨_, guarantorRotation_eq_ok.mpr ⟨by rw [hsame]; omega, rfl⟩⟩

end Counts

/-! ## The guarantees extrinsic -/

/-- What the checks of a guarantee read of a report besides. -/
structure GuaranteeFields (Report Hash : Type) extends ReportFields Report Hash where
  packageHash : Report → Hash
  authorizerHash : Report → Hash
  prerequisites : Report → List Hash

inductive GuaranteeError where
  | assignment (error : AssignmentError)
  | otherCheck
  | outOfOrderGuarantee
  | futureReportSlot
  | reportEpochBeforeLast
  | badCoreIndex
  | badErasureShards
  | notSortedOrUniqueGuarantors
  | insufficientGuarantees
  | badValidatorIndex
  | wrongAssignment
  | bannedValidator
  | badSignature
  | coreEngaged
  | coreUnauthorized
  | dependencyMissing
  | indexError
  deriving DecidableEq, Repr

/-- The assignments of the two rotations. -/
structure BlockContext (Key : Type) where
  guarantorAssignments : List (GuarantorAssignment Key)
  prevGuarantorAssignments : List (GuarantorAssignment Key)

/-- What the checks of the guarantees of a block read besides: the cores, the offenders, the
authorizers, and the checks that are apart from guarantors, before and after the order of the
guarantees is checked and at the end. -/
structure GuaranteeContext (Report Hash Key Signature : Type) where
  fields : GuaranteeFields Report Hash
  cores : List (Option (AssuranceStateItem Report Signature))
  offenders : List Key
  authorizerPools : List (List Hash)
  reportedPackages : List Hash
  validGuaranteeSignature : Credential Signature → Guarantee Report Signature → Key → Bool
  checkReport : Report → Bool
  checkPackages : List Report → Bool
  checkExportCount : Report → Bool

section Guarantees

variable [DecidableEq Hash] [DecidableEq Key] (constants : Constants)
  (ctx : GuaranteeContext Report Hash Key Signature) (s : AssignmentState Key)
  (blockContext : BlockContext Key)

/-- Whether a slot lies in the rotation of the block. -/
def AssignmentState.sameRotation (slot : ℕ) : Prop :=
  s.timeslot / constants.rotationPeriodCore = slot / constants.rotationPeriodCore

instance (slot : ℕ) : Decidable (s.sameRotation constants slot) :=
  inferInstanceAs (Decidable (_ = _))

/-- `get_guarantor_assignments` -/
def getGuarantorAssignments (g : Guarantee Report Signature) : List (GuarantorAssignment Key) :=
  if s.sameRotation constants g.slot then blockContext.guarantorAssignments
  else blockContext.prevGuarantorAssignments

/-- The check of one credential. -/
def validateCredential (assignments : List (GuarantorAssignment Key))
    (g : Guarantee Report Signature) (c : Credential Signature) : Except GuaranteeError Unit :=
  match assignments[c.validatorIndex]? with
  | none => .error .badValidatorIndex
  | some assignment => do
    Except.raiseIf (assignment.coreIndex ≠ ctx.fields.coreIndex g.report) .wrongAssignment
    Except.raiseIf (assignment.validatorEd25519 ∈ ctx.offenders) .bannedValidator
    Except.raiseIf (¬ ctx.validGuaranteeSignature c g assignment.validatorEd25519) .badSignature

/-- The check of the authorizer of a report. -/
def checkAuthorizer (report : Report) : Except GuaranteeError Unit :=
  match ctx.authorizerPools[ctx.fields.coreIndex report]? with
  | none => .error .indexError
  | some pool => Except.raiseIf (ctx.fields.authorizerHash report ∉ pool) .coreUnauthorized

/-- The checks of one guarantee. -/
def checkGuarantee (packages : List Hash) (g : Guarantee Report Signature) :
    Except GuaranteeError Unit := do
  Except.raiseIf (s.timeslot < g.slot) .futureReportSlot
  Except.raiseIf
    ((g.slot : ℤ) < constants.rotationPeriodCore *
      ((s.timeslot : ℤ) / constants.rotationPeriodCore - 1)) .reportEpochBeforeLast
  Except.raiseIf (ctx.cores.length ≤ ctx.fields.coreIndex g.report) .badCoreIndex
  Except.raiseIf (s.validatorPool.length / 3 ≤ ctx.fields.coreIndex g.report) .badCoreIndex
  Except.raiseIf (ctx.fields.erasureShards g.report ≠ s.validatorPool.length) .badErasureShards
  Except.raiseIf (¬ areGuarantorsUnqiueAndSorted g.signatures) .notSortedOrUniqueGuarantors
  Except.raiseIf (g.signatures.length < 2 ∨ 3 < g.signatures.length) .insufficientGuarantees
  g.signatures.forM (validateCredential ctx (getGuarantorAssignments constants s blockContext g) g)
  Except.raiseIf (ctx.cores[ctx.fields.coreIndex g.report]?.join).isSome .coreEngaged
  checkAuthorizer ctx g.report
  (ctx.fields.prerequisites g.report).forM fun prerequisite =>
    Except.raiseIf (prerequisite ∉ ctx.reportedPackages ∧ prerequisite ∉ packages)
      .dependencyMissing

/-- `validate_guarantees` -/
def checkGuarantees (guarantees : List (Guarantee Report Signature)) :
    Except GuaranteeError Unit := do
  let reports := guarantees.map Guarantee.report
  Except.raiseIf (¬ reports.all ctx.checkReport) .otherCheck
  Except.raiseIf (¬ areGuarenteesSorted ctx.fields.toReportFields guarantees) .outOfOrderGuarantee
  Except.raiseIf (hasDuplicatedGuarentees ctx.fields.toReportFields guarantees) .outOfOrderGuarantee
  Except.raiseIf (¬ ctx.checkPackages reports) .otherCheck
  guarantees.forM (checkGuarantee constants ctx s blockContext (reports.map ctx.fields.packageHash))
  Except.raiseIf (¬ reports.all ctx.checkExportCount) .otherCheck

/-- The assignments of the block are computed from the state after it, and the guarantees are checked
against them. -/
def validateGuaranteesOfBlock (blake2b256Hash : Octets → Octets32)
    (guarantees : List (Guarantee Report Signature)) : Except GuaranteeError Unit := do
  let current ← (setGuarantorAssignments constants blake2b256Hash s).mapError .assignment
  let prev ← (setPrevGuarantorAssignments constants blake2b256Hash s).mapError .assignment
  checkGuarantees constants ctx s ⟨current, prev⟩ guarantees

end Guarantees

/-! ## The guarantors of an accepted guarantee -/

section Accepted

variable [DecidableEq Hash] [DecidableEq Key] {constants : Constants}
  {blake2b256Hash : Octets → Octets32} {ctx : GuaranteeContext Report Hash Key Signature}
  {s : AssignmentState Key} {blockContext : BlockContext Key}

/-- The checks of an accepted guarantee that are about its guarantors. -/
lemma checkGuarantee_eq_ok {packages : List Hash} {g : Guarantee Report Signature}
    (h : checkGuarantee constants ctx s blockContext packages g = .ok ()) :
    areGuarantorsUnqiueAndSorted g.signatures = true ∧
      (g.signatures.length = 2 ∨ g.signatures.length = 3) ∧
      ∀ c ∈ g.signatures, ∃ assignment,
        (getGuarantorAssignments constants s blockContext g)[c.validatorIndex]? = some assignment ∧
          assignment.coreIndex = ctx.fields.coreIndex g.report := by
  rw [checkGuarantee] at h
  obtain ⟨-, -, h⟩ := Except.bind_eq_ok.mp h
  obtain ⟨-, -, h⟩ := Except.bind_eq_ok.mp h
  obtain ⟨-, -, h⟩ := Except.bind_eq_ok.mp h
  obtain ⟨-, -, h⟩ := Except.bind_eq_ok.mp h
  obtain ⟨-, -, h⟩ := Except.bind_eq_ok.mp h
  obtain ⟨_, hsorted, h⟩ := Except.bind_eq_ok.mp h
  obtain ⟨_, hcount, h⟩ := Except.bind_eq_ok.mp h
  obtain ⟨⟨⟩, hcredentials, -⟩ := Except.bind_eq_ok.mp h
  rw [Except.raiseIf_eq_ok] at hsorted hcount
  refine ⟨not_not.mp hsorted, by omega, fun c hc => ?_⟩
  have hcredential := Except.forM_eq_ok hcredentials c hc
  rw [validateCredential] at hcredential
  cases hassignment : (getGuarantorAssignments constants s blockContext g)[c.validatorIndex]? with
  | none =>
    rw [hassignment] at hcredential
    cases hcredential
  | some assignment =>
    rw [hassignment] at hcredential
    obtain ⟨_, hcore, -⟩ := Except.bind_eq_ok.mp hcredential
    rw [Except.raiseIf_eq_ok, not_not] at hcore
    exact ⟨assignment, rfl, hcore⟩

omit [DecidableEq Key] in
/-- The assignments carry the core indices in order. -/
lemma getElem?_assignmentsOf {validators : List Key} {coreIndices : List ℕ}
    {assignments : List (GuarantorAssignment Key)}
    (h : assignmentsOf validators coreIndices = .ok assignments) {i : ℕ}
    {assignment : GuarantorAssignment Key} (hi : assignments[i]? = some assignment) :
    coreIndices[i]? = some assignment.coreIndex := by
  have hall := Except.mapM_eq_ok_iff.mp h
  obtain ⟨hlt, rfl⟩ := List.getElem?_eq_some_iff.mp hi
  have hlength : i < coreIndices.zipIdx.length := by
    rw [hall.length_eq]
    exact hlt
  have hget := List.forall₂_iff_get.mp hall |>.2 i hlength hlt
  rw [List.length_zipIdx] at hlength
  rw [List.getElem?_eq_getElem hlength]
  simp only [List.get_eq_getElem, List.getElem_zipIdx] at hget
  cases hkey : validators[0 + i]? with
  | none =>
    rw [hkey] at hget
    cases hget
  | some key =>
    rw [hkey] at hget
    rw [← Except.ok.inj hget]

/-- The rotation that a slot belongs to: its entropy, its timeslot, and the number of its
validators. -/
def AssignmentState.rotationOf (constants : Constants) (s : AssignmentState Key) (slot : ℕ) :
    Octets × ℤ × ℕ :=
  if s.sameRotation constants slot then (s.entropy.get 2, s.timeslot, s.validatorPool.length)
  else ((s.prev constants).1, s.timeslot - constants.rotationPeriodCore,
    (s.prev constants).2.length)

omit [DecidableEq Key] in
/-- The assignments of a block that are looked up for a guarantee are those of its rotation. -/
lemma exists_assignments {current prev : List (GuarantorAssignment Key)}
    (hcurrent : setGuarantorAssignments constants blake2b256Hash s = .ok current)
    (hprev : setPrevGuarantorAssignments constants blake2b256Hash s = .ok prev)
    (g : Guarantee Report Signature) :
    ∃ coreIndices, guarantorPermute constants blake2b256Hash (s.rotationOf constants g.slot).1
        (s.rotationOf constants g.slot).2.1 (s.rotationOf constants g.slot).2.2 = .ok coreIndices ∧
      ∀ (i : ℕ) assignment, (getGuarantorAssignments constants s ⟨current, prev⟩ g)[i]? =
        some assignment → coreIndices[i]? = some assignment.coreIndex := by
  rw [getGuarantorAssignments, AssignmentState.rotationOf]
  by_cases h : s.sameRotation constants g.slot
  · obtain ⟨coreIndices, hpermute, hassignments⟩ := Except.bind_eq_ok.mp hcurrent
    rw [if_pos h, if_pos h]
    exact ⟨coreIndices, hpermute, fun i assignment => getElem?_assignmentsOf hassignments⟩
  · obtain ⟨coreIndices, hpermute, hassignments⟩ := Except.bind_eq_ok.mp hprev
    rw [if_neg h, if_neg h]
    exact ⟨coreIndices, hpermute, fun i assignment => getElem?_assignmentsOf hassignments⟩

/-- What the checks of the cores and the credentials accept, the life cycle of the cores accepts: it
makes these checks but for the assignments. -/
lemma validateGuarantee_of_checkGuarantee {packages : List Hash} {g : Guarantee Report Signature}
    (h : checkGuarantee constants ctx s blockContext packages g = .ok ()) :
    validateGuarantee ctx.fields.toReportFields ctx.cores s.validatorPool.length g = .ok () := by
  obtain ⟨hsorted, hcount, -⟩ := checkGuarantee_eq_ok h
  obtain ⟨_, -, h⟩ := Except.bind_eq_ok.mp h
  obtain ⟨_, -, h⟩ := Except.bind_eq_ok.mp h
  obtain ⟨_, hcore, h⟩ := Except.bind_eq_ok.mp h
  obtain ⟨_, hactive, h⟩ := Except.bind_eq_ok.mp h
  obtain ⟨_, hshards, h⟩ := Except.bind_eq_ok.mp h
  obtain ⟨_, -, h⟩ := Except.bind_eq_ok.mp h
  obtain ⟨_, -, h⟩ := Except.bind_eq_ok.mp h
  obtain ⟨_, -, h⟩ := Except.bind_eq_ok.mp h
  obtain ⟨_, hengaged, -⟩ := Except.bind_eq_ok.mp h
  rw [Except.raiseIf_eq_ok] at hcore hactive hshards hengaged
  rw [validateGuarantee, if_neg hcore, if_neg hactive, if_neg hshards, hsorted, if_neg (by simp),
    if_neg (by simp; omega), if_neg hengaged]

/-- The guarantors of an accepted guarantee are two or three, they are distinct, and they are among
the three validators that its rotation assigns to its core. -/
lemma guarantors_of_accepted {guarantees : List (Guarantee Report Signature)}
    (h : validateGuaranteesOfBlock constants ctx s blake2b256Hash guarantees = .ok ())
    {g : Guarantee Report Signature} (hg : g ∈ guarantees) :
    (g.signatures.length = 2 ∨ g.signatures.length = 3) ∧
      (g.signatures.map Credential.validatorIndex).Nodup ∧
      ∃ coreIndices, guarantorPermute constants blake2b256Hash (s.rotationOf constants g.slot).1
          (s.rotationOf constants g.slot).2.1 (s.rotationOf constants g.slot).2.2 =
            .ok coreIndices ∧
        (∀ c ∈ g.signatures,
          coreIndices[c.validatorIndex]? = some (ctx.fields.coreIndex g.report)) ∧
        coreIndices.count (ctx.fields.coreIndex g.report) = 3 ∧
        validateGuarantee ctx.fields.toReportFields ctx.cores s.validatorPool.length g = .ok () := by
  obtain ⟨current, hcurrent, h⟩ := Except.bind_eq_ok.mp h
  obtain ⟨prev, hprev, h⟩ := Except.bind_eq_ok.mp h
  rw [Except.mapError_eq_ok] at hcurrent hprev
  obtain ⟨_, -, h⟩ := Except.bind_eq_ok.mp h
  obtain ⟨_, -, h⟩ := Except.bind_eq_ok.mp h
  obtain ⟨_, -, h⟩ := Except.bind_eq_ok.mp h
  obtain ⟨_, -, h⟩ := Except.bind_eq_ok.mp h
  obtain ⟨⟨⟩, hguarantees, -⟩ := Except.bind_eq_ok.mp h
  have hchecked := Except.forM_eq_ok hguarantees g hg
  obtain ⟨hsorted, hcount, hcredentials⟩ := checkGuarantee_eq_ok hchecked
  obtain ⟨coreIndices, hpermute, hassigned⟩ := exists_assignments hcurrent hprev g
  obtain ⟨-, -, hbound, hthree⟩ := guarantorPermute_eq_ok hpermute
  have hcores : ∀ c ∈ g.signatures,
      coreIndices[c.validatorIndex]? = some (ctx.fields.coreIndex g.report) := by
    intro c hc
    obtain ⟨assignment, hassignment, hcore⟩ := hcredentials c hc
    rw [← hcore]
    exact hassigned _ _ hassignment
  obtain ⟨c, hc⟩ : ∃ c, c ∈ g.signatures := by
    refine List.exists_mem_of_length_pos ?_
    omega
  refine ⟨hcount, ?_, coreIndices, hpermute, hcores, ?_⟩
  · rw [areGuarantorsUnqiueAndSorted, decide_eq_true_eq] at hsorted
    exact (List.isChain_iff_pairwise.mp hsorted).imp Nat.ne_of_lt
  · exact ⟨hthree _ (hbound _ (List.mem_of_getElem? (hcores c hc))),
      validateGuarantee_of_checkGuarantee hchecked⟩

/-- The shuffle in place is the recursion, and a sequence that is long enough permutes; every valid
number of validators is assigned, three to each active core; and the guarantors of an accepted
guarantee are two or three of those assigned to its core, and the life cycle of the cores accepts it. -/
theorem guarantor_assignment (constants : Constants) (blake2b256Hash : Octets → Octets32) :
    (∀ (data : List α) (sequence : List ℤ),
      fisherYatesShuffle data sequence = FisherYates.shuffle data sequence ∧
        (data.length ≤ sequence.length → (fisherYatesShuffle data sequence).Perm data)) ∧
    (∀ (entropy : Octets) (timeslot : ℤ) (n : ℕ), constants.validValidatorCount n = true →
      ∃ assignments, guarantorPermute constants blake2b256Hash entropy timeslot n =
          .ok assignments ∧
        assignments.length = n ∧ (∀ core ∈ assignments, core < n / 3) ∧
          ∀ core < n / 3, assignments.count core = 3) ∧
    ∀ (ctx : GuaranteeContext Report Hash Key Signature) (s : AssignmentState Key)
      (guarantees : List (Guarantee Report Signature)),
      validateGuaranteesOfBlock constants ctx s blake2b256Hash guarantees = .ok () →
      ∀ g ∈ guarantees,
        (g.signatures.length = 2 ∨ g.signatures.length = 3) ∧
        (g.signatures.map Credential.validatorIndex).Nodup ∧
        ∃ coreIndices, guarantorPermute constants blake2b256Hash (s.rotationOf constants g.slot).1
            (s.rotationOf constants g.slot).2.1 (s.rotationOf constants g.slot).2.2 =
              .ok coreIndices ∧
          (∀ c ∈ g.signatures,
            coreIndices[c.validatorIndex]? = some (ctx.fields.coreIndex g.report)) ∧
          coreIndices.count (ctx.fields.coreIndex g.report) = 3 ∧
          validateGuarantee ctx.fields.toReportFields ctx.cores s.validatorPool.length g = .ok () := by
  refine ⟨fun data sequence => ⟨fisherYatesShuffle_eq data sequence, fun h => ?_⟩,
    fun entropy timeslot n hn => ?_, fun ctx s guarantees h g hg => guarantors_of_accepted h hg⟩
  · rw [fisherYatesShuffle_eq]
    exact FisherYates.shuffle_perm h
  · obtain ⟨assignments, hassignments⟩ := exists_guarantorPermute entropy timeslot hn
    obtain ⟨hlength, -, hbound, hthree⟩ := guarantorPermute_eq_ok hassignments
    exact ⟨assignments, hassignments, hlength, hbound, hthree⟩

end Accepted

/-! ## A guarantee of six validators -/

/-- The constants of the smallest chain. -/
def tinyConstants : Constants where
  coreCount := 2
  epochTimeslots := 12
  rotationPeriodCore := 4
  rotationPeriodCore_pos := by decide
  coreCount_le := by decide

/-- Reports are given by their core. -/
def coreFields : GuaranteeFields ℕ ℕ where
  hash := id
  coreIndex := id
  erasureShards _ := 6
  packageHash := id
  authorizerHash := id
  prerequisites _ := []

def pairContext : GuaranteeContext ℕ ℕ ℕ Unit where
  fields := coreFields
  cores := [none, none]
  offenders := []
  authorizerPools := [[0], [1]]
  reportedPackages := []
  validGuaranteeSignature _ _ _ := true
  checkReport _ := true
  checkPackages _ := true
  checkExportCount _ := true

def pairAssignment : AssignmentState ℕ where
  entropy := Vector.replicate 4 []
  timeslot := 5
  validatorPool := [10, 11, 12, 13, 14, 15]
  validatorArchive := [10, 11, 12, 13, 14, 15]

/-- The second core is guaranteed by two of its validators. -/
def pairGuarantee : Guarantee ℕ Unit where
  report := 1
  slot := 4
  signatures := [⟨0, ()⟩, ⟨4, ()⟩]

/-- The sample is accepted, and its guarantors are among the three validators of its core. -/
theorem guarantor_assignment_sample :
    ∃ coreIndices, guarantorPermute tinyConstants (fun _ => Vector.replicate 32 0) [] 5 6 =
        .ok coreIndices ∧
      (∀ c ∈ pairGuarantee.signatures, coreIndices[c.validatorIndex]? = some 1) ∧
      coreIndices.count 1 = 3 ∧
      validateGuarantee coreFields.toReportFields [none, none] 6 pairGuarantee = .ok () :=
  ((guarantor_assignment (α := ℕ) tinyConstants (fun _ => Vector.replicate 32 0)).2.2
    pairContext pairAssignment [pairGuarantee] (by decide +kernel) pairGuarantee
    (List.mem_singleton_self _)).2.2

end Assurances
