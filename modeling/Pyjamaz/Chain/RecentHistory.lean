import Mathlib.Data.List.ModifyLast
import Pyjamaz.Library.Window
import Pyjamaz.Merkle.MountainRange
import Pyjamaz.Pipeline.Edits
import Pyjamaz.Refinement.Report

/-!
# The recent blocks of a chain

A work report is anchored: it names a recent block, with its slot and the roots of the state and of the
accumulation outputs after it.  The state keeps what is needed to check this for eight blocks.  The
root of the state after a block is not known while the block is imported, so it is filled in by the next
one, and the outputs of all blocks are kept as the peaks of a mountain range only.

`recentHistory_of_chain` says what the state holds after a chain of blocks, in terms of these blocks, and
`reports_accepted_iff` that the checks against the state are the rule itself: the reports of a block pass
if and only if they are anchored in the last eight blocks of the chain, and name packages that these
blocks or the block itself report.
-/

namespace Chain

open Octets BinaryCounter
open Merkle (zeros)
open Merkle.MountainRange (Peak mergePeaks superPeak insert_eq_carry)
open Pipeline (bigEndian bigEndian_inj maxHistory)
open Refinement (WorkReport RefinementContext wellBalancedRoot)

/-! ## Data -/

structure ReportedWorkPackage where
  hash : Octets32
  exportsRoot : Octets

structure RecentBlock where
  headerHash : Octets32
  slot : ℕ
  beefyRoot : Octets
  stateRoot : Octets32
  reported : List ReportedWorkPackage

structure RecentHistoryState where
  recentBlocks : List RecentBlock
  accumulationOutputLog : List Peak

/-- `get_recent_block` -/
def RecentHistoryState.getRecentBlock (s : RecentHistoryState) (blockHash : Octets32) :
    Option RecentBlock :=
  s.recentBlocks.find? (fun b => b.headerHash = blockHash)

/-- What a block commits to: the outputs of the services in the order in which they were added, or
their root. -/
inductive Commitment where
  | outputs (beefyCommitmentMap : List (UInt32 × Octets32))
  | root (accumulateRoot : Octets)

/-- What a block brings to the history.  Its state root is the root of the state after it, which only
the next block names. -/
structure HistoryBlock where
  headerHash : Octets32
  timeslot : ℕ
  parentStateRoot : Octets32
  reports : List WorkReport
  commitment : Commitment
  stateRoot : Octets32

/-- The history, and the root of the state it is part of. -/
structure ChainHistory where
  history : RecentHistoryState
  stateRoot : Octets32

inductive HistoryError where
  | stateRootMismatch
  | segmentRootLookupInvalid
  | duplicatePackage
  | anchorNotRecent
  | badAnchorSlot
  | badStateRoot
  | badBeefyMmrRoot
  | dependencyMissing
  | tooManyReports
  | indexError
  deriving DecidableEq, Repr

/-! ## The accumulation outputs -/

/-- The order of Python's tuples. -/
def OutputLe (a b : UInt32 × Octets32) : Prop :=
  a.1.toNat < b.1.toNat ∨ a.1 = b.1 ∧ bigEndian a.2 ≤ bigEndian b.2

instance (a b : UInt32 × Octets32) : Decidable (OutputLe a b) :=
  inferInstanceAs (Decidable (_ ∨ _))

/-- `get_accumulation_outputs` -/
def getAccumulationOutputs (beefyCommitmentMap : List (UInt32 × Octets32)) :
    List (UInt32 × Octets32) :=
  beefyCommitmentMap.dedup.insertionSort OutputLe

/-- `get_accumulate_root` -/
def getAccumulateRoot (keccak : Octets → Octets32)
    (beefyCommitmentMap : List (UInt32 × Octets32)) : Octets :=
  wellBalancedRoot keccak ((getAccumulationOutputs beefyCommitmentMap).map fun entry =>
    littleEndian 4 entry.1.toNat ++ entry.2.toList)

/-- `accumulate_root` -/
def Commitment.accumulateRoot (keccak : Octets → Octets32) : Commitment → Octets
  | .outputs beefyCommitmentMap => getAccumulateRoot keccak beefyCommitmentMap
  | .root accumulateRoot => accumulateRoot

lemma OutputLe.antisymm {a b : UInt32 × Octets32} (hab : OutputLe a b) (hba : OutputLe b a) :
    a = b := by
  rcases hab with hlt | ⟨heq, hle⟩
  · rcases hba with hgt | ⟨heq, -⟩
    · omega
    · rw [heq] at hlt
      exact absurd hlt (lt_irrefl _)
  · rcases hba with hgt | ⟨-, hge⟩
    · rw [heq] at hgt
      exact absurd hgt (lt_irrefl _)
    · exact Prod.ext heq (bigEndian_inj (le_antisymm hle hge))

lemma OutputLe.total (a b : UInt32 × Octets32) : OutputLe a b ∨ OutputLe b a := by
  rcases lt_trichotomy a.1.toNat b.1.toNat with hlt | heq | hgt
  · exact .inl (.inl hlt)
  · have heq := UInt32.toNat_inj.mp heq
    exact (le_total (bigEndian a.2) (bigEndian b.2)).imp (fun h => .inr ⟨heq, h⟩)
      (fun h => .inr ⟨heq.symm, h⟩)
  · exact .inr (.inl hgt)

lemma OutputLe.trans {a b c : UInt32 × Octets32} (hab : OutputLe a b) (hbc : OutputLe b c) :
    OutputLe a c := by
  rcases hab with hab | ⟨hab, hab'⟩
  · rcases hbc with hbc | ⟨hbc, -⟩
    · exact .inl (hab.trans hbc)
    · exact .inl (hbc ▸ hab)
  · rcases hbc with hbc | ⟨hbc, hbc'⟩
    · exact .inl (hab ▸ hbc)
    · exact .inr ⟨hab.trans hbc, hab'.trans hbc'⟩

lemma pairwise_getAccumulationOutputs (beefyCommitmentMap : List (UInt32 × Octets32)) :
    (getAccumulationOutputs beefyCommitmentMap).Pairwise OutputLe := by
  have htotal : Std.Total OutputLe := ⟨OutputLe.total⟩
  have htrans : IsTrans (UInt32 × Octets32) OutputLe := ⟨fun _ _ _ => OutputLe.trans⟩
  exact List.pairwise_insertionSort _ _

/-- The root is one of a set: the order in which the outputs were collected does not matter. -/
lemma getAccumulateRoot_congr {keccak : Octets → Octets32} {m m' : List (UInt32 × Octets32)}
    (h : ∀ output, output ∈ m ↔ output ∈ m') :
    getAccumulateRoot keccak m = getAccumulateRoot keccak m' := by
  have hperm : (getAccumulationOutputs m).Perm (getAccumulationOutputs m') := by
    refine (List.perm_insertionSort _ _).trans (.trans ?_ (List.perm_insertionSort _ _).symm)
    rw [List.perm_ext_iff_of_nodup (List.nodup_dedup m) (List.nodup_dedup m')]
    intro output
    rw [List.mem_dedup, List.mem_dedup, h]
  rw [getAccumulateRoot, getAccumulateRoot, hperm.eq_of_pairwise
    (fun a b _ _ hab hba => hab.antisymm hba) (pairwise_getAccumulationOutputs m)
    (pairwise_getAccumulationOutputs m')]

/-- The block with the root of what it commits to. -/
def HistoryBlock.rooted (keccak : Octets → Octets32) (b : HistoryBlock) : HistoryBlock :=
  { b with commitment := .root (b.commitment.accumulateRoot keccak) }

/-- The same block, where the outputs of the services were added in another order at most. -/
inductive HistoryBlock.Reordered (b : HistoryBlock) : HistoryBlock → Prop
  | refl : Reordered b b
  | outputs {m m' : List (UInt32 × Octets32)} (hcommitment : b.commitment = .outputs m)
      (hsame : ∀ output, output ∈ m ↔ output ∈ m') :
      Reordered b { b with commitment := .outputs m' }

lemma HistoryBlock.Reordered.rooted_eq {keccak : Octets → Octets32} {b b' : HistoryBlock}
    (h : b.Reordered b') : b'.rooted keccak = b.rooted keccak := by
  cases h with
  | refl => rfl
  | outputs hcommitment hsame =>
    rw [rooted, rooted, hcommitment]
    simp only [Commitment.accumulateRoot, getAccumulateRoot_congr hsame]

/-! ## The checks of reports -/

/-- The reported packages as assignments to a dictionary. -/
def RecentBlock.writes (b : RecentBlock) : List (Octets32 × Octets) :=
  b.reported.map (fun r => (r.hash, r.exportsRoot))

/-- The packages that guarantees report, as assignments to a dictionary. -/
def reportWrites (reports : List WorkReport) : List (Octets32 × Octets) :=
  reports.map (fun w => (w.packageSpec.hash, w.packageSpec.exportsRoot))

/-- `segment_root_lookup` -/
def segmentRootLookup (recentBlocks : List RecentBlock) (reports : List WorkReport) :
    Dict Octets32 Octets :=
  recentBlocks.foldl (fun lookup b => lookup.update ((∅ : Dict Octets32 Octets).assign b.writes))
    ((∅ : Dict Octets32 Octets).assign (reportWrites reports))

/-- `recent_history_work_package_hashes` -/
def recentPackages (recentBlocks : List RecentBlock) : List Octets32 :=
  recentBlocks.flatMap (fun b => b.reported.map ReportedWorkPackage.hash)

/-- The check of the segment roots of a report. -/
def checkSegmentRoots (lookup : Dict Octets32 Octets) (w : WorkReport) : Except HistoryError Unit :=
  Except.raiseIf (¬ ∀ entry ∈ w.segmentRootLookup.entries,
    lookup.get? entry.1 = some entry.2.toList) .segmentRootLookupInvalid

/-- The check of the anchor of a report. -/
def checkAnchor (s : RecentHistoryState) (context : RefinementContext) : Except HistoryError Unit :=
  match s.getRecentBlock context.anchor with
  | none => .error .anchorNotRecent
  | some recentBlock => do
    Except.raiseIf (recentBlock.slot ≠ context.anchorSlot) .badAnchorSlot
    Except.raiseIf (recentBlock.stateRoot ≠ context.stateRoot) .badStateRoot
    Except.raiseIf (recentBlock.beefyRoot ≠ context.beefyRoot.toList) .badBeefyMmrRoot

/-- The check of the prerequisites of a report. -/
def checkPrerequisites (s : RecentHistoryState) (packages : List Octets32) (w : WorkReport) :
    Except HistoryError Unit :=
  w.context.prerequisites.forM fun prerequisite =>
    Except.raiseIf (prerequisite ∉ recentPackages s.recentBlocks ∧ prerequisite ∉ packages)
      .dependencyMissing

/-- The checks of `validate_guarantees` that read the recent history. -/
def validateReports (s : RecentHistoryState) (reports : List WorkReport) :
    Except HistoryError Unit := do
  let packages := reports.map (fun w => w.packageSpec.hash)
  reports.forM (checkSegmentRoots (segmentRootLookup s.recentBlocks reports))
  Except.raiseIf (¬ packages.Nodup) .duplicatePackage
  Except.raiseIf (∃ package ∈ packages, package ∈ recentPackages s.recentBlocks) .duplicatePackage
  reports.forM (fun w => checkAnchor s w.context)
  reports.forM (checkPrerequisites s packages)

/-! ## A block -/

section Block

variable (keccak : Octets → Octets32) (coreCount : ℕ)

/-- `RecentHistory.state_transition_intermediate` -/
def recentHistoryIntermediate (b : HistoryBlock) (s : RecentHistoryState) : RecentHistoryState :=
  { s with
    recentBlocks := s.recentBlocks.modifyLast (fun r => { r with stateRoot := b.parentStateRoot }) }

/-- `reported_work_packages` -/
def reportedWorkPackages (reports : List WorkReport) : List ReportedWorkPackage :=
  (reports.map (fun w => ⟨w.packageSpec.hash, w.packageSpec.exportsRoot⟩)).insertionSort
    (fun a b : ReportedWorkPackage => bigEndian a.hash ≤ bigEndian b.hash)

/-- `RecentHistory.state_transition` -/
def recentHistoryTransition (b : HistoryBlock) (s : RecentHistoryState) :
    Except HistoryError RecentHistoryState := do
  let reported := reportedWorkPackages b.reports
  Except.raiseIf (coreCount < reported.length) .tooManyReports
  let mmrPeaks := if 0 < s.recentBlocks.length then s.accumulationOutputLog else []
  let peaks ← (Merkle.MountainRange.insert keccak mmrPeaks
    (b.commitment.accumulateRoot keccak)).elim (.error .indexError) .ok
  return {
    recentBlocks := Window.push maxHistory s.recentBlocks
      { headerHash := b.headerHash
        slot := b.timeslot
        beefyRoot := superPeak keccak peaks
        stateRoot := zeros
        reported := reported }
    accumulationOutputLog := peaks }

/-- What the import of a block does with the history: the block names the state it follows, its
reports are checked, and it becomes the last recent block. -/
def importHistory (s : ChainHistory) (b : HistoryBlock) : Except HistoryError ChainHistory := do
  Except.raiseIf (b.parentStateRoot ≠ s.stateRoot) .stateRootMismatch
  let intermediate := recentHistoryIntermediate b s.history
  validateReports intermediate b.reports
  let history ← recentHistoryTransition keccak coreCount b intermediate
  return ⟨history, b.stateRoot⟩

/-- A chain of imported blocks. -/
inductive HistoryRun (start : ChainHistory) : List HistoryBlock → ChainHistory → Prop where
  | start : HistoryRun start [] start
  | block {chain : List HistoryBlock} {s s' : ChainHistory} {b : HistoryBlock} :
      HistoryRun start chain s → importHistory keccak coreCount s b = .ok s' →
      HistoryRun start (chain ++ [b]) s'

end Block

/-! ## What a chain says -/

section Spec

variable (keccak : Octets → Octets32)

/-- The peaks over a list of values. -/
def peaksOf (values : List Octets) : List Peak :=
  values.foldl (fun peaks value => carry (mergePeaks keccak) value peaks) []

/-- The root over the accumulation outputs of a chain. -/
def beefyRootOf (chain : List HistoryBlock) : Octets :=
  superPeak keccak (peaksOf keccak (chain.map (fun b => b.commitment.accumulateRoot keccak)))

/-- What there is to know of the last block of a chain. -/
def entryOf (chain : List HistoryBlock) (b : HistoryBlock) : RecentBlock where
  headerHash := b.headerHash
  slot := b.timeslot
  beefyRoot := beefyRootOf keccak chain
  stateRoot := b.stateRoot
  reported := reportedWorkPackages b.reports

/-- What there is to know of the blocks of a chain. -/
def entries (chain : List HistoryBlock) : List RecentBlock :=
  chain.zipIdx.map (fun x => entryOf keccak (chain.take (x.2 + 1)) x.1)

/-- The state root of the last block is not known yet. -/
def withheld (recentBlocks : List RecentBlock) : List RecentBlock :=
  recentBlocks.modifyLast (fun r => { r with stateRoot := zeros })

/-- A block at an index of the chain that is among the last eight. -/
def IsRecent (chain : List HistoryBlock) (a : HistoryBlock) (n : ℕ) : Prop :=
  chain[n]? = some a ∧ chain.length ≤ n + maxHistory

/-- A package that recent blocks, or the guarantees beside it, report with a root of its exports. -/
def Reported (chain : List HistoryBlock) (reports : List WorkReport) (hash : Octets32)
    (exportsRoot : Octets) : Prop :=
  ∃ w, (w ∈ reports ∨ ∃ a n, IsRecent chain a n ∧ w ∈ a.reports) ∧ w.packageSpec.hash = hash ∧
    w.packageSpec.exportsRoot = exportsRoot

/-- The reports that may follow a chain. -/
structure Admissible (chain : List HistoryBlock) (reports : List WorkReport) : Prop where
  distinct : (reports.map (fun w => w.packageSpec.hash)).Nodup
  unreported : ∀ w ∈ reports, ∀ a n, IsRecent chain a n → ∀ w' ∈ a.reports,
    w'.packageSpec.hash ≠ w.packageSpec.hash
  anchored : ∀ w ∈ reports, ∃ a n, IsRecent chain a n ∧ a.headerHash = w.context.anchor ∧
    a.timeslot = w.context.anchorSlot ∧ a.stateRoot = w.context.stateRoot ∧
    beefyRootOf keccak (chain.take (n + 1)) = w.context.beefyRoot.toList
  segmentRoots : ∀ w ∈ reports, ∀ entry ∈ w.segmentRootLookup.entries,
    Reported chain reports entry.1 entry.2.toList
  prerequisites : ∀ w ∈ reports, ∀ prerequisite ∈ w.context.prerequisites,
    ∃ exportsRoot, Reported chain reports prerequisite exportsRoot

end Spec

/-! ## The entries of a chain -/

section Entries

variable {keccak : Octets → Octets32} {chain : List HistoryBlock} {b : HistoryBlock}

lemma trimmed_peaksOf (values : List Octets) : Trimmed (peaksOf keccak values) := by
  induction values using List.reverseRecOn with
  | nil => exact trimmed_nil
  | append_singleton values value ih =>
    rw [peaksOf, List.foldl_append]
    exact trimmed_carry ih

/-- The range grows by one value at a time. -/
lemma insert_peaksOf (values : List Octets) (value : Octets) :
    Merkle.MountainRange.insert keccak (peaksOf keccak values) value =
      some (peaksOf keccak (values ++ [value])) := by
  rw [insert_eq_carry (trimmed_peaksOf values), peaksOf, peaksOf, List.foldl_append]
  rfl

lemma length_entries : (entries keccak chain).length = chain.length := by
  rw [entries, List.length_map, List.length_zipIdx]

lemma getElem?_entries (n : ℕ) :
    (entries keccak chain)[n]? = chain[n]?.map (entryOf keccak (chain.take (n + 1))) := by
  rw [entries, List.getElem?_map, List.getElem?_zipIdx, Option.map_map, Nat.zero_add]
  rfl

/-- A block adds its entry and changes none. -/
lemma entries_concat : entries keccak (chain ++ [b]) =
    entries keccak chain ++ [entryOf keccak (chain ++ [b]) b] := by
  rw [entries, List.zipIdx_append, List.map_append]
  congr 1
  · refine List.map_congr_left (fun x hx => ?_)
    have hlt : x.2 < chain.length := by
      have h := List.mem_zipIdx_iff_getElem?.mp hx
      exact (List.getElem?_eq_some_iff.mp h).1
    rw [List.take_append_of_le_length hlt]
  · show [entryOf keccak ((chain ++ [b]).take (0 + chain.length + 1)) b] = _
    rw [List.take_of_length_le (by rw [List.length_append, List.length_singleton]; omega)]

/-- The entries depend on what the blocks commit to by the roots only. -/
lemma entries_map_rooted (chain : List HistoryBlock) :
    entries keccak (chain.map (HistoryBlock.rooted keccak)) = entries keccak chain := by
  induction chain using List.reverseRecOn with
  | nil => rfl
  | append_singleton chain b ih =>
    have hroots : (chain.map (HistoryBlock.rooted keccak) ++ [b.rooted keccak]).map
        (fun b => b.commitment.accumulateRoot keccak) =
          (chain ++ [b]).map (fun b => b.commitment.accumulateRoot keccak) := by
      rw [List.map_append, List.map_append, List.map_map]
      rfl
    rw [List.map_append, List.map_singleton, entries_concat, entries_concat, ih, entryOf, entryOf,
      beefyRootOf, beefyRootOf, hroots]
    rfl

/-- The outputs of a block are a set. -/
lemma entries_reordered {chain' : List HistoryBlock}
    (h : List.Forall₂ HistoryBlock.Reordered chain chain') :
    entries keccak chain' = entries keccak chain := by
  have hrooted : chain'.map (HistoryBlock.rooted keccak) = chain.map (HistoryBlock.rooted keccak) := by
    induction h with
    | nil => rfl
    | cons hblock _ ih => rw [List.map_cons, List.map_cons, hblock.rooted_eq, ih]
  rw [← entries_map_rooted, hrooted, entries_map_rooted]

/-- The window of the entries holds the recent blocks. -/
lemma mem_rtake_entries {r : RecentBlock} : r ∈ (entries keccak chain).rtake maxHistory ↔
    ∃ a n, IsRecent chain a n ∧ entryOf keccak (chain.take (n + 1)) a = r := by
  rw [Window.mem_rtake_iff, length_entries]
  constructor
  · rintro ⟨n, hn, hle⟩
    rw [getElem?_entries, Option.map_eq_some_iff] at hn
    obtain ⟨a, ha, heq⟩ := hn
    exact ⟨a, n, ⟨ha, hle⟩, heq⟩
  · rintro ⟨a, n, ⟨ha, hle⟩, heq⟩
    refine ⟨n, ?_, hle⟩
    rw [getElem?_entries, ha, Option.map_some, heq]

lemma reportedWorkPackages_perm (reports : List WorkReport) :
    (reportedWorkPackages reports).Perm
      (reports.map (fun w => ⟨w.packageSpec.hash, w.packageSpec.exportsRoot⟩)) :=
  List.perm_insertionSort _ _

lemma writes_entryOf_perm : (entryOf keccak chain b).writes.Perm (reportWrites b.reports) := by
  have h := (reportedWorkPackages_perm b.reports).map
    (fun r : ReportedWorkPackage => (r.hash, r.exportsRoot))
  rw [List.map_map] at h
  exact h

lemma recentPackages_eq (recentBlocks : List RecentBlock) :
    recentPackages recentBlocks = (recentBlocks.flatMap RecentBlock.writes).map Prod.fst := by
  rw [recentPackages, List.map_flatMap]
  congr
  funext r
  rw [RecentBlock.writes, List.map_map]
  rfl

/-- The packages of the recent blocks. -/
lemma mem_writes_window {package : Octets32} {exportsRoot : Octets} :
    (package, exportsRoot) ∈
      ((entries keccak chain).rtake maxHistory).flatMap RecentBlock.writes ↔
      ∃ a n, IsRecent chain a n ∧ ∃ w ∈ a.reports, w.packageSpec.hash = package ∧
        w.packageSpec.exportsRoot = exportsRoot := by
  rw [List.mem_flatMap]
  constructor
  · rintro ⟨r, hr, hmem⟩
    obtain ⟨a, n, hrecent, rfl⟩ := mem_rtake_entries.mp hr
    rw [writes_entryOf_perm.mem_iff, reportWrites, List.mem_map] at hmem
    obtain ⟨w, hw, heq⟩ := hmem
    cases heq
    exact ⟨a, n, hrecent, w, hw, rfl, rfl⟩
  · rintro ⟨a, n, hrecent, w, hw, rfl, rfl⟩
    refine ⟨_, mem_rtake_entries.mpr ⟨a, n, hrecent, rfl⟩, ?_⟩
    rw [writes_entryOf_perm.mem_iff, reportWrites, List.mem_map]
    exact ⟨w, hw, rfl⟩

end Entries

/-! ## The checks against the window -/

section Checks

variable {keccak : Octets → Octets32} {chain : List HistoryBlock} {s : RecentHistoryState}
  {reports : List WorkReport}

/-- The dictionary holds the packages of the blocks and of the reports, when none is reported
twice. -/
lemma segmentRootLookup_get? (recentBlocks : List RecentBlock) (k : Octets32) (v : Octets)
    (h : ((reportWrites reports ++ recentBlocks.flatMap RecentBlock.writes).map Prod.fst).Nodup) :
    (segmentRootLookup recentBlocks reports).get? k = some v ↔
      (k, v) ∈ reportWrites reports ++ recentBlocks.flatMap RecentBlock.writes := by
  have hfold : segmentRootLookup recentBlocks reports =
      (∅ : Dict Octets32 Octets).assign
        (reportWrites reports ++ recentBlocks.flatMap RecentBlock.writes) := by
    induction recentBlocks using List.reverseRecOn with
    | nil =>
      rw [List.flatMap_nil, List.append_nil]
      rfl
    | append_singleton front last ih =>
      rw [List.flatMap_append, List.flatMap_singleton, ← List.append_assoc] at h ⊢
      have hlast : (last.writes.map Prod.fst).Nodup := by
        rw [List.map_append, List.nodup_append] at h
        exact h.2.1
      have hfront := ih (by
        rw [List.map_append, List.nodup_append] at h
        exact h.1)
      have hentries : ((∅ : Dict Octets32 Octets).assign last.writes).entries = last.writes :=
        Dict.entries_assign hlast
      rw [segmentRootLookup, List.foldl_append]
      show (segmentRootLookup front reports).update _ = _
      rw [hfront, Dict.update, hentries, Dict.assign_append _ (_ ++ _)]
  have hagree : ∀ k v v', (k, v) ∈ reportWrites reports ++ recentBlocks.flatMap RecentBlock.writes →
      (k, v') ∈ reportWrites reports ++ recentBlocks.flatMap RecentBlock.writes → v = v' :=
    fun k v v' hv hv' => congrArg Prod.snd (List.inj_on_of_nodup_map h hv hv' rfl)
  rw [hfold, Dict.get?_assign_eq_some hagree]
  constructor
  · rintro (hmem | ⟨-, hnone⟩)
    · exact hmem
    · rw [Dict.get?_empty] at hnone
      cases hnone
  · exact .inl

/-- A recent block that is found by its hash. -/
lemma getRecentBlock_eq_some (h : (s.recentBlocks.map RecentBlock.headerHash).Nodup)
    {blockHash : Octets32} {r : RecentBlock} :
    s.getRecentBlock blockHash = some r ↔ r ∈ s.recentBlocks ∧ r.headerHash = blockHash := by
  rw [RecentHistoryState.getRecentBlock]
  constructor
  · intro hfind
    have hhash := List.find?_some hfind
    exact ⟨List.mem_of_find?_eq_some hfind, of_decide_eq_true hhash⟩
  · rintro ⟨hmem, rfl⟩
    cases hfind : s.recentBlocks.find? (fun b => b.headerHash = r.headerHash) with
    | none =>
      have hnone := List.find?_eq_none.mp hfind r hmem
      exact absurd (decide_eq_true rfl) hnone
    | some r' =>
      have hhash := List.find?_some hfind
      rw [List.inj_on_of_nodup_map h (List.mem_of_find?_eq_some hfind) hmem
        (of_decide_eq_true hhash)]

/-- The check of an anchor. -/
lemma checkAnchor_eq_ok {context : RefinementContext} : checkAnchor s context = .ok () ↔
    ∃ r, s.getRecentBlock context.anchor = some r ∧ r.slot = context.anchorSlot ∧
      r.stateRoot = context.stateRoot ∧ r.beefyRoot = context.beefyRoot.toList := by
  rw [checkAnchor]
  cases hfind : s.getRecentBlock context.anchor with
  | none =>
    constructor
    · intro h
      cases h
    · rintro ⟨r, hr, -⟩
      cases hr
  | some r =>
    constructor
    · intro h
      obtain ⟨_, hslot, h⟩ := Except.bind_eq_ok.mp h
      obtain ⟨_, hroot, h⟩ := Except.bind_eq_ok.mp h
      exact ⟨r, rfl, not_not.mp (Except.raiseIf_eq_ok.mp hslot),
        not_not.mp (Except.raiseIf_eq_ok.mp hroot), not_not.mp (Except.raiseIf_eq_ok.mp h)⟩
    · rintro ⟨r', hr', hslot, hroot, hbeefy⟩
      cases hr'
      refine Except.bind_eq_ok.mpr ⟨(), Except.raiseIf_eq_ok.mpr (not_not.mpr hslot), ?_⟩
      refine Except.bind_eq_ok.mpr ⟨(), Except.raiseIf_eq_ok.mpr (not_not.mpr hroot), ?_⟩
      exact Except.raiseIf_eq_ok.mpr (not_not.mpr hbeefy)

/-- The checks of the reports of a block. -/
lemma validateReports_eq_ok : validateReports s reports = .ok () ↔
    (∀ w ∈ reports, ∀ entry ∈ w.segmentRootLookup.entries,
      (segmentRootLookup s.recentBlocks reports).get? entry.1 = some entry.2.toList) ∧
    (reports.map (fun w => w.packageSpec.hash)).Nodup ∧
    (∀ w ∈ reports, w.packageSpec.hash ∉ recentPackages s.recentBlocks) ∧
    (∀ w ∈ reports, checkAnchor s w.context = .ok ()) ∧
    ∀ w ∈ reports, ∀ prerequisite ∈ w.context.prerequisites,
      prerequisite ∈ recentPackages s.recentBlocks ∨
        prerequisite ∈ reports.map (fun w => w.packageSpec.hash) := by
  have hsegment : reports.forM (checkSegmentRoots (segmentRootLookup s.recentBlocks reports)) = .ok () ↔
      ∀ w ∈ reports, ∀ entry ∈ w.segmentRootLookup.entries,
        (segmentRootLookup s.recentBlocks reports).get? entry.1 = some entry.2.toList := by
    rw [Except.forM_eq_ok_iff]
    refine forall₂_congr (fun w _ => ?_)
    rw [checkSegmentRoots, Except.raiseIf_eq_ok, not_not]
  have hprerequisites : reports.forM (checkPrerequisites s
      (reports.map (fun w => w.packageSpec.hash))) = .ok () ↔
      ∀ w ∈ reports, ∀ prerequisite ∈ w.context.prerequisites,
        prerequisite ∈ recentPackages s.recentBlocks ∨
          prerequisite ∈ reports.map (fun w => w.packageSpec.hash) := by
    rw [Except.forM_eq_ok_iff]
    refine forall₂_congr (fun w _ => ?_)
    rw [checkPrerequisites, Except.forM_eq_ok_iff]
    refine forall₂_congr (fun prerequisite _ => ?_)
    rw [Except.raiseIf_eq_ok, not_and_or, not_not, not_not]
  have hnew : (¬ ∃ package ∈ reports.map (fun w => w.packageSpec.hash),
      package ∈ recentPackages s.recentBlocks) ↔
      ∀ w ∈ reports, w.packageSpec.hash ∉ recentPackages s.recentBlocks := by
    rw [not_exists]
    constructor
    · intro h w hw hmem
      exact h _ ⟨List.mem_map_of_mem hw, hmem⟩
    · rintro h package ⟨hpackage, hmem⟩
      obtain ⟨w, hw, rfl⟩ := List.mem_map.mp hpackage
      exact h w hw hmem
  rw [validateReports]
  constructor
  · intro h
    obtain ⟨_, hroots, h⟩ := Except.bind_eq_ok.mp h
    obtain ⟨_, hdistinct, h⟩ := Except.bind_eq_ok.mp h
    obtain ⟨_, hunreported, h⟩ := Except.bind_eq_ok.mp h
    obtain ⟨_, hanchors, h⟩ := Except.bind_eq_ok.mp h
    exact ⟨hsegment.mp hroots, not_not.mp (Except.raiseIf_eq_ok.mp hdistinct),
      hnew.mp (Except.raiseIf_eq_ok.mp hunreported), Except.forM_eq_ok_iff.mp hanchors,
      hprerequisites.mp h⟩
  · rintro ⟨hroots, hdistinct, hunreported, hanchors, hrequired⟩
    refine Except.bind_eq_ok.mpr ⟨(), hsegment.mpr hroots, ?_⟩
    refine Except.bind_eq_ok.mpr ⟨(), Except.raiseIf_eq_ok.mpr (not_not.mpr hdistinct), ?_⟩
    refine Except.bind_eq_ok.mpr ⟨(), Except.raiseIf_eq_ok.mpr (hnew.mpr hunreported), ?_⟩
    refine Except.bind_eq_ok.mpr ⟨(), Except.forM_eq_ok_iff.mpr hanchors, ?_⟩
    exact hprerequisites.mpr hrequired

/-! The rule, in terms of the window. -/

lemma map_headerHash_entries :
    (entries keccak chain).map RecentBlock.headerHash = chain.map HistoryBlock.headerHash := by
  rw [entries, List.map_map, ← List.zipIdx_map_fst 0 chain, List.map_map, List.zipIdx_map_fst]
  rfl

lemma reported_iff {k : Octets32} {v : Octets} : Reported chain reports k v ↔
    (k, v) ∈ reportWrites reports ++
      ((entries keccak chain).rtake maxHistory).flatMap RecentBlock.writes := by
  rw [List.mem_append, mem_writes_window, reportWrites, List.mem_map]
  constructor
  · rintro ⟨w, hw | ⟨a, n, hrecent, hw⟩, rfl, rfl⟩
    · exact .inl ⟨w, hw, rfl⟩
    · exact .inr ⟨a, n, hrecent, w, hw, rfl, rfl⟩
  · rintro (⟨w, hw, heq⟩ | ⟨a, n, hrecent, w, hw, rfl, rfl⟩)
    · cases heq
      exact ⟨w, .inl hw, rfl, rfl⟩
    · exact ⟨w, .inr ⟨a, n, hrecent, hw⟩, rfl, rfl⟩

lemma exists_reported_iff {k : Octets32} : (∃ v, Reported chain reports k v) ↔
    k ∈ recentPackages ((entries keccak chain).rtake maxHistory) ∨
      k ∈ reports.map (fun w => w.packageSpec.hash) := by
  have hpackages : reports.map (fun w => w.packageSpec.hash) = (reportWrites reports).map Prod.fst := by
    rw [reportWrites, List.map_map]
    rfl
  rw [recentPackages_eq, hpackages, or_comm, ← List.mem_append, ← List.map_append, List.mem_map]
  constructor
  · rintro ⟨v, hreported⟩
    exact ⟨(k, v), reported_iff.mp hreported, rfl⟩
  · rintro ⟨⟨k', v⟩, hmem, rfl⟩
    exact ⟨v, reported_iff.mpr hmem⟩

lemma mem_recentPackages_window {k : Octets32} :
    k ∈ recentPackages ((entries keccak chain).rtake maxHistory) ↔
      ∃ a n, IsRecent chain a n ∧ ∃ w ∈ a.reports, w.packageSpec.hash = k := by
  rw [recentPackages_eq, List.mem_map]
  constructor
  · rintro ⟨⟨k', v⟩, hmem, rfl⟩
    obtain ⟨a, n, hrecent, w, hw, hhash, -⟩ := mem_writes_window.mp hmem
    exact ⟨a, n, hrecent, w, hw, hhash⟩
  · rintro ⟨a, n, hrecent, w, hw, rfl⟩
    exact ⟨_, mem_writes_window.mpr ⟨a, n, hrecent, w, hw, rfl, rfl⟩, rfl⟩

/-- The check of an anchor against the window. -/
lemma checkAnchor_window (hdistinct : (chain.map HistoryBlock.headerHash).Nodup) {log : List Peak}
    {context : RefinementContext} :
    checkAnchor ⟨(entries keccak chain).rtake maxHistory, log⟩ context = .ok () ↔
      ∃ a n, IsRecent chain a n ∧ a.headerHash = context.anchor ∧ a.timeslot = context.anchorSlot ∧
        a.stateRoot = context.stateRoot ∧
        beefyRootOf keccak (chain.take (n + 1)) = context.beefyRoot.toList := by
  have hnodup : (((entries keccak chain).rtake maxHistory).map RecentBlock.headerHash).Nodup := by
    rw [Window.map_rtake, map_headerHash_entries]
    exact hdistinct.sublist (List.drop_sublist _ _)
  rw [checkAnchor_eq_ok]
  constructor
  · rintro ⟨r, hr, hslot, hroot, hbeefy⟩
    obtain ⟨hmem, hhash⟩ := (getRecentBlock_eq_some hnodup).mp hr
    obtain ⟨a, n, hrecent, rfl⟩ := mem_rtake_entries.mp hmem
    exact ⟨a, n, hrecent, hhash, hslot, hroot, hbeefy⟩
  · rintro ⟨a, n, hrecent, hhash, hslot, hroot, hbeefy⟩
    refine ⟨entryOf keccak (chain.take (n + 1)) a, ?_, hslot, hroot, hbeefy⟩
    exact (getRecentBlock_eq_some hnodup).mpr ⟨mem_rtake_entries.mpr ⟨a, n, hrecent, rfl⟩, hhash⟩

/-- Checked against the window, the reports are checked against the chain. -/
lemma validateReports_window (hdistinct : (chain.map HistoryBlock.headerHash).Nodup)
    (hpackages : (recentPackages ((entries keccak chain).rtake maxHistory)).Nodup) {log : List Peak} :
    validateReports ⟨(entries keccak chain).rtake maxHistory, log⟩ reports = .ok () ↔
      Admissible keccak chain reports := by
  have hlookup : (reports.map (fun w => w.packageSpec.hash)).Nodup →
      (∀ w ∈ reports, w.packageSpec.hash ∉
        recentPackages ((entries keccak chain).rtake maxHistory)) → ∀ k v,
      (segmentRootLookup ((entries keccak chain).rtake maxHistory) reports).get? k = some v ↔
        Reported chain reports k v := by
    intro hreports hnew k v
    rw [segmentRootLookup_get?, reported_iff]
    rw [List.map_append, List.nodup_append, ← recentPackages_eq, reportWrites, List.map_map]
    refine ⟨hreports, hpackages, ?_⟩
    rintro k hk _ hmem rfl
    obtain ⟨w, hw, rfl⟩ := List.mem_map.mp hk
    exact hnew w hw hmem
  rw [validateReports_eq_ok]
  constructor
  · rintro ⟨hroots, hreports, hnew, hanchors, hrequired⟩
    refine ⟨hreports, ?_, ?_, ?_, ?_⟩
    · intro w hw a n hrecent w' hw' heq
      exact hnew w hw (mem_recentPackages_window.mpr ⟨a, n, hrecent, w', hw', heq⟩)
    · exact fun w hw => (checkAnchor_window hdistinct).mp (hanchors w hw)
    · exact fun w hw entry hentry => (hlookup hreports hnew _ _).mp (hroots w hw entry hentry)
    · exact fun w hw k hk => exists_reported_iff.mpr (hrequired w hw k hk)
  · intro h
    have hnew : ∀ w ∈ reports, w.packageSpec.hash ∉
        recentPackages ((entries keccak chain).rtake maxHistory) := by
      intro w hw hmem
      obtain ⟨a, n, hrecent, w', hw', heq⟩ := mem_recentPackages_window.mp hmem
      exact h.unreported w hw a n hrecent w' hw' heq
    refine ⟨?_, h.distinct, hnew, ?_, ?_⟩
    · exact fun w hw entry hentry =>
        (hlookup h.distinct hnew _ _).mpr (h.segmentRoots w hw entry hentry)
    · exact fun w hw => (checkAnchor_window hdistinct).mpr (h.anchored w hw)
    · exact fun w hw k hk => exists_reported_iff.mp (h.prerequisites w hw k hk)

end Checks

/-! ## Along a chain -/

section Runs

variable {keccak : Octets → Octets32} {coreCount : ℕ} {start s s' : ChainHistory}
  {chain : List HistoryBlock} {b : HistoryBlock}

/-- The state keeps what the chain says of its last blocks. -/
structure Keeps (keccak : Octets → Octets32) (start : ChainHistory) (chain : List HistoryBlock)
    (s : ChainHistory) : Prop where
  recentBlocks : s.history.recentBlocks = withheld ((entries keccak chain).rtake maxHistory)
  log : chain ≠ [] → s.history.accumulationOutputLog =
    peaksOf keccak (chain.map (fun b => b.commitment.accumulateRoot keccak))
  stateRoot : s.stateRoot = (chain.getLast?.map HistoryBlock.stateRoot).getD start.stateRoot
  distinct : (recentPackages ((entries keccak chain).rtake maxHistory)).Nodup

/-- The window after one more block. -/
lemma rtake_entries_concat : (entries keccak (chain ++ [b])).rtake maxHistory =
    (entries keccak chain).rtake 7 ++ [entryOf keccak (chain ++ [b]) b] := by
  rw [entries_concat]
  exact List.rtake_concat_succ ..

lemma withheld_concat {recentBlocks : List RecentBlock} {r : RecentBlock} :
    withheld (recentBlocks ++ [r]) = recentBlocks ++ [{ r with stateRoot := zeros }] :=
  List.modifyLast_concat ..

/-- The next block completes the window. -/
lemma Keeps.intermediate (h : Keeps keccak start chain s) (hroot : b.parentStateRoot = s.stateRoot) :
    recentHistoryIntermediate b s.history =
      ⟨(entries keccak chain).rtake maxHistory, s.history.accumulationOutputLog⟩ := by
  rw [recentHistoryIntermediate, h.recentBlocks]
  induction chain using List.reverseRecOn with
  | nil => rfl
  | append_singleton front last _ =>
    have hlast : b.parentStateRoot = last.stateRoot := by
      rw [hroot, h.stateRoot, List.getLast?_concat]
      rfl
    rw [rtake_entries_concat, withheld_concat, List.modifyLast_concat, hlast]
    rfl

/-- A block turns the window over. -/
lemma recentHistoryTransition_window {log : List Peak}
    (hlog : chain ≠ [] → log = peaksOf keccak (chain.map (fun b => b.commitment.accumulateRoot keccak))) :
    recentHistoryTransition keccak coreCount b ⟨(entries keccak chain).rtake maxHistory, log⟩ =
      if coreCount < b.reports.length then .error .tooManyReports
      else .ok ⟨withheld ((entries keccak (chain ++ [b])).rtake maxHistory),
        peaksOf keccak ((chain ++ [b]).map (fun b => b.commitment.accumulateRoot keccak))⟩ := by
  have hlength : (reportedWorkPackages b.reports).length = b.reports.length := by
    rw [(reportedWorkPackages_perm b.reports).length_eq, List.length_map]
  have hpeaks : (if 0 < ((entries keccak chain).rtake maxHistory).length then log else []) =
      peaksOf keccak (chain.map (fun b => b.commitment.accumulateRoot keccak)) := by
    rw [Window.length_rtake, length_entries]
    cases chain with
    | nil => rfl
    | cons first rest =>
      rw [if_pos (by rw [List.length_cons, maxHistory]; omega), hlog (List.cons_ne_nil _ _)]
  rw [recentHistoryTransition, hlength, Except.raiseIf_bind]
  simp only [hpeaks, insert_peaksOf]
  split
  · rfl
  · rw [rtake_entries_concat, withheld_concat, Option.elim_some, Except.ok_bind,
      Window.push_rtake (by decide), entryOf, beefyRootOf, List.map_append]
    show Except.ok (RecentHistoryState.mk _ _) = _
    rw [maxHistory, List.rtake_concat_succ]
    rfl

/-- The import of a block that follows a chain. -/
lemma Keeps.importHistory_eq_ok (h : Keeps keccak start chain s) :
    importHistory keccak coreCount s b = .ok s' ↔ b.parentStateRoot = s.stateRoot ∧
      validateReports ⟨(entries keccak chain).rtake maxHistory, s.history.accumulationOutputLog⟩
        b.reports = .ok () ∧ b.reports.length ≤ coreCount ∧
      s' = ⟨⟨withheld ((entries keccak (chain ++ [b])).rtake maxHistory),
        peaksOf keccak ((chain ++ [b]).map (fun b => b.commitment.accumulateRoot keccak))⟩,
        b.stateRoot⟩ := by
  rw [importHistory, Except.raiseIf_bind]
  by_cases hroot : b.parentStateRoot = s.stateRoot
  · rw [if_neg (not_not.mpr hroot)]
    simp only [h.intermediate hroot, recentHistoryTransition_window h.log]
    rw [Except.bind_eq_ok]
    constructor
    · rintro ⟨_, hvalid, hstate⟩
      obtain ⟨history, hhistory, hstate⟩ := Except.bind_eq_ok.mp hstate
      split_ifs at hhistory with hcount
      cases hhistory
      cases hstate
      exact ⟨hroot, hvalid, not_lt.mp hcount, rfl⟩
    · rintro ⟨-, hvalid, hcount, rfl⟩
      refine ⟨(), hvalid, ?_⟩
      rw [if_neg (not_lt.mpr hcount)]
      rfl
  · rw [if_pos hroot]
    constructor
    · intro herror
      cases herror
    · exact fun hok => absurd hok.1 hroot

/-- The packages of the window stay distinct, since the reports of a block are new. -/
lemma Keeps.block (h : Keeps keccak start chain s)
    (himport : importHistory keccak coreCount s b = .ok s') :
    Keeps keccak start (chain ++ [b]) s' := by
  obtain ⟨-, hvalid, -, rfl⟩ := h.importHistory_eq_ok.mp himport
  obtain ⟨-, hreports, hnew, -⟩ := validateReports_eq_ok.mp hvalid
  refine ⟨rfl, fun _ => rfl, ?_, ?_⟩
  · rw [List.getLast?_concat]
    rfl
  · have hpackages : ((entryOf keccak (chain ++ [b]) b).writes.map Prod.fst).Perm
        (b.reports.map (fun w => w.packageSpec.hash)) := by
      have hpackages : b.reports.map (fun w => w.packageSpec.hash) =
          (reportWrites b.reports).map Prod.fst := by
        rw [reportWrites, List.map_map]
        rfl
      rw [hpackages]
      exact writes_entryOf_perm.map Prod.fst
    have hold : (recentPackages ((entries keccak chain).rtake 7)).Sublist
        (recentPackages ((entries keccak chain).rtake maxHistory)) := by
      refine List.Sublist.flatMap ?_ _
      exact List.drop_sublist_drop_left _ (by rw [maxHistory]; omega)
    rw [recentPackages_eq, rtake_entries_concat, List.flatMap_append, List.map_append,
      ← recentPackages_eq, List.flatMap_singleton, List.nodup_append]
    refine ⟨h.distinct.sublist hold, hpackages.nodup_iff.mpr hreports, ?_⟩
    rintro k hk _ hmem rfl
    obtain ⟨w, hw, rfl⟩ := List.mem_map.mp (hpackages.mem_iff.mp hmem)
    exact hnew w hw (hold.subset hk)

/-- What the state keeps after a run. -/
lemma HistoryRun.keeps (h : HistoryRun keccak coreCount start chain s)
    (hstart : start.history.recentBlocks = []) : Keeps keccak start chain s := by
  induction h with
  | start => exact ⟨hstart, fun hne => absurd rfl hne, rfl, List.nodup_nil⟩
  | block hrun himport ih => exact ih.block himport

/-- What the state holds after a chain of blocks: the last eight of them, each with the root over the
accumulation outputs of the chain up to it and with the root of the state after it, which is only
missing for the last one, and the peaks over the outputs of all blocks.  The order in which the outputs
of a block were added does not matter. -/
theorem recentHistory_of_chain (h : HistoryRun keccak coreCount start chain s)
    (hstart : start.history.recentBlocks = []) :
    s.history.recentBlocks = withheld ((entries keccak chain).rtake maxHistory) ∧
      (chain ≠ [] → s.history.accumulationOutputLog =
        peaksOf keccak (chain.map (fun b => b.commitment.accumulateRoot keccak))) ∧
      (∀ b, b.parentStateRoot = s.stateRoot → recentHistoryIntermediate b s.history =
        ⟨(entries keccak chain).rtake maxHistory, s.history.accumulationOutputLog⟩) ∧
      ∀ chain', List.Forall₂ HistoryBlock.Reordered chain chain' →
        entries keccak chain' = entries keccak chain := by
  have hkeeps := h.keeps hstart
  exact ⟨hkeeps.recentBlocks, hkeeps.log, fun b hroot => hkeeps.intermediate hroot,
    fun chain' hchain => entries_reordered hchain⟩

/-- The reports of a block are accepted after a chain if and only if the rule of the chain admits
them. -/
theorem reports_accepted_iff (h : HistoryRun keccak coreCount start chain s)
    (hstart : start.history.recentBlocks = [])
    (hdistinct : (chain.map HistoryBlock.headerHash).Nodup) (b : HistoryBlock) :
    (∃ s', importHistory keccak coreCount s b = .ok s') ↔
      b.parentStateRoot = (chain.getLast?.map HistoryBlock.stateRoot).getD start.stateRoot ∧
        Admissible keccak chain b.reports ∧ b.reports.length ≤ coreCount := by
  have hkeeps := h.keeps hstart
  have hrule : validateReports ⟨(entries keccak chain).rtake maxHistory,
      s.history.accumulationOutputLog⟩ b.reports = .ok () ↔ Admissible keccak chain b.reports :=
    validateReports_window hdistinct hkeeps.distinct
  rw [← hkeeps.stateRoot, ← hrule]
  constructor
  · rintro ⟨s', himport⟩
    obtain ⟨hroot, hvalid, hcount, -⟩ := hkeeps.importHistory_eq_ok.mp himport
    exact ⟨hroot, hvalid, hcount⟩
  · rintro ⟨hroot, hvalid, hcount⟩
    exact ⟨_, hkeeps.importHistory_eq_ok.mpr ⟨hroot, hvalid, hcount, rfl⟩⟩

end Runs

/-! ## Sample chains -/

/-- A hash of one byte repeated. -/
def repeated (byte : UInt8) : Octets32 := Vector.replicate 32 byte

def historyStart : ChainHistory := ⟨⟨[], []⟩, repeated 0⟩

def historyFirst : HistoryBlock where
  headerHash := repeated 1
  timeslot := 1
  parentStateRoot := repeated 0
  reports := []
  commitment := .root (repeated 7).toList
  stateRoot := repeated 2

/-- A report that is anchored in the first block. -/
def anchoredReport (package : UInt8) (prerequisites : List Octets32)
    (lookup : Dict Octets32 Octets32) : WorkReport where
  packageSpec := ⟨repeated package, 0, [], 0, (repeated package).toList, 0⟩
  context := ⟨repeated 1, 1, repeated 2, repeated 7, repeated 1, 1, repeated 2, prerequisites⟩
  coreIndex := 0
  authorizerHash := repeated 0
  authGasUsed := 0
  authOutput := []
  segmentRootLookup := lookup
  results := []

/-- Two reports, of which the second needs the first. -/
def historySecond : HistoryBlock where
  headerHash := repeated 5
  timeslot := 2
  parentStateRoot := repeated 2
  reports := [anchoredReport 3 [] ∅,
    anchoredReport 4 [repeated 3] ((∅ : Dict Octets32 Octets32).insert (repeated 3) (repeated 3))]
  commitment := .root (repeated 8).toList
  stateRoot := repeated 6

/-- The first block is imported. -/
lemma historyFirst_run : HistoryRun toDigest 2 historyStart [historyFirst]
    ⟨⟨withheld ((entries toDigest [historyFirst]).rtake maxHistory),
      peaksOf toDigest [(repeated 7).toList]⟩, repeated 2⟩ := by
  have hrun : HistoryRun toDigest 2 historyStart [] historyStart := .start
  have hkeeps := hrun.keeps rfl
  exact hrun.block (hkeeps.importHistory_eq_ok.mpr ⟨rfl, rfl, by decide, rfl⟩)

/-- A block with the outputs of two services. -/
def outputBlock (n : UInt8) : HistoryBlock where
  headerHash := repeated (n + 100)
  timeslot := n.toNat + 1
  parentStateRoot := repeated n
  reports := []
  commitment := .outputs [(7, repeated (n + 1)), (3, repeated (n + 2))]
  stateRoot := repeated (n + 1)

/-- Ten such blocks. -/
def outputChain : List HistoryBlock := [0, 1, 2, 3, 4, 5, 6, 7, 8, 9].map outputBlock

/-- Blocks that are imported one after another are a run. -/
lemma historyRun_of_foldlM {keccak : Octets → Octets32} {coreCount : ℕ} {start s s' : ChainHistory}
    {chain blocks : List HistoryBlock} (hrun : HistoryRun keccak coreCount start chain s)
    (h : blocks.foldlM (importHistory keccak coreCount) s = .ok s') :
    HistoryRun keccak coreCount start (chain ++ blocks) s' := by
  induction blocks generalizing chain s with
  | nil =>
    cases h
    rwa [List.append_nil]
  | cons b blocks ih =>
    rw [List.foldlM_cons] at h
    obtain ⟨next, himport, hrest⟩ := Except.bind_eq_ok.mp h
    rw [← List.singleton_append, ← List.append_assoc]
    exact ih (hrun.block himport) hrest

/-- After ten blocks the history has the last eight of them, each with the root over the outputs up to
it, and the outputs of the first two are in the peaks. -/
theorem recentHistory_of_chain_sample : ∃ s,
    outputChain.foldlM (importHistory toDigest 2) historyStart = .ok s ∧
      s.history.recentBlocks.map RecentBlock.slot = [3, 4, 5, 6, 7, 8, 9, 10] ∧
      s.history.recentBlocks = withheld ((entries toDigest outputChain).rtake maxHistory) ∧
      s.history.accumulationOutputLog =
        peaksOf toDigest (outputChain.map (fun b => b.commitment.accumulateRoot toDigest)) := by
  have haccepts : (outputChain.foldlM (importHistory toDigest 2) historyStart).isOk = true := by
    decide +kernel
  cases hfold : outputChain.foldlM (importHistory toDigest 2) historyStart with
  | error e =>
    rw [hfold] at haccepts
    cases haccepts
  | ok s =>
    have hstart : HistoryRun toDigest 2 historyStart [] historyStart := .start
    have hrun : HistoryRun toDigest 2 historyStart outputChain s := historyRun_of_foldlM hstart hfold
    obtain ⟨hblocks, hlog, -⟩ := recentHistory_of_chain hrun rfl
    refine ⟨s, rfl, ?_, hblocks, hlog (List.cons_ne_nil _ _)⟩
    rw [hblocks]
    decide +kernel

theorem reports_accepted_sample : ∃ s', importHistory toDigest 2
    ⟨⟨withheld ((entries toDigest [historyFirst]).rtake maxHistory),
      peaksOf toDigest [(repeated 7).toList]⟩, repeated 2⟩ historySecond = .ok s' := by
  have hrecent : IsRecent [historyFirst] historyFirst 0 := ⟨rfl, by decide⟩
  have hbeefy : beefyRootOf toDigest ([historyFirst].take 1) = (repeated 7).toList :=
    Merkle.MountainRange.superPeakOf_singleton _
  have hfirst : Reported [historyFirst] historySecond.reports (repeated 3) (repeated 3).toList :=
    ⟨_, .inl List.mem_cons_self, rfl, rfl⟩
  refine (reports_accepted_iff historyFirst_run rfl (List.nodup_singleton _) historySecond).mpr
    ⟨rfl, ⟨by decide, ?_, ?_, ?_, ?_⟩, by decide⟩
  · rintro w hw a n ⟨ha, -⟩ w' hw'
    have hfront := List.mem_of_getElem? ha
    rw [List.mem_singleton] at hfront
    rw [hfront] at hw'
    cases hw'
  · intro w hw
    refine ⟨historyFirst, 0, hrecent, ?_⟩
    simp only [historySecond, List.mem_cons, List.not_mem_nil, or_false] at hw
    rcases hw with rfl | rfl
    · exact ⟨rfl, rfl, rfl, hbeefy⟩
    · exact ⟨rfl, rfl, rfl, hbeefy⟩
  · intro w hw entry hentry
    simp only [historySecond, List.mem_cons, List.not_mem_nil, or_false] at hw
    rcases hw with rfl | rfl
    · cases hentry
    · obtain rfl := List.mem_singleton.mp hentry
      exact hfirst
  · intro w hw prerequisite hprerequisite
    simp only [historySecond, List.mem_cons, List.not_mem_nil, or_false] at hw
    rcases hw with rfl | rfl
    · cases hprerequisite
    · obtain rfl := List.mem_singleton.mp hprerequisite
      exact ⟨_, hfirst⟩

end Chain
