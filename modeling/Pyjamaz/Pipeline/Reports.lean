import Mathlib.Data.List.Sort
import Pyjamaz.Accumulation.Sequential

/-!
# The pipeline of work reports

A report that is guaranteed waits on its core until enough validators assure it.  Then it is
available, and accumulated at once when it depends on nothing, or queued until the packages it
depends on are accumulated.  This file is the path of the reports through one block: disputes,
assurances, guarantees, the choice of the reports to accumulate, and the turn of the accumulation
history and of the accumulation queue.

How many of the chosen reports a block accumulates is the answer of
`full_sequential_accumulation` (`Accumulation.fullSequentialAccumulation`); here it comes with the
block.  The checks of a block that do not look at the pipeline (signatures, slots and anchors, gas
and sizes, authorizers, prerequisites) are one parameter.

`priority_queue` calls itself for every layer of dependencies, so the configuration also says how many
nested calls the interpreter's recursion limit leaves it.
-/

namespace Pipeline

open Accumulation

/-! ## Data -/

/-- The constants of a chain. -/
structure Config where
  epochTimeslots : ℕ
  coreCount : ℕ
  gasTotal : ℕ
  recursionDepth : ℕ
  epochTimeslots_pos : 0 < epochTimeslots

/-- `HISTORY` -/
def maxHistory : ℕ := 8

/-- `UNAVAILABLE_WORK_REPLACEMENT_PERIOD` -/
def unavailableWorkReplacementPeriod : ℕ := 5

/-- `GAS_ACCUMULATION` -/
def gasAccumulation : ℕ := 10000000

/-- A work report, with what accumulation and the pipeline read of it. -/
structure Report extends WorkReport where
  coreIndex : ℕ
  prerequisites : List Octets32
  segmentRootLookup : Dict Octets32 Octets32

/-- `AccumulationQueueWorkPackage` -/
structure QueueEntry where
  report : Report
  dependencies : List Octets32

/-- `AssuranceStateItem`; the slot of the registration is also what `timeout` gives. -/
structure Pending where
  report : Report
  registeredSlot : ℕ

/-- A verdict: the hash of the report, and the votes. -/
structure Verdict where
  target : Octets32
  votes : List Bool

def Verdict.isGood (v : Verdict) : Bool := v.votes.count true = v.votes.length

/-- The parts of the state that reports pass through.  A recent block is the list of the package
hashes it reported. -/
structure State where
  timeslot : ℕ
  recentBlocks : List (List Octets32)
  assurances : List (Option Pending)
  accumulationQueue : List (List QueueEntry)
  accumulationHistory : List (List Octets32)

/-- What a block brings: an assurance is the list of the cores it engages, and a guarantee is its
report. -/
structure Block where
  timeslot : ℕ
  verdicts : List Verdict
  assurances : List (List ℕ)
  guarantees : List Report
  preValidatorCount : ℕ
  postValidatorCount : ℕ
  nrWorkResultsAccumulated : ℕ

/-- The errors of the checks that are modelled, one for all others, and that of the interpreter. -/
inductive BlockError where
  | badSlot
  | coreNotEngaged
  | outOfOrderGuarantee
  | duplicatePackage
  | badCoreIndex
  | coreEngaged
  | otherCheck
  | recursionError
  deriving DecidableEq, Repr

/-- The hashes of a list of reports. -/
def hashes (reports : List Report) : List Octets32 := reports.map (fun w => w.packageHash)

/-- The package hashes of queue entries. -/
def entryHashes (queue : List QueueEntry) : List Octets32 := queue.map (fun e => e.report.packageHash)

/-- The package hashes of the pending reports. -/
def pendingHashes (assurances : List (Option Pending)) : List Octets32 :=
  assurances.reduceOption.map (fun p => p.report.packageHash)

/-- The number that 32 bytes spell, the first byte being the highest: byte strings of one length are
compared as these numbers. -/
def bigEndian (h : Octets32) : ℕ := h.toList.foldl (fun n b => 256 * n + b.toNat) 0

/-- `sorted` of a list of hashes. -/
def sortedHashes (hs : List Octets32) : List Octets32 :=
  hs.insertionSort (fun a b => bigEndian a ≤ bigEndian b)

@[simp] lemma mem_sortedHashes {hs : List Octets32} {h : Octets32} :
    h ∈ sortedHashes hs ↔ h ∈ hs := by
  rw [sortedHashes, List.mem_insertionSort]

lemma nodup_sortedHashes {hs : List Octets32} : (sortedHashes hs).Nodup ↔ hs.Nodup :=
  (List.perm_insertionSort _ hs).nodup_iff

/-! ## Editing the queue -/

def workReportDependencies (w : Report) : QueueEntry :=
  ⟨w, sortedHashes (w.prerequisites ++ w.segmentRootLookup.keys)⟩

/-- The dependencies that are left when some packages are accumulated. -/
def remaining (dependencies accumulatedPackages : List Octets32) : List Octets32 :=
  sortedHashes (dependencies.filter (· ∉ accumulatedPackages)).dedup

def editQueue (queue : List QueueEntry) (accumulatedPackages : List Octets32) : List QueueEntry :=
  (queue.filter (fun e => e.report.packageHash ∉ accumulatedPackages)).map
    (fun e => ⟨e.report, remaining e.dependencies accumulatedPackages⟩)

def workReportMapping (reports : List Report) : List Octets32 := (hashes reports).dedup

/-- The reports of the entries that wait for nothing. -/
def unblocked (queue : List QueueEntry) : List Report :=
  (queue.filter (fun e => e.dependencies.length = 0)).map QueueEntry.report

/-- `priority_queue`; the number is that of the nested calls which the recursion limit leaves. -/
def priorityQueue : ℕ → List QueueEntry → Except BlockError (List Report)
  | 0, _ => .error .recursionError
  | depth + 1, queue =>
    if (unblocked queue).length = 0 then .ok []
    else (priorityQueue depth (editQueue queue (workReportMapping (unblocked queue)))).map
      (unblocked queue ++ ·)

/-! ## The reports of a block -/

/-- Whether a report depends on nothing. -/
def Report.isReady (w : Report) : Bool :=
  w.prerequisites.length = 0 && w.segmentRootLookup.entries.length = 0

def readyWorkReports (available : List Report) : List Report := available.filter (·.isReady)

def queuedWorkReports (available : List Report) (history : List (List Octets32)) :
    List QueueEntry :=
  editQueue ((available.filter (fun w => !w.isReady)).map workReportDependencies) history.flatten

/-- The entries in the order in which `set_accumulatable_work_reports` reads them, with `m` the slot
within the epoch. -/
def queueEntries (queue : List (List QueueEntry)) (queuedWorkReports : List QueueEntry) (m : ℕ) :
    List QueueEntry :=
  (queue.drop m).flatten ++ (queue.take m).flatten ++ queuedWorkReports

/-- `set_accumulatable_work_reports` -/
def setAccumulatableWorkReports (depth : ℕ) (readyWorkReports : List Report)
    (queuedWorkReports : List QueueEntry) (queue : List (List QueueEntry)) (m : ℕ) :
    Except BlockError (List Report) :=
  (priorityQueue depth (editQueue (queueEntries queue queuedWorkReports m)
    (workReportMapping readyWorkReports))).map (readyWorkReports ++ ·)

/-! ## Assurances -/

/-- The targets of the verdicts that are not good. -/
def rejectedReports (verdicts : List Verdict) : List Octets32 :=
  (verdicts.filter (fun v => !v.isGood)).map Verdict.target

section Hash

variable (reportHash : Report → Octets32)

/-- `state_transition_after_disputes` -/
def assurancesAfterDisputes (verdicts : List Verdict) (assurances : List (Option Pending)) :
    List (Option Pending) :=
  assurances.map (Option.filter (fun p => reportHash p.report ∉ rejectedReports verdicts))

end Hash

/-- Whether the validators that assure a core are enough. -/
def isAvailable (b : Block) (core : ℕ) : Bool :=
  b.preValidatorCount * 2 / 3 + 1 ≤ b.assurances.flatten.count core

/-- Whether a pending report is given up. -/
def isReplaceable (b : Block) (p : Pending) : Bool :=
  b.postValidatorCount ≠ b.preValidatorCount ||
    p.registeredSlot + unavailableWorkReplacementPeriod ≤ b.timeslot

/-- The reports that become available, in the order of the cores. -/
def availableReports (b : Block) (assurances : List (Option Pending × ℕ)) : List Report :=
  assurances.filterMap fun slot =>
    if isAvailable b slot.2 then slot.1.map Pending.report else none

/-- The reports that stay on their cores. -/
def keptReports (b : Block) (assurances : List (Option Pending × ℕ)) : List (Option Pending) :=
  assurances.map fun slot => slot.1.filter (fun p => !isAvailable b slot.2 && !isReplaceable b p)

/-- `state_transition_after_assurances`: the available reports, and what is left on the cores. -/
def assurancesAfterAssurances (b : Block) (assurances : List (Option Pending)) :
    Except BlockError (List Report × List (Option Pending)) :=
  if b.assurances.flatten.any (fun core => (assurances[core]?.join).isNone) then
    .error .coreNotEngaged
  else .ok (availableReports b assurances.zipIdx, keptReports b assurances.zipIdx)

/-! ## Guarantees -/

/-- The packages that a guarantee may not report again. -/
def pipelineHashes (s : State) (assurances : List (Option Pending)) : List Octets32 :=
  s.recentBlocks.flatten ++ s.accumulationHistory.flatten ++
    entryHashes s.accumulationQueue.flatten ++ pendingHashes assurances

def workPackagesExistsInPipeline (s : State) (assurances : List (Option Pending))
    (packageHashes : List Octets32) : Bool :=
  packageHashes.any (· ∈ pipelineHashes s assurances)

/-- The part of `validate_guarantees` that looks at the cores and at the packages. -/
def validateGuarantees (s : State) (assurances : List (Option Pending)) (guarantees : List Report) :
    Except BlockError Unit :=
  if !decide ((guarantees.map Report.coreIndex).IsChain (· ≤ ·)) then .error .outOfOrderGuarantee
  else if !decide (guarantees.map Report.coreIndex).Nodup then .error .outOfOrderGuarantee
  else if !decide (hashes guarantees).Nodup then .error .duplicatePackage
  else if workPackagesExistsInPipeline s assurances (hashes guarantees) then
    .error .duplicatePackage
  else if guarantees.any (fun w => assurances.length ≤ w.coreIndex) then .error .badCoreIndex
  else if guarantees.any (fun w => (assurances[w.coreIndex]?.join).isSome) then
    .error .coreEngaged
  else .ok ()

/-- `state_transition_after_guarantees` -/
def assurancesAfterGuarantees (timeslot : ℕ) (guarantees : List Report)
    (assurances : List (Option Pending)) : List (Option Pending) :=
  guarantees.foldl (fun a w => a.set w.coreIndex (some ⟨w, timeslot⟩)) assurances

/-! ## The turn of the state -/

/-- The new recent block is appended, and the oldest dropped when there are too many. -/
def recentHistory (recentBlocks : List (List Octets32)) (guarantees : List Report) :
    List (List Octets32) :=
  let blocks := recentBlocks ++ [sortedHashes (hashes guarantees)]
  if maxHistory < blocks.length then blocks.tail else blocks

/-- `AccumulationHistory.state_transition` -/
def accumulationHistory (accumulatable : List Report) (history : List (List Octets32)) (n : ℕ) :
    List (List Octets32) :=
  history.tail ++ [sortedHashes (workReportMapping (accumulatable.take n))]

/-- The index `m - i` into a list of length `size`, from the end when it is negative. -/
def ringIndex (size m i : ℕ) : ℕ := if i ≤ m then m - i else size + m - i

/-- The bucket that the turn of the queue writes for the offset `i`. -/
def queueBucket (queued : List QueueEntry) (queue : List (List QueueEntry))
    (accumulated : List Octets32) (m gap size i : ℕ) : List QueueEntry :=
  if i = 0 then editQueue queued accumulated
  else if i < gap then []
  else editQueue (queue.getD (ringIndex size m i) []) accumulated

/-- `AccumulationQueue.state_transition` -/
def accumulationQueue (cfg : Config) (queued : List QueueEntry) (queue : List (List QueueEntry))
    (history : List (List Octets32)) (preTimeslot postTimeslot : ℕ) : List (List QueueEntry) :=
  let size := cfg.epochTimeslots
  let m := postTimeslot % size
  (List.range size).foldl
    (fun q i => q.set (ringIndex size m i) (queueBucket queued queue
      (history.getD (size - 1) []) m (postTimeslot - preTimeslot) size i))
    (List.replicate size [])

/-! ## A block -/

section Block

variable (cfg : Config) (reportHash : Report → Octets32) (otherChecks : State → Block → Bool)

/-- The reports that a block makes available, and what is left on the cores. -/
def blockAssurances (s : State) (b : Block) :
    Except BlockError (List Report × List (Option Pending)) :=
  assurancesAfterAssurances b (assurancesAfterDisputes reportHash b.verdicts s.assurances)

/-- The reports a block may accumulate. -/
def blockAccumulatable (s : State) (b : Block) (available : List Report) :
    Except BlockError (List Report) :=
  setAccumulatableWorkReports cfg.recursionDepth (readyWorkReports available)
    (queuedWorkReports available s.accumulationHistory) s.accumulationQueue
    (b.timeslot % cfg.epochTimeslots)

/-- The state after a block that makes `available` available, leaves `kept` on the cores and may
accumulate `accumulatable`. -/
def postState (s : State) (b : Block) (available : List Report) (kept : List (Option Pending))
    (accumulatable : List Report) : State :=
  let history := accumulationHistory accumulatable s.accumulationHistory b.nrWorkResultsAccumulated
  { timeslot := b.timeslot
    recentBlocks := recentHistory s.recentBlocks b.guarantees
    assurances := assurancesAfterGuarantees b.timeslot b.guarantees kept
    accumulationQueue := accumulationQueue cfg
      (queuedWorkReports available s.accumulationHistory) s.accumulationQueue history
      s.timeslot b.timeslot
    accumulationHistory := history }

/-- The transition of a block, as far as the pipeline goes. -/
def applyBlock (s : State) (b : Block) : Except BlockError State :=
  if b.timeslot ≤ s.timeslot then .error .badSlot
  else if !otherChecks s b then .error .otherCheck
  else do
    let (available, kept) ← blockAssurances reportHash s b
    validateGuarantees s kept b.guarantees
    let accumulatable ← blockAccumulatable cfg s b available
    return postState cfg s b available kept accumulatable

/-- A run of accepted blocks. -/
inductive Run : State → State → Prop
  | none (s : State) : Run s s
  | block {s s' s'' : State} {b : Block} (hrun : Run s s')
      (hblock : applyBlock cfg reportHash otherChecks s' b = .ok s'') : Run s s''

end Block

/-- A state whose pipeline is empty. -/
structure Empty (cfg : Config) (s : State) : Prop where
  assurances : s.assurances = List.replicate cfg.coreCount none
  accumulationQueue : s.accumulationQueue = List.replicate cfg.epochTimeslots []
  accumulationHistory : s.accumulationHistory = List.replicate cfg.epochTimeslots []

end Pipeline
