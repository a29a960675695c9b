import Pyjamaz.Assurances.Transition
import Pyjamaz.Library.SortedSet
import Pyjamaz.Library.Sums
import Pyjamaz.Refinement.Report
import Pyjamaz.Safrole.SealingSeries

/-!
# The activity statistics

The state counts what each validator did in the current epoch and in the one before, and what each core
and each service did in the last block.  The assurances of a block are those of the validators before
it, so they are counted before the records of the validators are turned over at a new epoch.

`statistics_of_chain` says what the counters hold on every chain of accepted blocks, and that the
updates never index out of their lists; `statistics_balance` that the same work is booked on the cores and
on the services, and nothing is lost or booked twice.
-/

namespace Chain

open Octets Safrole
open Assurances (Assurance)
open Refinement (WorkReport WorkDigest RefineLoad ecSegmentSize)

/-! ## Data -/

@[ext] structure ActivityRecord where
  blocks : ℕ
  tickets : ℕ
  preImages : ℕ
  preImagesSize : ℕ
  guarantees : ℕ
  assurances : ℕ
  deriving DecidableEq, Repr

/-- The load of a core is that of the digests reported on it. -/
structure CoreActivityRecord extends RefineLoad where
  daLoad : ℕ
  popularity : ℕ
  bundleSize : ℕ
  deriving DecidableEq, Repr

/-- The load of a service is that of its reported digests; its gas is `refinement_gas_used`. -/
structure ServiceActivityRecord extends RefineLoad where
  providedCount : ℕ
  providedSize : ℕ
  refinementCount : ℕ
  accumulateCount : ℕ
  accumulateTransferCount : ℕ
  accumulateGasUsed : ℕ
  deriving DecidableEq, Repr

structure AccumulationStatistic where
  totalGasUtilized : ℕ
  nrWorkReportsAccumulated : ℕ
  nrTransfersAccumulated : ℕ
  deriving DecidableEq, Repr

structure StatisticsState where
  valsCurrent : List ActivityRecord
  valsLast : List ActivityRecord
  cores : List CoreActivityRecord
  services : Dict ℕ ServiceActivityRecord

/-- What a block and the components before the statistics give: the tickets are counted only, the
preimages come with their requesters, the reports are those of the guarantees and those that became
available, the validators those of the posterior pool. -/
structure StatisticsBlock (Hash Key Signature : Type) where
  timeslot : ℕ
  authorIndex : ℕ
  ticketCount : ℕ
  preimages : List (ℕ × Octets)
  assurances : List (Assurance Hash Signature)
  incoming : List WorkReport
  available : List WorkReport
  reporters : List Key
  validatorPool : List Key
  /-- `accumulation_gas_utilized` -/
  gasUtilized : Dict ℕ ℕ
  /-- the reports that were accumulated -/
  accumulated : List WorkReport
  /-- the receivers of the transfers that were processed -/
  receivers : List ℕ

inductive StatisticsError where
  | indexError
  deriving DecidableEq, Repr

variable {Hash Key Signature : Type}

/-! ## Records add up -/

instance : Zero ActivityRecord := ⟨⟨0, 0, 0, 0, 0, 0⟩⟩

instance : Add ActivityRecord where
  add r r' := ⟨r.blocks + r'.blocks, r.tickets + r'.tickets, r.preImages + r'.preImages,
    r.preImagesSize + r'.preImagesSize, r.guarantees + r'.guarantees, r.assurances + r'.assurances⟩

lemma ActivityRecord.add_def (r r' : ActivityRecord) : r + r' =
    ⟨r.blocks + r'.blocks, r.tickets + r'.tickets, r.preImages + r'.preImages,
      r.preImagesSize + r'.preImagesSize, r.guarantees + r'.guarantees,
      r.assurances + r'.assurances⟩ := rfl

lemma ActivityRecord.zero_def : (0 : ActivityRecord) = ⟨0, 0, 0, 0, 0, 0⟩ := rfl

instance : AddCommMonoid ActivityRecord where
  add_assoc r r' r'' := by
    simp only [ActivityRecord.add_def, Nat.add_assoc]
  zero_add r := by
    simp only [ActivityRecord.add_def, ActivityRecord.zero_def, Nat.zero_add]
  add_zero r := by
    simp only [ActivityRecord.add_def, ActivityRecord.zero_def, Nat.add_zero]
  add_comm r r' := by
    simp only [ActivityRecord.add_def, Nat.add_comm]
  nsmul := nsmulRec

instance : Zero RefineLoad := ⟨⟨0, 0, 0, 0, 0⟩⟩

instance : Add RefineLoad where
  add l l' := ⟨l.gasUsed + l'.gasUsed, l.imports + l'.imports,
    l.extrinsicCount + l'.extrinsicCount, l.extrinsicSize + l'.extrinsicSize,
    l.exports + l'.exports⟩

lemma refineLoad_add_def (l l' : RefineLoad) : l + l' = ⟨l.gasUsed + l'.gasUsed,
    l.imports + l'.imports, l.extrinsicCount + l'.extrinsicCount,
    l.extrinsicSize + l'.extrinsicSize, l.exports + l'.exports⟩ := rfl

lemma refineLoad_zero_def : (0 : RefineLoad) = ⟨0, 0, 0, 0, 0⟩ := rfl

instance : AddCommMonoid RefineLoad where
  add_assoc l l' l'' := by
    simp only [refineLoad_add_def, add_assoc]
  zero_add l := by
    simp only [refineLoad_add_def, refineLoad_zero_def, zero_add]
  add_zero l := by
    simp only [refineLoad_add_def, refineLoad_zero_def, add_zero]
  add_comm l l' := by
    simp only [refineLoad_add_def, add_comm]
  nsmul := nsmulRec

/-! ## The validators -/

/-- A record is changed in place. -/
def updateRecord {Record : Type} (records : List Record) (index : ℕ) (update : Record → Record) :
    Except StatisticsError (List Record) :=
  match records[index]? with
  | none => .error .indexError
  | some r => .ok (records.set index (update r))

/-- The assurances of a block are counted. -/
def recordAssurances (vals : List ActivityRecord) (assurances : List (Assurance Hash Signature)) :
    Except StatisticsError (List ActivityRecord) :=
  (sortedSet (assurances.map Assurance.validatorIndex)).foldlM
    (fun vals assurer => updateRecord vals assurer
      (fun r => { r with assurances := r.assurances + 1 })) vals

/-- What the author of a block brought. -/
def recordAuthor (vals : List ActivityRecord) (b : StatisticsBlock Hash Key Signature) :
    Except StatisticsError (List ActivityRecord) :=
  updateRecord vals b.authorIndex fun r => { r with
    blocks := r.blocks + 1
    tickets := r.tickets + b.ticketCount
    preImages := r.preImages + b.preimages.length
    preImagesSize := r.preImagesSize + (b.preimages.map (fun p => p.2.length)).sum }

/-- `retrieve_validator_index` -/
def retrieveValidatorIndex [DecidableEq Key] (ed25519Key : Key) (validatorPool : List Key) :
    Option ℕ :=
  validatorPool.findIdx? (fun key => key = ed25519Key)

/-- The reporters of a block are counted, as far as they are in the pool. -/
def recordReporters [DecidableEq Key] (vals : List ActivityRecord)
    (b : StatisticsBlock Hash Key Signature) : Except StatisticsError (List ActivityRecord) :=
  b.reporters.foldlM (fun vals reporter =>
    match retrieveValidatorIndex reporter b.validatorPool with
    | none => .ok vals
    | some index => updateRecord vals index
        (fun r => { r with guarantees := r.guarantees + 1 })) vals

/-! ## The cores -/

/-- `update_from_incoming_work_reports` -/
def CoreActivityRecord.updateFromIncomingWorkReports (core : ℕ) (incoming : List WorkReport)
    (r : CoreActivityRecord) : CoreActivityRecord :=
  incoming.foldl (fun r w =>
    if w.coreIndex = (core : ℤ) then
      w.results.foldl (fun r d => { r with toRefineLoad := r.toRefineLoad + d.refineLoad })
        { r with bundleSize := r.bundleSize + w.packageSpec.length }
    else r) r

/-- `update_from_available_work_reports` -/
def CoreActivityRecord.updateFromAvailableWorkReports (core : ℕ) (available : List WorkReport)
    (r : CoreActivityRecord) : CoreActivityRecord :=
  { r with
    daLoad := ((available.filter (fun w => w.coreIndex = (core : ℤ))).map (fun w =>
      w.packageSpec.length + ecSegmentSize * ((w.packageSpec.exportsCount * 65 + 63) / 64))).sum }

/-- `CoreActivityRecord.update` -/
def CoreActivityRecord.update (core : ℕ) (incoming available : List WorkReport)
    (assurances : List (Assurance Hash Signature)) (r : CoreActivityRecord) : CoreActivityRecord :=
  let r := { r with
    toRefineLoad := ⟨0, 0, 0, 0, 0⟩
    bundleSize := 0
    daLoad := 0
    popularity := 0 }
  let r := if incoming.isEmpty then r else r.updateFromIncomingWorkReports core incoming
  let r := if available.isEmpty then r else r.updateFromAvailableWorkReports core available
  { r with popularity := assurances.countP (fun a => core ∈ a.coresEngaged) }

/-! ## The services -/

/-- The numbers of how often each service comes. -/
def perService (services : List ℕ) : Dict ℕ ℕ :=
  services.foldl (fun counts s => counts.insert s ((counts.get? s).getD 0 + 1)) ∅

/-- The digests of reports. -/
def digests (reports : List WorkReport) : List WorkDigest := reports.flatMap (fun w => w.results)

/-- The services of the digests of reports. -/
def digestServices (reports : List WorkReport) : List ℕ :=
  (digests reports).map (fun d => d.serviceId)

/-- `set_accumulation_statistics` -/
def StatisticsBlock.accumulationStatistics (b : StatisticsBlock Hash Key Signature) :
    Dict ℕ AccumulationStatistic :=
  let digests := perService (digestServices b.accumulated)
  let transfers := perService b.receivers
  (sortedSet (b.gasUtilized.keys ++ digests.keys ++ transfers.keys)).foldl (fun statistics s =>
    let gas := (b.gasUtilized.get? s).getD 0
    if 0 < (digests.get? s).getD 0 + (transfers.get? s).getD 0 + gas then
      statistics.insert s ⟨gas, (digests.get? s).getD 0, (transfers.get? s).getD 0⟩
    else statistics) ∅

/-- The preimages that a service got. -/
def ServiceActivityRecord.provide (s : ℕ) (preimages : List (ℕ × Octets))
    (r : ServiceActivityRecord) : ServiceActivityRecord :=
  preimages.foldl (fun r p =>
    if p.1 = s then
      { r with
        providedCount := r.providedCount + 1
        providedSize := r.providedSize + p.2.length }
    else r) r

/-- The digests of a service. -/
def ServiceActivityRecord.refine (s : ℕ) (incoming : List WorkReport) (r : ServiceActivityRecord) :
    ServiceActivityRecord :=
  incoming.foldl (fun r w => w.results.foldl (fun r d =>
    if d.serviceId = s then
      { r with
        refinementCount := r.refinementCount + 1
        toRefineLoad := r.toRefineLoad + d.refineLoad }
    else r) r) r

/-- The accumulations of a service. -/
def ServiceActivityRecord.accumulate (statistic : Option AccumulationStatistic)
    (r : ServiceActivityRecord) : ServiceActivityRecord :=
  match statistic with
  | none => r
  | some a =>
    { r with
      accumulateCount := r.accumulateCount + a.nrWorkReportsAccumulated
      accumulateGasUsed := r.accumulateGasUsed + a.totalGasUtilized
      accumulateTransferCount := r.accumulateTransferCount + a.nrTransfersAccumulated }

/-- The record of a service for a block. -/
def StatisticsBlock.serviceRecord (b : StatisticsBlock Hash Key Signature) (s : ℕ) :
    ServiceActivityRecord :=
  (((⟨⟨0, 0, 0, 0, 0⟩, 0, 0, 0, 0, 0, 0⟩ : ServiceActivityRecord).provide s b.preimages).refine s
    b.incoming).accumulate (b.accumulationStatistics.get? s)

/-- The services that a block affects. -/
def StatisticsBlock.affected (b : StatisticsBlock Hash Key Signature) : List ℕ :=
  sortedSet (digestServices b.incoming ++ b.preimages.map Prod.fst ++ b.accumulationStatistics.keys)

/-! ## The transition -/

section Transition

variable [DecidableEq Key] (cfg : Config) (coreCount : ℕ)

/-- The records of the validators after a block. -/
def validatorRecords (b : StatisticsBlock Hash Key Signature) (preSlot : ℕ) (s : StatisticsState) :
    Except StatisticsError (List ActivityRecord × List ActivityRecord) := do
  let assured ← recordAssurances s.valsCurrent b.assurances
  let (current, last) :=
    if isEpochChange cfg preSlot b.timeslot then
      (b.validatorPool.map (fun _ => (⟨0, 0, 0, 0, 0, 0⟩ : ActivityRecord)), assured)
    else (assured, s.valsLast)
  let current ← recordAuthor current b
  let current ← recordReporters current b
  return (current, last)

/-- `Statistics.state_transition` -/
def statisticsTransition (b : StatisticsBlock Hash Key Signature) (preSlot : ℕ)
    (s : StatisticsState) : Except StatisticsError StatisticsState := do
  let (current, last) ← validatorRecords cfg b preSlot s
  let cores ← (List.range coreCount).foldlM (fun cores core =>
    updateRecord cores core (CoreActivityRecord.update core b.incoming b.available b.assurances)) s.cores
  return {
    valsCurrent := current
    valsLast := last
    cores := cores
    services := (∅ : Dict ℕ ServiceActivityRecord).assign
      (b.affected.map (fun s => (s, b.serviceRecord s))) }

end Transition

/-! ## Bookings -/

section Bookings

variable {Record M : Type} [AddCommMonoid M]

lemma updateRecord_spec {records records' : List Record} {index : ℕ} {update : Record → Record}
    (h : updateRecord records index update = .ok records') :
    records'.length = records.length ∧ ∀ v, records'[v]? =
      records[v]?.map (fun r => if index = v then update r else r) := by
  unfold updateRecord at h
  cases hr : records[index]? with
  | none =>
    rw [hr] at h
    cases h
  | some r =>
    rw [hr] at h
    cases h
    refine ⟨List.length_set, fun v => ?_⟩
    rw [List.getElem?_set]
    by_cases heq : index = v
    · rw [if_pos heq, if_pos (List.getElem?_eq_some_iff.mp hr).1, ← heq, hr, Option.map_some,
        if_pos rfl]
    · simp only [if_neg heq, Option.map_id']

lemma exists_updateRecord {records : List Record} {index : ℕ} (h : index < records.length)
    (update : Record → Record) : ∃ records', updateRecord records index update = .ok records' := by
  refine ⟨records.set index (update records[index]), ?_⟩
  unfold updateRecord
  rw [List.getElem?_eq_getElem h]

/-- Amounts are added to records one after another. -/
def book (records : List M) (bookings : List (ℕ × M)) : Except StatisticsError (List M) :=
  bookings.foldlM (fun records x => updateRecord records x.1 (· + x.2)) records

/-- After the bookings, every record has its share of them. -/
lemma book_spec {bookings : List (ℕ × M)} {records records' : List M}
    (h : book records bookings = .ok records') :
    records'.length = records.length ∧
      ∀ v, records'[v]? = records[v]?.map (· + shareOf bookings v) := by
  induction bookings generalizing records with
  | nil =>
    cases h
    refine ⟨rfl, fun v => ?_⟩
    simp only [shareOf_nil, add_zero, Option.map_id']
  | cons x bookings ih =>
    rw [book, List.foldlM_cons] at h
    obtain ⟨middle, hfirst, h⟩ := Except.bind_eq_ok.mp h
    obtain ⟨hlength, hfirst⟩ := updateRecord_spec hfirst
    obtain ⟨hlength', hrest⟩ := ih h
    refine ⟨hlength'.trans hlength, fun v => ?_⟩
    rw [hrest, hfirst, Option.map_map, shareOf_cons]
    congr
    funext r
    by_cases heq : x.1 = v
    · simp only [Function.comp_apply, if_pos heq, add_assoc]
    · simp only [Function.comp_apply, if_neg heq, zero_add]

/-- Bookings on records that are there. -/
lemma exists_book {bookings : List (ℕ × M)} {records : List M}
    (h : ∀ x ∈ bookings, x.1 < records.length) : ∃ records', book records bookings = .ok records' := by
  induction bookings generalizing records with
  | nil => exact ⟨records, rfl⟩
  | cons x bookings ih =>
    obtain ⟨middle, hfirst⟩ := exists_updateRecord (h x List.mem_cons_self) (· + x.2)
    obtain ⟨records', hrest⟩ := ih (fun y hy => by
      rw [(updateRecord_spec hfirst).1]
      exact h y (List.mem_cons_of_mem _ hy))
    refine ⟨records', ?_⟩
    rw [book, List.foldlM_cons, hfirst]
    exact hrest

lemma book_append (records : List M) (bookings bookings' : List (ℕ × M)) :
    book records (bookings ++ bookings') = book records bookings >>= (book · bookings') :=
  List.foldlM_append ..

end Bookings

/-! ## What a block books on the validators -/

section Validators

variable [DecidableEq Key] {b : StatisticsBlock Hash Key Signature}

/-- One assurance for each validator that assured. -/
def StatisticsBlock.assuranceBookings (b : StatisticsBlock Hash Key Signature) :
    List (ℕ × ActivityRecord) :=
  (sortedSet (b.assurances.map Assurance.validatorIndex)).map (fun v => (v, ⟨0, 0, 0, 0, 0, 1⟩))

/-- The block itself for its author, and one guarantee for each reporter of the pool. -/
def StatisticsBlock.authorBookings (b : StatisticsBlock Hash Key Signature) :
    List (ℕ × ActivityRecord) :=
  (b.authorIndex, ⟨1, b.ticketCount, b.preimages.length,
      (b.preimages.map (fun p => p.2.length)).sum, 0, 0⟩) ::
    (b.reporters.filterMap (retrieveValidatorIndex · b.validatorPool)).map
      (fun v => (v, ⟨0, 0, 0, 0, 1, 0⟩))

omit [DecidableEq Key] in
lemma recordAssurances_eq (vals : List ActivityRecord) :
    recordAssurances vals b.assurances = book vals b.assuranceBookings := by
  rw [book, StatisticsBlock.assuranceBookings, List.foldlM_map]
  rfl

lemma recordReporters_eq (vals : List ActivityRecord) : recordReporters vals b =
    book vals ((b.reporters.filterMap (retrieveValidatorIndex · b.validatorPool)).map
      (fun v => (v, ⟨0, 0, 0, 0, 1, 0⟩))) := by
  rw [recordReporters, book, List.foldlM_map, List.foldlM_filterMap]
  congr
  funext vals reporter
  cases retrieveValidatorIndex reporter b.validatorPool with
  | none => rfl
  | some index => rfl

lemma recordAuthor_reporters_eq (vals : List ActivityRecord) :
    (recordAuthor vals b >>= fun vals => recordReporters vals b) = book vals b.authorBookings := by
  have hauthor : recordAuthor vals b = book vals [(b.authorIndex, ⟨1, b.ticketCount,
      b.preimages.length, (b.preimages.map (fun p => p.2.length)).sum, 0, 0⟩)] := by
    rw [book, List.foldlM_cons]
    show _ = updateRecord _ _ _ >>= pure
    rw [bind_pure]
    rfl
  simp only [hauthor, recordReporters_eq, ← book_append]
  rfl

/-- The transition books the assurances on the records before the block, and the rest on those that
the block leaves for its epoch. -/
lemma validatorRecords_eq (cfg : Config) (preSlot : ℕ) (s : StatisticsState) :
    validatorRecords cfg b preSlot s = do
      let assured ← book s.valsCurrent b.assuranceBookings
      if isEpochChange cfg preSlot b.timeslot then
        let current ← book (b.validatorPool.map (fun _ => 0)) b.authorBookings
        return (current, assured)
      else
        let current ← book assured b.authorBookings
        return (current, s.valsLast) := by
  rw [validatorRecords, recordAssurances_eq]
  refine congrArg _ (funext fun assured => ?_)
  cases isEpochChange cfg preSlot b.timeslot with
  | false =>
    rw [if_neg Bool.false_ne_true, if_neg Bool.false_ne_true]
    simp only [← bind_assoc, recordAuthor_reporters_eq]
  | true =>
    rw [if_pos rfl, if_pos rfl]
    simp only [← bind_assoc, recordAuthor_reporters_eq]
    rfl

end Validators

/-! ## Along a chain -/

/-- The statistics, with the slot of the state and the validators of its pool. -/
structure ChainStatistics (Key : Type) where
  timeslot : ℕ
  validatorPool : List Key
  statistics : StatisticsState

/-- What other checks of a block have established: its slot is later, its author and its assurers are
validators, of the posterior and of the prior pool, and the pool is the same within an epoch. -/
structure StatisticsBlock.Accepted (cfg : Config) (b : StatisticsBlock Hash Key Signature)
    (s : ChainStatistics Key) : Prop where
  slot : s.timeslot < b.timeslot
  author : b.authorIndex < b.validatorPool.length
  assurers : ∀ a ∈ b.assurances, a.validatorIndex < s.validatorPool.length
  pool : isEpochChange cfg s.timeslot b.timeslot = false → b.validatorPool = s.validatorPool

/-- A chain of accepted blocks, each with the slot before it. -/
inductive StatisticsRun [DecidableEq Key] (cfg : Config) (coreCount : ℕ)
    (start : ChainStatistics Key) :
    List (ℕ × StatisticsBlock Hash Key Signature) → ChainStatistics Key → Prop where
  | start : StatisticsRun cfg coreCount start [] start
  | block {chain : List (ℕ × StatisticsBlock Hash Key Signature)} {s : ChainStatistics Key}
      {b : StatisticsBlock Hash Key Signature} {post : StatisticsState} :
      StatisticsRun cfg coreCount start chain s → b.Accepted cfg s →
      statisticsTransition cfg coreCount b s.timeslot s.statistics = .ok post →
      StatisticsRun cfg coreCount start (chain ++ [(s.timeslot, b)])
        ⟨b.timeslot, b.validatorPool, post⟩

/-- What a block, given with the slot before it, is to a validator in an epoch.  It counts in its own
epoch, and its assurances in the epoch of the slot before. -/
def credit [DecidableEq Key] (cfg : Config) (epoch v : ℕ)
    (x : ℕ × StatisticsBlock Hash Key Signature) : ActivityRecord :=
  let authored := epochNumber cfg x.2.timeslot = epoch ∧ x.2.authorIndex = v
  { blocks := if authored then 1 else 0
    tickets := if authored then x.2.ticketCount else 0
    preImages := if authored then x.2.preimages.length else 0
    preImagesSize := if authored then (x.2.preimages.map (fun p => p.2.length)).sum else 0
    guarantees := if epochNumber cfg x.2.timeslot = epoch then
      x.2.reporters.countP (fun key => retrieveValidatorIndex key x.2.validatorPool = some v) else 0
    assurances := if epochNumber cfg x.1 = epoch ∧ v ∈ x.2.assurances.map Assurance.validatorIndex
      then 1 else 0 }

section Credit

variable [DecidableEq Key] {cfg : Config} {b : StatisticsBlock Hash Key Signature}

lemma ActivityRecord.nsmul_def (n : ℕ) (r : ActivityRecord) : n • r = ⟨n * r.blocks, n * r.tickets,
    n * r.preImages, n * r.preImagesSize, n * r.guarantees, n * r.assurances⟩ := by
  induction n with
  | zero => simp only [zero_nsmul, zero_def, Nat.zero_mul]
  | succ n ih => simp only [succ_nsmul, ih, add_def, Nat.succ_mul]

omit [DecidableEq Key] in
lemma shareOf_assuranceBookings (v : ℕ) : shareOf b.assuranceBookings v =
    ⟨0, 0, 0, 0, 0, if v ∈ b.assurances.map Assurance.validatorIndex then 1 else 0⟩ := by
  rw [StatisticsBlock.assuranceBookings, shareOf_map_const, ActivityRecord.nsmul_def]
  simp only [Nat.mul_zero, Nat.mul_one]
  congr 1
  by_cases h : v ∈ b.assurances.map Assurance.validatorIndex
  · rw [if_pos h, List.count_eq_one_of_mem (nodup_sortedSet _) (mem_sortedSet.mpr h)]
  · rw [if_neg h, List.count_eq_zero_of_not_mem (fun hmem => h (mem_sortedSet.mp hmem))]

lemma shareOf_authorBookings (v : ℕ) : shareOf b.authorBookings v =
    ⟨if b.authorIndex = v then 1 else 0, if b.authorIndex = v then b.ticketCount else 0,
      if b.authorIndex = v then b.preimages.length else 0,
      if b.authorIndex = v then (b.preimages.map (fun p => p.2.length)).sum else 0,
      b.reporters.countP (fun key => retrieveValidatorIndex key b.validatorPool = some v), 0⟩ := by
  have hcount : (b.reporters.filterMap (retrieveValidatorIndex · b.validatorPool)).count v =
      b.reporters.countP (fun key => retrieveValidatorIndex key b.validatorPool = some v) := by
    rw [List.count_filterMap]
    refine List.countP_congr (fun key _ => ?_)
    rw [beq_iff_eq, decide_eq_true_eq]
  rw [StatisticsBlock.authorBookings, shareOf_cons, shareOf_map_const, hcount,
    ActivityRecord.nsmul_def]
  simp only [Nat.mul_zero, Nat.mul_one]
  by_cases h : b.authorIndex = v
  · simp only [if_pos h, ActivityRecord.add_def, Nat.add_zero, Nat.zero_add]
  · simp only [if_neg h, zero_add]

/-- A block is booked in its epoch and in the epoch before it. -/
lemma credit_eq (epoch v preSlot : ℕ) : credit cfg epoch v (preSlot, b) =
    (if epochNumber cfg preSlot = epoch then shareOf b.assuranceBookings v else 0) +
      if epochNumber cfg b.timeslot = epoch then shareOf b.authorBookings v else 0 := by
  rw [credit, shareOf_assuranceBookings, shareOf_authorBookings]
  by_cases hpre : epochNumber cfg preSlot = epoch
  · by_cases hpost : epochNumber cfg b.timeslot = epoch
    · simp only [hpre, hpost, true_and, if_true, ActivityRecord.add_def, Nat.add_zero,
        Nat.zero_add]
    · simp only [hpre, hpost, true_and, false_and, if_true, if_false, add_zero]
  · by_cases hpost : epochNumber cfg b.timeslot = epoch
    · simp only [hpre, hpost, true_and, false_and, if_true, if_false, zero_add]
    · simp only [hpre, hpost, false_and, if_false, zero_add]
      rfl

end Credit

section Runs

variable [DecidableEq Key] {cfg : Config} {coreCount : ℕ} {start s : ChainStatistics Key}
  {chain : List (ℕ × StatisticsBlock Hash Key Signature)}
  {b : StatisticsBlock Hash Key Signature} {post : StatisticsState}

/-- The records of an epoch for a number of validators. -/
def recordsOf (cfg : Config) (chain : List (ℕ × StatisticsBlock Hash Key Signature)) (epoch n : ℕ) :
    List ActivityRecord :=
  (List.range n).map (fun v => (chain.map (credit cfg epoch v)).sum)

/-- What the state counts. -/
structure Counts (cfg : Config) (coreCount : ℕ)
    (chain : List (ℕ × StatisticsBlock Hash Key Signature)) (s : ChainStatistics Key) : Prop where
  slots : ∀ x ∈ chain, x.1 < x.2.timeslot ∧ x.2.timeslot ≤ s.timeslot
  current : s.statistics.valsCurrent =
    recordsOf cfg chain (epochNumber cfg s.timeslot) s.validatorPool.length
  last : ∀ x ∈ chain, epochNumber cfg x.2.timeslot = epochNumber cfg s.timeslot →
    epochNumber cfg x.1 ≠ epochNumber cfg s.timeslot → s.statistics.valsLast =
      recordsOf cfg chain (epochNumber cfg x.1) s.statistics.valsLast.length
  cores : s.statistics.cores.length = coreCount

lemma length_recordsOf (epoch n : ℕ) : (recordsOf cfg chain epoch n).length = n := by
  rw [recordsOf, List.length_map, List.length_range]

/-- Bookings on a list of records, one for each index. -/
lemma book_range {f : ℕ → ActivityRecord} {n : ℕ} {bookings : List (ℕ × ActivityRecord)}
    {records : List ActivityRecord} (h : book ((List.range n).map f) bookings = .ok records) :
    records = (List.range n).map (fun v => f v + shareOf bookings v) := by
  obtain ⟨-, hbook⟩ := book_spec h
  refine List.ext_getElem? (fun v => ?_)
  rw [hbook, List.getElem?_map, List.getElem?_map, Option.map_map]
  by_cases hv : v < n
  · rw [List.getElem?_range hv]
    rfl
  · rw [List.getElem?_eq_none (by rw [List.length_range]; omega)]
    rfl

/-- The records with one more block. -/
lemma recordsOf_concat (epoch n : ℕ) (x : ℕ × StatisticsBlock Hash Key Signature) :
    recordsOf cfg (chain ++ [x]) epoch n =
      (List.range n).map (fun v => (chain.map (credit cfg epoch v)).sum + credit cfg epoch v x) := by
  refine List.map_congr_left (fun v _ => ?_)
  rw [List.map_append, List.sum_append, List.map_singleton, List.sum_singleton]

/-- Blocks of other epochs are no credit. -/
lemma sum_credit_eq_zero {epoch : ℕ} (v : ℕ)
    (h : ∀ x ∈ chain, epochNumber cfg x.1 ≠ epoch ∧ epochNumber cfg x.2.timeslot ≠ epoch) :
    (chain.map (credit cfg epoch v)).sum = 0 := by
  refine List.sum_eq_zero (fun r hr => ?_)
  obtain ⟨⟨preSlot, b⟩, hx, rfl⟩ := List.mem_map.mp hr
  obtain ⟨hpre, hpost⟩ := h _ hx
  rw [credit_eq, if_neg hpre, if_neg hpost, add_zero]

lemma epochNumber_le {slot slot' : ℕ} (h : slot ≤ slot') :
    epochNumber cfg slot ≤ epochNumber cfg slot' :=
  Nat.div_le_div_right h

/-- What the transition does, part by part. -/
lemma statisticsTransition_eq_ok {preSlot : ℕ} {s : StatisticsState}
    (h : statisticsTransition cfg coreCount b preSlot s = .ok post) :
    validatorRecords cfg b preSlot s = .ok (post.valsCurrent, post.valsLast) ∧
      (List.range coreCount).foldlM (fun cores core => updateRecord cores core
        (CoreActivityRecord.update core b.incoming b.available b.assurances)) s.cores =
          .ok post.cores ∧
      post.services = (∅ : Dict ℕ ServiceActivityRecord).assign
        (b.affected.map (fun s => (s, b.serviceRecord s))) := by
  rw [statisticsTransition] at h
  obtain ⟨⟨current, last⟩, hrecords, h⟩ := Except.bind_eq_ok.mp h
  obtain ⟨cores, hcores, h⟩ := Except.bind_eq_ok.mp h
  cases h
  exact ⟨hrecords, hcores, rfl⟩

/-- The records of the cores are updated in their order. -/
lemma foldlM_updateRecord_spec {Record : Type} {update : ℕ → Record → Record} {n : ℕ}
    {records records' : List Record}
    (h : (List.range n).foldlM (fun records i => updateRecord records i (update i)) records =
      .ok records') :
    records'.length = records.length ∧
      ∀ v, records'[v]? = records[v]?.map (fun r => if v < n then update v r else r) := by
  induction n generalizing records' with
  | zero =>
    cases h
    refine ⟨rfl, fun v => ?_⟩
    simp only [Nat.not_lt_zero, if_false, Option.map_id']
  | succ n ih =>
    rw [List.range_succ, List.foldlM_append] at h
    obtain ⟨middle, hfront, h⟩ := Except.bind_eq_ok.mp h
    obtain ⟨last, hlast, h⟩ := Except.bind_eq_ok.mp h
    cases h
    obtain ⟨hlength, hfront⟩ := ih hfront
    obtain ⟨hlength', hlast⟩ := updateRecord_spec hlast
    refine ⟨hlength'.trans hlength, fun v => ?_⟩
    rw [hlast, hfront, Option.map_map]
    congr
    funext r
    simp only [Function.comp_apply]
    by_cases heq : n = v
    · rw [if_pos heq, if_neg (by omega), if_pos (by omega), heq]
    · rw [if_neg heq]
      by_cases hlt : v < n
      · rw [if_pos hlt, if_pos (by omega)]
      · rw [if_neg hlt, if_neg (by omega)]

lemma exists_foldlM_updateRecord {Record : Type} (update : ℕ → Record → Record) {n : ℕ}
    {records : List Record} (hlength : n ≤ records.length) :
    ∃ records', (List.range n).foldlM (fun records i => updateRecord records i (update i)) records =
      .ok records' := by
  induction n with
  | zero => exact ⟨records, rfl⟩
  | succ n ih =>
    obtain ⟨middle, hfront⟩ := ih (by omega)
    have hmiddle : n < middle.length := by
      rw [(foldlM_updateRecord_spec hfront).1]
      omega
    obtain ⟨last, hlast⟩ := exists_updateRecord hmiddle (update n)
    refine ⟨last, ?_⟩
    rw [List.range_succ, List.foldlM_append, hfront, Except.ok_bind, List.foldlM_cons, hlast]
    rfl

/-- A block in the epoch of the state adds to the current records. -/
lemma Counts.block_same (h : Counts cfg coreCount chain s) (haccepted : b.Accepted cfg s)
    (hepoch : isEpochChange cfg s.timeslot b.timeslot = false)
    (hpost : statisticsTransition cfg coreCount b s.timeslot s.statistics = .ok post) :
    Counts cfg coreCount (chain ++ [(s.timeslot, b)]) ⟨b.timeslot, b.validatorPool, post⟩ := by
  have hlt := haccepted.slot
  obtain ⟨hrecords, hcores, -⟩ := statisticsTransition_eq_ok hpost
  have hcores := (foldlM_updateRecord_spec hcores).1
  have hsame : epochNumber cfg s.timeslot = epochNumber cfg b.timeslot :=
    isEpochChange_eq_false.mp hepoch
  rw [validatorRecords_eq, hepoch] at hrecords
  obtain ⟨assured, hassured, hrecords⟩ := Except.bind_eq_ok.mp hrecords
  rw [if_neg Bool.false_ne_true] at hrecords
  obtain ⟨current, hcurrent, hrecords⟩ := Except.bind_eq_ok.mp hrecords
  rw [h.current] at hassured
  have hassured := book_range hassured
  rw [hassured] at hcurrent
  have hcurrent := book_range hcurrent
  obtain ⟨hfirst, hsecond⟩ := Prod.mk.inj (Except.ok.inj hrecords)
  refine ⟨?_, ?_, ?_, hcores.trans h.cores⟩
  · intro x hx
    rcases List.mem_append.mp hx with hx | hx
    · exact ⟨(h.slots x hx).1, (h.slots x hx).2.trans hlt.le⟩
    · cases List.mem_singleton.mp hx
      exact ⟨hlt, le_refl _⟩
  · show post.valsCurrent = _
    rw [← hfirst, hcurrent, recordsOf_concat, haccepted.pool hepoch]
    refine List.map_congr_left (fun v _ => ?_)
    rw [credit_eq, hsame, if_pos rfl, if_pos rfl, add_assoc]
  · intro x hx hin hout
    show post.valsLast = _
    rcases List.mem_append.mp hx with hx | hx
    · have hlast := h.last x hx (hin.trans hsame.symm) (fun heq => hout (heq.trans hsame))
      rw [← hsecond, recordsOf_concat]
      -- the block is of another epoch than the last records
      refine hlast.trans (List.map_congr_left (fun v _ => ?_))
      rw [credit_eq, if_neg (fun heq => hout (heq.symm.trans hsame)),
        if_neg (fun heq => hout heq.symm), add_zero, add_zero]
    · cases List.mem_singleton.mp hx
      exact absurd hsame hout

/-- The first block of an epoch turns the records over. -/
lemma Counts.block_new (h : Counts cfg coreCount chain s) (haccepted : b.Accepted cfg s)
    (hepoch : isEpochChange cfg s.timeslot b.timeslot = true)
    (hpost : statisticsTransition cfg coreCount b s.timeslot s.statistics = .ok post) :
    Counts cfg coreCount (chain ++ [(s.timeslot, b)]) ⟨b.timeslot, b.validatorPool, post⟩ := by
  have hlt := haccepted.slot
  obtain ⟨hrecords, hcores, -⟩ := statisticsTransition_eq_ok hpost
  have hcores := (foldlM_updateRecord_spec hcores).1
  have hne : epochNumber cfg s.timeslot ≠ epochNumber cfg b.timeslot :=
    isEpochChange_eq_true.mp hepoch
  have hearlier : ∀ x ∈ chain, epochNumber cfg x.1 ≠ epochNumber cfg b.timeslot ∧
      epochNumber cfg x.2.timeslot ≠ epochNumber cfg b.timeslot := by
    intro x hx
    obtain ⟨hslot, hle⟩ := h.slots x hx
    have hbefore := @epochNumber_le cfg _ _ hle
    have hbefore' := @epochNumber_le cfg _ _ (hslot.le.trans hle)
    have hafter := @epochNumber_le cfg _ _ hlt.le
    omega
  rw [validatorRecords_eq, hepoch] at hrecords
  obtain ⟨assured, hassured, hrecords⟩ := Except.bind_eq_ok.mp hrecords
  rw [if_pos rfl] at hrecords
  obtain ⟨current, hcurrent, hrecords⟩ := Except.bind_eq_ok.mp hrecords
  rw [h.current] at hassured
  have hassured := book_range hassured
  have hzeros : b.validatorPool.map (fun _ => (0 : ActivityRecord)) =
      (List.range b.validatorPool.length).map (fun _ => 0) := by
    rw [List.map_const', List.map_const', List.length_range]
  rw [hzeros] at hcurrent
  have hcurrent := book_range hcurrent
  obtain ⟨hfirst, hsecond⟩ := Prod.mk.inj (Except.ok.inj hrecords)
  refine ⟨?_, ?_, ?_, hcores.trans h.cores⟩
  · intro x hx
    rcases List.mem_append.mp hx with hx | hx
    · exact ⟨(h.slots x hx).1, (h.slots x hx).2.trans hlt.le⟩
    · cases List.mem_singleton.mp hx
      exact ⟨hlt, le_refl _⟩
  · show post.valsCurrent = _
    rw [← hfirst, hcurrent, recordsOf_concat]
    refine List.map_congr_left (fun v _ => ?_)
    rw [credit_eq, if_neg hne, if_pos rfl, sum_credit_eq_zero v hearlier]
    simp only [zero_add]
  · intro x hx hin hout
    show post.valsLast = recordsOf _ _ _ post.valsLast.length
    rcases List.mem_append.mp hx with hx | hx
    · exact absurd hin (hearlier x hx).2
    · cases List.mem_singleton.mp hx
      have hlength : post.valsLast.length = s.validatorPool.length := by
        rw [← hsecond, hassured, List.length_map, List.length_range]
      rw [hlength, ← hsecond, hassured, recordsOf_concat]
      refine List.map_congr_left (fun v _ => ?_)
      rw [credit_eq, if_pos rfl, if_neg hne.symm, add_zero]

/-- The bookings of an accepted block find their records. -/
lemma Counts.exists_post (h : Counts cfg coreCount chain s) (haccepted : b.Accepted cfg s) :
    ∃ post, statisticsTransition cfg coreCount b s.timeslot s.statistics = .ok post := by
  have hassurers : ∀ x ∈ b.assuranceBookings, x.1 < s.statistics.valsCurrent.length := by
    intro x hx
    obtain ⟨v, hv, rfl⟩ := List.mem_map.mp hx
    obtain ⟨a, ha, rfl⟩ := List.mem_map.mp (mem_sortedSet.mp hv)
    rw [h.current, length_recordsOf]
    exact haccepted.assurers a ha
  obtain ⟨assured, hassured⟩ := exists_book hassurers
  have hlength := (book_spec hassured).1
  rw [h.current, length_recordsOf] at hlength
  have hauthor : ∀ records : List ActivityRecord, records.length = b.validatorPool.length →
      ∃ current, book records b.authorBookings = .ok current := by
    intro records hrecords
    refine exists_book (fun x hx => ?_)
    rw [hrecords]
    rcases List.mem_cons.mp hx with rfl | hx
    · exact haccepted.author
    · obtain ⟨v, hv, rfl⟩ := List.mem_map.mp hx
      obtain ⟨key, -, hkey⟩ := List.mem_filterMap.mp hv
      rw [retrieveValidatorIndex, List.findIdx?_eq_some_iff_getElem] at hkey
      exact hkey.1
  have hrecords : ∃ records, validatorRecords cfg b s.timeslot s.statistics = .ok records := by
    rw [validatorRecords_eq, hassured, Except.ok_bind]
    cases hepoch : isEpochChange cfg s.timeslot b.timeslot with
    | true =>
      obtain ⟨current, hcurrent⟩ := hauthor (b.validatorPool.map (fun _ => 0))
        (List.length_map _)
      rw [if_pos rfl, hcurrent]
      exact ⟨_, rfl⟩
    | false =>
      obtain ⟨current, hcurrent⟩ := hauthor assured (by rw [hlength, haccepted.pool hepoch])
      rw [if_neg Bool.false_ne_true, hcurrent]
      exact ⟨_, rfl⟩
  obtain ⟨⟨current, last⟩, hrecords⟩ := hrecords
  obtain ⟨cores, hcores⟩ := exists_foldlM_updateRecord
    (fun core => CoreActivityRecord.update core b.incoming b.available b.assurances) h.cores.ge
  refine ⟨⟨current, last, cores, (∅ : Dict ℕ ServiceActivityRecord).assign
    (b.affected.map (fun s => (s, b.serviceRecord s)))⟩, ?_⟩
  rw [statisticsTransition]
  refine Except.bind_eq_ok.mpr ⟨(current, last), hrecords, ?_⟩
  exact Except.bind_eq_ok.mpr ⟨cores, hcores, rfl⟩

/-- On every chain of accepted blocks the current records are those of the epoch of the last block,
the last records those of the epoch before it that had a state, and the next accepted block always
finds its records. -/
theorem statistics_of_chain (h : StatisticsRun cfg coreCount start chain s)
    (hcurrent : start.statistics.valsCurrent = List.replicate start.validatorPool.length 0)
    (hcores : start.statistics.cores.length = coreCount) :
    s.statistics.valsCurrent =
        recordsOf cfg chain (epochNumber cfg s.timeslot) s.validatorPool.length ∧
      (∀ x ∈ chain, epochNumber cfg x.2.timeslot = epochNumber cfg s.timeslot →
        epochNumber cfg x.1 ≠ epochNumber cfg s.timeslot → s.statistics.valsLast =
          recordsOf cfg chain (epochNumber cfg x.1) s.statistics.valsLast.length) ∧
      ∀ b : StatisticsBlock Hash Key Signature, b.Accepted cfg s →
        ∃ post, statisticsTransition cfg coreCount b s.timeslot s.statistics = .ok post := by
  have hcounts : Counts cfg coreCount chain s := by
    induction h with
    | start =>
      refine ⟨fun x hx => absurd hx List.not_mem_nil, ?_, fun x hx => absurd hx List.not_mem_nil,
        hcores⟩
      show _ = (List.range start.validatorPool.length).map (fun _ => (0 : ActivityRecord))
      rw [hcurrent, List.map_const', List.length_range]
    | @block chain s b post hrun haccepted hpost ih =>
      cases hepoch : isEpochChange cfg s.timeslot b.timeslot with
      | false => exact ih.block_same haccepted hepoch hpost
      | true => exact ih.block_new haccepted hepoch hpost
  exact ⟨hcounts.current, hcounts.last, fun b haccepted => hcounts.exists_post haccepted⟩

end Runs

/-! ## The balance of a block -/

section Balance

variable {b : StatisticsBlock Hash Key Signature}

/-- The loads of reports, on their cores. -/
def coreLoads (reports : List WorkReport) : List (ℤ × RefineLoad) :=
  reports.flatMap (fun w => w.results.map (fun d => (w.coreIndex, d.refineLoad)))

/-- The sizes of the bundles of reports, on their cores. -/
def coreBundles (reports : List WorkReport) : List (ℤ × ℕ) :=
  reports.map (fun w => (w.coreIndex, w.packageSpec.length))

/-- The loads of reports, for their services. -/
def serviceLoads (reports : List WorkReport) : List (ℕ × RefineLoad) :=
  (digests reports).map (fun d => (d.serviceId, d.refineLoad))

lemma foldl_load (results : List WorkDigest) (r : CoreActivityRecord) :
    results.foldl (fun r d => { r with toRefineLoad := r.toRefineLoad + d.refineLoad }) r =
      { r with toRefineLoad := r.toRefineLoad + (results.map (fun d => d.refineLoad)).sum } := by
  induction results generalizing r with
  | nil => rw [List.foldl_nil, List.map_nil, List.sum_nil, add_zero]
  | cons d results ih => rw [List.foldl_cons, ih, List.map_cons, List.sum_cons, add_assoc]

/-- The load and the bundles of a core. -/
lemma updateFromIncomingWorkReports_eq (core : ℕ) (incoming : List WorkReport)
    (r : CoreActivityRecord) : r.updateFromIncomingWorkReports core incoming =
      { r with
        toRefineLoad := r.toRefineLoad + shareOf (coreLoads incoming) core
        bundleSize := r.bundleSize + shareOf (coreBundles incoming) core } := by
  induction incoming generalizing r with
  | nil =>
    rw [coreLoads, List.flatMap_nil, shareOf_nil, add_zero]
    rfl
  | cons w incoming ih =>
    have hloads : coreLoads (w :: incoming) =
        w.results.map (fun d => (w.coreIndex, d.refineLoad)) ++ coreLoads incoming := rfl
    have hshare : shareOf (w.results.map (fun d => (w.coreIndex, d.refineLoad))) (core : ℤ) =
        if w.coreIndex = (core : ℤ) then (w.results.map (fun d => d.refineLoad)).sum else 0 := by
      induction w.results with
      | nil => rw [List.map_nil, shareOf_nil, List.map_nil, List.sum_nil, ite_self]
      | cons d results ih =>
        rw [List.map_cons, shareOf_cons, ih, List.map_cons, List.sum_cons]
        split
        · rfl
        · exact zero_add 0
    have hfold : r.updateFromIncomingWorkReports core (w :: incoming) =
        CoreActivityRecord.updateFromIncomingWorkReports core incoming
          (if w.coreIndex = (core : ℤ) then
            w.results.foldl (fun r d => { r with toRefineLoad := r.toRefineLoad + d.refineLoad })
              { r with bundleSize := r.bundleSize + w.packageSpec.length }
          else r) := rfl
    have hbundles : coreBundles (w :: incoming) =
        (w.coreIndex, w.packageSpec.length) :: coreBundles incoming := rfl
    rw [hfold, ih, hloads, shareOf_append, hshare, hbundles, shareOf_cons]
    by_cases hcore : w.coreIndex = (core : ℤ)
    · simp only [if_pos hcore, foldl_load, add_assoc]
    · simp only [if_neg hcore, zero_add]

/-- The record of a core after a block, as far as it balances. -/
lemma update_core (core : ℕ) (r : CoreActivityRecord) :
    (r.update core b.incoming b.available b.assurances).toRefineLoad =
        shareOf (coreLoads b.incoming) core ∧
      (r.update core b.incoming b.available b.assurances).bundleSize =
        shareOf (coreBundles b.incoming) core := by
  have hempty : b.incoming.isEmpty = true → shareOf (coreLoads b.incoming) (core : ℤ) = 0 ∧
      shareOf (coreBundles b.incoming) (core : ℤ) = 0 := by
    intro h
    rw [List.isEmpty_iff.mp h]
    exact ⟨rfl, rfl⟩
  rw [CoreActivityRecord.update]
  simp only [updateFromIncomingWorkReports_eq, CoreActivityRecord.updateFromAvailableWorkReports]
  by_cases hincoming : b.incoming.isEmpty
  · obtain ⟨hload, hsize⟩ := hempty hincoming
    rw [hload, hsize]
    simp only [hincoming, if_true]
    split <;> exact ⟨rfl, rfl⟩
  · simp only [hincoming, Bool.false_eq_true, if_false, Nat.zero_add]
    split <;> exact ⟨zero_add _, rfl⟩

lemma provide_eq (s : ℕ) (preimages : List (ℕ × Octets)) (r : ServiceActivityRecord) :
    r.provide s preimages = { r with
      providedCount := r.providedCount + (preimages.map Prod.fst).count s
      providedSize := r.providedSize + shareOf (preimages.map (fun p => (p.1, p.2.length))) s } := by
  induction preimages generalizing r with
  | nil => rfl
  | cons p preimages ih =>
    have hfold : r.provide s (p :: preimages) = ServiceActivityRecord.provide s preimages
        (if p.1 = s then
          { r with
            providedCount := r.providedCount + 1
            providedSize := r.providedSize + p.2.length }
        else r) := rfl
    rw [hfold, ih, List.map_cons, List.count_cons, List.map_cons, shareOf_cons]
    by_cases h : p.1 = s
    · simp only [if_pos h, beq_iff_eq, Nat.add_assoc, Nat.add_comm 1]
    · simp only [if_neg h, beq_iff_eq, Nat.zero_add, Nat.add_zero]

lemma refine_eq (s : ℕ) (incoming : List WorkReport) (r : ServiceActivityRecord) :
    r.refine s incoming = { r with
      refinementCount := r.refinementCount + (digestServices incoming).count s
      toRefineLoad := r.toRefineLoad + shareOf (serviceLoads incoming) s } := by
  rw [ServiceActivityRecord.refine, digestServices, serviceLoads, ← List.foldl_flatMap]
  show (digests incoming).foldl _ r = _
  induction digests incoming generalizing r with
  | nil =>
    rw [List.foldl_nil, List.map_nil, List.map_nil, shareOf_nil, add_zero]
    rfl
  | cons d rest ih =>
    rw [List.foldl_cons, ih, List.map_cons, List.map_cons, List.count_cons, shareOf_cons]
    by_cases h : d.serviceId = s
    · simp only [if_pos h, beq_iff_eq, add_assoc, Nat.add_comm 1]
    · simp only [if_neg h, beq_iff_eq, zero_add, Nat.add_zero]

/-- The numbers per service count. -/
lemma perService_get? (services : List ℕ) (s : ℕ) :
    ((perService services).get? s).getD 0 = services.count s := by
  have hfold : ∀ counts : Dict ℕ ℕ, ((services.foldl (fun counts s =>
      counts.insert s ((counts.get? s).getD 0 + 1)) counts).get? s).getD 0 =
        (counts.get? s).getD 0 + services.count s := by
    induction services with
    | nil => exact fun _ => rfl
    | cons t services ih =>
      intro counts
      rw [List.foldl_cons, ih, Dict.get?_insert, List.count_cons]
      by_cases h : s = t
      · rw [if_pos h, Option.getD_some, if_pos (beq_iff_eq.mpr h.symm), h]
        omega
      · rw [if_neg h, if_neg (fun heq => h (beq_iff_eq.mp heq).symm)]
        rfl
  rw [perService, hfold, Dict.get?_empty, Option.getD_none, Nat.zero_add]

/-- A number that is not zero is under a key of the dictionary. -/
lemma mem_keys_of_getD_pos {counts : Dict ℕ ℕ} {s : ℕ} (h : 0 < (counts.get? s).getD 0) :
    s ∈ counts.keys := by
  rw [← Dict.contains_iff, Dict.contains]
  cases hget : counts.get? s with
  | none =>
    rw [hget] at h
    exact absurd h (lt_irrefl 0)
  | some n => rfl

/-- Conditional assignments in a loop over keys. -/
lemma get?_foldl_insert_if {V : Type} (p : ℕ → Prop) [DecidablePred p] (f : ℕ → V) (keys : List ℕ)
    (d : Dict ℕ V) (k : ℕ) :
    (keys.foldl (fun d s => if p s then d.insert s (f s) else d) d).get? k =
      if k ∈ keys ∧ p k then some (f k) else d.get? k := by
  induction keys generalizing d with
  | nil => rw [List.foldl_nil, if_neg (fun h => List.not_mem_nil h.1)]
  | cons s keys ih =>
    rw [List.foldl_cons, ih]
    by_cases hlater : k ∈ keys ∧ p k
    · rw [if_pos hlater, if_pos ⟨List.mem_cons_of_mem _ hlater.1, hlater.2⟩]
    · rw [if_neg hlater]
      by_cases heq : k = s
      · subst heq
        by_cases hp : p k
        · rw [if_pos hp, Dict.get?_insert_self, if_pos ⟨List.mem_cons_self, hp⟩]
        · rw [if_neg hp, if_neg (fun h => hp h.2)]
      · have hget : (if p s then d.insert s (f s) else d).get? k = d.get? k := by
          split
          · exact Dict.get?_insert_of_ne d heq (f s)
          · rfl
        rw [hget, if_neg]
        rintro ⟨hmem, hp⟩
        exact hlater ⟨(List.mem_cons.mp hmem).resolve_left heq, hp⟩

/-- The accumulation statistics of a service. -/
lemma accumulationStatistics_get? (s : ℕ) : b.accumulationStatistics.get? s =
    if 0 < (digestServices b.accumulated).count s + b.receivers.count s +
        (b.gasUtilized.get? s).getD 0 then
      some ⟨(b.gasUtilized.get? s).getD 0, (digestServices b.accumulated).count s,
        b.receivers.count s⟩
    else none := by
  rw [StatisticsBlock.accumulationStatistics]
  simp only [perService_get?]
  rw [get?_foldl_insert_if (fun s => 0 < (digestServices b.accumulated).count s +
      b.receivers.count s + (b.gasUtilized.get? s).getD 0), Dict.get?_empty]
  by_cases hpos : 0 < (digestServices b.accumulated).count s + b.receivers.count s +
      (b.gasUtilized.get? s).getD 0
  · rw [if_pos hpos, if_pos]
    refine ⟨?_, hpos⟩
    rw [mem_sortedSet, List.mem_append, List.mem_append]
    by_contra habsent
    rw [not_or, not_or] at habsent
    obtain ⟨⟨hgas, hdigests⟩, htransfers⟩ := habsent
    have hzero : ∀ {counts : Dict ℕ ℕ}, s ∉ counts.keys → (counts.get? s).getD 0 = 0 := by
      intro counts hnot
      by_contra hne
      exact hnot (mem_keys_of_getD_pos (Nat.pos_of_ne_zero hne))
    have hgas := hzero hgas
    have hdigests := hzero hdigests
    have htransfers := hzero htransfers
    rw [perService_get?] at hdigests htransfers
    omega
  · rw [if_neg hpos, if_neg (fun h => hpos h.2)]

/-- The record of a service. -/
lemma serviceRecord_eq (s : ℕ) : b.serviceRecord s =
    { toRefineLoad := shareOf (serviceLoads b.incoming) s
      providedCount := (b.preimages.map Prod.fst).count s
      providedSize := shareOf (b.preimages.map (fun p => (p.1, p.2.length))) s
      refinementCount := (digestServices b.incoming).count s
      accumulateCount := (digestServices b.accumulated).count s
      accumulateTransferCount := b.receivers.count s
      accumulateGasUsed := (b.gasUtilized.get? s).getD 0 } := by
  have hzero : (⟨0, 0, 0, 0, 0⟩ : RefineLoad) + shareOf (serviceLoads b.incoming) s =
      shareOf (serviceLoads b.incoming) s := zero_add _
  rw [StatisticsBlock.serviceRecord, provide_eq, refine_eq, accumulationStatistics_get?]
  simp only [Nat.zero_add, hzero]
  by_cases hpos : 0 < (digestServices b.accumulated).count s + b.receivers.count s +
      (b.gasUtilized.get? s).getD 0
  · rw [if_pos hpos]
    simp only [ServiceActivityRecord.accumulate, Nat.zero_add]
  · rw [if_neg hpos, ServiceActivityRecord.accumulate, show (digestServices b.accumulated).count s = 0
      by omega, show b.receivers.count s = 0 by omega,
      show (b.gasUtilized.get? s).getD 0 = 0 by omega]

/-- Every service that something is booked on is affected. -/
lemma mem_affected (s : ℕ) : s ∈ b.affected ↔ s ∈ digestServices b.incoming ∨
    s ∈ b.preimages.map Prod.fst ∨ 0 < (digestServices b.accumulated).count s +
      b.receivers.count s + (b.gasUtilized.get? s).getD 0 := by
  have hkeys : s ∈ b.accumulationStatistics.keys ↔ 0 < (digestServices b.accumulated).count s +
      b.receivers.count s + (b.gasUtilized.get? s).getD 0 := by
    rw [← Dict.contains_iff, Dict.contains, accumulationStatistics_get?]
    split
    · next hpos => exact iff_of_true rfl hpos
    · next hpos => exact iff_of_false Bool.false_ne_true hpos
  rw [StatisticsBlock.affected, mem_sortedSet, List.mem_append, List.mem_append, hkeys, or_assoc]

/-- The shares of the cores make up what reports bring whose cores are among them. -/
lemma sum_core_shares {M : Type} [AddCommMonoid M] {coreCount : ℕ} {entries : List (ℤ × M)}
    (h : ∀ e ∈ entries, 0 ≤ e.1 ∧ e.1 < coreCount) :
    ((List.range coreCount).map (fun core : ℕ => shareOf entries (core : ℤ))).sum =
      (entries.map Prod.snd).sum := by
  have hnodup : ((List.range coreCount).map (fun core : ℕ => (core : ℤ))).Nodup :=
    List.nodup_range.map Nat.cast_injective
  rw [← sum_shareOf hnodup, List.map_map]
  · rfl
  · intro e he _
    obtain ⟨hnonneg, hlt⟩ := h e he
    rw [List.mem_map]
    exact ⟨e.1.toNat, List.mem_range.mpr (by omega), by omega⟩

section Posterior

variable [DecidableEq Key] {cfg : Config} {coreCount preSlot : ℕ} {s post : StatisticsState}

/-- The records of the services after a block. -/
lemma services_values (h : statisticsTransition cfg coreCount b preSlot s = .ok post) :
    post.services.values = b.affected.map b.serviceRecord := by
  obtain ⟨-, -, hservices⟩ := statisticsTransition_eq_ok h
  have hnodup : (((∅ : Dict ℕ ServiceActivityRecord).entries ++
      b.affected.map (fun s => (s, b.serviceRecord s))).map Prod.fst).Nodup := by
    rw [Dict.entries_empty, List.nil_append, List.map_map]
    show (b.affected.map id).Nodup
    rw [List.map_id]
    exact nodup_sortedSet _
  rw [hservices, Dict.values, Dict.entries_assign hnodup, Dict.entries_empty, List.nil_append,
    List.map_map]
  rfl

/-- The records of the cores after a block. -/
lemma cores_after (h : statisticsTransition cfg coreCount b preSlot s = .ok post)
    (hcores : s.cores.length = coreCount) :
    post.cores.map (fun r => (r.toRefineLoad, r.bundleSize)) = (List.range coreCount).map
      (fun core : ℕ => (shareOf (coreLoads b.incoming) (core : ℤ),
        shareOf (coreBundles b.incoming) (core : ℤ))) := by
  obtain ⟨-, hupdate, -⟩ := statisticsTransition_eq_ok h
  obtain ⟨-, hupdate⟩ := foldlM_updateRecord_spec hupdate
  refine List.ext_getElem? (fun core => ?_)
  rw [List.getElem?_map, List.getElem?_map, hupdate, Option.map_map]
  by_cases hcore : core < coreCount
  · have hlength : core < s.cores.length := by omega
    rw [List.getElem?_eq_getElem hlength, List.getElem?_range hcore, Option.map_some, Option.map_some]
    simp only [Function.comp_apply, if_pos hcore, update_core]
  · rw [List.getElem?_eq_none (by omega), List.getElem?_eq_none (by rw [List.length_range]; omega)]
    rfl

/-- The books of a block balance: the loads of the digests are what the cores and what the services
are charged with, all bundles are on the cores, and the services have all digests, preimages,
accumulations, transfers and gas among them. -/
theorem statistics_balance (h : statisticsTransition cfg coreCount b preSlot s = .ok post)
    (hcores : s.cores.length = coreCount)
    (hreports : ∀ w ∈ b.incoming, 0 ≤ w.coreIndex ∧ w.coreIndex < coreCount) :
    (post.cores.map (fun r => r.toRefineLoad)).sum =
        ((digests b.incoming).map (fun d => d.refineLoad)).sum ∧
      (post.services.values.map (fun r => r.toRefineLoad)).sum =
        ((digests b.incoming).map (fun d => d.refineLoad)).sum ∧
      (post.cores.map (fun r => r.bundleSize)).sum =
        (b.incoming.map (fun w => w.packageSpec.length)).sum ∧
      (post.services.values.map (fun r => r.refinementCount)).sum = (digests b.incoming).length ∧
      (post.services.values.map (fun r => r.providedCount)).sum = b.preimages.length ∧
      (post.services.values.map (fun r => r.providedSize)).sum =
        (b.preimages.map (fun p => p.2.length)).sum ∧
      (post.services.values.map (fun r => r.accumulateCount)).sum = (digests b.accumulated).length ∧
      (post.services.values.map (fun r => r.accumulateTransferCount)).sum = b.receivers.length ∧
      (post.services.values.map (fun r => r.accumulateGasUsed)).sum = b.gasUtilized.values.sum := by
  have hafter := cores_after h hcores
  have hvalues : ∀ {M : Type} (f : ServiceActivityRecord → M),
      post.services.values.map f = b.affected.map (fun s => f (b.serviceRecord s)) := by
    intro M f
    rw [services_values h, List.map_map]
    rfl
  have hnodup : b.affected.Nodup := nodup_sortedSet _
  have hincoming : ∀ x ∈ digestServices b.incoming, x ∈ b.affected :=
    fun x hx => mem_affected x |>.mpr (.inl hx)
  have haccumulated : ∀ x ∈ digestServices b.accumulated, x ∈ b.affected := by
    intro x hx
    have hpos := List.count_pos_iff.mpr hx
    exact (mem_affected x).mpr (.inr (.inr (by omega)))
  have hreceivers : ∀ x ∈ b.receivers, x ∈ b.affected := by
    intro x hx
    have hpos := List.count_pos_iff.mpr hx
    exact (mem_affected x).mpr (.inr (.inr (by omega)))
  refine ⟨?_, ?_, ?_, ?_, ?_, ?_, ?_, ?_, ?_⟩
  · have hloads := congrArg (List.map Prod.fst) hafter
    rw [List.map_map, List.map_map] at hloads
    refine (congrArg List.sum hloads).trans ((sum_core_shares ?_).trans ?_)
    · intro e he
      obtain ⟨w, hw, he⟩ := List.mem_flatMap.mp he
      obtain ⟨d, -, rfl⟩ := List.mem_map.mp he
      exact hreports w hw
    · rw [coreLoads, digests, List.map_flatMap, List.map_flatMap]
      simp only [List.map_map]
      rfl
  · simp only [hvalues, serviceRecord_eq]
    rw [sum_shareOf hnodup, serviceLoads, List.map_map]
    · rfl
    · intro e he _
      obtain ⟨d, hd, rfl⟩ := List.mem_map.mp he
      exact hincoming _ (List.mem_map_of_mem hd)
  · have hbundles := congrArg (List.map Prod.snd) hafter
    rw [List.map_map, List.map_map] at hbundles
    refine (congrArg List.sum hbundles).trans ((sum_core_shares ?_).trans ?_)
    · intro e he
      obtain ⟨w, hw, rfl⟩ := List.mem_map.mp he
      exact hreports w hw
    · rw [coreBundles, List.map_map]
      rfl
  · simp only [hvalues, serviceRecord_eq]
    rw [sum_count hnodup hincoming, digestServices, List.length_map]
  · simp only [hvalues, serviceRecord_eq]
    rw [sum_count hnodup (fun x hx => (mem_affected x).mpr (.inr (.inl hx))), List.length_map]
  · simp only [hvalues, serviceRecord_eq]
    rw [sum_shareOf hnodup, List.map_map]
    · rfl
    · intro e he _
      obtain ⟨p, hp, rfl⟩ := List.mem_map.mp he
      exact (mem_affected _).mpr (.inr (.inl (List.mem_map_of_mem hp)))
  · simp only [hvalues, serviceRecord_eq]
    rw [sum_count hnodup haccumulated, digestServices, List.length_map]
  · simp only [hvalues, serviceRecord_eq]
    exact sum_count hnodup hreceivers
  · simp only [hvalues, serviceRecord_eq, ← Dict.sumAt_entries]
    refine (sum_shareOf hnodup (fun e he hne => ?_)).trans rfl
    have hget := Dict.mem_entries_iff.mp he
    refine (mem_affected _).mpr (.inr (.inr ?_))
    rw [hget, Option.getD_some]
    omega

end Posterior

end Balance

/-! ## A sample chain -/

/-- The first state of an epoch. -/
def zeroStatistics : ChainStatistics ℕ where
  timeslot := 10
  validatorPool := [20, 21, 22]
  statistics :=
    { valsCurrent := List.replicate 3 0
      valsLast := List.replicate 3 0
      cores := List.replicate 2 ⟨0, 0, 0, 0⟩
      services := ∅ }

/-- A report on the second core, with digests of two services. -/
def countedReport : WorkReport where
  packageSpec := ⟨Merkle.zeros, 9, [], 3, [], 0⟩
  context := ⟨Merkle.zeros, 0, Merkle.zeros, Merkle.zeros, Merkle.zeros, 0, Merkle.zeros, []⟩
  coreIndex := 1
  authorizerHash := Merkle.zeros
  authGasUsed := 0
  authOutput := []
  segmentRootLookup := ∅
  results := [⟨5, Merkle.zeros, Merkle.zeros, 0, .outOfGas, ⟨4, 1, 0, 0, 2⟩⟩,
    ⟨8, Merkle.zeros, Merkle.zeros, 0, .ok [1], ⟨6, 0, 1, 3, 0⟩⟩]

/-- A block with something of everything. -/
def countedBlock (timeslot authorIndex : ℕ) (validatorPool : List ℕ) :
    StatisticsBlock ℕ ℕ Unit where
  timeslot := timeslot
  authorIndex := authorIndex
  ticketCount := 3
  preimages := [(7, [1, 2]), (5, [3])]
  assurances := [⟨0, [true, true], 0, ()⟩, ⟨0, [false, true], 2, ()⟩]
  incoming := [countedReport]
  available := [countedReport]
  reporters := [20, 22, 99]
  validatorPool := validatorPool
  gasUtilized := ((∅ : Dict ℕ ℕ).insert 5 100).insert 8 40
  accumulated := [countedReport]
  receivers := [8, 6, 8]

/-- The last block of an epoch. -/
def closingCount : StatisticsBlock ℕ ℕ Unit := countedBlock 11 2 [20, 21, 22]

/-- The first block of the next one, with a larger pool. -/
def openingCount : StatisticsBlock ℕ ℕ Unit := countedBlock 12 3 [20, 22, 23, 24]

/-- The two blocks, each with the slot before it. -/
def countedChain : List (ℕ × StatisticsBlock ℕ ℕ Unit) := [(10, closingCount), (11, openingCount)]

/-- What each validator did in the one epoch and in the other.  The assurances of the second block are
those of the pool before it. -/
theorem statistics_of_chain_sample : ∃ s : ChainStatistics ℕ,
    StatisticsRun sampleShortConfig 2 zeroStatistics countedChain s ∧
      s.statistics.valsCurrent =
        [⟨0, 0, 0, 0, 1, 0⟩, ⟨0, 0, 0, 0, 1, 0⟩, ⟨0, 0, 0, 0, 0, 0⟩, ⟨1, 3, 2, 3, 0, 0⟩] ∧
      s.statistics.valsLast = [⟨0, 0, 0, 0, 1, 2⟩, ⟨0, 0, 0, 0, 0, 0⟩, ⟨1, 3, 2, 3, 1, 2⟩] := by
  have hassurers : ∀ a ∈ openingCount.assurances, a.validatorIndex < 3 := by decide
  have hstart : StatisticsRun sampleShortConfig 2 zeroStatistics
      ([] : List (ℕ × StatisticsBlock ℕ ℕ Unit)) zeroStatistics := .start
  have hclosing : closingCount.Accepted sampleShortConfig zeroStatistics :=
    ⟨by decide, by decide, hassurers, fun _ => rfl⟩
  obtain ⟨post, hpost⟩ : ∃ post, statisticsTransition sampleShortConfig 2 closingCount 10
    zeroStatistics.statistics = .ok post := (statistics_of_chain hstart rfl rfl).2.2 _ hclosing
  have hrun := hstart.block hclosing hpost
  have hslot : 11 < openingCount.timeslot := by decide
  have hnew : isEpochChange sampleShortConfig 11 openingCount.timeslot ≠ false := by decide
  have hopening : openingCount.Accepted sampleShortConfig ⟨11, [20, 21, 22], post⟩ :=
    ⟨hslot, by decide, hassurers, fun hsame => absurd hsame hnew⟩
  obtain ⟨post', hpost'⟩ : ∃ post', statisticsTransition sampleShortConfig 2 openingCount 11 post =
    .ok post' := (statistics_of_chain hrun rfl rfl).2.2 _ hopening
  have hrun' : StatisticsRun sampleShortConfig 2 zeroStatistics countedChain
    ⟨12, [20, 22, 23, 24], post'⟩ := hrun.block hopening hpost'
  obtain ⟨hcurrent, hlast, -⟩ := statistics_of_chain hrun' rfl rfl
  have hlength : (do
      let post ← statisticsTransition sampleShortConfig 2 closingCount 10 zeroStatistics.statistics
      let post' ← statisticsTransition sampleShortConfig 2 openingCount 11 post
      return post'.valsLast.length) = .ok 3 := by decide +kernel
  rw [hpost, Except.ok_bind, hpost', Except.ok_bind] at hlength
  have hcounted : recordsOf sampleShortConfig countedChain (epochNumber sampleShortConfig 12) 4 =
      [⟨0, 0, 0, 0, 1, 0⟩, ⟨0, 0, 0, 0, 1, 0⟩, ⟨0, 0, 0, 0, 0, 0⟩, ⟨1, 3, 2, 3, 0, 0⟩] := by
    decide +kernel
  have hbefore : recordsOf sampleShortConfig countedChain (epochNumber sampleShortConfig 11) 3 =
      [⟨0, 0, 0, 0, 1, 2⟩, ⟨0, 0, 0, 0, 0, 0⟩, ⟨1, 3, 2, 3, 1, 2⟩] := by decide +kernel
  refine ⟨_, hrun', hcurrent.trans hcounted, ?_⟩
  have hbetween : epochNumber sampleShortConfig 11 ≠ epochNumber sampleShortConfig 12 := by decide
  have hlast := hlast (11, openingCount) (List.mem_cons_of_mem _ List.mem_cons_self) rfl hbetween
  rw [show post'.valsLast.length = 3 from Except.ok.inj hlength] at hlast
  exact hlast.trans hbefore

/-- The books of one of these blocks. -/
theorem statistics_balance_sample : ∃ post,
    statisticsTransition sampleShortConfig 2 closingCount 10 zeroStatistics.statistics = .ok post ∧
      (post.cores.map (fun r => r.toRefineLoad)).sum = ⟨10, 1, 1, 3, 2⟩ ∧
      (post.services.values.map (fun r => r.toRefineLoad)).sum = ⟨10, 1, 1, 3, 2⟩ ∧
      (post.cores.map (fun r => r.bundleSize)).sum = 9 ∧
      (post.services.values.map (fun r => r.refinementCount)).sum = 2 ∧
      (post.services.values.map (fun r => r.providedCount)).sum = 2 ∧
      (post.services.values.map (fun r => r.providedSize)).sum = 3 ∧
      (post.services.values.map (fun r => r.accumulateCount)).sum = 2 ∧
      (post.services.values.map (fun r => r.accumulateTransferCount)).sum = 3 ∧
      (post.services.values.map (fun r => r.accumulateGasUsed)).sum = 140 := by
  have hcounts : Counts sampleShortConfig 2 ([] : List (ℕ × StatisticsBlock ℕ ℕ Unit)) zeroStatistics :=
    ⟨fun x hx => absurd hx List.not_mem_nil, rfl, fun x hx => absurd hx List.not_mem_nil, rfl⟩
  have hclosing : closingCount.Accepted sampleShortConfig zeroStatistics :=
    ⟨by decide, by decide, by decide, fun _ => rfl⟩
  obtain ⟨post, hpost⟩ := hcounts.exists_post hclosing
  exact ⟨post, hpost, statistics_balance hpost rfl (by decide)⟩

end Chain
