import Pyjamaz.Safrole.TicketAccumulator

/-!
# The tickets mark and the sealing series

The tickets mark of an epoch and the ticket sealing series of the next one are computed in different
blocks: the mark in the block that crosses the end of the submission, from the accumulator before it,
and the series in the first block of the next epoch, by the phase of the block before that one.
Both reorder the accumulator outside-in.

They agree because behind the end of the submission no ticket is accepted, so that the accumulator
stays as it was at the crossing.  An epoch whose first block is already behind the end clears the
accumulator and never fills it.  `Crossed` is the invariant that says so, and `series_agrees_with_mark`
the result for every run of accepted blocks.

Reordering drops the middle of a list of odd length, so an epoch is taken to have an even number of
slots; the three chains have 600, 12 and 60.
-/

namespace Safrole

variable {cfg : Config} {P : Primitives}

/-! ## Reordering -/

lemma zip_flatMap_perm {α : Type} (front : List α) : ∀ back : List α, front.length = back.length →
    ((front.zip back).flatMap (fun (a, b) => [a, b])).Perm (front ++ back) := by
  induction front with
  | nil =>
    intro back h
    rw [List.length_nil, eq_comm, List.length_eq_zero_iff] at h
    rw [h]
    exact .refl _
  | cons a front ih =>
    intro back h
    cases back with
    | nil => exact absurd h (by simp)
    | cons b back =>
      rw [List.length_cons, List.length_cons, Nat.succ_inj] at h
      rw [List.zip_cons_cons, List.flatMap_cons, List.cons_append]
      exact ((ih back h).cons b |>.trans List.perm_middle.symm).cons a

/-- Reordering a list of even length permutes it. -/
lemma reorderListOutsideIn_perm {α : Type} {items : List α} (h : items.length % 2 = 0) :
    (reorderListOutsideIn items).Perm items := by
  have hlength : (items.take (items.length / 2)).length =
      (items.drop (items.length / 2)).reverse.length := by
    rw [List.length_take, List.length_reverse, List.length_drop]
    omega
  refine (zip_flatMap_perm _ _ hlength).trans ?_
  refine ((List.reverse_perm _).append_left _).trans ?_
  rw [List.take_append_drop]

/-! ## One block -/

/-- What an accepted block says about the mark and the series. -/
lemma stateTransition_mark {b : BlockInput} {preSlot : ℕ} {pre : SafroleState}
    {out : SafroleOutput} (h : stateTransition cfg P b preSlot pre = .ok out) :
    out.ticketsMark = makeTicketsMark cfg b preSlot pre ∧
      (isEpochChange cfg preSlot b.timeslot = true →
        newSlotSealerSeries cfg P b preSlot pre = .ok out.postState.slotSealerSeries) := by
  unfold stateTransition at h
  split at h
  · cases h
  rw [Except.bind_eq_ok] at h
  obtain ⟨⟨state, mark⟩, hstate, h⟩ := h
  rw [Except.bind_eq_ok] at h
  obtain ⟨tickets, -, h⟩ := h
  rw [Except.bind_eq_ok] at h
  obtain ⟨post, -, h⟩ := h
  cases h
  refine ⟨rfl, fun hepoch => ?_⟩
  rw [updateEpoch, if_pos hepoch, enterEpoch] at hstate
  obtain ⟨⟨entered, epochMark⟩, henter, hstate⟩ := Except.map_eq_ok.mp hstate
  cases hstate
  rw [Except.bind_eq_ok] at henter
  obtain ⟨series, hseries, henter⟩ := henter
  rw [Except.bind_eq_ok] at henter
  obtain ⟨ring, -, henter⟩ := henter
  cases henter
  exact hseries

/-- Behind the end of the submission a block brings no tickets. -/
lemma submitted_eq_nil {b : BlockInput} {preSlot : ℕ} {pre : SafroleState} {out : SafroleOutput}
    (h : stateTransition cfg P b preSlot pre = .ok out)
    (hphase : cfg.ticketSubmissionEndSlot ≤ slotPhaseIndex cfg b.timeslot) :
    b.submitted cfg P preSlot pre = [] := by
  have hnone : b.extrinsicTickets = [] := by
    unfold stateTransition at h
    split at h
    · cases h
    rw [Except.bind_eq_ok] at h
    obtain ⟨state, -, h⟩ := h
    rw [Except.bind_eq_ok] at h
    obtain ⟨tickets, htickets, -⟩ := h
    unfold acceptTickets at htickets
    split at htickets
    · cases htickets
    split at htickets
    · cases htickets
    next hmany =>
    rw [← List.length_eq_zero_iff]
    by_contra hlength
    exact hmany ⟨by omega, by omega⟩
  rw [BlockInput.submitted, hnone]
  rfl

lemma isEpochChange_eq_true {preSlot postSlot : ℕ} :
    isEpochChange cfg preSlot postSlot = true ↔
      epochNumber cfg preSlot ≠ epochNumber cfg postSlot := by
  simp [isEpochChange, epochNumber]

lemma isEpochChange_eq_false {preSlot postSlot : ℕ} :
    isEpochChange cfg preSlot postSlot = false ↔
      epochNumber cfg preSlot = epochNumber cfg postSlot := by
  simp [isEpochChange, epochNumber]

lemma epochNumber_lt {preSlot postSlot : ℕ} (hlt : preSlot < postSlot)
    (hepoch : epochNumber cfg preSlot ≠ epochNumber cfg postSlot) :
    epochNumber cfg preSlot < epochNumber cfg postSlot :=
  lt_of_le_of_ne (Nat.div_le_div_right hlt.le) hepoch

/-- Within an epoch the phase grows with the slot. -/
lemma slotPhaseIndex_lt {preSlot postSlot : ℕ} (hlt : preSlot < postSlot)
    (hepoch : epochNumber cfg preSlot = epochNumber cfg postSlot) :
    slotPhaseIndex cfg preSlot < slotPhaseIndex cfg postSlot := by
  have hpre := Nat.div_add_mod preSlot cfg.epochTimeslots
  have hpost := Nat.div_add_mod postSlot cfg.epochTimeslots
  rw [epochNumber, epochNumber] at hepoch
  rw [slotPhaseIndex, slotPhaseIndex]
  rw [hepoch] at hpre
  omega

/-! ## Runs -/

/-- An accepted block in its place. -/
structure Step where
  preSlot : ℕ
  preState : SafroleState
  input : BlockInput
  output : SafroleOutput

/-- The accepted blocks from a state on, in order, and where they lead. -/
inductive Steps (cfg : Config) (P : Primitives) (slot₀ : ℕ) (start : SafroleState) :
    List Step → ℕ → SafroleState → Prop
  | start : Steps cfg P slot₀ start [] slot₀ start
  | block {steps : List Step} {slot : ℕ} {pre : SafroleState}
      (hrun : Steps cfg P slot₀ start steps slot pre) (b : BlockInput) (out : SafroleOutput)
      (hstep : stateTransition cfg P b slot pre = .ok out) :
      Steps cfg P slot₀ start (steps ++ [⟨slot, pre, b, out⟩]) b.timeslot out.postState

/-- The tickets marks emitted by blocks of an epoch. -/
def marksIn (cfg : Config) (epoch : ℕ) (steps : List Step) : List (List TicketBody) :=
  steps.filterMap
    (fun s => if epochNumber cfg s.input.timeslot = epoch then s.output.ticketsMark else none)

/-- Sorted tickets. -/
def Sorted (accumulator : List TicketBody) : Prop := accumulator.Pairwise (fun a b => a.id ≤ b.id)

/-- A state from which runs are followed: the accumulator is sorted and not too long, and full only
before the end of the submission.  The accumulator of the genesis state is empty. -/
structure Fresh (cfg : Config) (slot : ℕ) (state : SafroleState) : Prop where
  sorted : Sorted state.ticketAccumulator
  length_le : state.ticketAccumulator.length ≤ cfg.epochTimeslots
  open_of_full : state.ticketAccumulator.length = cfg.epochTimeslots →
    slotPhaseIndex cfg slot < cfg.ticketSubmissionEndSlot

/-- The genesis state, and any other without tickets. -/
lemma Fresh.of_empty (hpos : 0 < cfg.epochTimeslots) (slot : ℕ) {state : SafroleState}
    (h : state.ticketAccumulator = []) : Fresh cfg slot state where
  sorted := by
    rw [h]
    exact List.Pairwise.nil
  length_le := by
    rw [h]
    exact Nat.zero_le _
  open_of_full := by
    intro hfull
    rw [h, List.length_nil] at hfull
    omega

/-- After some blocks: no mark is emitted in the epoch before the end of the submission, and behind it
the mark of the accumulator where that is full. -/
structure Crossed (cfg : Config) (steps : List Step) (slot : ℕ) (state : SafroleState) : Prop where
  sorted : Sorted state.ticketAccumulator
  length_le : state.ticketAccumulator.length ≤ cfg.epochTimeslots
  past : ∀ s ∈ steps, s.input.timeslot ≤ slot
  before : slotPhaseIndex cfg slot < cfg.ticketSubmissionEndSlot →
    marksIn cfg (epochNumber cfg slot) steps = []
  behind : cfg.ticketSubmissionEndSlot ≤ slotPhaseIndex cfg slot →
    marksIn cfg (epochNumber cfg slot) steps =
      if state.ticketAccumulator.length = cfg.epochTimeslots then
        [reorderListOutsideIn state.ticketAccumulator] else []

lemma sortedTickets_of_sorted {tickets : List TicketBody} (hsorted : Sorted tickets)
    (hlength : tickets.length ≤ cfg.epochTimeslots) : sortedTickets cfg tickets = tickets := by
  rw [sortedTickets, List.Pairwise.insertionSort_eq hsorted, List.take_of_length_le hlength]

lemma marksIn_append (epoch : ℕ) (steps : List Step) (s : Step) :
    marksIn cfg epoch (steps ++ [s]) = marksIn cfg epoch steps ++
      if epochNumber cfg s.input.timeslot = epoch then s.output.ticketsMark.toList else [] := by
  rw [marksIn, List.filterMap_append, ← marksIn]
  congr 1
  rw [List.filterMap_cons, List.filterMap_nil]
  by_cases hepoch : epochNumber cfg s.input.timeslot = epoch
  · rw [if_pos hepoch, if_pos hepoch]
    cases s.output.ticketsMark <;> rfl
  · rw [if_neg hepoch, if_neg hepoch]

lemma Fresh.crossed {slot : ℕ} {state : SafroleState} (h : Fresh cfg slot state) :
    Crossed cfg [] slot state where
  sorted := h.sorted
  length_le := h.length_le
  past := nofun
  before := fun _ => rfl
  behind := by
    intro hphase
    rw [if_neg (fun hfull => absurd (h.open_of_full hfull) (not_lt.mpr hphase))]
    rfl

section Block

variable {steps : List Step} {slot : ℕ} {pre : SafroleState} {b : BlockInput} {out : SafroleOutput}

lemma makeTicketsMark_of_epochChange (h : epochNumber cfg slot ≠ epochNumber cfg b.timeslot) :
    makeTicketsMark cfg b slot pre = none := by
  rw [makeTicketsMark, isEpochChange_eq_true.mpr h]
  simp

lemma makeTicketsMark_of_before
    (h : slotPhaseIndex cfg b.timeslot < cfg.ticketSubmissionEndSlot) :
    makeTicketsMark cfg b slot pre = none := by
  rw [makeTicketsMark, if_neg (fun hall => absurd hall.2.2.1 (not_le.mpr h))]

lemma makeTicketsMark_of_behind
    (h : cfg.ticketSubmissionEndSlot ≤ slotPhaseIndex cfg slot) :
    makeTicketsMark cfg b slot pre = none := by
  rw [makeTicketsMark, if_neg (fun hall => absurd hall.2.1 (not_lt.mpr h))]

lemma makeTicketsMark_of_crossing (hepoch : epochNumber cfg slot = epochNumber cfg b.timeslot)
    (hbefore : slotPhaseIndex cfg slot < cfg.ticketSubmissionEndSlot)
    (hbehind : cfg.ticketSubmissionEndSlot ≤ slotPhaseIndex cfg b.timeslot) :
    makeTicketsMark cfg b slot pre = if pre.ticketAccumulator.length = cfg.epochTimeslots then
      some (reorderListOutsideIn pre.ticketAccumulator) else none := by
  rw [makeTicketsMark, isEpochChange_eq_false.mpr hepoch]
  simp [hbefore, hbehind]

/-- Behind the end of the submission a block in the epoch leaves the accumulator as it is, and the
first block of an epoch leaves none. -/
lemma accumulator_of_behind (h : stateTransition cfg P b slot pre = .ok out)
    (hcrossed : Crossed cfg steps slot pre)
    (hphase : cfg.ticketSubmissionEndSlot ≤ slotPhaseIndex cfg b.timeslot) :
    out.postState.ticketAccumulator =
      if isEpochChange cfg slot b.timeslot then [] else pre.ticketAccumulator := by
  obtain ⟨-, -, -, -, -, heq⟩ := stateTransition_eq_ok h
  rw [heq, submitted_eq_nil h hphase]
  split
  · exact sortedTickets_of_sorted List.Pairwise.nil (Nat.zero_le _)
  · exact sortedTickets_of_sorted hcrossed.sorted hcrossed.length_le

lemma marksIn_of_lt (hpast : ∀ s ∈ steps, s.input.timeslot ≤ slot) {epoch : ℕ}
    (hlt : epochNumber cfg slot < epoch) : marksIn cfg epoch steps = [] := by
  rw [marksIn, List.filterMap_eq_nil_iff]
  intro s hs
  have hle : epochNumber cfg s.input.timeslot ≤ epochNumber cfg slot :=
    Nat.div_le_div_right (hpast s hs)
  rw [if_neg (by omega)]

/-- A block keeps the invariant. -/
lemma Crossed.block (hpos : 0 < cfg.epochTimeslots) (hcrossed : Crossed cfg steps slot pre)
    (h : stateTransition cfg P b slot pre = .ok out) :
    Crossed cfg (steps ++ [⟨slot, pre, b, out⟩]) b.timeslot out.postState := by
  obtain ⟨hslot, -, -, -, -, heq⟩ := stateTransition_eq_ok h
  obtain ⟨hmark, -⟩ := stateTransition_mark h
  obtain ⟨dropped, -, -, hlength, hsorted⟩ := sortedTickets_spec cfg
    (if isEpochChange cfg slot b.timeslot then b.submitted cfg P slot pre
      else b.submitted cfg P slot pre ++ pre.ticketAccumulator)
  rw [← heq] at hlength hsorted
  have hmarks : marksIn cfg (epochNumber cfg b.timeslot) (steps ++ [⟨slot, pre, b, out⟩]) =
      marksIn cfg (epochNumber cfg b.timeslot) steps ++
        (makeTicketsMark cfg b slot pre).toList := by
    rw [marksIn_append, if_pos rfl, hmark]
  refine
    { sorted := hsorted
      length_le := by omega
      past := ?_
      before := fun hphase => ?_
      behind := fun hphase => ?_ }
  · intro s hs
    rcases List.mem_append.mp hs with hs | hs
    · exact (hcrossed.past s hs).trans hslot.le
    · rw [List.mem_singleton.mp hs]
  · -- no block of the epoch is behind the end
    rw [hmarks, makeTicketsMark_of_before hphase, Option.toList_none, List.append_nil]
    by_cases hepoch : epochNumber cfg slot = epochNumber cfg b.timeslot
    · rw [← hepoch]
      exact hcrossed.before ((slotPhaseIndex_lt hslot hepoch).trans hphase)
    · exact marksIn_of_lt hcrossed.past (epochNumber_lt hslot hepoch)
  · rw [hmarks, accumulator_of_behind h hcrossed hphase]
    by_cases hepoch : epochNumber cfg slot = epochNumber cfg b.timeslot
    · rw [isEpochChange_eq_false.mpr hepoch, if_neg Bool.false_ne_true, ← hepoch]
      by_cases hbefore : slotPhaseIndex cfg slot < cfg.ticketSubmissionEndSlot
      · -- the block crosses the end
        rw [hcrossed.before hbefore, makeTicketsMark_of_crossing hepoch hbefore hphase]
        split <;> rfl
      · rw [hcrossed.behind (not_lt.mp hbefore), makeTicketsMark_of_behind (not_lt.mp hbefore),
          Option.toList_none, List.append_nil]
    · -- the first block of the epoch is behind the end
      rw [isEpochChange_eq_true.mpr hepoch, if_pos rfl, makeTicketsMark_of_epochChange hepoch,
        marksIn_of_lt hcrossed.past (epochNumber_lt hslot hepoch), List.length_nil, if_neg hpos.ne]
      rfl

end Block

/-- The invariant holds after every run. -/
lemma Steps.crossed {slot₀ : ℕ} {start : SafroleState} (hpos : 0 < cfg.epochTimeslots)
    (hstart : Fresh cfg slot₀ start) {steps : List Step} {slot : ℕ} {pre : SafroleState}
    (hrun : Steps cfg P slot₀ start steps slot pre) : Crossed cfg steps slot pre := by
  induction hrun with
  | start => exact hstart.crossed
  | block _ b out hstep ih => exact ih.block hpos hstep

/-! ## The series of a new epoch -/

/-- The tickets are installed exactly when the epoch before has a mark and is the preceding one. -/
lemma enactFallbackMethod_eq_false {steps : List Step} {slot : ℕ} {pre : SafroleState}
    (hcrossed : Crossed cfg steps slot pre) {postSlot : ℕ} (hslot : slot < postSlot)
    (hepoch : epochNumber cfg slot ≠ epochNumber cfg postSlot) :
    enactFallbackMethod cfg pre.ticketAccumulator slot postSlot = false ↔
      marksIn cfg (epochNumber cfg slot) steps ≠ [] ∧
        epochNumber cfg postSlot = epochNumber cfg slot + 1 := by
  have hlt := epochNumber_lt hslot hepoch
  rw [enactFallbackMethod]
  simp only [Bool.or_eq_false_iff, decide_eq_false_iff_not, not_not, not_lt]
  by_cases hphase : slotPhaseIndex cfg slot < cfg.ticketSubmissionEndSlot
  · rw [hcrossed.before hphase]
    refine ⟨fun h => absurd hphase (not_lt.mpr h.1.2), fun h => absurd rfl h.1⟩
  · rw [hcrossed.behind (not_lt.mp hphase)]
    by_cases hfull : pre.ticketAccumulator.length = cfg.epochTimeslots
    · rw [if_pos hfull]
      constructor
      · intro h
        exact ⟨by simp, by omega⟩
      · intro h
        exact ⟨⟨hfull, not_lt.mp hphase⟩, by omega⟩
    · rw [if_neg hfull]
      exact ⟨fun h => absurd h.1.1 hfull, fun h => absurd rfl h.1⟩

/-- Over every run of accepted blocks, for the first block of an epoch.  Where it installs tickets,
exactly one mark was emitted in the preceding epoch, and it is the series: an outside-in permutation of
the full accumulator.  Where a mark was emitted in the epoch of the block before and the new epoch
follows directly, that mark is installed, and otherwise the fallback keys are. -/
theorem series_agrees_with_mark {slot₀ : ℕ} {start : SafroleState}
    (hpos : 0 < cfg.epochTimeslots) (heven : cfg.epochTimeslots % 2 = 0)
    (hstart : Fresh cfg slot₀ start) {steps : List Step} {slot : ℕ} {pre : SafroleState}
    (hrun : Steps cfg P slot₀ start steps slot pre) {b : BlockInput} {out : SafroleOutput}
    (hstep : stateTransition cfg P b slot pre = .ok out)
    (hepoch : isEpochChange cfg slot b.timeslot = true) :
    (∀ series, out.postState.slotSealerSeries = .tickets series →
      marksIn cfg (epochNumber cfg slot) steps = [series] ∧
        epochNumber cfg b.timeslot = epochNumber cfg slot + 1 ∧
        series = reorderListOutsideIn pre.ticketAccumulator ∧
        series.Perm pre.ticketAccumulator ∧ series.length = cfg.epochTimeslots) ∧
    (∀ mark ∈ marksIn cfg (epochNumber cfg slot) steps,
      epochNumber cfg b.timeslot = epochNumber cfg slot + 1 →
        out.postState.slotSealerSeries = .tickets mark) ∧
    (marksIn cfg (epochNumber cfg slot) steps = [] ∨
        epochNumber cfg b.timeslot ≠ epochNumber cfg slot + 1 →
      ∃ keys, fallbackKeys cfg P b = .ok keys ∧ out.postState.slotSealerSeries = .keys keys) := by
  have hcrossed := hrun.crossed hpos hstart
  obtain ⟨hslot, -⟩ := stateTransition_eq_ok hstep
  have hseries := (stateTransition_mark hstep).2 hepoch
  have hiff := enactFallbackMethod_eq_false hcrossed hslot (isEpochChange_eq_true.mp hepoch)
  rw [newSlotSealerSeries] at hseries
  cases hfallback : enactFallbackMethod cfg pre.ticketAccumulator slot b.timeslot with
  | true =>
    rw [hfallback, if_pos rfl] at hseries
    obtain ⟨keys, hkeys, hkeys'⟩ := Except.map_eq_ok.mp hseries
    rw [hfallback] at hiff
    refine ⟨fun series h => ?_, fun mark hmark hnext => ?_, fun _ => ⟨keys, hkeys, hkeys'.symm⟩⟩
    · rw [← hkeys'] at h
      cases h
    · exact absurd (hiff.mpr ⟨List.ne_nil_of_mem hmark, hnext⟩) (by simp)
  | false =>
    rw [hfallback, if_neg Bool.false_ne_true] at hseries
    obtain ⟨hmarks, hnext⟩ := hiff.mp hfallback
    have hphase : cfg.ticketSubmissionEndSlot ≤ slotPhaseIndex cfg slot := by
      by_contra hphase
      exact hmarks (hcrossed.before (not_le.mp hphase))
    have hfull : pre.ticketAccumulator.length = cfg.epochTimeslots := by
      by_contra hfull
      rw [hcrossed.behind hphase, if_neg hfull] at hmarks
      exact hmarks rfl
    have hmark := hcrossed.behind hphase
    rw [if_pos hfull] at hmark
    have hperm : (reorderListOutsideIn pre.ticketAccumulator).Perm pre.ticketAccumulator :=
      reorderListOutsideIn_perm (by rw [hfull, heven])
    have heq := Except.ok.inj hseries
    refine ⟨fun series h => ?_, fun mark hmem _ => ?_, fun h => ?_⟩
    · rw [← heq] at h
      cases h
      exact ⟨hmark, hnext, rfl, hperm, hperm.length_eq.trans hfull⟩
    · rw [hmark, List.mem_singleton] at hmem
      rw [← heq, hmem]
    · exact absurd hnext (h.resolve_left hmarks)

/-! ## A sample run -/

/-- Two slots an epoch, the second one behind the end of the submission. -/
def sampleShortConfig : Config := ⟨2, 1, 3, 2, false⟩

/-- A block with some proofs for one attempt. -/
def sampleShortBlock (timeslot : ℕ) (proofs : List UInt8) : BlockInput where
  timeslot := timeslot
  extrinsicTickets := proofs.map (fun p => ⟨0, [p]⟩)
  validatorQueue := List.replicate 6 .null
  validatorPool := List.replicate 6 .null
  offenders := []
  entropy1 := Vector.replicate 32 0
  entropy2 := Vector.replicate 32 0

/-- The state after the first block of an epoch. -/
def sampleShortState (series : SlotSealerSeries) (accumulator : List TicketBody) : SafroleState :=
  ⟨List.replicate 6 .null, [], series, accumulator⟩

/-- Two tickets fill the accumulator, the next block emits the mark, and the first block of the next
epoch installs it. -/
theorem sampleShortBlock_series :
    ∃ steps pre out, Steps sampleShortConfig (samplePrimitives id) 0 sampleState steps 3 pre ∧
      stateTransition sampleShortConfig (samplePrimitives id) (sampleShortBlock 4 []) 3 pre =
        .ok out ∧
      marksIn sampleShortConfig 1 steps = [[⟨5, 0⟩, ⟨7, 0⟩]] ∧
      out.postState.slotSealerSeries = .tickets [⟨5, 0⟩, ⟨7, 0⟩] := by
  have hfresh : Fresh sampleShortConfig 0 sampleState := .of_empty (by decide) 0 rfl
  have hstart : Steps sampleShortConfig (samplePrimitives id) 0 sampleState [] 0 sampleState := .start
  have hfilled := hstart.block (sampleShortBlock 2 [5, 7])
    ⟨sampleShortState (.keys (List.replicate 2 (Vector.replicate 32 0))) [⟨5, 0⟩, ⟨7, 0⟩], _, _⟩ rfl
  have hmarked := hfilled.block (sampleShortBlock 3 [])
    ⟨sampleShortState (.keys (List.replicate 2 (Vector.replicate 32 0))) [⟨5, 0⟩, ⟨7, 0⟩], _, _⟩ rfl
  have hstep : stateTransition sampleShortConfig (samplePrimitives id) (sampleShortBlock 4 []) 3
      (sampleShortState (.keys (List.replicate 2 (Vector.replicate 32 0))) [⟨5, 0⟩, ⟨7, 0⟩]) =
        .ok ⟨sampleShortState (.tickets [⟨5, 0⟩, ⟨7, 0⟩]) [], _, _⟩ := rfl
  exact ⟨_, _, _, hmarked, hstep, rfl, (series_agrees_with_mark (by decide) (by decide) hfresh hmarked
    hstep rfl).2.1 _ (.head _) rfl⟩

end Safrole
