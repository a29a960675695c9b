import Pyjamaz.Safrole.Transition

/-!
# The ticket accumulator

Over a run of accepted blocks the accumulator stays sorted, is not longer than an epoch, and holds
the tickets with the smallest ids.  That no id occurs twice rests on three checks: an envelope must
not be submitted twice, a ticket must not have the id of one in the accumulator, and the tickets of a
block must be in order.  The order test lets equal ids pass (`ticketsInOrder` compares with `≤`), so
two different envelopes that verify to one id get through all three.  `DistinctIds` says that this
does not happen in a block, and under it the accumulator is strictly increasing.
-/

namespace Safrole

variable {cfg : Config} {P : Primitives}

/-! ## The tickets of a block -/

/-- The ring that the tickets of a block are verified against. -/
def BlockInput.ring (cfg : Config) (b : BlockInput) (preSlot : ℕ) (pre : SafroleState) :
    List Octets32 :=
  (ticketValidators b (isEpochChange cfg preSlot b.timeslot) pre).map ValidatorData.bandersnatch

/-- The id that an envelope verifies to. -/
def BlockInput.ticketId (cfg : Config) (P : Primitives) (b : BlockInput) (preSlot : ℕ)
    (pre : SafroleState) (t : TicketEnvelope) : Option ℕ :=
  P.ringVrfVerify (b.ring cfg preSlot pre) (t.generateVrfInput b.entropy2) t.signature

/-- The tickets submitted in a block. -/
def BlockInput.submitted (cfg : Config) (P : Primitives) (b : BlockInput) (preSlot : ℕ)
    (pre : SafroleState) : List TicketBody :=
  b.extrinsicTickets.filterMap (fun t => (b.ticketId cfg P preSlot pre t).map (⟨·, t.attempt⟩))

/-- Different envelopes of a block verify to different ids. -/
def BlockInput.DistinctIds (cfg : Config) (P : Primitives) (b : BlockInput) (preSlot : ℕ)
    (pre : SafroleState) : Prop :=
  ∀ t ∈ b.extrinsicTickets, ∀ t' ∈ b.extrinsicTickets, ∀ id,
    b.ticketId cfg P preSlot pre t = some id → b.ticketId cfg P preSlot pre t' = some id → t = t'

/-- Strictly increasing ids. -/
def Increasing (accumulator : List TicketBody) : Prop :=
  (accumulator.map TicketBody.id).Pairwise (· < ·)

lemma createTicketBody_eq_ok {validatorCount : ℕ} {ring : List Octets32} {entropy : Octets32}
    {t : TicketEnvelope} {ticket : TicketBody}
    (h : createTicketBody cfg P validatorCount ring entropy t = .ok ticket) :
    (P.ringVrfVerify ring (t.generateVrfInput entropy) t.signature).map (⟨·, t.attempt⟩) =
      some ticket := by
  rw [createTicketBody, Except.bind_eq_ok] at h
  obtain ⟨entries, -, h⟩ := h
  split at h
  · cases h
  · split at h
    · cases h
    · next id hid =>
      cases h
      rw [hid]
      rfl

/-- The loop over the extrinsic returns what the envelopes verify to; none of it has an id of the
accumulator. -/
lemma inputTickets_eq_ok {validatorCount : ℕ} {ring : List Octets32} {entropy : Octets32}
    {accumulator : List TicketBody} {ts : List TicketEnvelope} :
    ∀ {tickets}, inputTickets cfg P validatorCount ring entropy accumulator ts = .ok tickets →
      tickets.length = ts.length ∧
      tickets = ts.filterMap (fun t =>
        (P.ringVrfVerify ring (t.generateVrfInput entropy) t.signature).map (⟨·, t.attempt⟩)) ∧
      ∀ ticket ∈ tickets, ∀ existing ∈ accumulator, existing.id ≠ ticket.id := by
  induction ts with
  | nil =>
    intro tickets h
    cases h
    exact ⟨rfl, rfl, nofun⟩
  | cons t ts ih =>
    intro tickets h
    rw [inputTickets, Except.bind_eq_ok] at h
    obtain ⟨ticket, hticket, h⟩ := h
    split at h
    · cases h
    next hfresh =>
    rw [Except.bind_eq_ok] at h
    obtain ⟨rest, hrest, h⟩ := h
    cases h
    obtain ⟨hlength, heq, hids⟩ := ih hrest
    refine ⟨by rw [List.length_cons, hlength, List.length_cons], ?_, ?_⟩
    · rw [List.filterMap_cons, createTicketBody_eq_ok hticket, ← heq]
    · intro ticket' hticket' existing hexisting
      rcases List.mem_cons.mp hticket' with rfl | hticket'
      · simpa using fun heq => hfresh (List.any_eq_true.mpr ⟨existing, hexisting, by simpa using heq⟩)
      · exact hids ticket' hticket' existing hexisting

/-- What an accepted extrinsic gives. -/
lemma acceptTickets_eq_ok {b : BlockInput} {epochChange : Bool} {state : SafroleState}
    {tickets : List TicketBody} (h : acceptTickets cfg P b epochChange state = .ok tickets) :
    b.extrinsicTickets.Nodup ∧ tickets.length = b.extrinsicTickets.length ∧
      tickets = b.extrinsicTickets.filterMap (fun t =>
        (P.ringVrfVerify ((ticketValidators b epochChange state).map ValidatorData.bandersnatch)
          (t.generateVrfInput b.entropy2) t.signature).map (⟨·, t.attempt⟩)) ∧
      ∀ ticket ∈ tickets, ∀ existing ∈ state.ticketAccumulator, existing.id ≠ ticket.id := by
  unfold acceptTickets at h
  split at h
  · cases h
  split at h
  · cases h
  split at h
  · next hempty =>
    cases h
    rw [List.length_eq_zero_iff] at hempty
    rw [hempty]
    exact ⟨List.nodup_nil, rfl, rfl, nofun⟩
  split at h
  · cases h
  next hduplicates =>
  rw [Except.bind_eq_ok] at h
  obtain ⟨ring, hring, h⟩ := h
  rw [Except.bind_eq_ok] at h
  obtain ⟨tickets', htickets, h⟩ := h
  have hring' : ring = (ticketValidators b epochChange state).map ValidatorData.bandersnatch := by
    rw [jamRingContext] at hring
    split at hring
    · cases hring
      rfl
    · cases hring
  split at h
  · cases h
  · cases h
    subst hring'
    obtain ⟨hlength, heq, hids⟩ := inputTickets_eq_ok htickets
    refine ⟨?_, hlength, heq, hids⟩
    rw [List.nodup_iff_count_le_one]
    intro t
    by_cases ht : t ∈ b.extrinsicTickets
    · by_contra hcount
      exact hduplicates (List.any_eq_true.mpr ⟨t, ht, by simpa using hcount⟩)
    · rw [List.count_eq_zero_of_not_mem ht]
      exact Nat.zero_le 1

lemma enterEpoch_eq_ok {b : BlockInput} {preSlot : ℕ} {pre state : SafroleState} {mark : EpochMark}
    (h : enterEpoch cfg P b preSlot pre = .ok (state, mark)) :
    state.ticketAccumulator = pre.ticketAccumulator := by
  rw [enterEpoch, Except.bind_eq_ok] at h
  obtain ⟨series, -, h⟩ := h
  rw [Except.bind_eq_ok] at h
  obtain ⟨ring, -, h⟩ := h
  cases h
  rfl

lemma updateAccumulator_eq_ok {epochChange : Bool} {tickets accumulator post : List TicketBody}
    (h : updateAccumulator cfg epochChange tickets accumulator = .ok post) :
    post = sortedTickets cfg (if epochChange then tickets else tickets ++ accumulator) ∧
      ∀ ticket ∈ tickets, ticket ∈ post := by
  simp only [updateAccumulator] at h
  generalize sortedTickets cfg (if epochChange then tickets else tickets ++ accumulator) = new at h ⊢
  split at h
  · cases h
  next hall =>
  cases h
  refine ⟨rfl, fun ticket hticket => ?_⟩
  by_contra hno
  exact hall (List.any_eq_true.mpr ⟨ticket, hticket, by simpa using hno⟩)

/-- What an accepted block does to the accumulator. -/
lemma stateTransition_eq_ok {b : BlockInput} {preSlot : ℕ} {pre : SafroleState}
    {out : SafroleOutput} (h : stateTransition cfg P b preSlot pre = .ok out) :
    preSlot < b.timeslot ∧ b.extrinsicTickets.Nodup ∧
      (b.submitted cfg P preSlot pre).length = b.extrinsicTickets.length ∧
      (∀ ticket ∈ b.submitted cfg P preSlot pre, ∀ existing ∈ pre.ticketAccumulator,
        existing.id ≠ ticket.id) ∧
      (∀ ticket ∈ b.submitted cfg P preSlot pre, ticket ∈ out.postState.ticketAccumulator) ∧
      out.postState.ticketAccumulator = sortedTickets cfg
        (if isEpochChange cfg preSlot b.timeslot then b.submitted cfg P preSlot pre
          else b.submitted cfg P preSlot pre ++ pre.ticketAccumulator) := by
  unfold stateTransition at h
  split at h
  · cases h
  next hslot =>
  rw [Except.bind_eq_ok] at h
  obtain ⟨⟨state, mark⟩, hstate, h⟩ := h
  rw [Except.bind_eq_ok] at h
  obtain ⟨tickets, htickets, h⟩ := h
  rw [Except.bind_eq_ok] at h
  obtain ⟨post, hpost, h⟩ := h
  cases h
  -- the accumulator, and the validators that matter, are those of before
  have hkept : state.ticketAccumulator = pre.ticketAccumulator ∧
      ticketValidators b (isEpochChange cfg preSlot b.timeslot) state =
        ticketValidators b (isEpochChange cfg preSlot b.timeslot) pre := by
    rw [updateEpoch] at hstate
    cases hepoch : isEpochChange cfg preSlot b.timeslot with
    | true =>
      rw [hepoch, if_pos rfl] at hstate
      cases henter : enterEpoch cfg P b preSlot pre with
      | error e =>
        rw [henter] at hstate
        cases hstate
      | ok entered =>
        rw [henter] at hstate
        cases hstate
        exact ⟨enterEpoch_eq_ok henter, rfl⟩
    | false =>
      rw [hepoch] at hstate
      cases hstate
      exact ⟨rfl, rfl⟩
  obtain ⟨hnodup, hlength, heq, hids⟩ := acceptTickets_eq_ok htickets
  obtain ⟨hsorted, hall⟩ := updateAccumulator_eq_ok hpost
  rw [hkept.1] at hids
  have hsubmitted : b.submitted cfg P preSlot pre = tickets := by
    rw [heq, hkept.2]
    rfl
  rw [hsubmitted]
  exact ⟨not_le.mp hslot, hnodup, hlength, hids, hall, hsorted⟩

/-! ## One block -/

lemma sortedTickets_spec (cfg : Config) (tickets : List TicketBody) :
    ∃ dropped, (sortedTickets cfg tickets ++ dropped).Perm tickets ∧
      (∀ ticket ∈ sortedTickets cfg tickets, ∀ d ∈ dropped, ticket.id ≤ d.id) ∧
      (sortedTickets cfg tickets).length = min cfg.epochTimeslots tickets.length ∧
      (sortedTickets cfg tickets).Pairwise (fun a b => a.id ≤ b.id) := by
  have hpairwise : (tickets.insertionSort (fun a b => a.id ≤ b.id)).Pairwise
      (fun a b => a.id ≤ b.id) := by
    have : Std.Total (fun a b : TicketBody => a.id ≤ b.id) := ⟨fun a b => le_total a.id b.id⟩
    have : IsTrans TicketBody (fun a b => a.id ≤ b.id) := ⟨fun _ _ _ h h' => h.trans h'⟩
    exact List.pairwise_insertionSort _ tickets
  refine ⟨(tickets.insertionSort (fun a b => a.id ≤ b.id)).drop cfg.epochTimeslots, ?_, ?_, ?_, ?_⟩
  · rw [sortedTickets, List.take_append_drop]
    exact List.perm_insertionSort _ tickets
  · rw [← List.take_append_drop cfg.epochTimeslots (tickets.insertionSort _),
      List.pairwise_append] at hpairwise
    exact hpairwise.2.2
  · rw [sortedTickets, List.length_take, List.length_insertionSort]
  · exact hpairwise.sublist (List.take_sublist _ _)

/-- Sorting tickets of different ids gives increasing ids. -/
lemma increasing_sortedTickets {tickets : List TicketBody}
    (hnodup : (tickets.map TicketBody.id).Nodup) : Increasing (sortedTickets cfg tickets) := by
  obtain ⟨dropped, hperm, -, -, hpairwise⟩ := sortedTickets_spec cfg tickets
  have hnodup' : ((sortedTickets cfg tickets).map TicketBody.id).Nodup := by
    have h := (hperm.map TicketBody.id).nodup_iff.mpr hnodup
    rw [List.map_append] at h
    exact (List.nodup_append.mp h).1
  rw [Increasing, List.pairwise_map]
  rw [List.Nodup, List.pairwise_map] at hnodup'
  exact hpairwise.imp₂ (fun _ _ hle hne => lt_of_le_of_ne hle hne) hnodup'

/-- Under `DistinctIds` no two tickets of a block have one id. -/
lemma BlockInput.DistinctIds.nodup {b : BlockInput} {preSlot : ℕ} {pre : SafroleState}
    (h : b.DistinctIds cfg P preSlot pre) (hnodup : b.extrinsicTickets.Nodup) :
    ((b.submitted cfg P preSlot pre).map TicketBody.id).Nodup := by
  have hids : (b.submitted cfg P preSlot pre).map TicketBody.id =
      b.extrinsicTickets.filterMap (b.ticketId cfg P preSlot pre) := by
    rw [submitted, List.map_filterMap]
    congr 1
    funext t
    cases b.ticketId cfg P preSlot pre t <;> rfl
  rw [hids, List.Nodup, List.pairwise_filterMap]
  refine hnodup.imp_of_mem ?_
  intro t t' ht ht' hne id hid id' hid' heq
  subst heq
  exact hne (h t ht t' ht' id hid hid')

/-- A ticket that the program accepts keeps the accumulator increasing. -/
lemma increasing_of_stateTransition {b : BlockInput} {preSlot : ℕ} {pre : SafroleState}
    {out : SafroleOutput} (h : stateTransition cfg P b preSlot pre = .ok out)
    (hdistinct : b.DistinctIds cfg P preSlot pre) (hpre : Increasing pre.ticketAccumulator) :
    Increasing out.postState.ticketAccumulator := by
  obtain ⟨-, hnodup, -, hfresh, -, heq⟩ := stateTransition_eq_ok h
  rw [heq]
  apply increasing_sortedTickets
  have hsubmitted := hdistinct.nodup hnodup
  split
  · exact hsubmitted
  · rw [List.map_append, List.nodup_append]
    refine ⟨hsubmitted, hpre.imp (fun hlt => hlt.ne), ?_⟩
    intro id hid id' hid' heq
    subst heq
    obtain ⟨ticket, hticket, rfl⟩ := List.mem_map.mp hid
    obtain ⟨existing, hexisting, hsame⟩ := List.mem_map.mp hid'
    exact hfresh ticket hticket existing hexisting hsame

/-! ## Runs -/

/-- The states that accepted blocks lead to, each block with different ids for different
envelopes. -/
inductive Accepted (cfg : Config) (P : Primitives) (slot₀ : ℕ) (start : SafroleState) :
    ℕ → SafroleState → Prop
  | start : Accepted cfg P slot₀ start slot₀ start
  | block {slot : ℕ} {pre : SafroleState} (hrun : Accepted cfg P slot₀ start slot pre)
      (b : BlockInput) (out : SafroleOutput) (hdistinct : b.DistinctIds cfg P slot pre)
      (hstep : stateTransition cfg P b slot pre = .ok out) :
      Accepted cfg P slot₀ start b.timeslot out.postState

/-- Over every run of accepted blocks in which different envelopes of a block verify to different
ids: the accumulator is strictly increasing and at most an epoch long; and an accepted block leaves
in it every ticket it submitted, which within an epoch are the tickets with the smallest ids of all. -/
theorem accumulator_increasing {slot₀ : ℕ} {start : SafroleState}
    (hstart : Increasing start.ticketAccumulator)
    (hlength : start.ticketAccumulator.length ≤ cfg.epochTimeslots) {slot : ℕ} {pre : SafroleState}
    (hrun : Accepted cfg P slot₀ start slot pre) :
    Increasing pre.ticketAccumulator ∧ pre.ticketAccumulator.length ≤ cfg.epochTimeslots ∧
      ∀ b out, stateTransition cfg P b slot pre = .ok out →
        (b.submitted cfg P slot pre).length = b.extrinsicTickets.length ∧
        (∀ ticket ∈ b.submitted cfg P slot pre, ticket ∈ out.postState.ticketAccumulator) ∧
        (isEpochChange cfg slot b.timeslot = false →
          ∃ dropped, (out.postState.ticketAccumulator ++ dropped).Perm
              (b.submitted cfg P slot pre ++ pre.ticketAccumulator) ∧
            (∀ ticket ∈ out.postState.ticketAccumulator, ∀ d ∈ dropped, ticket.id ≤ d.id) ∧
            out.postState.ticketAccumulator.length = min cfg.epochTimeslots
              ((b.submitted cfg P slot pre).length + pre.ticketAccumulator.length)) := by
  refine ⟨?_, ?_, ?_⟩
  · induction hrun with
    | start => exact hstart
    | block hrun b out hdistinct hstep ih => exact increasing_of_stateTransition hstep hdistinct ih
  · cases hrun with
    | start => exact hlength
    | block hrun b out hdistinct hstep =>
      obtain ⟨-, -, -, -, -, heq⟩ := stateTransition_eq_ok hstep
      rw [heq, sortedTickets, List.length_take]
      exact min_le_left _ _
  · intro b out hstep
    obtain ⟨-, -, hcount, -, hkept, heq⟩ := stateTransition_eq_ok hstep
    refine ⟨hcount, hkept, fun hepoch => ?_⟩
    rw [hepoch, if_neg (by simp)] at heq
    obtain ⟨dropped, hperm, hle, hmin, -⟩ :=
      sortedTickets_spec cfg (b.submitted cfg P slot pre ++ pre.ticketAccumulator)
    rw [List.length_append] at hmin
    rw [heq]
    exact ⟨dropped, hperm, hle, hmin⟩

/-! ## Sample blocks -/

/-- Twelve slots an epoch, and six validators. -/
def sampleConfig : Config := ⟨12, 10, 3, 2, false⟩

def sampleState : SafroleState := ⟨List.replicate 6 .null, [], .keys [], []⟩

/-- A block with two proofs for one attempt. -/
def sampleBlock : BlockInput where
  timeslot := 1
  extrinsicTickets := [⟨0, [1]⟩, ⟨0, [2]⟩]
  validatorQueue := []
  validatorPool := []
  offenders := []
  entropy1 := Vector.replicate 32 0
  entropy2 := Vector.replicate 32 0

/-- A verifier by the first byte of the signature; `ids` gives the ids. -/
def samplePrimitives (ids : ℕ → ℕ) : Primitives where
  commitment _ := []
  ringVrfVerify _ _ signature := some (ids (signature.headD 0).toNat)
  blake2b256Hash _ := Vector.replicate 32 0

/-- Two envelopes that verify to one id are accepted, and the id is in the accumulator twice. -/
theorem sampleBlock_repeats_id :
    ∃ out, stateTransition sampleConfig (samplePrimitives (fun _ => 5)) sampleBlock 0 sampleState =
        .ok out ∧
      out.postState.ticketAccumulator = [⟨5, 0⟩, ⟨5, 0⟩] ∧
      ¬ Increasing out.postState.ticketAccumulator := by
  refine ⟨_, rfl, rfl, ?_⟩
  intro h
  have hlt := (List.pairwise_cons.mp h).1 5 (List.mem_singleton.mpr rfl)
  exact absurd hlt (by decide)

/-- With different ids both tickets are in the accumulator, in order. -/
theorem sampleBlock_increasing :
    ∃ out, stateTransition sampleConfig (samplePrimitives id) sampleBlock 0 sampleState = .ok out ∧
      Increasing out.postState.ticketAccumulator := by
  refine ⟨_, rfl, ?_⟩
  have hdistinct : sampleBlock.DistinctIds sampleConfig (samplePrimitives id) 0 sampleState := by
    intro t ht t' ht' n hn hn'
    simp only [sampleBlock, List.mem_cons, List.not_mem_nil, or_false] at ht ht'
    rcases ht with rfl | rfl
    · rcases ht' with rfl | rfl
      · rfl
      · cases hn.trans hn'.symm
    · rcases ht' with rfl | rfl
      · cases hn.trans hn'.symm
      · rfl
  have hstart : Increasing sampleState.ticketAccumulator := List.Pairwise.nil
  exact (accumulator_increasing hstart (Nat.zero_le _)
    (.block .start sampleBlock _ hdistinct rfl)).1

end Safrole
