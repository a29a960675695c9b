import Mathlib.Data.List.Sort
import Pyjamaz.Library.Octets
import Pyjamaz.Library.Result

/-!
# The Safrole transition

The transition of the Safrole state over one block: the markers, the validator keys and the
slot-sealer series of a new epoch, and the tickets that the block submits.

The ring-VRF library is a parameter: a commitment to a ring of keys, and a verifier that takes a
ring, the VRF input and a signature to a ticket id or fails.  A ticket id is 32 bytes; the program
compares ids as byte strings, which for one length is the order of the numbers they spell, and the
model keeps the number.  With the thread pool the tickets of a block are verified in any order; what
is accepted and what comes out is the same as for the loop that is modelled here.
-/

namespace Safrole

open Octets

/-! ## Data -/

/-- The constants of a chain. -/
structure Config where
  epochTimeslots : ℕ
  ticketSubmissionEndSlot : ℕ
  maximumExtrinsicTickets : ℕ
  coreCount : ℕ
  soloMode : Bool
  deriving DecidableEq, Repr

structure ValidatorData where
  bandersnatch : Octets32
  ed25519 : Octets32
  bls : Octets
  metadata : Octets
  deriving DecidableEq, Repr

structure TicketEnvelope where
  attempt : ℕ
  signature : Octets
  deriving DecidableEq, Repr

structure TicketBody where
  id : ℕ
  attempt : ℕ
  deriving DecidableEq, Repr

/-- `SlotSealerSeries` -/
inductive SlotSealerSeries where
  | tickets (tickets : List TicketBody)
  | keys (keys : List Octets32)
  deriving DecidableEq, Repr

structure SafroleState where
  validators : List ValidatorData
  ringCommitment : Octets
  slotSealerSeries : SlotSealerSeries
  ticketAccumulator : List TicketBody
  deriving DecidableEq, Repr

structure EpochMark where
  entropy : Octets32
  ticketsEntropy : Octets32
  validators : List (Octets32 × Octets32)
  deriving DecidableEq, Repr

structure SafroleOutput where
  postState : SafroleState
  epochMark : Option EpochMark
  ticketsMark : Option (List TicketBody)
  deriving DecidableEq, Repr

/-- `SafroleErrorCode`, and the exceptions for a ring or a validator set of a wrong size. -/
inductive SafroleError where
  | badSlot
  | unexpectedTicket
  | badTicketOrder
  | badTicketProof
  | badTicketAttempt
  | duplicateTicket
  | tooManyTickets
  | ticketNotRetained
  | valueError
  | zeroDivision
  deriving DecidableEq, Repr

/-- What comes from other packages: the ring-VRF and the hash. -/
structure Primitives where
  commitment : List Octets32 → Octets
  ringVrfVerify : List Octets32 → Octets → Octets → Option ℕ
  blake2b256Hash : Octets → Octets32

/-- What a block brings: its slot and tickets, and the parts of the state that the transition
reads. -/
structure BlockInput where
  timeslot : ℕ
  extrinsicTickets : List TicketEnvelope
  validatorQueue : List ValidatorData
  validatorPool : List ValidatorData
  offenders : List Octets32
  entropy1 : Octets32
  entropy2 : Octets32

/-! ## Helpers -/

def isEpochChange (cfg : Config) (preSlot postSlot : ℕ) : Bool :=
  preSlot / cfg.epochTimeslots ≠ postSlot / cfg.epochTimeslots

def slotPhaseIndex (cfg : Config) (slot : ℕ) : ℕ := slot % cfg.epochTimeslots

def epochNumber (cfg : Config) (slot : ℕ) : ℕ := slot / cfg.epochTimeslots

def validValidatorCount (cfg : Config) (count : ℕ) : Bool :=
  6 ≤ count && count ≤ 3 * cfg.coreCount && count % 3 = 0

def ticketEntries (cfg : Config) (validatorCount : ℕ) : Except SafroleError ℕ :=
  if !validValidatorCount cfg validatorCount then .error .valueError
  else .ok ((2 * cfg.epochTimeslots + validatorCount - 1) / validatorCount)

def reorderListOutsideIn {α : Type} (items : List α) : List α :=
  ((items.take (items.length / 2)).zip (items.drop (items.length / 2)).reverse).flatMap
    (fun (a, b) => [a, b])

def listHasDuplicates {α : Type} [DecidableEq α] (lst : List α) : Bool :=
  lst.any (fun item => 1 < lst.count item)

/-- `b"jam_ticket_seal"` -/
def jamTicketSeal : Octets := [106, 97, 109, 95, 116, 105, 99, 107, 101, 116, 95, 115, 101, 97, 108]

def TicketEnvelope.generateVrfInput (t : TicketEnvelope) (entropy : Octets32) : Octets :=
  jamTicketSeal ++ entropy.toList ++ littleEndian 1 t.attempt

/-- `jam_ring_context`: the ring of the supplied keys. -/
def jamRingContext (cfg : Config) (keys : List Octets32) : Except SafroleError (List Octets32) :=
  if validValidatorCount cfg keys.length then .ok keys else .error .valueError

/-- The keys that stand in for an offender. -/
def ValidatorData.null : ValidatorData :=
  ⟨Vector.replicate 32 0, Vector.replicate 32 0, List.replicate 144 0, List.replicate 128 0⟩

def checkOffenders (validators : List ValidatorData) (offenders : List Octets32) :
    List ValidatorData :=
  validators.map (fun v => if v.ed25519 ∈ offenders then .null else v)

def ticketsInOrder (tickets : List TicketBody) : Bool :=
  let ticketIds := tickets.map TicketBody.id
  (ticketIds.zip ticketIds.tail).all (fun (x, y) => x ≤ y)

def enactFallbackMethod (cfg : Config) (accumulator : List TicketBody) (preSlot postSlot : ℕ) :
    Bool :=
  accumulator.length ≠ cfg.epochTimeslots ||
    slotPhaseIndex cfg preSlot < cfg.ticketSubmissionEndSlot ||
    1 < epochNumber cfg postSlot - epochNumber cfg preSlot

/-! ## The transition -/

section Transition

variable (cfg : Config) (P : Primitives)

/-- The fallback keys of the slot-sealer series. -/
def fallbackKeys (b : BlockInput) : Except SafroleError (List Octets32) :=
  if cfg.epochTimeslots ≠ 0 ∧ b.validatorPool.length = 0 then .error .zeroDivision
  else .ok <| (List.range cfg.epochTimeslots).map (fun n =>
    let blakeHash := P.blake2b256Hash (b.entropy2.toList ++ littleEndian 4 n)
    let validatorIdx := ofLittleEndian (blakeHash.toList.take 4) % b.validatorPool.length
    let validatorIdx := if cfg.soloMode then 0 else validatorIdx
    (b.validatorPool.getD validatorIdx .null).bandersnatch)

/-- The slot-sealer series of a new epoch. -/
def newSlotSealerSeries (b : BlockInput) (preSlot : ℕ) (pre : SafroleState) :
    Except SafroleError SlotSealerSeries :=
  if enactFallbackMethod cfg pre.ticketAccumulator preSlot b.timeslot then
    (fallbackKeys cfg P b).map .keys
  else .ok (.tickets (reorderListOutsideIn pre.ticketAccumulator))

/-- The state and the marker of a new epoch. -/
def enterEpoch (b : BlockInput) (preSlot : ℕ) (pre : SafroleState) :
    Except SafroleError (SafroleState × EpochMark) := do
  let validators := checkOffenders b.validatorQueue b.offenders
  let epochMark : EpochMark :=
    ⟨b.entropy1, b.entropy2, validators.map (fun v => (v.bandersnatch, v.ed25519))⟩
  let slotSealerSeries ← newSlotSealerSeries cfg P b preSlot pre
  let ring ← jamRingContext cfg (validators.map ValidatorData.bandersnatch)
  return ({ pre with
    validators := validators
    slotSealerSeries := slotSealerSeries
    ringCommitment := P.commitment ring }, epochMark)

def createTicketBody (validatorCount : ℕ) (ring : List Octets32) (entropy : Octets32)
    (t : TicketEnvelope) : Except SafroleError TicketBody := do
  let entries ← ticketEntries cfg validatorCount
  if entries ≤ t.attempt then .error .badTicketAttempt
  else match P.ringVrfVerify ring (t.generateVrfInput entropy) t.signature with
    | none => .error .badTicketProof
    | some id => .ok ⟨id, t.attempt⟩

/-- The loop over the extrinsic: each ticket is verified and compared with the accumulator. -/
def inputTickets (validatorCount : ℕ) (ring : List Octets32) (entropy : Octets32)
    (accumulator : List TicketBody) : List TicketEnvelope → Except SafroleError (List TicketBody)
  | [] => .ok []
  | t :: rest => do
    let ticket ← createTicketBody cfg P validatorCount ring entropy t
    if accumulator.any (fun existing => existing.id = ticket.id) then .error .duplicateTicket
    else do
      let tickets ← inputTickets validatorCount ring entropy accumulator rest
      return ticket :: tickets

/-- The validators whose ring the tickets of a block are signed against. -/
def ticketValidators (b : BlockInput) (epochChange : Bool) (state : SafroleState) :
    List ValidatorData :=
  if epochChange then checkOffenders b.validatorQueue b.offenders else state.validators

/-- The tickets of the extrinsic, checked. -/
def acceptTickets (b : BlockInput) (epochChange : Bool) (state : SafroleState) :
    Except SafroleError (List TicketBody) :=
  if slotPhaseIndex cfg b.timeslot < cfg.ticketSubmissionEndSlot ∧
      cfg.maximumExtrinsicTickets < b.extrinsicTickets.length then .error .tooManyTickets
  else if ¬ slotPhaseIndex cfg b.timeslot < cfg.ticketSubmissionEndSlot ∧
      0 < b.extrinsicTickets.length then .error .unexpectedTicket
  else if b.extrinsicTickets.length = 0 then .ok []
  else if listHasDuplicates b.extrinsicTickets then .error .duplicateTicket
  else do
    let ring ← jamRingContext cfg
      ((ticketValidators b epochChange state).map ValidatorData.bandersnatch)
    let tickets ← inputTickets cfg P state.validators.length ring b.entropy2
      state.ticketAccumulator b.extrinsicTickets
    if !ticketsInOrder tickets then .error .badTicketOrder else return tickets

/-- `sorted(tickets, key=lambda t: t.id)[:EPOCH_TIMESLOTS]` -/
def sortedTickets (tickets : List TicketBody) : List TicketBody :=
  (tickets.insertionSort (fun a b => a.id ≤ b.id)).take cfg.epochTimeslots

/-- The posterior accumulator; it raises when a submitted ticket does not survive. -/
def updateAccumulator (epochChange : Bool) (tickets accumulator : List TicketBody) :
    Except SafroleError (List TicketBody) :=
  let accumulator := sortedTickets cfg (if epochChange then tickets else tickets ++ accumulator)
  if tickets.any (fun ticket => ticket ∉ accumulator) then .error .ticketNotRetained
  else .ok accumulator

/-- The tickets mark, where the accumulator is saturated at the end of the submission. -/
def makeTicketsMark (b : BlockInput) (preSlot : ℕ) (pre : SafroleState) :
    Option (List TicketBody) :=
  if !isEpochChange cfg preSlot b.timeslot ∧
      slotPhaseIndex cfg preSlot < cfg.ticketSubmissionEndSlot ∧
      cfg.ticketSubmissionEndSlot ≤ slotPhaseIndex cfg b.timeslot ∧
      pre.ticketAccumulator.length = cfg.epochTimeslots then
    some (reorderListOutsideIn pre.ticketAccumulator)
  else none

/-- The state that the tickets meet, with the marker where the epoch changes. -/
def updateEpoch (b : BlockInput) (preSlot : ℕ) (pre : SafroleState) :
    Except SafroleError (SafroleState × Option EpochMark) :=
  if isEpochChange cfg preSlot b.timeslot then
    (enterEpoch cfg P b preSlot pre).map (fun (state, mark) => (state, some mark))
  else .ok (pre, none)

def stateTransition (b : BlockInput) (preSlot : ℕ) (pre : SafroleState) :
    Except SafroleError SafroleOutput := do
  if b.timeslot ≤ preSlot then .error .badSlot
  else do
    let epochChange := isEpochChange cfg preSlot b.timeslot
    let (state, epochMark) ← updateEpoch cfg P b preSlot pre
    let tickets ← acceptTickets cfg P b epochChange state
    let accumulator ← updateAccumulator cfg epochChange tickets pre.ticketAccumulator
    return ⟨{ state with ticketAccumulator := accumulator }, epochMark,
      makeTicketsMark cfg b preSlot pre⟩

end Transition

end Safrole
