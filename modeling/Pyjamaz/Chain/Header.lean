import Pyjamaz.Library.Vrf
import Pyjamaz.Safrole.Transition

/-!
# Headers and their seals

A header is sealed by its author: the seal is a VRF proof over the header without the seal.  In an epoch
with a series of tickets the proof is over the input of the ticket of the slot, and it has to show the
id of that ticket; in one with fallback keys the author has to be the holder of the key of the slot.
`validateHeaderAfterSafrole` is what a node checks of a header once it knows the posterior state of
Safrole, and `generateBlockSeal` is what an author puts in.

The codec is a parameter for the nine fields before the seal; the seal comes last and is written as its
96 bytes, which `getUnsignedPayload` cuts off again.
-/

namespace Chain

open Octets Safrole

/-- A VRF proof. -/
abbrev Octets96 := Vector UInt8 96

/-- The functions of `bandersnatch_vrfs` for single keys. -/
abbrev BandersnatchVrf := Vrf Octets32 Octets32 Octets Octets Octets96 Octets32

/-- The fields of a header that the seal signs. -/
structure UnsignedHeader where
  parent : Octets32
  parentStateRoot : Octets32
  extrinsicHash : Octets32
  timeslot : ℕ
  epochMarker : Option EpochMark
  ticketsMarker : Option (List TicketBody)
  authorIndex : ℕ
  entropySource : Octets96
  offendersMarker : List Octets32
  deriving DecidableEq

structure Header extends UnsignedHeader where
  /-- `seal` -/
  sealSignature : Octets96
  deriving DecidableEq

/-- `bytes(96)` -/
def zeros96 : Octets96 := Vector.replicate 96 0

/-- `Header.default` -/
def Header.default : Header where
  parent := Vector.replicate 32 0
  parentStateRoot := Vector.replicate 32 0
  extrinsicHash := Vector.replicate 32 0
  timeslot := 0
  epochMarker := none
  ticketsMarker := none
  authorIndex := 0
  entropySource := zeros96
  offendersMarker := []
  sealSignature := zeros96

/-- What the checks of a header raise. -/
inductive HeaderError where
  | badTicketMarkerData
  | badEpochMarkerData
  | badOffenderMarkerData
  | invalidAuthorKey
  | invalidEntropySource
  /-- `"Invalid seal key"` -/
  | invalidSealKey
  /-- `"Seal does not match winning ticket"` -/
  | sealMismatch
  /-- `"Invalid author key"` -/
  | wrongAuthor
  /-- the node is not among the validators -/
  | authorNotFound
  | indexError
  deriving DecidableEq, Repr

/-! ## The places of the entropy -/

namespace Entropy

lemma zero_lt : 0 < 4 := by decide

lemma one_lt : 1 < 4 := by decide

lemma two_lt : 2 < 4 := by decide

lemma three_lt : 3 < 4 := by decide

/-- The accumulator. -/
abbrev zero : Fin 4 := ⟨0, zero_lt⟩

/-- The accumulator at the end of the epoch before. -/
abbrev one : Fin 4 := ⟨1, one_lt⟩

/-- The accumulator two epochs before. -/
abbrev two : Fin 4 := ⟨2, two_lt⟩

/-- The accumulator three epochs before. -/
abbrev three : Fin 4 := ⟨3, three_lt⟩

end Entropy

/-! ## Inputs of the VRF -/

/-- `b"jam_fallback_seal"` -/
def jamFallbackSeal : Octets :=
  [106, 97, 109, 95, 102, 97, 108, 108, 98, 97, 99, 107, 95, 115, 101, 97, 108]

/-- `b"jam_entropy"` -/
def jamEntropy : Octets := [106, 97, 109, 95, 101, 110, 116, 114, 111, 112, 121]

/-- `vrf_input_ticket_seal` -/
def vrfInputTicketSeal (entropy : Octets32) (ticketAttempt : ℕ) : Octets :=
  jamTicketSeal ++ entropy.toList ++ littleEndian 1 ticketAttempt

/-- `vrf_input_fallback_seal` -/
def vrfInputFallbackSeal (entropy : Octets32) : Octets := jamFallbackSeal ++ entropy.toList

/-- The number that an output spells, as a ticket id. -/
def ticketId (output : Octets32) : ℕ := ofLittleEndian output.toList.reverse

/-! ## Seals -/

section Seals

variable (V : BandersnatchVrf) (encodeUnsigned : UnsignedHeader → Octets)

/-- `to_jam_bytes` -/
def Header.toJamBytes (h : Header) : Octets := encodeUnsigned h.toUnsignedHeader ++ h.sealSignature.toList

/-- `get_unsigned_payload`: `E(H)[:-96]` -/
def Header.getUnsignedPayload (h : Header) : Octets :=
  (h.toJamBytes encodeUnsigned).take ((h.toJamBytes encodeUnsigned).length - 96)

def Header.verifyTicketSeal (h : Header) (bandersnatchKey : Octets32) (ticket : TicketBody)
    (entropy : Octets32) : Option Octets32 :=
  V.verify bandersnatchKey (vrfInputTicketSeal entropy ticket.attempt)
    (h.getUnsignedPayload encodeUnsigned) h.sealSignature

def Header.verifyFallbackSeal (h : Header) (sealerKey : Octets32) (entropy : Octets32) :
    Option Octets32 :=
  V.verify sealerKey (vrfInputFallbackSeal entropy) (h.getUnsignedPayload encodeUnsigned) h.sealSignature

def Header.generateTicketSeal (h : Header) (privateKey : Octets32) (entropy : Octets32)
    (ticketAttempt : ℕ) : Octets96 :=
  V.sign privateKey (vrfInputTicketSeal entropy ticketAttempt) (h.getUnsignedPayload encodeUnsigned)

def Header.generateFallbackSeal (h : Header) (privateKey : Octets32) (entropy : Octets32) : Octets96 :=
  V.sign privateKey (vrfInputFallbackSeal entropy) (h.getUnsignedPayload encodeUnsigned)

variable (cfg : Config)

/-- `get_block_seal_vrf_input` -/
def getBlockSealVrfInput (timeslot : ℕ) (series : SlotSealerSeries) (entropy3 : Octets32) :
    Except HeaderError Octets :=
  match series with
  | .tickets tickets =>
    match tickets[slotPhaseIndex cfg timeslot]? with
    | none => .error .indexError
    | some ticket => .ok (vrfInputTicketSeal entropy3 ticket.attempt)
  | .keys _ => .ok (vrfInputFallbackSeal entropy3)

/-- `generate_block_seal` -/
def generateBlockSeal (privateKey : Octets32) (h : Header) (series : SlotSealerSeries)
    (entropy3 : Octets32) : Except HeaderError Octets96 :=
  match series with
  | .tickets tickets =>
    match tickets[slotPhaseIndex cfg h.timeslot]? with
    | none => .error .indexError
    | some ticket =>
      .ok (h.generateTicketSeal V encodeUnsigned privateKey entropy3 ticket.attempt)
  | .keys _ => .ok (h.generateFallbackSeal V encodeUnsigned privateKey entropy3)

/-- The seal, checked: the output it shows. -/
def validateSeal (h : Header) (authorKey : Octets32) (series : SlotSealerSeries)
    (entropy3 : Octets32) : Except HeaderError Octets32 :=
  match series with
  | .tickets tickets =>
    match tickets[slotPhaseIndex cfg h.timeslot]? with
    | none => .error .indexError
    | some ticket =>
      match h.verifyTicketSeal V encodeUnsigned authorKey ticket entropy3 with
      | none => .error .invalidSealKey
      | some output => if ticketId output ≠ ticket.id then .error .sealMismatch else .ok output
  | .keys keys =>
    match keys[slotPhaseIndex cfg h.timeslot]? with
    | none => .error .indexError
    | some sealerKey =>
      if authorKey ≠ sealerKey then .error .wrongAuthor
      else match h.verifyFallbackSeal V encodeUnsigned authorKey entropy3 with
        | none => .error .invalidSealKey
        | some output => .ok output

/-- The markers of a header against what the transition gave. -/
def validateMarkers (h : Header) (safroleOutput : SafroleOutput) (offendersMark : List Octets32) :
    Except HeaderError Unit :=
  if h.ticketsMarker ≠ safroleOutput.ticketsMark then .error .badTicketMarkerData
  else if h.epochMarker.any
      (fun mark => mark.validators.length < 6 || mark.validators.length % 3 ≠ 0) then
    .error .badEpochMarkerData
  else if h.epochMarker ≠ safroleOutput.epochMark then .error .badEpochMarkerData
  else if h.offendersMarker ≠ offendersMark then .error .badOffenderMarkerData
  else .ok ()

/-- `validate_header_after_safrole`: the output of the seal, which the block context keeps. -/
def validateHeaderAfterSafrole (h : Header) (postEntropy : Vector Octets32 4)
    (postValidatorPool : List ValidatorData) (safroleOutput : SafroleOutput)
    (offendersMark : List Octets32) : Except HeaderError Octets32 := do
  validateMarkers h safroleOutput offendersMark
  match postValidatorPool[h.authorIndex]? with
  | none => .error .indexError
  | some author =>
    validateSeal V encodeUnsigned cfg h author.bandersnatch safroleOutput.postState.slotSealerSeries
      (postEntropy.get Entropy.three)

/-- `set_author_bandersnatch_key` -/
def setAuthorBandersnatchKey (h : Header) (postValidatorPool : List ValidatorData) :
    Except HeaderError Octets32 :=
  match postValidatorPool[h.authorIndex]? with
  | none => .error .invalidAuthorKey
  | some author => .ok author.bandersnatch

end Seals

/-! ## A seal that is generated passes -/

section Agreement

variable {V : BandersnatchVrf} {encodeUnsigned : UnsignedHeader → Octets} {cfg : Config}

/-- The payload is the encoding of what the seal signs, whatever the seal. -/
@[simp] lemma Header.getUnsignedPayload_eq (h : Header) :
    h.getUnsignedPayload encodeUnsigned = encodeUnsigned h.toUnsignedHeader := by
  have hlength : (h.toJamBytes encodeUnsigned).length - 96 =
      (encodeUnsigned h.toUnsignedHeader).length := by
    rw [toJamBytes, List.length_append, Vector.length_toList, Nat.add_sub_cancel]
  rw [getUnsignedPayload, hlength, toJamBytes, List.take_left]

/-- Ids tell outputs apart. -/
lemma ticketId_injective : Function.Injective ticketId := by
  intro y y' h
  have hlength : y.toList.reverse.length = y'.toList.reverse.length := by simp
  have hlist := List.reverse_injective (ofLittleEndian_inj hlength h)
  exact Vector.toList_inj.mp hlist

/-- The slot is the author's: its key is that of the slot, or it has the ticket of the slot. -/
def Owns (V : BandersnatchVrf) (cfg : Config) (privateKey : Octets32) (timeslot : ℕ)
    (series : SlotSealerSeries) (entropy3 : Octets32) : Prop :=
  match series with
  | .tickets tickets => ∃ ticket, tickets[slotPhaseIndex cfg timeslot]? = some ticket ∧
      ticketId (V.output privateKey (vrfInputTicketSeal entropy3 ticket.attempt)) = ticket.id
  | .keys keys => keys[slotPhaseIndex cfg timeslot]? = some (V.publicKey privateKey)

/-- The seal of an owner of the slot passes, and shows its output on the input of the slot. -/
theorem validateSeal_of_owns (encodeUnsigned : UnsignedHeader → Octets) (hcomplete : V.Complete)
    {privateKey : Octets32} {h : Header} {series : SlotSealerSeries} {entropy3 : Octets32}
    (howns : Owns V cfg privateKey h.timeslot series entropy3) :
    ∃ signature input,
      generateBlockSeal V encodeUnsigned cfg privateKey h series entropy3 = .ok signature ∧
      getBlockSealVrfInput cfg h.timeslot series entropy3 = .ok input ∧
      validateSeal V encodeUnsigned cfg { h with sealSignature := signature } (V.publicKey privateKey) series
        entropy3 = .ok (V.output privateKey input) := by
  cases series with
  | tickets tickets =>
    obtain ⟨ticket, hticket, hid⟩ := howns
    refine ⟨h.generateTicketSeal V encodeUnsigned privateKey entropy3 ticket.attempt,
      vrfInputTicketSeal entropy3 ticket.attempt, ?_, ?_, ?_⟩
    · simp only [generateBlockSeal, hticket]
    · simp only [getBlockSealVrfInput, hticket]
    · have hverify := hcomplete privateKey (vrfInputTicketSeal entropy3 ticket.attempt)
        (encodeUnsigned h.toUnsignedHeader)
      simp only [validateSeal, hticket, Header.verifyTicketSeal, Header.generateTicketSeal,
        Header.getUnsignedPayload_eq, hverify, hid, ne_eq, not_true_eq_false, if_false]
  | keys keys =>
    have hkey : keys[slotPhaseIndex cfg h.timeslot]? = some (V.publicKey privateKey) := howns
    refine ⟨h.generateFallbackSeal V encodeUnsigned privateKey entropy3,
      vrfInputFallbackSeal entropy3, rfl, rfl, ?_⟩
    have hverify := hcomplete privateKey (vrfInputFallbackSeal entropy3)
      (encodeUnsigned h.toUnsignedHeader)
    simp only [validateSeal, hkey, Header.verifyFallbackSeal, Header.generateFallbackSeal,
      Header.getUnsignedPayload_eq, hverify, ne_eq, not_true_eq_false, if_false]

/-- Whose seal passes in an epoch with tickets has proved the ticket of the slot. -/
lemma validateSeal_tickets {h : Header} {authorKey : Octets32} {tickets : List TicketBody}
    {entropy3 output : Octets32}
    (hok : validateSeal V encodeUnsigned cfg h authorKey (.tickets tickets) entropy3 = .ok output) :
    ∃ ticket, tickets[slotPhaseIndex cfg h.timeslot]? = some ticket ∧
      ticketId output = ticket.id ∧
      V.verify authorKey (vrfInputTicketSeal entropy3 ticket.attempt)
        (encodeUnsigned h.toUnsignedHeader) h.sealSignature = some output := by
  simp only [validateSeal, Header.verifyTicketSeal, Header.getUnsignedPayload_eq] at hok
  split at hok
  · cases hok
  next ticket hticket =>
  split at hok
  · cases hok
  next y hverify =>
  split at hok
  · cases hok
  next hid =>
  cases hok
  exact ⟨ticket, hticket, not_not.mp hid, hverify⟩

/-- Whose seal passes in an epoch with fallback keys holds the key of the slot. -/
lemma validateSeal_keys {h : Header} {authorKey : Octets32} {keys : List Octets32}
    {entropy3 output : Octets32}
    (hok : validateSeal V encodeUnsigned cfg h authorKey (.keys keys) entropy3 = .ok output) :
    keys[slotPhaseIndex cfg h.timeslot]? = some authorKey ∧
      V.verify authorKey (vrfInputFallbackSeal entropy3) (encodeUnsigned h.toUnsignedHeader)
        h.sealSignature = some output := by
  simp only [validateSeal, Header.verifyFallbackSeal, Header.getUnsignedPayload_eq] at hok
  split at hok
  · cases hok
  next sealerKey hkey =>
  split at hok
  · cases hok
  next heq =>
  split at hok
  · cases hok
  next y hverify =>
  cases hok
  exact ⟨by rw [not_not.mp heq]; exact hkey, hverify⟩

end Agreement

end Chain
