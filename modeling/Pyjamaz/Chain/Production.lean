import Pyjamaz.Chain.SealingKeys
import Pyjamaz.Runtime.ExtrinsicCollector

/-!
# Producing a block

At each slot a node looks whether the slot is its own, and produces a block if so.  In a new epoch it
first computes ahead, with a header of its own making, what the entropies and the series of the epoch
will be; it decides by these, takes its index from the pending validators that become the pool, and
proves its entropy over the output that its seal is going to have.  The transition of the block itself
then runs without a check of the header, which gets its markers and its seal from that transition.

`produced_block_accepted` says that all of this fits together: what a node produces, every other node
in the same state accepts, and comes to the same posterior state.  A node recognizes its tickets by
their ids alone, whatever the entropy it has made them with, so that no two outputs in question may be
equal by accident.
-/

namespace Chain

open Octets Safrole

/-! ## The decision -/

/-- A node that can produce: its key, and the tickets it takes for its own in this epoch. -/
structure Author where
  privateKey : Octets32
  ownTicketsCurrent : List ℕ

/-- What goes into a block besides what the consensus decides.  The disputes extrinsic is empty, so that
the offenders are those of the state. -/
structure Proposal where
  timeslot : ℕ
  parent : Octets32
  parentStateRoot : Octets32
  extrinsicHash : Octets32
  extrinsicTickets : List TicketEnvelope
  offenders : List Octets32
  /-- the posterior validator queue -/
  validatorQueue : List ValidatorData

section Production

variable (env : Environment) (author : Author) (proposal : Proposal) (s : ConsensusState)

/-- The Safrole state and the entropies that the decision is based on. -/
def preview : Except ChainError (SafroleState × Vector Octets32 4) :=
  if isEpochChange env.config s.timeslot proposal.timeslot then do
    let entropy ← (Entropy.stateTransition env proposal.timeslot s.timeslot none []
      Header.default.entropySource s.entropy).mapError .header
    let validatorPool := ValidatorPool.stateTransition env.config proposal.timeslot s.timeslot
      s.validatorPool s.safrole
    let input : BlockInput := ⟨proposal.timeslot, [], s.validatorQueue, validatorPool,
      proposal.offenders, entropy.get Entropy.one, entropy.get Entropy.two⟩
    let output ← (Safrole.stateTransition env.config env.primitives input s.timeslot
      s.safrole).mapError .safrole
    return (output.postState, entropy)
  else .ok (s.safrole, s.entropy)

/-- `should_produce_block` -/
def shouldProduceBlock (series : SlotSealerSeries) : Except HeaderError Bool :=
  match series with
  | .tickets tickets =>
    match tickets[slotPhaseIndex env.config proposal.timeslot]? with
    | none => .error .indexError
    | some ticket => .ok (ticket.id ∈ author.ownTicketsCurrent)
  | .keys keys =>
    match keys[slotPhaseIndex env.config proposal.timeslot]? with
    | none => .error .indexError
    | some key => .ok (key = env.vrf.publicKey author.privateKey)

/-- `get_author_index` -/
def getAuthorIndex (validators : List ValidatorData) : Except HeaderError ℕ :=
  match validators.findIdx? (fun v => v.bandersnatch = env.vrf.publicKey author.privateKey) with
  | none => .error .authorNotFound
  | some index => .ok index

/-! ## The block -/

/-- The header with placeholders for what the transition gives. -/
def draftHeader (authorIndex : ℕ) (entropySource : Octets96) : Header where
  parent := proposal.parent
  parentStateRoot := proposal.parentStateRoot
  extrinsicHash := proposal.extrinsicHash
  timeslot := proposal.timeslot
  epochMarker := none
  ticketsMarker := none
  authorIndex := authorIndex
  entropySource := entropySource
  offendersMarker := []
  sealSignature := zeros96

/-- The block with a header. -/
def Proposal.block (header : Header) : Block where
  header := header
  extrinsicTickets := proposal.extrinsicTickets
  offenders := proposal.offenders
  offendersMark := []
  validatorQueue := proposal.validatorQueue

/-- `state_transition` of a block that is produced: its header is completed on the way. -/
def produceTransition (b : Block) (sealVrfOutput : Octets) :
    Except ChainError (Block × ConsensusState) := do
  let t ← intermediate env b s sealVrfOutput
  let entropy ← (Entropy.stateTransition env b.header.timeslot s.timeslot (some t.authorKey)
    sealVrfOutput b.header.entropySource s.entropy).mapError .header
  let header := { b.header with
    epochMarker := t.safroleOutput.epochMark
    ticketsMarker := t.safroleOutput.ticketsMark
    offendersMarker := b.offendersMark }
  let signature ← (generateBlockSeal env.vrf env.encodeUnsigned env.config author.privateKey header
    t.safroleOutput.postState.slotSealerSeries (entropy.get Entropy.three)).mapError .header
  return ({ b with header := { header with sealSignature := signature } }, committed b t entropy)

/-- `produce_block` -/
def produceBlock (series : SlotSealerSeries) (entropy : Vector Octets32 4) :
    Except ChainError (Block × ConsensusState) := do
  let authorIndex ← (getAuthorIndex env author
    (if isEpochChange env.config s.timeslot proposal.timeslot then s.safrole.validators
      else s.validatorPool)).mapError .header
  let input ← (getBlockSealVrfInput env.config proposal.timeslot series
    (entropy.get Entropy.three)).mapError .header
  let sealVrfOutput := (env.vrf.output author.privateKey input).toList
  let entropySource := env.vrf.sign author.privateKey (jamEntropy ++ sealVrfOutput) []
  produceTransition env author s (proposal.block (draftHeader proposal authorIndex entropySource))
    sealVrfOutput

/-- The worker at a slot: a block, if the slot is the node's own. -/
def timeslotWorker : Except ChainError (Option (Block × ConsensusState)) :=
  if proposal.timeslot ≤ s.timeslot then .ok none
  else do
    let (safrole, entropy) ← preview env proposal s
    let shouldProduce ←
      (shouldProduceBlock env author proposal safrole.slotSealerSeries).mapError .header
    if shouldProduce then
      let produced ← produceBlock env author proposal s safrole.slotSealerSeries entropy
      return some produced
    else return none

end Production

/-! ## The tickets of a node -/

section OwnTickets

variable {Report Hash Signature : Type} [DecidableEq Hash]

/-- The tickets that a key gives with certain entropies. -/
def MadeWith (V : BandersnatchVrf) (privateKey : Octets32) (entropies : Set Octets32) (id : ℕ) : Prop :=
  ∃ entropy ∈ entropies, ∃ attempt,
    id = ticketId (V.output privateKey (vrfInputTicketSeal entropy attempt))

/-- The node adds a ticket of its own under the id that its key gives, with one of the entropies. -/
def AddsOwn (V : BandersnatchVrf) (privateKey : Octets32) (entropies : Set Octets32) :
    Extrinsics.Action Report Hash Signature → Prop
  | .addOwnTicket id _ _ => MadeWith V privateKey entropies id
  | _ => True

/-- All tickets that the node takes for its own satisfy a property. -/
def OwnTickets (p : ℕ → Prop) (n : Extrinsics.Node Report Hash Signature) : Prop :=
  (∀ id ∈ n.ownTicketsNext, p id) ∧ ∀ id ∈ n.ownTicketsCurrent, p id

omit [DecidableEq Hash] in
lemma OwnTickets.congr {p : ℕ → Prop} {n n' : Extrinsics.Node Report Hash Signature}
    (h : OwnTickets p n) (hnext : n'.ownTicketsNext = n.ownTicketsNext)
    (hcurrent : n'.ownTicketsCurrent = n.ownTicketsCurrent) : OwnTickets p n' := by
  rw [OwnTickets, hnext, hcurrent]
  exact h

lemma ingest_ownTickets (env : Extrinsics.Environment Report Hash Signature)
    (n : Extrinsics.Node Report Hash Signature) (index slot : ℕ) :
    (n.ingest env index slot).ownTicketsNext = n.ownTicketsNext ∧
      (n.ingest env index slot).ownTicketsCurrent = n.ownTicketsCurrent := by
  rw [Extrinsics.Node.ingest]
  split <;> exact ⟨rfl, rfl⟩

lemma takePackage_ownTickets (env : Extrinsics.Environment Report Hash Signature)
    (n : Extrinsics.Node Report Hash Signature) (package : Hash) (slot : ℕ) :
    (n.takePackage env package slot).ownTicketsNext = n.ownTicketsNext ∧
      (n.takePackage env package slot).ownTicketsCurrent = n.ownTicketsCurrent := by
  rw [Extrinsics.Node.takePackage]
  split
  · exact ⟨rfl, rfl⟩
  split
  · exact ⟨rfl, rfl⟩
  split
  · exact ⟨rfl, rfl⟩
  split
  · exact ⟨rfl, rfl⟩
  · exact ingest_ownTickets env n _ slot

omit [DecidableEq Hash] in
lemma produceBlock_ownTickets (env : Extrinsics.Environment Report Hash Signature)
    (n : Extrinsics.Node Report Hash Signature) (chain : Extrinsics.ChainState) :
    (n.produceBlock env chain).1.ownTicketsNext = n.ownTicketsNext ∧
      (n.produceBlock env chain).1.ownTicketsCurrent = n.ownTicketsCurrent := by
  rw [Extrinsics.Node.produceBlock]
  dsimp only
  split
  · exact ⟨rfl, rfl⟩
  split <;> exact ⟨rfl, rfl⟩

/-- A step of the node keeps what holds of its tickets, if it holds of the one it may add. -/
lemma OwnTickets.act {V : BandersnatchVrf} {privateKey : Octets32} {entropies : Set Octets32}
    (env : Extrinsics.Environment Report Hash Signature) {n : Extrinsics.Node Report Hash Signature}
    (h : OwnTickets (MadeWith V privateKey entropies) n)
    {action : Extrinsics.Action Report Hash Signature} (hadds : AddsOwn V privateKey entropies action) :
    OwnTickets (MadeWith V privateKey entropies) (n.act env action) := by
  cases action with
  | addTicket ticket ringPublicKeys entropy =>
    rw [Extrinsics.Node.act]
    split
    · exact h
    · exact h
  | addOwnTicket id signature validatorCount =>
    rw [Extrinsics.Node.act]
    split
    · split
      · exact h
      · refine ⟨fun id' hid' => ?_, h.2⟩
        rcases List.mem_append.mp hid' with hold | hnew
        · exact h.1 id' hold
        · rw [List.mem_singleton.mp hnew]
          exact hadds
    · exact h
  | clearTickets =>
    refine ⟨?_, h.2⟩
    intro id hid
    cases hid
  | processEpochChange =>
    refine ⟨?_, h.1⟩
    intro id hid
    cases hid
  | addGuarantee report slot signatures => exact h
  | addAssurance assurance => exact h
  | addPreimage preimage => exact h
  | processAssurances anchor validatorIndex assignments => exact h
  | addWorkPackage package => exact h
  | report index workReport => exact h
  | retry index => exact h
  | addSignature package credential =>
    rw [Extrinsics.Node.act]
    split
    · exact h
    · exact h
  | takeGuarantee slot =>
    rw [Extrinsics.Node.act]
    split
    · exact h.congr (takePackage_ownTickets env _ _ slot).1 (takePackage_ownTickets env _ _ slot).2
    · exact h
  | endWait slot =>
    rw [Extrinsics.Node.act]
    split
    · exact h.congr (ingest_ownTickets env _ _ slot).1 (ingest_ownTickets env _ _ slot).2
    · exact h
  | produceBlock chain =>
    exact h.congr (produceBlock_ownTickets env n chain).1 (produceBlock_ownTickets env n chain).2

/-- A node only takes tickets for its own that it has made. -/
lemma ownTickets_run {V : BandersnatchVrf} {privateKey : Octets32} {entropies : Set Octets32}
    (env : Extrinsics.Environment Report Hash Signature)
    {actions : List (Extrinsics.Action Report Hash Signature)}
    (hadds : ∀ action ∈ actions, AddsOwn V privateKey entropies action) :
    ∀ {n : Extrinsics.Node Report Hash Signature},
      OwnTickets (MadeWith V privateKey entropies) n →
        OwnTickets (MadeWith V privateKey entropies) (n.run env actions) := by
  induction actions with
  | nil => exact fun h => h
  | cons action actions ih =>
    intro n h
    rw [Extrinsics.Node.run]
    exact ih (fun a ha => hadds a (List.mem_cons_of_mem _ ha))
      (h.act env (hadds action List.mem_cons_self))

end OwnTickets

/-! ## The parts of a production -/

section Parts

variable {env : Environment} {author : Author} {proposal : Proposal} {s : ConsensusState}

/-- The parts of a transition that produces. -/
lemma produceTransition_eq_ok {b₀ b : Block} {sealVrfOutput : Octets} {post : ConsensusState}
    (h : produceTransition env author s b₀ sealVrfOutput = .ok (b, post)) :
    ∃ t entropy signature header, intermediate env b₀ s sealVrfOutput = .ok t ∧
      Entropy.stateTransition env b₀.header.timeslot s.timeslot (some t.authorKey) sealVrfOutput
        b₀.header.entropySource s.entropy = .ok entropy ∧
      header = { b₀.header with
        epochMarker := t.safroleOutput.epochMark
        ticketsMarker := t.safroleOutput.ticketsMark
        offendersMarker := b₀.offendersMark } ∧
      generateBlockSeal env.vrf env.encodeUnsigned env.config author.privateKey header
        t.safroleOutput.postState.slotSealerSeries (entropy.get Entropy.three) = .ok signature ∧
      b = { b₀ with header := { header with sealSignature := signature } } ∧
      post = committed b₀ t entropy := by
  rw [produceTransition, Except.bind_eq_ok] at h
  obtain ⟨t, ht, h⟩ := h
  rw [Except.bind_eq_ok] at h
  obtain ⟨entropy, hentropy, h⟩ := h
  rw [Except.bind_eq_ok] at h
  obtain ⟨signature, hsignature, h⟩ := h
  cases h
  exact ⟨t, entropy, signature, _, ht, Except.mapError_eq_ok.mp hentropy, rfl,
    Except.mapError_eq_ok.mp hsignature, rfl, rfl⟩

/-- The transition before the check of the header goes through without the output of the seal where it
does with one, and differs only in the accumulator of the entropy. -/
lemma intermediate_zeros {b : Block} {sealVrfOutput : Octets} {t : Intermediate}
    (h : intermediate env b s sealVrfOutput = .ok t) :
    ∃ entropy, intermediate env b s zeros96.toList = .ok { t with entropy := entropy } ∧
      entropy.get Entropy.three = t.entropy.get Entropy.three := by
  obtain ⟨hpool, harchive, hauthor, ⟨eta0, hentropy⟩, hsafrole⟩ := intermediate_eq_ok h
  have hzeros : Entropy.stateTransition env b.header.timeslot s.timeslot (some t.authorKey)
      zeros96.toList b.header.entropySource s.entropy =
        .ok (Entropy.shift (isEpochChange env.config s.timeslot b.header.timeslot)
          (env.primitives.blake2b256Hash
            ((s.entropy.get Entropy.zero).toList ++ List.replicate 32 0))
          s.entropy) := by
    rw [Entropy.stateTransition, Entropy.entropyOutput, if_pos rfl]
    rfl
  generalize env.primitives.blake2b256Hash _ = eta at hzeros
  obtain ⟨hone, htwo, hthree⟩ := Entropy.shift_congr
    (isEpochChange env.config s.timeslot b.header.timeslot) eta eta0 s.entropy
  refine ⟨Entropy.shift (isEpochChange env.config s.timeslot b.header.timeslot) eta s.entropy, ?_, by
    rw [hthree, hentropy]⟩
  have hinput : safroleInput b s t.validatorPool (Entropy.shift
      (isEpochChange env.config s.timeslot b.header.timeslot) eta s.entropy) =
        safroleInput b s t.validatorPool t.entropy := by
    rw [safroleInput, safroleInput, hentropy, hone, htwo]
  rw [intermediate]
  dsimp only
  rw [← hpool, hauthor, Except.mapError_eq_ok.mpr rfl, Except.ok_bind, hzeros,
    Except.mapError_eq_ok.mpr rfl, Except.ok_bind, hinput, hsafrole, Except.mapError_eq_ok.mpr rfl,
    Except.ok_bind, ← harchive]
  rfl

/-- The validator at the index of the author has its key. -/
lemma getAuthorIndex_eq_ok {validators : List ValidatorData} {index : ℕ}
    (h : getAuthorIndex env author validators = .ok index) :
    ∃ v, validators[index]? = some v ∧ v.bandersnatch = env.vrf.publicKey author.privateKey := by
  rw [getAuthorIndex] at h
  split at h
  · cases h
  next i hi =>
  cases h
  obtain ⟨hlt, hkey, -⟩ := List.findIdx?_eq_some_iff_getElem.mp hi
  exact ⟨_, List.getElem?_eq_getElem hlt, of_decide_eq_true hkey⟩

/-- The decision is made by the series and the entropy that the block is going to have. -/
lemma preview_eq_ok {b : Block} {sealVrfOutput : Octets} {t : Intermediate} {safrole : SafroleState}
    {entropy : Vector Octets32 4} (h : preview env proposal s = .ok (safrole, entropy))
    (hslot : b.header.timeslot = proposal.timeslot)
    (ht : intermediate env b s sealVrfOutput = .ok t) :
    safrole.slotSealerSeries = t.safroleOutput.postState.slotSealerSeries ∧
      entropy.get Entropy.three = t.entropy.get Entropy.three := by
  obtain ⟨hpool, -, -, ⟨eta0, hshift⟩, hsafrole⟩ := intermediate_eq_ok ht
  rw [preview] at h
  split at h
  · next hepoch =>
    rw [Except.bind_eq_ok] at h
    obtain ⟨entropy', hentropy, h⟩ := h
    rw [Except.bind_eq_ok] at h
    obtain ⟨output, houtput, h⟩ := h
    cases h
    obtain ⟨eta, hentropy'⟩ := Entropy.stateTransition_eq_ok (Except.mapError_eq_ok.mp hentropy)
    obtain ⟨-, htwo, hthree⟩ := Entropy.shift_congr
      (isEpochChange env.config s.timeslot proposal.timeslot) eta eta0 s.entropy
    rw [hslot] at hshift hpool
    rw [← hshift, ← hentropy'] at htwo hthree
    exact ⟨safrole_series_congr (Except.mapError_eq_ok.mp houtput) hsafrole hslot.symm hpool.symm htwo,
      hthree⟩
  · next hepoch =>
    cases h
    have hsame : isEpochChange env.config s.timeslot b.header.timeslot = false := by
      rw [hslot]
      exact Bool.eq_false_iff.mpr hepoch
    rw [hsame] at hshift
    refine ⟨(safrole_same_epoch hsafrole hsame).2.1.symm, ?_⟩
    rw [hshift]
    exact (Entropy.shift_false eta0 s.entropy).2.2.symm

/-- A node that decides to produce owns the slot. -/
lemma owns_of_shouldProduceBlock {validators : List ValidatorData} {series : SlotSealerSeries}
    {entropy3 : Octets32} {entropies : Set Octets32}
    (hring : env.vrf.RingSound ticketId env.primitives.ringVrfVerify)
    (hsealable : SealableBy env validators entropy3 series)
    (hmade : ∀ id ∈ author.ownTicketsCurrent, MadeWith env.vrf author.privateKey entropies id)
    (hcollision : env.vrf.CollisionFree
      ({p | env.vrf.publicKey p.1 ∈ ringKeys validators ∧
          ∃ attempt, p.2 = vrfInputTicketSeal entropy3 attempt} ∪
        {p | p.1 = author.privateKey ∧
          ∃ entropy ∈ entropies, ∃ attempt, p.2 = vrfInputTicketSeal entropy attempt}))
    (h : shouldProduceBlock env author proposal series = .ok true) :
    Owns env.vrf env.config author.privateKey proposal.timeslot series entropy3 := by
  unfold shouldProduceBlock at h
  cases series with
  | keys keys =>
    dsimp only at h
    split at h
    · cases h
    next key hkey =>
    have heq := of_decide_eq_true (Except.ok.inj h)
    rw [heq] at hkey
    exact hkey
  | tickets tickets =>
    dsimp only at h
    split at h
    · cases h
    next ticket hticket =>
    have hmem := of_decide_eq_true (Except.ok.inj h)
    obtain ⟨entropy, hentropy, attempt, hid⟩ := hmade _ hmem
    obtain ⟨signature, hverify⟩ := hsealable.2 ticket (List.mem_of_getElem? hticket)
    obtain ⟨sk, hsk, hid'⟩ := hring _ _ _ _ hverify
    -- the ring proof shows the output that the node has made, so it is the output of the node
    have hsame := ticketId_injective (hid'.trans hid)
    obtain ⟨hkey, hinput⟩ := hcollision
      (sk, vrfInputTicketSeal entropy3 ticket.attempt) (.inl ⟨hsk, _, rfl⟩)
      (author.privateKey, vrfInputTicketSeal entropy attempt) (.inr ⟨rfl, entropy, hentropy, _, rfl⟩)
      hsame
    dsimp only at hinput
    exact ⟨ticket, hticket, by rw [hinput, ← hid]⟩

/-- The block of a transition that produces is accepted, where its author owns the slot, has the index
that the header gives, and has proved its entropy over the output of its seal. -/
lemma produceTransition_accepted (hcomplete : env.vrf.Complete) {b₀ b : Block} {sealVrfOutput : Octets}
    {post : ConsensusState} (h : produceTransition env author s b₀ sealVrfOutput = .ok (b, post))
    {v : ValidatorData}
    (hindex : (ValidatorPool.stateTransition env.config b₀.header.timeslot s.timeslot s.validatorPool
      s.safrole)[b₀.header.authorIndex]? = some v)
    (hkey : v.bandersnatch = env.vrf.publicKey author.privateKey)
    (howns : Owns env.vrf env.config author.privateKey b₀.header.timeslot post.safrole.slotSealerSeries
      (post.entropy.get Entropy.three))
    {input : Octets}
    (hinput : getBlockSealVrfInput env.config b₀.header.timeslot post.safrole.slotSealerSeries
      (post.entropy.get Entropy.three) = .ok input)
    (houtput : sealVrfOutput = (env.vrf.output author.privateKey input).toList) :
    stateTransition env b s = .ok post := by
  obtain ⟨t, entropy, signature, header, ht, hentropy, rfl, hsignature, rfl, rfl⟩ :=
    produceTransition_eq_ok h
  obtain ⟨hpool, -, hauthor, -, hsafrole⟩ := intermediate_eq_ok ht
  obtain ⟨-, -, hthree⟩ := entropy_of_stateTransition ht hentropy
  obtain ⟨entropy', hzeros, hthree'⟩ := intermediate_zeros ht
  rw [← hpool] at hindex
  rw [committed] at howns hinput
  dsimp only at howns hinput
  -- the seal passes and shows the output that the entropy was proved over
  set header : Header := { b₀.header with
    epochMarker := t.safroleOutput.epochMark
    ticketsMarker := t.safroleOutput.ticketsMark
    offendersMarker := b₀.offendersMark } with hheader
  obtain ⟨signature', input', hgenerate, hinput', hvalidate⟩ :=
    validateSeal_of_owns env.encodeUnsigned (h := header) hcomplete howns
  obtain rfl : signature' = signature := Except.ok.inj (hgenerate.symm.trans hsignature)
  obtain rfl : input' = input := Except.ok.inj (hinput'.symm.trans hinput)
  have hmarkers : MarkersOf { header with sealSignature := signature' } t.safroleOutput
      b₀.offendersMark := ⟨rfl, rfl, rfl⟩
  have hchecked : validateHeaderAfterSafrole env.vrf env.encodeUnsigned env.config
      { header with sealSignature := signature' } entropy' t.validatorPool t.safroleOutput
      b₀.offendersMark = .ok (env.vrf.output author.privateKey input') := by
    rw [validateHeaderAfterSafrole, hmarkers.validateMarkers hsafrole, Except.ok_bind]
    dsimp only
    rw [show ({ header with sealSignature := signature' } : Header).authorIndex =
      b₀.header.authorIndex from rfl, hindex]
    dsimp only
    rw [hkey, hthree', ← hthree]
    exact hvalidate
  rw [stateTransition, show intermediate env { b₀ with header :=
      { header with sealSignature := signature' } } s zeros96.toList =
        .ok { t with entropy := entropy' } from hzeros, Except.ok_bind]
  dsimp only
  rw [hchecked, Except.mapError_eq_ok.mpr rfl, Except.ok_bind, ← houtput,
    show Entropy.stateTransition env header.timeslot s.timeslot (some t.authorKey) sealVrfOutput
      header.entropySource s.entropy = .ok entropy from hentropy, Except.mapError_eq_ok.mpr rfl,
    Except.ok_bind]
  rfl

end Parts

/-! ## A block that is produced is accepted -/

/-- On every chain, the block that a node produces is accepted in the same state by a node that imports
it, with the same posterior state.  The node takes tickets for its own that it has made with its key, and
no two outputs among these and the tickets of the pool are equal by accident. -/
theorem produced_block_accepted {Report Hash Signature : Type} [DecidableEq Hash] {env : Environment}
    (hcomplete : env.vrf.Complete)
    (hring : env.vrf.RingSound ticketId env.primitives.ringVrfVerify)
    (heven : env.config.epochTimeslots % 2 = 0) {start : ConsensusState} (hstart : start.Coherent env)
    {chain : List Accepted} {s : ConsensusState} (hrun : Run env start chain s)
    {collector : Extrinsics.Environment Report Hash Signature}
    {actions : List (Extrinsics.Action Report Hash Signature)} {privateKey : Octets32}
    {entropies : Set Octets32}
    (hadds : ∀ action ∈ actions, AddsOwn env.vrf privateKey entropies action)
    {proposal : Proposal} {b : Block} {post : ConsensusState}
    (hcollision : env.vrf.CollisionFree
      ({p | env.vrf.publicKey p.1 ∈ ringKeys post.validatorPool ∧
          ∃ attempt, p.2 = vrfInputTicketSeal (post.entropy.get Entropy.three) attempt} ∪
        {p | p.1 = privateKey ∧
          ∃ entropy ∈ entropies, ∃ attempt, p.2 = vrfInputTicketSeal entropy attempt}))
    (hproduced : timeslotWorker env
      ⟨privateKey, (Extrinsics.Node.init.run collector actions).ownTicketsCurrent⟩ proposal s =
        .ok (some (b, post))) :
    stateTransition env b s = .ok post := by
  set author : Author :=
    ⟨privateKey, (Extrinsics.Node.init.run collector actions).ownTicketsCurrent⟩ with hauthorDef
  have hmade : ∀ id ∈ author.ownTicketsCurrent, MadeWith env.vrf privateKey entropies id := by
    refine (ownTickets_run collector hadds ⟨?_, ?_⟩).2
    · intro id hid
      cases hid
    · intro id hid
      cases hid
  -- take the worker apart
  rw [timeslotWorker] at hproduced
  split at hproduced
  · cases hproduced
  rw [Except.bind_eq_ok] at hproduced
  obtain ⟨⟨safrole, entropy⟩, hpreview, hproduced⟩ := hproduced
  rw [Except.bind_eq_ok] at hproduced
  obtain ⟨shouldProduce, hshould, hproduced⟩ := hproduced
  cases shouldProduce with
  | false => cases hproduced
  | true =>
  rw [if_pos rfl, Except.bind_eq_ok] at hproduced
  obtain ⟨⟨b', post'⟩, hproduced, hreturn⟩ := hproduced
  cases hreturn
  rw [produceBlock, Except.bind_eq_ok] at hproduced
  obtain ⟨authorIndex, hindex, hproduced⟩ := hproduced
  rw [Except.bind_eq_ok] at hproduced
  obtain ⟨input, hinput, hproduced⟩ := hproduced
  -- what the decision was based on is what the block has
  obtain ⟨t, entropy', -, -, ht, hentropy', -, -, -, hpost⟩ := produceTransition_eq_ok hproduced
  obtain ⟨hseries, hthree⟩ := preview_eq_ok hpreview rfl ht
  have hthree' : post.entropy.get Entropy.three = entropy.get Entropy.three := by
    rw [hpost, hthree, ← (entropy_of_stateTransition ht hentropy').2.2]
    rfl
  have hseries' : post.safrole.slotSealerSeries = safrole.slotSealerSeries := by
    rw [hpost, hseries]
    rfl
  have hsealable := (Coherent.intermediate heven (hrun.coherent heven hstart) ht).sealable
  have hpool : post.validatorPool = t.validatorPool := by
    rw [hpost]
    rfl
  rw [← hseries, ← hthree, ← hthree', ← hpool] at hsealable
  have howns := owns_of_shouldProduceBlock hring hsealable hmade hcollision
    (Except.mapError_eq_ok.mp hshould)
  rw [← hseries', ← hthree'] at hinput
  rw [← hseries'] at howns
  obtain ⟨v, hv, hkey⟩ := getAuthorIndex_eq_ok (Except.mapError_eq_ok.mp hindex)
  exact produceTransition_accepted hcomplete hproduced hv hkey howns
    (Except.mapError_eq_ok.mp hinput) rfl

def sampleCollector : Extrinsics.Environment ℕ ℕ Unit where
  config := sampleEnvironment.config
  vrf := sampleEnvironment.primitives
  primitives := .ofHash (fun _ => Vector.replicate 32 0)
  report := ⟨id, id, fun _ => 6⟩
  sign _ _ _ := ()

/-- The first validator makes the ticket that it has in the sample chain, and the epoch changes. -/
def sampleActions : List (Extrinsics.Action ℕ ℕ Unit) :=
  [.addOwnTicket (ticketId (sampleKey 1)) [] 6, .processEpochChange]

/-- The proposal of an empty block for the first slot of the second epoch. -/
def sampleProposal : Proposal where
  timeslot := 4
  parent := Vector.replicate 32 0
  parentStateRoot := Vector.replicate 32 0
  extrinsicHash := Vector.replicate 32 0
  extrinsicTickets := []
  offenders := []
  validatorQueue := sampleGenesis.validatorQueue

lemma sampleEnvironment_collisionFree {pairs : Set (Octets32 × Octets)}
    (hpairs : ∀ p ∈ pairs, ∃ n attempt, p = (sampleKey n, vrfInputTicketSeal (sampleKey 2) attempt)) :
    sampleEnvironment.vrf.CollisionFree pairs := by
  intro p hp q hq houtput
  obtain ⟨n, attempt, rfl⟩ := hpairs p hp
  obtain ⟨n', attempt', rfl⟩ := hpairs q hq
  simp only [sampleEnvironment, sampleVrf, vrfInputTicketSeal, littleEndian, List.getLastD_concat]
    at houtput ⊢
  obtain ⟨hkey, hattempt⟩ := withLast_sampleKey_inj houtput
  rw [hkey, hattempt]
  exact ⟨rfl, rfl⟩

set_option maxRecDepth 4000 in
/-- The first validator produces a block for the slot of its ticket, and it is accepted. -/
theorem sampleProposal_accepted : ∃ b post,
    timeslotWorker sampleEnvironment
        ⟨sampleKey 1, (Extrinsics.Node.init.run sampleCollector sampleActions).ownTicketsCurrent⟩
        sampleProposal sampleClosed = .ok (some (b, post)) ∧
      stateTransition sampleEnvironment b sampleClosed = .ok post := by
  obtain ⟨b, post, hproduced, hpool, hentropy⟩ : ∃ b post,
      timeslotWorker sampleEnvironment
          ⟨sampleKey 1, (Extrinsics.Node.init.run sampleCollector sampleActions).ownTicketsCurrent⟩
          sampleProposal sampleClosed = .ok (some (b, post)) ∧
        ringKeys post.validatorPool = [1, 2, 3, 4, 5, 6].map sampleKey ∧
        post.entropy.get Entropy.three = sampleKey 2 := ⟨_, _, rfl, rfl, rfl⟩
  have hgenesis : sampleGenesis.Coherent sampleEnvironment :=
    genesis_coherent sampleEnvironment _ _ _ _ _
  refine ⟨b, post, hproduced, ?_⟩
  have hadds : ∀ action ∈ sampleActions,
      AddsOwn sampleEnvironment.vrf (sampleKey 1) {sampleKey 2} action := by
    intro action haction
    rcases List.mem_cons.mp haction with rfl | haction
    · exact ⟨sampleKey 2, rfl, 0, rfl⟩
    · rw [List.mem_singleton.mp haction]
      trivial
  refine produced_block_accepted sampleEnvironment_complete sampleEnvironment_ringSound (by decide)
    hgenesis sampleChain_run hadds (sampleEnvironment_collisionFree ?_) hproduced
  rintro ⟨sk, x⟩ (⟨hkey, attempt, hx⟩ | ⟨hkey, entropy, hmem, attempt, hx⟩)
  · dsimp only at hkey hx
    rw [hpool] at hkey
    obtain ⟨n, -, hn⟩ := List.mem_map.mp hkey
    rw [hx, hentropy]
    exact ⟨n, attempt, by rw [hn]; rfl⟩
  · dsimp only at hkey hx
    rw [hkey, hx, hmem]
    exact ⟨1, attempt, rfl⟩

end Chain
