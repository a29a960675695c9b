import Pyjamaz.Chain.Consensus

/-!
# Who may seal

In every state that a chain reaches, each slot of the epoch belongs to a validator of the pool.  With
fallback keys that is written into the series.  With tickets it is the invariant `Coherent`: a ticket in
the accumulator was proved against the pending validators with the third entropy, and when the epoch
changes the tickets become the series, the pending validators the pool, and the third entropy the fourth,
so that a ticket of the series is one of the pool (`slot_sealable`).

In the other direction, an accepted block was sealed by the owner of its slot.  Within an epoch neither
the series nor the pool nor the entropies in question change, on any branch, so that two accepted blocks
for one slot have one author, even on different forks of the epoch (`slot_author_unique`).
-/

namespace Chain

open Octets Safrole

/-! ## The invariant -/

/-- A ticket that was proved against a ring, with an entropy. -/
def Proved (P : Primitives) (ring : List Octets32) (entropy : Octets32) (t : TicketBody) : Prop :=
  ∃ signature, P.ringVrfVerify ring (vrfInputTicketSeal entropy t.attempt) signature = some t.id

/-- A series for each slot of the epoch, of tickets proved by the validators or of their keys. -/
def SealableBy (env : Environment) (validators : List ValidatorData) (entropy : Octets32) :
    SlotSealerSeries → Prop
  | .tickets tickets => tickets.length = env.config.epochTimeslots ∧
      ∀ t ∈ tickets, Proved env.primitives (ringKeys validators) entropy t
  | .keys keys => keys.length = env.config.epochTimeslots ∧ ∀ key ∈ keys, key ∈ ringKeys validators

/-- The tickets are those of the pending validators, and the series that of the pool. -/
structure Coherent (env : Environment) (safrole : SafroleState) (validatorPool : List ValidatorData)
    (entropy2 entropy3 : Octets32) : Prop where
  accumulated : ∀ t ∈ safrole.ticketAccumulator,
    Proved env.primitives (ringKeys safrole.validators) entropy2 t
  sealable : SealableBy env validatorPool entropy3 safrole.slotSealerSeries

/-- The invariant of a state. -/
def ConsensusState.Coherent (env : Environment) (s : ConsensusState) : Prop :=
  Chain.Coherent env s.safrole s.validatorPool (s.entropy.get Entropy.two)
    (s.entropy.get Entropy.three)

/-- The genesis state satisfies it. -/
lemma genesis_coherent (env : Environment) (first second third fourth : ValidatorData)
    (rest : List ValidatorData) :
    (genesis env.config first second third fourth rest).Coherent env where
  accumulated := by
    intro t ht
    cases ht
  sealable := by
    refine ⟨List.length_replicate, fun key hkey => ?_⟩
    rw [List.eq_of_mem_replicate hkey]
    exact List.mem_cons_self

section Block

variable {env : Environment} {b : Block} {s s' : ConsensusState} {sealVrfOutput : Octets}

/-- The tickets that a block submits are proved against the pending validators that it leaves. -/
lemma proved_of_mem_submitted {cfg : Config} {P : Primitives} {b : BlockInput} {preSlot : ℕ}
    {pre : SafroleState} {out : SafroleOutput}
    (h : Safrole.stateTransition cfg P b preSlot pre = .ok out) {t : TicketBody}
    (ht : t ∈ b.submitted cfg P preSlot pre) :
    Proved P (ringKeys out.postState.validators) b.entropy2 t := by
  obtain ⟨envelope, -, henvelope⟩ := List.mem_filterMap.mp ht
  obtain ⟨id, hid, rfl⟩ := Option.map_eq_some_iff.mp henvelope
  rw [BlockInput.ticketId, ring_eq_ringKeys h] at hid
  exact ⟨envelope.signature, hid⟩

lemma mem_of_mem_sortedTickets {cfg : Config} {tickets : List TicketBody} {t : TicketBody}
    (h : t ∈ sortedTickets cfg tickets) : t ∈ tickets :=
  (List.mem_insertionSort _).mp (List.mem_of_mem_take h)

/-- The series of a new epoch is one of the new pool. -/
lemma newSlotSealerSeries_sealable (heven : env.config.epochTimeslots % 2 = 0) {b : BlockInput}
    {preSlot : ℕ} {pre : SafroleState} {entropy : Octets32} {series : SlotSealerSeries}
    (hpool : b.validatorPool = pre.validators)
    (haccumulated : ∀ t ∈ pre.ticketAccumulator,
      Proved env.primitives (ringKeys pre.validators) entropy t)
    (h : newSlotSealerSeries env.config env.primitives b preSlot pre = .ok series) :
    SealableBy env b.validatorPool entropy series := by
  rw [newSlotSealerSeries] at h
  split at h
  · obtain ⟨keys, hkeys, rfl⟩ := Except.map_eq_ok.mp h
    exact fallbackKeys_eq_ok hkeys
  · next hfallback =>
    cases h
    have hfull : pre.ticketAccumulator.length = env.config.epochTimeslots := by
      by_contra hlength
      exact hfallback (by simp [enactFallbackMethod, hlength])
    have hperm : (reorderListOutsideIn pre.ticketAccumulator).Perm pre.ticketAccumulator :=
      reorderListOutsideIn_perm (by rw [hfull, heven])
    refine ⟨hperm.length_eq.trans hfull, fun t ht => ?_⟩
    rw [hpool]
    exact haccumulated t (hperm.mem_iff.mp ht)

/-- A block keeps the invariant, already before its header is checked. -/
lemma Coherent.intermediate (heven : env.config.epochTimeslots % 2 = 0) (hs : s.Coherent env)
    {t : Intermediate} (h : intermediate env b s sealVrfOutput = .ok t) :
    Coherent env t.safroleOutput.postState t.validatorPool (t.entropy.get Entropy.two)
      (t.entropy.get Entropy.three) := by
  obtain ⟨hpool, -, -, ⟨eta0, hentropy⟩, hsafrole⟩ := intermediate_eq_ok h
  obtain ⟨-, -, -, -, -, haccumulator⟩ := stateTransition_eq_ok hsafrole
  have hsubmitted := fun ticket => @proved_of_mem_submitted _ _ _ _ _ _ hsafrole ticket
  cases hepoch : isEpochChange env.config s.timeslot b.header.timeslot with
  | true =>
    obtain ⟨-, htwo, hthree⟩ := Entropy.shift_true eta0 s.entropy
    rw [hepoch] at hentropy
    rw [ValidatorPool.stateTransition, if_pos hepoch] at hpool
    rw [← hentropy] at htwo hthree
    obtain ⟨-, hseries, -, -⟩ := safrole_new_epoch hsafrole hepoch
    constructor
    · intro ticket hticket
      rw [haccumulator, show isEpochChange _ _ (safroleInput b s _ _).timeslot = true from hepoch,
        if_pos rfl] at hticket
      exact hsubmitted ticket (mem_of_mem_sortedTickets hticket)
    · rw [hthree]
      exact newSlotSealerSeries_sealable heven hpool hs.accumulated hseries
  | false =>
    obtain ⟨-, htwo, hthree⟩ := Entropy.shift_false eta0 s.entropy
    rw [hepoch] at hentropy
    rw [ValidatorPool.stateTransition, if_neg (by rw [hepoch]; exact Bool.false_ne_true)] at hpool
    rw [← hentropy] at htwo hthree
    obtain ⟨hvalidators, hseries, -⟩ := safrole_same_epoch hsafrole hepoch
    constructor
    · intro ticket hticket
      rw [haccumulator, show isEpochChange _ _ (safroleInput b s _ _).timeslot = false from hepoch,
        if_neg Bool.false_ne_true] at hticket
      rcases List.mem_append.mp (mem_of_mem_sortedTickets hticket) with hnew | hold
      · exact hsubmitted ticket hnew
      · rw [hvalidators, htwo]
        exact hs.accumulated ticket hold
    · rw [hpool, hthree, hseries]
      exact hs.sealable

/-- The entropies behind the accumulator do not depend on the output of the seal. -/
lemma entropy_of_stateTransition {t : Intermediate} {authorKey : Option Octets32} {output : Octets}
    {entropy : Vector Octets32 4} (ht : Chain.intermediate env b s sealVrfOutput = .ok t)
    (h : Entropy.stateTransition env b.header.timeslot s.timeslot authorKey output
      b.header.entropySource s.entropy = .ok entropy) :
    entropy.get Entropy.one = t.entropy.get Entropy.one ∧
      entropy.get Entropy.two = t.entropy.get Entropy.two ∧
      entropy.get Entropy.three = t.entropy.get Entropy.three := by
  obtain ⟨-, -, -, ⟨eta0, hentropy⟩, -⟩ := intermediate_eq_ok ht
  obtain ⟨eta0', hentropy'⟩ := Entropy.stateTransition_eq_ok h
  rw [hentropy, hentropy']
  exact Entropy.shift_congr _ eta0' eta0 s.entropy

/-- An accepted block keeps the invariant. -/
lemma Coherent.block (heven : env.config.epochTimeslots % 2 = 0) (hs : s.Coherent env)
    (h : stateTransition env b s = .ok s') : s'.Coherent env := by
  obtain ⟨t, output, entropy, ht, -, hentropy, rfl⟩ := stateTransition_parts h
  obtain ⟨-, htwo, hthree⟩ := entropy_of_stateTransition ht hentropy
  have hcoherent := Coherent.intermediate heven hs ht
  rw [ConsensusState.Coherent, committed]
  dsimp only
  rw [htwo, hthree]
  exact hcoherent

/-- Every state of a chain is coherent. -/
lemma Run.coherent (heven : env.config.epochTimeslots % 2 = 0) {start : ConsensusState}
    (hstart : start.Coherent env) {chain : List Accepted} (hrun : Run env start chain s) :
    s.Coherent env := by
  induction hrun with
  | start => exact hstart
  | block _ b hstep ih => exact Coherent.block heven ih hstep

end Block

/-! ## Every slot has an owner -/

section Owner

variable {env : Environment}

lemma slotPhaseIndex_lt_epoch {cfg : Config} (hpos : 0 < cfg.epochTimeslots) (timeslot : ℕ) :
    slotPhaseIndex cfg timeslot < cfg.epochTimeslots :=
  Nat.mod_lt _ hpos

/-- A slot of a series belongs to one of the validators. -/
lemma SealableBy.owner (hcomplete : env.vrf.Complete) (hunique : env.vrf.Unique)
    (hring : env.vrf.RingSound ticketId env.primitives.ringVrfVerify)
    (hpos : 0 < env.config.epochTimeslots) {validators : List ValidatorData} {entropy : Octets32}
    {series : SlotSealerSeries} (h : SealableBy env validators entropy series) (timeslot : ℕ) :
    ∃ (index : ℕ) (v : ValidatorData), validators[index]? = some v ∧
      (∀ sk, env.vrf.publicKey sk = v.bandersnatch →
        Owns env.vrf env.config sk timeslot series entropy) ∧
      (∀ tickets, series = .tickets tickets → ∃ sk, env.vrf.publicKey sk = v.bandersnatch) := by
  have hphase := slotPhaseIndex_lt_epoch hpos timeslot
  cases series with
  | tickets tickets =>
    obtain ⟨hlength, hproved⟩ := h
    rw [← hlength] at hphase
    obtain ⟨signature, hverify⟩ := hproved _ (List.getElem_mem hphase)
    obtain ⟨sk, hmem, hid⟩ := hring _ _ _ _ hverify
    obtain ⟨v, hv, hkey⟩ := List.mem_map.mp hmem
    obtain ⟨index, hindex⟩ := List.mem_iff_getElem?.mp hv
    refine ⟨index, v, hindex, fun sk' hsk' => ?_, fun _ _ => ⟨sk, hkey.symm⟩⟩
    refine ⟨_, List.getElem?_eq_getElem hphase, ?_⟩
    rw [← hid, hunique.output_congr hcomplete (hsk'.trans hkey) _ []]
  | keys keys =>
    obtain ⟨hlength, hmem⟩ := h
    rw [← hlength] at hphase
    obtain ⟨v, hv, hkey⟩ := List.mem_map.mp (hmem _ (List.getElem_mem hphase))
    obtain ⟨index, hindex⟩ := List.mem_iff_getElem?.mp hv
    refine ⟨index, v, hindex, fun sk hsk => ?_, fun tickets htickets => by cases htickets⟩
    show keys[slotPhaseIndex env.config timeslot]? = _
    rw [List.getElem?_eq_getElem hphase, hsk, hkey]

/-- The header has the markers that the transition gave. -/
structure MarkersOf (h : Header) (safroleOutput : SafroleOutput) (offendersMark : List Octets32) :
    Prop where
  tickets : h.ticketsMarker = safroleOutput.ticketsMark
  epoch : h.epochMarker = safroleOutput.epochMark
  offenders : h.offendersMarker = offendersMark

/-- The markers of a transition pass: a new epoch has a valid number of validators. -/
lemma MarkersOf.validateMarkers {cfg : Config} {P : Primitives} {b : BlockInput} {preSlot : ℕ}
    {pre : SafroleState} {out : SafroleOutput} {h : Header} {offendersMark : List Octets32}
    (hout : Safrole.stateTransition cfg P b preSlot pre = .ok out)
    (hmarkers : MarkersOf h out offendersMark) : validateMarkers h out offendersMark = .ok () := by
  have hcount : h.epochMarker.any
      (fun mark => mark.validators.length < 6 || mark.validators.length % 3 ≠ 0) = false := by
    rw [hmarkers.epoch]
    cases hepoch : isEpochChange cfg preSlot b.timeslot with
    | false =>
      rw [(safrole_same_epoch hout hepoch).2.2]
      rfl
    | true =>
      obtain ⟨-, -, hmark, hvalid⟩ := safrole_new_epoch hout hepoch
      rw [hmark, Option.any_some, List.length_map]
      simp only [validValidatorCount, Bool.and_eq_true, decide_eq_true_eq] at hvalid
      simp only [Bool.or_eq_false_iff, decide_eq_false_iff_not]
      omega
  rw [Chain.validateMarkers, if_neg (not_not.mpr hmarkers.tickets), hcount,
    if_neg Bool.false_ne_true, if_neg (not_not.mpr hmarkers.epoch),
    if_neg (not_not.mpr hmarkers.offenders)]

/-- On every chain, whenever a block is far enough to have its header checked, some validator of the
pool can seal its slot: a header with the index of that validator and the right markers passes with the
seal that a holder of the key generates.  With a series of tickets there is a holder of the key. -/
theorem slot_sealable (hcomplete : env.vrf.Complete) (hunique : env.vrf.Unique)
    (hring : env.vrf.RingSound ticketId env.primitives.ringVrfVerify)
    (hpos : 0 < env.config.epochTimeslots) (heven : env.config.epochTimeslots % 2 = 0)
    {start : ConsensusState} (hstart : start.Coherent env) {chain : List Accepted}
    {s : ConsensusState} (hrun : Run env start chain s) {b : Block} {t : Intermediate}
    (ht : intermediate env b s zeros96.toList = .ok t) :
    ∃ (index : ℕ) (v : ValidatorData), t.validatorPool[index]? = some v ∧
      (∀ sk, env.vrf.publicKey sk = v.bandersnatch → ∀ h : Header,
        h.timeslot = b.header.timeslot → h.authorIndex = index →
        MarkersOf h t.safroleOutput b.offendersMark →
        ∃ signature output, generateBlockSeal env.vrf env.encodeUnsigned env.config sk h
            t.safroleOutput.postState.slotSealerSeries (t.entropy.get Entropy.three) = .ok signature ∧
          validateHeaderAfterSafrole env.vrf env.encodeUnsigned env.config
            { h with sealSignature := signature } t.entropy t.validatorPool t.safroleOutput
            b.offendersMark = .ok output) ∧
      (∀ tickets, t.safroleOutput.postState.slotSealerSeries = .tickets tickets →
        ∃ sk, env.vrf.publicKey sk = v.bandersnatch) := by
  have hcoherent := Coherent.intermediate heven (hrun.coherent heven hstart) ht
  obtain ⟨-, -, -, -, hsafrole⟩ := intermediate_eq_ok ht
  obtain ⟨index, v, hindex, howns, hholder⟩ :=
    SealableBy.owner hcomplete hunique hring hpos hcoherent.sealable b.header.timeslot
  refine ⟨index, v, hindex, fun sk hsk h hslot hauthor hmarkers => ?_, hholder⟩
  have hown := howns sk hsk
  rw [← hslot] at hown
  obtain ⟨signature, input, hgenerate, -, hvalidate⟩ :=
    validateSeal_of_owns env.encodeUnsigned hcomplete hown
  refine ⟨signature, env.vrf.output sk input, hgenerate, ?_⟩
  have hmarkers' : MarkersOf { h with sealSignature := signature } t.safroleOutput b.offendersMark :=
    ⟨hmarkers.tickets, hmarkers.epoch, hmarkers.offenders⟩
  rw [validateHeaderAfterSafrole, hmarkers'.validateMarkers hsafrole, Except.ok_bind]
  dsimp only
  rw [hauthor, hindex]
  dsimp only
  rw [← hsk]
  exact hvalidate

set_option maxRecDepth 4000 in
/-- The first slot of the second epoch of the sample chain has the ticket of a validator of the pool. -/
theorem sampleClosed_sealable : ∃ (t : Intermediate) (index : ℕ) (v : ValidatorData),
    intermediate sampleEnvironment (sampleBlock 4 none none []) sampleClosed zeros96.toList = .ok t ∧
      t.safroleOutput.postState.slotSealerSeries = .tickets sampleTickets ∧
      t.validatorPool[index]? = some v ∧
      ∃ sk, sampleEnvironment.vrf.publicKey sk = v.bandersnatch := by
  have hgenesis : sampleGenesis.Coherent sampleEnvironment :=
    genesis_coherent sampleEnvironment _ _ _ _ _
  obtain ⟨t, ht, hseries⟩ : ∃ t, intermediate sampleEnvironment (sampleBlock 4 none none [])
      sampleClosed zeros96.toList = .ok t ∧
      t.safroleOutput.postState.slotSealerSeries = .tickets sampleTickets := ⟨_, rfl, rfl⟩
  obtain ⟨index, v, hindex, -, hholder⟩ := slot_sealable sampleEnvironment_complete
    sampleEnvironment_unique sampleEnvironment_ringSound (by decide) (by decide) hgenesis
    sampleChain_run ht
  exact ⟨t, index, v, ht, hseries, hindex, hholder sampleTickets hseries⟩

end Owner

/-! ## Every slot has one author -/

section Author

variable {env : Environment}

/-- What decides about the seals of an epoch, in two states. -/
structure SameSealing (s s' : ConsensusState) : Prop where
  validatorPool : s.validatorPool = s'.validatorPool
  entropy3 : s.entropy.get Entropy.three = s'.entropy.get Entropy.three
  series : s.safrole.slotSealerSeries = s'.safrole.slotSealerSeries

lemma SameSealing.symm {s s' : ConsensusState} (h : SameSealing s s') : SameSealing s' s :=
  ⟨h.validatorPool.symm, h.entropy3.symm, h.series.symm⟩

lemma SameSealing.trans {s s' s'' : ConsensusState} (h : SameSealing s s') (h' : SameSealing s' s'') :
    SameSealing s s'' :=
  ⟨h.validatorPool.trans h'.validatorPool, h.entropy3.trans h'.entropy3, h.series.trans h'.series⟩

/-- An accepted block has a later slot. -/
lemma stateTransition_slot {b : Block} {s s' : ConsensusState}
    (h : stateTransition env b s = .ok s') :
    s.timeslot < b.header.timeslot ∧ s'.timeslot = b.header.timeslot := by
  obtain ⟨t, output, entropy, ht, -, -, rfl⟩ := stateTransition_parts h
  obtain ⟨-, -, -, -, hsafrole⟩ := intermediate_eq_ok ht
  exact ⟨(stateTransition_eq_ok hsafrole).1, rfl⟩

lemma Run.slot_le {start s : ConsensusState} {chain : List Accepted} (hrun : Run env start chain s) :
    start.timeslot ≤ s.timeslot := by
  induction hrun with
  | start => exact le_refl _
  | block _ b hstep ih =>
    obtain ⟨hlt, heq⟩ := stateTransition_slot hstep
    omega

lemma Run.eq_start {start s : ConsensusState} (hrun : Run env start [] s) : s = start := by
  generalize hempty : ([] : List Accepted) = chain at hrun
  cases hrun with
  | start => rfl
  | block =>
    have hlength := congrArg List.length hempty
    simp at hlength

/-- A block within the epoch changes nothing that decides about seals. -/
lemma sameSealing_of_same_epoch {b : Block} {s s' : ConsensusState}
    (h : stateTransition env b s = .ok s')
    (hepoch : isEpochChange env.config s.timeslot b.header.timeslot = false) : SameSealing s s' := by
  obtain ⟨t, output, entropy, ht, -, hentropy, rfl⟩ := stateTransition_parts h
  obtain ⟨hpool, -, -, -, hsafrole⟩ := intermediate_eq_ok ht
  obtain ⟨eta0, hshift⟩ := Entropy.stateTransition_eq_ok hentropy
  rw [hepoch] at hshift
  rw [ValidatorPool.stateTransition, if_neg (by rw [hepoch]; exact Bool.false_ne_true)] at hpool
  refine ⟨hpool.symm, ?_, (safrole_same_epoch hsafrole hepoch).2.1.symm⟩
  rw [committed, hshift]
  exact (Entropy.shift_false eta0 s.entropy).2.2.symm

/-- Two blocks on one state decide about the seals of their epoch by their slot alone. -/
lemma sameSealing_of_slot_eq {b₁ b₂ : Block} {s s₁ s₂ : ConsensusState}
    (h₁ : stateTransition env b₁ s = .ok s₁) (h₂ : stateTransition env b₂ s = .ok s₂)
    (hslot : b₁.header.timeslot = b₂.header.timeslot) : SameSealing s₁ s₂ := by
  obtain ⟨t₁, output₁, entropy₁, ht₁, -, hentropy₁, rfl⟩ := stateTransition_parts h₁
  obtain ⟨t₂, output₂, entropy₂, ht₂, -, hentropy₂, rfl⟩ := stateTransition_parts h₂
  obtain ⟨hpool₁, -, -, ⟨eta₁, hshift₁⟩, hsafrole₁⟩ := intermediate_eq_ok ht₁
  obtain ⟨hpool₂, -, -, ⟨eta₂, hshift₂⟩, hsafrole₂⟩ := intermediate_eq_ok ht₂
  have hpool : t₁.validatorPool = t₂.validatorPool := by rw [hpool₁, hpool₂, hslot]
  rw [hslot] at hshift₁
  obtain ⟨-, htwo, hthree⟩ := Entropy.shift_congr
    (isEpochChange env.config s.timeslot b₂.header.timeslot) eta₁ eta₂ s.entropy
  rw [← hshift₁, ← hshift₂] at htwo hthree
  refine ⟨hpool, ?_, safrole_series_congr hsafrole₁ hsafrole₂ hslot hpool htwo⟩
  rw [committed, committed, (entropy_of_stateTransition ht₁ hentropy₁).2.2,
    (entropy_of_stateTransition ht₂ hentropy₂).2.2]
  exact hthree

/-- A chain that stays in an epoch changes nothing that decides about its seals. -/
lemma Run.sameSealing {start s : ConsensusState} {chain : List Accepted}
    (hrun : Run env start chain s)
    (hepoch : epochNumber env.config start.timeslot = epochNumber env.config s.timeslot) :
    SameSealing start s := by
  induction hrun with
  | start => exact ⟨rfl, rfl, rfl⟩
  | @block chain pre post hrun b hstep ih =>
    obtain ⟨hlt, hpost⟩ := stateTransition_slot hstep
    have hle : epochNumber env.config start.timeslot ≤ epochNumber env.config pre.timeslot :=
      Nat.div_le_div_right hrun.slot_le
    have hle' : epochNumber env.config pre.timeslot ≤ epochNumber env.config post.timeslot := by
      rw [hpost]
      exact Nat.div_le_div_right hlt.le
    have hpre : epochNumber env.config start.timeslot = epochNumber env.config pre.timeslot := by
      omega
    refine (ih hpre).trans (sameSealing_of_same_epoch hstep ?_)
    rw [isEpochChange_eq_false, ← hpost]
    omega

/-- What an accepted block shows: its author is in the pool, and its seal passed. -/
lemma stateTransition_author {b : Block} {s s' : ConsensusState}
    (h : stateTransition env b s = .ok s') :
    ∃ v output, s'.validatorPool[b.header.authorIndex]? = some v ∧
      validateSeal env.vrf env.encodeUnsigned env.config b.header v.bandersnatch
        s'.safrole.slotSealerSeries (s'.entropy.get Entropy.three) = .ok output := by
  obtain ⟨t, output, entropy, ht, hvalidate, hentropy, rfl⟩ := stateTransition_parts h
  obtain ⟨-, -, hthree⟩ := entropy_of_stateTransition ht hentropy
  rw [validateHeaderAfterSafrole, Except.bind_eq_ok] at hvalidate
  obtain ⟨-, -, hvalidate⟩ := hvalidate
  split at hvalidate
  · cases hvalidate
  next v hv =>
  refine ⟨v, output, hv, ?_⟩
  rw [committed]
  dsimp only
  rw [hthree]
  exact hvalidate

/-- Two accepted blocks for one slot, on two branches from a common state, have one author: where the
slot is in the epoch of the common state, whatever the branches, and otherwise where both blocks are on
the common state.  The keys of the pool must not share an output on the input of a ticket. -/
theorem slot_author_unique {s s₁ s₂ s₁' s₂' : ConsensusState} {chain₁ chain₂ : List Accepted}
    (hrun₁ : Run env s chain₁ s₁) (hrun₂ : Run env s chain₂ s₂) {b₁ b₂ : Block}
    (hstep₁ : stateTransition env b₁ s₁ = .ok s₁') (hstep₂ : stateTransition env b₂ s₂ = .ok s₂')
    (hslot : b₁.header.timeslot = b₂.header.timeslot)
    (hfork : epochNumber env.config s.timeslot = epochNumber env.config b₁.header.timeslot ∨
      chain₁ = [] ∧ chain₂ = [])
    (hseparates : ∀ attempt, env.vrf.Separates {key | key ∈ ringKeys s₁'.validatorPool}
      (vrfInputTicketSeal (s₁'.entropy.get Entropy.three) attempt)) :
    ∃ v₁ v₂, s₁'.validatorPool[b₁.header.authorIndex]? = some v₁ ∧
      s₂'.validatorPool[b₂.header.authorIndex]? = some v₂ ∧ v₁.bandersnatch = v₂.bandersnatch := by
  have hsame : SameSealing s₁' s₂' := by
    by_cases hepoch : epochNumber env.config s.timeslot = epochNumber env.config b₁.header.timeslot
    · have hbranch : ∀ {chain : List Accepted} {t t' : ConsensusState} {b : Block},
          Run env s chain t → stateTransition env b t = .ok t' →
          b.header.timeslot = b₁.header.timeslot → SameSealing s t' := by
        intro chain t t' b hrun hstep hb
        refine (hrun.block b hstep).sameSealing ?_
        rw [(stateTransition_slot hstep).2, hb, hepoch]
      exact (hbranch hrun₁ hstep₁ rfl).symm.trans (hbranch hrun₂ hstep₂ hslot.symm)
    · obtain ⟨rfl, rfl⟩ := hfork.resolve_left hepoch
      obtain rfl := hrun₁.eq_start
      obtain rfl := hrun₂.eq_start
      exact sameSealing_of_slot_eq hstep₁ hstep₂ hslot
  obtain ⟨v₁, y₁, hv₁, hseal₁⟩ := stateTransition_author hstep₁
  obtain ⟨v₂, y₂, hv₂, hseal₂⟩ := stateTransition_author hstep₂
  refine ⟨v₁, v₂, hv₁, hv₂, ?_⟩
  rw [← hsame.series, ← hsame.entropy3] at hseal₂
  rw [← hsame.validatorPool] at hv₂
  have hmem₁ : v₁.bandersnatch ∈ ringKeys s₁'.validatorPool :=
    List.mem_map_of_mem (List.mem_of_getElem? hv₁)
  have hmem₂ : v₂.bandersnatch ∈ ringKeys s₁'.validatorPool :=
    List.mem_map_of_mem (List.mem_of_getElem? hv₂)
  cases hseries : s₁'.safrole.slotSealerSeries with
  | tickets tickets =>
    rw [hseries] at hseal₁ hseal₂
    obtain ⟨ticket₁, hticket₁, hid₁, hverify₁⟩ := validateSeal_tickets hseal₁
    obtain ⟨ticket₂, hticket₂, hid₂, hverify₂⟩ := validateSeal_tickets hseal₂
    rw [hslot, hticket₂] at hticket₁
    obtain rfl := Option.some.inj hticket₁
    obtain rfl := ticketId_injective (hid₁.trans hid₂.symm)
    exact hseparates _ _ hmem₁ _ hmem₂ _ _ _ _ _ hverify₁ hverify₂
  | keys keys =>
    rw [hseries] at hseal₁ hseal₂
    obtain ⟨hkey₁, -⟩ := validateSeal_keys hseal₁
    obtain ⟨hkey₂, -⟩ := validateSeal_keys hseal₂
    rw [hslot, hkey₂] at hkey₁
    exact (Option.some.inj hkey₁).symm

/-- The keys of a sample pool do not share outputs. -/
lemma sampleVrf_separates (s : ConsensusState) (x : Octets)
    (hpool : ∀ key ∈ ringKeys s.validatorPool, ∃ n, key = sampleKey n) :
    sampleVrf.Separates {key | key ∈ ringKeys s.validatorPool} x := by
  intro pk hpk pk' hpk' m m' π π' y h h'
  obtain ⟨n, rfl⟩ := hpool pk hpk
  obtain ⟨n', rfl⟩ := hpool pk' hpk'
  simp only [sampleVrf, Option.ite_none_right_eq_some] at h h'
  rw [(withLast_sampleKey_inj ((Option.some.inj h.2).trans (Option.some.inj h'.2).symm)).1]

/-- On two branches of an epoch with tickets, which have submitted other tickets since, the blocks for
one slot have one author. -/
theorem fork_author_unique : ∃ v₁ v₂,
    forkBase.safrole.slotSealerSeries =
        .tickets ([1, 4, 2, 3].map (fun n => ⟨ticketId (sampleKey n), 0⟩)) ∧
      forkLeft.safrole.ticketAccumulator.length = 1 ∧ forkRight.safrole.ticketAccumulator.length = 2 ∧
      (samplePost forkEnvironment forkLeftBlock forkLeft).validatorPool[
        forkLeftBlock.header.authorIndex]? = some v₁ ∧
      (samplePost forkEnvironment forkRightBlock forkRight).validatorPool[
        forkRightBlock.header.authorIndex]? = some v₂ ∧
      v₁.bandersnatch = v₂.bandersnatch := by
  have haccepts : (stateTransition forkEnvironment (forkBlock 9 3 [1] forkBase) forkBase).isOk = true ∧
      (stateTransition forkEnvironment (forkBlock 9 3 [2, 3] forkBase) forkBase).isOk = true ∧
      (stateTransition forkEnvironment forkLeftBlock forkLeft).isOk = true ∧
      (stateTransition forkEnvironment forkRightBlock forkRight).isOk = true ∧
      forkLeftBlock.header.timeslot = forkRightBlock.header.timeslot ∧
      epochNumber forkEnvironment.config forkBase.timeslot =
        epochNumber forkEnvironment.config forkLeftBlock.header.timeslot := by decide +kernel
  have hstates : forkBase.safrole.slotSealerSeries =
        .tickets ([1, 4, 2, 3].map (fun n => ⟨ticketId (sampleKey n), 0⟩)) ∧
      forkLeft.safrole.ticketAccumulator.length = 1 ∧ forkRight.safrole.ticketAccumulator.length = 2 ∧
      ringKeys (samplePost forkEnvironment forkLeftBlock forkLeft).validatorPool =
        [1, 2, 3, 4, 5, 0].map sampleKey := by decide +kernel
  obtain ⟨hleft, hright, hleftBlock, hrightBlock, hslot, hepoch⟩ := haccepts
  obtain ⟨hseries, hone, htwo, hkeys⟩ := hstates
  have hpool : ∀ key ∈ ringKeys (samplePost forkEnvironment forkLeftBlock forkLeft).validatorPool,
      ∃ n, key = sampleKey n := by
    intro key hkey
    rw [hkeys] at hkey
    obtain ⟨n, -, hn⟩ := List.mem_map.mp hkey
    exact ⟨n, hn.symm⟩
  have hbase : Run forkEnvironment forkBase [] forkBase := .start
  obtain ⟨v₁, v₂, hv₁, hv₂, hsame⟩ := slot_author_unique (hbase.block _ (samplePost_eq_ok _ _ _ hleft))
    (hbase.block _ (samplePost_eq_ok _ _ _ hright)) (samplePost_eq_ok _ _ _ hleftBlock)
    (samplePost_eq_ok _ _ _ hrightBlock) hslot (.inl hepoch)
    (fun attempt => sampleVrf_separates _ _ hpool)
  exact ⟨v₁, v₂, hseries, hone, htwo, hv₁, hv₂, hsame⟩

end Author

end Chain
