import Pyjamaz.Chain.SealingKeys

/-!
# What the headers announce

The first block of an epoch puts the validators that become active with the next one into its header,
together with two entropies, and a later block of the epoch the winning tickets, if there are enough.
These marks are all that is needed to check the seals of the next epoch: the pool, the entropy of the
seals and the series of slots can be read off the headers alone (`headers_determine_sealing`), without
the tickets, the validator queue and the disputes from which the node computes them.
-/

namespace Chain

open Octets Safrole

/-! ## The marks of a chain -/

/-- The epoch marks of a chain, the first one first. -/
def epochMarks (chain : List Accepted) : List EpochMark :=
  chain.filterMap (fun a => a.block.header.epochMarker)

/-- The tickets marks in the headers of an epoch. -/
def ticketsMarks (cfg : Config) (epoch : ℕ) (chain : List Accepted) : List (List TicketBody) :=
  chain.filterMap (fun a =>
    if epochNumber cfg a.block.header.timeslot = epoch then a.block.header.ticketsMarker else none)

/-- The fallback keys, from an epoch mark. -/
def announcedKeys (cfg : Config) (P : Primitives) (mark : EpochMark) : List Octets32 :=
  (List.range cfg.epochTimeslots).map (fun n =>
    let blakeHash := P.blake2b256Hash (mark.entropy.toList ++ littleEndian 4 n)
    let validatorIdx := ofLittleEndian (blakeHash.toList.take 4) % mark.validators.length
    let validatorIdx := if cfg.soloMode then 0 else validatorIdx
    ((mark.validators.map Prod.fst)[validatorIdx]?).getD ValidatorData.null.bandersnatch)

/-- The series of an epoch, from the marks of the one before. -/
def announcedSeries (cfg : Config) (P : Primitives) (mark : EpochMark)
    (tickets : List (List TicketBody)) (next : Prop) [Decidable next] : SlotSealerSeries :=
  match tickets with
  | [] => .keys (announcedKeys cfg P mark)
  | tickets :: _ => if next then .tickets tickets else .keys (announcedKeys cfg P mark)

/-- The keys of a validator that a mark shows. -/
def markKeys (validators : List ValidatorData) : List (Octets32 × Octets32) :=
  validators.map (fun v => (v.bandersnatch, v.ed25519))

/-- The state of an epoch is what its mark says. -/
structure Announced (mark : EpochMark) (s : ConsensusState) : Prop where
  validators : markKeys s.safrole.validators = mark.validators
  entropy : s.entropy.get Entropy.one = mark.entropy
  ticketsEntropy : s.entropy.get Entropy.two = mark.ticketsEntropy

section Chain

variable {env : Environment} {b : Block} {s s' : ConsensusState}

/-! ## One block -/

/-- The markers of an accepted header are those of the transition. -/
lemma markers_of_validate {h : Header} {entropy : Vector Octets32 4} {pool : List ValidatorData}
    {out : SafroleOutput} {offendersMark : List Octets32} {output : Octets32}
    (hok : validateHeaderAfterSafrole env.vrf env.encodeUnsigned env.config h entropy pool out
      offendersMark = .ok output) : MarkersOf h out offendersMark := by
  rw [validateHeaderAfterSafrole, Except.bind_eq_ok] at hok
  obtain ⟨_, hmarkers, -⟩ := hok
  unfold validateMarkers at hmarkers
  split at hmarkers
  · cases hmarkers
  next htickets =>
  split at hmarkers
  · cases hmarkers
  split at hmarkers
  · cases hmarkers
  next hepoch =>
  split at hmarkers
  · cases hmarkers
  next hoffenders =>
  exact ⟨not_not.mp htickets, not_not.mp hepoch, not_not.mp hoffenders⟩

/-- The step of Safrole in an accepted block. -/
def Accepted.safroleStep (a : Accepted) : Safrole.Step where
  preSlot := a.pre.timeslot
  preState := a.pre.safrole
  input := safroleInput a.block a.pre a.post.validatorPool a.post.entropy
  output := ⟨a.post.safrole, a.block.header.epochMarker, a.block.header.ticketsMarker⟩

/-- An accepted block is an accepted step of Safrole, with the marks of the header. -/
lemma safrole_of_stateTransition (h : stateTransition env b s = .ok s') :
    Safrole.stateTransition env.config env.primitives
      (safroleInput b s s'.validatorPool s'.entropy) s.timeslot s.safrole =
        .ok ⟨s'.safrole, b.header.epochMarker, b.header.ticketsMarker⟩ := by
  obtain ⟨t, output, entropy, ht, hvalidate, hentropy, rfl⟩ := stateTransition_parts h
  obtain ⟨hone, htwo, -⟩ := entropy_of_stateTransition ht hentropy
  obtain ⟨-, -, -, -, hsafrole⟩ := intermediate_eq_ok ht
  have hmarkers := markers_of_validate hvalidate
  have hinput : safroleInput b s (committed b t entropy).validatorPool
      (committed b t entropy).entropy = safroleInput b s t.validatorPool t.entropy := by
    rw [committed, safroleInput, safroleInput, hone, htwo]
  rw [hinput, hsafrole, hmarkers.epoch, hmarkers.tickets]
  rfl

/-- The first block of an epoch announces what its state is. -/
lemma announced_of_new_epoch (h : stateTransition env b s = .ok s')
    (hepoch : isEpochChange env.config s.timeslot b.header.timeslot = true) :
    ∃ mark, b.header.epochMarker = some mark ∧ Announced mark s' := by
  obtain ⟨-, -, hmark, -⟩ := safrole_new_epoch (safrole_of_stateTransition h) hepoch
  exact ⟨_, hmark, rfl, rfl, rfl⟩

/-- A block within an epoch announces nothing and leaves the state of the epoch. -/
lemma announced_of_same_epoch (h : stateTransition env b s = .ok s')
    (hepoch : isEpochChange env.config s.timeslot b.header.timeslot = false) :
    b.header.epochMarker = none ∧ ∀ mark, Announced mark s → Announced mark s' := by
  obtain ⟨hvalidators, -, hnone⟩ := safrole_same_epoch (safrole_of_stateTransition h) hepoch
  obtain ⟨-, -, eta0, hentropy⟩ := stateTransition_shift h
  rw [hepoch] at hentropy
  refine ⟨hnone, fun mark hs => ⟨?_, ?_, ?_⟩⟩
  · rw [show s'.safrole.validators = s.safrole.validators from hvalidators]
    exact hs.validators
  · rw [hentropy, (Entropy.shift_false eta0 s.entropy).1]
    exact hs.entropy
  · rw [hentropy, (Entropy.shift_false eta0 s.entropy).2.1]
    exact hs.ticketsEntropy

/-! ## A chain -/

lemma epochMarks_append (chain : List Accepted) (a : Accepted) :
    epochMarks (chain ++ [a]) = epochMarks chain ++ a.block.header.epochMarker.toList := by
  rw [epochMarks, List.filterMap_append, ← epochMarks]
  cases hmark : a.block.header.epochMarker <;> simp [hmark]

/-- The last epoch mark of a chain says what the state of the epoch is. -/
lemma Run.announced {start : ConsensusState} {chain : List Accepted} (hrun : Run env start chain s)
    {mark : EpochMark} (hmark : (epochMarks chain).getLast? = some mark) : Announced mark s := by
  induction hrun with
  | start => cases hmark
  | @block chain pre post hrun b hstep ih =>
    rw [epochMarks_append] at hmark
    dsimp only at hmark
    cases hepoch : isEpochChange env.config pre.timeslot b.header.timeslot with
    | true =>
      obtain ⟨mark', hmark', hannounced⟩ := announced_of_new_epoch hstep hepoch
      rw [hmark', Option.toList_some, List.getLast?_concat] at hmark
      obtain rfl := Option.some.inj hmark
      exact hannounced
    | false =>
      obtain ⟨hnone, hkept⟩ := announced_of_same_epoch hstep hepoch
      rw [hnone, Option.toList_none, List.append_nil] at hmark
      exact hkept mark (ih hmark)

/-- A chain is a run of Safrole. -/
lemma Run.safroleSteps {start : ConsensusState} {chain : List Accepted}
    (hrun : Run env start chain s) :
    Safrole.Steps env.config env.primitives start.timeslot start.safrole
      (chain.map Accepted.safroleStep) s.timeslot s.safrole := by
  induction hrun with
  | start => exact .start
  | @block chain pre post hrun b hstep ih =>
    rw [List.map_append, List.map_singleton, (stateTransition_slot hstep).2]
    exact ih.block _ _ (safrole_of_stateTransition hstep)

lemma marksIn_safroleSteps (cfg : Config) (epoch : ℕ) (chain : List Accepted) :
    marksIn cfg epoch (chain.map Accepted.safroleStep) = ticketsMarks cfg epoch chain := by
  rw [marksIn, ticketsMarks, List.filterMap_map]
  rfl

/-- The fallback keys of a pool are those that its mark announces. -/
lemma fallbackKeys_eq_announced {input : BlockInput} {keys : List Octets32} {mark : EpochMark}
    (h : fallbackKeys env.config env.primitives input = .ok keys)
    (hpool : markKeys input.validatorPool = mark.validators) (hentropy : input.entropy2 = mark.entropy) :
    keys = announcedKeys env.config env.primitives mark := by
  have hlength : mark.validators.length = input.validatorPool.length := by
    rw [← hpool, markKeys, List.length_map]
  have hfirst : mark.validators.map Prod.fst = input.validatorPool.map ValidatorData.bandersnatch := by
    rw [← hpool, markKeys, List.map_map]
    rfl
  rw [fallbackKeys] at h
  split at h
  · cases h
  cases h
  rw [announcedKeys, hlength, hfirst, hentropy]
  refine List.map_congr_left fun n _ => ?_
  dsimp only
  rw [List.getElem?_map, List.getD_eq_getElem?_getD]
  exact (Option.getD_map _ _ _).symm

/-- The headers of a chain determine how the seals of the next epoch are checked: the keys of the pool
and the entropies are those of the last epoch mark, and the series is that of the tickets mark of the
epoch, where there is one and no epoch is left out, and otherwise of the fallback keys that follow from
the epoch mark. -/
theorem headers_determine_sealing {start : ConsensusState} (hpos : 0 < env.config.epochTimeslots)
    (hstart : Fresh env.config start.timeslot start.safrole) {chain : List Accepted}
    (hrun : Run env start chain s) {mark : EpochMark}
    (hmark : (epochMarks chain).getLast? = some mark) (hstep : stateTransition env b s = .ok s')
    (hepoch : isEpochChange env.config s.timeslot b.header.timeslot = true) :
    markKeys s'.validatorPool = mark.validators ∧
      s'.entropy.get Entropy.two = mark.entropy ∧
      s'.entropy.get Entropy.three = mark.ticketsEntropy ∧
      s'.safrole.slotSealerSeries = announcedSeries env.config env.primitives mark
        (ticketsMarks env.config (epochNumber env.config s.timeslot) chain)
        (epochNumber env.config b.header.timeslot = epochNumber env.config s.timeslot + 1) := by
  have hannounced := hrun.announced hmark
  have hcrossed := hrun.safroleSteps.crossed hpos hstart
  obtain ⟨hslot, -⟩ := stateTransition_slot hstep
  obtain ⟨hpool, -, eta0, hentropy⟩ := stateTransition_shift hstep
  rw [hepoch] at hentropy
  rw [ValidatorPool.stateTransition, if_pos hepoch] at hpool
  obtain ⟨-, htwo, hthree⟩ := Entropy.shift_true eta0 s.entropy
  rw [← hentropy] at htwo hthree
  have hpool' : markKeys s'.validatorPool = mark.validators := by
    rw [hpool]
    exact hannounced.validators
  have htwo' : s'.entropy.get Entropy.two = mark.entropy := htwo.trans hannounced.entropy
  refine ⟨hpool', htwo', hthree.trans hannounced.ticketsEntropy, ?_⟩
  -- the series is decided by the phase and the accumulator, and these by the marks
  have hiff := enactFallbackMethod_eq_false hcrossed hslot (isEpochChange_eq_true.mp hepoch)
  rw [marksIn_safroleSteps] at hiff
  obtain ⟨-, hseries, -⟩ := safrole_new_epoch (safrole_of_stateTransition hstep) hepoch
  rw [newSlotSealerSeries] at hseries
  split at hseries
  · next hfallback =>
    obtain ⟨keys, hkeys, hseries⟩ := Except.map_eq_ok.mp hseries
    obtain rfl := fallbackKeys_eq_announced hkeys hpool' htwo'
    rw [← show SlotSealerSeries.keys _ = s'.safrole.slotSealerSeries from hseries]
    unfold announcedSeries
    split
    · rfl
    · next tickets rest hmarks =>
      rw [if_neg]
      intro hnext
      have hfalse := hiff.mpr ⟨by rw [hmarks]; exact List.cons_ne_nil _ _, hnext⟩
      rw [show enactFallbackMethod _ _ _ b.header.timeslot = true from hfallback] at hfalse
      cases hfalse
  · next hfallback =>
    have hseries' := (Except.ok.inj hseries).symm
    obtain ⟨hmarks, hnext⟩ := hiff.mp (Bool.eq_false_iff.mpr hfallback)
    have hphase : env.config.ticketSubmissionEndSlot ≤ slotPhaseIndex env.config s.timeslot := by
      by_contra hphase
      refine hmarks ?_
      rw [← marksIn_safroleSteps]
      exact hcrossed.before (not_le.mp hphase)
    have hbehind := hcrossed.behind hphase
    rw [marksIn_safroleSteps] at hbehind
    split at hbehind
    · rw [hbehind, announcedSeries, if_pos hnext]
      exact hseries'
    · exact absurd hbehind hmarks

set_option maxRecDepth 4000 in
/-- The marks of the sample chain announce the pool and the series of its second epoch. -/
theorem sampleNext_announced : ∃ s, stateTransition sampleEnvironment sampleNext sampleClosed = .ok s ∧
    markKeys s.validatorPool = sampleMark.validators ∧
    s.safrole.slotSealerSeries = .tickets sampleTickets := by
  obtain ⟨s, hstep⟩ : ∃ s, stateTransition sampleEnvironment sampleNext sampleClosed = .ok s := ⟨_, rfl⟩
  have hstart : Fresh sampleEnvironment.config sampleGenesis.timeslot sampleGenesis.safrole :=
    .of_empty (by decide) 0 rfl
  obtain ⟨hpool, -, -, hseries⟩ :=
    headers_determine_sealing (by decide) hstart sampleChain_run rfl hstep rfl
  exact ⟨s, hstep, hpool, hseries⟩

end Chain

end Chain
