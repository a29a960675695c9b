import Pyjamaz.Chain.Header
import Pyjamaz.Safrole.SealingSeries

/-!
# The consensus state over a chain

The slot, the entropy, the validator sets and the Safrole state of a chain, block by block.  Validators
enter the pending set of Safrole from the queue, and one epoch later the pool, from which they go to the
archive; the entropy moves on by one place at the same time.  A ticket is proved against the ring of the
pending set with the third entropy, and seals a block of the next epoch, where the author comes from the
pool and the entropy is the fourth: by then they are the same ring and the same entropy.  `Coherent` is
the invariant that says so.

The first transition of the entropy, before the header is checked, takes place without the output of
the seal; the second one repeats it with the output.  What the other components of the state contribute,
the offenders and the next validator queue, comes with the block.
-/

namespace Chain

open Octets Safrole

/-! ## Data -/

structure ConsensusState where
  timeslot : ℕ
  entropy : Vector Octets32 4
  validatorQueue : List ValidatorData
  validatorPool : List ValidatorData
  validatorArchive : List ValidatorData
  safrole : SafroleState

/-- A block, and what the other components make of it. -/
structure Block where
  header : Header
  extrinsicTickets : List TicketEnvelope
  /-- the offenders of the posterior disputes state -/
  offenders : List Octets32
  offendersMark : List Octets32
  /-- the posterior validator queue -/
  validatorQueue : List ValidatorData

/-- What raises. -/
inductive ChainError where
  | header (e : HeaderError)
  | safrole (e : SafroleError)
  deriving DecidableEq, Repr

/-- The constants of the chain and what comes from other packages. -/
structure Environment where
  config : Config
  primitives : Primitives
  vrf : BandersnatchVrf
  encodeUnsigned : UnsignedHeader → Octets

/-! ## The components -/

/-- The validators of the current epoch. -/
def ValidatorPool.stateTransition (cfg : Config) (timeslot preSlot : ℕ)
    (validatorPool : List ValidatorData) (safrole : SafroleState) : List ValidatorData :=
  if isEpochChange cfg preSlot timeslot then safrole.validators else validatorPool

/-- The validators of the epoch before. -/
def ValidatorArchive.stateTransition (cfg : Config) (timeslot preSlot : ℕ)
    (validatorArchive validatorPool : List ValidatorData) : List ValidatorData :=
  if isEpochChange cfg preSlot timeslot then validatorPool else validatorArchive

/-- `entropy_output` -/
def Entropy.entropyOutput (V : BandersnatchVrf) (authorKey : Option Octets32) (sealVrfOutput : Octets)
    (entropySource : Octets96) : Except HeaderError Octets :=
  match authorKey with
  | none => .ok (List.replicate 32 0)
  | some key =>
    if sealVrfOutput = zeros96.toList then .ok (List.replicate 32 0)
    else match V.verify key (jamEntropy ++ sealVrfOutput) [] entropySource with
      | none => .error .invalidEntropySource
      | some output => .ok output.toList

/-- The new accumulator, with the old values behind it, moved on where the epoch changes. -/
def Entropy.shift (epochChange : Bool) (eta0 : Octets32) (entropy : Vector Octets32 4) :
    Vector Octets32 4 :=
  if epochChange then #v[eta0, entropy.get zero, entropy.get one, entropy.get two]
  else #v[eta0, entropy.get one, entropy.get two, entropy.get three]

def Entropy.stateTransition (env : Environment) (timeslot preSlot : ℕ) (authorKey : Option Octets32)
    (sealVrfOutput : Octets) (entropySource : Octets96) (entropy : Vector Octets32 4) :
    Except HeaderError (Vector Octets32 4) := do
  let output ← entropyOutput env.vrf authorKey sealVrfOutput entropySource
  let eta0 := env.primitives.blake2b256Hash ((entropy.get Entropy.zero).toList ++ output)
  return shift (isEpochChange env.config preSlot timeslot) eta0 entropy

/-! ## One block -/

/-- The posterior components as the header is checked against them. -/
structure Intermediate where
  validatorPool : List ValidatorData
  validatorArchive : List ValidatorData
  authorKey : Octets32
  entropy : Vector Octets32 4
  safroleOutput : SafroleOutput

section Transition

variable (env : Environment) (b : Block) (s : ConsensusState)

/-- What the Safrole transition reads. -/
def safroleInput (validatorPool : List ValidatorData) (entropy : Vector Octets32 4) : BlockInput where
  timeslot := b.header.timeslot
  extrinsicTickets := b.extrinsicTickets
  validatorQueue := s.validatorQueue
  validatorPool := validatorPool
  offenders := b.offenders
  entropy1 := entropy.get Entropy.one
  entropy2 := entropy.get Entropy.two

/-- `state_transition` up to the check of the header. -/
def intermediate (sealVrfOutput : Octets) : Except ChainError Intermediate := do
  let validatorPool := ValidatorPool.stateTransition env.config b.header.timeslot s.timeslot
    s.validatorPool s.safrole
  let authorKey ← (setAuthorBandersnatchKey b.header validatorPool).mapError .header
  let entropy ← (Entropy.stateTransition env b.header.timeslot s.timeslot (some authorKey)
    sealVrfOutput b.header.entropySource s.entropy).mapError .header
  let validatorArchive := ValidatorArchive.stateTransition env.config b.header.timeslot s.timeslot
    s.validatorArchive s.validatorPool
  let safroleOutput ← (Safrole.stateTransition env.config env.primitives
    (safroleInput b s validatorPool entropy) s.timeslot s.safrole).mapError .safrole
  return ⟨validatorPool, validatorArchive, authorKey, entropy, safroleOutput⟩

/-- The state that is committed. -/
def committed (t : Intermediate) (entropy : Vector Octets32 4) : ConsensusState where
  timeslot := b.header.timeslot
  entropy := entropy
  validatorQueue := b.validatorQueue
  validatorPool := t.validatorPool
  validatorArchive := t.validatorArchive
  safrole := t.safroleOutput.postState

/-- `state_transition` of a block that is imported. -/
def stateTransition : Except ChainError ConsensusState := do
  let t ← intermediate env b s zeros96.toList
  let sealVrfOutput ← (validateHeaderAfterSafrole env.vrf env.encodeUnsigned env.config b.header
    t.entropy t.validatorPool t.safroleOutput b.offendersMark).mapError .header
  let entropy ← (Entropy.stateTransition env b.header.timeslot s.timeslot (some t.authorKey)
    sealVrfOutput.toList b.header.entropySource s.entropy).mapError .header
  return committed b t entropy

end Transition

/-- A block that was accepted, on the state it was accepted on. -/
structure Accepted where
  pre : ConsensusState
  block : Block
  post : ConsensusState

/-- A chain of accepted blocks from a state on, and where it leads. -/
inductive Run (env : Environment) (start : ConsensusState) : List Accepted → ConsensusState → Prop
  | start : Run env start [] start
  | block {chain : List Accepted} {pre post : ConsensusState} (hrun : Run env start chain pre)
      (b : Block) (hstep : stateTransition env b pre = .ok post) :
      Run env start (chain ++ [⟨pre, b, post⟩]) post

/-- `create_genesis_state` for a list of validators. -/
def genesis (cfg : Config) (first second third fourth : ValidatorData) (rest : List ValidatorData) :
    ConsensusState :=
  let validators := first :: second :: third :: fourth :: rest
  { timeslot := 0
    entropy := #v[first.ed25519, second.ed25519, third.ed25519, fourth.ed25519]
    validatorQueue := validators
    validatorPool := validators
    validatorArchive := validators
    safrole :=
      { validators := validators
        ringCommitment := List.replicate 144 0
        slotSealerSeries := .keys (List.replicate cfg.epochTimeslots first.bandersnatch)
        ticketAccumulator := [] } }

/-! ## What a transition does -/

section Spec

variable {env : Environment} {b : Block} {s s' : ConsensusState} {sealVrfOutput : Octets}

lemma Entropy.shift_true (eta0 : Octets32) (entropy : Vector Octets32 4) :
    (Entropy.shift true eta0 entropy).get Entropy.one = entropy.get Entropy.zero ∧
      (Entropy.shift true eta0 entropy).get Entropy.two = entropy.get Entropy.one ∧
      (Entropy.shift true eta0 entropy).get Entropy.three = entropy.get Entropy.two :=
  ⟨rfl, rfl, rfl⟩

lemma Entropy.shift_false (eta0 : Octets32) (entropy : Vector Octets32 4) :
    (Entropy.shift false eta0 entropy).get Entropy.one = entropy.get Entropy.one ∧
      (Entropy.shift false eta0 entropy).get Entropy.two = entropy.get Entropy.two ∧
      (Entropy.shift false eta0 entropy).get Entropy.three = entropy.get Entropy.three :=
  ⟨rfl, rfl, rfl⟩

/-- The old values do not depend on the new one. -/
lemma Entropy.shift_congr (epochChange : Bool) (eta0 eta0' : Octets32) (entropy : Vector Octets32 4) :
    (Entropy.shift epochChange eta0 entropy).get Entropy.one =
        (Entropy.shift epochChange eta0' entropy).get Entropy.one ∧
      (Entropy.shift epochChange eta0 entropy).get Entropy.two =
        (Entropy.shift epochChange eta0' entropy).get Entropy.two ∧
      (Entropy.shift epochChange eta0 entropy).get Entropy.three =
        (Entropy.shift epochChange eta0' entropy).get Entropy.three := by
  cases epochChange <;> exact ⟨rfl, rfl, rfl⟩

lemma Entropy.stateTransition_eq_ok {timeslot preSlot : ℕ} {authorKey : Option Octets32}
    {entropySource : Octets96} {entropy post : Vector Octets32 4}
    (h : Entropy.stateTransition env timeslot preSlot authorKey sealVrfOutput entropySource entropy =
      .ok post) :
    ∃ eta0, post = Entropy.shift (isEpochChange env.config preSlot timeslot) eta0 entropy := by
  rw [Entropy.stateTransition, Except.bind_eq_ok] at h
  obtain ⟨output, -, h⟩ := h
  cases h
  exact ⟨_, rfl⟩

/-- The parts of a transition, one by one. -/
lemma intermediate_eq_ok {t : Intermediate} (h : intermediate env b s sealVrfOutput = .ok t) :
    t.validatorPool = ValidatorPool.stateTransition env.config b.header.timeslot s.timeslot
        s.validatorPool s.safrole ∧
      t.validatorArchive = ValidatorArchive.stateTransition env.config b.header.timeslot s.timeslot
        s.validatorArchive s.validatorPool ∧
      setAuthorBandersnatchKey b.header t.validatorPool = .ok t.authorKey ∧
      (∃ eta0, t.entropy =
        Entropy.shift (isEpochChange env.config s.timeslot b.header.timeslot) eta0 s.entropy) ∧
      Safrole.stateTransition env.config env.primitives (safroleInput b s t.validatorPool t.entropy)
        s.timeslot s.safrole = .ok t.safroleOutput := by
  rw [intermediate, Except.bind_eq_ok] at h
  obtain ⟨authorKey, hauthor, h⟩ := h
  rw [Except.bind_eq_ok] at h
  obtain ⟨entropy, hentropy, h⟩ := h
  rw [Except.bind_eq_ok] at h
  obtain ⟨safroleOutput, hsafrole, h⟩ := h
  cases h
  exact ⟨rfl, rfl, Except.mapError_eq_ok.mp hauthor,
    Entropy.stateTransition_eq_ok (Except.mapError_eq_ok.mp hentropy),
    Except.mapError_eq_ok.mp hsafrole⟩

/-- The parts of an accepted block. -/
lemma stateTransition_parts (h : stateTransition env b s = .ok s') :
    ∃ t output entropy, intermediate env b s zeros96.toList = .ok t ∧
      validateHeaderAfterSafrole env.vrf env.encodeUnsigned env.config b.header t.entropy
        t.validatorPool t.safroleOutput b.offendersMark = .ok output ∧
      Entropy.stateTransition env b.header.timeslot s.timeslot (some t.authorKey) output.toList
        b.header.entropySource s.entropy = .ok entropy ∧
      s' = committed b t entropy := by
  rw [stateTransition, Except.bind_eq_ok] at h
  obtain ⟨t, ht, h⟩ := h
  rw [Except.bind_eq_ok] at h
  obtain ⟨output, houtput, h⟩ := h
  rw [Except.bind_eq_ok] at h
  obtain ⟨entropy, hentropy, h⟩ := h
  cases h
  exact ⟨t, output, entropy, ht, Except.mapError_eq_ok.mp houtput,
    Except.mapError_eq_ok.mp hentropy, rfl⟩

/-- The pool, the archive and the entropies after an accepted block. -/
lemma stateTransition_shift (h : stateTransition env b s = .ok s') :
    s'.validatorPool = ValidatorPool.stateTransition env.config b.header.timeslot s.timeslot
        s.validatorPool s.safrole ∧
      s'.validatorArchive = ValidatorArchive.stateTransition env.config b.header.timeslot s.timeslot
        s.validatorArchive s.validatorPool ∧
      ∃ eta0, s'.entropy =
        Entropy.shift (isEpochChange env.config s.timeslot b.header.timeslot) eta0 s.entropy := by
  obtain ⟨t, output, entropy, ht, -, hentropy, rfl⟩ := stateTransition_parts h
  obtain ⟨hpool, harchive, -, -, -⟩ := intermediate_eq_ok ht
  exact ⟨hpool, harchive, Entropy.stateTransition_eq_ok hentropy⟩

end Spec

section Safrole

variable {cfg : Config} {P : Primitives} {b : BlockInput} {preSlot : ℕ} {pre : SafroleState}
  {out : SafroleOutput}

/-- The Bandersnatch keys of a list of validators. -/
def ringKeys (validators : List ValidatorData) : List Octets32 :=
  validators.map ValidatorData.bandersnatch

/-- Within an epoch a block leaves the pending validators and the series as they are. -/
lemma safrole_same_epoch (h : Safrole.stateTransition cfg P b preSlot pre = .ok out)
    (hepoch : isEpochChange cfg preSlot b.timeslot = false) :
    out.postState.validators = pre.validators ∧
      out.postState.slotSealerSeries = pre.slotSealerSeries ∧ out.epochMark = none := by
  rw [Safrole.stateTransition] at h
  split at h
  · cases h
  rw [Except.bind_eq_ok] at h
  obtain ⟨⟨state, mark⟩, hstate, h⟩ := h
  rw [Except.bind_eq_ok] at h
  obtain ⟨tickets, -, h⟩ := h
  rw [Except.bind_eq_ok] at h
  obtain ⟨accumulator, -, h⟩ := h
  cases h
  rw [updateEpoch, hepoch, if_neg Bool.false_ne_true] at hstate
  cases hstate
  exact ⟨rfl, rfl, rfl⟩

/-- The first block of an epoch takes the validators from the queue, less the offenders. -/
lemma safrole_new_epoch (h : Safrole.stateTransition cfg P b preSlot pre = .ok out)
    (hepoch : isEpochChange cfg preSlot b.timeslot = true) :
    out.postState.validators = checkOffenders b.validatorQueue b.offenders ∧
      newSlotSealerSeries cfg P b preSlot pre = .ok out.postState.slotSealerSeries ∧
      out.epochMark = some ⟨b.entropy1, b.entropy2,
        out.postState.validators.map (fun v => (v.bandersnatch, v.ed25519))⟩ ∧
      validValidatorCount cfg out.postState.validators.length = true := by
  rw [Safrole.stateTransition] at h
  split at h
  · cases h
  rw [Except.bind_eq_ok] at h
  obtain ⟨⟨state, mark⟩, hstate, h⟩ := h
  rw [Except.bind_eq_ok] at h
  obtain ⟨tickets, -, h⟩ := h
  rw [Except.bind_eq_ok] at h
  obtain ⟨accumulator, -, h⟩ := h
  cases h
  rw [updateEpoch, if_pos hepoch] at hstate
  obtain ⟨⟨entered, epochMark⟩, henter, hstate⟩ := Except.map_eq_ok.mp hstate
  cases hstate
  rw [enterEpoch, Except.bind_eq_ok] at henter
  obtain ⟨series, hseries, henter⟩ := henter
  rw [Except.bind_eq_ok] at henter
  obtain ⟨ring, hring, henter⟩ := henter
  cases henter
  refine ⟨rfl, hseries, rfl, ?_⟩
  rw [jamRingContext] at hring
  split at hring
  · next hcount => rwa [List.length_map] at hcount
  · cases hring

/-- The series after a block depends on its slot, the pool and the third entropy, and not on the rest
of it. -/
lemma safrole_series_congr {b' : BlockInput} {out' : SafroleOutput}
    (h : Safrole.stateTransition cfg P b preSlot pre = .ok out)
    (h' : Safrole.stateTransition cfg P b' preSlot pre = .ok out')
    (hslot : b.timeslot = b'.timeslot) (hpool : b.validatorPool = b'.validatorPool)
    (hentropy : b.entropy2 = b'.entropy2) :
    out.postState.slotSealerSeries = out'.postState.slotSealerSeries := by
  cases hepoch : isEpochChange cfg preSlot b.timeslot with
  | true =>
    obtain ⟨-, hseries, -⟩ := safrole_new_epoch h hepoch
    obtain ⟨-, hseries', -⟩ := safrole_new_epoch h' (hslot ▸ hepoch)
    have hsame : newSlotSealerSeries cfg P b preSlot pre = newSlotSealerSeries cfg P b' preSlot pre := by
      rw [newSlotSealerSeries, newSlotSealerSeries, fallbackKeys, fallbackKeys, hslot, hpool, hentropy]
    rw [hseries, hseries'] at hsame
    exact Except.ok.inj hsame
  | false =>
    rw [(safrole_same_epoch h hepoch).2.1, (safrole_same_epoch h' (hslot ▸ hepoch)).2.1]

/-- The tickets of a block are verified against the pending validators that it leaves. -/
lemma ring_eq_ringKeys (h : Safrole.stateTransition cfg P b preSlot pre = .ok out) :
    b.ring cfg preSlot pre = ringKeys out.postState.validators := by
  rw [BlockInput.ring, ticketValidators, ringKeys]
  cases hepoch : isEpochChange cfg preSlot b.timeslot with
  | true => rw [if_pos rfl, (safrole_new_epoch h hepoch).1]
  | false => rw [if_neg Bool.false_ne_true, (safrole_same_epoch h hepoch).1]

/-- The fallback keys are keys of the pool, one for each slot. -/
lemma fallbackKeys_eq_ok {keys : List Octets32} (h : fallbackKeys cfg P b = .ok keys) :
    keys.length = cfg.epochTimeslots ∧ ∀ key ∈ keys, key ∈ ringKeys b.validatorPool := by
  rw [fallbackKeys] at h
  split at h
  · cases h
  next hpool =>
  cases h
  refine ⟨by rw [List.length_map, List.length_range], fun key hkey => ?_⟩
  obtain ⟨n, hn, rfl⟩ := List.mem_map.mp hkey
  have hlength : 0 < b.validatorPool.length := by
    have hepoch := List.mem_range.mp hn
    omega
  have hmem : ∀ i, i < b.validatorPool.length →
      (b.validatorPool.getD i .null).bandersnatch ∈ ringKeys b.validatorPool := by
    intro i hi
    rw [List.getD_eq_getElem?_getD, List.getElem?_eq_getElem hi, Option.getD_some]
    exact List.mem_map_of_mem (List.getElem_mem hi)
  dsimp only
  split
  · exact hmem 0 hlength
  · exact hmem _ (Nat.mod_lt _ hlength)

end Safrole

/-! ## A sample chain -/

/-- A key with one byte of its own. -/
def sampleKey (n : UInt8) : Octets32 := ⟨(n :: List.replicate 31 0).toArray, by rfl⟩

/-- A key with another last byte. -/
def withLast (key : Octets32) (byte : UInt8) : Octets32 :=
  ⟨(key.toList.take 31 ++ [byte]).toArray, by
    rw [List.size_toArray, List.length_append, List.length_take, Vector.length_toList]
    rfl⟩

lemma withLast_sampleKey_inj {n n' byte byte' : UInt8}
    (h : withLast (sampleKey n) byte = withLast (sampleKey n') byte') : n = n' ∧ byte = byte' := by
  have hlist : n :: (List.replicate 30 0 ++ [byte]) = n' :: (List.replicate 30 0 ++ [byte']) :=
    congrArg Vector.toList h
  obtain ⟨hfirst, hrest⟩ := List.cons.inj hlist
  exact ⟨hfirst, (List.cons.inj (List.append_cancel_left hrest)).1⟩

/-- The proof that shows a key. -/
def sampleProof (key : Octets32) : Octets96 :=
  ⟨(key.toList ++ List.replicate 64 0).toArray, by
    rw [List.size_toArray, List.length_append, Vector.length_toList, List.length_replicate]⟩

/-- A scheme in which the secret is the key and the proof shows it; the output takes its last byte from
the input. -/
def sampleVrf : BandersnatchVrf where
  publicKey sk := sk
  output sk x := withLast sk (x.getLastD 0)
  sign sk _ _ := sampleProof sk
  verify pk x _ proof :=
    if proof.toList = (sampleProof pk).toList then some (withLast pk (x.getLastD 0)) else none

/-- Two slots an epoch, the second one behind the end of the submission. -/
def sampleEnvironment : Environment where
  config := ⟨2, 1, 3, 2, false⟩
  primitives :=
    { commitment := fun _ => []
      ringVrfVerify := fun ring x proof =>
        (ring.find? (fun key => key.toList = proof)).map
          (fun key => ticketId (withLast key (x.getLastD 0)))
      blake2b256Hash := fun _ => Vector.replicate 32 0 }
  vrf := sampleVrf
  encodeUnsigned _ := []

def sampleValidator (n : UInt8) : ValidatorData := ⟨sampleKey n, sampleKey n, [], []⟩

def sampleGenesis : ConsensusState :=
  genesis sampleEnvironment.config (sampleValidator 1) (sampleValidator 2) (sampleValidator 3)
    (sampleValidator 4) [sampleValidator 5, sampleValidator 6]

/-- A block of the first validator. -/
def sampleBlock (timeslot : ℕ) (epochMarker : Option EpochMark)
    (ticketsMarker : Option (List TicketBody)) (extrinsicTickets : List TicketEnvelope) : Block where
  header := { Header.default with
    timeslot := timeslot
    epochMarker := epochMarker
    ticketsMarker := ticketsMarker
    entropySource := sampleVrf.sign (sampleKey 1) [] []
    sealSignature := sampleVrf.sign (sampleKey 1) [] [] }
  extrinsicTickets := extrinsicTickets
  offenders := []
  offendersMark := []
  validatorQueue := sampleGenesis.validatorQueue

/-- The mark of the first epoch. -/
def sampleMark : EpochMark where
  entropy := sampleKey 1
  ticketsEntropy := sampleKey 2
  validators := sampleGenesis.validatorQueue.map (fun v => (v.bandersnatch, v.ed25519))

/-- The first block of an epoch, with tickets of two validators. -/
def sampleOpening : Block :=
  sampleBlock 2 (some sampleMark) none [⟨0, (sampleKey 1).toList⟩, ⟨0, (sampleKey 2).toList⟩]

/-- The tickets of these validators, as they are marked and become the series. -/
def sampleTickets : List TicketBody :=
  [⟨ticketId (sampleKey 1), 0⟩, ⟨ticketId (sampleKey 2), 0⟩]

/-- The second block of the epoch. -/
def sampleClosing : Block := sampleBlock 3 none (some sampleTickets) []

lemma sampleEnvironment_complete : sampleEnvironment.vrf.Complete := by
  intro sk x m
  simp only [sampleEnvironment, sampleVrf, if_true]

lemma sampleEnvironment_unique : sampleEnvironment.vrf.Unique := by
  intro pk x m m' π π' y y' h h'
  simp only [sampleEnvironment, sampleVrf] at h h'
  split at h
  · split at h'
    · rw [← Option.some.inj h, Option.some.inj h']
    · cases h'
  · cases h

lemma sampleEnvironment_ringSound :
    sampleEnvironment.vrf.RingSound ticketId sampleEnvironment.primitives.ringVrfVerify := by
  intro ring x π id h
  simp only [sampleEnvironment] at h
  obtain ⟨key, hkey, hid⟩ := Option.map_eq_some_iff.mp h
  exact ⟨key, List.mem_of_find?_eq_some hkey, hid⟩

/-- The first block of the next epoch. -/
def sampleNext : Block :=
  sampleBlock 4 (some ⟨Vector.replicate 32 0, sampleKey 1, sampleMark.validators⟩) none []

/-- The state after a block that is accepted. -/
def samplePost (env : Environment) (b : Block) (s : ConsensusState) : ConsensusState :=
  match stateTransition env b s with
  | .ok post => post
  | .error _ => s

lemma samplePost_eq_ok (env : Environment) (b : Block) (s : ConsensusState)
    (h : (stateTransition env b s).isOk = true) : stateTransition env b s = .ok (samplePost env b s) := by
  rw [samplePost]
  cases hstep : stateTransition env b s with
  | ok post => rfl
  | error e =>
    rw [hstep] at h
    cases h

def sampleOpened : ConsensusState := samplePost sampleEnvironment sampleOpening sampleGenesis

def sampleClosed : ConsensusState := samplePost sampleEnvironment sampleClosing sampleOpened

/-- Both blocks are accepted. -/
lemma sampleChain_run : Run sampleEnvironment sampleGenesis
    [⟨sampleGenesis, sampleOpening, sampleOpened⟩, ⟨sampleOpened, sampleClosing, sampleClosed⟩]
    sampleClosed := by
  have hopened : stateTransition sampleEnvironment sampleOpening sampleGenesis = .ok sampleOpened := rfl
  have hclosed : stateTransition sampleEnvironment sampleClosing sampleOpened = .ok sampleClosed := rfl
  exact (Run.start.block sampleOpening hopened).block sampleClosing hclosed

/-! ## A sample fork -/

/-- Four slots an epoch; the hash function takes in an octet of the entropy and one of the output. -/
def forkEnvironment : Environment := { sampleEnvironment with
  config := ⟨4, 3, 4, 2, false⟩
  primitives := { sampleEnvironment.primitives with
    blake2b256Hash := fun message => sampleKey (message.getD 0 0 + message.getD 32 0) } }

def forkGenesis : ConsensusState :=
  genesis forkEnvironment.config (sampleValidator 1) (sampleValidator 2) (sampleValidator 3)
    (sampleValidator 4) [sampleValidator 5, sampleValidator 6]

/-- A block of a validator with tickets of others, marked as the transition asks.  The sixth validator
is an offender. -/
def forkBlock (timeslot authorIndex : ℕ) (tickets : List UInt8) (s : ConsensusState) : Block :=
  let key := sampleKey (UInt8.ofNat (authorIndex + 1))
  let b := sampleBlock timeslot none none (tickets.map (fun n => ⟨0, (sampleKey n).toList⟩))
  let header := { b.header with
    authorIndex := authorIndex
    entropySource := sampleVrf.sign key [] []
    sealSignature := sampleVrf.sign key [] [] }
  let b := { b with header := header, offenders := [sampleKey 6] }
  match intermediate forkEnvironment b s zeros96.toList with
  | .ok t => { b with header := { header with
      epochMarker := t.safroleOutput.epochMark
      ticketsMarker := t.safroleOutput.ticketsMark } }
  | .error _ => b

/-- The last state of the first epoch, for whose slots the tickets of four validators were submitted. -/
def forkClosed : ConsensusState :=
  let opened := samplePost forkEnvironment (forkBlock 4 2 [1, 2, 3, 4] forkGenesis) forkGenesis
  samplePost forkEnvironment (forkBlock 7 5 [] opened) opened

/-- The first block of the next epoch, in which the offender has left the pool. -/
def forkNext : Block := forkBlock 8 0 [] forkClosed

/-- The state in which the chain forks. -/
def forkBase : ConsensusState := samplePost forkEnvironment forkNext forkClosed

/-- A branch whose first block has one ticket. -/
def forkLeft : ConsensusState := samplePost forkEnvironment (forkBlock 9 3 [1] forkBase) forkBase

/-- A branch whose first block has two tickets. -/
def forkRight : ConsensusState := samplePost forkEnvironment (forkBlock 9 3 [2, 3] forkBase) forkBase

/-- The next block of the one branch. -/
def forkLeftBlock : Block := forkBlock 10 1 [4] forkLeft

/-- The next block of the other branch. -/
def forkRightBlock : Block := forkBlock 10 1 [] forkRight

end Chain
