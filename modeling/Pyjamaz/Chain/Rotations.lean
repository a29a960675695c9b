import Pyjamaz.Assurances.Guarantors
import Pyjamaz.Chain.SealingKeys

/-!
# Guarantors over a chain

A block assigns the validators to the cores twice: for its own rotation, by the third entropy and the
pool, and for the rotation before.  Where that one lies in the epoch before, the second assignment goes
by the fourth entropy and the archive.  `rotation_handover` says that this is right: on every chain, the
assignment for the rotation before is the one that the blocks of that rotation made for themselves, so
that a guarantee is judged by the same assignment in its rotation and in the next one.
-/

namespace Chain

open Octets Safrole
open Assurances (AssignmentState Constants setGuarantorAssignments setPrevGuarantorAssignments
  guarantorPermute rotationOffset)

/-- The parts of a posterior state that the assignments read. -/
def ConsensusState.assignmentState (s : ConsensusState) : AssignmentState Octets32 where
  entropy := s.entropy.map Vector.toList
  timeslot := s.timeslot
  validatorPool := s.validatorPool.map ValidatorData.ed25519
  validatorArchive := s.validatorArchive.map ValidatorData.ed25519

/-! ## One epoch later -/

section Epochs

variable {env : Environment}

/-- The pool and its entropy, from the epoch of a state on: they stay for the epoch, and in the next
one they are in the archive and in the last place. -/
structure HandsOver (env : Environment) (start s : ConsensusState) : Prop where
  same : epochNumber env.config s.timeslot = epochNumber env.config start.timeslot →
    s.validatorPool = start.validatorPool ∧
      s.entropy.get Entropy.two = start.entropy.get Entropy.two
  next : epochNumber env.config s.timeslot = epochNumber env.config start.timeslot + 1 →
    s.validatorArchive = start.validatorPool ∧
      s.entropy.get Entropy.three = start.entropy.get Entropy.two

/-- A block hands over what the state before it has. -/
lemma HandsOver.block {b : Block} {start s s' : ConsensusState}
    (hle : epochNumber env.config start.timeslot ≤ epochNumber env.config s.timeslot)
    (hs : HandsOver env start s) (h : stateTransition env b s = .ok s') : HandsOver env start s' := by
  obtain ⟨hpool, harchive, eta0, hentropy⟩ := stateTransition_shift h
  obtain ⟨hlt, hslot⟩ := stateTransition_slot h
  have hmono : epochNumber env.config s.timeslot ≤ epochNumber env.config s'.timeslot := by
    rw [hslot]
    exact Nat.div_le_div_right hlt.le
  rw [ValidatorPool.stateTransition] at hpool
  rw [ValidatorArchive.stateTransition] at harchive
  cases hepoch : isEpochChange env.config s.timeslot b.header.timeslot with
  | false =>
    have heq : epochNumber env.config s.timeslot = epochNumber env.config s'.timeslot := by
      rw [hslot]
      exact isEpochChange_eq_false.mp hepoch
    rw [hepoch, if_neg Bool.false_ne_true] at hpool harchive
    rw [hepoch] at hentropy
    obtain ⟨-, htwo, hthree⟩ := Entropy.shift_false eta0 s.entropy
    rw [← hentropy] at htwo hthree
    constructor
    · intro hsame
      rw [hpool, htwo]
      exact hs.same (heq.trans hsame)
    · intro hnext
      rw [harchive, hthree]
      exact hs.next (heq.trans hnext)
  | true =>
    have hne : epochNumber env.config s.timeslot ≠ epochNumber env.config s'.timeslot := by
      rw [hslot]
      exact isEpochChange_eq_true.mp hepoch
    rw [hepoch, if_pos rfl] at hpool harchive
    rw [hepoch] at hentropy
    obtain ⟨-, -, hthree⟩ := Entropy.shift_true eta0 s.entropy
    rw [← hentropy] at hthree
    constructor
    · intro hsame
      omega
    · intro hnext
      rw [harchive, hthree]
      exact hs.same (by omega)

lemma Run.handsOver {start s : ConsensusState} {chain : List Accepted}
    (hrun : Run env start chain s) : HandsOver env start s := by
  induction hrun with
  | start => exact ⟨fun _ => ⟨rfl, rfl⟩, fun h => absurd h (by omega)⟩
  | block hrun b hstep ih => exact ih.block (Nat.div_le_div_right hrun.slot_le) hstep

end Epochs

/-! ## Rotations -/

section Rotations

variable {constants : Constants}

/-- The offset of a rotation within its epoch. -/
lemma rotationOffset_natCast (n : ℕ) :
    rotationOffset constants (n : ℤ) =
      n % constants.epochTimeslots / constants.rotationPeriodCore := by
  rw [rotationOffset, ← Int.natCast_mod, ← Int.natCast_div, Int.toNat_natCast]

/-- Slots of one rotation have one offset and one epoch, where epochs consist of whole rotations. -/
lemma rotation_congr (hdvd : constants.rotationPeriodCore ∣ constants.epochTimeslots) {n m : ℕ}
    (h : n / constants.rotationPeriodCore = m / constants.rotationPeriodCore) :
    rotationOffset constants (n : ℤ) = rotationOffset constants (m : ℤ) ∧
      n / constants.epochTimeslots = m / constants.epochTimeslots := by
  obtain ⟨k, hk⟩ := hdvd
  rw [rotationOffset_natCast, rotationOffset_natCast, hk, Nat.mod_mul_right_div_self,
    Nat.mod_mul_right_div_self, ← Nat.div_div_eq_div_mul, ← Nat.div_div_eq_div_mul, h]
  exact ⟨rfl, rfl⟩

lemma guarantorPermute_congr {hash : Octets → Octets32} {entropy : Octets} {n m : ℤ} {count : ℕ}
    (h : rotationOffset constants n = rotationOffset constants m) :
    guarantorPermute constants hash entropy n count =
      guarantorPermute constants hash entropy m count := by
  rw [guarantorPermute, guarantorPermute, h]

end Rotations

lemma assignmentState_entropy (s : ConsensusState) :
    s.assignmentState.entropy.get 2 = (s.entropy.get Entropy.two).toList ∧
      s.assignmentState.entropy.get 3 = (s.entropy.get Entropy.three).toList := by
  constructor <;> exact Vector.getElem_map ..

/-- The epoch that the rotation before belongs to. -/
lemma sameEpoch_iff {constants : Constants} {state : AssignmentState Octets32}
    (h : constants.rotationPeriodCore ≤ state.timeslot) :
    state.sameEpoch constants ↔
      (state.timeslot - constants.rotationPeriodCore) / constants.epochTimeslots =
        state.timeslot / constants.epochTimeslots := by
  rw [AssignmentState.sameEpoch, ← Nat.cast_sub h, ← Int.natCast_div, ← Int.natCast_div, Nat.cast_inj]

/-- Between two states of a chain: where both are in one rotation, their blocks assign the validators
alike, and where the later one is in the next rotation, its assignment for the rotation before is the
assignment of the earlier one. -/
theorem rotation_handover {env : Environment} {constants : Constants}
    (hconstants : constants.epochTimeslots = env.config.epochTimeslots)
    (hpos : 0 < constants.epochTimeslots)
    (hdvd : constants.rotationPeriodCore ∣ constants.epochTimeslots) {s s' : ConsensusState}
    {chain : List Accepted} (hrun : Run env s chain s') :
    (s.timeslot / constants.rotationPeriodCore = s'.timeslot / constants.rotationPeriodCore →
      setGuarantorAssignments constants env.primitives.blake2b256Hash s'.assignmentState =
        setGuarantorAssignments constants env.primitives.blake2b256Hash s.assignmentState) ∧
    (s.timeslot / constants.rotationPeriodCore + 1 = s'.timeslot / constants.rotationPeriodCore →
      setPrevGuarantorAssignments constants env.primitives.blake2b256Hash s'.assignmentState =
        setGuarantorAssignments constants env.primitives.blake2b256Hash s.assignmentState) := by
  have hrotation := constants.rotationPeriodCore_pos
  have hover := hrun.handsOver
  obtain ⟨htwo, -⟩ := assignmentState_entropy s
  obtain ⟨htwo', hthree'⟩ := assignmentState_entropy s'
  constructor
  · intro hsame
    obtain ⟨hoffset, hepoch⟩ := rotation_congr hdvd hsame
    rw [hconstants] at hepoch
    obtain ⟨hpool, hentropy⟩ := hover.same hepoch.symm
    have hpool' : s'.assignmentState.validatorPool = s.assignmentState.validatorPool := by
      rw [ConsensusState.assignmentState, ConsensusState.assignmentState, hpool]
    rw [setGuarantorAssignments, setGuarantorAssignments, hpool', htwo, htwo', hentropy,
      guarantorPermute_congr (show rotationOffset constants (s'.assignmentState.timeslot : ℤ) =
        rotationOffset constants (s.assignmentState.timeslot : ℤ) from hoffset.symm)]
  · intro hnext
    -- the slot that the later block looks back to is in the rotation of the earlier one
    have hle : constants.rotationPeriodCore ≤ s'.timeslot := by
      by_contra hlt
      rw [Nat.div_eq_of_lt (not_le.mp hlt)] at hnext
      exact absurd hnext (Nat.succ_ne_zero _)
    have hback : (s'.timeslot - constants.rotationPeriodCore) / constants.rotationPeriodCore =
        s.timeslot / constants.rotationPeriodCore := by
      rw [Nat.div_eq_sub_div hrotation hle] at hnext
      exact (Nat.succ_injective hnext).symm
    obtain ⟨hoffset, hepoch⟩ := rotation_congr hdvd hback
    have hprev : s'.assignmentState.prev constants =
        (s.assignmentState.entropy.get 2, s.assignmentState.validatorPool) := by
      rw [AssignmentState.prev]
      by_cases hsame : s'.assignmentState.sameEpoch constants
      · have hepochs := (sameEpoch_iff hle).mp hsame
        rw [show s'.assignmentState.timeslot = s'.timeslot from rfl, hepoch, hconstants] at hepochs
        obtain ⟨hpool, hentropy⟩ := hover.same hepochs.symm
        rw [if_pos hsame, htwo, htwo', hentropy]
        simp only [ConsensusState.assignmentState, hpool]
      · have hne := (not_congr (sameEpoch_iff hle)).mp hsame
        rw [show s'.assignmentState.timeslot = s'.timeslot from rfl, hepoch] at hne
        -- an epoch has at least one rotation, so it is the epoch before
        have hnear : s'.timeslot / constants.epochTimeslots =
            s.timeslot / constants.epochTimeslots + 1 := by
          obtain ⟨k, hk⟩ := hdvd
          have hkpos : 0 < k := by
            rcases Nat.eq_zero_or_pos k with rfl | hkpos
            · rw [hk, Nat.mul_zero] at hpos
              exact absurd hpos (lt_irrefl 0)
            · exact hkpos
          rw [hk, ← Nat.div_div_eq_div_mul, ← Nat.div_div_eq_div_mul, ← hnext] at hne ⊢
          rw [Nat.succ_div] at hne ⊢
          split at hne
          · next hdvd => rw [if_pos hdvd]
          · exact absurd rfl hne
        rw [hconstants] at hnear
        obtain ⟨harchive, hentropy⟩ := hover.next hnear
        rw [if_neg hsame, htwo, hthree', hentropy]
        simp only [ConsensusState.assignmentState, harchive]
    have hoffset' : rotationOffset constants
        ((s'.assignmentState.timeslot : ℤ) - constants.rotationPeriodCore) =
          rotationOffset constants (s.assignmentState.timeslot : ℤ) := by
      rw [← Nat.cast_sub (show constants.rotationPeriodCore ≤ s'.assignmentState.timeslot from hle)]
      exact hoffset
    rw [setPrevGuarantorAssignments, setGuarantorAssignments, hprev, guarantorPermute_congr hoffset']

lemma forkConstants_coreCount_le : 2 ≤ 341 := by decide

/-- Two cores, four slots an epoch and two slots a rotation. -/
def forkConstants : Constants := ⟨2, 4, 2, Nat.two_pos, forkConstants_coreCount_le⟩

/-- The first block of an epoch, whose pool is another one, looks back to the last rotation of the epoch
before. -/
theorem forkBase_handover :
    forkBase.validatorPool ≠ forkClosed.validatorPool ∧
      (setGuarantorAssignments forkConstants forkEnvironment.primitives.blake2b256Hash
        forkClosed.assignmentState).isOk = true ∧
      setPrevGuarantorAssignments forkConstants forkEnvironment.primitives.blake2b256Hash
          forkBase.assignmentState =
        setGuarantorAssignments forkConstants forkEnvironment.primitives.blake2b256Hash
          forkClosed.assignmentState := by
  have hfacts : (stateTransition forkEnvironment forkNext forkClosed).isOk = true ∧
      forkBase.validatorPool ≠ forkClosed.validatorPool ∧
      (setGuarantorAssignments forkConstants forkEnvironment.primitives.blake2b256Hash
        forkClosed.assignmentState).isOk = true ∧
      forkClosed.timeslot / 2 + 1 = forkBase.timeslot / 2 := by decide +kernel
  obtain ⟨hnext, hpool, hassigned, hrotation⟩ := hfacts
  have hclosed : Run forkEnvironment forkClosed [] forkClosed := .start
  have hrun := hclosed.block forkNext (samplePost_eq_ok _ _ _ hnext)
  exact ⟨hpool, hassigned, (rotation_handover rfl (by decide) (by decide) hrun).2 hrotation⟩

end Chain
