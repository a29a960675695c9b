import Pyjamaz.Pvm.BlockGasPruning
import Pyjamaz.Pvm.Instructions

/-!
# Are the static register sets sound?

The gas model prices a block by the registers its instructions read and write, which it reads off the
code (`instructionRegisters`).  The interpreters decode the operands on their own.  Two machines that
differ at most in registers outside the source set should take the same step: write the same register
of the destination set, if any, to the same word, leave the same memory, and go on at the same place or
stop for the same reason.

They do, but for the two things that compiled code leaves undefined.  `registers_sound_iff` says that
these are all.
-/

namespace Pvm

open TwosComplement

/-! ## Register sets -/

/-- A register belongs to a set. -/
def RegMask.Has (mask : RegMask) (r : Fin 13) : Prop := mask.getLsbD r = true

lemma has_regBit {r s : Fin 13} : (regBit r).Has s ↔ s = r := by
  simp only [RegMask.Has, regBit, BitVec.getLsbD_twoPow, Bool.and_eq_true,
    decide_eq_true_eq]
  omega

lemma has_or {m n : RegMask} {r : Fin 13} : (m ||| n : RegMask).Has r ↔ m.Has r ∨ n.Has r := by
  simp [RegMask.Has]

lemma not_has_zero {r : Fin 13} : ¬ (0 : RegMask).Has r := by
  simp [RegMask.Has]

/-- Two register files hold the same in the registers of a set. -/
def AgreeOn (mask : RegMask) (reg₁ reg₂ : Regs) : Prop := ∀ r, mask.Has r → reg₁ r = reg₂ r

lemma AgreeOn.get {mask : RegMask} {reg₁ reg₂ : Regs} (h : AgreeOn mask reg₁ reg₂) {r : Fin 13}
    (hr : mask.Has r) : reg₁.get r = reg₂.get r := by
  rw [Regs.get, Regs.get, h r hr]

lemma AgreeOn.left {m n : RegMask} {reg₁ reg₂ : Regs} (h : AgreeOn (m ||| n) reg₁ reg₂) :
    AgreeOn m reg₁ reg₂ :=
  fun r hr => h r (has_or.mpr (.inl hr))

lemma AgreeOn.right {m n : RegMask} {reg₁ reg₂ : Regs} (h : AgreeOn (m ||| n) reg₁ reg₂) :
    AgreeOn n reg₁ reg₂ :=
  fun r hr => h r (has_or.mpr (.inr hr))

lemma AgreeOn.get_regBit {r : Fin 13} {reg₁ reg₂ : Regs} (h : AgreeOn (regBit r) reg₁ reg₂) :
    reg₁.get r = reg₂.get r :=
  h.get (has_regBit.mpr rfl)

lemma agreeOn_zero (reg₁ reg₂ : Regs) : AgreeOn 0 reg₁ reg₂ :=
  fun _ hr => absurd hr not_has_zero

/-! ## What the instructions read -/

lemma AgreeOn.get_high_regRegImm {o : RegRegImmOp} {r : RegOperands} {polkavmCmov : Bool}
    {reg₁ reg₂ : Regs} (h : AgreeOn ((Opcode.regRegImm o).registers r polkavmCmov).1 reg₁ reg₂) :
    reg₁.get r.high = reg₂.get r.high := by
  simp only [Opcode.registers] at h
  split at h
  · exact h.right.get_regBit
  · exact h.get_regBit

lemma AgreeOn.of_regRegReg {o : RegRegRegOp} {r : RegOperands} {polkavmCmov : Bool}
    {reg₁ reg₂ : Regs} (h : AgreeOn ((Opcode.regRegReg o).registers r polkavmCmov).1 reg₁ reg₂) :
    AgreeOn (regBit r.low ||| regBit r.high) reg₁ reg₂ := by
  simp only [Opcode.registers] at h
  split at h
  · exact h.left
  · exact h

/-- The steps of two machines read the same operands when the machines agree on the source set. -/
lemma Dialect.dataStep_congr (d : Dialect) {code : List UInt8} {pc argLen : ℕ} {opcode : Opcode}
    {polkavmCmov : Bool} {reg₁ reg₂ : Regs}
    (h : AgreeOn (opcode.registers (fetchRegs code pc) polkavmCmov).1 reg₁ reg₂) :
    d.dataStep code pc argLen reg₁ opcode = d.dataStep code pc argLen reg₂ opcode := by
  cases opcode with
  | noArg o => rfl
  | ecalli => rfl
  | loadImm64 => rfl
  | immImm o => rfl
  | jump => rfl
  | regImmOffset o => rfl
  | regRegOffset o => rfl
  | loadImmJumpInd => rfl
  | regImm o =>
    cases o with
    | storeU8 | storeU16 | storeU32 | storeU64 =>
      have hget : reg₁.get (fetchRegs code pc).low = reg₂.get (fetchRegs code pc).low :=
        h.get_regBit
      simp only [Dialect.dataStep, hget]
    | _ => rfl
  | regImmImm o =>
    have hget : reg₁.get (fetchRegs code pc).low = reg₂.get (fetchRegs code pc).low :=
      h.get_regBit
    simp only [Dialect.dataStep, hget]
  | regReg o =>
    have hget : reg₁.get (fetchRegs code pc).high = reg₂.get (fetchRegs code pc).high :=
      h.get_regBit
    simp only [Dialect.dataStep, hget]
  | regRegMem o =>
    cases o with
    | storeIndU8 | storeIndU16 | storeIndU32 | storeIndU64 =>
      have hlow : reg₁.get (fetchRegs code pc).low = reg₂.get (fetchRegs code pc).low :=
        (AgreeOn.left h).get_regBit
      have hhigh : reg₁.get (fetchRegs code pc).high = reg₂.get (fetchRegs code pc).high :=
        (AgreeOn.right h).get_regBit
      simp only [Dialect.dataStep, hlow, hhigh]
    | _ =>
      have hhigh : reg₁.get (fetchRegs code pc).high = reg₂.get (fetchRegs code pc).high :=
        h.get_regBit
      simp only [Dialect.dataStep, Dialect.atAddress, RegRegMemOp.access, hhigh]
  | regRegImm o =>
    simp only [Dialect.dataStep, AgreeOn.get_high_regRegImm h]
  | regRegReg o =>
    have hsources := AgreeOn.of_regRegReg h
    simp only [Dialect.dataStep, hsources.left.get_regBit, hsources.right.get_regBit]

/-- So do the instructions that move control. -/
lemma Backend.control_congr (B : Backend) (junk : BitVec 64) {p : PVMCode} {pc argLen : ℕ}
    {op : ControlOp} {polkavmCmov : Bool} {reg₁ reg₂ : Regs}
    (h : AgreeOn (op.opcode.registers (fetchRegs p.code pc) polkavmCmov).1 reg₁ reg₂) :
    B.control junk p pc argLen reg₁ op = B.control junk p pc argLen reg₂ op := by
  cases op with
  | fallthrough => cases B <;> rfl
  | ecalli => cases B <;> rfl
  | jump => cases B <;> rfl
  | jumpInd =>
    have hget : reg₁.get (clampReg (byteAt p.code (pc + 1) % 16)) =
        reg₂.get (clampReg (byteAt p.code (pc + 1) % 16)) := h.get_regBit
    cases B <;> simp only [Backend.control, Graypaper.controlStep, CPython.controlStep,
      Numba.controlStepBeyond, Numba.controlStep, hget]
  | regImmOffset o =>
    by_cases ho : o = .loadImmJump
    · subst ho
      cases B <;> rfl
    · simp only [ControlOp.opcode, Opcode.registers, if_neg ho] at h
      have hget : reg₁.get (clampReg (byteAt p.code (pc + 1) % 16)) =
        reg₂.get (clampReg (byteAt p.code (pc + 1) % 16)) := h.get_regBit
      cases B <;> simp only [Backend.control, Graypaper.controlStep, CPython.controlStep,
        Numba.controlStepBeyond, Numba.controlStep, hget]
  | regRegOffset o =>
    have hlow : reg₁.get (clampReg (byteAt p.code (pc + 1) % 16)) =
        reg₂.get (clampReg (byteAt p.code (pc + 1) % 16)) := (AgreeOn.left h).get_regBit
    have hhigh : reg₁.get (clampReg (byteAt p.code (pc + 1) / 16)) =
        reg₂.get (clampReg (byteAt p.code (pc + 1) / 16)) := (AgreeOn.right h).get_regBit
    cases B <;> simp only [Backend.control, Graypaper.controlStep, CPython.controlStep,
      Numba.controlStepBeyond, Numba.controlStep, hlow, hhigh]
  | loadImmJumpInd =>
    have hget : reg₁.get (clampReg (byteAt p.code (pc + 1) / 16)) =
        reg₂.get (clampReg (byteAt p.code (pc + 1) / 16)) := h.get_regBit
    cases B with
    | graypaper => simp only [Backend.control, Graypaper.controlStep, hget]
    | cpython => simp only [Backend.control, CPython.controlStep, hget]
    | numba nativeGasCost =>
      have hstep : Numba.controlStep p pc argLen reg₁ .loadImmJumpInd =
          Numba.controlStep p pc argLen reg₂ .loadImmJumpInd := by
        simp only [Numba.controlStep, hget]
      cases htable : Numba.jumpTableArray p with
      | none => simp only [Backend.control, Numba.controlStepBeyond, htable, hstep]
      | some jumpTable => simp only [Backend.control, Numba.controlStepBeyond, htable, hstep]

/-! ## What the instructions write

Most instructions write the register of their destination set or fail.  A conditional move may spare
it; what it leaves there is then a matter of the register itself, which `spared` speaks of. -/

/-- A computed value is there to be written. -/
def Value.IsWritten (v : Value) : Prop := v ≠ .ok none

lemma Value.isWritten_some (v : ℤ) : Value.IsWritten (.ok (some v)) := by
  intro h
  cases h

lemma Value.isWritten_bind {α : Type} (e : Except Fault α) (f : α → ℤ) :
    Value.IsWritten (do let r ← e; pure (some (f r))) := by
  intro h
  cases e <;> cases h

lemma Value.isWritten_error (e : Fault) : Value.IsWritten (.error e) := by
  intro h
  cases h

lemma Value.isWritten_ite {c : Prop} [Decidable c] {v w : Value} (hv : v.IsWritten)
    (hw : w.IsWritten) : Value.IsWritten (if c then v else w) := by
  split
  · exact hv
  · exact hw

/-- The helpers compute a value for every instruction that is not a conditional move, and an
assignment stores what it is given. -/
structure Dialect.Lawful (d : Dialect) : Prop where
  setReg : ∀ v, (d.setReg (some v)).IsWritten
  regReg : ∀ o w, (d.regRegValue o w).IsWritten
  regRegImm : ∀ o w_b v_x, o.isConditional = false → (d.regRegImmValue o w_b v_x).IsWritten
  regRegReg : ∀ o w_a w_b, o.isConditional = false → (d.regRegRegValue o w_a w_b).IsWritten

lemma Graypaper.dialect_lawful : Graypaper.dialect.Lawful where
  setReg v := Value.isWritten_ite (Value.isWritten_some v) (Value.isWritten_error _)
  regReg _ _ := Value.isWritten_some _
  regRegImm o w_b v_x ho := by
    cases o with
    | cmovIzImm | cmovNzImm => cases ho
    | _ => first | exact Value.isWritten_some _ | exact Value.isWritten_bind _ _
  regRegReg o w_a w_b ho := by
    cases o with
    | cmovIz | cmovNz => cases ho
    | _ =>
      simp only [Graypaper.dialect, Graypaper.regRegRegValue]
      repeat first
        | exact Value.isWritten_some _
        | exact Value.isWritten_bind _ _
        | apply Value.isWritten_ite

lemma CPython.dialect_lawful : CPython.dialect.Lawful where
  setReg v := Value.isWritten_some v
  regReg _ _ := Value.isWritten_some _
  regRegImm o w_b v_x ho := by
    cases o with
    | cmovIzImm | cmovNzImm => cases ho
    | _ => exact Value.isWritten_some _
  regRegReg o w_a w_b ho := by
    cases o with
    | cmovIz | cmovNz => cases ho
    | _ =>
      simp only [CPython.dialect, CPython.regRegRegValue]
      repeat first
        | exact Value.isWritten_some _
        | exact Value.isWritten_error _
        | apply Value.isWritten_ite

lemma Numba.settle_isWritten {junk : BitVec 64} {v : Value} (h : v.IsWritten) :
    (Numba.settle junk v).IsWritten := by
  unfold Numba.settle
  split
  · exact Value.isWritten_some _
  · exact h

lemma Numba.dialect_lawful (t : ShiftTarget) (junk : BitVec 64) :
    (Numba.dialect t junk).Lawful where
  setReg v := Value.isWritten_some v
  regReg _ _ := Value.isWritten_some _
  regRegImm o w_b v_x ho := by
    apply Numba.settle_isWritten
    cases o with
    | cmovIzImm | cmovNzImm => cases ho
    | _ => first | exact Value.isWritten_some _ | exact Value.isWritten_bind _ _
  regRegReg o w_a w_b ho := by
    apply Numba.settle_isWritten
    cases o with
    | cmovIz | cmovNz => cases ho
    | _ =>
      simp only [Numba.regRegRegValue]
      repeat first
        | exact Value.isWritten_some _
        | exact Value.isWritten_bind _ _
        | exact Value.isWritten_error _
        | apply Value.isWritten_ite

lemma Backend.dialect_lawful (B : Backend) (t : ShiftTarget) (junk : BitVec 64) :
    (B.dialect t junk).Lawful := by
  cases B with
  | graypaper => exact Graypaper.dialect_lawful
  | cpython => exact CPython.dialect_lawful
  | numba nativeGasCost => exact Numba.dialect_lawful t junk

/-- An outcome writes the register of a set, spares it, or is a failure. -/
def Outcome.Settles (dst : RegMask) (spared : Prop) : Outcome → Prop
  | .ok (some w) => dst = regBit w.reg
  | .ok none => spared
  | .error _ => True

/-- The same of a whole instruction; a store writes no register. -/
def DataStep.Settles (dst : RegMask) (spared : Prop) : DataStep → Prop
  | .register outcome => outcome.Settles dst spared
  | .load _ _ loaded => ∀ v, (loaded v).Settles dst spared
  | .store _ _ _ => spared

lemma Value.settles_writeTo {v : Value} {r : Fin 13} {spared : Prop}
    (h : v = .ok none → spared) : (v.writeTo r).Settles (regBit r) spared := by
  rcases v with e | _ | x
  · trivial
  · exact h rfl
  · rfl

lemma DataStep.withImmediate_settles {immediate : Except Fault ℕ} {k : ℕ → DataStep}
    {dst : RegMask} {spared : Prop} (h : ∀ v, (k v).Settles dst spared) :
    (DataStep.withImmediate immediate k).Settles dst spared := by
  cases immediate with
  | error e => trivial
  | ok v => exact h v

namespace Dialect.Lawful

variable {d : Dialect} (hd : d.Lawful)

include hd

lemma assign_settles {v : Value} {r : Fin 13} {spared : Prop} (h : v = .ok none → spared) :
    (d.assign r v).Settles (regBit r) spared := by
  apply Value.settles_writeTo
  intro hnone
  rcases v with e | _ | x
  · cases hnone
  · exact h rfl
  · exact absurd hnone (hd.setReg x)

lemma assign_settles_of_isWritten {v : Value} {r : Fin 13} {spared : Prop} (h : v.IsWritten) :
    (d.assign r v).Settles (regBit r) spared :=
  hd.assign_settles (fun hnone => absurd hnone h)

lemma atAddress_load_settles {addr value : ℕ} {dest : Fin 13}
    {extended : ℕ → ℕ → Except Fault ℕ} {w : Width} {isSigned : Bool} {spared : Prop} :
    (d.atAddress addr value dest extended (.load w isSigned)).Settles (regBit dest) spared :=
  fun _ => hd.assign_settles_of_isWritten
    (Value.isWritten_ite (Value.isWritten_bind _ _) (Value.isWritten_bind _ _))

/-- An instruction writes its destination; it spares a register only if it has none, or if it is a
conditional move, whose destination is then among its sources. -/
lemma dataStep_settles {code : List UInt8} {pc argLen : ℕ} {opcode : Opcode}
    {polkavmCmov : Bool} {reg reg₁ reg₂ : Regs}
    (hcontrol : ControlOp.ofOpcode opcode = none)
    (h : AgreeOn (opcode.registers (fetchRegs code pc) polkavmCmov).1 reg₁ reg₂) :
    (d.dataStep code pc argLen reg opcode).Settles
      (opcode.registers (fetchRegs code pc) polkavmCmov).2
      (polkavmCmov = false →
        AgreeOn (opcode.registers (fetchRegs code pc) polkavmCmov).2 reg₁ reg₂) := by
  have hzero : polkavmCmov = false → AgreeOn 0 reg₁ reg₂ := fun _ => agreeOn_zero reg₁ reg₂
  cases opcode with
  | noArg o => exact hzero
  | ecalli => cases hcontrol
  | loadImm64 => exact hd.assign_settles_of_isWritten (Value.isWritten_some _)
  | immImm o =>
    exact DataStep.withImmediate_settles (fun _ => DataStep.withImmediate_settles (fun _ => hzero))
  | jump => cases hcontrol
  | regImm o =>
    cases o with
    | jumpInd => cases hcontrol
    | loadImm =>
      exact DataStep.withImmediate_settles
        (fun _ => hd.assign_settles_of_isWritten (Value.isWritten_some _))
    | storeU8 | storeU16 | storeU32 | storeU64 =>
      exact DataStep.withImmediate_settles (fun _ => hzero)
    | _ => exact DataStep.withImmediate_settles (fun _ => hd.atAddress_load_settles)
  | regImmImm o =>
    exact DataStep.withImmediate_settles (fun _ => DataStep.withImmediate_settles (fun _ => hzero))
  | regImmOffset o => cases hcontrol
  | regReg o => exact hd.assign_settles_of_isWritten (hd.regReg _ _)
  | regRegMem o =>
    cases o with
    | storeIndU8 | storeIndU16 | storeIndU32 | storeIndU64 =>
      exact DataStep.withImmediate_settles (fun _ => hzero)
    | _ => exact DataStep.withImmediate_settles (fun _ => hd.atAddress_load_settles)
  | regRegImm o =>
    refine DataStep.withImmediate_settles (fun v => hd.assign_settles (fun hnone hcmov => ?_))
    cases ho : o.isConditional with
    | false => exact absurd hnone (hd.regRegImm _ _ _ ho)
    | true =>
      simp only [Opcode.registers, ho, hcmov, Bool.not_false, Bool.and_true, if_true] at h
      exact h.left
  | regRegOffset o => cases hcontrol
  | loadImmJumpInd => cases hcontrol
  | regRegReg o =>
    refine hd.assign_settles (fun hnone hcmov => ?_)
    cases ho : o.isConditional with
    | false => exact absurd hnone (hd.regRegReg _ _ _ ho)
    | true =>
      simp only [Opcode.registers, ho, hcmov, Bool.not_false, Bool.and_true, if_true] at h
      exact h.right

end Dialect.Lawful

/-- A control-flow instruction writes the register of its destination set, or has none if it goes
on. -/
def ControlStep.Settles (dst : RegMask) (step : ControlStep) : Prop :=
  match step.write with
  | some w => dst = regBit w.reg
  | none => (∃ pc, step.next = .continue pc) → dst = 0

lemma ControlStep.settles_of_zero {next : Next} : ControlStep.Settles 0 ⟨next, none⟩ :=
  fun _ => rfl

lemma ControlStep.settles_of_stop {dst : RegMask} {next : Next} (h : ∀ pc, next ≠ .continue pc) :
    ControlStep.Settles dst ⟨next, none⟩ := by
  rintro ⟨pc, hpc⟩
  exact absurd hpc (h pc)

lemma Graypaper.withImmediate_settles {code : List UInt8} {addr l : ℕ} {k : ℕ → ControlStep}
    {dst : RegMask} (h : ∀ v, (k v).Settles dst) :
    (Graypaper.withImmediate code addr l k).Settles dst := by
  unfold Graypaper.withImmediate
  split
  · exact h _
  · exact ControlStep.settles_of_stop (fun pc hpc => by cases hpc)

lemma Graypaper.controlStep_settles (p : PVMCode) (pc argLen : ℕ) (reg : Regs) (op : ControlOp)
    (polkavmCmov : Bool) :
    (Graypaper.controlStep p pc argLen reg op).Settles
      (op.opcode.registers (fetchRegs p.code pc) polkavmCmov).2 := by
  cases op with
  | fallthrough | jump => exact ControlStep.settles_of_zero
  | ecalli | jumpInd => exact Graypaper.withImmediate_settles (fun _ => ControlStep.settles_of_zero)
  | regImmOffset o =>
    cases o with
    | loadImmJump => exact Graypaper.withImmediate_settles (fun _ => rfl)
    | _ => exact Graypaper.withImmediate_settles (fun _ => ControlStep.settles_of_zero)
  | regRegOffset o => exact ControlStep.settles_of_zero
  | loadImmJumpInd =>
    simp only [Graypaper.controlStep]
    split
    · exact ControlStep.settles_of_stop (fun pc hpc => by cases hpc)
    · exact Graypaper.withImmediate_settles
        (fun _ => Graypaper.withImmediate_settles (fun _ => rfl))

lemma CPython.controlStep_settles (p : PVMCode) (pc argLen : ℕ) (reg : Regs) (op : ControlOp)
    (polkavmCmov : Bool) :
    (CPython.controlStep p pc argLen reg op).Settles
      (op.opcode.registers (fetchRegs p.code pc) polkavmCmov).2 := by
  cases op with
  | regImmOffset o =>
    cases o with
    | loadImmJump => rfl
    | _ => exact ControlStep.settles_of_zero
  | loadImmJumpInd => rfl
  | _ => exact ControlStep.settles_of_zero

lemma Numba.controlStep_settles (p : PVMCode) (pc argLen : ℕ) (reg : Regs) (op : ControlOp)
    (polkavmCmov : Bool) :
    (Numba.controlStep p pc argLen reg op).Settles
      (op.opcode.registers (fetchRegs p.code pc) polkavmCmov).2 := by
  unfold Numba.controlStep
  split
  · exact ControlStep.settles_of_stop (fun pc hpc => by cases hpc)
  · cases op with
    | regImmOffset o =>
      cases o with
      | loadImmJump => rfl
      | _ => exact ControlStep.settles_of_zero
    | loadImmJumpInd =>
      simp only
      split
      · exact ControlStep.settles_of_stop (fun pc hpc => by cases hpc)
      · rfl
    | _ => exact ControlStep.settles_of_zero

lemma Backend.control_settles (B : Backend) (junk : BitVec 64) (p : PVMCode) (pc argLen : ℕ)
    (reg : Regs) (op : ControlOp) (polkavmCmov : Bool) :
    (B.control junk p pc argLen reg op).Settles
      (op.opcode.registers (fetchRegs p.code pc) polkavmCmov).2 := by
  cases B with
  | graypaper => exact Graypaper.controlStep_settles p pc argLen reg op polkavmCmov
  | cpython => exact CPython.controlStep_settles p pc argLen reg op polkavmCmov
  | numba nativeGasCost =>
    have hstep := Numba.controlStep_settles p pc argLen reg op polkavmCmov
    simp only [Backend.control]
    unfold Numba.controlStepBeyond
    split
    · split
      · rfl
      · exact hstep
    · exact hstep

/-! ## What compiled code leaves undefined -/

/-- The shifts of a rotation by an immediate are defined. -/
def RegRegImmOp.ShiftsDefined (t : ShiftTarget) (o : RegRegImmOp) (w_b v_x : ℕ) : Prop :=
  t = .poison → o.NativeOk .poison w_b v_x

/-- The shifts of a rotation by a register are defined. -/
def RegRegRegOp.ShiftsDefined (t : ShiftTarget) (o : RegRegRegOp) (w_b : ℕ) : Prop :=
  t = .poison → o = .rotL64 ∨ o = .rotR64 → 0 < w_b % 64

lemma Numba.rori64_poison_iff {t : ShiftTarget} {x s : ℕ} :
    Numba.rori64 t x s = .error .poison ↔ t = .poison ∧ ¬ Rotates64 .poison s := by
  cases t with
  | masked => simp [Numba.rori64, Numba.shr_masked, Numba.shl_masked]
  | poison =>
    simp only [true_and, Rotates64]
    constructor
    · rintro h ⟨hpos, hlt⟩
      rw [Numba.rori64_of_lt .poison hpos hlt] at h
      cases h
    · intro h
      rcases Nat.eq_zero_or_pos s with rfl | hpos
      · rfl
      · simp [Numba.rori64, Numba.shr_poison_of_le (x := x) (n := s) (by omega)]

lemma Numba.roli64_poison_iff {t : ShiftTarget} {x s : ℕ} :
    Numba.roli64 t x s = .error .poison ↔ t = .poison ∧ ¬ Rotates64 .poison s := by
  cases t with
  | masked => simp [Numba.roli64, Numba.shr_masked, Numba.shl_masked]
  | poison =>
    simp only [true_and, Rotates64]
    constructor
    · rintro h ⟨hpos, hlt⟩
      rw [Numba.roli64_of_lt .poison hpos hlt] at h
      cases h
    · intro h
      rcases Nat.eq_zero_or_pos s with rfl | hpos
      · rfl
      · simp [Numba.roli64, Numba.shl_poison_of_le (x := x) (n := s) (by omega)]

lemma Numba.rori32_poison_iff {t : ShiftTarget} {x s : ℕ} (hx : x < 2 ^ 32) (hs : s < 2 ^ 32) :
    Numba.rori32 t x s = .error .poison ↔ t = .poison ∧ ¬ Rotates32 .poison x s := by
  cases t with
  | masked => simp [Numba.rori32, Numba.shr_masked, Numba.shl_masked]
  | poison =>
    simp only [true_and, Rotates32]
    constructor
    · intro h hle
      rw [Numba.rori32_of_le .poison hx hle] at h
      cases h
    · intro h
      have hopp := unsigned_sub_of_lt (not_le.mp h) (hs.trans (by norm_num))
      push_cast at hopp
      have herr := Numba.shl_poison_of_le (x := x) (n := 18446744073709551648 - s) (by omega)
      by_cases h64 : s < 64
      · simp only [Numba.rori32, Numba.shr, if_pos h64, hopp, herr, Except.ok_bind,
          Except.error_bind]
      · simp [Numba.rori32, Numba.shr_poison_of_le (not_lt.mp h64)]

lemma bind_poison_iff {α : Type} {e : Except Fault α} {f : α → ℤ} :
    (do let r ← e; .ok (some (f r)) : Value) = .error .poison ↔ e = .error .poison := by
  cases e with
  | error fault => simp
  | ok r => simp

lemma Numba.regRegImmValue_poison_iff (t : ShiftTarget) (o : RegRegImmOp) (w_b v_x : ℕ) :
    Numba.regRegImmValue t o w_b v_x = .error .poison ↔ ¬ o.ShiftsDefined t w_b v_x := by
  simp only [RegRegImmOp.ShiftsDefined, Classical.not_imp]
  cases o with
  | rotR64Imm | rotR64ImmAlt => exact bind_poison_iff.trans Numba.rori64_poison_iff
  | rotR32Imm | rotR32ImmAlt =>
    exact bind_poison_iff.trans (Numba.rori32_poison_iff (mod32_lt _) (mod32_lt _))
  | cmovIzImm | cmovNzImm =>
    refine iff_of_false ?_ (fun h => h.2 trivial)
    simp only [Numba.regRegImmValue]
    split <;> exact fun h => by cases h
  | _ => exact iff_of_false (fun h => by cases h) (fun h => h.2 trivial)

lemma Numba.regRegRegValue_poison_iff (t : ShiftTarget) (o : RegRegRegOp) (w_a w_b : ℕ) :
    Numba.regRegRegValue t o w_a w_b = .error .poison ↔ ¬ o.ShiftsDefined t w_b := by
  have hlt : w_b % 64 < 64 := Nat.mod_lt _ (by norm_num)
  have hrotates : Rotates64 .poison (w_b % 64) ↔ 0 < w_b % 64 := ⟨fun h => h.1, fun h => ⟨h, hlt⟩⟩
  simp only [RegRegRegOp.ShiftsDefined, Classical.not_imp]
  cases o with
  | rotL64 =>
    refine (bind_poison_iff.trans Numba.roli64_poison_iff).trans ?_
    simp [hrotates]
  | rotR64 =>
    refine (bind_poison_iff.trans Numba.rori64_poison_iff).trans ?_
    simp [hrotates]
  | rotL32 =>
    refine iff_of_false ?_ (by simp)
    have hs : w_b % 32 < 32 := Nat.mod_lt _ (by norm_num)
    rw [Numba.regRegRegValue, mod32_mod, Numba.roli32_of_lt t hs]
    exact fun h => by cases h
  | rotR32 =>
    refine iff_of_false ?_ (by simp)
    have hs : w_b % 32 ≤ 32 := (Nat.mod_lt _ (by norm_num)).le
    rw [Numba.regRegRegValue, mod32_mod, Numba.rori32_of_le t (mod32_lt w_a) hs]
    exact fun h => by cases h
  | _ =>
    refine iff_of_false ?_ (by simp)
    simp only [Numba.regRegRegValue]
    repeat' split
    all_goals exact fun h => by cases h

/-- A defined value does not depend on what is found behind it. -/
lemma Numba.settle_of_ne {junk : BitVec 64} {v : Value} (h : v ≠ .error .poison) :
    Numba.settle junk v = v := by
  unfold Numba.settle
  split
  · exact absurd rfl h
  · rfl

lemma Numba.settle_poison (junk : BitVec 64) :
    Numba.settle junk (.error .poison) = .ok (some (junk.toNat : ℤ)) := rfl

/-- Compiled code leaves two things undefined: a rotation with an undefined shift, and
`load_imm_jump_ind` with a register nibble above twelve. -/
def Backend.Determined (B : Backend) (t : ShiftTarget) (p : PVMCode) (pc argLen : ℕ) (reg : Regs)
    (opcode : Opcode) : Prop :=
  match B, opcode with
  | .numba _, .regRegImm o =>
    o.ShiftsDefined t (reg.get (fetchRegs p.code pc).high)
      (Numba.readImmediate p.code (pc + 2) (immWidth argLen))
  | .numba _, .regRegReg o => o.ShiftsDefined t (reg.get (fetchRegs p.code pc).high)
  | .numba _, .loadImmJumpInd =>
    byteAt p.code (pc + 1) / 16 ≤ 12 ∨ Numba.jumpTableArray p = none
  | _, _ => True

/-- A determined instruction does not look at the undefined word. -/
lemma Backend.dataStep_junk {B : Backend} {t : ShiftTarget} {p : PVMCode} {pc argLen : ℕ}
    {reg : Regs} {opcode : Opcode} (h : B.Determined t p pc argLen reg opcode)
    (junk₁ junk₂ : BitVec 64) :
    (B.dialect t junk₁).dataStep p.code pc argLen reg opcode =
      (B.dialect t junk₂).dataStep p.code pc argLen reg opcode := by
  cases B with
  | graypaper | cpython => rfl
  | numba nativeGasCost =>
    cases opcode with
    | regRegImm o =>
      have hne : Numba.regRegImmValue t o (reg.get (fetchRegs p.code pc).high)
          (Numba.readImmediate p.code (pc + 2) (immWidth argLen)) ≠ .error .poison :=
        fun hpoison => (Numba.regRegImmValue_poison_iff t o _ _).mp hpoison h
      simp only [Backend.dialect, Dialect.dataStep, Numba.dialect, DataStep.withImmediate,
        Dialect.assign, Numba.settle_of_ne hne]
    | regRegReg o =>
      have hne : Numba.regRegRegValue t o (reg.get (fetchRegs p.code pc).low)
          (reg.get (fetchRegs p.code pc).high) ≠ .error .poison :=
        fun hpoison => (Numba.regRegRegValue_poison_iff t o _ _).mp hpoison h
      simp only [Backend.dialect, Dialect.dataStep, Numba.dialect, Dialect.assign,
        Numba.settle_of_ne hne]
    | regImm o => cases o <;> rfl
    | regRegMem o => cases o <;> rfl
    | _ => rfl

lemma Backend.control_junk {B : Backend} {t : ShiftTarget} {p : PVMCode} {pc argLen : ℕ}
    {reg : Regs} {op : ControlOp} (h : B.Determined t p pc argLen reg op.opcode)
    (junk₁ junk₂ : BitVec 64) :
    B.control junk₁ p pc argLen reg op = B.control junk₂ p pc argLen reg op := by
  cases B with
  | graypaper | cpython => rfl
  | numba nativeGasCost =>
    cases op with
    | loadImmJumpInd =>
      simp only [Backend.control, Numba.controlStepBeyond]
      cases htable : Numba.jumpTableArray p with
      | none => rfl
      | some jumpTable =>
        have hle : byteAt p.code (pc + 1) / 16 ≤ 12 := h.resolve_right (by simp [htable])
        simp only [if_neg (not_lt.mpr hle)]
    | _ => rfl

/-! ## Two runs of one instruction -/

section TwoRuns

variable {μ : Type}

/-- Two machines did the same: each did the same write, in the destination set, to its own registers,
and they have the same memory and go on, or stop, at the same place.  If they go on, the registers of
the destination set agree, unless the sources leave out the destination of a conditional move. -/
inductive SameEffect (dst : RegMask) (polkavmCmov : Bool) (reg₁ reg₂ : Regs) :
    Executed (MachineData μ) → Executed (MachineData μ) → Prop
  | continue (pc : ℕ) (w : Option Write) (mem : μ) (hw : ∀ x ∈ w, dst.Has x.reg)
      (hdst : polkavmCmov = false → AgreeOn dst (reg₁.write w) (reg₂.write w)) :
      SameEffect dst polkavmCmov reg₁ reg₂
        (.continue pc ⟨reg₁.write w, mem⟩) (.continue pc ⟨reg₂.write w, mem⟩)
  | stop (exit : Exit) (w : Option Write) (mem : μ) (hw : ∀ x ∈ w, dst.Has x.reg) :
      SameEffect dst polkavmCmov reg₁ reg₂
        (.stop exit ⟨reg₁.write w, mem⟩) (.stop exit ⟨reg₂.write w, mem⟩)

variable {dst : RegMask} {polkavmCmov : Bool} {reg₁ reg₂ : Regs}

lemma SameEffect.stop_unwritten (exit : Exit) (mem : μ) :
    SameEffect dst polkavmCmov reg₁ reg₂ (.stop exit ⟨reg₁, mem⟩) (.stop exit ⟨reg₂, mem⟩) :=
  .stop exit none mem (fun _ hx => by cases hx)

lemma SameEffect.ofNext (next : Next) (w : Option Write) (mem : μ)
    (hw : ∀ x ∈ w, dst.Has x.reg)
    (hdst : (∃ pc, next = .continue pc) → polkavmCmov = false →
      AgreeOn dst (reg₁.write w) (reg₂.write w)) :
    SameEffect dst polkavmCmov reg₁ reg₂
      (.ofNext next ⟨reg₁.write w, mem⟩) (.ofNext next ⟨reg₂.write w, mem⟩) := by
  cases next with
  | «continue» pc => exact .continue pc w mem hw (hdst ⟨pc, rfl⟩)
  | _ => exact .stop _ w mem hw

lemma agreeOn_write (w : Write) (reg₁ reg₂ : Regs) :
    AgreeOn (regBit w.reg) (reg₁.write (some w)) (reg₂.write (some w)) := by
  intro r hr
  have hreg : r = w.reg := has_regBit.mp hr
  simp [Regs.write, Regs.set, hreg]

lemma MachineData.complete_sameEffect {next : Next} {onFault : Exit} {outcome : Outcome} (mem : μ)
    (h : outcome.Settles dst (polkavmCmov = false → AgreeOn dst reg₁ reg₂)) :
    SameEffect dst polkavmCmov reg₁ reg₂
      ((MachineData.mk reg₁ mem).complete next onFault outcome)
      ((MachineData.mk reg₂ mem).complete next onFault outcome) := by
  rcases outcome with e | _ | w
  · exact SameEffect.stop_unwritten onFault mem
  · exact SameEffect.ofNext next none mem (fun _ hx => by cases hx) (fun _ => h)
  · have hdst : dst = regBit w.reg := h
    subst hdst
    refine SameEffect.ofNext next (some w) mem ?_ (fun _ _ => agreeOn_write w reg₁ reg₂)
    intro x hx
    cases hx
    exact has_regBit.mpr rfl

lemma MemoryAccess.executeData_sameEffect (A : MemoryAccess μ) {next : Next} {onFault : Exit}
    {step : DataStep} (mem : μ)
    (h : step.Settles dst (polkavmCmov = false → AgreeOn dst reg₁ reg₂)) :
    SameEffect dst polkavmCmov reg₁ reg₂
      (A.executeData next onFault ⟨reg₁, mem⟩ step)
      (A.executeData next onFault ⟨reg₂, mem⟩ step) := by
  cases step with
  | register outcome => exact MachineData.complete_sameEffect mem h
  | load addr w loaded =>
    simp only [MemoryAccess.executeData]
    rcases A.memRead mem addr w.bytes with e | v
    · cases e with
      | panicError => exact SameEffect.stop_unwritten _ mem
      | memoryError a => exact SameEffect.stop_unwritten _ mem
    · exact MachineData.complete_sameEffect mem (h v)
  | store addr value w =>
    simp only [MemoryAccess.executeData]
    rcases A.memWrite mem addr value w.bytes with e | mem'
    · cases e with
      | panicError => exact SameEffect.stop_unwritten _ mem
      | memoryError a => exact SameEffect.stop_unwritten _ mem
    · exact SameEffect.ofNext next none mem' (fun _ hx => by cases hx) (fun _ => h)

lemma ControlStep.sameEffect {step : ControlStep} (mem : μ) (h : step.Settles dst) :
    SameEffect dst polkavmCmov reg₁ reg₂
      (.ofNext step.next ⟨reg₁.write step.write, mem⟩)
      (.ofNext step.next ⟨reg₂.write step.write, mem⟩) := by
  obtain ⟨next, _ | w⟩ := step
  · refine SameEffect.ofNext next none mem (fun _ hx => by cases hx) (fun hnext _ => ?_)
    have hdst : dst = 0 := h hnext
    rw [hdst]
    exact agreeOn_zero reg₁ reg₂
  · have hdst : dst = regBit w.reg := h
    subst hdst
    refine SameEffect.ofNext next (some w) mem ?_ (fun _ _ => agreeOn_write w reg₁ reg₂)
    intro x hx
    cases hx
    exact has_regBit.mpr rfl

end TwoRuns

lemma ControlOp.opcode_of_ofOpcode {opcode : Opcode} {op : ControlOp}
    (h : ControlOp.ofOpcode opcode = some op) : op.opcode = opcode := by
  cases opcode with
  | noArg o =>
    cases o <;> cases h
    rfl
  | regImm o =>
    cases o <;> cases h
    rfl
  | _ => cases h <;> rfl

/-- A determined instruction does the same on machines that agree on its sources. -/
lemma Backend.instruction_sameEffect {B : Backend} {t : ShiftTarget} {p : PVMCode}
    {pc argLen : ℕ} {opcode : Opcode} {polkavmCmov : Bool} {reg₁ reg₂ : Regs}
    (h : AgreeOn (opcode.registers (fetchRegs p.code pc) polkavmCmov).1 reg₁ reg₂)
    (hdetermined : B.Determined t p pc argLen reg₁ opcode) (junk₁ junk₂ : BitVec 64)
    (mem : B.Memory) :
    SameEffect (opcode.registers (fetchRegs p.code pc) polkavmCmov).2 polkavmCmov reg₁ reg₂
      (B.instruction t junk₁ p pc argLen opcode ⟨reg₁, mem⟩)
      (B.instruction t junk₂ p pc argLen opcode ⟨reg₂, mem⟩) := by
  by_cases htrap : opcode = .noArg .trap
  · subst htrap
    exact SameEffect.stop_unwritten .panic mem
  by_cases hunlikely : opcode = .noArg .unlikely
  · subst hunlikely
    exact SameEffect.ofNext _ none mem (fun _ hx => by cases hx) (fun _ _ => agreeOn_zero _ _)
  simp only [Backend.instruction]
  cases hcontrol : ControlOp.ofOpcode opcode with
  | some op =>
    have hop : op.opcode = opcode := ControlOp.opcode_of_ofOpcode hcontrol
    subst hop
    have hsame : B.control junk₂ p pc argLen reg₂ op = B.control junk₁ p pc argLen reg₁ op :=
      (B.control_congr junk₂ h).symm.trans (B.control_junk hdetermined junk₂ junk₁)
    simp only [hsame]
    exact ControlStep.sameEffect mem (B.control_settles junk₁ p pc argLen reg₁ op polkavmCmov)
  | none =>
    have hsame : (B.dialect t junk₂).dataStep p.code pc argLen reg₂ opcode =
        (B.dialect t junk₁).dataStep p.code pc argLen reg₁ opcode :=
      ((B.dialect t junk₂).dataStep_congr h).symm.trans (B.dataStep_junk hdetermined junk₂ junk₁)
    simp only [hsame]
    exact B.access.executeData_sameEffect mem
      ((B.dialect_lawful t junk₁).dataStep_settles hcontrol h)

/-! ## One round of the loop -/

section Rounds

variable {σ : Type*}

/-- What precedes the instruction in a round of the loop: the fetch and the charge, in the order of the
interpreter.  An error is the reason why nothing is executed. -/
def Backend.enter (B : Backend) (gm : GasModel) (p : PVMCode) (s : Loop σ) :
    Except (Exit × Loop σ) (Loop σ × Opcode × ℕ) :=
  match B with
  | .graypaper =>
    match charge p gm s with
    | none => .error (.outOfGas, s)
    | some s =>
      match p.fetch s.pc with
      | none => .error (.panic, s)
      | some (opcode, argLen) => .ok (s, opcode, argLen)
  | .cpython =>
    match p.fetch s.pc with
    | none => .error (.panic, s)
    | some (opcode, argLen) =>
      match charge p gm s with
      | none => .error (.outOfGas, s)
      | some s => .ok (s, opcode, argLen)
  | .numba _ =>
    match p.fetch s.pc with
    | none => .error (.panic, s)
    | some (opcode, argLen) =>
      match Numba.chargeOnEntry p gm s with
      | none => .error (.outOfGas, s)
      | some s => .ok (s, opcode, argLen)

/-- The fee of a gas host call that the loop serves itself. -/
def Backend.serves (B : Backend) (p : PVMCode) (s : Loop σ) (opcode : Opcode) (argLen : ℕ) :
    Option ℕ :=
  match B with
  | .graypaper | .cpython => none
  | .numba nativeGasCost =>
    if Numba.servesGas nativeGasCost p s opcode argLen then some nativeGasCost else none

/-- The round of the loop around an instruction, given the assignment to a register. -/
def Backend.round (B : Backend) (p : PVMCode) (setReg : σ → Write → σ)
    (run : Loop σ → Opcode → ℕ → Executed σ) :
    Except (Exit × Loop σ) (Loop σ × Opcode × ℕ) → Step σ
  | .error (reason, s) => .refuse reason s
  | .ok (s, opcode, argLen) =>
    match B.serves p s opcode argLen with
    | some fee =>
      .next fee { s with
        pc := (s.pc + argLen + 1) % 2 ^ 32
        gas := s.gas - fee
        skipLen := argLen + 1
        data := setReg s.data ⟨7, (s.gas - fee : ℕ)⟩ }
    | none => finish s opcode argLen (run s opcode argLen)

/-- The loop body of an interpreter is a fetch and a charge around an instruction. -/
lemma Backend.step_eq_round (B : Backend) (D : DataPath σ) (gm : GasModel) (p : PVMCode)
    (s : Loop σ) :
    B.step D gm p s = B.round p D.setReg (fun s opcode argLen =>
      execute B.controlStep B.advance D p s.pc argLen opcode s.data) (B.enter gm p s) := by
  cases B with
  | graypaper =>
    simp only [Backend.step, Graypaper.step, Backend.enter]
    cases charge p gm s with
    | none => rfl
    | some s' =>
      cases hfetch : p.fetch s'.pc with
      | none => simp only [hfetch, Backend.round]
      | some fetched =>
        simp only [hfetch, Backend.round, Backend.serves, Backend.controlStep, Backend.advance]
  | cpython =>
    simp only [Backend.step, CPython.step, Backend.enter]
    cases p.fetch s.pc with
    | none => rfl
    | some fetched =>
      cases charge p gm s with
      | none => simp only [Backend.round]
      | some s' => simp only [Backend.round, Backend.serves, Backend.controlStep, Backend.advance]
  | numba nativeGasCost =>
    simp only [Backend.step, Numba.step, Backend.enter]
    cases p.fetch s.pc with
    | none => rfl
    | some fetched =>
      obtain ⟨opcode, argLen⟩ := fetched
      cases Numba.chargeOnEntry p gm s with
      | none => simp only [Backend.round]
      | some s' =>
        simp only [Backend.round, Backend.serves, Backend.controlStep, Backend.advance]
        cases Numba.servesGas nativeGasCost p s' opcode argLen <;> rfl

lemma Backend.serves_eq_none (B : Backend) {p : PVMCode} {opcode : Opcode}
    (h : opcode ≠ .ecalli) (s : Loop σ) (argLen : ℕ) : B.serves p s opcode argLen = none := by
  cases B with
  | graypaper | cpython => rfl
  | numba nativeGasCost => simp [Backend.serves, Numba.servesGas, h]

end Rounds

/-- One round of an interpreter on its registers and its memory. -/
def Backend.machineStep (B : Backend) (t : ShiftTarget) (junk : BitVec 64) (gm : GasModel)
    (p : PVMCode) (s : Loop (MachineData B.Memory)) : Step (MachineData B.Memory) :=
  B.round p (fun data w => { data with reg := data.reg.set w })
    (fun s opcode argLen => B.instruction t junk p s.pc argLen opcode s.data) (B.enter gm p s)

/-- The outcome of an instruction for its loop. -/
def MemoryAccess.result {μ : Type} (A : MemoryAccess μ) (data : MachineData μ) :
    Outcome → DataResult (MachineData μ)
  | .ok w => .ok { data with reg := data.reg.write w }
  | .error _ => A.raise data

/-- What an instruction that moves no control does to the registers and the memory. -/
def MemoryAccess.run {μ : Type} (A : MemoryAccess μ) (data : MachineData μ) :
    DataStep → DataResult (MachineData μ)
  | .register outcome => A.result data outcome
  | .load addr w loaded =>
    match A.memRead data.mem addr w.bytes with
    | .ok v => A.result data (loaded v)
    | .error .panicError => .panicError data
    | .error (.memoryError a) => .memoryError (some a) data
  | .store addr value w =>
    match A.memWrite data.mem addr value w.bytes with
    | .ok mem => .ok { data with mem := mem }
    | .error .panicError => .panicError data
    | .error (.memoryError a) => .memoryError (some a) data

/-- The registers and the memory of an interpreter as a data path of its loop. -/
def Backend.machinePath (B : Backend) (t : ShiftTarget) (junk : BitVec 64) (p : PVMCode) :
    DataPath (MachineData B.Memory) where
  regs data := data.reg
  setReg data w := { data with reg := data.reg.set w }
  run opcode pc argLen data :=
    B.access.run data ((B.dialect t junk).dataStep p.code pc argLen data.reg opcode)

/-- The two interpreters that catch every exception run their instructions in the loop as it was
modelled over an arbitrary data path. -/
lemma Backend.instruction_eq_execute {B : Backend} (hB : B = .graypaper ∨ B = .cpython)
    (t : ShiftTarget) (junk : BitVec 64) (p : PVMCode) (pc argLen : ℕ) (opcode : Opcode)
    (data : MachineData B.Memory) :
    B.instruction t junk p pc argLen opcode data =
      execute B.controlStep B.advance (B.machinePath t junk p) p pc argLen opcode data := by
  have hcontrol : B.control junk = B.controlStep := by
    rcases hB with rfl | rfl <;> rfl
  have honFault : B.onFault = .panic := by
    rcases hB with rfl | rfl <;> rfl
  have hraise : ∀ data, B.access.raise data = .panicError data := by
    rcases hB with rfl | rfl <;> exact fun _ => rfl
  unfold Backend.instruction execute
  split
  · rfl
  · rfl
  · rw [hcontrol, honFault]
    cases ControlOp.ofOpcode opcode with
    | some op =>
      simp only [Backend.machinePath]
      cases (B.controlStep p pc argLen data.reg op).write <;> rfl
    | none =>
      simp only [Backend.machinePath]
      cases (B.dialect t junk).dataStep p.code pc argLen data.reg opcode with
      | register outcome =>
        cases outcome with
        | ok w => rfl
        | error e => simp only [MemoryAccess.executeData, MemoryAccess.run, MachineData.complete,
            MemoryAccess.result, hraise]
      | load addr w loaded =>
        simp only [MemoryAccess.executeData, MemoryAccess.run]
        rcases B.access.memRead data.mem addr w.bytes with (_ | a) | v
        · rfl
        · rfl
        · cases houtcome : loaded v <;>
            simp only [MachineData.complete, MemoryAccess.result, houtcome, hraise]
      | store addr value w =>
        simp only [MemoryAccess.executeData, MemoryAccess.run]
        rcases B.access.memWrite data.mem addr value w.bytes with (_ | a) | mem <;> rfl

theorem Backend.machineStep_eq_step {B : Backend} (hB : B = .graypaper ∨ B = .cpython)
    (t : ShiftTarget) (junk : BitVec 64) (gm : GasModel) (p : PVMCode)
    (s : Loop (MachineData B.Memory)) :
    B.machineStep t junk gm p s = B.step (B.machinePath t junk p) gm p s := by
  rw [Backend.step_eq_round, Backend.machineStep]
  congr 1
  funext s opcode argLen
  exact Backend.instruction_eq_execute hB t junk p s.pc argLen opcode s.data

/-- The interpreter with other registers. -/
def Loop.withReg {μ : Type} (s : Loop (MachineData μ)) (reg : Regs) : Loop (MachineData μ) :=
  { s with data := ⟨reg, s.data.mem⟩ }

/-- Two interpreters that differ in their registers took the same round: with the same write to the
registers of each, in the destination set, and everything else the same. -/
inductive SameStep {μ : Type} (dst : RegMask) (polkavmCmov : Bool) (reg₁ reg₂ : Regs) :
    Step (MachineData μ) → Step (MachineData μ) → Prop
  | refuse (exit : Exit) (s : Loop (MachineData μ)) :
      SameStep dst polkavmCmov reg₁ reg₂
        (.refuse exit (s.withReg reg₁)) (.refuse exit (s.withReg reg₂))
  | exit (exit : Exit) (w : Option Write) (s : Loop (MachineData μ))
      (hw : ∀ x ∈ w, dst.Has x.reg) :
      SameStep dst polkavmCmov reg₁ reg₂
        (.exit exit (s.withReg (reg₁.write w))) (.exit exit (s.withReg (reg₂.write w)))
  | next (hostGas : ℕ) (w : Option Write) (s : Loop (MachineData μ))
      (hw : ∀ x ∈ w, dst.Has x.reg)
      (hdst : polkavmCmov = false → AgreeOn dst (reg₁.write w) (reg₂.write w)) :
      SameStep dst polkavmCmov reg₁ reg₂
        (.next hostGas (s.withReg (reg₁.write w))) (.next hostGas (s.withReg (reg₂.write w)))

lemma charge_withReg {μ : Type} (p : PVMCode) (gm : GasModel) (s : Loop (MachineData μ))
    (reg : Regs) :
    charge p gm (s.withReg reg) = (charge p gm s).map (Loop.withReg · reg) := by
  obtain ⟨pc, gas, start, skipLen, lookupBlock, data⟩ := s
  simp only [charge, Loop.withReg]
  split
  · rfl
  · cases start with
    | some start => rfl
    | none =>
      show (if gas < p.blockCost gm pc then none else some _) =
        Option.map _ (if gas < p.blockCost gm pc then none else some _)
      split_ifs <;> rfl

/-- The fetch and the charge do not look at the registers. -/
lemma Backend.enter_withReg {μ : Type} (B : Backend) (gm : GasModel) (p : PVMCode)
    (s : Loop (MachineData μ)) (reg : Regs) :
    B.enter gm p (s.withReg reg) =
      match B.enter gm p s with
      | .error (reason, s) => .error (reason, s.withReg reg)
      | .ok (s, opcode, argLen) => .ok (s.withReg reg, opcode, argLen) := by
  have hcharge := charge_withReg p gm s reg
  cases B with
  | graypaper =>
    simp only [Backend.enter, hcharge]
    cases charge p gm s with
    | none => rfl
    | some s' =>
      simp only [Option.map_some, Loop.withReg]
      cases p.fetch s'.pc <;> rfl
  | cpython =>
    simp only [Backend.enter, hcharge]
    have hpc : (s.withReg reg).pc = s.pc := rfl
    rw [hpc]
    cases p.fetch s.pc with
    | none => rfl
    | some fetched => cases charge p gm s <;> rfl
  | numba nativeGasCost =>
    have hentry : Numba.chargeOnEntry p gm (s.withReg reg) =
        (Numba.chargeOnEntry p gm s).map (Loop.withReg · reg) := by
      simp only [Numba.chargeOnEntry, hcharge]
      have hlookup : (s.withReg reg).lookupBlock = s.lookupBlock := rfl
      have hstart : (s.withReg reg).currentBlockStart = s.currentBlockStart := rfl
      rw [hlookup, hstart]
      split_ifs
      · cases charge p gm s <;> rfl
      · rfl
    simp only [Backend.enter, hentry]
    have hpc : (s.withReg reg).pc = s.pc := rfl
    rw [hpc]
    cases p.fetch s.pc with
    | none => rfl
    | some fetched => cases Numba.chargeOnEntry p gm s <;> rfl

/-- What is executed is the instruction at the program counter. -/
lemma Backend.enter_eq_ok {σ : Type*} {B : Backend} {gm : GasModel} {p : PVMCode} {s s' : Loop σ}
    {opcode : Opcode} {argLen : ℕ} (h : B.enter gm p s = .ok (s', opcode, argLen)) :
    s'.pc = s.pc ∧ p.fetch s.pc = some (opcode, argLen) := by
  cases B with
  | graypaper =>
    simp only [Backend.enter] at h
    cases hcharge : charge p gm s with
    | none => simp [hcharge] at h
    | some charged =>
      have hpc := (charge_keeps hcharge).1
      cases hfetch : p.fetch charged.pc with
      | none => simp [hcharge, hfetch] at h
      | some fetched =>
        simp only [hcharge, hfetch] at h
        cases h
        exact ⟨hpc, by rw [← hpc]; exact hfetch⟩
  | cpython =>
    simp only [Backend.enter] at h
    cases hfetch : p.fetch s.pc with
    | none => simp [hfetch] at h
    | some fetched =>
      cases hcharge : charge p gm s with
      | none => simp [hcharge, hfetch] at h
      | some charged =>
        simp only [hcharge, hfetch] at h
        cases h
        exact ⟨(charge_keeps hcharge).1, rfl⟩
  | numba nativeGasCost =>
    simp only [Backend.enter] at h
    cases hfetch : p.fetch s.pc with
    | none => simp [hfetch] at h
    | some fetched =>
      cases hcharge : Numba.chargeOnEntry p gm s with
      | none => simp [hcharge, hfetch] at h
      | some charged =>
        simp only [hcharge, hfetch] at h
        cases h
        exact ⟨(Numba.chargeOnEntry_keeps hcharge).1, rfl⟩

/-- The end of the loop body keeps two machines alike. -/
lemma finish_sameStep {μ : Type} {dst : RegMask} {polkavmCmov : Bool} {reg₁ reg₂ : Regs}
    {e₁ e₂ : Executed (MachineData μ)} (s : Loop (MachineData μ)) (opcode : Opcode) (argLen : ℕ)
    (h : SameEffect dst polkavmCmov reg₁ reg₂ e₁ e₂) :
    SameStep dst polkavmCmov reg₁ reg₂ (finish (s.withReg reg₁) opcode argLen e₁)
      (finish (s.withReg reg₂) opcode argLen e₂) := by
  cases h with
  | «continue» pc w mem hw hdst =>
    exact .next 0 w { s with
      pc := pc
      currentBlockStart := if opcode.isTermination then none else s.currentBlockStart
      skipLen := argLen + 1
      data := ⟨reg₁, mem⟩ } hw hdst
  | stop exit w mem hw =>
    exact .exit exit w { s with skipLen := argLen + 1, data := ⟨reg₁, mem⟩ } hw

/-- A round whose instruction is determined is the same on machines that agree on its sources. -/
lemma Backend.machineStep_sameStep {B : Backend} {t : ShiftTarget} {gm : GasModel} {p : PVMCode}
    {polkavmCmov : Bool} {s : Loop (MachineData B.Memory)} {src dst : RegMask} {reg₁ reg₂ : Regs}
    (hsets : instructionRegisters p.code s.pc polkavmCmov = .ok (src, dst))
    (hcall : Opcode.ofValue (byteAt p.code s.pc) ≠ some .ecalli)
    (hagree : AgreeOn src reg₁ reg₂)
    (hdetermined : ∀ s' opcode argLen, B.enter gm p s = .ok (s', opcode, argLen) →
      B.Determined t p s.pc argLen reg₁ opcode) (junk₁ junk₂ : BitVec 64) :
    SameStep dst polkavmCmov reg₁ reg₂ (B.machineStep t junk₁ gm p (s.withReg reg₁))
      (B.machineStep t junk₂ gm p (s.withReg reg₂)) := by
  simp only [Backend.machineStep, Backend.enter_withReg]
  cases hentry : B.enter gm p s with
  | error refused => exact .refuse refused.1 refused.2
  | ok entered =>
    obtain ⟨s', opcode, argLen⟩ := entered
    obtain ⟨hpc, hfetch⟩ := Backend.enter_eq_ok hentry
    have hopcode := (PVMCode.fetch_eq_some.mp hfetch).2
    simp only [instructionRegisters, hopcode, Except.ok.injEq] at hsets
    have hsrc : src = (opcode.registers (fetchRegs p.code s'.pc) polkavmCmov).1 := by
      rw [hpc, hsets]
    have hdst : dst = (opcode.registers (fetchRegs p.code s'.pc) polkavmCmov).2 := by
      rw [hpc, hsets]
    subst hsrc hdst
    have hserves := fun s : Loop (MachineData B.Memory) =>
      B.serves_eq_none (p := p) (fun h => hcall (h ▸ hopcode)) s argLen
    simp only [Backend.round, hserves]
    apply finish_sameStep
    have hdet : B.Determined t p s'.pc argLen reg₁ opcode := by
      rw [hpc]
      exact hdetermined s' opcode argLen hentry
    exact Backend.instruction_sameEffect hagree hdet junk₁ junk₂ s'.data.mem

/-! ## What is not determined differs -/

lemma SameStep.write_of_next {μ : Type} {dst : RegMask} {polkavmCmov : Bool} {reg₁ reg₂ : Regs}
    {fee₁ fee₂ : ℕ} {s₁ s₂ : Loop (MachineData μ)}
    (h : SameStep dst polkavmCmov reg₁ reg₂ (.next fee₁ s₁) (.next fee₂ s₂)) :
    ∃ w, s₁.data.reg = reg₁.write w ∧ s₂.data.reg = reg₂.write w := by
  cases h with
  | next _ w s hw hdst => exact ⟨w, rfl, rfl⟩

lemma SameStep.exit_eq {μ : Type} {dst : RegMask} {polkavmCmov : Bool} {reg₁ reg₂ : Regs}
    {exit₁ exit₂ : Exit} {s₁ s₂ : Loop (MachineData μ)}
    (h : SameStep dst polkavmCmov reg₁ reg₂ (.exit exit₁ s₁) (.exit exit₂ s₂)) :
    exit₁ = exit₂ := by
  cases h
  rfl

lemma Regs.write_word (reg : Regs) (r : Fin 13) (word : BitVec 64) :
    reg.write (some ⟨r, (word.toNat : ℤ)⟩) r = word := by
  simp [Regs.write, Regs.set]

/-- No single write puts a new word into a register of one machine and another word into the same
register of a second one. -/
lemma no_common_write {reg₁ reg₂ : Regs} {r : Fin 13} {w : Option Write} {word₁ word₂ : BitVec 64}
    (hnew : word₁ ≠ reg₁ r) (hne : word₁ ≠ word₂) (h₁ : reg₁.write w r = word₁)
    (h₂ : reg₂.write w r = word₂) : False := by
  cases w with
  | none => exact hnew h₁.symm
  | some w =>
    by_cases hr : r = w.reg
    · simp only [Regs.write, Option.elim_some, Regs.set, if_pos hr] at h₁ h₂
      exact hne (h₁.symm.trans h₂)
    · simp only [Regs.write, Option.elim_some, Regs.set, if_neg hr] at h₁
      exact hnew h₁.symm

/-- Two words that a register does not hold, whatever it holds. -/
lemma exists_new_words (word : BitVec 64) :
    ∃ word₁ word₂ : BitVec 64, word₁ ≠ word ∧ word₁ ≠ word₂ := by
  by_cases h : word = 0
  · exact ⟨1, 0, by rw [h]; decide, by decide⟩
  · exact ⟨0, 1, fun hzero => h hzero.symm, by decide⟩

/-- A rotation with an undefined shift writes whatever is found. -/
lemma Numba.instruction_undefined {nativeGasCost : ℕ} {t : ShiftTarget} {p : PVMCode}
    {pc argLen : ℕ} {opcode : Opcode} (hop : opcode ≠ .loadImmJumpInd) :
    ∃ r, ∀ reg, ¬ (Backend.numba nativeGasCost).Determined t p pc argLen reg opcode →
      ∀ junk mem, (Backend.numba nativeGasCost).instruction t junk p pc argLen opcode ⟨reg, mem⟩ =
        .ofNext (Numba.advance pc (argLen + 1 : ℕ))
          ⟨reg.write (some ⟨r, (junk.toNat : ℤ)⟩), mem⟩ := by
  cases opcode with
  | regRegImm o =>
    refine ⟨(fetchRegs p.code pc).low, fun reg h junk mem => ?_⟩
    have hpoison := (Numba.regRegImmValue_poison_iff t o (reg.get (fetchRegs p.code pc).high)
      (Numba.readImmediate p.code (pc + 2) (immWidth argLen))).mpr h
    simp only [Backend.instruction, ControlOp.ofOpcode, Backend.dialect, Dialect.dataStep,
      Numba.dialect, DataStep.withImmediate, Dialect.assign, hpoison, Numba.settle_poison]
    rfl
  | regRegReg o =>
    refine ⟨(fetchRegs p.code pc).third, fun reg h junk mem => ?_⟩
    have hpoison := (Numba.regRegRegValue_poison_iff t o (reg.get (fetchRegs p.code pc).low)
      (reg.get (fetchRegs p.code pc).high)).mpr h
    simp only [Backend.instruction, ControlOp.ofOpcode, Backend.dialect, Dialect.dataStep,
      Numba.dialect, Dialect.assign, hpoison, Numba.settle_poison]
    rfl
  | loadImmJumpInd => exact absurd rfl hop
  | _ => exact ⟨0, fun reg h => absurd trivial h⟩

/-- A word that leads a dynamic jump to any address. -/
lemma exists_jump_word (offset : ℕ) {a : ℕ} (ha : a < 2 ^ 32) :
    ∃ word : BitVec 64, (word.toNat + offset) % 2 ^ 64 % 2 ^ 32 = a := by
  refine ⟨BitVec.ofNat 64 (a + (2 ^ 64 - offset % 2 ^ 64)), ?_⟩
  rw [BitVec.toNat_ofNat]
  omega

/-- With a register that is not there, a dynamic jump can halt the machine or make it panic. -/
lemma Numba.control_undefined {nativeGasCost : ℕ} {t : ShiftTarget} {p : PVMCode}
    {pc argLen : ℕ} {reg : Regs}
    (h : ¬ (Backend.numba nativeGasCost).Determined t p pc argLen reg .loadImmJumpInd) :
    ∃ (w : Option Write) (junk₁ junk₂ : BitVec 64), ∀ reg',
      Numba.controlStepBeyond junk₁ p pc argLen reg' .loadImmJumpInd = ⟨.halt, w⟩ ∧
      Numba.controlStepBeyond junk₂ p pc argLen reg' .loadImmJumpInd = ⟨.panic, w⟩ := by
  simp only [Backend.Determined, not_or, not_le] at h
  obtain ⟨hnibble, htable⟩ := h
  obtain ⟨jumpTable, hjumpTable⟩ := Option.ne_none_iff_exists'.mp htable
  obtain ⟨junk₁, hhalt⟩ := exists_jump_word
    (Numba.readImmediate p.code (pc + 3 + jumpIndWidth p.code pc) (jumpIndOffsetWidth p.code pc argLen))
    (a := 2 ^ 32 - 2 ^ 16) (by norm_num)
  obtain ⟨junk₂, hpanic⟩ := exists_jump_word
    (Numba.readImmediate p.code (pc + 3 + jumpIndWidth p.code pc) (jumpIndOffsetWidth p.code pc argLen))
    (a := 0) (by norm_num)
  refine ⟨(Numba.loadImmJumpInd p jumpTable pc argLen 0).write, junk₁, junk₂, fun reg' => ?_⟩
  simp only [Numba.controlStepBeyond, hjumpTable, if_pos hnibble, Numba.loadImmJumpInd, hhalt,
    hpanic]
  exact ⟨rfl, rfl⟩

/-- A round whose instruction is not determined is not the same on two machines, whatever their
registers, for some words that may be found. -/
lemma Backend.machineStep_differs {B : Backend} {t : ShiftTarget} {gm : GasModel} {p : PVMCode}
    {s s' : Loop (MachineData B.Memory)} {reg₁ reg₂ : Regs} {opcode : Opcode} {argLen : ℕ}
    (dst : RegMask) (polkavmCmov : Bool)
    (hcall : Opcode.ofValue (byteAt p.code s.pc) ≠ some .ecalli)
    (hentry : B.enter gm p s = .ok (s', opcode, argLen))
    (h₁ : ¬ B.Determined t p s.pc argLen reg₁ opcode)
    (h₂ : ¬ B.Determined t p s.pc argLen reg₂ opcode) :
    ∃ junk₁ junk₂, ¬ SameStep dst polkavmCmov reg₁ reg₂
      (B.machineStep t junk₁ gm p (s.withReg reg₁))
      (B.machineStep t junk₂ gm p (s.withReg reg₂)) := by
  obtain ⟨hpc, hfetch⟩ := Backend.enter_eq_ok hentry
  have hopcode := (PVMCode.fetch_eq_some.mp hfetch).2
  have hserves := fun s : Loop (MachineData B.Memory) =>
    B.serves_eq_none (p := p) (fun h => hcall (h ▸ hopcode)) s argLen
  rw [← hpc] at h₁ h₂
  cases B with
  | graypaper | cpython => exact absurd trivial h₁
  | numba nativeGasCost =>
    have hround : ∀ junk reg, (Backend.numba nativeGasCost).machineStep t junk gm p (s.withReg reg) =
        finish (s'.withReg reg) opcode argLen ((Backend.numba nativeGasCost).instruction t junk p
          s'.pc argLen opcode ⟨reg, s'.data.mem⟩) := by
      intro junk reg
      simp only [Backend.machineStep, Backend.enter_withReg, hentry, Backend.round, hserves]
      rfl
    by_cases hop : opcode = .loadImmJumpInd
    · subst hop
      obtain ⟨w, junk₁, junk₂, hcontrol⟩ := Numba.control_undefined h₁
      refine ⟨junk₁, junk₂, fun hsame => ?_⟩
      rw [hround, hround] at hsame
      simp only [Backend.instruction, ControlOp.ofOpcode, Backend.control, (hcontrol reg₁).1,
        (hcontrol reg₂).2] at hsame
      have hexit := SameStep.exit_eq hsame
      cases hexit
    · obtain ⟨r, hundefined⟩ := Numba.instruction_undefined hop
      obtain ⟨word₁, word₂, hnew, hne⟩ := exists_new_words (reg₁ r)
      refine ⟨word₁, word₂, fun hsame => ?_⟩
      rw [hround, hround, hundefined reg₁ h₁, hundefined reg₂ h₂] at hsame
      obtain ⟨w, hw₁, hw₂⟩ := SameStep.write_of_next hsame
      have hword₁ : reg₁.write w r = word₁ :=
        (congrFun hw₁ r).symm.trans (Regs.write_word reg₁ r word₁)
      have hword₂ : reg₂.write w r = word₂ :=
        (congrFun hw₂ r).symm.trans (Regs.write_word reg₂ r word₂)
      exact no_common_write hnew hne hword₁ hword₂

/-- Whether an instruction is determined is read off its sources. -/
lemma Backend.determined_congr {B : Backend} {t : ShiftTarget} {p : PVMCode} {pc argLen : ℕ}
    {opcode : Opcode} {polkavmCmov : Bool} {reg₁ reg₂ : Regs}
    (h : AgreeOn (opcode.registers (fetchRegs p.code pc) polkavmCmov).1 reg₁ reg₂) :
    B.Determined t p pc argLen reg₁ opcode ↔ B.Determined t p pc argLen reg₂ opcode := by
  cases B with
  | graypaper | cpython => exact Iff.rfl
  | numba nativeGasCost =>
    cases opcode with
    | regRegImm o => simp only [Backend.Determined, AgreeOn.get_high_regRegImm h]
    | regRegReg o => simp only [Backend.Determined, (AgreeOn.of_regRegReg h).right.get_regBit]
    | _ => exact Iff.rfl

/-- Two machines that agree on the source set of an instruction, and differ in no more than their
registers, take the same step: they write the same word to the same register of the destination set, if
any, leave the same memory and go on at the same place or stop for the same reason, with the same gas.
What compiled code finds where nothing is defined makes no difference exactly when the instruction
that is executed is determined. -/
theorem registers_sound_iff (B : Backend) (t : ShiftTarget) (gm : GasModel) (p : PVMCode)
    (polkavmCmov : Bool) (s : Loop (MachineData B.Memory)) {src dst : RegMask} {reg₁ reg₂ : Regs}
    (hsets : instructionRegisters p.code s.pc polkavmCmov = .ok (src, dst))
    (hcall : Opcode.ofValue (byteAt p.code s.pc) ≠ some .ecalli)
    (hagree : AgreeOn src reg₁ reg₂) :
    (∀ junk₁ junk₂, SameStep dst polkavmCmov reg₁ reg₂
      (B.machineStep t junk₁ gm p (s.withReg reg₁))
      (B.machineStep t junk₂ gm p (s.withReg reg₂))) ↔
    ∀ s' opcode argLen, B.enter gm p s = .ok (s', opcode, argLen) →
      B.Determined t p s.pc argLen reg₁ opcode := by
  constructor
  · intro hsame s' opcode argLen hentry
    by_contra hdetermined
    have hopcode := (PVMCode.fetch_eq_some.mp (Backend.enter_eq_ok hentry).2).2
    simp only [instructionRegisters, hopcode, Except.ok.injEq] at hsets
    have hsrc : src = (opcode.registers (fetchRegs p.code s.pc) polkavmCmov).1 := by rw [hsets]
    subst hsrc
    obtain ⟨junk₁, junk₂, hdiffers⟩ := Backend.machineStep_differs dst polkavmCmov hcall hentry
      hdetermined
      (fun h => hdetermined ((Backend.determined_congr hagree).mpr h))
    exact hdiffers (hsame junk₁ junk₂)
  · exact fun hdetermined junk₁ junk₂ =>
      Backend.machineStep_sameStep hsets hcall hagree hdetermined junk₁ junk₂

/-- An interpreter at the beginning of the code, with some gas. -/
def atStart : Loop (MachineData Numba.Memory) :=
  ⟨0, 100, none, 0, true, ⟨fun _ => 0, CPython.Memory.empty⟩⟩

/-- `move_reg r0, r1` and a trap. -/
def copyRegister : PVMCode where
  code := [100, 16, 0]
  opcodeBitmask := [true, false, true]
  jumpTable := []
  code_length_le := by simp
  jumpTable_length_le := nil_length_le

lemma agreeOn_of_ne {r s : Fin 13} (word : BitVec 64) (h : r ≠ s) :
    AgreeOn (regBit r) (fun _ => 0) (fun i => if i = s then word else 0) := by
  intro i hi
  have hne : i ≠ s := by
    rw [has_regBit.mp hi]
    exact h
  exact (if_neg hne).symm

/-- Copying `r1` is the same on machines that differ in `r2`. -/
theorem copyRegister_sound :
    copyRegister.valid = true ∧
    SameStep (regBit 0) false (fun _ => 0) (fun i => if i = 2 then 7 else 0)
      ((Backend.numba 0).machineStep .poison 0 copyRegister.gasModel copyRegister
        (atStart.withReg (fun _ => 0)))
      ((Backend.numba 0).machineStep .poison 1 copyRegister.gasModel copyRegister
        (atStart.withReg (fun i => if i = 2 then 7 else 0))) :=
  ⟨by decide, (registers_sound_iff (.numba 0) .poison copyRegister.gasModel copyRegister false atStart
    (show instructionRegisters copyRegister.code 0 false = .ok (regBit 1, regBit 0) from rfl)
    (by decide) (agreeOn_of_ne 7 (by decide))).mpr (by
      intro s' opcode argLen hentry
      cases hentry
      trivial) 0 1⟩

/-- `load_imm_jump_ind` with the second register nibble thirteen. -/
def missingRegister : PVMCode where
  code := [180, 208, 0]
  opcodeBitmask := [true, false, false]
  jumpTable := []
  code_length_le := by simp
  jumpTable_length_le := nil_length_le

/-- What its one block costs. -/
lemma missingRegister_cost : missingRegister.gasModel.computeBlockGasCost 0 = 22 := by
  have hvalid : missingRegister.valid = true := by decide
  exact PVMCode.gasModel_eq hvalid (missingRegister.zero_mem_basicBlockStarts hvalid) le_rfl
    (by decide +kernel)

/-- A dynamic jump to a register that is not there: two machines that agree on the source, `r12`, and
can both pay the 22 units for the block can halt and panic. -/
theorem missingRegister_unsound :
    missingRegister.valid = true ∧
    missingRegister.gasModel.computeBlockGasCost 0 = 22 ∧ atStart.gas = 100 ∧
    instructionRegisters missingRegister.code 0 false = .ok (regBit 12, regBit 0) ∧
    AgreeOn (regBit 12) (fun _ => 0) (fun i => if i = 2 then 7 else 0) ∧
    ¬ SameStep (regBit 0) false (fun _ => 0) (fun i => if i = 2 then 7 else 0)
      ((Backend.numba 0).machineStep .masked 4294901760 missingRegister.gasModel missingRegister
        (atStart.withReg (fun _ => 0)))
      ((Backend.numba 0).machineStep .masked 0 missingRegister.gasModel missingRegister
        (atStart.withReg (fun i => if i = 2 then 7 else 0))) := by
  refine ⟨by decide, missingRegister_cost, rfl, rfl, agreeOn_of_ne 7 (by decide), fun hsame => ?_⟩
  have hexit : Exit.halt = Exit.panic := SameStep.exit_eq hsame
  cases hexit

end Pvm
