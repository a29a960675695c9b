import Mathlib.Data.List.MinMax
import Pyjamaz.Pvm.ControlFlow

/-!
# Agreement of the interpreters on control flow

`controlStep_agree_iff` says when one step of a control-flow instruction is the same in all three
interpreters.  Static jumps, branches and host calls always agree: a target that passes the
block-start test lies inside the code, so none of the three ways of adding the offset can wrap.

Three things separate the interpreters.  Numba stores the jump table as `int32` and cannot be
constructed with a larger entry.  `load_imm_jump_ind` clamps its second register only in CPython.
And `djump_jit` returns the distance to its target in the same number as its codes for halt and
panic, so a target one or two bytes before the program counter is not reached.
-/

namespace Pvm

open TwosComplement

/-! ## Block starts -/

lemma PVMCode.isBlockStart_iff (p : PVMCode) (target : ℤ) :
    p.isBlockStart target = true ↔ ∃ s ∈ p.basicBlockStarts, (s : ℤ) = target := by
  simp [PVMCode.isBlockStart]

lemma PVMCode.isBlockStart_natCast (p : PVMCode) (s : ℕ) :
    p.isBlockStart s = true ↔ s ∈ p.basicBlockStarts := by
  simp [PVMCode.isBlockStart]

/-- A block start is a small nonnegative number. -/
lemma PVMCode.bounds_of_isBlockStart (p : PVMCode) {target : ℤ} (h : p.isBlockStart target = true) :
    0 ≤ target ∧ target < 2 ^ 25 := by
  obtain ⟨s, hs, rfl⟩ := (p.isBlockStart_iff target).mp h
  have hlt := p.basicBlockStart_lt hs
  have hle := p.code_length_le
  omega

/-- The mask reaches every block start. -/
lemma Numba.lt_length_basicBlockStartMask (p : PVMCode) {s : ℕ} (h : s ∈ p.basicBlockStarts) :
    s < (Numba.basicBlockStartMask p).length := by
  have hmem := mem_positions_of_mem_detectBasicBlocks h
  have hne : (decodeInstructions p.code p.opcodeBitmask).1.map Prod.fst ≠ [] :=
    List.ne_nil_of_mem hmem
  simp only [Numba.basicBlockStartMask, List.length_map, List.length_range, if_neg hne]
  exact Nat.lt_succ_of_le (List.le_max_of_le hmem le_rfl)

/-- The byte mask answers the same question as the set of block starts. -/
lemma Numba.maskAt_basicBlockStartMask (p : PVMCode) (target : ℤ) :
    Numba.maskAt (Numba.basicBlockStartMask p) target = p.isBlockStart target := by
  rw [Bool.eq_iff_iff, p.isBlockStart_iff, Numba.maskAt, decide_eq_true_iff]
  constructor
  · rintro ⟨h0, hlt, hget⟩
    obtain ⟨n, rfl⟩ := Int.eq_ofNat_of_zero_le h0
    have hn : n < (Numba.basicBlockStartMask p).length := by exact_mod_cast hlt
    rw [Int.toNat_natCast, List.getD_eq_getElem _ _ hn] at hget
    refine ⟨n, ?_, rfl⟩
    simpa [Numba.basicBlockStartMask] using hget
  · rintro ⟨s, hs, rfl⟩
    have hlt := Numba.lt_length_basicBlockStartMask p hs
    refine ⟨by positivity, by exact_mod_cast hlt, ?_⟩
    rw [Int.toNat_natCast, List.getD_eq_getElem _ _ hlt]
    simpa [Numba.basicBlockStartMask] using hs

/-! ## Offsets and the move to a target -/

lemma CPython.offset_eq (code : List UInt8) (addr : ℕ) {l : ℕ} (hl : l ≤ 4) :
    CPython.offset code addr l = Graypaper.offset code addr l := by
  have hlt := Graypaper.readUint_lt code addr hl
  rw [CPython.offset, Graypaper.offset, CPython.readUint_eq code addr hl]
  rcases Nat.eq_zero_or_pos l with rfl | hpos
  · rfl
  · rw [CPython.pvmZ_eq hpos.ne', Nat.mod_eq_of_lt hlt, Graypaper.pvmZ_eq]

lemma Numba.offset_eq (code : List UInt8) (addr : ℕ) {l : ℕ} (hl : l ≤ 4) :
    Numba.offset code addr l = Graypaper.offset code addr l := by
  have hlt := Graypaper.readUint_lt code addr hl
  rw [Numba.offset, Graypaper.offset, Numba.readUint_eq code addr hl, CPython.readUint_eq code addr hl]
  rcases Nat.eq_zero_or_pos l with rfl | hpos
  · rfl
  · rw [Numba.pvmZ_eq hpos (by omega), Nat.mod_eq_of_lt hlt, Graypaper.pvmZ_eq]

/-- The program counter that a distance leads to, when the target is a block start. -/
lemma CPython.advance_eq (p : PVMCode) {pc : ℕ} {skipLen : ℤ}
    (h : p.isBlockStart (pc + skipLen) = true) :
    CPython.advance pc skipLen = .continue (pc + skipLen).toNat := by
  obtain ⟨h0, hlt⟩ := p.bounds_of_isBlockStart h
  rw [CPython.advance, unsigned, Int.emod_eq_of_lt h0 (by omega)]

lemma Graypaper.advance_eq (p : PVMCode) {pc : ℕ} {skipLen : ℤ}
    (h : p.isBlockStart (pc + skipLen) = true) :
    Graypaper.advance pc skipLen = CPython.advance pc skipLen := by
  obtain ⟨h0, hlt⟩ := p.bounds_of_isBlockStart h
  rw [CPython.advance_eq p h, Graypaper.advance, if_pos ⟨h0, by omega⟩]

lemma Numba.advance_eq : Numba.advance = CPython.advance := rfl

/-! ## Static jumps and branches -/

lemma Graypaper.sjump_eq (p : PVMCode) (pc : ℕ) (offset : ℤ) :
    Graypaper.sjump p pc offset = CPython.sjump p pc offset := by
  rw [Graypaper.sjump, CPython.sjump]
  split
  · next h => exact Graypaper.advance_eq p h
  · rfl

lemma Graypaper.branch_eq (p : PVMCode) (pc argLen : ℕ) (b : ℤ) (C : Bool) :
    Graypaper.branch p pc argLen b C = CPython.branch p pc argLen b C := by
  rw [Graypaper.branch, CPython.branch]
  split
  · rfl
  · next h =>
    simp only [Bool.or_eq_true, Bool.not_eq_true', not_or, Bool.not_eq_false] at h
    apply Graypaper.advance_eq p
    cases C with
    | true => exact h.1
    | false => exact h.2

/-- With no fallthrough to check, `branch_jit` only tests the target. -/
lemma Numba.branchJit_true_neg_one (p : PVMCode) (pc : ℕ) (v : ℤ) :
    Numba.branchJit (Numba.basicBlockStartMask p) pc v true (-1) =
      if p.isBlockStart (pc + v) then 1 else -1 := by
  rw [Numba.branchJit, Numba.maskAt_basicBlockStartMask]
  cases p.isBlockStart (pc + v) <;> simp

/-- With a fallthrough to check, `branch_jit` tests both. -/
lemma Numba.branchJit_fallthrough (p : PVMCode) (pc n : ℕ) (v : ℤ) (C : Bool) :
    Numba.branchJit (Numba.basicBlockStartMask p) pc v C (pc + n) =
      if !p.isBlockStart (pc + v) || !p.isBlockStart (pc + n) then -1
      else if C then 1 else 0 := by
  have hnonneg : (0 : ℤ) ≤ pc + n := by positivity
  have hft := Numba.maskAt_basicBlockStartMask p (pc + n)
  rw [Numba.maskAt] at hft
  simp only [hnonneg, true_and] at hft
  rw [Numba.branchJit, Numba.maskAt_basicBlockStartMask, ← hft]
  cases p.isBlockStart (pc + v) <;> simp [hnonneg]

lemma Numba.sjump_eq (p : PVMCode) (pc : ℕ) (v : ℤ) :
    Numba.sjump (Numba.basicBlockStartMask p) pc v = CPython.sjump p pc v := by
  rw [Numba.sjump, CPython.sjump, Numba.branchJit_true_neg_one, Numba.advance_eq]
  cases p.isBlockStart (pc + v) <;> simp

lemma Numba.branch_eq (p : PVMCode) (pc argLen : ℕ) (v : ℤ) (C : Bool) :
    Numba.branch (Numba.basicBlockStartMask p) pc argLen v C = CPython.branch p pc argLen v C := by
  rw [Numba.branch, CPython.branch, Numba.branchJit_fallthrough, Numba.advance_eq]
  cases hbad : !p.isBlockStart (pc + v) || !p.isBlockStart (pc + (argLen + 1 : ℕ)) with
  | true => simp
  | false => cases C <;> simp

/-! ## Dynamic jumps -/

/-- The table entry that a dynamic jump to address `a` goes to, when it is a block start. -/
def PVMCode.dynamicTarget (p : PVMCode) (a : ℕ) : Option ℕ :=
  if a = 2 ^ 32 - 2 ^ 16 ∨ a = 0 ∨ a % 2 ≠ 0 then none
  else (p.jumpTable[a / 2 - 1]?).filter (fun e => p.isBlockStart e)

lemma Graypaper.djump_eq (p : PVMCode) (pc a : ℕ) :
    Graypaper.djump p pc a = CPython.djump p pc a := by
  rw [Graypaper.djump, CPython.djump]
  split_ifs with hhalt hbad
  · rfl
  · rfl
  · cases p.jumpTable[a / 2 - 1]? with
    | none => rfl
    | some e =>
      simp only
      split
      · next he =>
        apply Graypaper.advance_eq p
        rwa [add_sub_cancel]
      · rfl

/-- A jump that reaches a table entry continues there. -/
lemma CPython.djump_of_dynamicTarget (p : PVMCode) {pc a e : ℕ} (h : p.dynamicTarget a = some e) :
    CPython.djump p pc a = .continue e := by
  rw [PVMCode.dynamicTarget] at h
  split_ifs at h with hbad
  obtain ⟨hget, hstart⟩ := Option.filter_eq_some_iff.mp h
  push Not at hbad
  have hstart' : p.isBlockStart (pc + ((e : ℤ) - pc)) = true := by
    rwa [add_sub_cancel]
  rw [CPython.djump, if_neg hbad.1, if_neg (by tauto), hget]
  simp only [hstart, if_true, CPython.advance_eq p hstart', add_sub_cancel, Int.toNat_natCast]

/-- Every other jump halts or panics, in Numba as in CPython. -/
lemma Numba.djump_of_not_dynamicTarget (p : PVMCode) (pc a : ℕ) (h : p.dynamicTarget a = none) :
    Numba.djump p.jumpTable (Numba.basicBlockStartMask p) pc a = CPython.djump p pc a := by
  rw [Numba.djump, CPython.djump, Numba.djumpJit]
  rw [PVMCode.dynamicTarget] at h
  by_cases hhalt : a = 2 ^ 32 - 2 ^ 16
  · simp [hhalt]
  by_cases hbad : a = 0 ∨ a % 2 ≠ 0
  · have hbad' : a = 0 ∨ p.jumpTable.length * 2 < a ∨ a % 2 ≠ 0 := by tauto
    simp only [if_neg hhalt, if_pos hbad, if_pos hbad']
    rfl
  rw [if_neg (by tauto)] at h
  rw [if_neg hhalt, if_neg hhalt, if_neg hbad]
  cases hget : p.jumpTable[a / 2 - 1]? with
  | none => simp
  | some e =>
    have hstart : p.isBlockStart e = false := by
      rw [hget, Option.filter_eq_none_iff] at h
      simpa using h e rfl
    simp [Numba.maskAt_basicBlockStartMask, hstart]

/-- On a reached table entry `djump_jit` returns the distance, which no 32-bit conversion changes. -/
lemma Numba.djumpJit_of_dynamicTarget (p : PVMCode) {pc a e : ℕ} (hpc : pc < 2 ^ 25)
    (h : p.dynamicTarget a = some e) :
    Numba.djumpJit p.jumpTable (Numba.basicBlockStartMask p) a pc = (e : ℤ) - pc := by
  rw [PVMCode.dynamicTarget] at h
  split_ifs at h with hbad
  obtain ⟨hget, hstart⟩ := Option.filter_eq_some_iff.mp h
  obtain ⟨hlt, -⟩ := List.getElem?_eq_some_iff.mp hget
  have hbounds := p.bounds_of_isBlockStart hstart
  push Not at hbad
  have hsigned : signed 32 (unsigned 32 ((e : ℤ) - pc)) = (e : ℤ) - pc :=
    signed_unsigned_of_bounds (by norm_num) (by omega) (by omega)
  rw [Numba.djumpJit, if_neg hbad.1, if_neg (by omega), hget]
  simp only [Numba.maskAt_basicBlockStartMask, hstart, Bool.not_true, hsigned]
  rfl

/-- The distances `-1` and `-2` are taken for the codes of halt and panic. -/
lemma Numba.djump_eq_iff (p : PVMCode) {pc a : ℕ} (hpc : pc < 2 ^ 25) :
    Numba.djump p.jumpTable (Numba.basicBlockStartMask p) pc a = CPython.djump p pc a ↔
      ∀ e ∈ p.dynamicTarget a, e + 1 ≠ pc ∧ e + 2 ≠ pc := by
  cases h : p.dynamicTarget a with
  | none => simp [Numba.djump_of_not_dynamicTarget p pc a h]
  | some e =>
    have hstart : p.isBlockStart (pc + ((e : ℤ) - pc)) = true := by
      rw [PVMCode.dynamicTarget] at h
      split_ifs at h
      rw [add_sub_cancel]
      exact (Option.filter_eq_some_iff.mp h).2
    rw [CPython.djump_of_dynamicTarget p h, Numba.djump, Numba.djumpJit_of_dynamicTarget p hpc h]
    simp only [Option.mem_def, Option.some.injEq, forall_eq']
    constructor
    · intro hsame
      refine ⟨fun h1 => ?_, fun h2 => ?_⟩
      · rw [if_pos (by omega)] at hsame
        cases hsame
      · rw [if_neg (by omega), if_pos (by omega)] at hsame
        cases hsame
    · rintro ⟨h1, h2⟩
      rw [if_neg (by omega), if_neg (by omega), Numba.advance_eq, CPython.advance_eq p hstart,
        add_sub_cancel, Int.toNat_natCast]

/-! ## The whole step -/

/-- A host-call number as an unsigned 64-bit value. -/
def Next.asUnsigned : Next → Next
  | .hostHalt exitValue => .hostHalt (unsigned 64 exitValue)
  | next => next

/-- A control-flow step with its host-call number read as an unsigned 64-bit value. -/
def ControlStep.asUnsigned (s : ControlStep) : ControlStep := { s with next := s.next.asUnsigned }

/-- The three interpreters make the same step, and it is not an exception or an undefined read. -/
def ControlAgree (p : PVMCode) (pc argLen : ℕ) (reg : Regs) (op : ControlOp) : Prop :=
  ∃ s : ControlStep, s.next ≠ .raised ∧ s.next ≠ .undefined ∧
    (Graypaper.controlStep p pc argLen reg op).asUnsigned = s ∧
    (CPython.controlStep p pc argLen reg op).asUnsigned = s ∧
    (Numba.controlStep p pc argLen reg op).asUnsigned = s

/-- The address of a dynamic jump: the jump register plus the immediate. -/
def dynamicAddress (p : PVMCode) (pc argLen : ℕ) (reg : Regs) (op : ControlOp) : Option ℕ :=
  let b1 := byteAt p.code (pc + 1)
  match op with
  | .jumpInd =>
    some ((reg.get (clampReg (b1 % 16)) + immediate p.code (pc + 2) (immWidth argLen)) % 2 ^ 32)
  | .loadImmJumpInd =>
    some ((reg.get (clampReg (b1 / 16)) +
      immediate p.code (pc + 3 + jumpIndWidth p.code pc) (jumpIndOffsetWidth p.code pc argLen)) %
        2 ^ 32)
  | _ => none

/-- The steps on which the interpreters agree: the jump table fits in `int32`, a
`load_imm_jump_ind` names an existing second register, and no dynamic jump goes one or two bytes
back. -/
structure ControlOk (p : PVMCode) (pc argLen : ℕ) (reg : Regs) (op : ControlOp) : Prop where
  table : ∀ e ∈ p.jumpTable, e < 2 ^ 31
  register : op = .loadImmJumpInd → byteAt p.code (pc + 1) / 16 ≤ 12
  distance : ∀ a ∈ dynamicAddress p pc argLen reg op, ∀ e ∈ p.dynamicTarget a,
    e + 1 ≠ pc ∧ e + 2 ≠ pc

lemma Graypaper.withImmediate_eq (code : List UInt8) (addr : ℕ) {l : ℕ} (hl : l ≤ 4)
    (k : ℕ → ControlStep) :
    Graypaper.withImmediate code addr l k = k (immediate code addr l) := by
  rw [Graypaper.withImmediate, Graypaper.pvmX_readUint code addr hl]

lemma CPython.readImmediate_eq (code : List UInt8) (addr : ℕ) {l : ℕ} (hl : l ≤ 4) :
    CPython.readImmediate code addr l = immediate code addr l :=
  CPython.pvmX_readUint code addr hl

lemma Numba.readImmediate_eq (code : List UInt8) (addr : ℕ) {l : ℕ} (hl : l ≤ 4) :
    Numba.readImmediate code addr l = immediate code addr l :=
  Numba.pvmX_readUint code addr hl

lemma branchImmWidth_le (code : List UInt8) (pc : ℕ) : branchImmWidth code pc ≤ 4 :=
  min_le_left _ _

lemma branchImmOffsetWidth_le (code : List UInt8) (pc argLen : ℕ) :
    branchImmOffsetWidth code pc argLen ≤ 4 := min_le_left _ _

lemma jumpIndWidth_le (code : List UInt8) (pc : ℕ) : jumpIndWidth code pc ≤ 4 := min_le_left _ _

lemma jumpIndOffsetWidth_le (code : List UInt8) (pc argLen : ℕ) :
    jumpIndOffsetWidth code pc argLen ≤ 4 := min_le_left _ _

/-- Reading a register as a signed number, in all three. -/
lemma CPython.pvmZ_register {n : ℕ} (hn : n < 2 ^ 64) : CPython.pvmZ n 8 = Graypaper.pvmZ n 8 := by
  rw [CPython.pvmZ_eq (by norm_num), Graypaper.pvmZ_eq, Nat.mod_eq_of_lt hn]

lemma Numba.pvmZ_register (n : ℕ) : Numba.pvmZ n 8 = Graypaper.pvmZ n 8 := by
  rw [Numba.pvmZ_eight, Graypaper.pvmZ_eq]

lemma CPython.branchImmCondition_eq (o : RegImmOffsetOp) {w v : ℕ} (hw : w < 2 ^ 64)
    (hv : v < 2 ^ 64) :
    branchImmCondition (fun n => CPython.pvmZ n 8) o w v =
      branchImmCondition (fun n => Graypaper.pvmZ n 8) o w v := by
  cases o <;> simp only [branchImmCondition, CPython.pvmZ_register hw, CPython.pvmZ_register hv]

lemma CPython.branchCondition_eq (o : RegRegOffsetOp) {w v : ℕ} (hw : w < 2 ^ 64)
    (hv : v < 2 ^ 64) :
    branchCondition (fun n => CPython.pvmZ n 8) o w v =
      branchCondition (fun n => Graypaper.pvmZ n 8) o w v := by
  cases o <;> simp only [branchCondition, CPython.pvmZ_register hw, CPython.pvmZ_register hv]

lemma Numba.pvmZ_register_fun : (fun n => Numba.pvmZ n 8) = (fun n => Graypaper.pvmZ n 8) :=
  funext Numba.pvmZ_register

/-- The Graypaper and CPython interpreters only differ in the register that `load_imm_jump_ind`
reads. -/
lemma Graypaper.controlStep_eq (p : PVMCode) (pc argLen : ℕ) (reg : Regs) (op : ControlOp)
    (h : op = .loadImmJumpInd → byteAt p.code (pc + 1) / 16 ≤ 12) :
    Graypaper.controlStep p pc argLen reg op = CPython.controlStep p pc argLen reg op := by
  have hmin : min 4 argLen ≤ 4 := min_le_left _ _
  cases op with
  | fallthrough => simp only [Graypaper.controlStep, CPython.controlStep, Graypaper.sjump_eq]
  | ecalli =>
    simp only [Graypaper.controlStep, CPython.controlStep, Graypaper.withImmediate_eq _ _ hmin,
      CPython.readImmediate_eq _ _ hmin]
  | jump =>
    simp only [Graypaper.controlStep, CPython.controlStep, Graypaper.sjump_eq,
      CPython.offset_eq _ _ hmin]
  | jumpInd =>
    simp only [Graypaper.controlStep, CPython.controlStep,
      Graypaper.withImmediate_eq _ _ (immWidth_le argLen),
      CPython.readImmediate_eq _ _ (immWidth_le argLen), Graypaper.djump_eq]
  | regImmOffset o =>
    have hx := branchImmWidth_le p.code pc
    have hy := branchImmOffsetWidth_le p.code pc argLen
    have hw := reg.get_lt (clampReg (byteAt p.code (pc + 1) % 16))
    have hv := immediate_lt p.code (pc + 2) hx
    simp only [Graypaper.controlStep, CPython.controlStep, Graypaper.withImmediate_eq _ _ hx,
      CPython.readImmediate_eq _ _ hx, CPython.offset_eq _ _ hy, Graypaper.sjump_eq,
      Graypaper.branch_eq, CPython.branchImmCondition_eq o hw hv]
  | regRegOffset o =>
    have hw := reg.get_lt (clampReg (byteAt p.code (pc + 1) % 16))
    have hv := reg.get_lt (clampReg (byteAt p.code (pc + 1) / 16))
    simp only [Graypaper.controlStep, CPython.controlStep, CPython.offset_eq _ _ (immWidth_le argLen),
      Graypaper.branch_eq, CPython.branchCondition_eq o hw hv]
  | loadImmJumpInd =>
    have hx := jumpIndWidth_le p.code pc
    have hy := jumpIndOffsetWidth_le p.code pc argLen
    have hreg : ¬ 12 < byteAt p.code (pc + 1) / 16 := not_lt.mpr (h rfl)
    simp only [Graypaper.controlStep, CPython.controlStep, if_neg hreg,
      Graypaper.withImmediate_eq _ _ hx, Graypaper.withImmediate_eq _ _ hy,
      CPython.readImmediate_eq _ _ hx, CPython.readImmediate_eq _ _ hy, Graypaper.djump_eq]

/-- A Numba interpreter that can be constructed has the whole jump table. -/
lemma Numba.jumpTableArray_of_lt (p : PVMCode) (h : ∀ e ∈ p.jumpTable, e < 2 ^ 31) :
    Numba.jumpTableArray p = some p.jumpTable := by
  rw [Numba.jumpTableArray, if_pos]
  simpa using h

lemma Numba.jumpTableArray_of_not_lt (p : PVMCode) (h : ¬ ∀ e ∈ p.jumpTable, e < 2 ^ 31) :
    Numba.jumpTableArray p = none := by
  rw [Numba.jumpTableArray, if_neg]
  simpa using h

/-- A step of CPython's goes to the next instruction, halts, panics or calls the host. -/
lemma CPython.controlStep_next (p : PVMCode) (pc argLen : ℕ) (reg : Regs) (op : ControlOp) :
    (CPython.controlStep p pc argLen reg op).next ≠ .raised ∧
      (CPython.controlStep p pc argLen reg op).next ≠ .undefined := by
  have hsjump : ∀ v, CPython.sjump p pc v ≠ .raised ∧ CPython.sjump p pc v ≠ .undefined := by
    intro v
    rw [CPython.sjump]
    split <;> exact ⟨nofun, nofun⟩
  have hbranch : ∀ v C, CPython.branch p pc argLen v C ≠ .raised ∧
      CPython.branch p pc argLen v C ≠ .undefined := by
    intro v C
    rw [CPython.branch]
    split <;> exact ⟨nofun, nofun⟩
  have hdjump : ∀ a, CPython.djump p pc a ≠ .raised ∧ CPython.djump p pc a ≠ .undefined := by
    intro a
    cases h : p.dynamicTarget a with
    | none =>
      rw [← Numba.djump_of_not_dynamicTarget p pc a h, Numba.djump]
      split_ifs <;> exact ⟨nofun, nofun⟩
    | some e =>
      rw [CPython.djump_of_dynamicTarget p h]
      exact ⟨nofun, nofun⟩
  cases op with
  | fallthrough => exact hsjump _
  | ecalli => exact ⟨nofun, nofun⟩
  | jump => exact hsjump _
  | jumpInd => exact hdjump _
  | regImmOffset o =>
    cases o with
    | loadImmJump => exact hsjump _
    | _ => exact hbranch _ _
  | regRegOffset o => exact hbranch _ _
  | loadImmJumpInd => exact hdjump _

lemma CPython.djump_asUnsigned (p : PVMCode) (pc a : ℕ) :
    (CPython.djump p pc a).asUnsigned = CPython.djump p pc a := by
  rw [CPython.djump]
  split_ifs
  · rfl
  · rfl
  · cases p.jumpTable[a / 2 - 1]? with
    | none => rfl
    | some e =>
      simp only
      split <;> rfl

lemma Numba.djump_asUnsigned (jumpTable : List ℕ) (mask : List Bool) (pc a : ℕ) :
    (Numba.djump jumpTable mask pc a).asUnsigned = Numba.djump jumpTable mask pc a := by
  rw [Numba.djump]
  split_ifs <;> rfl

/-- Adding to a register may wrap at 64 bits before the address is cut to 32. -/
lemma address_mod (n : ℕ) : n % 2 ^ 64 % 2 ^ 32 = n % 2 ^ 32 :=
  Nat.mod_mod_of_dvd n (pow_dvd_pow 2 (by norm_num))

/-- Numba makes CPython's step unless a dynamic jump goes one or two bytes back. -/
lemma Numba.controlStep_eq_iff (p : PVMCode) {pc : ℕ} (argLen : ℕ) (reg : Regs) (op : ControlOp)
    (hpc : pc < 2 ^ 25) (htable : ∀ e ∈ p.jumpTable, e < 2 ^ 31)
    (hreg : op = .loadImmJumpInd → byteAt p.code (pc + 1) / 16 ≤ 12) :
    (Numba.controlStep p pc argLen reg op).asUnsigned =
        (CPython.controlStep p pc argLen reg op).asUnsigned ↔
      ∀ a ∈ dynamicAddress p pc argLen reg op, ∀ e ∈ p.dynamicTarget a,
        e + 1 ≠ pc ∧ e + 2 ≠ pc := by
  have hmin : min 4 argLen ≤ 4 := min_le_left _ _
  have harray := Numba.jumpTableArray_of_lt p htable
  cases op with
  | fallthrough =>
    simp [Numba.controlStep, CPython.controlStep, harray, Numba.sjump_eq, dynamicAddress]
  | ecalli =>
    have hlt := immediate_lt p.code (pc + 1) hmin
    simp [Numba.controlStep, CPython.controlStep, harray, Numba.readImmediate_eq _ _ hmin,
      CPython.readImmediate_eq _ _ hmin, ControlStep.asUnsigned, Next.asUnsigned,
      unsigned_signed hlt, unsigned_natCast hlt, dynamicAddress]
  | jump =>
    simp [Numba.controlStep, CPython.controlStep, harray, Numba.sjump_eq, Numba.offset_eq _ _ hmin,
      CPython.offset_eq _ _ hmin, dynamicAddress]
  | jumpInd =>
    simp only [Numba.controlStep, CPython.controlStep, harray,
      Numba.readImmediate_eq _ _ (immWidth_le argLen),
      CPython.readImmediate_eq _ _ (immWidth_le argLen), address_mod, ControlStep.asUnsigned,
      Numba.djump_asUnsigned, CPython.djump_asUnsigned, dynamicAddress, Option.mem_def,
      Option.some.injEq, forall_eq', ControlStep.mk.injEq, and_true]
    exact Numba.djump_eq_iff p hpc
  | regImmOffset o =>
    have hx := branchImmWidth_le p.code pc
    have hy := branchImmOffsetWidth_le p.code pc argLen
    have hw := reg.get_lt (clampReg (byteAt p.code (pc + 1) % 16))
    have hv := immediate_lt p.code (pc + 2) hx
    simp [Numba.controlStep, CPython.controlStep, harray, Numba.readImmediate_eq _ _ hx,
      CPython.readImmediate_eq _ _ hx, Numba.offset_eq _ _ hy, CPython.offset_eq _ _ hy,
      Numba.sjump_eq, Numba.branch_eq, Numba.pvmZ_register_fun,
      CPython.branchImmCondition_eq o hw hv, dynamicAddress]
  | regRegOffset o =>
    have hw := reg.get_lt (clampReg (byteAt p.code (pc + 1) % 16))
    have hv := reg.get_lt (clampReg (byteAt p.code (pc + 1) / 16))
    simp [Numba.controlStep, CPython.controlStep, harray, Numba.offset_eq _ _ (immWidth_le argLen),
      CPython.offset_eq _ _ (immWidth_le argLen), Numba.branch_eq, Numba.pvmZ_register_fun,
      CPython.branchCondition_eq o hw hv, dynamicAddress]
  | loadImmJumpInd =>
    have hx := jumpIndWidth_le p.code pc
    have hy := jumpIndOffsetWidth_le p.code pc argLen
    have hreg' : ¬ 12 < byteAt p.code (pc + 1) / 16 := not_lt.mpr (hreg rfl)
    simp only [Numba.controlStep, CPython.controlStep, harray, if_neg hreg',
      Numba.readImmediate_eq _ _ hx, Numba.readImmediate_eq _ _ hy,
      CPython.readImmediate_eq _ _ hx, CPython.readImmediate_eq _ _ hy, address_mod,
      ControlStep.asUnsigned, Numba.djump_asUnsigned, CPython.djump_asUnsigned, dynamicAddress,
      Option.mem_def, Option.some.injEq, forall_eq', ControlStep.mk.injEq, and_true]
    exact Numba.djump_eq_iff p hpc

/-- The step of an interpreter whose table does not fit, or that reads past the registers. -/
lemma Numba.controlStep_of_not_register (p : PVMCode) {pc argLen : ℕ} {reg : Regs}
    (htable : ∀ e ∈ p.jumpTable, e < 2 ^ 31) (hreg : 12 < byteAt p.code (pc + 1) / 16) :
    Numba.controlStep p pc argLen reg .loadImmJumpInd = ⟨.undefined, none⟩ := by
  simp only [Numba.controlStep, Numba.jumpTableArray_of_lt p htable, if_pos hreg]

/-- Control flow is the same in the three interpreters exactly where the table fits, the second
register exists and no dynamic jump goes one or two bytes back. -/
theorem controlStep_agree_iff (p : PVMCode) {pc argLen : ℕ} (harg : p.instArgLen pc = some argLen)
    (reg : Regs) (op : ControlOp) :
    ControlAgree p pc argLen reg op ↔ ControlOk p pc argLen reg op := by
  have hpc : pc < 2 ^ 25 := lt_of_lt_of_le (p.pc_lt harg) p.code_length_le
  constructor
  · rintro ⟨s, hraised, hundefined, -, hc, hn⟩
    have htable : ∀ e ∈ p.jumpTable, e < 2 ^ 31 := by
      by_contra hbig
      apply hraised
      rw [← hn, Numba.controlStep, Numba.jumpTableArray_of_not_lt p hbig]
      rfl
    have hreg : op = .loadImmJumpInd → byteAt p.code (pc + 1) / 16 ≤ 12 := by
      rintro rfl
      by_contra hbig
      apply hundefined
      rw [← hn, Numba.controlStep_of_not_register p htable (not_le.mp hbig)]
      rfl
    exact ⟨htable, hreg, (Numba.controlStep_eq_iff p argLen reg op hpc htable hreg).mp
      (hn.trans hc.symm)⟩
  · rintro ⟨htable, hreg, hdist⟩
    have hnext := CPython.controlStep_next p pc argLen reg op
    refine ⟨(CPython.controlStep p pc argLen reg op).asUnsigned, ?_, ?_, ?_, rfl, ?_⟩
    · intro h
      apply hnext.1
      revert h
      cases hs : (CPython.controlStep p pc argLen reg op).next <;>
        simp [ControlStep.asUnsigned, Next.asUnsigned, hs]
    · intro h
      apply hnext.2
      revert h
      cases hs : (CPython.controlStep p pc argLen reg op).next <;>
        simp [ControlStep.asUnsigned, Next.asUnsigned, hs]
    · rw [Graypaper.controlStep_eq p pc argLen reg op hreg]
    · exact (Numba.controlStep_eq_iff p argLen reg op hpc htable hreg).mpr hdist

/-- A block of one `fallthrough`, then a `jump_ind` back to it through the jump table. -/
def jumpBackOne : PVMCode where
  code := [1, 50, 0]
  opcodeBitmask := [true, true, false]
  jumpTable := [0]
  code_length_le := by norm_num
  jumpTable_length_le := by norm_num

/-- On `jumpBackOne` the interpreters that follow the jump table go back to the first block; the
compiled one takes the distance `-1` for its halt code. -/
theorem jumpBackOne_disagrees :
    jumpBackOne.valid = true ∧ jumpBackOne.instArgLen 1 = some 1 ∧
      Opcode.ofValue (byteAt jumpBackOne.code 1) = some (ControlOp.jumpInd).opcode ∧
      ¬ ControlAgree jumpBackOne 1 1 (fun _ => 2) .jumpInd := by
  refine ⟨by decide, by decide, by decide, ?_⟩
  rintro ⟨s, -, -, -, hc, hn⟩
  have hcontinue : (CPython.controlStep jumpBackOne 1 1 (fun _ => 2) .jumpInd).asUnsigned =
      ⟨.continue 0, none⟩ := by decide
  have hhalt : (Numba.controlStep jumpBackOne 1 1 (fun _ => 2) .jumpInd).asUnsigned =
      ⟨.halt, none⟩ := by decide
  have habsurd := hcontinue.symm.trans (hc.trans (hn.symm.trans hhalt))
  cases habsurd

/-- Three blocks of one `fallthrough` each, then a `jump_ind` to the first. -/
def jumpBackThree : PVMCode where
  code := [1, 1, 1, 50, 0]
  opcodeBitmask := [true, true, true, true, false]
  jumpTable := [0]
  code_length_le := by norm_num
  jumpTable_length_le := by norm_num

/-- A jump that is taken over three bytes goes to the first block in all three. -/
theorem jumpBackThree_agrees :
    jumpBackThree.valid = true ∧ jumpBackThree.instArgLen 3 = some 1 ∧
      (Numba.controlStep jumpBackThree 3 1 (fun _ => 2) .jumpInd).next = .continue 0 ∧
      ControlAgree jumpBackThree 3 1 (fun _ => 2) .jumpInd := by
  have harg : jumpBackThree.instArgLen 3 = some 1 := by decide
  refine ⟨by decide, harg, by decide,
    (controlStep_agree_iff jumpBackThree harg _ _).mpr ⟨by decide, nofun, ?_⟩⟩
  decide

end Pvm
