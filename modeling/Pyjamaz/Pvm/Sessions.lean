import Mathlib.Algebra.BigOperators.Group.List.Basic
import Mathlib.Algebra.Order.BigOperators.Group.List
import Mathlib.Data.Int.Notation
import Pyjamaz.Pvm.BlockGasPruning
import Pyjamaz.Pvm.Interpreter

/-!
# Runs that are split over several invocations

A machine is seldom run to its end in one go.  `pvm_invoke_host_call` invokes one interpreter again
and again, past its host calls; `hc_invoke` builds a new interpreter every time and carries the
program counter and the `gas_paid` flag over in an `IntegratedPVM`.

Every entry into a basic block is to be paid once: the first instruction, the one after a terminator,
and the first instruction again when the machine starts over after a halt or a panic.  The flag
remembers the payment over page faults, host calls and lack of gas, as it must; but nothing clears it
at a halt or a panic either, and then the machine starts over at position zero in a block that passes
for paid.  `gas_consumed_iff` says that these restarts are all that goes wrong.
-/

namespace Pvm

variable {σ : Type*}

/-! ## The two drivers -/

/-- The setter of `gas_paid`. -/
def paidBlock (value : Bool) : Option ℕ := if value then some 0 else none

/-- `IntegratedPVM`, without the code and the memory. -/
structure IntegratedPVM where
  programCounter : ℕ
  gasPaid : Bool
  deriving DecidableEq, Repr

/-- `hc_invoke` on the inner machine: a new interpreter with the saved flag, invoked at the saved
program counter.  The frame brings the registers, so `data` is new each time. -/
def hcInvoke (B : Backend) (D : DataPath σ) (gm : GasModel) (p : PVMCode) (fuel : ℕ)
    (inner : IntegratedPVM) (gas : ℕ) (data : σ) : Option (Invocation σ × IntegratedPVM) := do
  let pvm : Loop σ :=
    { pc := 0, gas := 0, currentBlockStart := paidBlock inner.gasPaid, skipLen := 0,
      lookupBlock := true, data := data }
  let r ← B.invoke D gm p fuel pvm inner.programCounter gas
  match r.exit with
  | .hostHalt _ => some (r, ⟨r.self.pc + r.self.skipLen, r.self.gasPaid⟩)
  | .halt | .panic => some (r, ⟨0, r.self.gasPaid⟩)
  | .outOfGas | .pageFault _ => some (r, ⟨r.self.pc, r.self.gasPaid⟩)
  | .raised | .undefined => none

/-- `next_instruction` -/
def nextInstruction (p : PVMCode) (self : Loop σ) : Option ℕ :=
  (p.instArgLen self.pc).map (fun argLen => (self.pc + argLen + 1) % 2 ^ 32)

/-- One round of `pvm_invoke_host_call`: the invocation and the instruction counter to go on with.
`verdict` is the exit condition of the host call, with `none` for `resume`. -/
def pvmInvokeHostCallRound (B : Backend) (D : DataPath σ) (gm : GasModel) (p : PVMCode) (fuel : ℕ)
    (self : Loop σ) (instructionCounter gas : ℕ) (verdict : Option Exit) :
    Option (Invocation σ × ℕ) := do
  let r ← B.invoke D gm p fuel self instructionCounter gas
  match r.exit with
  | .hostHalt _ =>
    match verdict with
    | none => (nextInstruction p r.self).map (fun pc => (r, pc))
    | some (.hostHalt _) | some .raised | some .undefined => none
    | some exit =>
      some ({ r with path := r.path ++ [.exit exit], exit := exit },
        if exit.restarts then 0 else r.self.pc)
  | .halt | .panic => some (r, 0)
  | .outOfGas | .pageFault _ => some (r, r.self.pc)
  | .raised | .undefined => none

/-! ## Sessions -/

/-- A machine between two invocations: the interpreter, the program counter to go on with and how it
stopped the last time. -/
structure Machine (σ : Type*) where
  self : Loop σ
  pc : ℕ
  last : Option Exit

/-- An invocation as it was made: the machine's state before, the gas given and left, the path. -/
structure Call where
  last : Option Exit
  paid : Bool
  pc : ℕ
  gas : ℕ
  gasLeft : ℕ
  path : List Event
  deriving DecidableEq, Repr

/-- The record of an invocation. -/
def Machine.call (m : Machine σ) (gas : ℕ) (r : Invocation σ) : Call :=
  ⟨m.last, m.self.gasPaid, m.pc, gas, r.self.gas, r.path⟩

/-- Any sequence of invocations of one machine by either driver, from any program counter, with any
amount of gas each time and any change of registers and memory in between. -/
inductive Session (B : Backend) (D : DataPath σ) (gm : GasModel) (p : PVMCode) :
    Machine σ → List Call → Prop
  | start (self : Loop σ) (pc : ℕ) (h : self.currentBlockStart = none) :
      Session B D gm p ⟨self, pc, none⟩ []
  | hostCall {m : Machine σ} {calls : List Call} (h : Session B D gm p m calls)
      {fuel gas pc : ℕ} {data : σ} {verdict : Option Exit} {r : Invocation σ}
      (hround : pvmInvokeHostCallRound B D gm p fuel { m.self with data := data } m.pc gas verdict =
        some (r, pc)) :
      Session B D gm p ⟨r.self, pc, some r.exit⟩ (calls ++ [m.call gas r])
  | inner {m : Machine σ} {calls : List Call} (h : Session B D gm p m calls)
      {fuel gas : ℕ} {data : σ} {r : Invocation σ} {inner : IntegratedPVM}
      (hinvoke : hcInvoke B D gm p fuel ⟨m.pc, m.self.gasPaid⟩ gas data = some (r, inner)) :
      Session B D gm p ⟨r.self, inner.programCounter, some r.exit⟩ (calls ++ [m.call gas r])

/-- The positions at which a path enters a block, when `entering` says whether its first instruction
does: after a terminator that was taken or fell through, and after a halt or a panic. -/
def entriesFrom : Bool → List Event → List ℕ
  | _, [] => []
  | entering, .instr pc ended _ :: rest =>
    (if entering then [pc] else []) ++ entriesFrom ended rest
  | entering, .exit exit :: rest => entriesFrom (entering || exit.restarts) rest

/-- The entries of a whole run, the initial start included. -/
def entries (path : List Event) : List ℕ := entriesFrom true path

/-- The prices of the blocks entered. -/
def PVMCode.blockCosts (p : PVMCode) (gm : GasModel) (positions : List ℕ) : ℕ :=
  (positions.map (p.blockCost gm)).sum

/-- The fees of the gas host calls that were served inside the loop. -/
def hostGas : List Event → ℕ
  | [] => 0
  | .instr _ _ fee :: rest => fee + hostGas rest
  | .exit _ :: rest => hostGas rest

/-- The executed path of a session. -/
def sessionPath (calls : List Call) : List Event := calls.flatMap Call.path

/-- The gas an invocation consumed, fees of host calls apart. -/
def Call.consumed (c : Call) : ℤ := c.gas - c.gasLeft - hostGas c.path

/-- The gas a session consumed. -/
def consumed (calls : List Call) : ℤ := (calls.map Call.consumed).sum

/-- The invocation starts the machine over after a halt or a panic, and its flag says that the block
is paid. -/
def Call.FreeRestart (c : Call) : Prop := c.paid = true ∧ c.last.any Exit.restarts = true

instance (c : Call) : Decidable c.FreeRestart := inferInstanceAs (Decidable (_ ∧ _))

/-! ## What one round of the loop charges -/

/-- What is due at a state: the price of the block unless it is paid. -/
def due (p : PVMCode) (gm : GasModel) (s : Loop σ) : ℕ :=
  if s.gasPaid then 0 else p.blockCost gm s.pc

/-- Everything a round of the loop can do to the gas and to the flag. -/
inductive Charged (p : PVMCode) (gm : GasModel) (s : Loop σ) : Step σ → Prop
  | refuse (exit : Exit) (h : s.gasPaid = false ∨ p.fetch s.pc = none) :
      Charged p gm s (.refuse exit s)
  | exit (exit : Exit) (s' : Loop σ) (hgas : s'.gas + due p gm s = s.gas) (hpaid : s'.gasPaid = true) :
      Charged p gm s (.exit exit s')
  | next (fee : ℕ) (s' : Loop σ) (hgas : s'.gas + due p gm s + fee = s.gas)
      (hpaid : s'.gasPaid = !p.endsBlock s.pc) : Charged p gm s (.next fee s')

lemma charge_eq_none {p : PVMCode} {gm : GasModel} {s : Loop σ} (h : charge p gm s = none) :
    s.gasPaid = false := by
  rw [charge] at h
  split at h
  · cases h
  · split at h
    · cases h
    · next hnone =>
      rw [Loop.gasPaid, hnone]
      rfl

lemma charge_eq_some {p : PVMCode} {gm : GasModel} {s s' : Loop σ} (hblocks : p.blocks ≠ [])
    (h : charge p gm s = some s') :
    s'.pc = s.pc ∧ s'.gas + due p gm s = s.gas ∧ s'.gasPaid = true := by
  rw [charge, if_neg hblocks] at h
  split at h
  · next start hpaid =>
    obtain rfl := Option.some.inj h
    have hdue : due p gm s = 0 := by rw [due, Loop.gasPaid, hpaid]; rfl
    exact ⟨rfl, by rw [hdue]; rfl, rfl⟩
  · next hunpaid =>
    split at h
    · cases h
    · next henough =>
      obtain rfl := Option.some.inj h
      have hdue : due p gm s = p.blockCost gm s.pc := by rw [due, Loop.gasPaid, hunpaid]; rfl
      exact ⟨rfl, by rw [hdue]; exact Nat.sub_add_cancel (not_lt.mp henough), rfl⟩

lemma PVMCode.blocks_ne_nil (p : PVMCode) (hvalid : p.valid = true) : p.blocks ≠ [] := by
  rw [PVMCode.blocks, if_pos hvalid]
  exact List.ne_nil_of_mem (p.zero_mem_basicBlockStarts hvalid)

lemma PVMCode.endsBlock_of_fetch {p : PVMCode} {pc argLen : ℕ} {opcode : Opcode}
    (h : p.fetch pc = some (opcode, argLen)) : p.endsBlock pc = opcode.isTermination := by
  rw [PVMCode.endsBlock, (PVMCode.fetch_eq_some.mp h).2]
  rfl

/-- An instruction executed in a paid block. -/
lemma finish_charged {p : PVMCode} {gm : GasModel} {s s' : Loop σ} {opcode : Opcode} {argLen : ℕ}
    (hfetch : p.fetch s.pc = some (opcode, argLen)) (hgas : s'.gas + due p gm s = s.gas)
    (hpaid : s'.gasPaid = true) (x : Executed σ) : Charged p gm s (finish s' opcode argLen x) := by
  cases x with
  | «continue» pc data =>
    refine .next _ _ hgas ?_
    rw [PVMCode.endsBlock_of_fetch hfetch, Loop.gasPaid]
    rw [Loop.gasPaid] at hpaid
    cases opcode.isTermination with
    | true => rfl
    | false => exact hpaid
  | stop exit data => exact .exit _ _ hgas hpaid

lemma Graypaper.step_charged (D : DataPath σ) (gm : GasModel) {p : PVMCode} (hvalid : p.valid = true)
    {s : Loop σ} (hfetch : (p.fetch s.pc).isSome) : Charged p gm s (Graypaper.step D gm p s) := by
  obtain ⟨⟨opcode, argLen⟩, hfetch⟩ := Option.isSome_iff_exists.mp hfetch
  rw [Graypaper.step]
  cases hcharge : charge p gm s with
  | none => exact .refuse _ (Or.inl (charge_eq_none hcharge))
  | some s' =>
    obtain ⟨hpc, hgas, hpaid⟩ := charge_eq_some (p.blocks_ne_nil hvalid) hcharge
    simp only [hpc, hfetch]
    exact finish_charged hfetch hgas hpaid _

lemma CPython.step_charged (D : DataPath σ) (gm : GasModel) {p : PVMCode} (hvalid : p.valid = true)
    (s : Loop σ) : Charged p gm s (CPython.step D gm p s) := by
  rw [CPython.step]
  cases hfetch : p.fetch s.pc with
  | none => exact .refuse _ (Or.inr hfetch)
  | some x =>
    cases hcharge : charge p gm s with
    | none => exact .refuse _ (Or.inl (charge_eq_none hcharge))
    | some s' =>
      obtain ⟨hpc, hgas, hpaid⟩ := charge_eq_some (p.blocks_ne_nil hvalid) hcharge
      exact finish_charged hfetch hgas hpaid _

/-- Looking up the block on entry only charges the same. -/
lemma Numba.chargeOnEntry_eq_some {p : PVMCode} {gm : GasModel} {s s' : Loop σ}
    (hblocks : p.blocks ≠ []) (h : Numba.chargeOnEntry p gm s = some s') :
    s'.pc = s.pc ∧ s'.gas + due p gm s = s.gas ∧ s'.gasPaid = true := by
  rw [Numba.chargeOnEntry] at h
  split at h
  · obtain ⟨s₁, hcharge, rfl⟩ := Option.map_eq_some_iff.mp h
    obtain ⟨hpc, hgas, hpaid⟩ := charge_eq_some hblocks hcharge
    exact ⟨hpc, hgas, hpaid⟩
  · next hpaid =>
    obtain rfl := Option.some.inj h
    push Not at hpaid
    have hsome : s.gasPaid = true := Option.isSome_iff_ne_none.mpr hpaid.2
    exact ⟨rfl, by rw [due, if_pos hsome]; rfl, hsome⟩

lemma Numba.chargeOnEntry_eq_none {p : PVMCode} {gm : GasModel} {s : Loop σ}
    (h : Numba.chargeOnEntry p gm s = none) : s.gasPaid = false := by
  rw [Numba.chargeOnEntry] at h
  split at h
  · exact charge_eq_none (Option.map_eq_none_iff.mp h)
  · cases h

lemma Numba.step_charged (nativeGasCost : ℕ) (D : DataPath σ) (gm : GasModel) {p : PVMCode}
    (hvalid : p.valid = true) (s : Loop σ) :
    Charged p gm s (Numba.step nativeGasCost D gm p s) := by
  rw [Numba.step]
  cases hfetch : p.fetch s.pc with
  | none => exact .refuse _ (Or.inr hfetch)
  | some x =>
    obtain ⟨opcode, argLen⟩ := x
    cases hcharge : Numba.chargeOnEntry p gm s with
    | none => exact .refuse _ (Or.inl (Numba.chargeOnEntry_eq_none hcharge))
    | some s' =>
      obtain ⟨hpc, hgas, hpaid⟩ := Numba.chargeOnEntry_eq_some (p.blocks_ne_nil hvalid) hcharge
      simp only
      split
      · next hserves =>
        -- the gas host call is no terminator, so the block stays paid
        simp only [Numba.servesGas, decide_eq_true_eq] at hserves
        obtain ⟨rfl, -, -, hfee⟩ := hserves
        refine .next _ _ ?_ ?_
        · simp only
          omega
        · rw [PVMCode.endsBlock_of_fetch hfetch]
          exact hpaid
      · exact finish_charged hfetch hgas hpaid _

/-! ## The Graypaper interpreter stays on instructions -/

lemma Graypaper.mem_of_sjump {p : PVMCode} {pc pc' : ℕ} {v : ℤ}
    (h : Graypaper.sjump p pc v = .continue pc') : pc' ∈ p.basicBlockStarts := by
  rw [Graypaper.sjump_eq, CPython.sjump] at h
  split at h
  · next hstart =>
    rw [CPython.advance_eq p hstart] at h
    obtain ⟨start, hmem, heq⟩ := (p.isBlockStart_iff _).mp hstart
    rw [← heq, Int.toNat_natCast] at h
    cases h
    exact hmem
  · cases h

lemma Graypaper.mem_of_branch {p : PVMCode} {pc argLen pc' : ℕ} {b : ℤ} {C : Bool}
    (h : Graypaper.branch p pc argLen b C = .continue pc') : pc' ∈ p.basicBlockStarts := by
  rw [Graypaper.branch] at h
  split at h
  · cases h
  · next hstarts =>
    simp only [Bool.or_eq_true, Bool.not_eq_true', not_or, Bool.not_eq_false] at hstarts
    apply Graypaper.mem_of_sjump (v := if C then b else (argLen + 1 : ℕ))
    rw [Graypaper.sjump, if_pos ?_]
    · exact h
    · cases C with
      | true => exact hstarts.1
      | false => exact hstarts.2

lemma Graypaper.mem_of_djump {p : PVMCode} {pc a pc' : ℕ}
    (h : Graypaper.djump p pc a = .continue pc') : pc' ∈ p.basicBlockStarts := by
  rw [Graypaper.djump] at h
  split_ifs at h
  split at h
  · cases h
  · next destination hget =>
    split at h
    · next hstart =>
      apply Graypaper.mem_of_sjump (v := (destination : ℤ) - pc)
      rw [Graypaper.sjump, add_sub_cancel, if_pos hstart]
      exact h
    · cases h

/-- Control only goes to the start of a block. -/
lemma Graypaper.mem_of_controlStep {p : PVMCode} {pc argLen pc' : ℕ} {reg : Regs} {op : ControlOp}
    (h : (Graypaper.controlStep p pc argLen reg op).next = .continue pc') :
    pc' ∈ p.basicBlockStarts := by
  have hmin : min 4 argLen ≤ 4 := min_le_left _ _
  cases op with
  | fallthrough => exact Graypaper.mem_of_sjump h
  | ecalli =>
    rw [Graypaper.controlStep, Graypaper.withImmediate_eq _ _ hmin] at h
    cases h
  | jump => exact Graypaper.mem_of_sjump h
  | jumpInd =>
    simp only [Graypaper.controlStep, Graypaper.withImmediate_eq _ _ (immWidth_le argLen)] at h
    exact Graypaper.mem_of_djump h
  | regImmOffset o =>
    simp only [Graypaper.controlStep,
      Graypaper.withImmediate_eq _ _ (branchImmWidth_le p.code pc)] at h
    cases o with
    | loadImmJump => exact Graypaper.mem_of_sjump h
    | _ => exact Graypaper.mem_of_branch h
  | regRegOffset o => exact Graypaper.mem_of_branch h
  | loadImmJumpInd =>
    simp only [Graypaper.controlStep] at h
    split at h
    · cases h
    · simp only [Graypaper.withImmediate_eq _ _ (jumpIndWidth_le p.code pc),
        Graypaper.withImmediate_eq _ _ (jumpIndOffsetWidth_le p.code pc argLen)] at h
      exact Graypaper.mem_of_djump h

lemma Executed.ofNext_eq_continue {next : Next} {data data' : σ} {pc : ℕ}
    (h : Executed.ofNext next data = .continue pc data') : next = .continue pc := by
  cases next with
  | «continue» pc => cases h; rfl
  | halt | panic | hostHalt _ | raised | undefined => cases h

/-- Adding the length of an instruction leads to the instruction after it. -/
lemma Graypaper.isSome_of_advance {p : PVMCode} (hvalid : p.valid = true) {pc argLen pc' : ℕ}
    {opcode : Opcode} (hfetch : p.fetch pc = some (opcode, argLen))
    (hend : opcode.isTermination = false)
    (h : Graypaper.advance pc (argLen + 1 : ℕ) = .continue pc') : (p.instArgLen pc').isSome := by
  rw [Graypaper.advance] at h
  split at h
  · cases h
    have hnat : ((pc : ℤ) + (argLen + 1 : ℕ)).toNat = pc + argLen + 1 := by omega
    rw [hnat]
    exact p.isSome_next hvalid hfetch hend
  · cases h

/-- An opcode without control flow ends no block, the trap apart. -/
lemma Opcode.isTermination_of_ofOpcode {opcode : Opcode} (htrap : opcode ≠ .noArg .trap)
    (h : ControlOp.ofOpcode opcode = none) : opcode.isTermination = false := by
  cases opcode with
  | noArg o => cases o <;> simp_all [ControlOp.ofOpcode, Opcode.isTermination]
  | regImm o => cases o <;> simp_all [ControlOp.ofOpcode, Opcode.isTermination]
  | ecalli | loadImm64 | immImm _ | regImmImm _ | regReg _ | regRegMem _ | regRegImm _
  | regRegReg _ => rfl
  | jump | regImmOffset _ | regRegOffset _ | loadImmJumpInd => cases h

/-- An executed instruction that goes on leads to another instruction. -/
lemma Graypaper.isSome_of_execute (D : DataPath σ) {p : PVMCode} (hvalid : p.valid = true)
    {pc argLen pc' : ℕ} {opcode : Opcode} {data data' : σ}
    (hfetch : p.fetch pc = some (opcode, argLen))
    (h : execute Graypaper.controlStep Graypaper.advance D p pc argLen opcode data =
      .continue pc' data') : (p.instArgLen pc').isSome := by
  rw [execute.eq_def] at h
  split at h
  · cases h
  · exact Graypaper.isSome_of_advance hvalid hfetch rfl (Executed.ofNext_eq_continue h)
  · next htrap _ =>
    split at h
    · exact p.isSome_of_mem_basicBlockStarts
        (Graypaper.mem_of_controlStep (Executed.ofNext_eq_continue h))
    · next hdata =>
      have hend := Opcode.isTermination_of_ofOpcode htrap hdata
      split at h
      · exact Graypaper.isSome_of_advance hvalid hfetch hend (Executed.ofNext_eq_continue h)
      · cases h
      · cases h
      · cases h

lemma Graypaper.isSome_of_step (D : DataPath σ) (gm : GasModel) {p : PVMCode}
    (hvalid : p.valid = true) {s s' : Loop σ} {fee : ℕ}
    (h : Graypaper.step D gm p s = .next fee s') : (p.fetch s'.pc).isSome := by
  rw [Graypaper.step] at h
  split at h
  · cases h
  · next s₁ hcharge =>
    split at h
    · cases h
    · next opcode argLen hfetch =>
      cases hexec : execute Graypaper.controlStep Graypaper.advance D p s₁.pc argLen opcode
          s₁.data with
      | «continue» pc data =>
        rw [hexec] at h
        cases h
        obtain ⟨opcode', argLen', hnext⟩ :=
          p.exists_fetch hvalid (Graypaper.isSome_of_execute D hvalid hfetch hexec)
        rw [hnext]
        rfl
      | stop exit data =>
        rw [hexec] at h
        cases h

/-! ## What one invocation charges -/

/-- The state in which a round charges what is due: the Graypaper interpreter has to be at an
instruction, since it charges before it looks. -/
def Backend.Ready (B : Backend) (p : PVMCode) (s : Loop σ) : Prop :=
  B = .graypaper → (p.fetch s.pc).isSome

lemma Backend.step_charged (B : Backend) (D : DataPath σ) (gm : GasModel) {p : PVMCode}
    (hvalid : p.valid = true) {s : Loop σ} (hready : B.Ready p s) :
    Charged p gm s (B.step D gm p s) := by
  cases B with
  | graypaper => exact Graypaper.step_charged D gm hvalid (hready rfl)
  | cpython => exact CPython.step_charged D gm hvalid s
  | numba nativeGasCost => exact Numba.step_charged nativeGasCost D gm hvalid s

lemma Backend.ready_of_step (B : Backend) (D : DataPath σ) (gm : GasModel) {p : PVMCode}
    (hvalid : p.valid = true) {s s' : Loop σ} {fee : ℕ} (h : B.step D gm p s = .next fee s') :
    B.Ready p s' := by
  rintro rfl
  exact Graypaper.isSome_of_step D gm hvalid h

/-- Whether the next instruction enters a block, after a path. -/
def enteringAfter : Bool → List Event → Bool
  | entering, [] => entering
  | _, .instr _ ended _ :: rest => enteringAfter ended rest
  | entering, .exit exit :: rest => enteringAfter (entering || exit.restarts) rest

lemma entriesFrom_append (path path' : List Event) :
    ∀ entering, entriesFrom entering (path ++ path') =
      entriesFrom entering path ++ entriesFrom (enteringAfter entering path) path' := by
  induction path with
  | nil =>
    intro entering
    rfl
  | cons event rest ih =>
    intro entering
    cases event with
    | instr pc ended fee =>
      simp only [List.cons_append, entriesFrom, enteringAfter, ih, List.append_assoc]
    | exit exit => simp only [List.cons_append, entriesFrom, enteringAfter, ih]

lemma enteringAfter_append (path path' : List Event) :
    ∀ entering, enteringAfter entering (path ++ path') =
      enteringAfter (enteringAfter entering path) path' := by
  induction path with
  | nil =>
    intro entering
    rfl
  | cons event rest ih =>
    intro entering
    cases event with
    | instr pc ended fee => simp only [List.cons_append, enteringAfter, ih]
    | exit exit => simp only [List.cons_append, enteringAfter, ih]

lemma hostGas_append (path path' : List Event) :
    hostGas (path ++ path') = hostGas path + hostGas path' := by
  induction path with
  | nil => simp [hostGas]
  | cons event rest ih =>
    cases event with
    | instr pc ended fee => simp only [List.cons_append, hostGas, ih, Nat.add_assoc]
    | exit exit => simp only [List.cons_append, hostGas, ih]

lemma PVMCode.blockCosts_append (p : PVMCode) (gm : GasModel) (l l' : List ℕ) :
    p.blockCosts gm (l ++ l') = p.blockCosts gm l + p.blockCosts gm l' := by
  simp [PVMCode.blockCosts]

/-- What an invocation of a machine charges: the blocks it enters, where the first one counts only
when the flag does not say that it is paid. -/
structure Invocation.Pays (p : PVMCode) (gm : GasModel) (paid : Bool) (pc gas : ℕ)
    (r : Invocation σ) : Prop where
  gas_eq : r.self.gas + p.blockCosts gm (entriesFrom (!paid) r.path) + hostGas r.path = gas
  entering_eq : enteringAfter (!paid) r.path = (!r.self.gasPaid || r.exit.restarts)
  runs : paid = true → (p.fetch pc).isSome →
    ∃ ended fee rest, r.path = .instr pc ended fee :: rest

/-- A refused invocation charges nothing. -/
lemma Invocation.pays_refuse {p : PVMCode} {gm : GasModel} {s : Loop σ} {pc : ℕ} (exit : Exit)
    (h : s.gasPaid = false ∨ p.fetch pc = none) :
    Invocation.Pays p gm s.gasPaid pc s.gas ⟨[.exit exit], exit, s⟩ where
  gas_eq := rfl
  entering_eq := rfl
  runs := by
    intro hpaid hfetch
    rcases h with h | h
    · rw [h] at hpaid
      cases hpaid
    · rw [h] at hfetch
      cases hfetch

/-- The first instruction executed costs what is due. -/
lemma blockCosts_instr (p : PVMCode) (gm : GasModel) (s : Loop σ) (ended : Bool) (fee : ℕ)
    (rest : List Event) :
    p.blockCosts gm (entriesFrom (!s.gasPaid) (.instr s.pc ended fee :: rest)) =
      due p gm s + p.blockCosts gm (entriesFrom ended rest) := by
  rw [entriesFrom, PVMCode.blockCosts_append, due]
  cases s.gasPaid <;> simp [PVMCode.blockCosts]

lemma Backend.loop_pays (B : Backend) (D : DataPath σ) (gm : GasModel) {p : PVMCode}
    (hvalid : p.valid = true) (fuel : ℕ) :
    ∀ (s : Loop σ) (r : Invocation σ), B.Ready p s → loop p (B.step D gm p) fuel s = some r →
      r.Pays p gm s.gasPaid s.pc s.gas := by
  induction fuel with
  | zero =>
    intro s r _ h
    cases h
  | succ fuel ih =>
    intro s r hready h
    have hcharged := B.step_charged D gm hvalid hready
    rw [loop] at h
    cases hstep : B.step D gm p s with
    | refuse exit s' =>
      rw [hstep] at h hcharged
      obtain rfl := Option.some.inj h
      cases hcharged with
      | refuse _ hrefused => exact Invocation.pays_refuse exit hrefused
    | exit exit s' =>
      rw [hstep] at h hcharged
      obtain rfl := Option.some.inj h
      cases hcharged with
      | exit _ _ hgas hpaid =>
        refine ⟨?_, ?_, fun _ _ => ⟨_, _, _, rfl⟩⟩
        · rw [blockCosts_instr]
          simpa [entriesFrom, hostGas, PVMCode.blockCosts] using hgas
        · simp [enteringAfter, hpaid]
    | next fee s' =>
      rw [hstep] at h hcharged
      obtain ⟨r', hloop, rfl⟩ := Option.map_eq_some_iff.mp h
      cases hcharged with
      | next _ _ hgas hpaid =>
        have hrest := ih s' r' (B.ready_of_step D gm hvalid hstep) hloop
        have hended : (!s'.gasPaid) = p.endsBlock s.pc := by rw [hpaid, Bool.not_not]
        refine ⟨?_, ?_, fun _ _ => ⟨_, _, _, rfl⟩⟩
        · have hgas' := hrest.gas_eq
          rw [hended] at hgas'
          rw [blockCosts_instr, hostGas]
          simp only
          omega
        · have hentering := hrest.entering_eq
          rw [hended] at hentering
          exact hentering

lemma Backend.invoke_pays (B : Backend) (D : DataPath σ) (gm : GasModel) {p : PVMCode}
    (hvalid : p.valid = true) {fuel : ℕ} {self : Loop σ} {pc gas : ℕ} {r : Invocation σ}
    (h : B.invoke D gm p fuel self pc gas = some r) : r.Pays p gm self.gasPaid pc gas := by
  rw [Backend.invoke] at h
  split at h
  · next hstart =>
    refine B.loop_pays D gm hvalid fuel _ r ?_ h
    intro _
    obtain ⟨opcode, argLen, hfetch⟩ := p.exists_fetch hvalid hstart.2
    exact Option.isSome_iff_exists.mpr ⟨_, hfetch⟩
  · next hstart =>
    obtain rfl := Option.some.inj h
    refine Invocation.pays_refuse (s := { self with pc := pc, gas := gas, lookupBlock := true })
      .panic (Or.inr ?_)
    rw [PVMCode.fetch]
    cases hlen : p.instArgLen pc with
    | none => rfl
    | some argLen => exact absurd ⟨hvalid, by rw [hlen]; rfl⟩ hstart

/-- A host call's own exit adds nothing to the path but its mark. -/
lemma Invocation.Pays.verdict {p : PVMCode} {gm : GasModel} {paid : Bool} {pc gas : ℕ}
    {r : Invocation σ} (h : r.Pays p gm paid pc gas) (hexit : r.exit.restarts = false) (exit : Exit) :
    Invocation.Pays p gm paid pc gas
      { r with path := r.path ++ [.exit exit], exit := exit } where
  gas_eq := by
    rw [entriesFrom_append, hostGas_append]
    simpa [entriesFrom, hostGas] using h.gas_eq
  entering_eq := by
    rw [enteringAfter_append, h.entering_eq, hexit]
    simp [enteringAfter]
  runs := by
    intro hpaid hfetch
    obtain ⟨ended, fee, rest, hpath⟩ := h.runs hpaid hfetch
    exact ⟨ended, fee, rest ++ [.exit exit], by rw [hpath]; rfl⟩

lemma pvmInvokeHostCallRound_pays (B : Backend) (D : DataPath σ) (gm : GasModel) {p : PVMCode}
    (hvalid : p.valid = true) {fuel : ℕ} {self : Loop σ} {instructionCounter gas pc : ℕ}
    {verdict : Option Exit} {r : Invocation σ}
    (h : pvmInvokeHostCallRound B D gm p fuel self instructionCounter gas verdict = some (r, pc)) :
    r.Pays p gm self.gasPaid instructionCounter gas ∧ (r.exit.restarts = true → pc = 0) := by
  rw [pvmInvokeHostCallRound] at h
  obtain ⟨r₀, hinvoke, h⟩ := Option.bind_eq_some_iff.mp h
  have hpays := B.invoke_pays D gm hvalid hinvoke
  split at h
  · next hexit =>
    have hgoes : r₀.exit.restarts = false := by rw [hexit]; rfl
    split at h
    · obtain ⟨pc', -, heq⟩ := Option.map_eq_some_iff.mp h
      cases heq
      exact ⟨hpays, fun hrestarts => by rw [hgoes] at hrestarts; cases hrestarts⟩
    · cases h
    · cases h
    · cases h
    · cases h
      exact ⟨hpays.verdict hgoes _, fun hrestarts => if_pos hrestarts⟩
  · cases h
    exact ⟨hpays, fun _ => rfl⟩
  · cases h
    exact ⟨hpays, fun _ => rfl⟩
  · next hexit =>
    cases h
    exact ⟨hpays, fun hrestarts => by rw [hexit] at hrestarts; cases hrestarts⟩
  · next hexit =>
    cases h
    exact ⟨hpays, fun hrestarts => by rw [hexit] at hrestarts; cases hrestarts⟩
  · cases h
  · cases h

lemma isSome_paidBlock (value : Bool) : (paidBlock value).isSome = value := by
  cases value <;> rfl

lemma hcInvoke_pays (B : Backend) (D : DataPath σ) (gm : GasModel) {p : PVMCode}
    (hvalid : p.valid = true) {fuel : ℕ} {inner inner' : IntegratedPVM} {gas : ℕ} {data : σ}
    {r : Invocation σ} (h : hcInvoke B D gm p fuel inner gas data = some (r, inner')) :
    r.Pays p gm inner.gasPaid inner.programCounter gas ∧
      (r.exit.restarts = true → inner'.programCounter = 0) := by
  rw [hcInvoke] at h
  obtain ⟨r₀, hinvoke, h⟩ := Option.bind_eq_some_iff.mp h
  have hpays := B.invoke_pays D gm hvalid hinvoke
  rw [Loop.gasPaid, isSome_paidBlock] at hpays
  split at h
  · next hexit =>
    cases h
    exact ⟨hpays, fun hrestarts => by rw [hexit] at hrestarts; cases hrestarts⟩
  · cases h
    exact ⟨hpays, fun _ => rfl⟩
  · cases h
    exact ⟨hpays, fun _ => rfl⟩
  · next hexit =>
    cases h
    exact ⟨hpays, fun hrestarts => by rw [hexit] at hrestarts; cases hrestarts⟩
  · next hexit =>
    cases h
    exact ⟨hpays, fun hrestarts => by rw [hexit] at hrestarts; cases hrestarts⟩
  · cases h
  · cases h

/-! ## What a session charges -/

/-- What the free restarts of a session would have cost. -/
def missed (p : PVMCode) (gm : GasModel) (calls : List Call) : ℕ :=
  ((calls.filter (fun c => c.FreeRestart)).map (fun c => p.blockCost gm c.pc)).sum

/-- What holds between two invocations.  The next instruction enters a block when the block is not
paid, and after a halt or a panic; what was consumed and what was missed make up the price of the
entries. -/
structure Accounted (p : PVMCode) (gm : GasModel) (m : Machine σ) (calls : List Call) : Prop where
  entering : enteringAfter true (sessionPath calls) = (!m.self.gasPaid || m.last.any Exit.restarts)
  restart_zero : m.last.any Exit.restarts = true → m.pc = 0
  balance : consumed calls + missed p gm calls = p.blockCosts gm (entries (sessionPath calls))

lemma sessionPath_snoc (calls : List Call) (c : Call) :
    sessionPath (calls ++ [c]) = sessionPath calls ++ c.path := by
  simp [sessionPath]

lemma consumed_snoc (calls : List Call) (c : Call) :
    consumed (calls ++ [c]) = consumed calls + c.consumed := by
  simp [consumed]

lemma missed_snoc (p : PVMCode) (gm : GasModel) (calls : List Call) (c : Call) :
    missed p gm (calls ++ [c]) =
      missed p gm calls + if c.FreeRestart then p.blockCost gm c.pc else 0 := by
  by_cases hfree : c.FreeRestart <;> simp [missed, List.filter_append, hfree]

/-- An invocation that is no free restart pays for its first instruction exactly when that enters a
block. -/
lemma Accounted.entering_of_not_free {p : PVMCode} {gm : GasModel} {m : Machine σ}
    {calls : List Call} (h : Accounted p gm m calls)
    (hfree : ¬ (m.self.gasPaid = true ∧ m.last.any Exit.restarts = true)) :
    enteringAfter true (sessionPath calls) = !m.self.gasPaid := by
  rw [h.entering]
  cases hpaid : m.self.gasPaid with
  | false => rfl
  | true =>
    have hlast : m.last.any Exit.restarts = false :=
      Bool.eq_false_iff.mpr (fun hlast => hfree ⟨hpaid, hlast⟩)
    simp [hlast]

/-- One more invocation keeps the account. -/
lemma Accounted.call {p : PVMCode} (hvalid : p.valid = true) {gm : GasModel} {m : Machine σ}
    {calls : List Call} (h : Accounted p gm m calls) {gas pc : ℕ} {r : Invocation σ}
    (hpays : r.Pays p gm m.self.gasPaid m.pc gas) (hpc : r.exit.restarts = true → pc = 0) :
    Accounted p gm ⟨r.self, pc, some r.exit⟩ (calls ++ [m.call gas r]) := by
  have hconsumed : (m.call gas r).consumed =
      (p.blockCosts gm (entriesFrom (!m.self.gasPaid) r.path) : ℤ) := by
    have hgas := hpays.gas_eq
    simp only [Call.consumed, Machine.call]
    omega
  have hpath : sessionPath (calls ++ [m.call gas r]) = sessionPath calls ++ r.path :=
    sessionPath_snoc _ _
  have hbalance := h.balance
  rw [entries] at hbalance
  by_cases hfree : m.self.gasPaid = true ∧ m.last.any Exit.restarts = true
  · -- a free restart executes the first instruction of the code and does not pay for it
    obtain ⟨hpaid, hlast⟩ := hfree
    have hzero := h.restart_zero hlast
    have hfetch : (p.fetch m.pc).isSome := by
      obtain ⟨opcode, argLen, hfetch⟩ := p.exists_fetch hvalid (p.isSome_zero hvalid)
      rw [hzero, hfetch]
      rfl
    obtain ⟨ended, fee, rest, hrun⟩ := hpays.runs hpaid hfetch
    have hentering : enteringAfter true (sessionPath calls) = true := by
      rw [h.entering, hlast, Bool.or_true]
    refine ⟨?_, hpc, ?_⟩
    · have hafter := hpays.entering_eq
      rw [hrun, enteringAfter] at hafter
      rw [hpath, enteringAfter_append, hrun, enteringAfter]
      exact hafter
    · rw [consumed_snoc, hconsumed, missed_snoc, entries, hpath, entriesFrom_append,
        PVMCode.blockCosts_append, hentering, if_pos ⟨hpaid, hlast⟩, hrun, hpaid]
      simp only [Bool.not_true, entriesFrom, if_true, Bool.false_eq_true, if_false,
        List.nil_append, PVMCode.blockCosts_append]
      have hone : p.blockCosts gm [m.pc] = p.blockCost gm m.pc := by simp [PVMCode.blockCosts]
      rw [hone]
      simp only [Machine.call]
      push_cast
      omega
  · have hentering := h.entering_of_not_free hfree
    refine ⟨?_, hpc, ?_⟩
    · rw [hpath, enteringAfter_append, hentering]
      exact hpays.entering_eq
    · rw [consumed_snoc, hconsumed, missed_snoc, entries, hpath, entriesFrom_append,
        PVMCode.blockCosts_append, hentering, if_neg (show ¬ (m.call gas r).FreeRestart from hfree)]
      push_cast
      omega

/-- Every session is accounted for. -/
lemma Session.accounted {B : Backend} {D : DataPath σ} {gm : GasModel} {p : PVMCode}
    (hvalid : p.valid = true) {m : Machine σ} {calls : List Call} (h : Session B D gm p m calls) :
    Accounted p gm m calls := by
  induction h with
  | start self pc hnone =>
    refine ⟨?_, fun hlast => absurd hlast Bool.false_ne_true, rfl⟩
    rw [Loop.gasPaid, hnone]
    rfl
  | hostCall _ hround ih =>
    obtain ⟨hpays, hpc⟩ := pvmInvokeHostCallRound_pays B D gm hvalid hround
    exact ih.call hvalid hpays hpc
  | inner _ hinvoke ih =>
    obtain ⟨hpays, hpc⟩ := hcInvoke_pays B D gm hvalid hinvoke
    exact ih.call hvalid hpays hpc

/-- Nothing is missed exactly when there was no free restart: every block has a price. -/
lemma missed_eq_zero_iff (p : PVMCode) (gm : GasModel) (calls : List Call) :
    missed p gm calls = 0 ↔ ∀ c ∈ calls, ¬ c.FreeRestart := by
  rw [missed, List.sum_eq_zero_iff]
  constructor
  · intro h c hc hfree
    have hzero := h _ (List.mem_map.mpr ⟨c, List.mem_filter.mpr ⟨hc, by simpa using hfree⟩, rfl⟩)
    have hone := gm.one_le_cost (p.getBlockStart c.pc)
    rw [PVMCode.blockCost] at hzero
    omega
  · intro h x hx
    obtain ⟨c, hc, -⟩ := List.mem_map.mp hx
    obtain ⟨hmem, hfree⟩ := List.mem_filter.mp hc
    exact absurd (by simpa using hfree) (h c hmem)

/-- The gas that a run consumes, however it is split into invocations, is the price of the blocks it
enters exactly when no invocation starts the machine over, after a halt or a panic, with the flag
still set. -/
theorem gas_consumed_iff {B : Backend} {D : DataPath σ} {gm : GasModel} {p : PVMCode}
    (hvalid : p.valid = true) {m : Machine σ} {calls : List Call} (h : Session B D gm p m calls) :
    consumed calls = p.blockCosts gm (entries (sessionPath calls)) ↔
      ∀ c ∈ calls, ¬ c.FreeRestart := by
  have hbalance := (h.accounted hvalid).balance
  rw [← missed_eq_zero_iff p gm calls]
  omega

/-- Registers that are all zero, and no memory. -/
def blankData : DataPath Unit := ⟨fun _ _ => 0, fun _ _ => (), fun _ _ _ _ => .ok ()⟩

/-- The interpreter of a machine that has not run yet. -/
def freshInner : Loop Unit := ⟨0, 0, none, 0, false, ()⟩

/-- A host call and a trap, in one block. -/
def callProgram : PVMCode where
  code := [10, 7, 0]
  opcodeBitmask := [true, false, true]
  jumpTable := []
  code_length_le := by simp
  jumpTable_length_le := nil_length_le

/-- The first invocation pays a hundred units for the block and calls the host. -/
def callRound : Call := ⟨none, false, 0, 200, 100, [.instr 0 false 0, .exit (.hostHalt 7)]⟩

/-- The machine is resumed behind the host call, in a block that is paid. -/
def callResumed : Call := ⟨some (.hostHalt 7), true, 2, 100, 100, [.instr 2 false 0, .exit .panic]⟩

lemma callProgram_session :
    Session .cpython blankData callProgram.gasModel callProgram
      ⟨⟨2, 100, some 0, 1, true, ()⟩, 0, some .panic⟩ [callRound, callResumed] := by
  have hround : pvmInvokeHostCallRound .cpython blankData callProgram.gasModel callProgram 1
      freshInner 0 200 none = some (⟨[.instr 0 false 0, .exit (.hostHalt 7)], .hostHalt 7,
        ⟨0, 100, some 0, 2, true, ()⟩⟩, 2) := rfl
  have hresumed : pvmInvokeHostCallRound .cpython blankData callProgram.gasModel callProgram 1
      ⟨0, 100, some 0, 2, true, ()⟩ 2 100 none = some (⟨[.instr 2 false 0, .exit .panic], .panic,
        ⟨2, 100, some 0, 1, true, ()⟩⟩, 0) := rfl
  exact .hostCall (.hostCall (.start freshInner 0 rfl) hround) hresumed

/-- The block is paid once, though it takes two invocations to get through it. -/
theorem callProgram_pays :
    consumed [callRound, callResumed] = 100 ∧
      consumed [callRound, callResumed] =
        callProgram.blockCosts callProgram.gasModel (entries (sessionPath [callRound, callResumed])) :=
  ⟨by decide, (gas_consumed_iff (by decide) callProgram_session).mpr (by decide)⟩

/-- A program that traps at once. -/
def trapProgram : PVMCode where
  code := [0]
  opcodeBitmask := [true]
  jumpTable := []
  code_length_le := by simp
  jumpTable_length_le := nil_length_le

/-- The first invocation of an inner machine with ten units of gas: it pays two for the trap. -/
def trapCall : Call := ⟨none, false, 0, 10, 8, [.instr 0 false 0, .exit .panic]⟩

/-- The second invocation pays nothing. -/
def trapAgain : Call := ⟨some .panic, true, 0, 10, 10, [.instr 0 false 0, .exit .panic]⟩

lemma trapProgram_session :
    Session .graypaper blankData trapProgram.gasModel trapProgram
      ⟨⟨0, 10, some 0, 1, true, ()⟩, 0, some .panic⟩ [trapCall, trapAgain] := by
  have hfirst : hcInvoke .graypaper blankData trapProgram.gasModel trapProgram 1 ⟨0, false⟩ 10 () =
      some (⟨[.instr 0 false 0, .exit .panic], .panic, ⟨0, 8, some 0, 1, true, ()⟩⟩, ⟨0, true⟩) := rfl
  have hsecond : hcInvoke .graypaper blankData trapProgram.gasModel trapProgram 1 ⟨0, true⟩ 10 () =
      some (⟨[.instr 0 false 0, .exit .panic], .panic, ⟨0, 10, some 0, 1, true, ()⟩⟩, ⟨0, true⟩) :=
    rfl
  exact .inner (.inner (.start freshInner 0 rfl) hfirst) hsecond

/-- The machine that panicked and is invoked again enters its first block for free: two entries cost
four, and two units are consumed. -/
theorem trapProgram_restarts_free :
    trapProgram.valid = true ∧
      Session .graypaper blankData trapProgram.gasModel trapProgram
        ⟨⟨0, 10, some 0, 1, true, ()⟩, 0, some .panic⟩ [trapCall, trapAgain] ∧
      entries (sessionPath [trapCall, trapAgain]) = [0, 0] ∧
      trapProgram.blockCosts trapProgram.gasModel [0, 0] = 4 ∧ consumed [trapCall, trapAgain] = 2 :=
  ⟨by decide, trapProgram_session, by decide, by decide +kernel, by decide⟩

end Pvm
