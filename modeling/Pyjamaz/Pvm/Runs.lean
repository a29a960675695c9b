import Pyjamaz.Pvm.Sessions

/-!
# How an invocation ends

Two facts about every invocation, in all three interpreters.  It ends: a block costs at least one
unit of gas, and inside a block the program counter only grows, so the gas left and the distance to
the end of the code bound the number of rounds.  And the way it ends tells what the last instruction
was: a host call stops at an `ecalli`, a page fault at an instruction whose access to the memory was
refused.

`Moved` says once what a round does to the program counter and to the data; the rest follows from it
and from `loop_induction`.
-/

namespace Pvm

variable {σ : Type*}

/-! ## What a round does -/

/-- The control-flow instructions of an interpreter. -/
def Backend.controlStep : Backend → PVMCode → ℕ → ℕ → Regs → ControlOp → ControlStep
  | .graypaper => Graypaper.controlStep
  | .cpython => CPython.controlStep
  | .numba _ => Numba.controlStep

/-- How an interpreter adds to its program counter. -/
def Backend.advance : Backend → ℕ → ℤ → Next
  | .graypaper => Graypaper.advance
  | .cpython => CPython.advance
  | .numba _ => Numba.advance

/-- Everything a round of the loop can do to the program counter and to the registers and memory. -/
inductive Moved (B : Backend) (D : DataPath σ) (p : PVMCode) (s : Loop σ) : Step σ → Prop
  | refuse (exit : Exit) (s' : Loop σ) (h : exit = .outOfGas ∨ exit = .panic)
      (hdata : s'.data = s.data) : Moved B D p s (.refuse exit s')
  | exit (opcode : Opcode) (argLen : ℕ) (exit : Exit) (s' : Loop σ)
      (hfetch : p.fetch s.pc = some (opcode, argLen)) (hpc : s'.pc = s.pc)
      (hexec : execute B.controlStep B.advance D p s.pc argLen opcode s.data = .stop exit s'.data) :
      Moved B D p s (.exit exit s')
  | next (opcode : Opcode) (argLen : ℕ) (s' : Loop σ)
      (hfetch : p.fetch s.pc = some (opcode, argLen))
      (hexec : execute B.controlStep B.advance D p s.pc argLen opcode s.data =
        .continue s'.pc s'.data) : Moved B D p s (.next 0 s')
  | served (argLen fee : ℕ) (w : Write) (s' : Loop σ)
      (hfetch : p.fetch s.pc = some (.ecalli, argLen)) (hpc : s'.pc = (s.pc + argLen + 1) % 2 ^ 32)
      (hdata : s'.data = D.setReg s.data w) : Moved B D p s (.next fee s')

/-- Charging moves nothing. -/
lemma charge_keeps {p : PVMCode} {gm : GasModel} {s s' : Loop σ} (h : charge p gm s = some s') :
    s'.pc = s.pc ∧ s'.data = s.data := by
  rw [charge] at h
  split at h
  · obtain rfl := Option.some.inj h
    exact ⟨rfl, rfl⟩
  · split at h
    · obtain rfl := Option.some.inj h
      exact ⟨rfl, rfl⟩
    · split at h
      · cases h
      · obtain rfl := Option.some.inj h
        exact ⟨rfl, rfl⟩

lemma Numba.chargeOnEntry_keeps {p : PVMCode} {gm : GasModel} {s s' : Loop σ}
    (h : Numba.chargeOnEntry p gm s = some s') : s'.pc = s.pc ∧ s'.data = s.data := by
  rw [Numba.chargeOnEntry] at h
  split at h
  · obtain ⟨s₁, hcharge, rfl⟩ := Option.map_eq_some_iff.mp h
    obtain ⟨hpc, hdata⟩ := charge_keeps hcharge
    exact ⟨hpc, hdata⟩
  · obtain rfl := Option.some.inj h
    exact ⟨rfl, rfl⟩

lemma finish_moved {B : Backend} {D : DataPath σ} {p : PVMCode} {s s' : Loop σ} {opcode : Opcode}
    {argLen : ℕ} (hfetch : p.fetch s.pc = some (opcode, argLen))
    (hkeeps : s'.pc = s.pc ∧ s'.data = s.data) :
    Moved B D p s (finish s' opcode argLen
      (execute B.controlStep B.advance D p s'.pc argLen opcode s'.data)) := by
  obtain ⟨hpc, hdata⟩ := hkeeps
  rw [hpc, hdata]
  cases hexec : execute B.controlStep B.advance D p s.pc argLen opcode s.data with
  | «continue» pc data => exact .next opcode argLen _ hfetch hexec
  | stop exit data => exact .exit opcode argLen exit _ hfetch hpc hexec

lemma Graypaper.step_moved (D : DataPath σ) (gm : GasModel) (p : PVMCode) (s : Loop σ) :
    Moved .graypaper D p s (Graypaper.step D gm p s) := by
  rw [Graypaper.step]
  cases hcharge : charge p gm s with
  | none => exact .refuse _ _ (Or.inl rfl) rfl
  | some s' =>
    have hkeeps := charge_keeps hcharge
    simp only
    cases hfetch : p.fetch s'.pc with
    | none => exact .refuse _ _ (Or.inr rfl) hkeeps.2
    | some x =>
      rw [hkeeps.1] at hfetch
      exact finish_moved hfetch hkeeps

lemma CPython.step_moved (D : DataPath σ) (gm : GasModel) (p : PVMCode) (s : Loop σ) :
    Moved .cpython D p s (CPython.step D gm p s) := by
  rw [CPython.step]
  cases hfetch : p.fetch s.pc with
  | none => exact .refuse _ _ (Or.inr rfl) rfl
  | some x =>
    simp only
    cases hcharge : charge p gm s with
    | none => exact .refuse _ _ (Or.inl rfl) rfl
    | some s' => exact finish_moved hfetch (charge_keeps hcharge)

lemma Numba.step_moved (nativeGasCost : ℕ) (D : DataPath σ) (gm : GasModel) (p : PVMCode)
    (s : Loop σ) : Moved (.numba nativeGasCost) D p s (Numba.step nativeGasCost D gm p s) := by
  rw [Numba.step]
  cases hfetch : p.fetch s.pc with
  | none => exact .refuse _ _ (Or.inr rfl) rfl
  | some x =>
    simp only
    cases hcharge : Numba.chargeOnEntry p gm s with
    | none => exact .refuse _ _ (Or.inl rfl) rfl
    | some s' =>
      have hkeeps := Numba.chargeOnEntry_keeps hcharge
      simp only
      split
      · next hserves =>
        simp only [Numba.servesGas, decide_eq_true_eq] at hserves
        obtain ⟨opcode, argLen⟩ := x
        obtain rfl := hserves.1
        exact .served argLen _ _ _ hfetch (by rw [hkeeps.1]) (by rw [hkeeps.2])
      · exact finish_moved hfetch hkeeps

lemma Backend.step_moved (B : Backend) (D : DataPath σ) (gm : GasModel) (p : PVMCode)
    (s : Loop σ) : Moved B D p s (B.step D gm p s) := by
  cases B with
  | graypaper => exact Graypaper.step_moved D gm p s
  | cpython => exact CPython.step_moved D gm p s
  | numba nativeGasCost => exact Numba.step_moved nativeGasCost D gm p s

/-! ## The last instruction -/

/-- The induction rule of the loop: what every round keeps holds to the end, and the end is the end
of a round. -/
lemma loop_induction {p : PVMCode} {step : Loop σ → Step σ} {I : Loop σ → Prop}
    {Q : Exit → Loop σ → Prop} (hnext : ∀ s fee s', I s → step s = .next fee s' → I s')
    (hrefuse : ∀ s exit s', I s → step s = .refuse exit s' → Q exit s')
    (hexit : ∀ s exit s', I s → step s = .exit exit s' → Q exit s') (fuel : ℕ) :
    ∀ (s : Loop σ) (r : Invocation σ), I s → loop p step fuel s = some r → Q r.exit r.self := by
  induction fuel with
  | zero =>
    intro s r _ h
    cases h
  | succ fuel ih =>
    intro s r hI h
    rw [loop] at h
    cases hstep : step s with
    | refuse exit s' =>
      rw [hstep] at h
      obtain rfl := Option.some.inj h
      exact hrefuse s exit s' hI hstep
    | exit exit s' =>
      rw [hstep] at h
      obtain rfl := Option.some.inj h
      exact hexit s exit s' hI hstep
    | next fee s' =>
      rw [hstep] at h
      obtain ⟨r', hloop, rfl⟩ := Option.map_eq_some_iff.mp h
      exact ih s' r' (hnext s fee s' hI hstep) hloop

/-- A property of registers and memory that every instruction keeps. -/
structure DataPath.Keeps (D : DataPath σ) (K : σ → Prop) : Prop where
  setReg : ∀ data w, K data → K (D.setReg data w)
  ok : ∀ opcode pc argLen data data', K data → D.run opcode pc argLen data = .ok data' → K data'
  memoryError : ∀ opcode pc argLen data addr data', K data →
    D.run opcode pc argLen data = .memoryError addr data' → K data'
  panicError : ∀ opcode pc argLen data data', K data →
    D.run opcode pc argLen data = .panicError data' → K data'
  raised : ∀ opcode pc argLen data data', K data →
    D.run opcode pc argLen data = .raised data' → K data'

/-- What is known of an invocation from the way it ended. -/
structure Invocation.Ended (B : Backend) (D : DataPath σ) (p : PVMCode) (K : σ → Prop) (exit : Exit)
    (s : Loop σ) : Prop where
  kept : K s.data
  hostHalt : ∀ v, exit = .hostHalt v → ∃ argLen reg, p.fetch s.pc = some (.ecalli, argLen) ∧
    (B.controlStep p s.pc argLen reg .ecalli).next = .hostHalt v
  pageFault : ∀ v, exit = .pageFault v → ∃ opcode pc argLen data addr data', K data ∧
    D.run opcode pc argLen data = .memoryError addr data' ∧ faultExit addr = .pageFault v

lemma Executed.ofNext_eq_stop {next : Next} {data data' : σ} {exit : Exit}
    (h : Executed.ofNext next data = .stop exit data') :
    data' = data ∧ (∀ v, exit = .hostHalt v → next = .hostHalt v) ∧ ∀ v, exit ≠ .pageFault v := by
  cases next <;> cases h <;> simp

/-- Adding to the program counter calls no host. -/
lemma Backend.advance_ne_hostHalt (B : Backend) (pc : ℕ) (skipLen v : ℤ) :
    B.advance pc skipLen ≠ .hostHalt v := by
  cases B with
  | graypaper =>
    rw [Backend.advance, Graypaper.advance]
    split <;> simp
  | cpython | numba _ => simp [Backend.advance, CPython.advance, Numba.advance]

/-- The `ecalli` is the only instruction that calls the host. -/
lemma Graypaper.controlStep_eq_hostHalt {p : PVMCode} {pc argLen : ℕ} {reg : Regs} {op : ControlOp}
    {v : ℤ} (h : (Graypaper.controlStep p pc argLen reg op).next = .hostHalt v) : op = .ecalli := by
  have hadvance := fun pc skipLen => Backend.advance_ne_hostHalt .graypaper pc skipLen v
  simp only [Backend.advance] at hadvance
  cases op <;>
    simp only [Graypaper.controlStep, Graypaper.withImmediate, Graypaper.sjump, Graypaper.branch,
      Graypaper.djump] at h <;> grind

lemma CPython.controlStep_eq_hostHalt {p : PVMCode} {pc argLen : ℕ} {reg : Regs} {op : ControlOp}
    {v : ℤ} (h : (CPython.controlStep p pc argLen reg op).next = .hostHalt v) : op = .ecalli := by
  cases op <;>
    simp only [CPython.controlStep, CPython.sjump, CPython.branch, CPython.djump,
      CPython.advance] at h <;> grind

lemma Numba.controlStep_eq_hostHalt {p : PVMCode} {pc argLen : ℕ} {reg : Regs} {op : ControlOp}
    {v : ℤ} (h : (Numba.controlStep p pc argLen reg op).next = .hostHalt v) : op = .ecalli := by
  cases op <;>
    simp only [Numba.controlStep, Numba.sjump, Numba.branch, Numba.djump, Numba.advance] at h <;>
    grind

lemma Backend.controlStep_eq_hostHalt (B : Backend) {p : PVMCode} {pc argLen : ℕ} {reg : Regs}
    {op : ControlOp} {v : ℤ} (h : (B.controlStep p pc argLen reg op).next = .hostHalt v) :
    op = .ecalli := by
  cases B with
  | graypaper => exact Graypaper.controlStep_eq_hostHalt h
  | cpython => exact CPython.controlStep_eq_hostHalt h
  | numba _ => exact Numba.controlStep_eq_hostHalt h

lemma ControlOp.eq_ecalli_of_ofOpcode {opcode : Opcode}
    (h : ControlOp.ofOpcode opcode = some .ecalli) : opcode = .ecalli := by
  cases opcode with
  | ecalli => rfl
  | noArg o => cases o <;> cases h
  | regImm o => cases o <;> cases h
  | loadImm64 | immImm _ | jump | regImmImm _ | regImmOffset _ | regReg _ | regRegMem _
  | regRegImm _ | regRegOffset _ | loadImmJumpInd | regRegReg _ => cases h

/-- What an instruction that stops the machine says about itself. -/
lemma execute_eq_stop {B : Backend} {D : DataPath σ} {p : PVMCode} {K : σ → Prop} (hK : D.Keeps K)
    {pc argLen : ℕ} {opcode : Opcode} {data data' : σ} {exit : Exit} (hdata : K data)
    (h : execute B.controlStep B.advance D p pc argLen opcode data = .stop exit data') :
    K data' ∧
      (∀ v, exit = .hostHalt v → opcode = .ecalli ∧
        (B.controlStep p pc argLen (D.regs data) .ecalli).next = .hostHalt v) ∧
      ∀ v, exit = .pageFault v → ∃ addr, D.run opcode pc argLen data = .memoryError addr data' ∧
        faultExit addr = .pageFault v := by
  have hmoves : ∀ skipLen data'', Executed.ofNext (B.advance pc skipLen) data'' = .stop exit data' →
      data' = data'' ∧ (∀ v, exit ≠ .hostHalt v) ∧ ∀ v, exit ≠ .pageFault v := by
    intro skipLen data'' hstop
    obtain ⟨rfl, hhost, hfault⟩ := Executed.ofNext_eq_stop hstop
    exact ⟨rfl, fun v hv => B.advance_ne_hostHalt _ _ _ (hhost v hv), hfault⟩
  rw [execute.eq_def] at h
  split at h
  · cases h
    exact ⟨hdata, by simp, by simp⟩
  · obtain ⟨rfl, hhost, hfault⟩ := hmoves _ _ h
    exact ⟨hdata, fun v hv => absurd hv (hhost v), fun v hv => absurd hv (hfault v)⟩
  · split at h
    · next op hop =>
      obtain ⟨rfl, hhost, hfault⟩ := Executed.ofNext_eq_stop h
      refine ⟨?_, ?_, fun v hv => absurd hv (hfault v)⟩
      · cases (B.controlStep p pc argLen (D.regs data) op).write with
        | none => exact hdata
        | some w => exact hK.setReg _ _ hdata
      · intro v hv
        have hnext := hhost v hv
        obtain rfl := B.controlStep_eq_hostHalt hnext
        exact ⟨ControlOp.eq_ecalli_of_ofOpcode hop, hnext⟩
    · split at h
      · next hrun =>
        obtain ⟨rfl, hhost, hfault⟩ := hmoves _ _ h
        exact ⟨hK.ok _ _ _ _ _ hdata hrun, fun v hv => absurd hv (hhost v),
          fun v hv => absurd hv (hfault v)⟩
      · next addr _ hrun =>
        cases h
        refine ⟨hK.memoryError _ _ _ _ _ _ hdata hrun, ?_, fun v hv => ⟨addr, hrun, hv⟩⟩
        intro v hv
        rw [faultExit.eq_def] at hv
        split at hv
        · cases hv
        · split_ifs at hv
      · next hrun =>
        cases h
        exact ⟨hK.panicError _ _ _ _ _ hdata hrun, by simp, by simp⟩
      · next hrun =>
        cases h
        exact ⟨hK.raised _ _ _ _ _ hdata hrun, by simp, by simp⟩

lemma Executed.data_eq_of_continue {next : Next} {data data' : σ} {pc : ℕ}
    (h : Executed.ofNext next data = .continue pc data') : data' = data := by
  cases next <;> cases h
  rfl

/-- An instruction that goes on keeps what every instruction keeps. -/
lemma execute_keeps {B : Backend} {D : DataPath σ} {p : PVMCode} {K : σ → Prop} (hK : D.Keeps K)
    {pc pc' argLen : ℕ} {opcode : Opcode} {data data' : σ} (hdata : K data)
    (h : execute B.controlStep B.advance D p pc argLen opcode data = .continue pc' data') :
    K data' := by
  rw [execute.eq_def] at h
  split at h
  · cases h
  · rw [Executed.data_eq_of_continue h]
    exact hdata
  · split at h
    · next op _ =>
      rw [Executed.data_eq_of_continue h]
      cases (B.controlStep p pc argLen (D.regs data) op).write with
      | none => exact hdata
      | some w => exact hK.setReg _ _ hdata
    · split at h
      · next hrun =>
        rw [Executed.data_eq_of_continue h]
        exact hK.ok _ _ _ _ _ hdata hrun
      · cases h
      · cases h
      · cases h

lemma Backend.loop_ended (B : Backend) {D : DataPath σ} (gm : GasModel) {p : PVMCode}
    {K : σ → Prop} (hK : D.Keeps K) {fuel : ℕ} {s : Loop σ} {r : Invocation σ} (hs : K s.data)
    (h : loop p (B.step D gm p) fuel s = some r) :
    Invocation.Ended B D p K r.exit r.self := by
  refine loop_induction (I := fun s => K s.data) ?_ ?_ ?_ fuel s r hs h
  · intro s fee s' hdata hstep
    have hmoved := B.step_moved D gm p s
    rw [hstep] at hmoved
    cases hmoved with
    | next opcode argLen _ hfetch hexec => exact execute_keeps hK hdata hexec
    | served argLen _ w _ hfetch hpc hsame =>
      rw [hsame]
      exact hK.setReg _ _ hdata
  · intro s exit s' hdata hstep
    have hmoved := B.step_moved D gm p s
    rw [hstep] at hmoved
    cases hmoved with
    | refuse _ _ hexit hsame =>
      refine ⟨by rw [hsame]; exact hdata, ?_, ?_⟩
      · rintro v rfl
        simp at hexit
      · rintro v rfl
        simp at hexit
  · intro s exit s' hdata hstep
    have hmoved := B.step_moved D gm p s
    rw [hstep] at hmoved
    cases hmoved with
    | exit opcode argLen _ _ hfetch hpc hexec =>
      obtain ⟨hkept, hhost, hfault⟩ := execute_eq_stop hK hdata hexec
      refine ⟨hkept, ?_, ?_⟩
      · intro v hv
        obtain ⟨rfl, hnext⟩ := hhost v hv
        rw [hpc]
        exact ⟨argLen, _, hfetch, hnext⟩
      · intro v hv
        obtain ⟨addr, hrun, hexit⟩ := hfault v hv
        exact ⟨opcode, s.pc, argLen, s.data, addr, _, hdata, hrun, hexit⟩

lemma Backend.invoke_ended (B : Backend) {D : DataPath σ} (gm : GasModel) {p : PVMCode}
    {K : σ → Prop} (hK : D.Keeps K) {fuel : ℕ} {self : Loop σ} {pc gas : ℕ} {r : Invocation σ}
    (hself : K self.data) (h : B.invoke D gm p fuel self pc gas = some r) :
    Invocation.Ended B D p K r.exit r.self := by
  rw [Backend.invoke] at h
  split at h
  · refine B.loop_ended gm hK ?_ h
    exact hself
  · obtain rfl := Option.some.inj h
    exact ⟨hself, by simp, by simp⟩

/-! ## Exceptions

The loops of two interpreters have a handler for every exception, so no run of theirs raises. -/

/-- The instructions that move no control leave no exception to the caller of `invoke`. -/
def DataPath.Catches (D : DataPath σ) : Prop :=
  ∀ opcode pc argLen data data', D.run opcode pc argLen data ≠ .raised data'

/-- The run ended as the sources say, with nothing raised and nothing undefined. -/
def Exit.Answers (exit : Exit) : Prop := exit ≠ .raised ∧ exit ≠ .undefined

/-- The position after an instruction that ends no block is inside the code. -/
lemma PVMCode.next_lt {p : PVMCode} (hvalid : p.valid = true) {pc argLen : ℕ} {opcode : Opcode}
    (hfetch : p.fetch pc = some (opcode, argLen)) (hend : opcode.isTermination = false) :
    pc + argLen + 1 < p.code.length ∧ pc + argLen + 1 < 2 ^ 32 := by
  obtain ⟨argLen', hnext⟩ := Option.isSome_iff_exists.mp (p.isSome_next hvalid hfetch hend)
  have hlt := p.pc_lt hnext
  have hlength := p.code_length_le
  exact ⟨hlt, by omega⟩

lemma Graypaper.controlStep_next (p : PVMCode) (pc argLen : ℕ) (reg : Regs) (op : ControlOp) :
    (Graypaper.controlStep p pc argLen reg op).next ≠ .raised ∧
      (Graypaper.controlStep p pc argLen reg op).next ≠ .undefined := by
  by_cases hreg : op = .loadImmJumpInd → byteAt p.code (pc + 1) / 16 ≤ 12
  · rw [Graypaper.controlStep_eq p pc argLen reg op hreg]
    exact CPython.controlStep_next p pc argLen reg op
  · push Not at hreg
    obtain ⟨rfl, hreg⟩ := hreg
    simp [Graypaper.controlStep, if_pos hreg]

lemma Backend.controlStep_next {B : Backend} (hB : B = .graypaper ∨ B = .cpython) (p : PVMCode)
    (pc argLen : ℕ) (reg : Regs) (op : ControlOp) :
    (B.controlStep p pc argLen reg op).next ≠ .raised ∧
      (B.controlStep p pc argLen reg op).next ≠ .undefined := by
  rcases hB with rfl | rfl
  · exact Graypaper.controlStep_next p pc argLen reg op
  · exact CPython.controlStep_next p pc argLen reg op

/-- An instruction that moves no control goes on with the next one, which lies in the space. -/
lemma Backend.advance_next (B : Backend) {pc argLen : ℕ} (h : pc + argLen + 1 < 2 ^ 32) :
    B.advance pc (argLen + 1 : ℕ) = .continue (pc + argLen + 1) := by
  have hnat : (pc : ℤ) + (argLen + 1 : ℕ) = (pc + argLen + 1 : ℕ) := by omega
  have hunsigned : TwosComplement.unsigned 32 (pc + argLen + 1 : ℕ) = pc + argLen + 1 :=
    TwosComplement.unsigned_natCast h
  cases B with
  | graypaper =>
    rw [Backend.advance, Graypaper.advance, hnat, if_pos (by omega), Int.toNat_natCast]
  | cpython => rw [Backend.advance, CPython.advance, hnat, hunsigned]
  | numba _ => rw [Backend.advance, Numba.advance, hnat, hunsigned]

lemma Backend.advance_answers (B : Backend) {pc argLen : ℕ} (h : pc + argLen + 1 < 2 ^ 32) :
    B.advance pc (argLen + 1 : ℕ) ≠ .raised ∧ B.advance pc (argLen + 1 : ℕ) ≠ .undefined := by
  rw [B.advance_next h]
  simp

lemma Executed.answers_of_ofNext {next : Next} {data data' : σ} {exit : Exit}
    (hnext : next ≠ .raised ∧ next ≠ .undefined)
    (h : Executed.ofNext next data = .stop exit data') : exit.Answers := by
  cases next with
  | raised => exact absurd rfl hnext.1
  | undefined => exact absurd rfl hnext.2
  | «continue» pc => cases h
  | halt | panic | hostHalt v =>
    cases h
    simp [Exit.Answers]

lemma faultExit_answers (addr : Option ℤ) : (faultExit addr).Answers := by
  cases addr with
  | none => simp [faultExit, Exit.Answers]
  | some a =>
    rw [faultExit]
    split_ifs <;> simp [Exit.Answers]

/-- An instruction of the two interpreters that stops the machine does not raise. -/
lemma execute_answers {B : Backend} (hB : B = .graypaper ∨ B = .cpython) {D : DataPath σ}
    (hD : D.Catches) {p : PVMCode} (hvalid : p.valid = true) {pc argLen : ℕ} {opcode : Opcode}
    {data data' : σ} {exit : Exit} (hfetch : p.fetch pc = some (opcode, argLen))
    (h : execute B.controlStep B.advance D p pc argLen opcode data = .stop exit data') :
    exit.Answers := by
  rw [execute.eq_def] at h
  split at h
  · cases h
    simp [Exit.Answers]
  · exact Executed.answers_of_ofNext
      (B.advance_answers (PVMCode.next_lt hvalid hfetch rfl).2) h
  · next htrap _ =>
    split at h
    · exact Executed.answers_of_ofNext (Backend.controlStep_next hB _ _ _ _ _) h
    · next hdata =>
      have hend := Opcode.isTermination_of_ofOpcode htrap hdata
      split at h
      · exact Executed.answers_of_ofNext
          (B.advance_answers (PVMCode.next_lt hvalid hfetch hend).2) h
      · cases h
        exact faultExit_answers _
      · cases h
        simp [Exit.Answers]
      · next hrun => exact absurd hrun (hD _ _ _ _ _)

/-- No run of the two interpreters raises. -/
lemma Backend.invoke_answers {B : Backend} (hB : B = .graypaper ∨ B = .cpython) {D : DataPath σ}
    (hD : D.Catches) (gm : GasModel) {p : PVMCode} {fuel : ℕ} {self : Loop σ} {pc gas : ℕ}
    {r : Invocation σ} (h : B.invoke D gm p fuel self pc gas = some r) : r.exit.Answers := by
  rw [Backend.invoke] at h
  split at h
  · next hstart =>
    refine loop_induction (I := fun _ => True) (Q := fun exit _ => exit.Answers)
      (fun _ _ _ _ _ => trivial) ?_ ?_ fuel _ r trivial h
    · intro s exit s' _ hstep
      have hmoved := B.step_moved D gm p s
      rw [hstep] at hmoved
      cases hmoved with
      | refuse _ _ hexit hdata => rcases hexit with rfl | rfl <;> simp [Exit.Answers]
    · intro s exit s' _ hstep
      have hmoved := B.step_moved D gm p s
      rw [hstep] at hmoved
      cases hmoved with
      | exit opcode argLen _ _ hfetch hpc hexec =>
        exact execute_answers hB hD hstart.1 hfetch hexec
  · obtain rfl := Option.some.inj h
    simp [Exit.Answers]

/-! ## Every invocation ends -/

/-- A bound for the rounds that are left: so many for every unit of gas, and in a paid block the
distance to the end of the code. -/
def roundsLeft (p : PVMCode) (s : Loop σ) : ℕ :=
  s.gas * (p.code.length + 2) + if s.gasPaid then p.code.length + 1 - s.pc else 0

/-- The host call is the only control-flow instruction that ends no block. -/
lemma ControlOp.eq_ecalli_of_not_isTermination {opcode : Opcode} {op : ControlOp}
    (h : ControlOp.ofOpcode opcode = some op) (hend : opcode.isTermination = false) :
    op = .ecalli := by
  cases opcode with
  | ecalli =>
    cases h
    rfl
  | noArg o =>
    cases o <;> cases h
    cases hend
  | regImm o =>
    cases o <;> cases h
    cases hend
  | jump | regImmOffset _ | regRegOffset _ | loadImmJumpInd => cases hend
  | loadImm64 | immImm _ | regImmImm _ | regReg _ | regRegMem _ | regRegImm _ | regRegReg _ => cases h

lemma Backend.ecalli_ne_continue (B : Backend) (p : PVMCode) (pc argLen : ℕ) (reg : Regs) (pc' : ℕ) :
    (B.controlStep p pc argLen reg .ecalli).next ≠ .continue pc' := by
  cases B with
  | graypaper =>
    rw [Backend.controlStep, Graypaper.controlStep, Graypaper.withImmediate_eq _ _ (min_le_left _ _)]
    simp
  | cpython => simp [Backend.controlStep, CPython.controlStep]
  | numba _ =>
    rw [Backend.controlStep, Numba.controlStep]
    split <;> simp

/-- An instruction that goes on inside its block goes on to the next instruction. -/
lemma execute_advances (B : Backend) (D : DataPath σ) {p : PVMCode} (hvalid : p.valid = true)
    {pc pc' argLen : ℕ} {opcode : Opcode} {data data' : σ}
    (hfetch : p.fetch pc = some (opcode, argLen)) (hend : opcode.isTermination = false)
    (h : execute B.controlStep B.advance D p pc argLen opcode data = .continue pc' data') :
    pc' = pc + argLen + 1 := by
  have hnext : B.advance pc (argLen + 1 : ℕ) = .continue pc' → pc' = pc + argLen + 1 := by
    intro hadvance
    rw [B.advance_next (PVMCode.next_lt hvalid hfetch hend).2] at hadvance
    exact (Next.continue.inj hadvance).symm
  rw [execute.eq_def] at h
  split at h
  · cases h
  · exact hnext (Executed.ofNext_eq_continue h)
  · split at h
    · next op hop =>
      obtain rfl := ControlOp.eq_ecalli_of_not_isTermination hop hend
      exact absurd (Executed.ofNext_eq_continue h) (B.ecalli_ne_continue _ _ _ _ _)
    · split at h
      · exact hnext (Executed.ofNext_eq_continue h)
      · cases h
      · cases h
      · cases h

/-- Every round uses up some of what is left. -/
lemma Backend.roundsLeft_lt (B : Backend) (D : DataPath σ) (gm : GasModel) {p : PVMCode}
    (hvalid : p.valid = true) {s s' : Loop σ} {fee : ℕ} (hready : B.Ready p s)
    (h : B.step D gm p s = .next fee s') : roundsLeft p s' < roundsLeft p s := by
  have hcharged := B.step_charged D gm hvalid hready
  have hmoved := B.step_moved D gm p s
  rw [h] at hcharged hmoved
  cases hcharged with
  | next _ _ hgas hpaid =>
    have hfetched : ∃ opcode argLen, p.fetch s.pc = some (opcode, argLen) ∧
        (opcode.isTermination = false → s'.pc = s.pc + argLen + 1) := by
      cases hmoved with
      | next opcode argLen _ hfetch hexec =>
        exact ⟨opcode, argLen, hfetch, fun hend => execute_advances B D hvalid hfetch hend hexec⟩
      | served argLen _ w _ hfetch hpc hdata =>
        refine ⟨.ecalli, argLen, hfetch, fun hend => ?_⟩
        rw [hpc, Nat.mod_eq_of_lt (PVMCode.next_lt hvalid hfetch hend).2]
    obtain ⟨opcode, argLen, hfetch, hnext⟩ := hfetched
    have hinside := p.pc_lt (PVMCode.fetch_eq_some.mp hfetch).1
    rw [PVMCode.endsBlock_of_fetch hfetch] at hpaid
    have hmul : s'.gas * (p.code.length + 2) ≤ s.gas * (p.code.length + 2) :=
      Nat.mul_le_mul_right _ (by omega)
    cases hbefore : s.gasPaid with
    | true =>
      simp only [roundsLeft, hbefore, hpaid, if_true]
      cases hend : opcode.isTermination with
      | true =>
        simp only [Bool.not_true, Bool.false_eq_true, if_false]
        omega
      | false =>
        rw [hnext hend]
        simp only [Bool.not_false, if_true]
        omega
    | false =>
      -- the block is paid now, and a unit of gas is worth more rounds than the code is long
      have hdue : 1 ≤ due p gm s := by
        rw [due, hbefore]
        exact gm.one_le_cost _
      have hspent : (s'.gas + 1) * (p.code.length + 2) ≤ s.gas * (p.code.length + 2) :=
        Nat.mul_le_mul_right _ (by omega)
      rw [Nat.add_mul, Nat.one_mul] at hspent
      simp only [roundsLeft, hbefore, Bool.false_eq_true, if_false]
      split <;> omega

lemma Backend.loop_isSome (B : Backend) (D : DataPath σ) (gm : GasModel) {p : PVMCode}
    (hvalid : p.valid = true) (fuel : ℕ) :
    ∀ s : Loop σ, B.Ready p s → roundsLeft p s < fuel → (loop p (B.step D gm p) fuel s).isSome := by
  induction fuel with
  | zero =>
    intro s _ hfuel
    exact absurd hfuel (Nat.not_lt_zero _)
  | succ fuel ih =>
    intro s hready hfuel
    rw [loop]
    cases hstep : B.step D gm p s with
    | refuse exit s' => rfl
    | exit exit s' => rfl
    | next fee s' =>
      have hless := B.roundsLeft_lt D gm hvalid hready hstep
      have hrest := ih s' (B.ready_of_step D gm hvalid hstep) (by omega)
      simpa using hrest

/-- With enough fuel for the gas it is given, every invocation ends. -/
theorem Backend.invoke_isSome (B : Backend) (D : DataPath σ) (gm : GasModel) (p : PVMCode)
    (self : Loop σ) (pc gas : ℕ) {fuel : ℕ} (hfuel : (gas + 1) * (p.code.length + 2) ≤ fuel) :
    (B.invoke D gm p fuel self pc gas).isSome := by
  rw [Backend.invoke]
  split
  · next hstart =>
    apply B.loop_isSome D gm hstart.1
    · rintro -
      obtain ⟨opcode, argLen, hfetch⟩ := p.exists_fetch hstart.1 hstart.2
      exact Option.isSome_iff_exists.mpr ⟨_, hfetch⟩
    · rw [Nat.add_mul, Nat.one_mul] at hfuel
      simp only [roundsLeft]
      split <;> omega
  · rfl

end Pvm
