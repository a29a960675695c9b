import Pyjamaz.HostCalls.Mutators

/-!
# The gas query in compiled code

Numba's loop can answer the gas query itself: it takes the fee, writes register 7 and goes on behind the
call.  Without that the loop stops, the mutator answers and the machine is invoked again behind the
call, where it looks up its block anew.

A run with host calls is first taken apart into rounds of the machine, which know nothing of the
invocations that they belong to (`exists_pvmInvokeHostCall_iff`).  Round by round the two ways are
then in step: a query is one round in either (`rounds_alike`).
-/

namespace HostCalls

open Pvm Services Octets Accumulation

variable {σ χ : Type}

/-! ## Rounds -/

/-- The next invocation, given the run that it begins. -/
def Driver.enter (run : Loop σ → χ → Option (MachineRun σ χ)) (self : Loop σ)
    (instructionCounter : ℕ) (gas : ℤ) (x : χ) : Option (MachineRun σ χ) :=
  match validatePvmGas gas with
  | none => some ⟨[], self.pc, .error .raised⟩
  | some gas => run { self with pc := instructionCounter, gas := gas, lookupBlock := true } x

/-- The rest of a run after an invocation, given the invocations that follow. -/
def Afterwards.rest (again : Loop σ → ℕ → ℤ → χ → Option (MachineRun σ χ)) :
    Afterwards σ χ → Option (MachineRun σ χ)
  | .ends run => some run
  | .resumes call self instructionCounter gas x =>
    (again self instructionCounter gas x).map fun run => run.record call

/-- A run as one sequence of rounds, with host calls where a round stops the machine. -/
def Driver.rounds (p : PVMCode) (step : Loop σ → Pvm.Step σ) (mutator : Mutator σ χ) :
    ℕ → Loop σ → χ → Option (MachineRun σ χ)
  | 0, _, _ => none
  | fuel + 1, s, x =>
    match step s with
    | .next _ s => rounds p step mutator fuel s x
    | .refuse exit s | .exit exit s =>
      (afterwards p mutator exit s x).bind (Afterwards.rest (Driver.enter (rounds p step mutator fuel)))

section Rounds

variable {p : PVMCode} {step : Loop σ → Pvm.Step σ} {mutator : Mutator σ χ}

lemma enter_mono {run run' : Loop σ → χ → Option (MachineRun σ χ)}
    (h : ∀ s x r, run s x = some r → run' s x = some r) {self : Loop σ} {pc : ℕ} {gas : ℤ} {x : χ}
    {r : MachineRun σ χ} (henter : Driver.enter run self pc gas x = some r) :
    Driver.enter run' self pc gas x = some r := by
  unfold Driver.enter at henter ⊢
  split at henter
  · exact henter
  · exact h _ _ _ henter

lemma rest_mono {again again' : Loop σ → ℕ → ℤ → χ → Option (MachineRun σ χ)}
    (h : ∀ self pc gas x r, again self pc gas x = some r → again' self pc gas x = some r)
    {a : Afterwards σ χ} {r : MachineRun σ χ} (hrest : a.rest again = some r) :
    a.rest again' = some r := by
  cases a with
  | ends run => exact hrest
  | resumes call self pc gas x =>
    obtain ⟨run, hagain, rfl⟩ := Option.map_eq_some_iff.mp hrest
    exact Option.map_eq_some_iff.mpr ⟨run, h _ _ _ _ _ hagain, rfl⟩

/-- What follows an invocation, with more rounds to come. -/
lemma afterwards_mono {run run' : Loop σ → χ → Option (MachineRun σ χ)}
    (h : ∀ s x r, run s x = some r → run' s x = some r) {o : Option (Afterwards σ χ)}
    {r : MachineRun σ χ} (hrest : o.bind (Afterwards.rest (Driver.enter run)) = some r) :
    o.bind (Afterwards.rest (Driver.enter run')) = some r := by
  obtain ⟨a, ha, hrest⟩ := Option.bind_eq_some_iff.mp hrest
  exact Option.bind_eq_some_iff.mpr
    ⟨a, ha, rest_mono (fun _ _ _ _ _ henter => enter_mono h henter) hrest⟩

lemma rounds_succ {fuel : ℕ} :
    ∀ (s : Loop σ) (x : χ) (run : MachineRun σ χ), Driver.rounds p step mutator fuel s x = some run →
      Driver.rounds p step mutator (fuel + 1) s x = some run := by
  induction fuel with
  | zero =>
    intro s x run h
    cases h
  | succ fuel ih =>
    intro s x run h
    rw [Driver.rounds] at h ⊢
    cases hstep : step s with
    | next fee s' =>
      simp only [hstep] at h ⊢
      exact ih s' x run h
    | refuse exit s' =>
      simp only [hstep] at h ⊢
      exact afterwards_mono ih h
    | exit exit s' =>
      simp only [hstep] at h ⊢
      exact afterwards_mono ih h

lemma rounds_mono {fuel fuel' : ℕ} (hle : fuel ≤ fuel') {s : Loop σ} {x : χ} {run : MachineRun σ χ}
    (h : Driver.rounds p step mutator fuel s x = some run) :
    Driver.rounds p step mutator fuel' s x = some run := by
  induction fuel', hle using Nat.le_induction with
  | base => exact h
  | succ fuel' _ ih => exact rounds_succ _ _ _ ih

lemma loop_succ {fuel : ℕ} :
    ∀ (s : Loop σ) (r : Invocation σ), loop p step fuel s = some r → loop p step (fuel + 1) s = some r := by
  induction fuel with
  | zero =>
    intro s r h
    cases h
  | succ fuel ih =>
    intro s r h
    rw [loop] at h ⊢
    cases hstep : step s with
    | next fee s' =>
      simp only [hstep] at h ⊢
      obtain ⟨r', hloop, rfl⟩ := Option.map_eq_some_iff.mp h
      exact Option.map_eq_some_iff.mpr ⟨r', ih s' r' hloop, rfl⟩
    | refuse exit s' =>
      simp only [hstep] at h ⊢
      exact h
    | exit exit s' =>
      simp only [hstep] at h ⊢
      exact h

lemma loop_mono {fuel fuel' : ℕ} (hle : fuel ≤ fuel') {s : Loop σ} {r : Invocation σ}
    (h : loop p step fuel s = some r) : loop p step fuel' s = some r := by
  induction fuel', hle using Nat.le_induction with
  | base => exact h
  | succ fuel' _ ih => exact loop_succ _ _ ih

/-! ## Rounds and invocations -/

/-- An invocation is followed by what comes after its last round. -/
lemma rounds_of_loop {more : ℕ} {x : χ} {run : MachineRun σ χ} {fuel : ℕ} :
    ∀ (s : Loop σ) (r : Invocation σ), loop p step fuel s = some r →
      (afterwards p mutator r.exit r.self x).bind
        (Afterwards.rest (Driver.enter (Driver.rounds p step mutator more))) = some run →
      Driver.rounds p step mutator (fuel + more) s x = some run := by
  induction fuel with
  | zero =>
    intro s r h
    cases h
  | succ fuel ih =>
    intro s r h hrest
    have hlonger : ∀ s x r, Driver.rounds p step mutator more s x = some r →
        Driver.rounds p step mutator (fuel + more) s x = some r :=
      fun _ _ _ hrun => rounds_mono (Nat.le_add_left more fuel) hrun
    rw [Nat.succ_add, Driver.rounds]
    rw [loop] at h
    cases hstep : step s with
    | next fee s' =>
      simp only [hstep] at h ⊢
      obtain ⟨r', hloop, rfl⟩ := Option.map_eq_some_iff.mp h
      exact ih s' r' hloop hrest
    | refuse exit s' =>
      simp only [hstep] at h ⊢
      cases h
      exact afterwards_mono hlonger hrest
    | exit exit s' =>
      simp only [hstep] at h ⊢
      cases h
      exact afterwards_mono hlonger hrest

/-- A run begins with an invocation. -/
lemma loop_of_rounds {x : χ} {run : MachineRun σ χ} {fuel : ℕ} :
    ∀ s : Loop σ, Driver.rounds p step mutator fuel s x = some run →
      ∃ r more, more < fuel ∧ loop p step fuel s = some r ∧
        (afterwards p mutator r.exit r.self x).bind
          (Afterwards.rest (Driver.enter (Driver.rounds p step mutator more))) = some run := by
  induction fuel with
  | zero =>
    intro s h
    cases h
  | succ fuel ih =>
    intro s h
    rw [Driver.rounds] at h
    rw [loop]
    cases hstep : step s with
    | next fee s' =>
      simp only [hstep] at h ⊢
      obtain ⟨r, more, hmore, hloop, hrest⟩ := ih s' h
      exact ⟨_, more, Nat.lt_succ_of_lt hmore, Option.map_eq_some_iff.mpr ⟨r, hloop, rfl⟩, hrest⟩
    | refuse exit s' =>
      simp only [hstep] at h ⊢
      exact ⟨_, fuel, Nat.lt_succ_self fuel, rfl, h⟩
    | exit exit s' =>
      simp only [hstep] at h ⊢
      exact ⟨_, fuel, Nat.lt_succ_self fuel, rfl, h⟩

end Rounds

section Invocations

variable {nativeGasCost : ℕ} {D : DataPath σ} {gm : GasModel} {p : PVMCode} {mutator : Mutator σ χ}

/-- In valid code the loop itself refuses a program counter that is not an instruction. -/
lemma invoke_eq_loop (hvalid : p.valid = true) (fuel : ℕ) (self : Loop σ) (pc gas : ℕ) :
    (Backend.numba nativeGasCost).invoke D gm p (fuel + 1) self pc gas =
      loop p (Numba.step nativeGasCost D gm p) (fuel + 1)
        { self with pc := pc, gas := gas, lookupBlock := true } := by
  rw [Backend.invoke]
  split
  · rfl
  · next hstart =>
    have hfetch : p.fetch pc = none := by
      rw [PVMCode.fetch]
      cases hlen : p.instArgLen pc with
      | none => rfl
      | some argLen => exact absurd ⟨hvalid, by rw [hlen]; rfl⟩ hstart
    rw [loop, Numba.step]
    simp only [hfetch]

/-- The loop of the host calls, for one more round of it. -/
lemma pvmInvokeHostCall_succ (hvalid : p.valid = true) (fuel : ℕ) (self : Loop σ) (pc : ℕ) (gas : ℤ)
    (x : χ) :
    Driver.pvmInvokeHostCall (.numba nativeGasCost) D gm p mutator (fuel + 1) self pc gas x =
      Driver.enter (fun s x => (loop p (Numba.step nativeGasCost D gm p) (fuel + 1) s).bind fun r =>
        (afterwards p mutator r.exit r.self x).bind
          (Afterwards.rest (Driver.pvmInvokeHostCall (.numba nativeGasCost) D gm p mutator fuel)))
        self pc gas x := by
  rw [Driver.pvmInvokeHostCall, Driver.enter]
  cases validatePvmGas gas with
  | none => rfl
  | some limit =>
    simp only [invoke_eq_loop hvalid]
    rfl

/-- Rounds make the run. -/
lemma pvmInvokeHostCall_of_rounds (hvalid : p.valid = true) (fuel : ℕ) :
    ∀ (self : Loop σ) (pc : ℕ) (gas : ℤ) (x : χ) (run : MachineRun σ χ),
      Driver.enter (Driver.rounds p (Numba.step nativeGasCost D gm p) mutator fuel) self pc gas x =
        some run →
      ∃ enough, ∀ fuel', enough ≤ fuel' → Driver.pvmInvokeHostCall (.numba nativeGasCost) D gm p mutator
        fuel' self pc gas x = some run := by
  induction fuel using Nat.strong_induction_on with
  | _ fuel ih =>
    intro self pc gas x run h
    cases hgas : validatePvmGas gas with
    | none =>
      refine ⟨1, fun fuel' hle => ?_⟩
      obtain ⟨fuel', rfl⟩ := Nat.exists_eq_add_of_le' hle
      rw [Driver.enter, hgas] at h
      rw [pvmInvokeHostCall_succ hvalid, Driver.enter, hgas]
      exact h
    | some limit =>
      rw [Driver.enter, hgas] at h
      obtain ⟨r, more, hmore, hloop, h⟩ := loop_of_rounds _ h
      obtain ⟨a, hafter, hrest⟩ := Option.bind_eq_some_iff.mp h
      cases a with
      | ends run' =>
        refine ⟨fuel + 1, fun fuel' hle => ?_⟩
        obtain ⟨fuel', rfl⟩ := Nat.exists_eq_succ_of_ne_zero (Nat.ne_zero_of_lt hle)
        rw [pvmInvokeHostCall_succ hvalid, Driver.enter, hgas]
        refine Option.bind_eq_some_iff.mpr ⟨r, loop_mono (Nat.le_of_succ_le hle) hloop, ?_⟩
        exact Option.bind_eq_some_iff.mpr ⟨_, hafter, hrest⟩
      | resumes call self' pc' gas' x' =>
        obtain ⟨run', henter, rfl⟩ := Option.map_eq_some_iff.mp hrest
        obtain ⟨enough, henough⟩ := ih more hmore self' pc' gas' x' run' henter
        refine ⟨max fuel enough + 1, fun fuel' hle => ?_⟩
        obtain ⟨fuel', rfl⟩ := Nat.exists_eq_succ_of_ne_zero (Nat.ne_zero_of_lt hle)
        rw [pvmInvokeHostCall_succ hvalid, Driver.enter, hgas]
        have hfuel : fuel ≤ fuel' + 1 := by omega
        refine Option.bind_eq_some_iff.mpr ⟨r, loop_mono hfuel hloop, ?_⟩
        refine Option.bind_eq_some_iff.mpr ⟨_, hafter, ?_⟩
        exact Option.map_eq_some_iff.mpr ⟨run', henough fuel' (by omega), rfl⟩

/-- A run is made of rounds. -/
lemma rounds_of_pvmInvokeHostCall (hvalid : p.valid = true) (fuel : ℕ) :
    ∀ (self : Loop σ) (pc : ℕ) (gas : ℤ) (x : χ) (run : MachineRun σ χ),
      Driver.pvmInvokeHostCall (.numba nativeGasCost) D gm p mutator fuel self pc gas x = some run →
      ∃ fuel', Driver.enter (Driver.rounds p (Numba.step nativeGasCost D gm p) mutator fuel') self pc
        gas x = some run := by
  induction fuel with
  | zero =>
    intro self pc gas x run h
    cases h
  | succ fuel ih =>
    intro self pc gas x run h
    rw [pvmInvokeHostCall_succ hvalid] at h
    cases hgas : validatePvmGas gas with
    | none =>
      refine ⟨0, ?_⟩
      rw [Driver.enter, hgas] at h ⊢
      exact h
    | some limit =>
      rw [Driver.enter, hgas] at h
      obtain ⟨r, hloop, h⟩ := Option.bind_eq_some_iff.mp h
      obtain ⟨a, hafter, hrest⟩ := Option.bind_eq_some_iff.mp h
      cases a with
      | ends run' =>
        refine ⟨fuel + 1 + 0, ?_⟩
        rw [Driver.enter, hgas]
        exact rounds_of_loop _ r hloop (Option.bind_eq_some_iff.mpr ⟨_, hafter, hrest⟩)
      | resumes call self' pc' gas' x' =>
        obtain ⟨run', hrun, rfl⟩ := Option.map_eq_some_iff.mp hrest
        obtain ⟨more, henter⟩ := ih self' pc' gas' x' run' hrun
        refine ⟨fuel + 1 + more, ?_⟩
        rw [Driver.enter, hgas]
        refine rounds_of_loop _ r hloop (Option.bind_eq_some_iff.mpr ⟨_, hafter, ?_⟩)
        exact Option.map_eq_some_iff.mpr ⟨run', henter, rfl⟩

/-- The runs of valid code are those that the rounds make. -/
theorem exists_pvmInvokeHostCall_iff (hvalid : p.valid = true) (self : Loop σ) (pc : ℕ) (gas : ℤ)
    (x : χ) (run : MachineRun σ χ) :
    (∃ fuel, Driver.pvmInvokeHostCall (.numba nativeGasCost) D gm p mutator fuel self pc gas x =
        some run) ↔
      ∃ fuel, Driver.enter (Driver.rounds p (Numba.step nativeGasCost D gm p) mutator fuel) self pc
        gas x = some run := by
  constructor
  · rintro ⟨fuel, h⟩
    exact rounds_of_pvmInvokeHostCall hvalid fuel self pc gas x run h
  · rintro ⟨fuel, h⟩
    obtain ⟨enough, henough⟩ := pvmInvokeHostCall_of_rounds hvalid fuel self pc gas x run h
    exact ⟨enough, henough enough le_rfl⟩

end Invocations

/-! ## Machines that differ in the block looked up -/

/-- Two machines that do the same: they may have looked up their block at different times. -/
structure Alike (s t : Loop σ) : Prop where
  pc : s.pc = t.pc
  gas : s.gas = t.gas
  gasPaid : s.gasPaid = t.gasPaid
  skipLen : s.skipLen = t.skipLen
  data : s.data = t.data

/-- Two rounds with the same effect. -/
inductive StepAlike : Pvm.Step σ → Pvm.Step σ → Prop
  | refuse (exit : Exit) {s t : Loop σ} (h : Alike s t) : StepAlike (.refuse exit s) (.refuse exit t)
  | exit (exit : Exit) {s t : Loop σ} (h : Alike s t) : StepAlike (.exit exit s) (.exit exit t)
  | next (fee fee' : ℕ) {s t : Loop σ} (h : Alike s t) : StepAlike (.next fee s) (.next fee' t)

/-- Two ways to go on that do the same. -/
inductive AfterwardsAlike : Afterwards σ χ → Afterwards σ χ → Prop
  | ends (run : MachineRun σ χ) : AfterwardsAlike (.ends run) (.ends run)
  | resumes (call : HostCallRecord σ) {s t : Loop σ} (h : Alike s t) (pc : ℕ) (gas : ℤ) (x : χ) :
    AfterwardsAlike (.resumes call s pc gas x) (.resumes call t pc gas x)

section Alike

variable {D : DataPath σ} {gm : GasModel} {p : PVMCode} {mutator : Mutator σ χ} {s t : Loop σ}

lemma Alike.due (h : Alike s t) : due p gm s = due p gm t := by
  rw [Pvm.due, Pvm.due, h.gasPaid, h.pc]

variable (gm) in
/-- What charging does, whether the block is looked up or not. -/
lemma chargeOnEntry_cases (hvalid : p.valid = true) (s : Loop σ) :
    (s.gas < due p gm s ∧ Numba.chargeOnEntry p gm s = none) ∨
      (due p gm s ≤ s.gas ∧ ∃ start, Numba.chargeOnEntry p gm s =
        some ⟨s.pc, s.gas - due p gm s, some start, s.skipLen, false, s.data⟩) := by
  obtain ⟨pc, gas, currentBlockStart, skipLen, lookupBlock, data⟩ := s
  rw [Numba.chargeOnEntry, charge, if_neg (p.blocks_ne_nil hvalid), Pvm.due]
  cases currentBlockStart with
  | some start =>
    refine .inr ⟨Nat.zero_le _, ?_⟩
    cases lookupBlock with
    | true => exact ⟨_, rfl⟩
    | false => exact ⟨start, rfl⟩
  | none =>
    by_cases hgas : gas < p.blockCost gm pc
    · refine .inl ⟨hgas, ?_⟩
      simp [hgas]
    · refine .inr ⟨not_lt.mp hgas, ?_⟩
      simp [hgas, Loop.gasPaid]

variable (gm) in
/-- Charging keeps machines alike. -/
lemma Alike.chargeOnEntry (hvalid : p.valid = true) (h : Alike s t) :
    (Numba.chargeOnEntry p gm s = none ∧ Numba.chargeOnEntry p gm t = none) ∨
      ∃ s' t', Numba.chargeOnEntry p gm s = some s' ∧ Numba.chargeOnEntry p gm t = some t' ∧
        Alike s' t' ∧ s'.pc = s.pc := by
  have hdue : Pvm.due p gm s = Pvm.due p gm t := h.due
  have hgas := h.gas
  rcases chargeOnEntry_cases gm hvalid s with ⟨hless, hs⟩ | ⟨hle, start, hs⟩
  · rcases chargeOnEntry_cases gm hvalid t with ⟨-, ht⟩ | ⟨hle, -⟩
    · exact .inl ⟨hs, ht⟩
    · omega
  · rcases chargeOnEntry_cases gm hvalid t with ⟨hless, -⟩ | ⟨-, start', ht⟩
    · omega
    · exact .inr ⟨_, _, hs, ht, ⟨h.pc, by rw [hdue, hgas], rfl, h.skipLen, h.data⟩, rfl⟩

lemma Alike.finish (h : Alike s t) (opcode : Opcode) (argLen : ℕ) (x : Executed σ) :
    StepAlike (finish s opcode argLen x) (finish t opcode argLen x) := by
  cases x with
  | «continue» pc data =>
    refine .next 0 0 ⟨rfl, h.gas, ?_, rfl, rfl⟩
    cases opcode.isTermination with
    | true => rfl
    | false => exact h.gasPaid
  | stop exit data => exact .exit exit ⟨h.pc, h.gas, h.gasPaid, rfl, rfl⟩

lemma Alike.nextInstruction (h : Alike s t) : nextInstruction p s = nextInstruction p t := by
  rw [Pvm.nextInstruction, Pvm.nextInstruction, h.pc]

/-- What follows an invocation depends on nothing else. -/
lemma Alike.afterwards (h : Alike s t) (exit : Exit) (x : χ) :
    Option.Rel AfterwardsAlike (afterwards p mutator exit s x) (afterwards p mutator exit t x) := by
  have hnext : Pvm.nextInstruction p s = Pvm.nextInstruction p t := h.nextInstruction
  have hends : ∀ exit : Exit, AfterwardsAlike
      (.ends ⟨[], s.pc, .ok ⟨exit, if exit.restarts then 0 else s.pc, s.gas, s.data, x⟩⟩)
      (.ends ⟨[], t.pc, .ok ⟨exit, if exit.restarts then 0 else t.pc, t.gas, t.data, x⟩⟩) := by
    intro exit
    rw [h.pc, h.gas, h.data]
    exact .ends _
  cases exit with
  | hostHalt n =>
    rw [HostCalls.afterwards, HostCalls.afterwards]
    rw [h.gas, h.data, h.pc, hnext]
    cases mutator n t.gas t.data x with
    | none => exact .none
    | some answer =>
      cases answer with
      | error e => exact .some (.ends _)
      | ok m =>
        refine .some ?_
        dsimp only
        cases m.exitCondition with
        | resume =>
          cases Pvm.nextInstruction p t with
          | none => exact .ends _
          | some pc =>
            refine .resumes _ ?_ pc _ _
            exact ⟨rfl, rfl, h.gasPaid, h.skipLen, rfl⟩
        | panic => exact .ends _
        | outOfGas => exact .ends _
  | raised => exact .some (h.pc ▸ .ends _)
  | undefined => exact .some (h.pc ▸ .ends _)
  | halt => exact .some (hends _)
  | panic => exact .some (hends _)
  | outOfGas => exact .some (hends _)
  | pageFault exitValue => exact .some (hends _)

end Alike

/-! ## The query -/

/-- The run without its calls of number zero. -/
def MachineRun.others (run : MachineRun σ χ) : MachineRun σ χ :=
  { run with calls := run.calls.filter fun call => call.number ≠ 0 }

/-- Call zero takes a fee and writes the rest of the gas to register 7, as the loop does. -/
def AnswersQuery (cost : ℕ) (D : DataPath σ) (mutator : Mutator σ χ) : Prop :=
  ∀ gas data x, cost ≤ gas → gas < 2 ^ 64 → mutator 0 gas data x =
    some (.ok ⟨.resume, (gas - cost : ℕ), D.setReg data ⟨7, (gas - cost : ℕ)⟩, x⟩)

section Query

variable {cost : ℕ} {D : DataPath σ} {gm : GasModel} {p : PVMCode} {mutator : Mutator σ χ}

/-- The machine behind a query that was served for a fee. -/
def served (cost : ℕ) (D : DataPath σ) (s : Loop σ) (argLen : ℕ) : Loop σ :=
  { s with
    pc := (s.pc + argLen + 1) % 2 ^ 32
    gas := s.gas - cost
    skipLen := argLen + 1
    data := D.setReg s.data ⟨7, (s.gas - cost : ℕ)⟩ }

/-- Without the loop's own answer the query stops the machine. -/
lemma execute_query (htable : (Numba.jumpTableArray p).isSome) {pc argLen : ℕ}
    (hzero : Numba.readImmediate p.code (pc + 1) (min 4 argLen) = 0) (data : σ) :
    Pvm.execute Numba.controlStep Numba.advance D p pc argLen .ecalli data =
      .stop (.hostHalt 0) data := by
  obtain ⟨jumpTable, htable⟩ := Option.isSome_iff_exists.mp htable
  have hstep : Numba.controlStep p pc argLen (D.regs data) .ecalli = ⟨.hostHalt 0, none⟩ := by
    rw [Numba.controlStep, htable]
    simp only [hzero]
    rfl
  rw [Pvm.execute]
  · simp only [ControlOp.ofOpcode, hstep]
    rfl
  · intro h
    cases h
  · intro h
    cases h

variable (cost D gm) in
/-- The two rounds have the same effect, or one serves the query for which the other one stops. -/
lemma Alike.step (hvalid : p.valid = true) (htable : (Numba.jumpTableArray p).isSome) {s t : Loop σ}
    (h : Alike s t) :
    StepAlike (Numba.step cost D gm p s) (Numba.step 0 D gm p t) ∨
      ∃ (s' t' : Loop σ) (argLen : ℕ), Alike s' t' ∧ cost ≤ s'.gas ∧
        p.instArgLen t'.pc = some argLen ∧
        Numba.step cost D gm p s = .next cost (served cost D s' argLen) ∧
        Numba.step 0 D gm p t = .exit (.hostHalt 0) { t' with skipLen := argLen + 1 } := by
  rw [Numba.step, Numba.step, ← h.pc]
  cases hfetch : p.fetch s.pc with
  | none => exact .inl (.refuse _ h)
  | some fetched =>
    obtain ⟨opcode, argLen⟩ := fetched
    rcases h.chargeOnEntry gm hvalid with ⟨hs, ht⟩ | ⟨s', t', hs, ht, halike, hpc⟩
    · simp only [hs, ht]
      exact .inl (.refuse _ h)
    · simp only [hs, ht]
      have hnever : Numba.servesGas 0 p t' opcode argLen = false := by simp [Numba.servesGas]
      rw [hnever]
      by_cases hserves : Numba.servesGas cost p s' opcode argLen = true
      · rw [if_pos hserves]
        simp only [Numba.servesGas, decide_eq_true_eq] at hserves
        obtain ⟨rfl, hzero, -, hcost⟩ := hserves
        refine .inr ⟨s', t', argLen, halike, hcost, ?_, rfl, ?_⟩
        · rw [← halike.pc, hpc]
          exact (PVMCode.fetch_eq_some.mp hfetch).1
        · rw [halike.pc] at hzero
          rw [execute_query htable hzero]
          rfl
      · rw [if_neg hserves, halike.pc, halike.data]
        exact .inl (halike.finish opcode argLen _)

lemma others_record (call : HostCallRecord σ) (run : MachineRun σ χ) :
    (run.record call).others = if call.number = 0 then run.others else run.others.record call := by
  by_cases hzero : call.number = 0
  · rw [if_pos hzero, MachineRun.others, MachineRun.record]
    simp only [List.filter_cons, hzero]
    rfl
  · rw [if_neg hzero, MachineRun.others, MachineRun.record]
    simp only [List.filter_cons, decide_eq_true hzero]
    rfl

/-- The same invocation of machines that are alike. -/
lemma Alike.enter {run run' : Loop σ → χ → Option (MachineRun σ χ)}
    (hrun : ∀ s t x, Alike s t → s.gas < 2 ^ 64 →
      (run s x).map MachineRun.others = (run' t x).map MachineRun.others)
    {s t : Loop σ} (h : Alike s t) (pc : ℕ) (gas : ℤ) (x : χ) :
    (Driver.enter run s pc gas x).map MachineRun.others =
      (Driver.enter run' t pc gas x).map MachineRun.others := by
  rw [Driver.enter, Driver.enter]
  cases hgas : validatePvmGas gas with
  | none =>
    dsimp only
    rw [h.pc]
  | some limit =>
    refine hrun _ _ x ⟨rfl, rfl, h.gasPaid, h.skipLen, h.data⟩ ?_
    rw [validatePvmGas] at hgas
    split at hgas
    · cases hgas
      change gas.toNat < 2 ^ 64
      omega
    · cases hgas

/-- The same for what follows an invocation. -/
lemma AfterwardsAlike.rest {run run' : Loop σ → χ → Option (MachineRun σ χ)}
    (hrun : ∀ s t x, Alike s t → s.gas < 2 ^ 64 →
      (run s x).map MachineRun.others = (run' t x).map MachineRun.others)
    {o o' : Option (Afterwards σ χ)} (h : Option.Rel AfterwardsAlike o o') :
    (o.bind (Afterwards.rest (Driver.enter run))).map MachineRun.others =
      (o'.bind (Afterwards.rest (Driver.enter run'))).map MachineRun.others := by
  cases h with
  | none => rfl
  | some hafter =>
    cases hafter with
    | ends run => rfl
    | resumes call halike pc gas x =>
      have henter := halike.enter hrun pc gas x
      simp only [Option.bind_some, Afterwards.rest, Option.map_map, Function.comp_def, others_record]
      split
      · exact henter
      · have hrecorded := congrArg (Option.map (MachineRun.record call)) henter
        simpa only [Option.map_map, Function.comp_def] using hrecorded

lemma validatePvmGas_natCast {gas : ℕ} (h : gas < 2 ^ 64) : validatePvmGas gas = some gas := by
  rw [validatePvmGas]
  split
  · rw [Int.toNat_natCast]
  · omega

/-- The stop for a query, the answer and the next invocation, up to its first round. -/
lemma rest_of_query (hquery : AnswersQuery cost D mutator) {t : Loop σ} {argLen : ℕ}
    (hcost : cost ≤ t.gas) (hgas : t.gas < 2 ^ 64) (hlen : p.instArgLen t.pc = some argLen)
    (run : Loop σ → χ → Option (MachineRun σ χ)) (x : χ) :
    (afterwards p mutator (.hostHalt 0) { t with skipLen := argLen + 1 } x).bind
        (Afterwards.rest (Driver.enter run)) =
      (run { served cost D t argLen with lookupBlock := true } x).map fun run =>
        run.record ⟨0, t.gas, t.data⟩ := by
  have hafter : afterwards p mutator (.hostHalt 0) { t with skipLen := argLen + 1 } x =
      some (.resumes ⟨0, t.gas, t.data⟩
        { t with skipLen := argLen + 1, data := D.setReg t.data ⟨7, (t.gas - cost : ℕ)⟩ }
        ((t.pc + argLen + 1) % 2 ^ 32) (t.gas - cost : ℕ) x) := by
    have hnext : nextInstruction p { t with skipLen := argLen + 1 } =
        some ((t.pc + argLen + 1) % 2 ^ 32) := by
      rw [nextInstruction, hlen, Option.map_some]
    rw [afterwards]
    dsimp only
    rw [hquery t.gas t.data x hcost hgas, hnext, Option.map_some]
  have hvalidated : validatePvmGas (t.gas - cost : ℕ) = some (t.gas - cost) :=
    validatePvmGas_natCast (by omega)
  rw [hafter, Option.bind_some, Afterwards.rest, Driver.enter, hvalidated, served]

/-- The rounds with and without the loop's own answer make the same run. -/
theorem rounds_alike (hvalid : p.valid = true) (htable : (Numba.jumpTableArray p).isSome)
    (hquery : AnswersQuery cost D mutator) (fuel : ℕ) :
    ∀ (s t : Loop σ) (x : χ), Alike s t → s.gas < 2 ^ 64 →
      (Driver.rounds p (Numba.step cost D gm p) mutator fuel s x).map MachineRun.others =
        (Driver.rounds p (Numba.step 0 D gm p) mutator fuel t x).map MachineRun.others := by
  induction fuel with
  | zero =>
    intro s t x _ _
    rfl
  | succ fuel ih =>
    intro s t x halike hgas
    rw [Driver.rounds, Driver.rounds]
    have hcharged := Numba.step_charged cost D gm hvalid s
    rcases halike.step cost D gm hvalid htable with
      hstep | ⟨s', t', argLen, halike', hcost, hlen, hs, ht⟩
    · generalize Numba.step cost D gm p s = round at hstep hcharged
      generalize Numba.step 0 D gm p t = round' at hstep
      cases hstep with
      | refuse exit h => exact AfterwardsAlike.rest ih (h.afterwards exit x)
      | exit exit h => exact AfterwardsAlike.rest ih (h.afterwards exit x)
      | next fee fee' h =>
        cases hcharged with
        | next _ _ hspent _ => exact ih _ _ x h (by omega)
    · simp only [hs, ht]
      rw [hs] at hcharged
      cases hcharged with
      | next _ _ hspent _ =>
        have hserved : (served cost D s' argLen).gas = s'.gas - cost := rfl
        have hgas' := halike'.gas
        rw [rest_of_query hquery (by omega) (by omega) hlen, Option.map_map]
        have hzero : MachineRun.others ∘ MachineRun.record ⟨0, t'.gas, t'.data⟩ =
            (MachineRun.others : MachineRun σ χ → MachineRun σ χ) := by
          funext run
          exact (others_record _ run).trans (if_pos rfl)
        rw [show (fun run : MachineRun σ χ => run.record ⟨0, t'.gas, t'.data⟩) =
          MachineRun.record ⟨0, t'.gas, t'.data⟩ from rfl, hzero]
        refine ih _ _ x ⟨?_, ?_, halike'.gasPaid, rfl, ?_⟩ (by omega)
        · exact congrArg (fun pc => (pc + argLen + 1) % 2 ^ 32) halike'.pc
        · exact congrArg (fun gas => gas - cost) hgas'
        · change D.setReg s'.data ⟨7, (s'.gas - cost : ℕ)⟩ = D.setReg t'.data ⟨7, (t'.gas - cost : ℕ)⟩
          rw [halike'.data, hgas']

/-- The other calls of the runs with and without the loop's own answer. -/
theorem pvmInvokeHostCall_alike (htable : (Numba.jumpTableArray p).isSome)
    (hquery : AnswersQuery cost D mutator) (self : Loop σ) (pc : ℕ) (gas : ℤ) (x : χ)
    (out : MachineRun σ χ) :
    (∃ fuel run, Driver.pvmInvokeHostCall (.numba cost) D gm p mutator fuel self pc gas x = some run ∧
        run.others = out) ↔
      ∃ fuel run, Driver.pvmInvokeHostCall (.numba 0) D gm p mutator fuel self pc gas x = some run ∧
        run.others = out := by
  by_cases hvalid : p.valid = true
  · -- both are made of rounds, and the rounds are in step
    have hrounds : ∀ fee : ℕ, (∃ fuel run, Driver.pvmInvokeHostCall (.numba fee) D gm p mutator fuel
        self pc gas x = some run ∧ run.others = out) ↔
        ∃ fuel, (Driver.enter (Driver.rounds p (Numba.step fee D gm p) mutator fuel) self pc gas x).map
          MachineRun.others = some out := by
      intro fee
      constructor
      · rintro ⟨fuel, run, hrun, hout⟩
        obtain ⟨fuel', henter⟩ := (exists_pvmInvokeHostCall_iff hvalid self pc gas x run).mp ⟨fuel, hrun⟩
        exact ⟨fuel', Option.map_eq_some_iff.mpr ⟨run, henter, hout⟩⟩
      · rintro ⟨fuel, h⟩
        obtain ⟨run, henter, hout⟩ := Option.map_eq_some_iff.mp h
        obtain ⟨fuel', hrun⟩ := (exists_pvmInvokeHostCall_iff hvalid self pc gas x run).mpr ⟨fuel, henter⟩
        exact ⟨fuel', run, hrun, hout⟩
    have hself : Alike self self := ⟨rfl, rfl, rfl, rfl, rfl⟩
    rw [hrounds, hrounds]
    refine exists_congr fun fuel => ?_
    rw [hself.enter (rounds_alike hvalid htable hquery fuel) pc gas x]
  · -- code that is not valid is refused before anything runs
    have hrefused : ∀ fuel, Driver.pvmInvokeHostCall (.numba cost) D gm p mutator fuel self pc gas x =
        Driver.pvmInvokeHostCall (.numba 0) D gm p mutator fuel self pc gas x := by
      intro fuel
      cases fuel with
      | zero => rfl
      | succ fuel =>
        rw [Driver.pvmInvokeHostCall, Driver.pvmInvokeHostCall]
        cases validatePvmGas gas with
        | none => rfl
        | some limit =>
          simp only [Backend.invoke, hvalid]
          rfl
    refine exists_congr fun fuel => ?_
    rw [hrefused]

end Query

/-! ## The mutator of an accumulation -/

section Accumulation

variable {B : Backend} {coreCount : ℕ}

/-- The gas call, when it can be paid for. -/
lemma hcGas_eq_ok {s : CallInput B} (hcost : gasQueryCost ≤ s.gasLimit) (hgas : s.gasLimit < 2 ^ 64) :
    hcGas s = .ok { s.output .resume (s.gasLimit - gasQueryCost : ℕ) with
      registers := Function.update (fun i => (s.registers.get i : ℤ)) 7
        (s.gasLimit - gasQueryCost : ℕ) } := by
  have hleft : (s.gasLimit : ℤ) - gasQueryCost = (s.gasLimit - gasQueryCost : ℕ) := by omega
  rw [hcGas, charged_of_le hcost, hleft, CallInput.answer, Int.toNat_natCast,
    setRegister_of_lt _ _ (by omega)]
  rfl

/-- The number zero is the gas call. -/
lemma accumulateMutator_answersQuery (env : Environment) (codec : Codec) (F : FetchData)
    (decode : Decode) :
    AnswersQuery gasQueryCost (B.access.dataPath decode)
      (accumulateMutator env codec F :
        Mutator (MachineData B.Memory) (AccumulateInvocationContext coreCount)) := by
  intro gas data x hcost hgas
  have hcommon : commonCall codec F 0 (callInput gas data) = some (hcGas (callInput gas data)) := rfl
  have hreg : (fun i => BitVec.ofInt 64 (Function.update (fun i => (data.reg.get i : ℤ)) 7
      ((gas - gasQueryCost : ℕ) : ℤ) i)) = data.reg.set ⟨7, (gas - gasQueryCost : ℕ)⟩ := by
    funext i
    rw [Regs.set]
    by_cases hi : i = 7
    · rw [if_pos hi, hi, Function.update_self]
    · rw [if_neg hi, Function.update_of_ne hi]
      exact ofInt_get data.reg i
  rw [accumulateMutator]
  simp only [hcommon]
  rw [hcGas_eq_ok (s := callInput gas data) hcost hgas]
  -- the answer of the loop, with other registers
  have hmutation := congrArg (fun reg => (⟨.resume, (gas - gasQueryCost : ℕ), ⟨reg, data.mem⟩, x⟩ :
    MutationOutput (MachineData B.Memory) (AccumulateInvocationContext coreCount))) hreg
  exact congrArg (fun m => some (Except.ok m)) hmutation

/-- An accumulation run by Numba, which takes `native_gas_cost` for the query.  Building the
interpreter raises when the jump table does not fit its array.  The mutator and the memory are those of
Numba for any `native_gas_cost`. -/
def nativeRun (nativeGasCost : ℕ) (env : Environment) (codec : Codec) (F : FetchData)
    (decode : Decode) (gm : GasModel) (p : PVMCode) (fuel : ℕ)
    (self : Loop (MachineData (Backend.Memory (.numba 0)))) (instructionCounter : ℕ) (gas : ℤ)
    (x : AccumulateInvocationContext coreCount) :
    Option (MachineRun (MachineData (Backend.Memory (.numba 0)))
      (AccumulateInvocationContext coreCount)) :=
  match Numba.jumpTableArray p with
  | none => some ⟨[], self.pc, .error .raised⟩
  | some _ =>
    Driver.pvmInvokeHostCall (.numba nativeGasCost) ((Backend.access (.numba 0)).dataPath decode) gm p
      (accumulateMutator env codec F) fuel self instructionCounter gas x

/-- The runs with the fee taken in compiled code and those with every query answered by the mutator are
the same but for the queries. -/
theorem nativeRun_agrees (env : Environment) (codec : Codec) (F : FetchData) (decode : Decode)
    (gm : GasModel) (p : PVMCode) (self : Loop (MachineData (Backend.Memory (.numba 0)))) (pc : ℕ)
    (gas : ℤ) (x : AccumulateInvocationContext coreCount)
    (out : MachineRun (MachineData (Backend.Memory (.numba 0)))
      (AccumulateInvocationContext coreCount)) :
    (∃ fuel run, nativeRun gasQueryCost env codec F decode gm p fuel self pc gas x = some run ∧
        run.others = out) ↔
      ∃ fuel run, nativeRun 0 env codec F decode gm p fuel self pc gas x = some run ∧
        run.others = out := by
  unfold nativeRun
  cases htable : Numba.jumpTableArray p with
  | none => exact Iff.rfl
  | some jumpTable =>
    exact pvmInvokeHostCall_alike (Option.isSome_iff_exists.mpr ⟨jumpTable, htable⟩)
      (accumulateMutator_answersQuery env codec F decode) self pc gas x out

end Accumulation

end HostCalls
