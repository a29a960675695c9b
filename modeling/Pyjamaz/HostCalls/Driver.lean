import Pyjamaz.HostCalls.Refine

/-!
# Runs with host calls

`pvm_invoke_host_call` invokes a machine, lets a mutator answer each host call and goes on behind the
call for as long as the answer is `resume`.  The mutator gets the registers, the memory and the
context, and is a parameter here.  `pvm_invoke_marshalling` reports the gas that a run has used.

The invocation and the loop around it are both over fuel: a run that goes on for ever has no result for
any.
-/

namespace HostCalls

open Pvm

variable {σ χ : Type}

/-! ## The loop of the host calls -/

/-- What a mutator answers: `InvocationMutationOutput`, with registers and memory in one, and the
context. -/
structure MutationOutput (σ χ : Type) where
  exitCondition : ExitReason
  gasLimit : ℤ
  data : σ
  context : χ

/-- `InvocationMutator.execute` for a number, the gas left, registers and memory, and a context; `none`
when a machine that the call runs needs more fuel. -/
abbrev Mutator (σ χ : Type) := ℤ → ℕ → σ → χ → Option (Except RefineError (MutationOutput σ χ))

/-- A host call that was made: its number, the gas left, registers and memory. -/
structure HostCallRecord (σ : Type) where
  number : ℤ
  gas : ℕ
  data : σ

/-- `PvMHostCallOutput` -/
structure HostCallOutput (σ χ : Type) where
  exit : Exit
  instructionCounter : ℕ
  gasLimit : ℤ
  data : σ
  context : χ

/-- A run: the host calls that were made, where the machine stands, and the output if nothing was
raised. -/
structure MachineRun (σ χ : Type) where
  calls : List (HostCallRecord σ)
  pc : ℕ
  result : Except RefineError (HostCallOutput σ χ)

/-- The run with a call in front. -/
def MachineRun.record (call : HostCallRecord σ) (run : MachineRun σ χ) : MachineRun σ χ :=
  { run with calls := call :: run.calls }

/-- `validate_pvm_gas`; gas outside 64 bits raises. -/
def validatePvmGas (gas : ℤ) : Option ℕ := if 0 ≤ gas ∧ gas < 2 ^ 64 then some gas.toNat else none

/-- What comes after an invocation: the run ends, or it goes on behind a host call. -/
inductive Afterwards (σ χ : Type) where
  | ends (run : MachineRun σ χ)
  | resumes (call : HostCallRecord σ) (self : Loop σ) (instructionCounter : ℕ) (gas : ℤ) (x : χ)

/-- The body of the loop after `invoke`, for the exit condition and the machine. -/
def afterwards (p : PVMCode) (mutator : Mutator σ χ) (exit : Exit) (self : Loop σ) (x : χ) :
    Option (Afterwards σ χ) :=
  match exit with
  | .hostHalt n =>
    (mutator n self.gas self.data x).map fun
      | .error e => .ends ⟨[⟨n, self.gas, self.data⟩], self.pc, .error e⟩
      | .ok m =>
        match m.exitCondition, nextInstruction p self with
        | .resume, some pc =>
          .resumes ⟨n, self.gas, self.data⟩ { self with data := m.data } pc m.gasLimit m.context
        | .resume, none => .ends ⟨[⟨n, self.gas, self.data⟩], self.pc, .error .raised⟩
        | .panic, _ =>
          .ends ⟨[⟨n, self.gas, self.data⟩], self.pc, .ok ⟨.panic, 0, m.gasLimit, m.data, m.context⟩⟩
        | .outOfGas, _ =>
          .ends ⟨[⟨n, self.gas, self.data⟩], self.pc,
            .ok ⟨.outOfGas, self.pc, m.gasLimit, m.data, m.context⟩⟩
  | .raised => some (.ends ⟨[], self.pc, .error .raised⟩)
  | .undefined => some (.ends ⟨[], self.pc, .error .undefined⟩)
  | exit =>
    some (.ends ⟨[], self.pc,
      .ok ⟨exit, if exit.restarts then 0 else self.pc, self.gas, self.data, x⟩⟩)

section Driver

variable (B : Backend) (D : DataPath σ) (gm : GasModel) (p : PVMCode) (mutator : Mutator σ χ)

/-- `pvm_invoke_host_call`; `none` when the fuel does not suffice. -/
def Driver.pvmInvokeHostCall : ℕ → Loop σ → ℕ → ℤ → χ → Option (MachineRun σ χ)
  | 0, _, _, _, _ => none
  | fuel + 1, self, instructionCounter, gas, x =>
    match validatePvmGas gas with
    | none => some ⟨[], self.pc, .error .raised⟩
    | some gas =>
      (B.invoke D gm p (fuel + 1) self instructionCounter gas).bind fun r =>
        (afterwards p mutator r.exit r.self x).bind fun
          | .ends run => some run
          | .resumes call self instructionCounter gas x =>
            (pvmInvokeHostCall fuel self instructionCounter gas x).map fun run => run.record call

/-- `PvmMarshallingOutput`; the reason is halt, panic or lack of gas. -/
structure Driver.MarshallingOutput (χ : Type) where
  gasUsed : ℤ
  exit : Exit
  context : χ

/-- The last lines of `pvm_invoke_marshalling`. -/
def HostCallOutput.marshalled (gasLimit : ℤ) (out : HostCallOutput σ χ) : Driver.MarshallingOutput χ where
  gasUsed := gasLimit - max out.gasLimit 0
  exit := if out.exit = .halt ∨ out.exit = .outOfGas then out.exit else .panic
  context := out.context

/-- `pvm_invoke_marshalling` for a program that was loaded, or that could not be. -/
def Driver.pvmInvokeMarshalling (fuel : ℕ) (pvm : Option (Loop σ)) (startOffset : ℕ) (gasLimit : ℤ) (x : χ) :
    Option (Except RefineError (Driver.MarshallingOutput χ)) :=
  match pvm with
  | none => some (.ok ⟨0, .panic, x⟩)
  | some pvm => (Driver.pvmInvokeHostCall B D gm p mutator fuel pvm startOffset gasLimit x).map fun run =>
      run.result.map fun out => out.marshalled gasLimit

end Driver

end HostCalls
