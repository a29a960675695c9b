import Pyjamaz.HostCalls.Effects

/-!
# The invocation of a service

`pvm_invoke_accumulate`: the incoming transfers are credited, the code of the service is loaded, and
the machine runs it, leaving for a host call whenever the program makes one.  What is returned at the
end depends on how the program stopped: the context it worked on, or the savepoint.  An exception of a
host call or of the machine is caught nowhere.

The machine is a parameter, `Interpreter`: what loading a program gives, and where a run from a state
with some gas stops.  So are the host calls that do not touch the context, which only read it and write
registers and memory.  Of both only one thing is used, that they do not give gas back.  The loop of
the host calls is over fuel.
-/

namespace HostCalls

open Accumulation Services Octets

variable {coreCount : ℕ}

/-! ## The machine -/

/-- How a run of the machine stops; an exception can leave it as well. -/
inductive MachineExit where
  | halt (value : Octets)
  | panic
  | outOfGas
  | pageFault
  | hostHalt (hostCall : ℕ)
  | raised
  deriving DecidableEq, Repr

/-- The machine, and the host calls that leave the context alone. -/
structure Interpreter (coreCount : ℕ) (σ : Type) where
  /-- The machine for a code blob, with the timeslot, the service and the number of inputs as its
  argument; `none` when the blob is not a program. -/
  load : Octets → ℕ → ℕ → ℕ → Option σ
  invoke : σ → ℤ → MachineExit × ℤ × σ
  registers : σ → Registers
  memory : σ → Memory
  /-- The registers of a host call are taken over, and `next_instruction`. -/
  resume : σ → Registers → σ
  general : ℕ → σ → ℤ → AccumulateContextItem coreCount → Except HostError (ExitReason × ℤ × σ)
  invoke_gas : ∀ m gas, max (invoke m gas).2.1 0 ≤ max gas 0
  general_gas : ∀ {n m gas c exit gas' m'}, general n m gas c = .ok (exit, gas', m') →
    max gas' 0 ≤ max gas 0

/-- A host call that raises uses no gas. -/
lemma raised_gas {_n _m : ℕ} {gas : ℤ} {_c : AccumulateContextItem 0} {exit : ExitReason} {gas' : ℤ}
    {m' : ℕ} (h : (.error .memory : Except HostError (ExitReason × ℤ × ℕ)) = .ok (exit, gas', m')) :
    max gas' 0 ≤ max gas 0 := by
  cases h

/-- The numbers of the host calls that can change the context. -/
def hostCallOf : ℕ → Option HostCall
  | 5 => some .write
  | 15 => some .bless
  | 16 => some .assign
  | 17 => some .designate
  | 18 => some .checkpoint
  | 19 => some .new
  | 20 => some .upgrade
  | 21 => some .transfer
  | 22 => some .eject
  | 23 => some .query
  | 24 => some .solicit
  | 25 => some .forget
  | 26 => some .yield
  | 27 => some .provide
  | _ => none

/-! ## The start of an invocation -/

/-- The amounts that come in. -/
def incomingAmounts (inputs : List AccumulationInput) : List ℕ :=
  inputs.filterMap fun
    | .deferredTransfer t => some t.amount
    | .accumulationOperand _ => none

/-- The incoming transfers are credited to the account. -/
def creditAccount (services : ServicesState) (service : ℕ) (account : ServiceAccount)
    (inputs : List AccumulationInput) : Except ServiceError ServicesState :=
  if (incomingAmounts inputs).length > 0 then
    services.storeServiceAccount service
      { account with balance := account.balance + (incomingAmounts inputs).sum } false
  else .ok services

/-- The services after the credit, and the code of the service if there is one. -/
def creditAndLookup (services : ServicesState) (service : ℕ) (inputs : List AccumulationInput) :
    Except HostError (ServicesState × Option Octets) := do
  match ← orNone (services.retrieveServiceAccount service) with
  | none => return (services, none)
  | some account =>
    let services ← liftHost (creditAccount services service account inputs)
    let code ← orNone (services.retrievePreimage service account.codeHash)
    return (services, code)

/-- A context at the start: nothing is sent, yielded or provided. -/
def initialContext (state : AccumulationStateComponents coreCount) (service newService : ℕ) :
    AccumulateContextItem coreCount :=
  ⟨service, state, newService, [], none, []⟩

/-- `create_from_accumulation_state`; `checkPayload` is the number that the hash of the service, the
entropy and the timeslot gives. -/
def createFromAccumulationState (env : Environment) (state : AccumulationStateComponents coreCount)
    (service checkPayload timeslot : ℕ) :
    Except HostError (AccumulateInvocationContext coreCount) := do
  let newService ←
    checkServiceId state.services env.recursionDepth (checkPayload % publicIds + 2 ^ 16)
  let context := initialContext state service newService
  return ⟨context, context, timeslot⟩

/-- An invocation starts with its context as the savepoint. -/
lemma createFromAccumulationState_eq_ok {env : Environment}
    {state : AccumulationStateComponents coreCount} {service checkPayload timeslot : ℕ}
    {x : AccumulateInvocationContext coreCount}
    (h : createFromAccumulationState env state service checkPayload timeslot = .ok x) :
    ∃ newService, checkServiceId state.services env.recursionDepth
        (checkPayload % publicIds + 2 ^ 16) = .ok newService ∧
      x = ⟨initialContext state service newService, initialContext state service newService,
        timeslot⟩ := by
  unfold createFromAccumulationState at h
  obtain ⟨newService, hnew, h⟩ := Except.bind_eq_ok.mp h
  cases h
  exact ⟨newService, hnew, rfl⟩

/-! ## The host calls of a run -/

section Run

variable {σ : Type} (env : Environment) (M : Interpreter coreCount σ)

/-- `AccumulateInvocationMutator.execute` for any number. -/
def dispatch (n : ℕ) (m : σ) (gas : ℤ) (x : AccumulateInvocationContext coreCount) :
    Except HostError (ExitReason × ℤ × σ × AccumulateInvocationContext coreCount) :=
  match hostCallOf n with
  | some call => do
    let (out, x) ← execute env call gas (M.registers m) (M.memory m) x
    return (out.exitCondition, out.gasLimit, M.resume m out.registers, x)
  | none => do
    let (exit, gas, m) ← M.general n m gas x.context
    return (exit, gas, m, x)

/-- `pvm_invoke_host_call`; `none` when the fuel does not suffice. -/
def pvmInvokeHostCall : ℕ → σ → ℤ → AccumulateInvocationContext coreCount →
    Option (Except HostError (MachineExit × ℤ × AccumulateInvocationContext coreCount))
  | 0, _, _, _ => none
  | fuel + 1, m, gas, x =>
    match M.invoke m gas with
    | (.hostHalt n, gas, m) =>
      match dispatch env M n m gas x with
      | .error e => some (.error e)
      | .ok (.resume, gas, m, x) => pvmInvokeHostCall fuel m gas x
      | .ok (.panic, gas, _, x) => some (.ok (.panic, gas, x))
      | .ok (.outOfGas, gas, _, x) => some (.ok (.outOfGas, gas, x))
    | (.raised, _, _) => some (.error .interpreter)
    | (exit, gas, _) => some (.ok (exit, gas, x))

end Run

/-- A sequence of host calls, with any registers and any memory. -/
inductive Calls (env : Environment) :
    AccumulateInvocationContext coreCount → AccumulateInvocationContext coreCount → Prop
  | none (x : AccumulateInvocationContext coreCount) : Calls env x x
  | call {x x' x'' : AccumulateInvocationContext coreCount} {call : HostCall} {gas : ℤ}
      {registers : Registers} {memory : Memory} {out : InvocationMutationOutput}
      (hcalls : Calls env x x') (hcall : execute env call gas registers memory x' = .ok (out, x'')) :
      Calls env x x''

/-- What every effect preserves is preserved by host calls in any order, for the context and for the
savepoint. -/
lemma Calls.preserves {env : Environment} {x x' : AccumulateInvocationContext coreCount}
    {Q : AccumulateContextItem coreCount → Prop}
    (heffect : ∀ c c', Effect env x.timeslot c c' → Q c → Q c') (h : Calls env x x')
    (hcontext : Q x.context) (hsaved : Q x.savepointContext) :
    x'.timeslot = x.timeslot ∧ Q x'.context ∧ Q x'.savepointContext := by
  induction h with
  | none => exact ⟨rfl, hcontext, hsaved⟩
  | call _ hcall ih =>
    obtain ⟨htimeslot, hcontext', hsaved'⟩ := ih
    have hstep := execute_step hcall
    have heffect' := hstep.effect
    rw [htimeslot] at heffect'
    refine ⟨hstep.timeslot.trans htimeslot, heffect _ _ heffect' hcontext', ?_⟩
    rcases hstep.savepoint with hkept | htaken
    · rw [hkept]
      exact hsaved'
    · rw [htaken]
      exact hcontext'

section End

variable {σ : Type} (env : Environment) (M : Interpreter coreCount σ)

/-! ## The end of an invocation -/

/-- The output with what a context holds. -/
def AccumulateContextItem.toOutput (c : AccumulateContextItem coreCount) (output : Option Octets)
    (gasUsed : ℤ) : PvmAccumulateOutput coreCount :=
  ⟨c.stateContext, c.deferredTransfers, output, gasUsed, c.preimages⟩

/-- What is returned when the machine has stopped; an exit other than a halt or a lack of gas counts
as a panic. -/
def collapse (exit : MachineExit) (x : AccumulateInvocationContext coreCount) (gasUsed : ℤ) :
    PvmAccumulateOutput coreCount :=
  match exit with
  | .halt value =>
    x.context.toOutput (if value.length = 32 then some value else x.context.invocationOutput)
      gasUsed
  | _ => x.savepointContext.toOutput x.savepointContext.invocationOutput gasUsed

/-- `pvm_invoke_accumulate` -/
def pvmInvokeAccumulate (checkPayload timeslot fuel : ℕ)
    (state : AccumulationStateComponents coreCount) (service gasLimit : ℕ)
    (inputs : List AccumulationInput) :
    Option (Except HostError (PvmAccumulateOutput coreCount)) :=
  match creditAndLookup state.services service inputs with
  | .error e => some (.error e)
  | .ok (services, code) =>
    let state := { state with services := services }
    match code with
    | none => some (.ok ⟨state, [], none, 0, []⟩)
    | some code =>
      if code.length > 4000000 then some (.ok ⟨state, [], none, 0, []⟩)
      else match createFromAccumulationState env state service checkPayload timeslot with
        | .error e => some (.error e)
        | .ok x =>
          match M.load code timeslot service inputs.length with
          | none => some (.ok (collapse .panic x 0))
          | some m => (pvmInvokeHostCall env M fuel m gasLimit x).map (Except.map
              (fun (exit, gas, x) => collapse exit x (gasLimit - max gas 0)))

end End

end HostCalls
