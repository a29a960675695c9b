import Pyjamaz.HostCalls.Conservation

/-!
# Checkpoints and rollback

An invocation works on one context and keeps a savepoint, a copy of the context that `checkpoint`
takes.  When the program panics or runs out of gas, the invocation returns the context as it was right
after the last checkpoint that completed, or the context it started with; when the program halts, the
context after its last host call.

`Trace` is the pure reading of a run: the host calls in their order, each with the exit it left and the
context after it.  What the invocation returns is then a function of the trace (`lastCheckpoint`,
`lastContext`).  A run can also end with an exception, of a host call or of the machine, and then the
invocation does not return.
-/

namespace HostCalls

open Accumulation Services Octets

variable {coreCount : ℕ}

/-! ## What a host call leaves alone -/

/-- Whatever the call returns, it has not given gas back and has left the savepoint alone. -/
def Tame (gas : ℤ) (savepoint : AccumulateContextItem coreCount)
    (r : Except HostError (CallResult coreCount)) : Prop :=
  ∀ out x, r = .ok (out, x) → out.gasLimit ≤ gas ∧ x.savepointContext = savepoint

namespace Tame

variable {gas : ℤ} {savepoint : AccumulateContextItem coreCount}

lemma ok {out : InvocationMutationOutput} {x : AccumulateInvocationContext coreCount}
    (hgas : out.gasLimit ≤ gas) (hsavepoint : x.savepointContext = savepoint) :
    Tame gas savepoint (.ok (out, x)) := by
  intro out' x' h
  cases h
  exact ⟨hgas, hsavepoint⟩

lemma error {e : HostError} : Tame gas savepoint (.error e) := by
  intro out x h
  cases h

lemma bind {α : Type} {r : Except HostError α} {f : α → Except HostError (CallResult coreCount)}
    (h : ∀ a, Tame gas savepoint (f a)) : Tame gas savepoint (r >>= f) := by
  intro out x hok
  obtain ⟨a, -, hok⟩ := Except.bind_eq_ok.mp hok
  exact h a out x hok

lemma hostcall {cost : ℕ} {out : InvocationMutationOutput}
    {x : AccumulateInvocationContext coreCount}
    {body : InvocationMutationOutput → Except HostError (CallResult coreCount)}
    (h : ∀ out₁, out₁.gasLimit ≤ out.gasLimit →
      Tame out.gasLimit x.savepointContext (body out₁)) :
    Tame out.gasLimit x.savepointContext (hostcall cost out x body) := by
  unfold HostCalls.hostcall
  dsimp only
  split
  · exact .ok (by dsimp only; omega) rfl
  · exact h _ (by dsimp only; omega)

end Tame

section Calls

variable {env : Environment} {call : HostCall} {gas : ℤ} {registers : Registers} {memory : Memory}
  {x x' : AccumulateInvocationContext coreCount} {out out' : InvocationMutationOutput}

lemma hcTransfer_tame :
    Tame out.gasLimit x.savepointContext (hcTransfer registers memory x out) := by
  unfold hcTransfer
  refine .bind fun account => .bind fun destination => ?_
  dsimp only
  have hgas : out.gasLimit - 575 - transferForwarded account (memory.readBytes (registers.get 10) 128)
      destination (registers.get 9) (account.balance - registers.get 8) ≤ out.gasLimit := by omega
  split
  · exact .ok hgas rfl
  · split
    · exact .ok hgas rfl
    · exact .ok hgas rfl
    · split
      · exact .ok hgas rfl
      · split
        · exact .ok hgas rfl
        · exact .bind fun services => .ok hgas rfl

/-- A call other than `checkpoint` leaves the savepoint alone, and none gives gas back. -/
lemma execute_tame (hcall : call ≠ .checkpoint) :
    Tame gas x.savepointContext (execute env call gas registers memory x) := by
  unfold execute
  dsimp only
  cases call with
  | checkpoint => exact absurd rfl hcall
  | transfer => exact hcTransfer_tame
  | _ =>
    refine .hostcall fun out₁ hgas => ?_
    dsimp only
    -- every branch keeps the gas that is left after the charge
    repeat' first
      | split
      | with_reducible refine .bind fun _ => ?_
    all_goals first
      | exact .error
      | exact .ok hgas rfl

/-- A checkpoint that completes copies the context to the savepoint; one that does not, has no
effect. -/
lemma hcCheckpoint_eq_ok (h : hcCheckpoint x out = .ok (out', x')) :
    out'.gasLimit ≤ out.gasLimit ∧
      ((out'.exitCondition = .resume ∧ x' = { x with savepointContext := x.context }) ∨
        (out'.exitCondition = .outOfGas ∧ x' = x)) := by
  unfold hcCheckpoint hostcall at h
  dsimp only at h
  split at h
  · cases h
    exact ⟨by dsimp only; omega, .inr ⟨rfl, rfl⟩⟩
  · cases h
    exact ⟨by dsimp only [InvocationMutationOutput.resumeWith]; omega, .inl ⟨rfl, rfl⟩⟩

end Calls

/-! ## Traces -/

/-- A host call that has returned: the exit it left, and the context after it. -/
structure Event (coreCount : ℕ) where
  call : HostCall
  exit : ExitReason
  context : AccumulateContextItem coreCount

/-- A checkpoint that completed. -/
def Event.isCheckpoint (e : Event coreCount) : Bool := e.call = .checkpoint && e.exit = .resume

/-- The context after the last host call of a trace. -/
def lastContext (start : AccumulateContextItem coreCount) (events : List (Event coreCount)) :
    AccumulateContextItem coreCount :=
  (events.reverse.head?.map Event.context).getD start

/-- The context right after the last completed checkpoint of a trace. -/
def lastCheckpoint (start : AccumulateContextItem coreCount) (events : List (Event coreCount)) :
    AccumulateContextItem coreCount :=
  ((events.reverse.find? Event.isCheckpoint).map Event.context).getD start

/-- The host calls between two contexts. -/
inductive Trace (env : Environment) : AccumulateInvocationContext coreCount →
    List (Event coreCount) → AccumulateInvocationContext coreCount → Prop
  | none (x : AccumulateInvocationContext coreCount) : Trace env x [] x
  | call {x x' x'' : AccumulateInvocationContext coreCount} {events : List (Event coreCount)}
      {call : HostCall} {gas : ℤ} {registers : Registers} {memory : Memory}
      {out : InvocationMutationOutput} (htrace : Trace env x events x')
      (hcall : execute env call gas registers memory x' = .ok (out, x'')) :
      Trace env x (events ++ [⟨call, out.exitCondition, x''.context⟩]) x''

section Traces

variable {env : Environment} {x x' : AccumulateInvocationContext coreCount}
  {events : List (Event coreCount)}

lemma Trace.context_eq (h : Trace env x events x') : x'.context = lastContext x.context events := by
  cases h with
  | none => rfl
  | call _ _ =>
    rw [lastContext, List.reverse_concat]
    rfl

/-- The savepoint is the context right after the last completed checkpoint. -/
lemma Trace.savepoint_eq (h : Trace env x events x') :
    x'.savepointContext = lastCheckpoint x.savepointContext events := by
  induction h with
  | none => rfl
  | @call x' x'' events call gas registers memory out htrace hcall ih =>
    rw [lastCheckpoint, List.reverse_concat]
    by_cases hcheckpoint : call = .checkpoint
    · subst hcheckpoint
      obtain ⟨-, ⟨hexit, rfl⟩ | ⟨hexit, rfl⟩⟩ := hcCheckpoint_eq_ok hcall
      · rw [List.find?_cons_of_pos (by simp [Event.isCheckpoint, hexit])]
        rfl
      · rw [List.find?_cons_of_neg (by simp [Event.isCheckpoint, hexit])]
        exact ih
    · rw [List.find?_cons_of_neg (by simp [Event.isCheckpoint, hcheckpoint])]
      exact ((execute_tame hcheckpoint) _ _ hcall).2.trans ih

lemma Trace.calls (h : Trace env x events x') : Calls env x x' := by
  induction h with
  | none => exact .none _
  | call _ hcall ih => exact .call ih hcall

/-- Every context of a trace is sound and has the same tokens. -/
lemma Trace.keeps (h : Trace env x events x') (hs : Sound x.context) :
    ∀ e ∈ events, e.context.tokens = x.context.tokens := by
  induction h with
  | none =>
    intro e he
    exact absurd he List.not_mem_nil
  | call htrace hcall ih =>
    intro e he
    rcases List.mem_append.mp he with he | he
    · exact ih e he
    · obtain rfl := List.mem_singleton.mp he
      exact ((Calls.call htrace.calls hcall).keeps hs).2

lemma lastCheckpoint_cases (start : AccumulateContextItem coreCount)
    (events : List (Event coreCount)) :
    lastCheckpoint start events = start ∨ ∃ e ∈ events, lastCheckpoint start events = e.context := by
  unfold lastCheckpoint
  cases h : events.reverse.find? Event.isCheckpoint with
  | none => exact .inl rfl
  | some e => exact .inr ⟨e, List.mem_reverse.mp (List.mem_of_find?_eq_some h), rfl⟩

/-- The savepoint has the tokens that the context started with. -/
lemma Trace.tokens_lastCheckpoint (h : Trace env x events x') (hs : Sound x.context) :
    (lastCheckpoint x.context events).tokens = x.context.tokens := by
  rcases lastCheckpoint_cases x.context events with heq | ⟨e, he, heq⟩
  · rw [heq]
  · rw [heq]
    exact h.keeps hs e he

end Traces

/-! ## The host calls of a run -/

/-- What a host call adds to a trace; one that leaves the context alone adds nothing. -/
def eventsOf (n : ℕ) (exit : ExitReason) (x : AccumulateInvocationContext coreCount) :
    List (Event coreCount) :=
  match hostCallOf n with
  | some call => [⟨call, exit, x.context⟩]
  | none => []

/-- How the machine stops with a host call that does not resume. -/
def ExitReason.toMachineExit : ExitReason → MachineExit
  | .outOfGas => .outOfGas
  | _ => .panic

/-- How a run of the program ends: with an exit of the machine, the gas that is left and the contexts,
or with an exception. -/
abbrev HostEnd (coreCount : ℕ) :=
  Except HostError (MachineExit × ℤ × AccumulateInvocationContext coreCount)

/-- A run of the program to its end, with the host calls it makes. -/
inductive HostRun {σ : Type} (env : Environment) (M : Interpreter coreCount σ) :
    σ → ℤ → AccumulateInvocationContext coreCount → List (Event coreCount) → HostEnd coreCount → Prop
  | stop {m m' : σ} {gas gas' : ℤ} {x : AccumulateInvocationContext coreCount} {exit : MachineExit}
      (hinvoke : M.invoke m gas = (exit, gas', m')) (hexit : ∀ n, exit ≠ .hostHalt n)
      (hraised : exit ≠ .raised) : HostRun env M m gas x [] (.ok (exit, gas', x))
  | crash {m m' : σ} {gas gas' : ℤ} {x : AccumulateInvocationContext coreCount}
      (hinvoke : M.invoke m gas = (.raised, gas', m')) : HostRun env M m gas x [] (.error .interpreter)
  | raise {m m₁ : σ} {gas gas₁ : ℤ} {x : AccumulateInvocationContext coreCount} {n : ℕ}
      {e : HostError} (hinvoke : M.invoke m gas = (.hostHalt n, gas₁, m₁))
      (hcall : dispatch env M n m₁ gas₁ x = .error e) : HostRun env M m gas x [] (.error e)
  | fail {m m₁ m₂ : σ} {gas gas₁ gas₂ : ℤ} {x x₂ : AccumulateInvocationContext coreCount} {n : ℕ}
      {reason : ExitReason} (hinvoke : M.invoke m gas = (.hostHalt n, gas₁, m₁))
      (hcall : dispatch env M n m₁ gas₁ x = .ok (reason, gas₂, m₂, x₂)) (hreason : reason ≠ .resume) :
      HostRun env M m gas x (eventsOf n reason x₂) (.ok (reason.toMachineExit, gas₂, x₂))
  | resume {m m₁ m₂ : σ} {gas gas₁ gas₂ : ℤ} {x x₂ : AccumulateInvocationContext coreCount}
      {n : ℕ} {events : List (Event coreCount)} {fin : HostEnd coreCount}
      (hinvoke : M.invoke m gas = (.hostHalt n, gas₁, m₁))
      (hcall : dispatch env M n m₁ gas₁ x = .ok (.resume, gas₂, m₂, x₂))
      (hrest : HostRun env M m₂ gas₂ x₂ events fin) :
      HostRun env M m gas x (eventsOf n .resume x₂ ++ events) fin

section Run

variable {σ : Type} {env : Environment} {M : Interpreter coreCount σ}

lemma execute_gas {call : HostCall} {gas : ℤ} {registers : Registers} {memory : Memory}
    {x x' : AccumulateInvocationContext coreCount} {out : InvocationMutationOutput}
    (h : execute env call gas registers memory x = .ok (out, x')) : out.gasLimit ≤ gas := by
  by_cases hcheckpoint : call = .checkpoint
  · subst hcheckpoint
    exact (hcCheckpoint_eq_ok h).1
  · exact (execute_tame hcheckpoint _ _ h).1

/-- A host call adds its event to the trace, and gives no gas back. -/
lemma dispatch_eq_ok {n : ℕ} {m m' : σ} {gas gas' : ℤ}
    {x₀ x x' : AccumulateInvocationContext coreCount} {exit : ExitReason}
    {events : List (Event coreCount)} (htrace : Trace env x₀ events x)
    (h : dispatch env M n m gas x = .ok (exit, gas', m', x')) :
    Trace env x₀ (events ++ eventsOf n exit x') x' ∧ max gas' 0 ≤ max gas 0 := by
  unfold dispatch at h
  split at h
  · next call hcallOf =>
    obtain ⟨⟨out, x''⟩, hcall, h⟩ := Except.bind_eq_ok.mp h
    cases h
    rw [eventsOf, hcallOf]
    exact ⟨.call htrace hcall, max_le_max (execute_gas hcall) le_rfl⟩
  · next hcallOf =>
    obtain ⟨⟨exit', gas'', m''⟩, hgeneral, h⟩ := Except.bind_eq_ok.mp h
    cases h
    rw [eventsOf, hcallOf, List.append_nil]
    exact ⟨htrace, M.general_gas hgeneral⟩

/-- A run follows its trace, and gives no gas back. -/
lemma HostRun.trace {m : σ} {gas : ℤ} {x : AccumulateInvocationContext coreCount}
    {events : List (Event coreCount)} {fin : HostEnd coreCount}
    (h : HostRun env M m gas x events fin) :
    ∀ {exit gas' x'}, fin = .ok (exit, gas', x') →
      (∀ {x₀ before}, Trace env x₀ before x → Trace env x₀ (before ++ events) x') ∧
        max gas' 0 ≤ max gas 0 := by
  induction h with
  | @stop m m' gas gas' x exit hinvoke _ _ =>
    rintro _ _ _ ⟨⟩
    have hgas := M.invoke_gas m gas
    rw [hinvoke] at hgas
    refine ⟨?_, hgas⟩
    intro x₀ before htrace
    rwa [List.append_nil]
  | crash _ =>
    rintro _ _ _ ⟨⟩
  | raise _ _ =>
    rintro _ _ _ ⟨⟩
  | @fail m m₁ m₂ gas gas₁ gas₂ x x₂ n reason hinvoke hcall _ =>
    rintro _ _ _ ⟨⟩
    have hgas := M.invoke_gas m gas
    rw [hinvoke] at hgas
    refine ⟨?_, (dispatch_eq_ok (.none x) hcall).2.trans hgas⟩
    intro x₀ before htrace
    exact (dispatch_eq_ok htrace hcall).1
  | @resume m m₁ m₂ gas gas₁ gas₂ x x₂ n events fin hinvoke hcall _ ih =>
    intro exit gas' x' hfin
    have hgas := M.invoke_gas m gas
    rw [hinvoke] at hgas
    obtain ⟨htrace, hrest⟩ := ih hfin
    refine ⟨?_, hrest.trans ((dispatch_eq_ok (.none x) hcall).2.trans hgas)⟩
    intro x₀ before hbefore
    rw [← List.append_assoc]
    exact htrace (dispatch_eq_ok hbefore hcall).1

/-- With enough fuel, the loop of the host calls ends as the run does. -/
lemma HostRun.returns {m : σ} {gas : ℤ} {x : AccumulateInvocationContext coreCount}
    {events : List (Event coreCount)} {fin : HostEnd coreCount}
    (h : HostRun env M m gas x events fin) :
    ∃ bound, ∀ fuel > bound, pvmInvokeHostCall env M fuel m gas x = some fin := by
  induction h with
  | @stop m m' gas gas' x exit hinvoke hexit hraised =>
    refine ⟨0, fun fuel hfuel => ?_⟩
    obtain ⟨fuel, rfl⟩ := Nat.exists_eq_succ_of_ne_zero hfuel.ne'
    rw [pvmInvokeHostCall, hinvoke]
    cases exit with
    | hostHalt n => exact absurd rfl (hexit n)
    | raised => exact absurd rfl hraised
    | _ => rfl
  | crash hinvoke =>
    refine ⟨0, fun fuel hfuel => ?_⟩
    obtain ⟨fuel, rfl⟩ := Nat.exists_eq_succ_of_ne_zero hfuel.ne'
    rw [pvmInvokeHostCall, hinvoke]
  | raise hinvoke hcall =>
    refine ⟨0, fun fuel hfuel => ?_⟩
    obtain ⟨fuel, rfl⟩ := Nat.exists_eq_succ_of_ne_zero hfuel.ne'
    rw [pvmInvokeHostCall, hinvoke]
    dsimp only
    rw [hcall]
  | @fail m m₁ m₂ gas gas₁ gas₂ x x₂ n reason hinvoke hcall hreason =>
    refine ⟨0, fun fuel hfuel => ?_⟩
    obtain ⟨fuel, rfl⟩ := Nat.exists_eq_succ_of_ne_zero hfuel.ne'
    rw [pvmInvokeHostCall, hinvoke]
    dsimp only
    rw [hcall]
    cases reason with
    | resume => exact absurd rfl hreason
    | panic => rfl
    | outOfGas => rfl
  | @resume m m₁ m₂ gas gas₁ gas₂ x x₂ n events fin hinvoke hcall _ ih =>
    obtain ⟨bound, ih⟩ := ih
    refine ⟨bound + 1, fun fuel hfuel => ?_⟩
    obtain ⟨fuel, rfl⟩ := Nat.exists_eq_succ_of_ne_zero (by omega : fuel ≠ 0)
    rw [pvmInvokeHostCall, hinvoke]
    dsimp only
    rw [hcall]
    exact ih fuel (by omega)

/-! ## What an invocation returns -/

/-- What a context held, with an output and the gas used. -/
structure Returns (output : PvmAccumulateOutput coreCount) (c : AccumulateContextItem coreCount)
    (accumulationOutput : Option Octets) : Prop where
  stateContext : output.stateContext = c.stateContext
  deferredTransfers : output.deferredTransfers = c.deferredTransfers
  accumulationOutput : output.accumulationOutput = accumulationOutput
  preimages : output.preimages = c.preimages

lemma returns_toOutput (c : AccumulateContextItem coreCount) (accumulationOutput : Option Octets)
    (gasUsed : ℤ) : Returns (c.toOutput accumulationOutput gasUsed) c accumulationOutput :=
  ⟨rfl, rfl, rfl, rfl⟩

/-- The output of an invocation after a run.  If the program halts, it has the context after the last
host call, with the output of the halt if this has 32 bytes and with the yielded output otherwise; if
the program stops in another way, the context right after the last completed checkpoint.  In both cases
the gas used is between zero and the limit, and the tokens are those that the run started with. -/
structure RunOutput (start : AccumulateContextItem coreCount) (events : List (Event coreCount))
    (fin : HostEnd coreCount) (gasLimit : ℕ) (tokens : ℤ) (output : PvmAccumulateOutput coreCount) :
    Prop where
  halted : ∀ value gas x, fin = .ok (.halt value, gas, x) → Returns output (lastContext start events)
    (if value.length = 32 then some value else (lastContext start events).invocationOutput)
  stopped : ∀ exit gas x, fin = .ok (exit, gas, x) → (∀ value, exit ≠ .halt value) →
    Returns output (lastCheckpoint start events) (lastCheckpoint start events).invocationOutput
  gasUsed_nonneg : 0 ≤ output.gasUsed
  gasUsed_le : output.gasUsed ≤ gasLimit
  tokens : totalBalance output.stateContext.services +
    ((output.deferredTransfers.map DeferredTransfer.amount).sum : ℕ) = tokens

/-- What is returned when the machine has stopped. -/
lemma collapse_runOutput {x₀ x : AccumulateInvocationContext coreCount}
    {events : List (Event coreCount)} {exit : MachineExit} {gas : ℤ} {gasLimit : ℕ}
    (hsound : Sound x₀.context) (hstart : x₀.savepointContext = x₀.context)
    (htrace : Trace env x₀ events x) (hgas : max gas 0 ≤ gasLimit) :
    RunOutput x₀.context events (.ok (exit, gas, x)) gasLimit x₀.context.tokens
      (collapse exit x (gasLimit - max gas 0)) := by
  have hcontext := htrace.context_eq
  have hsavepoint := htrace.savepoint_eq
  rw [hstart] at hsavepoint
  have hlive : x.context.tokens = x₀.context.tokens := (htrace.calls.keeps hsound).2
  have hsaved : x.savepointContext.tokens = x₀.context.tokens := by
    rw [hsavepoint]
    exact htrace.tokens_lastCheckpoint hsound
  have hnonneg : 0 ≤ (gasLimit : ℤ) - max gas 0 := by omega
  have hle : (gasLimit : ℤ) - max gas 0 ≤ gasLimit := by
    have hmax := le_max_right gas 0
    omega
  -- a halt returns the context of the program, and every other exit the savepoint
  by_cases hhalt : ∃ value, exit = .halt value
  · obtain ⟨value, rfl⟩ := hhalt
    refine ⟨?_, ?_, hnonneg, hle, hlive⟩
    · rintro _ _ _ ⟨⟩
      rw [← hcontext]
      exact returns_toOutput _ _ _
    · rintro _ _ _ ⟨⟩ hother
      exact absurd rfl (hother value)
  · have hcollapse : collapse exit x (gasLimit - max gas 0) =
        x.savepointContext.toOutput x.savepointContext.invocationOutput
          (gasLimit - max gas 0) := by
      cases exit with
      | halt value => exact absurd ⟨value, rfl⟩ hhalt
      | _ => rfl
    rw [hcollapse]
    refine ⟨?_, ?_, hnonneg, hle, hsaved⟩
    · rintro value _ _ ⟨⟩
      exact absurd ⟨value, rfl⟩ hhalt
    · rintro _ _ _ ⟨⟩ -
      rw [← hsavepoint]
      exact returns_toOutput _ _ _

/-- An invocation whose program runs to an end.  Its context starts with the state in which the
incoming transfers are credited, and with nothing sent, yielded or provided.  It returns as
`RunOutput` says, with the tokens of the state and of the incoming transfers, exactly if no host call
of the run raises and the machine does not; otherwise the exception leaves it. -/
theorem invocation_returns {state : AccumulationStateComponents coreCount}
    {service checkPayload timeslot gasLimit : ℕ} {inputs : List AccumulationInput}
    {services : ServicesState} {code : Octets} {x₀ : AccumulateInvocationContext coreCount} {m : σ}
    {events : List (Event coreCount)} {fin : HostEnd coreCount}
    (hnonneg : PendingNonneg state.services)
    (hcredit : creditAndLookup state.services service inputs = .ok (services, some code))
    (hsize : code.length ≤ 4000000)
    (hcreate : createFromAccumulationState env { state with services := services } service
      checkPayload timeslot = .ok x₀)
    (hload : M.load code timeslot service inputs.length = some m)
    (hrun : HostRun env M m gasLimit x₀ events fin) :
    (∃ newService, x₀.context =
      initialContext { state with services := services } service newService) ∧
    ((∃ output, (∃ bound, ∀ fuel > bound, pvmInvokeAccumulate env M checkPayload timeslot fuel state
          service gasLimit inputs = some (.ok output)) ∧
        RunOutput x₀.context events fin gasLimit
          (totalBalance state.services + (incomingAmounts inputs).sum) output) ↔
      ∀ e, fin ≠ .error e) ∧
    ∀ e, fin = .error e → ∃ bound, ∀ fuel > bound, pvmInvokeAccumulate env M checkPayload timeslot
      fuel state service gasLimit inputs = some (.error e) := by
  obtain ⟨hsound, htokens⟩ := sound_start (fun _ _ => hnonneg.retrieve) hcredit hcreate
  obtain ⟨newService, -, rfl⟩ := createFromAccumulationState_eq_ok hcreate
  have hreturn : ∃ bound, ∀ fuel > bound, pvmInvokeAccumulate env M checkPayload timeslot fuel state
      service gasLimit inputs =
        some (fin.map fun stopped =>
          collapse stopped.1 stopped.2.2 (gasLimit - max stopped.2.1 0)) := by
    obtain ⟨bound, hloop⟩ := hrun.returns
    refine ⟨bound, fun fuel hfuel => ?_⟩
    unfold pvmInvokeAccumulate
    rw [hcredit]
    dsimp only
    rw [if_neg (not_lt.mpr hsize), hcreate]
    dsimp only
    rw [hload]
    dsimp only
    rw [hloop fuel hfuel]
    rfl
  have hraised : ∀ e, fin = .error e → ∃ bound, ∀ fuel > bound, pvmInvokeAccumulate env M checkPayload
      timeslot fuel state service gasLimit inputs = some (.error e) := by
    rintro e rfl
    exact hreturn
  refine ⟨⟨newService, rfl⟩, ⟨?_, fun hfin => ?_⟩, hraised⟩
  · rintro ⟨output, ⟨bound, hok⟩, -⟩ e hfin
    obtain ⟨bound', herror⟩ := hraised e hfin
    have hfuel := (hok (max bound bound' + 1) (by omega)).symm.trans
      (herror (max bound bound' + 1) (by omega))
    cases hfuel
  · cases fin with
    | error e => exact absurd rfl (hfin e)
    | ok stopped =>
      obtain ⟨exit, gas, x⟩ := stopped
      obtain ⟨htrace, hgas⟩ := hrun.trace rfl
      have htrace := htrace (.none _)
      rw [max_eq_left (Int.natCast_nonneg gasLimit)] at hgas
      exact ⟨_, hreturn, htokens ▸ collapse_runOutput hsound rfl htrace hgas⟩

end Run

/-- A program that sends three tokens, takes a checkpoint, sends again and panics. -/
def sampleProgram : Interpreter 0 ℕ where
  load _ _ _ _ := some 0
  invoke m gas :=
    match m with
    | 0 => (.hostHalt 21, gas - 1, m)
    | 1 => (.hostHalt 18, gas - 1, m)
    | 2 => (.hostHalt 21, gas - 1, m)
    | _ => (.panic, gas - 1, m)
  registers _ := sampleRegisters
  memory _ := sampleMemory
  resume m _ := m + 1
  general _ _ _ _ := .error .memory
  invoke_gas := by
    intro m gas
    split
    · exact max_le_max (by dsimp only; omega) le_rfl
    · exact max_le_max (by dsimp only; omega) le_rfl
    · exact max_le_max (by dsimp only; omega) le_rfl
    · exact max_le_max (by dsimp only; omega) le_rfl
  general_gas := @raised_gas

/-- The first transfer is kept and the second one rolled back. -/
theorem sampleProgram_rolls_back :
    ∃ output, (∃ bound, ∀ fuel > bound, pvmInvokeAccumulate sampleEnvironment sampleProgram 0 1 fuel
        sampleState 5 10000 sampleInputs = some (.ok output)) ∧
      output.deferredTransfers.length = 1 := by
  have hrun : ∃ events gas x, HostRun sampleEnvironment sampleProgram 0 (10000 : ℕ)
      sampleInvocation events (.ok (.panic, gas, x)) ∧
      (lastCheckpoint sampleInvocation.context events).deferredTransfers.length = 1 := by
    refine ⟨_, _, _, .resume rfl rfl (.resume rfl rfl (.resume rfl rfl (.stop rfl ?_ ?_))), rfl⟩
    · intro n h
      cases h
    · intro h
      cases h
  obtain ⟨events, gas, x, hrun, hlength⟩ := hrun
  have hcredit : creditAndLookup sampleState.services 5 sampleInputs =
      .ok (sampleCredited, some [1]) := rfl
  have hcreate : createFromAccumulationState sampleEnvironment
      { sampleState with services := sampleCredited } 5 0 1 = .ok sampleInvocation := rfl
  obtain ⟨-, hreturns, -⟩ := invocation_returns sampleState_nonneg hcredit (by decide) hcreate rfl hrun
  obtain ⟨output, hreturn, houtput⟩ := hreturns.mpr (fun e h => by cases h)
  refine ⟨output, hreturn, ?_⟩
  rw [(houtput.stopped _ _ _ rfl (fun value h => by cases h)).deferredTransfers]
  exact hlength

/-- A program that provides a preimage of no bytes from behind the address space. -/
def sampleProvider : Interpreter 0 ℕ where
  load _ _ _ _ := some 0
  invoke m gas := (.hostHalt 27, gas - 1, m)
  registers _ := #v[0, 0, 0, 0, 0, 0, 0, 2 ^ 64 - 1, 2 ^ 32, 0, 0, 0, 0]
  memory _ := sampleMemory
  resume m _ := m + 1
  general _ _ _ _ := .error .memory
  invoke_gas := by
    intro m gas
    exact max_le_max (by dsimp only; omega) le_rfl
  general_gas := @raised_gas

/-- No byte at all is accessible, but cannot be read there. -/
lemma sampleProvider_raises :
    dispatch sampleEnvironment sampleProvider 27 0 9999 sampleInvocation = .error .memory := by
  have haddress : (sampleProvider.registers 0).get 8 = 2 ^ 32 := rfl
  have hlength : (sampleProvider.registers 0).get 9 = 0 := rfl
  have hread : readProvided sampleMemory (2 ^ 32) 0 = .error .memory := rfl
  have hcall : execute sampleEnvironment .provide 9999 (sampleProvider.registers 0) sampleMemory
      sampleInvocation = .error .memory := by
    rw [execute, hcProvide, hostcall]
    simp only [haddress, hlength, hread]
    rfl
  simp only [dispatch, hostCallOf]
  exact congrArg (· >>= _) hcall

/-- The preimage raises, and the invocation does not return. -/
theorem sampleProvider_not_returned :
    creditAndLookup sampleState.services 5 sampleInputs = .ok (sampleCredited, some [1]) ∧
      createFromAccumulationState sampleEnvironment { sampleState with services := sampleCredited } 5
        0 1 = .ok sampleInvocation ∧
      HostRun sampleEnvironment sampleProvider 0 (10000 : ℕ) sampleInvocation [] (.error .memory) ∧
      ∀ fuel output, pvmInvokeAccumulate sampleEnvironment sampleProvider 0 1 fuel sampleState 5 10000
        sampleInputs ≠ some (.ok output) := by
  have hcredit : creditAndLookup sampleState.services 5 sampleInputs =
      .ok (sampleCredited, some [1]) := rfl
  have hcreate : createFromAccumulationState sampleEnvironment
      { sampleState with services := sampleCredited } 5 0 1 = .ok sampleInvocation := rfl
  have hload : sampleProvider.load [1] 1 5 sampleInputs.length = some 0 := rfl
  have hinvoke : sampleProvider.invoke 0 (10000 : ℕ) = (.hostHalt 27, 9999, 0) := rfl
  refine ⟨hcredit, hcreate, .raise hinvoke sampleProvider_raises, fun fuel output => ?_⟩
  rw [pvmInvokeAccumulate, hcredit]
  simp only [hcreate, hload]
  cases fuel with
  | zero => simp [pvmInvokeHostCall]
  | succ fuel =>
    have hloop : pvmInvokeHostCall sampleEnvironment sampleProvider (fuel + 1) 0 (10000 : ℕ)
        sampleInvocation = some (.error .memory) := by
      rw [pvmInvokeHostCall, hinvoke]
      dsimp only
      rw [sampleProvider_raises]
    rw [hloop]
    simp [Except.map]

end HostCalls
