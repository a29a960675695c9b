import Pyjamaz.HostCalls.Mutators
import Pyjamaz.HostCalls.Rollback

/-!
# The gas of host calls

A host call takes gas and never gives any back, and a call that cannot pay does nothing.  Calls charge
in three ways: through the decorator, `transfer` for the gas that it forwards, and `grow_heap` for the
pages; `invoke` returns what the inner machine leaves of the gas reserved for it.

One answer breaks the second rule: register 7 of a call that does not exist is written even when the
gas does not suffice.  `disciplined_iff` says that nothing else does.
-/

namespace HostCalls

open Pvm Services Octets Accumulation

variable {B : Backend} {coreCount : ℕ}

/-! ## What is to hold of an answer -/

/-- A call takes gas, a call that resumes leaves a budget for the next invocation, and a call that
could not pay changes nothing. -/
structure Disciplined {σ χ : Type} (gas : ℕ) (data : σ) (x : χ) (m : MutationOutput σ χ) : Prop where
  spent : m.gasLimit ≤ gas
  resume : m.exitCondition = .resume → 0 ≤ m.gasLimit
  outOfGas : m.exitCondition = .outOfGas → m.data = data ∧ m.context = x

/-- The same of the output of a call, with a context. -/
structure Settles {χ : Type} (s : CallInput B) (x : χ) (out : CallOutput B) (x' : χ) : Prop where
  spent : out.gasLimit ≤ s.gasLimit
  resume : out.exitCondition = .resume → 0 ≤ out.gasLimit
  outOfGas : out.exitCondition = .outOfGas →
    (∀ i, out.registers i = s.registers.get i) ∧ out.memory = s.memory ∧ x' = x

lemma Settles.disciplined {χ : Type} {gas : ℕ} {data : MachineData B.Memory} {x x' : χ}
    {out : CallOutput B} (h : Settles (callInput gas data) x out x') :
    Disciplined gas data x (out.mutation x') where
  spent := h.spent
  resume := h.resume
  outOfGas := by
    intro hexit
    obtain ⟨hregisters, hmemory, hx⟩ := h.outOfGas hexit
    refine ⟨?_, hx⟩
    have hreg : (fun i => BitVec.ofInt 64 (out.registers i)) = data.reg := by
      funext i
      rw [hregisters]
      exact ofInt_get data.reg i
    change (⟨_, out.memory⟩ : MachineData B.Memory) = data
    rw [hreg, hmemory]
    rfl

/-! ## Bodies

What comes after the charge keeps the rest of the gas and ends in `resume` or `panic`. -/

/-- The body of a call, given the rest of the gas. -/
def Keeps (gasLimit : ℤ) (result : Except RefineError (CallOutput B)) : Prop :=
  ∀ out, result = .ok out → out.gasLimit = gasLimit ∧ out.exitCondition ≠ .outOfGas

lemma Keeps.bind {α : Type} {gasLimit : ℤ} {r : Except RefineError α}
    {f : α → Except RefineError (CallOutput B)} (h : ∀ a, Keeps gasLimit (f a)) :
    Keeps gasLimit (r >>= f) := by
  intro out hout
  obtain ⟨a, -, hf⟩ := Except.bind_eq_ok.mp hout
  exact h a out hf

lemma keeps_panic (s : CallInput B) (gasLimit : ℤ) :
    Keeps gasLimit (.ok (s.output .panic gasLimit)) := by
  intro out hout
  cases hout
  exact ⟨rfl, fun hexit => by cases hexit⟩

lemma keeps_answer (s : CallInput B) (gasLimit : ℤ) (value : ℕ) :
    Keeps gasLimit (s.answer gasLimit value) := by
  intro out hout
  obtain ⟨hexit, hgas, -, -⟩ := answer_eq_ok hout
  refine ⟨hgas, ?_⟩
  rw [hexit]
  decide

lemma keeps_deliver (s : CallInput B) (gasLimit : ℤ) (unreadable : Bool) (data : Option Octets)
    (o offset length : ℕ) : Keeps gasLimit (s.deliver gasLimit unreadable data o offset length) := by
  rw [CallInput.deliver]
  dsimp only
  split
  · exact keeps_panic s gasLimit
  · cases data with
    | none => exact keeps_answer s gasLimit _
    | some bytes =>
      intro out hout
      obtain ⟨out', hanswer, hwrite⟩ := Except.bind_eq_ok.mp hout
      obtain ⟨memory, -, hmemory⟩ := Except.bind_eq_ok.mp hwrite
      cases hmemory
      exact keeps_answer s gasLimit _ out' hanswer

/-- The decorator: a call that cannot pay changes nothing. -/
lemma settles_charged {χ : Type} {s : CallInput B} {x : χ} {cost : ℕ}
    {body : ℤ → Except RefineError (CallOutput B)} (hbody : ∀ gasLimit, Keeps gasLimit (body gasLimit))
    {out : CallOutput B} (h : s.charged cost body = .ok out) : Settles s x out x := by
  by_cases hgas : cost ≤ s.gasLimit
  · rw [charged_of_le hgas] at h
    obtain ⟨hkept, hexit⟩ := hbody _ out h
    refine ⟨by rw [hkept]; omega, fun _ => by rw [hkept]; omega, fun hout => absurd hout hexit⟩
  · rw [charged_of_lt (not_le.mp hgas)] at h
    cases h
    refine ⟨?_, ?_, fun _ => ⟨fun _ => rfl, rfl, rfl⟩⟩
    swap
    · intro hresume
      cases hresume
    change (s.gasLimit : ℤ) - cost ≤ s.gasLimit
    omega

/-! ## The calls without a context -/

lemma hcGas_settles {χ : Type} {s : CallInput B} {x : χ} {out : CallOutput B}
    (h : hcGas s = .ok out) : Settles s x out x :=
  settles_charged (fun gasLimit => keeps_answer s gasLimit _) h

lemma hcLog_settles {χ : Type} {s : CallInput B} {x : χ} {out : CallOutput B}
    (h : hcLog s = .ok out) : Settles s x out x :=
  settles_charged (fun gasLimit => keeps_answer s gasLimit _) h

lemma hcFetch_settles {χ : Type} {codec : Codec} {F : FetchData} {s : CallInput B} {x : χ}
    {out : CallOutput B} (h : hcFetch codec F s = .ok out) : Settles s x out x := by
  refine settles_charged (fun gasLimit => ?_) h
  exact .bind fun data => keeps_deliver s gasLimit _ data _ _ _

lemma hcLookup_settles {χ : Type} {service : ServiceAccount} {serviceId : ℕ}
    {services : ServicesState} {s : CallInput B} {x : χ} {out : CallOutput B}
    (h : hcLookup service serviceId services s = .ok out) : Settles s x out x := by
  refine settles_charged (fun gasLimit => ?_) h
  refine .bind fun target => ?_
  dsimp only
  split
  · exact .bind fun data => keeps_deliver s gasLimit _ data _ _ _
  · exact .bind fun _ => .bind fun data => keeps_deliver s gasLimit _ data _ _ _

lemma hcRead_settles {χ : Type} {service : ServiceAccount} {serviceId : ℕ}
    {services : ServicesState} {s : CallInput B} {x : χ} {out : CallOutput B}
    (h : hcRead service serviceId services s = .ok out) : Settles s x out x := by
  refine settles_charged (fun gasLimit => ?_) h
  exact .bind fun _ => .bind fun (unreadable, data) => keeps_deliver s gasLimit unreadable data _ _ _

lemma hcInfo_settles {χ : Type} {codec : Codec} {serviceId : ℕ} {services : ServicesState} {s : CallInput B} {x : χ}
    {out : CallOutput B} (h : hcInfo codec serviceId services s = .ok out) : Settles s x out x := by
  refine settles_charged (fun gasLimit => ?_) h
  exact .bind fun _ => .bind fun data => keeps_deliver s gasLimit _ data _ _ _

lemma hcHistoricalLookup_settles {χ : Type} {P : Primitives} {services : ServicesState}
    {serviceId timeslot : ℕ} {s : CallInput B} {x : χ} {out : CallOutput B}
    (h : hcHistoricalLookup P services serviceId timeslot s = .ok out) : Settles s x out x := by
  refine settles_charged (fun gasLimit => ?_) h
  refine .bind fun target => ?_
  dsimp only
  split
  · exact .bind fun (unreadable, data) => keeps_deliver s gasLimit unreadable data _ _ _
  · split
    · exact .bind fun (unreadable, data) => keeps_deliver s gasLimit unreadable data _ _ _
    · exact .bind fun (unreadable, data) => keeps_deliver s gasLimit unreadable data _ _ _

/-! ## The heap -/

/-- A call of `grow_heap` on registers and a layout. -/
lemma hcGrowHeap_settled {registers : Registers} {layout layout' : Layout} {gas : ℕ}
    {out : InvocationMutationOutput}
    (h : hcGrowHeap .default registers layout ⟨.panic, gas, registers⟩ = some (out, layout')) :
    out.gasLimit ≤ gas ∧ ((out.exitCondition = .resume ∧ 0 ≤ out.gasLimit) ∨
      (out.exitCondition = .outOfGas ∧ out.registers = registers ∧ layout' = layout)) := by
  obtain ⟨heapBase, -, h⟩ := Option.bind_eq_some_iff.mp h
  obtain ⟨stackBase, -, h⟩ := Option.bind_eq_some_iff.mp h
  simp only [GrowHeapSettings.default, growHeapLimit, currentHeapEnd, if_true] at h
  generalize (stackBase / pvmInitZoneSize * pvmInitZoneSize - pvmInitZoneSize) / pvmPageSize = b at h
  generalize heapBase / pvmPageSize = a at h
  generalize a + (layout.pagesW.filter (fun page => a ≤ page ∧ page < b)).card = used at h
  by_cases hquery : registers.get 7 ≤ used ∨ b < registers.get 7
  · simp only [if_pos hquery] at h
    split at h
    · cases h
      exact ⟨by dsimp only; omega, .inr ⟨rfl, rfl, rfl⟩⟩
    · cases h
      exact ⟨by dsimp only; omega, .inl ⟨rfl, by dsimp only; omega⟩⟩
  · simp only [if_neg hquery] at h
    rw [not_or] at hquery
    split at h
    · cases h
      exact ⟨by dsimp only; omega, .inr ⟨rfl, rfl, rfl⟩⟩
    · cases h
      exact ⟨by dsimp only; omega, .inl ⟨rfl, by dsimp only; omega⟩⟩

lemma setLayout_self (m : B.Memory) : setLayout B m (B.access.layout m) = m := by
  cases B <;> rfl

lemma get_toRegisters (registers : Regs) (i : Fin 13) :
    (toRegisters registers).get i = registers.get i :=
  Vector.getElem_ofFn i.isLt

lemma growHeap_settles {χ : Type} {s : CallInput B} {x : χ} {out : CallOutput B}
    (h : growHeap s = .ok out) : Settles s x out x := by
  rw [growHeap] at h
  dsimp only at h
  cases hcall : hcGrowHeap .default (toRegisters s.registers) (B.access.layout s.memory)
      ⟨.panic, s.gasLimit, toRegisters s.registers⟩ with
  | none =>
    rw [hcall] at h
    cases h
  | some result =>
    obtain ⟨out', layout⟩ := result
    rw [hcall] at h
    cases h
    obtain ⟨hspent, hexit⟩ := hcGrowHeap_settled hcall
    refine ⟨hspent, fun hresume => ?_, fun hout => ?_⟩
    · rcases hexit with ⟨-, hgas⟩ | ⟨hoog, -, -⟩
      · exact hgas
      · cases hresume.symm.trans hoog
    · rcases hexit with ⟨hresume, -⟩ | ⟨-, hregisters, rfl⟩
      · cases hout.symm.trans hresume
      · refine ⟨fun i => ?_, setLayout_self s.memory, rfl⟩
        change (out'.registers.get i : ℤ) = s.registers.get i
        rw [hregisters, get_toRegisters]

/-! ## Calls of a refinement -/

/-- The body of a call with a context. -/
def KeepsIn (gasLimit : ℤ) (result : RefineResult B) : Prop :=
  ∀ out x, result = .ok (out, x) → out.gasLimit = gasLimit ∧ out.exitCondition ≠ .outOfGas

lemma KeepsIn.bind {α : Type} {gasLimit : ℤ} {r : Except RefineError α} {f : α → RefineResult B}
    (h : ∀ a, KeepsIn gasLimit (f a)) : KeepsIn gasLimit (r >>= f) := by
  intro out x hout
  obtain ⟨a, -, hf⟩ := Except.bind_eq_ok.mp hout
  exact h a out x hf

lemma keepsIn_panicIn (s : CallInput B) (gasLimit : ℤ) (x : RefineContext B) :
    KeepsIn gasLimit (s.panicIn gasLimit x) := by
  intro out x' hout
  cases hout
  exact keeps_panic s gasLimit _ rfl

lemma keepsIn_answerIn (s : CallInput B) (gasLimit : ℤ) (value : ℕ) (x : RefineContext B) :
    KeepsIn gasLimit (s.answerIn gasLimit value x) := by
  intro out x' hout
  obtain ⟨out', hanswer, heq⟩ := Except.bind_eq_ok.mp hout
  cases heq
  exact keeps_answer s gasLimit value _ hanswer

lemma settles_chargedIn {s : CallInput B} {x x' : RefineContext B} {cost : ℕ}
    {body : ℤ → RefineResult B} (hbody : ∀ gasLimit, KeepsIn gasLimit (body gasLimit))
    {out : CallOutput B} (h : s.chargedIn x cost body = .ok (out, x')) : Settles s x out x' := by
  rw [CallInput.chargedIn] at h
  split at h
  · cases h
    refine ⟨?_, ?_, fun _ => ⟨fun _ => rfl, rfl, rfl⟩⟩
    · change (s.gasLimit : ℤ) - cost ≤ s.gasLimit
      omega
    · intro hresume
      cases hresume
  · next hgas =>
    obtain ⟨hkept, hexit⟩ := hbody _ out x' h
    refine ⟨by rw [hkept]; omega, fun _ => by rw [hkept]; omega, fun hout => absurd hout hexit⟩

section Refine

variable {s : CallInput B} {x x' : RefineContext B} {out : CallOutput B}

lemma hcExport_settles {offset : ℕ} (h : hcExport offset s x = .ok (out, x')) :
    Settles s x out x' := by
  refine settles_chargedIn (fun gasLimit => ?_) h
  dsimp only
  split
  · exact keepsIn_panicIn s gasLimit x
  · refine .bind fun dataSegment => ?_
    split
    · exact keepsIn_answerIn s gasLimit _ x
    · exact keepsIn_answerIn s gasLimit _ _

lemma hcMachine_settles {deblob : Octets → Option PVMCode} (h : hcMachine deblob s x = .ok (out, x')) :
    Settles s x out x' := by
  refine settles_chargedIn (fun gasLimit => .bind fun programBlob => ?_) h
  rw [startMachine]
  split
  · exact keepsIn_answerIn s gasLimit _ x
  · split
    · exact keepsIn_panicIn s gasLimit x
    · exact keepsIn_answerIn s gasLimit _ x
    · split
      · exact keepsIn_answerIn s gasLimit _ x
      · exact keepsIn_answerIn s gasLimit _ _

lemma hcPeek_settles (h : hcPeek s x = .ok (out, x')) : Settles s x out x' := by
  refine settles_chargedIn (fun gasLimit => ?_) h
  dsimp only
  split
  · exact keepsIn_panicIn s gasLimit x
  · split
    · exact keepsIn_answerIn s gasLimit _ x
    · split
      · exact keepsIn_answerIn s gasLimit _ x
      · refine .bind fun data => .bind fun memory => ?_
        intro out x' hout
        obtain ⟨out', hanswer, heq⟩ := Except.bind_eq_ok.mp hout
        cases heq
        exact keeps_answer s gasLimit _ out' hanswer

lemma hcPoke_settles (h : hcPoke s x = .ok (out, x')) : Settles s x out x' := by
  refine settles_chargedIn (fun gasLimit => ?_) h
  dsimp only
  split
  · exact keepsIn_panicIn s gasLimit x
  · split
    · exact keepsIn_answerIn s gasLimit _ x
    · split
      · exact keepsIn_answerIn s gasLimit _ x
      · exact .bind fun data => .bind fun memory => keepsIn_answerIn s gasLimit _ _

lemma hcPages_settles (h : hcPages s x = .ok (out, x')) : Settles s x out x' := by
  refine settles_chargedIn (fun gasLimit => ?_) h
  dsimp only
  split
  · exact keepsIn_answerIn s gasLimit _ x
  · split
    · exact keepsIn_answerIn s gasLimit _ x
    · exact keepsIn_answerIn s gasLimit _ _

lemma hcExpunge_settles (h : hcExpunge s x = .ok (out, x')) : Settles s x out x' := by
  refine settles_chargedIn (fun gasLimit => ?_) h
  dsimp only
  split
  · exact keepsIn_answerIn s gasLimit _ x
  · exact keepsIn_answerIn s gasLimit _ _

/-- The gas that an inner machine leaves is not more than what was reserved for it. -/
lemma invokeInner_le {decode : PVMCode → Decode} {gm : PVMCode → GasModel} {fuel cost : ℕ}
    {s : RefineInput B} {inner : InnerMachine B} {frame : Octets}
    {r : Invocation (MachineData B.Memory)} (hcost : invokeCost s = .ok cost)
    (hwritable : (B.access.layout s.memory).isWritable (s.registers.get 8) frameSize = true)
    (hframe : B.access.readBytes s.memory (s.registers.get 8) frameSize = .ok frame)
    (hrun : invokeInner decode gm fuel inner frame = some r) : r.self.gas ≤ cost := by
  rw [invokeCost] at hcost
  simp only [hwritable, if_true] at hcost
  obtain ⟨bytes, hbytes, heq⟩ := Except.bind_eq_ok.mp hcost
  cases heq
  have hgas := invokeInner_gas hrun
  rw [Backend.readBytes_eq_ok (by decide) hframe, Paged.take_read _ _ (by decide),
    ← Backend.readBytes_eq_ok (by decide) hbytes] at hgas
  omega

/-- The call cannot pay, or it gives back what an inner machine left. -/
lemma hcInvoke_cases {decode : PVMCode → Decode} {gm : PVMCode → GasModel} {fuel : ℕ}
    {s : RefineInput B} {out : RefineOutput B} (h : hcInvoke decode gm fuel s = some (.ok out)) :
    ∃ cost : ℕ, (s.gasLimit < cost ∧ out = s.output .outOfGas (s.gasLimit - cost)) ∨
      (cost ≤ s.gasLimit ∧ out.exitCondition ≠ .outOfGas ∧
        ∃ left : ℕ, left ≤ cost ∧ out.gasLimit = s.gasLimit - cost + left) := by
  rw [hcInvoke] at h
  split at h
  · cases h
  next cost hcost =>
  refine ⟨cost, ?_⟩
  simp only at h
  split at h
  · next hgas =>
    cases h
    exact .inl ⟨by omega, rfl⟩
  next hgas =>
  refine .inr ⟨by omega, ?_⟩
  -- an answer that gives nothing back
  have hplain : ∀ {out' : RefineOutput B}, out'.exitCondition ≠ .outOfGas →
      out'.gasLimit = s.gasLimit - cost → out'.exitCondition ≠ .outOfGas ∧
        ∃ left : ℕ, left ≤ cost ∧ out'.gasLimit = s.gasLimit - cost + left :=
    fun hexit hlimit => ⟨hexit, 0, Nat.zero_le _, by rw [hlimit]; exact (add_zero _).symm⟩
  split at h
  · cases h
    exact hplain (fun hexit => by cases hexit) rfl
  next hwritable =>
  split at h
  · obtain ⟨registers, -, heq⟩ := Except.bind_eq_ok.mp (Option.some.inj h)
    cases heq
    exact hplain (fun hexit => by cases hexit) rfl
  split at h
  · cases h
  next frame hframe =>
  split at h
  · cases h
  obtain ⟨r, hrun, hfinish⟩ := Option.map_eq_some_iff.mp h
  have hle := invokeInner_le hcost (by simpa using hwritable) hframe hrun
  obtain ⟨hexit, hlimit⟩ := finishInvoke_eq_ok hfinish
  exact ⟨by rw [hexit]; decide, r.self.gas, hle, hlimit⟩

lemma invokeIn_settles {decode : PVMCode → Decode} {gm : PVMCode → GasModel} {fuel : ℕ}
    (h : invokeIn decode gm fuel s x = some (.ok (out, x'))) : Settles s x out x' := by
  obtain ⟨result, hcall, hmap⟩ := Option.map_eq_some_iff.mp h
  cases result with
  | error e => cases hmap
  | ok out =>
    cases hmap
    obtain ⟨cost, ⟨hgas, rfl⟩ | ⟨hgas, hexit, left, hleft, hlimit⟩⟩ := hcInvoke_cases hcall
    · refine ⟨?_, ?_, fun _ => ⟨fun _ => rfl, rfl, rfl⟩⟩
      · change (s.gasLimit : ℤ) - cost ≤ s.gasLimit
        omega
      · intro hresume
        cases hresume
    · simp only at hgas hlimit
      refine ⟨?_, fun _ => ?_, fun hout => absurd hout hexit⟩
      · change out.gasLimit ≤ s.gasLimit
        omega
      · change 0 ≤ out.gasLimit
        omega

end Refine

/-! ## Calls of an accumulation -/

/-- The output of a call that changes the context: what is left of the gas, and nothing else when the
gas did not suffice. -/
def Charges (out : InvocationMutationOutput) (x : AccumulateInvocationContext coreCount)
    (r : Except HostError (CallResult coreCount)) : Prop :=
  ∀ out' x', r = .ok (out', x') → out'.gasLimit ≤ out.gasLimit ∧
    (out'.exitCondition = .resume → 0 ≤ out'.gasLimit) ∧
    (out'.exitCondition = .outOfGas → out'.registers = out.registers ∧ x' = x)

section Accumulate

variable {env : Environment} {call : HostCall} {registers : Registers} {memory : Memory}
  {x x' : AccumulateInvocationContext coreCount} {out out' : InvocationMutationOutput}

lemma Charges.error {e : HostError} : Charges out x (.error e) := by
  intro out' x' h
  cases h

lemma Charges.bind {α : Type} {r : Except HostError α}
    {f : α → Except HostError (CallResult coreCount)} (h : ∀ a, Charges out x (f a)) :
    Charges out x (r >>= f) := by
  intro out' x' hok
  obtain ⟨a, -, hok⟩ := Except.bind_eq_ok.mp hok
  exact h a out' x' hok

/-- An answer that is paid for. -/
lemma Charges.paid (hgas : out'.gasLimit ≤ out.gasLimit) (hpaid : 0 ≤ out'.gasLimit)
    (hexit : out'.exitCondition ≠ .outOfGas) : Charges out x (.ok (out', x')) := by
  intro out₁ x₁ h
  cases h
  exact ⟨hgas, fun _ => hpaid, fun h => absurd h hexit⟩

/-- An answer that is not. -/
lemma Charges.unpaid (hgas : out'.gasLimit ≤ out.gasLimit) (hexit : out'.exitCondition = .outOfGas)
    (hregisters : out'.registers = out.registers) : Charges out x (.ok (out', x)) := by
  intro out₁ x₁ h
  cases h
  exact ⟨hgas, fun h => absurd (h.symm.trans hexit) (by decide), fun _ => ⟨hregisters, rfl⟩⟩

lemma Charges.hostcall {cost : ℕ}
    {body : InvocationMutationOutput → Except HostError (CallResult coreCount)}
    (h : ∀ out₁, out₁.gasLimit ≤ out.gasLimit → 0 ≤ out₁.gasLimit → Charges out x (body out₁)) :
    Charges out x (hostcall cost out x body) := by
  unfold HostCalls.hostcall
  dsimp only
  split
  · exact .unpaid (by dsimp only; omega) rfl rfl
  · next hgas => exact h _ (by dsimp only; omega) (not_lt.mp hgas)

/-- `transfer` charges by hand. -/
lemma hcTransfer_charges : Charges out x (hcTransfer registers memory x out) := by
  unfold hcTransfer
  refine .bind fun account => .bind fun destination => ?_
  dsimp only
  have hgas : out.gasLimit - 575 - transferForwarded account (memory.readBytes (registers.get 10) 128)
      destination (registers.get 9) (account.balance - registers.get 8) ≤ out.gasLimit := by omega
  split
  · exact .unpaid hgas rfl rfl
  · next hpaid =>
    have hpaid := not_lt.mp hpaid
    split
    · exact .paid hgas hpaid (fun h => by cases h)
    · exact .paid hgas hpaid (fun h => by cases h)
    · split
      · exact .paid hgas hpaid (fun h => by cases h)
      · split
        · exact .paid hgas hpaid (fun h => by cases h)
        · exact .bind fun services => .paid hgas hpaid (fun h => by cases h)

lemma execute_charges {gas : ℤ} :
    Charges ⟨.panic, gas, registers⟩ x (execute env call gas registers memory x) := by
  unfold execute
  dsimp only
  cases call with
  | transfer => exact hcTransfer_charges
  | _ =>
    refine .hostcall fun out₁ hgas hpaid => ?_
    dsimp only
    -- every branch keeps the gas that is left after the charge
    repeat' first
      | split
      | with_reducible refine .bind fun _ => ?_
    all_goals first
      | exact .error
      | exact .paid hgas hpaid (fun h => by cases h)

end Accumulate

/-! ## The mutators -/

section Mutators

variable {s : CallInput B} {out : CallOutput B}

lemma commonCall_settles {χ : Type} {codec : Codec} {F : FetchData} {n : ℤ} {x : χ}
    (h : commonCall codec F n s = some (.ok out)) : Settles s x out x := by
  unfold commonCall at h
  split at h
  · exact hcGas_settles (Option.some.inj h)
  · exact growHeap_settles (Option.some.inj h)
  · exact hcFetch_settles (Option.some.inj h)
  · exact hcLog_settles (Option.some.inj h)
  · cases h

lemma serviceCall_settles {codec : Codec} {n : ℤ} {x : AccumulateInvocationContext coreCount}
    (h : serviceCall codec n s x = some (.ok out)) : Settles s x out x := by
  unfold serviceCall at h
  dsimp only at h
  split at h
  · obtain ⟨account, -, hcall⟩ := Except.bind_eq_ok.mp (Option.some.inj h)
    exact hcLookup_settles hcall
  · obtain ⟨account, -, hcall⟩ := Except.bind_eq_ok.mp (Option.some.inj h)
    exact hcRead_settles hcall
  · obtain ⟨account, -, hcall⟩ := Except.bind_eq_ok.mp (Option.some.inj h)
    exact hcInfo_settles hcall
  · cases h

lemma contextCall_settles {env : Environment} {n : ℤ} {x x' : AccumulateInvocationContext coreCount}
    (h : contextCall env n s x = some (.ok (out, x'))) : Settles s x out x' := by
  obtain ⟨call, -, h⟩ := Option.map_eq_some_iff.mp h
  split at h
  · cases h
  · next out' x₁ hcall =>
    cases h
    obtain ⟨hspent, hresume, hoog⟩ := execute_charges _ _ hcall
    refine ⟨hspent, hresume, fun hexit => ?_⟩
    obtain ⟨hregisters, hx⟩ := hoog hexit
    refine ⟨fun i => ?_, rfl, hx⟩
    change (out'.registers.get i : ℤ) = s.registers.get i
    rw [hregisters, get_toRegisters]

lemma refineCall_settles {R : RefineEnvironment} {n : ℤ} {x x' : RefineContext B}
    (h : refineCall R n s x = some (some (.ok (out, x')))) : Settles s x out x' := by
  unfold refineCall at h
  split at h
  · exact hcExport_settles (Option.some.inj (Option.some.inj h))
  · exact hcMachine_settles (Option.some.inj (Option.some.inj h))
  · exact hcPeek_settles (Option.some.inj (Option.some.inj h))
  · exact hcPoke_settles (Option.some.inj (Option.some.inj h))
  · exact hcPages_settles (Option.some.inj (Option.some.inj h))
  · exact invokeIn_settles (Option.some.inj h)
  · exact hcExpunge_settles (Option.some.inj (Option.some.inj h))
  · cases h

lemma historicalCall_settles {R : RefineEnvironment} {n : ℤ} {x : RefineContext B}
    (h : historicalCall R n s = some (.ok out)) : Settles s x out x := by
  rw [historicalCall] at h
  split at h
  · exact hcHistoricalLookup_settles (Option.some.inj h)
  · cases h

/-! ## Calls that do not exist -/

/-- What is answered to a number without a call. -/
lemma hcNotFound_eq_ok (h : hcNotFound s = .ok out) :
    out.gasLimit = s.gasLimit - 1000 ∧ out.memory = s.memory ∧
      out.registers = Function.update (fun i => (s.registers.get i : ℤ)) 7
        HostCallResult.what.value ∧
      out.exitCondition = if (s.gasLimit : ℤ) - 1000 < 0 then .outOfGas else .resume := by
  obtain ⟨out', hanswer, heq⟩ := Except.bind_eq_ok.mp h
  cases heq
  obtain ⟨-, hgas, hmemory, hregisters⟩ := answer_eq_ok hanswer
  exact ⟨hgas, hmemory, hregisters, rfl⟩

/-- The answer is made in all three interpreters. -/
lemma exists_hcNotFound (s : CallInput B) : ∃ out, hcNotFound s = .ok out := by
  rw [hcNotFound, CallInput.answer, setRegister_of_lt _ _ (by decide)]
  exact ⟨_, rfl⟩

/-- The registers with the answer to such a number. -/
def whatRegisters (registers : Regs) : Regs := fun i =>
  if i = 7 then BitVec.ofNat 64 HostCallResult.what.value else registers i

lemma whatRegisters_eq_iff (registers : Regs) :
    whatRegisters registers = registers ↔ registers.get 7 = HostCallResult.what.value := by
  constructor
  · intro hsame
    rw [Regs.get, ← hsame]
    exact Nat.mod_eq_of_lt (by decide : HostCallResult.what.value < 2 ^ 64)
  · intro hwhat
    funext i
    rw [whatRegisters]
    split
    · next hi => rw [hi, ← hwhat, Regs.get, BitVec.ofNat_toNat, BitVec.setWidth_eq]
    · rfl

lemma hcNotFound_mutation {χ : Type} {gas : ℕ} {data : MachineData B.Memory} (x : χ)
    (h : hcNotFound (callInput gas data) = .ok out) :
    (out.mutation x).data = ⟨whatRegisters data.reg, data.mem⟩ := by
  obtain ⟨-, hmemory, hregisters, -⟩ := hcNotFound_eq_ok h
  have hreg : (fun i => BitVec.ofInt 64 (out.registers i)) = whatRegisters data.reg := by
    funext i
    rw [hregisters, whatRegisters]
    by_cases hi : i = 7
    · rw [hi, Function.update_self, if_pos rfl, BitVec.ofInt_natCast]
    · rw [Function.update_of_ne hi, if_neg hi]
      exact ofInt_get data.reg i
  change (⟨fun i => BitVec.ofInt 64 (out.registers i), out.memory⟩ : MachineData B.Memory) = _
  rw [hreg, hmemory]
  rfl

/-- Register 7 may be written when there is enough gas or when it holds the answer already. -/
lemma hcNotFound_disciplined_iff {χ : Type} {gas : ℕ} {data : MachineData B.Memory} {x : χ}
    (h : hcNotFound (callInput gas data) = .ok out) :
    Disciplined gas data x (out.mutation x) ↔
      1000 ≤ gas ∨ data.reg.get 7 = HostCallResult.what.value := by
  have hdata := hcNotFound_mutation x h
  obtain ⟨hgas, -, -, hexit⟩ := hcNotFound_eq_ok h
  have hlimit : out.gasLimit = (gas : ℤ) - 1000 := hgas
  have hexit : out.exitCondition = if (gas : ℤ) - 1000 < 0 then .outOfGas else .resume := hexit
  constructor
  · intro hdisciplined
    by_contra hneither
    rw [not_or, not_le] at hneither
    have hoog : out.exitCondition = .outOfGas := by
      rw [hexit, if_pos (by omega)]
    have hsame := (hdisciplined.outOfGas hoog).1
    rw [hdata] at hsame
    exact hneither.2 ((whatRegisters_eq_iff data.reg).mp (congrArg MachineData.reg hsame))
  · intro henough
    by_cases hlack : gas < 1000
    · have hwhat := henough.resolve_left (not_le.mpr hlack)
      refine ⟨?_, fun hresume => ?_, fun _ => ⟨?_, rfl⟩⟩
      · change out.gasLimit ≤ gas
        omega
      · change out.exitCondition = .resume at hresume
        rw [hexit, if_pos (by omega)] at hresume
        cases hresume
      · rw [hdata, (whatRegisters_eq_iff data.reg).mpr hwhat]
    · refine ⟨?_, fun _ => ?_, fun hoog => ?_⟩
      · change out.gasLimit ≤ gas
        omega
      · change 0 ≤ out.gasLimit
        omega
      · change out.exitCondition = .outOfGas at hoog
        rw [hexit, if_neg (by omega)] at hoog
        cases hoog

end Mutators

/-! ## The numbers that have a call -/

/-- The numbers that every invocation answers. -/
def commonNumbers : List ℤ := [0, 1, 2, 100]

/-- The numbers that `AccumulateInvocationMutator` answers. -/
def accumulateNumbers : List ℤ :=
  commonNumbers ++ ([3, 4, 6] ++ [5, 15, 16, 17, 18, 19, 20, 21, 22, 23, 24, 25, 26, 27])

/-- The numbers that `RefineInvocationMutator` answers. -/
def refineNumbers : List ℤ := commonNumbers ++ ([7] ++ [8, 9, 10, 11, 12, 13, 14])

section Numbers

variable {codec : Codec} {F : FetchData} {n : ℤ} {s : CallInput B}

lemma commonCall_eq_none_iff : commonCall codec F n s = none ↔ n ∉ commonNumbers := by
  rw [commonNumbers]
  unfold commonCall
  split
  · simp
  · simp
  · simp
  · simp
  · simp_all

lemma serviceCall_eq_none_iff {x : AccumulateInvocationContext coreCount} :
    serviceCall codec n s x = none ↔ n ∉ ([3, 4, 6] : List ℤ) := by
  unfold serviceCall
  dsimp only
  split
  · simp
  · simp
  · simp
  · simp_all

lemma hostCallOf_eq_none_iff {k : ℕ} :
    hostCallOf k = none ↔ k ∉ [5, 15, 16, 17, 18, 19, 20, 21, 22, 23, 24, 25, 26, 27] := by
  unfold hostCallOf
  split
  all_goals simp_all

lemma contextCall_eq_none_iff {env : Environment} {x : AccumulateInvocationContext coreCount} :
    contextCall env n s x = none ↔
      n ∉ ([5, 15, 16, 17, 18, 19, 20, 21, 22, 23, 24, 25, 26, 27] : List ℤ) := by
  rw [contextCall, Option.map_eq_none_iff]
  split
  · next hneg =>
    simp only [true_iff, List.mem_cons, List.not_mem_nil, or_false]
    omega
  · next hnonneg =>
    rw [hostCallOf_eq_none_iff]
    simp only [List.mem_cons, List.not_mem_nil, or_false]
    omega

lemma historicalCall_eq_none_iff {R : RefineEnvironment} : historicalCall R n s = none ↔ n ≠ 7 := by
  unfold historicalCall
  split
  · next hn => simp [hn]
  · next hn => simp [hn]

lemma refineCall_eq_none_iff {R : RefineEnvironment} {x : RefineContext B} :
    refineCall R n s x = none ↔ n ∉ ([8, 9, 10, 11, 12, 13, 14] : List ℤ) := by
  unfold refineCall
  split
  all_goals simp_all

end Numbers

/-! ## What the mutators answer -/

section Answers

variable {codec : Codec} {F : FetchData}

/-- A mutator with calls for some numbers: the calls have discipline, any other number is answered
alike. -/
structure Answers {χ : Type} (numbers : List ℤ) (mutator : Mutator (MachineData B.Memory) χ) :
    Prop where
  called : ∀ n ∈ numbers, ∀ gas data x m, mutator n gas data x = some (.ok m) →
    Disciplined gas data x m
  notFound : ∀ n ∉ numbers, ∀ gas data x,
    mutator n gas data x = some ((hcNotFound (callInput gas data)).map fun out => out.mutation x)

/-- The call exists, or it could be paid for, or register 7 holds the answer already. -/
def Accountable (numbers : List ℤ) (n : ℤ) (gas : ℕ) (registers : Regs) : Prop :=
  n ∈ numbers ∨ 1000 ≤ gas ∨ registers.get 7 = HostCallResult.what.value

lemma Answers.disciplined_iff {χ : Type} {numbers : List ℤ}
    {mutator : Mutator (MachineData B.Memory) χ} (h : Answers numbers mutator) (n : ℤ) (gas : ℕ)
    (data : MachineData B.Memory) (x : χ) :
    (∀ m, mutator n gas data x = some (.ok m) → Disciplined gas data x m) ↔
      Accountable numbers n gas data.reg := by
  by_cases hn : n ∈ numbers
  · exact iff_of_true (h.called n hn gas data x) (.inl hn)
  · obtain ⟨out, hout⟩ := exists_hcNotFound (callInput gas data)
    rw [h.notFound n hn, hout, Accountable, or_iff_right hn, ← hcNotFound_disciplined_iff (x := x) hout]
    constructor
    · intro hall
      exact hall _ rfl
    · intro hdisciplined m hm
      cases hm
      exact hdisciplined

lemma Disciplined.of_settled {χ : Type} {gas : ℕ} {data : MachineData B.Memory} {x : χ}
    {result : Except RefineError (CallOutput B)}
    (h : ∀ out, result = .ok out → Settles (callInput gas data) x out x)
    {m : MutationOutput (MachineData B.Memory) χ}
    (hm : some (result.map fun out => out.mutation x) = some (.ok m)) : Disciplined gas data x m := by
  cases result with
  | error e => cases hm
  | ok out =>
    cases hm
    exact (h out rfl).disciplined

lemma isAuthorizedMutator_answers :
    Answers commonNumbers (isAuthorizedMutator (B := B) codec F) where
  called n hn gas data x m hm := by
    rw [isAuthorizedMutator] at hm
    cases hcommon : commonCall codec F n (callInput gas data) with
    | none => exact absurd hn (commonCall_eq_none_iff.mp hcommon)
    | some result =>
      simp only [hcommon, Option.getD_some] at hm
      refine .of_settled (fun out hout => ?_) hm
      rw [hout] at hcommon
      exact commonCall_settles hcommon
  notFound n hn gas data x := by
    rw [isAuthorizedMutator]
    simp only [commonCall_eq_none_iff.mpr hn, Option.getD_none]

lemma accumulateMutator_answers (env : Environment) :
    Answers accumulateNumbers (accumulateMutator env codec F :
      Mutator (MachineData B.Memory) (AccumulateInvocationContext coreCount)) where
  called n hn gas data x m hm := by
    rw [accumulateMutator] at hm
    cases hcommon : commonCall codec F n (callInput gas data) with
    | some result =>
      simp only [hcommon] at hm
      refine .of_settled (fun out hout => ?_) hm
      rw [hout] at hcommon
      exact commonCall_settles hcommon
    | none =>
      cases hservice : serviceCall codec n (callInput gas data) x with
      | some result =>
        simp only [hcommon, hservice, Option.none_or] at hm
        refine .of_settled (fun out hout => ?_) hm
        rw [hout] at hservice
        exact serviceCall_settles hservice
      | none =>
        cases hcontext : contextCall env n (callInput gas data) x with
        | some result =>
          simp only [hcommon, hservice, hcontext, Option.none_or] at hm
          cases result with
          | error e => cases hm
          | ok outcome =>
            cases hm
            exact (contextCall_settles hcontext).disciplined
        | none =>
          have hcommon := commonCall_eq_none_iff.mp hcommon
          have hservice := serviceCall_eq_none_iff.mp hservice
          have hcontext := contextCall_eq_none_iff.mp hcontext
          rw [accumulateNumbers, List.mem_append, List.mem_append] at hn
          tauto
  notFound n hn gas data x := by
    rw [accumulateNumbers, List.mem_append, List.mem_append, not_or, not_or] at hn
    rw [accumulateMutator]
    simp only [commonCall_eq_none_iff.mpr hn.1, serviceCall_eq_none_iff.mpr hn.2.1,
      contextCall_eq_none_iff.mpr hn.2.2, Option.none_or]

lemma refineMutator_answers (R : RefineEnvironment) :
    Answers refineNumbers (refineMutator (B := B) R) where
  called n hn gas data x m hm := by
    rw [refineMutator] at hm
    cases hcommon : commonCall R.codec R.fetchData n (callInput gas data) with
    | some result =>
      simp only [hcommon] at hm
      refine .of_settled (fun out hout => ?_) hm
      rw [hout] at hcommon
      exact commonCall_settles hcommon
    | none =>
      cases hhistorical : historicalCall R n (callInput gas data) with
      | some result =>
        simp only [hcommon, hhistorical, Option.none_or] at hm
        refine .of_settled (fun out hout => ?_) hm
        rw [hout] at hhistorical
        exact historicalCall_settles hhistorical
      | none =>
        cases hrefine : refineCall R n (callInput gas data) x with
        | some result =>
          simp only [hcommon, hhistorical, hrefine, Option.none_or] at hm
          obtain ⟨result, rfl, hmap⟩ := Option.map_eq_some_iff.mp hm
          cases result with
          | error e => cases hmap
          | ok outcome =>
            cases hmap
            exact (refineCall_settles hrefine).disciplined
        | none =>
          have hcommon := commonCall_eq_none_iff.mp hcommon
          have hhistorical := historicalCall_eq_none_iff.mp hhistorical
          have hrefine := refineCall_eq_none_iff.mp hrefine
          rw [refineNumbers, List.mem_append, List.mem_append, List.mem_singleton] at hn
          tauto
  notFound n hn gas data x := by
    rw [refineNumbers, List.mem_append, List.mem_append, List.mem_singleton, not_or, not_or] at hn
    rw [refineMutator]
    simp only [commonCall_eq_none_iff.mpr hn.1, historicalCall_eq_none_iff.mpr hn.2.1,
      refineCall_eq_none_iff.mpr hn.2.2, Option.none_or]

end Answers

/-! ## Runs -/

section Runs

variable {σ χ : Type} {D : DataPath σ} {gm : GasModel} {p : PVMCode} {mutator : Mutator σ χ}

/-- What the mutators above have in common: calls take gas. -/
def Charging (mutator : Mutator σ χ) : Prop :=
  ∀ n gas data x m, mutator n gas data x = some (.ok m) → m.gasLimit ≤ gas

/-- An invocation takes gas. -/
lemma invoke_gas_le {fuel : ℕ} {self : Loop σ} {pc gas : ℕ} {r : Invocation σ}
    (h : B.invoke D gm p fuel self pc gas = some r) : r.self.gas ≤ gas := by
  by_cases hvalid : p.valid = true
  · have hpays := (B.invoke_pays D gm hvalid h).gas_eq
    omega
  · rw [Backend.invoke, if_neg fun hstart => hvalid hstart.1] at h
    cases h
    exact le_rfl

/-- The gas of what comes after an invocation. -/
def Afterwards.Within (limit : ℤ) : Afterwards σ χ → Prop
  | .ends run => ∀ out, run.result = .ok out → out.gasLimit ≤ limit
  | .resumes _ _ _ gas _ => gas ≤ limit

/-- What comes after an invocation takes gas. -/
lemma afterwards_within (hmutator : Charging mutator) {exit : Exit} {self : Loop σ} {x : χ}
    {rest : Afterwards σ χ} (h : afterwards p mutator exit self x = some rest) :
    rest.Within self.gas := by
  -- a run that ends without a call keeps what the machine left
  have hkept : ∀ exit' pc,
      (Afterwards.ends ⟨[], self.pc, .ok ⟨exit', pc, self.gas, self.data, x⟩⟩).Within
        (self.gas : ℤ) := by
    intro exit' pc out hout
    cases hout
    exact le_rfl
  cases exit with
  | hostHalt n =>
    obtain ⟨answer, hanswer, rfl⟩ := Option.map_eq_some_iff.mp h
    cases answer with
    | error e =>
      intro out hout
      cases hout
    | ok m =>
      have hgas := hmutator n self.gas self.data x m hanswer
      dsimp only
      split
      · exact hgas
      · intro out hout
        cases hout
      · intro out hout
        cases hout
        exact hgas
      · intro out hout
        cases hout
        exact hgas
  | raised =>
    cases h
    intro out hout
    cases hout
  | undefined =>
    cases h
    intro out hout
    cases hout
  | halt => exact Option.some.inj h ▸ hkept _ _
  | panic => exact Option.some.inj h ▸ hkept _ _
  | outOfGas => exact Option.some.inj h ▸ hkept _ _
  | pageFault exitValue => exact Option.some.inj h ▸ hkept _ _

lemma eq_of_validatePvmGas {gas : ℤ} {limit : ℕ} (h : validatePvmGas gas = some limit) :
    (limit : ℤ) = gas := by
  rw [validatePvmGas] at h
  split at h
  · cases h
    omega
  · cases h

/-- A run takes gas: one step is an invocation with what comes after it. -/
lemma pvmInvokeHostCall_gas_le (hmutator : Charging mutator) (fuel : ℕ) :
    ∀ (self : Loop σ) (pc : ℕ) (gas : ℤ) (x : χ) (run : MachineRun σ χ) (out : HostCallOutput σ χ),
      Driver.pvmInvokeHostCall B D gm p mutator fuel self pc gas x = some run →
      run.result = .ok out → out.gasLimit ≤ gas := by
  induction fuel with
  | zero =>
    intro self pc gas x run out h
    cases h
  | succ fuel ih =>
    intro self pc gas x run out h hout
    rw [Driver.pvmInvokeHostCall] at h
    cases hgas : validatePvmGas gas with
    | none =>
      rw [hgas] at h
      cases h
      cases hout
    | some limit =>
      rw [hgas] at h
      obtain ⟨r, hinvoke, h⟩ := Option.bind_eq_some_iff.mp h
      obtain ⟨rest, hafter, h⟩ := Option.bind_eq_some_iff.mp h
      have hlimit := eq_of_validatePvmGas hgas
      have hinvoked := invoke_gas_le hinvoke
      have hwithin := afterwards_within hmutator hafter
      cases rest with
      | ends run' =>
        cases h
        have hended := hwithin out hout
        omega
      | resumes call self' pc' gas' x' =>
        obtain ⟨run', hrun, rfl⟩ := Option.map_eq_some_iff.mp h
        have hrest := ih self' pc' gas' x' run' out hrun hout
        have hresumed : gas' ≤ r.self.gas := hwithin
        omega

/-- The gas that is reported is between nothing and the limit. -/
lemma gasUsed_within (hmutator : Charging mutator) {fuel : ℕ} {pvm : Option (Loop σ)}
    {startOffset gasLimit : ℕ} {x : χ} {out : Driver.MarshallingOutput χ}
    (h : Driver.pvmInvokeMarshalling B D gm p mutator fuel pvm startOffset gasLimit x = some (.ok out)) :
    0 ≤ out.gasUsed ∧ out.gasUsed ≤ gasLimit := by
  cases pvm with
  | none =>
    cases h
    exact ⟨le_rfl, Int.natCast_nonneg gasLimit⟩
  | some self =>
    obtain ⟨run, hrun, h⟩ := Option.map_eq_some_iff.mp h
    cases hresult : run.result with
    | error e =>
      rw [hresult] at h
      cases h
    | ok output =>
      rw [hresult] at h
      cases h
      have hgas := pvmInvokeHostCall_gas_le hmutator fuel self startOffset gasLimit x run output hrun
        hresult
      simp only [HostCallOutput.marshalled]
      omega

lemma Answers.charging {χ : Type} {numbers : List ℤ} {mutator : Mutator (MachineData B.Memory) χ}
    (h : Answers numbers mutator) : Charging mutator := by
  intro n gas data x m hm
  by_cases hn : n ∈ numbers
  · exact (h.called n hn gas data x m hm).spent
  · obtain ⟨out, hout⟩ := exists_hcNotFound (callInput gas data)
    rw [h.notFound n hn, hout] at hm
    cases hm
    change out.gasLimit ≤ gas
    have hgas : out.gasLimit = (gas : ℤ) - 1000 := (hcNotFound_eq_ok hout).1
    omega

end Runs

/-! ## The discipline -/

/-- The answers of a mutator, call by call, and the gas that its runs report.  The runs are those of the
interpreter `B`, which is Numba with the gas query in compiled code where `B` is `numba` with a fee. -/
structure Governed {χ : Type} (numbers : List ℤ) (mutator : Mutator (MachineData B.Memory) χ) :
    Prop where
  resumes : ∀ n gas data x m, mutator n gas data x = some (.ok m) → m.exitCondition = .resume →
    0 ≤ m.gasLimit ∧ m.gasLimit ≤ gas
  calls : ∀ n gas data x, (∀ m, mutator n gas data x = some (.ok m) → Disciplined gas data x m) ↔
    Accountable numbers n gas data.reg
  reported : ∀ D gm p fuel pvm startOffset (gasLimit : ℕ) x out,
    Driver.pvmInvokeMarshalling B D gm p mutator fuel pvm startOffset gasLimit x = some (.ok out) →
      0 ≤ out.gasUsed ∧ out.gasUsed ≤ gasLimit

lemma Answers.resumes {χ : Type} {numbers : List ℤ} {mutator : Mutator (MachineData B.Memory) χ}
    (h : Answers numbers mutator) {n : ℤ} {gas : ℕ} {data : MachineData B.Memory} {x : χ}
    {m : MutationOutput (MachineData B.Memory) χ} (hm : mutator n gas data x = some (.ok m))
    (hexit : m.exitCondition = .resume) : 0 ≤ m.gasLimit ∧ m.gasLimit ≤ gas := by
  refine ⟨?_, h.charging n gas data x m hm⟩
  by_cases hn : n ∈ numbers
  · exact (h.called n hn gas data x m hm).resume hexit
  · obtain ⟨out, hout⟩ := exists_hcNotFound (callInput gas data)
    rw [h.notFound n hn, hout] at hm
    cases hm
    obtain ⟨hgas, -, -, hanswer⟩ := hcNotFound_eq_ok hout
    change out.exitCondition = .resume at hexit
    change 0 ≤ out.gasLimit
    rw [hexit] at hanswer
    split at hanswer
    · cases hanswer
    · omega

lemma Answers.governed {χ : Type} {numbers : List ℤ} {mutator : Mutator (MachineData B.Memory) χ}
    (h : Answers numbers mutator) : Governed numbers mutator where
  resumes _ _ _ _ _ hm hexit := h.resumes hm hexit
  calls := h.disciplined_iff
  reported _ _ _ _ _ _ _ _ _ hout := gasUsed_within h.charging hout

/-- In all three invocations a call keeps the discipline unless it does not exist, cannot be paid for
and finds another value in register 7. -/
theorem mutators_governed (B : Backend) (codec : Codec) (F : FetchData) (env : Environment)
    (R : RefineEnvironment) :
    Governed commonNumbers (isAuthorizedMutator codec F : Mutator (MachineData B.Memory) Unit) ∧
      Governed accumulateNumbers (accumulateMutator env codec F :
        Mutator (MachineData B.Memory) (AccumulateInvocationContext coreCount)) ∧
      Governed refineNumbers (refineMutator R : Mutator (MachineData B.Memory) (RefineContext B)) :=
  ⟨isAuthorizedMutator_answers.governed, (accumulateMutator_answers env).governed,
    (refineMutator_answers R).governed⟩

/-! ## A number without a call -/

/-- A machine with empty registers and an empty memory. -/
def sampleMachine : MachineData (Backend.Memory .cpython) := ⟨fun _ => 0, CPython.Memory.empty⟩

/-- An accumulation with nothing to fetch. -/
def sampleMutator : Mutator (MachineData (Backend.Memory .cpython)) (AccumulateInvocationContext 0) :=
  accumulateMutator sampleEnvironment .natural ⟨[], none, none, none, none, none, none, none⟩

/-- The call 50 with 999 gas is out of gas and leaves its answer in register 7. -/
theorem sampleMutator_writes :
    ∃ m, sampleMutator 50 999 sampleMachine sampleInvocation = some (.ok m) ∧
      m.exitCondition = .outOfGas ∧ sampleMachine.reg.get 7 = 0 ∧
      m.data.reg.get 7 = HostCallResult.what.value ∧
      ¬ Disciplined 999 sampleMachine sampleInvocation m := by
  obtain ⟨out, hout⟩ := exists_hcNotFound (callInput 999 sampleMachine)
  have hdata := hcNotFound_mutation sampleInvocation hout
  obtain ⟨-, -, -, hexit⟩ := hcNotFound_eq_ok hout
  refine ⟨out.mutation sampleInvocation, ?_, hexit.trans (by decide), by decide, ?_, ?_⟩
  · rw [sampleMutator, (accumulateMutator_answers sampleEnvironment).notFound 50 (by decide), hout]
    rfl
  · rw [hdata]
    decide
  · rw [hcNotFound_disciplined_iff hout]
    decide

end HostCalls
