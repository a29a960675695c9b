import Pyjamaz.HostCalls.Conservation
import Pyjamaz.HostCalls.Refine
import Pyjamaz.Library.Encoding

/-!
# Calls that look something up

`lookup`, `read`, `info` and `historical_lookup` find an octet string, cut a window out of it and
write the window to the memory; register 7 gets the length of the whole string, or says that there is
none.  The calls are modelled over the memories of the three interpreters.

Each call decodes the service in register 7 by itself.  The number of the account and the account are
two variables in the source; they are one here, since the number is not used without the account.
-/

namespace HostCalls

open Pvm Services Octets

/-! ## A call on a machine -/

/-- What a call gets from the machine: `registers`, `memory` and `gas_limit`. -/
structure CallInput (B : Backend) where
  registers : Regs
  memory : B.Memory
  gasLimit : ℕ

/-- `InvocationMutationOutput` -/
structure CallOutput (B : Backend) where
  exitCondition : ExitReason
  gasLimit : ℤ
  registers : Fin 13 → ℤ
  memory : B.Memory

/-- `try … except StateKeyNoResult`; every other exception is raised. -/
def orMissing {α : Type} : Except ServiceError α → Except RefineError (Option α)
  | .ok a => .ok (some a)
  | .error .noResult => .ok none
  | .error _ => .error .raised

/-- The 32 bytes of a hash that was read. -/
def toHash (data : Octets) : Octets32 := Vector.ofFn fun i => data.getD i 0

section Calls

variable {B : Backend}

/-- The output with registers and memory as they were. -/
def CallInput.output (s : CallInput B) (exitCondition : ExitReason) (gasLimit : ℤ) : CallOutput B where
  exitCondition := exitCondition
  gasLimit := gasLimit
  registers := fun i => s.registers.get i
  memory := s.memory

/-- The decorator `hostcall`. -/
def CallInput.charged (s : CallInput B) (cost : ℕ)
    (body : ℤ → Except RefineError (CallOutput B)) : Except RefineError (CallOutput B) :=
  let gasLimit : ℤ := s.gasLimit - cost
  if gasLimit < 0 then .ok (s.output .outOfGas gasLimit) else body gasLimit

/-- Resume with a value in register 7. -/
def CallInput.answer (s : CallInput B) (gasLimit : ℤ) (value : ℕ) :
    Except RefineError (CallOutput B) := do
  let registers ← setRegister B (fun i => s.registers.get i) 7 value
  return { s.output .resume gasLimit with registers := registers }

/-- The start and the length of the window. -/
def window (data : Option Octets) (offset length : ℕ) : ℕ × ℕ :=
  let size := (data.getD []).length
  let f := min offset size
  (f, min length (size - f))

/-- The end of all four calls: panic when the input or the output is not accessible, and otherwise
write the window at `o`. -/
def CallInput.deliver (s : CallInput B) (gasLimit : ℤ) (unreadable : Bool) (data : Option Octets)
    (o offset length : ℕ) : Except RefineError (CallOutput B) :=
  let (f, l) := window data offset length
  if unreadable || !(B.access.layout s.memory).isWritable o l then .ok (s.output .panic gasLimit)
  else data.elim (s.answer gasLimit HostCallResult.none.value) fun bytes => do
    let out ← s.answer gasLimit bytes.length
    let memory ← orRaise (B.access.writeBytes s.memory o (slice bytes f (f + l)))
    return { out with memory := memory }

/-! ## The service in register 7 -/

/-- The account that `hc_lookup` looks into. -/
def lookupAccount (services : ServicesState) (service : ServiceAccount) (serviceId reg7 : ℕ) :
    Except RefineError (Option (ℕ × ServiceAccount)) :=
  if reg7 = serviceId ∨ reg7 = 2 ^ 64 - 1 then .ok (some (serviceId, service))
  else do
    let account ← orMissing (services.retrieveServiceAccount (reg7 % 2 ^ 32))
    return account.map fun account => (reg7 % 2 ^ 32, account)

/-- The account that `hc_read` reads from. -/
def readAccount (services : ServicesState) (service : ServiceAccount) (serviceId reg7 : ℕ) :
    Except RefineError (Option (ℕ × ServiceAccount)) :=
  let target := if reg7 = 2 ^ 64 - 1 then serviceId else reg7 % 2 ^ 32
  if target = serviceId then .ok (some (target, service))
  else do
    let account ← orMissing (services.retrieveServiceAccount target)
    return account.map fun account => (target, account)

/-- The account that `hc_info` describes. -/
def infoAccount (services : ServicesState) (serviceId reg7 : ℕ) :
    Except RefineError (Option (ℕ × ServiceAccount)) := do
  let target := if reg7 = 2 ^ 64 - 1 then serviceId else reg7 % 2 ^ 32
  let account ← orMissing (services.retrieveServiceAccount target)
  return account.map fun account => (target, account)

/-- The account that `hc_historical_lookup` looks into. -/
def historicalAccount (services : ServicesState) (serviceId reg7 : ℕ) :
    Except RefineError (Option (ℕ × ServiceAccount)) := do
  let own ← orMissing (services.retrieveServiceAccount serviceId)
  if reg7 = 2 ^ 64 - 1 ∧ own.isSome then return own.map fun account => (serviceId, account)
  else
    let account ← orMissing (services.retrieveServiceAccount (reg7 % 2 ^ 32))
    return account.map fun account => (reg7 % 2 ^ 32, account)

/-! ## The calls -/

/-- The preimage that an account has under a hash. -/
def preimageOf (services : ServicesState) (preimageHash : Octets) :
    Option (ℕ × ServiceAccount) → Except RefineError (Option Octets)
  | none => .ok none
  | some (id, _) => orMissing (services.retrievePreimage id (toHash preimageHash))

/-- The item that an account has under a key. -/
def storageItemOf (services : ServicesState) (key : Octets) :
    Option (ℕ × ServiceAccount) → Except RefineError (Option Octets)
  | none => .ok none
  | some (id, _) => orMissing (services.retrieveStorageItem id key)

/-- The preimage that was available under a hash at a slot. -/
def historicalPreimageOf (P : Primitives) (services : ServicesState) (timeslot : ℕ)
    (preimageHash : Octets) : Option (ℕ × ServiceAccount) → Except RefineError (Option Octets)
  | none => .ok none
  | some (id, _) =>
    (services.historicalPreimageLookup P id timeslot (toHash preimageHash)).mapError fun _ => .raised

/-- `try … except PVMMemoryError` around a read of the memory and a search for what was read: whether
the memory was unreadable, and what was found. -/
def findUnder (key : Except AccessError Octets)
    (find : Octets → Except RefineError (Option Octets)) :
    Except RefineError (Bool × Option Octets) :=
  match key with
  | .error _ => .ok (true, none)
  | .ok key => (find key).map fun data => (false, data)

def lookupCost (s : CallInput B) : ℕ := 600 + gasCostForOctets 248 (s.registers.get 11)

def hcLookup (service : ServiceAccount) (serviceId : ℕ) (services : ServicesState)
    (s : CallInput B) : Except RefineError (CallOutput B) :=
  s.charged (lookupCost s) fun gasLimit => do
    let target ← lookupAccount services service serviceId (s.registers.get 7)
    let h := s.registers.get 8
    let unreadable := !(B.access.layout s.memory).isReadable h 32
    let preimage ←
      if unreadable || target.isNone then .ok none
      else do
        let preimageHash ← orRaise (B.access.readBytes s.memory h 32)
        preimageOf services preimageHash target
    s.deliver gasLimit unreadable preimage (s.registers.get 9) (s.registers.get 10)
      (s.registers.get 11)

def readCost (s : CallInput B) : ℕ :=
  2407 + (gasCostForOctets 1736 (s.registers.get 9) + gasCostForOctets 248 (s.registers.get 12))

def hcRead (service : ServiceAccount) (serviceId : ℕ) (services : ServicesState)
    (s : CallInput B) : Except RefineError (CallOutput B) :=
  s.charged (readCost s) fun gasLimit => do
    let target ← readAccount services service serviceId (s.registers.get 7)
    let key := B.access.readBytes s.memory (s.registers.get 8) (s.registers.get 9)
    let (unreadable, item) ← findUnder key fun key => storageItemOf services key target
    s.deliver gasLimit unreadable item (s.registers.get 10) (s.registers.get 11) (s.registers.get 12)

/-- The description of an account; a field that does not fit its width raises. -/
def serviceAccountBytes (codec : Codec) (a : ServiceAccount) : Option Octets := do
  let balance ← codec.uint 8 a.balance
  let thresholdBalance ← codec.uint 8 a.thresholdBalance
  let gasLimitAccumulate ← codec.uint 8 a.gasLimitAccumulate
  let gasLimitOnTransfer ← codec.uint 8 a.gasLimitOnTransfer
  let footprintStorageBytes ← codec.uint 8 a.footprintStorageBytes
  let footprintStorageItems ← codec.uint 4 a.footprintStorageItems
  let depositOffset ← codec.uint 8 a.depositOffset
  let creationSlot ← codec.uint 4 a.creationSlot
  let lastAccumulationSlot ← codec.uint 4 a.lastAccumulationSlot
  let parentService ← codec.uint 4 a.parentService
  return a.codeHash.toList ++ balance ++ thresholdBalance ++ gasLimitAccumulate ++
    gasLimitOnTransfer ++ footprintStorageBytes ++ footprintStorageItems ++ depositOffset ++
    creationSlot ++ lastAccumulationSlot ++ parentService

/-- The description of the account that was found. -/
def infoOf (codec : Codec) : Option (ℕ × ServiceAccount) → Except RefineError (Option Octets)
  | none => .ok none
  | some (_, account) => (serviceAccountBytes codec account).elim (.error .raised) fun b => .ok (some b)

def hcInfo (codec : Codec) (serviceId : ℕ) (services : ServicesState) (s : CallInput B) :
    Except RefineError (CallOutput B) :=
  s.charged 703 fun gasLimit => do
    let target ← infoAccount services serviceId (s.registers.get 7)
    let info ← infoOf codec target
    s.deliver gasLimit false info (s.registers.get 8) (s.registers.get 9) (s.registers.get 10)

def historicalLookupCost (s : CallInput B) : ℕ :=
  1125 + gasCostForOctets 264 (s.registers.get 11)

def hcHistoricalLookup (P : Primitives) (services : ServicesState) (serviceId timeslot : ℕ)
    (s : CallInput B) : Except RefineError (CallOutput B) :=
  s.charged (historicalLookupCost s) fun gasLimit => do
    let target ← historicalAccount services serviceId (s.registers.get 7)
    let h := s.registers.get 8
    -- the memory is only looked at when there is an account
    let (unreadable, preimage) ←
      if target.isNone then .ok (false, none)
      else if (B.access.layout s.memory).isReadable h 32 then
        findUnder (B.access.readBytes s.memory h 32) fun preimageHash =>
          historicalPreimageOf P services timeslot preimageHash target
      else .ok (true, none)
    s.deliver gasLimit unreadable preimage (s.registers.get 9) (s.registers.get 10)
      (s.registers.get 11)

/-! ## Panics -/

/-- The call answers with a panic. -/
def Panics (result : Except RefineError (CallOutput B)) : Prop :=
  ∃ out, result = .ok out ∧ out.exitCondition = .panic

/-- Only register 7 and a range of the memory may differ from what they were. -/
structure OnlyWrites (s : CallInput B) (address length : ℕ) (out : CallOutput B) : Prop where
  registers : ∀ i, i ≠ 7 → out.registers i = s.registers.get i
  layout : B.access.layout out.memory = B.access.layout s.memory
  byte : ∀ x, x < address ∨ address + length ≤ x →
    B.access.byte out.memory x = B.access.byte s.memory x

/-- The call panics for memory reasons only: it panics if it can pay and either the input is not
readable or the window of what is found is not writable, and otherwise it writes to that window. -/
structure PanicsForMemory (s : CallInput B) (cost : ℕ) (readable : Bool)
    (found : Except RefineError (Option Octets)) (o offset length : ℕ)
    (result : Except RefineError (CallOutput B)) : Prop where
  panics : ∀ data, found = .ok data → (Panics result ↔ cost ≤ s.gasLimit ∧ (readable = false ∨
    (B.access.layout s.memory).isWritable o (window data offset length).2 = false))
  changes : ∀ data, found = .ok data → ∀ out, result = .ok out → out.exitCondition ≠ .panic →
    OnlyWrites s o (window data offset length).2 out

lemma setRegister_eq_ok {registers registers' : Fin 13 → ℤ} {r : Fin 13} {value : ℤ}
    (h : setRegister B registers r value = .ok registers') :
    registers' = Function.update registers r value := by
  cases B with
  | cpython =>
    cases h
    rfl
  | graypaper | numba _ =>
    rw [setRegister] at h
    split at h
    · cases h
      rfl
    · cases h

lemma answer_eq_ok {s : CallInput B} {gasLimit : ℤ} {value : ℕ} {out : CallOutput B}
    (h : s.answer gasLimit value = .ok out) :
    out.exitCondition = .resume ∧ out.gasLimit = gasLimit ∧ out.memory = s.memory ∧
      out.registers = Function.update (fun i => (s.registers.get i : ℤ)) 7 value := by
  obtain ⟨registers, hregisters, hout⟩ := Except.bind_eq_ok.mp h
  cases hout
  exact ⟨rfl, rfl, rfl, setRegister_eq_ok hregisters⟩

/-- A call that can pay goes on with the rest of its gas. -/
lemma charged_of_le {s : CallInput B} {cost : ℕ} (h : cost ≤ s.gasLimit)
    (body : ℤ → Except RefineError (CallOutput B)) :
    s.charged cost body = body (s.gasLimit - cost) := by
  rw [CallInput.charged]
  exact if_neg (by omega)

lemma charged_of_lt {s : CallInput B} {cost : ℕ} (h : s.gasLimit < cost)
    (body : ℤ → Except RefineError (CallOutput B)) :
    s.charged cost body = .ok (s.output .outOfGas (s.gasLimit - cost)) := by
  rw [CallInput.charged]
  exact if_pos (by omega)

lemma OnlyWrites.output (s : CallInput B) (address length : ℕ) (exitCondition : ExitReason)
    (gasLimit : ℤ) : OnlyWrites s address length (s.output exitCondition gasLimit) :=
  ⟨fun _ _ => rfl, rfl, fun _ _ => rfl⟩

lemma OnlyWrites.answer {s : CallInput B} {gasLimit : ℤ} {value : ℕ} {out : CallOutput B}
    (h : s.answer gasLimit value = .ok out) (address length : ℕ) :
    OnlyWrites s address length out := by
  obtain ⟨-, -, hmemory, hregisters⟩ := answer_eq_ok h
  refine ⟨?_, by rw [hmemory], fun _ _ => by rw [hmemory]⟩
  intro i hi
  rw [hregisters, Function.update_of_ne hi]

lemma window_le (data : Option Octets) (offset length : ℕ) :
    (window data offset length).1 + (window data offset length).2 ≤ (data.getD []).length := by
  simp only [window]
  omega

lemma not_panics_of_answer {s : CallInput B} {gasLimit : ℤ} {value : ℕ} {out : CallOutput B}
    (h : s.answer gasLimit value = .ok out) : out.exitCondition ≠ .panic := by
  rw [(answer_eq_ok h).1]
  decide

/-- What `deliver` does when it does not panic. -/
lemma deliver_eq_ok {s : CallInput B} {gasLimit : ℤ} {data : Option Octets} {o offset length : ℕ}
    {out : CallOutput B}
    (hwritable : (B.access.layout s.memory).isWritable o (window data offset length).2 = true)
    (h : s.deliver gasLimit false data o offset length = .ok out) :
    ∃ out' value, s.answer gasLimit value = .ok out' ∧ (out = out' ∨ ∃ bytes memory,
      data = some bytes ∧ B.access.writeBytes s.memory o (slice bytes (window data offset length).1
        ((window data offset length).1 + (window data offset length).2)) = .ok memory ∧
      out = { out' with memory := memory }) := by
  rw [CallInput.deliver] at h
  simp only [hwritable, Bool.not_true, Bool.or_self, Bool.false_eq_true, if_false] at h
  cases data with
  | none => exact ⟨out, _, h, .inl rfl⟩
  | some bytes =>
    obtain ⟨out', hanswer, hwrite⟩ := Except.bind_eq_ok.mp h
    obtain ⟨memory, hmemory, hout⟩ := Except.bind_eq_ok.mp hwrite
    cases hout
    refine ⟨out', _, hanswer, .inr ⟨bytes, memory, rfl, ?_, rfl⟩⟩
    exact Except.mapError_eq_ok.mp hmemory

lemma deliver_panics_iff {s : CallInput B} {gasLimit : ℤ} {unreadable : Bool}
    {data : Option Octets} {o offset length : ℕ} :
    Panics (s.deliver gasLimit unreadable data o offset length) ↔ unreadable = true ∨
      (B.access.layout s.memory).isWritable o (window data offset length).2 = false := by
  by_cases hpanic : unreadable = true ∨
      (B.access.layout s.memory).isWritable o (window data offset length).2 = false
  · refine iff_of_true ⟨s.output .panic gasLimit, ?_, rfl⟩ hpanic
    have hor : (unreadable ||
        !(B.access.layout s.memory).isWritable o (window data offset length).2) = true := by
      simpa only [Bool.or_eq_true, Bool.not_eq_true'] using hpanic
    exact if_pos hor
  · refine iff_of_false ?_ hpanic
    simp only [not_or, Bool.not_eq_true, Bool.not_eq_false] at hpanic
    rintro ⟨out, hout, hexit⟩
    rw [hpanic.1] at hout
    obtain ⟨out', value, hanswer, rfl | ⟨bytes, memory, -, -, rfl⟩⟩ := deliver_eq_ok hpanic.2 hout
    · exact not_panics_of_answer hanswer hexit
    · exact not_panics_of_answer hanswer hexit

lemma writeBytes_nil (m : B.Memory) (address : ℕ) : B.access.writeBytes m address [] = .ok m := by
  cases B <;> rfl

/-- What is written lies in the window. -/
lemma deliver_onlyWrites {s : CallInput B} (hm : B.HasMemory s.memory) {gasLimit : ℤ}
    {unreadable : Bool} {data : Option Octets} {o offset length : ℕ} {out : CallOutput B}
    (h : s.deliver gasLimit unreadable data o offset length = .ok out)
    (hexit : out.exitCondition ≠ .panic) :
    OnlyWrites s o (window data offset length).2 out := by
  have hpanic : ¬ Panics (s.deliver gasLimit unreadable data o offset length) := by
    rintro ⟨out', hout', hexit'⟩
    rw [h] at hout'
    cases hout'
    exact hexit hexit'
  rw [deliver_panics_iff] at hpanic
  simp only [not_or, Bool.not_eq_true, Bool.not_eq_false] at hpanic
  obtain ⟨rfl, hwritable⟩ := hpanic
  obtain ⟨out', value, hanswer, rfl | ⟨bytes, memory, rfl, hwrite, rfl⟩⟩ :=
    deliver_eq_ok hwritable h
  · exact .answer hanswer _ _
  · have hanswered := OnlyWrites.answer hanswer o (window (some bytes) offset length).2
    have hle := window_le (some bytes) offset length
    have hlength : (slice bytes (window (some bytes) offset length).1
        ((window (some bytes) offset length).1 + (window (some bytes) offset length).2)).length =
        (window (some bytes) offset length).2 := by
      rw [Option.getD_some] at hle
      rw [slice, List.length_take, List.length_drop]
      omega
    by_cases hempty : slice bytes (window (some bytes) offset length).1
        ((window (some bytes) offset length).1 + (window (some bytes) offset length).2) = []
    · rw [hempty, writeBytes_nil] at hwrite
      cases hwrite
      exact ⟨hanswered.registers, rfl, fun _ _ => rfl⟩
    · obtain ⟨memory', hwrite', hlayout, hbyte⟩ := B.access_lawful.writeBytes hm.wellFormed hempty
        (by rwa [hlength])
      rw [hwrite] at hwrite'
      cases hwrite'
      refine ⟨hanswered.registers, hlayout, ?_⟩
      intro x hx
      rw [hbyte]
      rcases hx with hlow | hhigh
      · exact Paged.write_of_lt _ _ hlow
      · exact Paged.write_of_le _ (by rwa [hlength])

/-- A call that cannot pay does not panic. -/
lemma panicsForMemory_of_lt {s : CallInput B} {cost : ℕ} (hgas : s.gasLimit < cost)
    (readable : Bool) (found : Except RefineError (Option Octets)) (o offset length : ℕ)
    (body : ℤ → Except RefineError (CallOutput B)) :
    PanicsForMemory s cost readable found o offset length (s.charged cost body) := by
  rw [charged_of_lt hgas]
  refine ⟨fun data _ => iff_of_false ?_ (fun hpay => not_le.mpr hgas hpay.1),
    fun data _ out hout _ => ?_⟩
  · rintro ⟨out, hout, hexit⟩
    cases hout
    cases hexit
  · cases hout
    exact .output s _ _ _ _

/-- A call panics for memory reasons only if it delivers what is to be found, and takes the input for
unreadable when it is. -/
lemma panicsForMemory_of_deliver {s : CallInput B} (hm : B.HasMemory s.memory) {cost : ℕ}
    {readable : Bool} {found : Except RefineError (Option Octets)} {o offset length : ℕ}
    {body : ℤ → Except RefineError (CallOutput B)}
    (h : ∀ data, found = .ok data → ∀ gasLimit,
      body gasLimit = s.deliver gasLimit (!readable) data o offset length) :
    PanicsForMemory s cost readable found o offset length (s.charged cost body) := by
  by_cases hgas : cost ≤ s.gasLimit
  · rw [charged_of_le hgas]
    refine ⟨fun data hdata => ?_, fun data hdata out hout hexit => ?_⟩
    · rw [h data hdata, deliver_panics_iff, Bool.not_eq_true', and_iff_right hgas]
    · rw [h data hdata] at hout
      exact deliver_onlyWrites hm hout hexit
  · exact panicsForMemory_of_lt (not_le.mp hgas) _ _ _ _ _ _

/-! ## What the calls are to find -/

/-- The preimage for `hc_lookup`, if the hash can be read. -/
def lookupFound (service : ServiceAccount) (serviceId : ℕ) (services : ServicesState)
    (s : CallInput B) : Except RefineError (Option Octets) := do
  let target ← lookupAccount services service serviceId (s.registers.get 7)
  if (B.access.layout s.memory).isReadable (s.registers.get 8) 32 then
    preimageOf services (Paged.read (B.access.byte s.memory) (s.registers.get 8) 32) target
  else .ok none

/-- The item for `hc_read`, if the key can be read. -/
def readFound (service : ServiceAccount) (serviceId : ℕ) (services : ServicesState)
    (s : CallInput B) : Except RefineError (Option Octets) := do
  let target ← readAccount services service serviceId (s.registers.get 7)
  if (B.access.layout s.memory).isReadable (s.registers.get 8) (s.registers.get 9) then
    storageItemOf services
      (Paged.read (B.access.byte s.memory) (s.registers.get 8) (s.registers.get 9)) target
  else .ok none

/-- The preimage for `hc_historical_lookup`, if the hash can be read. -/
def historicalFound (P : Primitives) (services : ServicesState) (serviceId timeslot : ℕ)
    (s : CallInput B) : Except RefineError (Option Octets) := do
  let target ← historicalAccount services serviceId (s.registers.get 7)
  if (B.access.layout s.memory).isReadable (s.registers.get 8) 32 then
    historicalPreimageOf P services timeslot
      (Paged.read (B.access.byte s.memory) (s.registers.get 8) 32) target
  else .ok none

/-- Reading a range of some length. -/
lemma readBytes_of_readable {m : B.Memory} (hm : B.HasMemory m) {address length : ℕ}
    (h : (B.access.layout m).isReadable address length = true)
    (hin : 0 < length ∨ address < memorySize) :
    B.access.readBytes m address length = .ok (Paged.read (B.access.byte m) address length) := by
  by_cases hlength : 0 < length
  · obtain ⟨hspace, hreadable⟩ := (Layout.isReadable_iff hlength).mp h
    rw [Backend.readBytes_eq hm (by omega) hlength, hreadable]
    rfl
  · obtain rfl : length = 0 := by omega
    rw [Backend.readBytes_zero (hin.resolve_left hlength)]
    rfl

lemma readBytes_of_unreadable {m : B.Memory} (hm : B.HasMemory m) {address length : ℕ}
    (h : (B.access.layout m).isReadable address length = false) :
    ∃ e, B.access.readBytes m address length = .error e := by
  have hlength : 0 < length := by
    by_contra hzero
    rw [Layout.isReadable, if_pos (by omega)] at h
    cases h
  by_cases haddress : address < memorySize
  · rw [Backend.readBytes_eq hm haddress hlength]
    cases hdenied : Paged.firstDenied pvmPageSize
        (fun pg => pg ∈ (B.access.layout m).pagesR) address length with
    | none =>
      rw [(Layout.isReadable_iff hlength).mpr ⟨hm.wellFormed.fits hlength hdenied, hdenied⟩] at h
      cases h
    | some pg => exact ⟨_, rfl⟩
  · exact ⟨_, Backend.readBytes_of_ge (not_lt.mp haddress) length⟩

/-! ## The three lookups -/

variable {s : CallInput B} (hm : B.HasMemory s.memory)

include hm in
lemma hcLookup_panicsForMemory (service : ServiceAccount) (serviceId : ℕ) (services : ServicesState) :
    PanicsForMemory s (lookupCost s)
      ((B.access.layout s.memory).isReadable (s.registers.get 8) 32)
      (lookupFound service serviceId services s) (s.registers.get 9) (s.registers.get 10)
      (s.registers.get 11) (hcLookup service serviceId services s) := by
  refine panicsForMemory_of_deliver hm fun data hdata gasLimit => ?_
  obtain ⟨target, htarget, hfound⟩ := Except.bind_eq_ok.mp hdata
  simp only [htarget, Except.ok_bind]
  cases hreadable : (B.access.layout s.memory).isReadable (s.registers.get 8) 32 with
  | false =>
    rw [hreadable] at hfound
    cases hfound
    rfl
  | true =>
    rw [hreadable, if_pos rfl] at hfound
    cases target with
    | none =>
      cases hfound
      rfl
    | some target =>
      have hread := readBytes_of_readable hm hreadable (.inl (by decide))
      simp only [Bool.not_true, Option.isNone_some, Bool.or_self, Bool.false_eq_true, if_false,
        hread, orRaise, Except.mapError, Except.ok_bind, hfound]

/-- `hc_read` takes a key of no bytes behind the end of the space for unreadable. -/
def ReadsNothing (s : CallInput B) : Prop := s.registers.get 9 = 0 ∧ memorySize ≤ s.registers.get 8

include hm in
lemma hcRead_panicsForMemory {service : ServiceAccount} {serviceId : ℕ} {services : ServicesState}
    (h : ¬ ReadsNothing s) :
    PanicsForMemory s (readCost s)
      ((B.access.layout s.memory).isReadable (s.registers.get 8) (s.registers.get 9))
      (readFound service serviceId services s) (s.registers.get 10) (s.registers.get 11)
      (s.registers.get 12) (hcRead service serviceId services s) := by
  refine panicsForMemory_of_deliver hm fun data hdata gasLimit => ?_
  obtain ⟨target, htarget, hfound⟩ := Except.bind_eq_ok.mp hdata
  simp only [htarget, Except.ok_bind]
  cases hreadable : (B.access.layout s.memory).isReadable (s.registers.get 8)
      (s.registers.get 9) with
  | false =>
    rw [hreadable] at hfound
    cases hfound
    obtain ⟨e, hread⟩ := readBytes_of_unreadable hm hreadable
    simp only [hread, findUnder, Except.ok_bind, Bool.not_false]
  | true =>
    rw [hreadable, if_pos rfl] at hfound
    have hin : 0 < s.registers.get 9 ∨ s.registers.get 8 < memorySize := by
      rw [ReadsNothing] at h
      omega
    have hread := readBytes_of_readable hm hreadable hin
    simp only [hread, findUnder, hfound, Except.map, Except.ok_bind, Bool.not_true]

include hm in
lemma hcHistoricalLookup_panicsForMemory {P : Primitives} {services : ServicesState}
    {serviceId timeslot : ℕ}
    (h : (B.access.layout s.memory).isReadable (s.registers.get 8) 32 = true ∨
      historicalAccount services serviceId (s.registers.get 7) ≠ .ok none) :
    PanicsForMemory s (historicalLookupCost s)
      ((B.access.layout s.memory).isReadable (s.registers.get 8) 32)
      (historicalFound P services serviceId timeslot s) (s.registers.get 9) (s.registers.get 10)
      (s.registers.get 11) (hcHistoricalLookup P services serviceId timeslot s) := by
  refine panicsForMemory_of_deliver hm fun data hdata gasLimit => ?_
  obtain ⟨target, htarget, hfound⟩ := Except.bind_eq_ok.mp hdata
  simp only [htarget, Except.ok_bind]
  cases hreadable : (B.access.layout s.memory).isReadable (s.registers.get 8) 32 with
  | false =>
    rw [hreadable] at hfound h
    cases hfound
    cases target with
    | none => exact absurd htarget (h.resolve_left (by decide))
    | some target => rfl
  | true =>
    rw [hreadable, if_pos rfl] at hfound
    cases target with
    | none =>
      cases hfound
      rfl
    | some target =>
      have hread := readBytes_of_readable hm hreadable (.inl (by decide))
      simp only [Option.isNone_some, Bool.false_eq_true, if_false, if_true, hread, findUnder, hfound,
        Except.map, Except.ok_bind, Bool.not_true]

/-- With such a key `hc_read` panics whenever it can pay. -/
lemma hcRead_of_readsNothing {s : CallInput B} {service : ServiceAccount} {serviceId : ℕ}
    {services : ServicesState} (h : ReadsNothing s) {data : Option Octets}
    (hdata : readFound service serviceId services s = .ok data) (hgas : readCost s ≤ s.gasLimit) :
    Panics (hcRead service serviceId services s) := by
  obtain ⟨target, htarget, -⟩ := Except.bind_eq_ok.mp hdata
  rw [hcRead, charged_of_le hgas]
  simp only [htarget, Except.ok_bind, Backend.readBytes_of_ge h.2, findUnder]
  exact deliver_panics_iff.mpr (.inl rfl)

/-- Without an account `hc_historical_lookup` answers that there is nothing. -/
lemma not_panics_hcHistoricalLookup {s : CallInput B} {P : Primitives} {services : ServicesState}
    {serviceId timeslot : ℕ} (hgas : historicalLookupCost s ≤ s.gasLimit)
    (h : historicalAccount services serviceId (s.registers.get 7) = .ok none) :
    ¬ Panics (hcHistoricalLookup P services serviceId timeslot s) := by
  rw [hcHistoricalLookup, charged_of_le hgas]
  simp only [h, Except.ok_bind, Option.isNone_none, if_true]
  rw [deliver_panics_iff]
  have hwindow : (window none (s.registers.get 10) (s.registers.get 11)).2 = 0 := by
    simp [window]
  rw [hwindow, Layout.isWritable, if_pos rfl]
  decide

include hm in
/-- `lookup` panics for memory reasons only.  `read` does unless the key is empty and lies behind the
end of the space, and `historical_lookup` does unless the hash is not readable and there is no
account. -/
theorem lookups_panicForMemory_iff (P : Primitives) (services : ServicesState)
    (service : ServiceAccount) (serviceId timeslot : ℕ) :
    PanicsForMemory s (lookupCost s)
        ((B.access.layout s.memory).isReadable (s.registers.get 8) 32)
        (lookupFound service serviceId services s) (s.registers.get 9) (s.registers.get 10)
        (s.registers.get 11) (hcLookup service serviceId services s) ∧
      (PanicsForMemory s (readCost s)
          ((B.access.layout s.memory).isReadable (s.registers.get 8) (s.registers.get 9))
          (readFound service serviceId services s) (s.registers.get 10) (s.registers.get 11)
          (s.registers.get 12) (hcRead service serviceId services s) ↔
        ¬ (readCost s ≤ s.gasLimit ∧ ReadsNothing s ∧
          ∃ data, readFound service serviceId services s = .ok data ∧
            (B.access.layout s.memory).isWritable (s.registers.get 10)
              (window data (s.registers.get 11) (s.registers.get 12)).2 = true)) ∧
      (PanicsForMemory s (historicalLookupCost s)
          ((B.access.layout s.memory).isReadable (s.registers.get 8) 32)
          (historicalFound P services serviceId timeslot s) (s.registers.get 9)
          (s.registers.get 10) (s.registers.get 11)
          (hcHistoricalLookup P services serviceId timeslot s) ↔
        ¬ (historicalLookupCost s ≤ s.gasLimit ∧
          (B.access.layout s.memory).isReadable (s.registers.get 8) 32 = false ∧
          historicalAccount services serviceId (s.registers.get 7) = .ok none)) := by
  refine ⟨hcLookup_panicsForMemory hm service serviceId services, ⟨?_, ?_⟩, ⟨?_, ?_⟩⟩
  · rintro h ⟨hgas, hnothing, data, hdata, hwritable⟩
    rcases ((h.panics data hdata).mp (hcRead_of_readsNothing hnothing hdata hgas)).2 with hread | hw
    · rw [hnothing.1, Layout.isReadable, if_pos rfl] at hread
      cases hread
    · rw [hwritable] at hw
      cases hw
  · intro h
    by_cases hgas : readCost s ≤ s.gasLimit
    · by_cases hnothing : ReadsNothing s
      · -- the call panics, and so it should: the window is not writable
        refine ⟨fun data hdata => ?_, fun data hdata out hout hexit => ?_⟩
        · refine iff_of_true (hcRead_of_readsNothing hnothing hdata hgas) ⟨hgas, .inr ?_⟩
          by_contra hwritable
          exact h ⟨hgas, hnothing, data, hdata, Bool.eq_true_of_not_eq_false hwritable⟩
        · obtain ⟨out', hout', hpanic⟩ := hcRead_of_readsNothing hnothing hdata hgas
          rw [hout] at hout'
          cases hout'
          exact absurd hpanic hexit
      · exact hcRead_panicsForMemory hm hnothing
    · exact panicsForMemory_of_lt (not_le.mp hgas) _ _ _ _ _ _
  · rintro h ⟨hgas, hunreadable, hnone⟩
    have hfound : historicalFound P services serviceId timeslot s = .ok none := by
      rw [historicalFound, hnone, Except.ok_bind, hunreadable]
      rfl
    exact not_panics_hcHistoricalLookup hgas hnone
      ((h.panics none hfound).mpr ⟨hgas, .inl hunreadable⟩)
  · intro h
    by_cases hgas : historicalLookupCost s ≤ s.gasLimit
    · refine hcHistoricalLookup_panicsForMemory hm ?_
      by_contra hneither
      rw [not_or, not_ne_iff, Bool.not_eq_true] at hneither
      exact h ⟨hgas, hneither⟩
    · exact panicsForMemory_of_lt (not_le.mp hgas) _ _ _ _ _ _

end Calls

/-! ## A pointer to nowhere -/

/-- A call for service 9 with all pointers at the address 0, which is not mapped. -/
def sampleLookup : CallInput .cpython where
  registers := fun r => if r = 7 then 9 else 0
  memory := CPython.Memory.empty
  gasLimit := 3000

lemma sampleLookup_memory : Backend.HasMemory .cpython sampleLookup.memory :=
  ⟨_, .fresh, rfl⟩

/-- `lookup` panics with this pointer. -/
theorem sampleLookup_panics :
    Panics (hcLookup sampleAccount 5 sampleServices sampleLookup) :=
  (((lookups_panicForMemory_iff sampleLookup_memory sampleEnvironment.primitives sampleServices
    sampleAccount 5 0).1.panics none rfl).mpr ⟨by decide, .inl (by decide)⟩)

/-- `historical_lookup` answers that there is no preimage, since there is no service 9. -/
theorem sampleLookup_answers :
    (CPython.access.layout sampleLookup.memory).isReadable (sampleLookup.registers.get 8) 32 = false ∧
      historicalAccount sampleServices 5 (sampleLookup.registers.get 7) = .ok none ∧
      (∃ out, hcHistoricalLookup sampleEnvironment.primitives sampleServices 5 0 sampleLookup =
        .ok out ∧ out.exitCondition = .resume ∧ out.registers 7 = 2 ^ 64 - 1) ∧
      ¬ PanicsForMemory sampleLookup (historicalLookupCost sampleLookup) false
        (historicalFound sampleEnvironment.primitives sampleServices 5 0 sampleLookup)
        (sampleLookup.registers.get 9) (sampleLookup.registers.get 10)
        (sampleLookup.registers.get 11)
        (hcHistoricalLookup sampleEnvironment.primitives sampleServices 5 0 sampleLookup) := by
  have hgas : historicalLookupCost sampleLookup ≤ sampleLookup.gasLimit := by decide +kernel
  refine ⟨by decide, rfl, ?_, ?_⟩
  · rw [hcHistoricalLookup, charged_of_le hgas]
    exact ⟨_, rfl, rfl, rfl⟩
  intro h
  exact not_panics_hcHistoricalLookup hgas rfl ((h.panics none rfl).mpr ⟨hgas, .inl rfl⟩)

end HostCalls
