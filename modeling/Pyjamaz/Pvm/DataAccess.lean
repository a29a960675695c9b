import Pyjamaz.Pvm.MemoryStates
import Pyjamaz.Pvm.Runs

/-!
# Machines with registers and memory

The loop is modelled over an arbitrary `DataPath`.  This file builds the data path of a machine that
has registers and one of the three memories: an instruction that moves no control computes new
registers, raises, loads or stores, and what it does with its operands is an arbitrary `Decode`.

Loads and stores are the only instructions that raise `PVMMemoryError`, and then `_mem_addr` is an
address of the space; so is the value of every page fault.
-/

namespace Pvm

/-! ## The memory of an interpreter -/

/-- What instructions and host calls do with a memory.  `catches` says whether the loop around the
instructions has a handler for every exception, not only for `PVMMemoryError`. -/
structure MemoryAccess (μ : Type) where
  catches : Bool
  layout : μ → Layout
  byte : μ → ℕ → UInt8
  readBytes : μ → ℕ → ℕ → Except AccessError Octets
  writeBytes : μ → ℕ → Octets → Except AccessError μ
  memRead : μ → ℕ → ℕ → Except AccessError ℕ
  memWrite : μ → ℕ → ℕ → ℕ → Except AccessError μ

/-- `mem_read_jit` and the check of its status. -/
def Numba.memRead (m : Numba.Memory) (addr n : ℕ) : Except AccessError ℕ :=
  let (status, value) := Numba.memReadJit m.mm (Numba.linkMemory m.toLayout) addr n
  if status = -2 then .error .panicError
  else if status ≠ 0 then .error (.memoryError value)
  else .ok value

/-- `mem_write_jit` and the check of its status. -/
def Numba.memWrite (m : Numba.Memory) (addr value n : ℕ) : Except AccessError Numba.Memory :=
  let (status, faultAddr, mm) :=
    Numba.memWriteJit m.mm (Numba.linkMemory m.toLayout) addr value n
  if status = -2 then .error .panicError
  else if status < 0 then .error (.memoryError faultAddr)
  else .ok { m with mm := mm }

def Graypaper.access : MemoryAccess Graypaper.Memory where
  catches := true
  layout := Graypaper.Memory.toLayout
  byte := Graypaper.Memory.byte
  readBytes := Graypaper.Memory.readBytes
  writeBytes := Graypaper.Memory.writeBytes
  memRead := Graypaper.Memory.memRead
  memWrite := Graypaper.Memory.memWrite

def CPython.access : MemoryAccess CPython.Memory where
  catches := true
  layout := CPython.Memory.toLayout
  byte := CPython.Memory.mm
  readBytes := CPython.Memory.readBytes
  writeBytes := CPython.Memory.writeBytes
  memRead := CPython.Memory.memRead
  memWrite := CPython.Memory.memWrite

/-- Numba's loads and stores go through sections; its host calls use CPython's memory as it is.
`invoke_native` handles no exception, so that a division by zero leaves `invoke`. -/
def Numba.access : MemoryAccess Numba.Memory :=
  { CPython.access with catches := false, memRead := Numba.memRead, memWrite := Numba.memWrite }

/-! ## What the accesses promise -/

/-- `is_accessible` in the mode `MEM_W`. -/
def Layout.isWritable (L : Layout) (address length : ℕ) : Bool :=
  if length = 0 then true
  else if memorySize < address + length then false
  else (List.range' (address / pvmPageSize) (Paged.pageCount pvmPageSize address length)).all
    (fun pg => pg ∈ L.pagesW)

/-- What holds of the accesses to a memory with a well-formed layout: a range that may be written can
be read and written, a store changes no permission, and the address of a fault lies in the space. -/
structure MemoryAccess.Lawful {μ : Type} (A : MemoryAccess μ) : Prop where
  readBytes : ∀ {m address length n}, (A.layout m).WellFormed → 0 < n → n ≤ length →
    (A.layout m).isWritable address length = true →
    A.readBytes m address n = .ok (Paged.read (A.byte m) address n)
  writeBytes : ∀ {m address content}, (A.layout m).WellFormed → content ≠ [] →
    (A.layout m).isWritable address content.length = true →
    ∃ m', A.writeBytes m address content = .ok m' ∧ A.layout m' = A.layout m ∧
      A.byte m' = Paged.write (A.byte m) address content
  memRead_fault : ∀ {m addr n a}, (A.layout m).WellFormed → n ∈ [1, 2, 4, 8] →
    A.memRead m addr n = .error (.memoryError a) → 0 ≤ a ∧ a < 2 ^ 32
  memWrite_fault : ∀ {m addr value n a}, (A.layout m).WellFormed → n ∈ [1, 2, 4, 8] →
    A.memWrite m addr value n = .error (.memoryError a) → 0 ≤ a ∧ a < 2 ^ 32
  memWrite_layout : ∀ {m addr value n m'}, (A.layout m).WellFormed → n ∈ [1, 2, 4, 8] →
    A.memWrite m addr value n = .ok m' → A.layout m' = A.layout m

lemma Layout.isWritable_iff {L : Layout} {address length : ℕ} (hlength : 0 < length) :
    L.isWritable address length = true ↔ address + length ≤ memorySize ∧
      Paged.firstDenied pvmPageSize (fun pg => pg ∈ L.pagesW) address length = none := by
  rw [← Paged.find?_pages pvmPageSize_pos length address hlength, Layout.isWritable,
    if_neg (by omega)]
  split
  · next hout =>
    simp only [Bool.false_eq_true, false_iff, not_and]
    omega
  · next hin => simp [not_lt.mp hin]

/-- What may be written may be read, in all its parts. -/
lemma Layout.WellFormed.readable {L : Layout} (hL : L.WellFormed) {address length n : ℕ}
    (h : L.isWritable address length = true) (hpos : 0 < n) (hn : n ≤ length) :
    address < memorySize ∧
      Paged.firstDenied pvmPageSize (fun pg => pg ∈ L.pagesR) address n = none := by
  obtain ⟨hspace, hwritable⟩ := (Layout.isWritable_iff (by omega)).mp h
  rw [Paged.firstDenied_eq_none] at hwritable ⊢
  refine ⟨by omega, fun i hi => ?_⟩
  exact decide_eq_true (hL.subset (of_decide_eq_true (hwritable i (by omega))))

/-- A page that refuses an access inside the space starts inside the space. -/
lemma denied_eq_memoryError {α : Type} {allowed : ℕ → Bool} {address n : ℕ} {value : α} {a : ℤ}
    (hspace : address + n ≤ 2 ^ 32)
    (h : Graypaper.denied (Paged.firstDenied pvmPageSize allowed address n) value =
      .error (.memoryError a)) : 0 ≤ a ∧ a < 2 ^ 32 := by
  cases hdenied : Paged.firstDenied pvmPageSize allowed address n with
  | none =>
    rw [hdenied] at h
    cases h
  | some pg =>
    rw [hdenied] at h
    cases h
    obtain ⟨-, i, hi, rfl⟩ := Paged.firstDenied_spec hdenied
    have hle := Nat.div_mul_le_self (address + i) pvmPageSize
    omega

lemma denied_eq_ok {α : Type} {pg : Option ℕ} {value value' : α}
    (h : Graypaper.denied pg value = .ok value') : value' = value := by
  cases pg <;> cases h
  rfl

/-- A guarded access that was refused by a page. -/
lemma guarded_eq_memoryError {α β : Type} {allowed : ℕ → Bool} {address n : ℕ}
    {access : Except AccessError α} {value : α} {f : α → Except AccessError β}
    (hf : ∀ x a, f x ≠ .error (.memoryError a))
    (haccess : access = Graypaper.denied (Paged.firstDenied pvmPageSize allowed address n) value)
    {a : ℤ} (h : (do
      guardAccess address n
      let x ← access
      f x) = .error (.memoryError a)) : 0 ≤ a ∧ a < 2 ^ 32 := by
  rw [guardAccess] at h
  split at h
  · cases h
  · next hguard =>
    simp only [memorySize, not_or, not_lt] at hguard
    cases hvalue : access with
    | ok x =>
      rw [hvalue] at h
      exact absurd h (hf x a)
    | error e =>
      rw [hvalue] at h
      cases h
      exact denied_eq_memoryError hguard.2 (haccess.symm.trans hvalue)

/-- A guarded store that was refused by a page. -/
lemma guarded_store_eq_memoryError {μ : Type} {allowed : ℕ → Bool} {address n : ℕ}
    {access : Except AccessError μ} {m' : μ}
    (haccess : access = Graypaper.denied (Paged.firstDenied pvmPageSize allowed address n) m')
    {a : ℤ} (h : (do guardAccess address n; access) = .error (.memoryError a)) :
    0 ≤ a ∧ a < 2 ^ 32 := by
  apply guarded_eq_memoryError (f := fun x => .ok x) (fun x a hx => by cases hx) haccess
  rw [← h]
  congr 1
  funext _
  cases access <;> rfl

lemma guarded_store_eq_ok {μ : Type} {address n : ℕ} {access : Except AccessError μ} {m' : μ}
    (h : (do guardAccess address n; access) = .ok m') : access = .ok m' := by
  obtain ⟨-, -, h⟩ := Except.bind_eq_ok.mp h
  exact h

lemma Graypaper.access_lawful : Graypaper.access.Lawful where
  readBytes := by
    intro m address length n hm hpos hn h
    obtain ⟨hspace, hreadable⟩ := hm.readable h hpos hn
    exact (m.readBytes_eq hspace hpos).trans (congrArg (fun pg => denied pg _) hreadable)
  writeBytes := by
    intro m address content hm hne h
    have hlength : 0 < content.length := List.length_pos_iff.mpr hne
    obtain ⟨hspace, hwritable⟩ := (Layout.isWritable_iff hlength).mp h
    have hfits : address < memorySize := by omega
    obtain ⟨m', hlayout, hbyte, hwrite⟩ := m.writeBytes_eq hfits hne
    exact ⟨m', hwrite.trans (congrArg (fun pg => denied pg _) hwritable), hlayout, hbyte⟩
  memRead_fault := by
    intro m addr n a hm hn h
    exact guarded_eq_memoryError (fun x a hx => by cases hx)
      (m.readBytes_eq (mod_lt_memorySize addr) (pos_of_width hn)) h
  memWrite_fault := by
    intro m addr value n a hm hn h
    obtain ⟨m', -, -, hwrite⟩ := m.writeBytes_eq (mod_lt_memorySize addr)
      (littleEndian_ne_nil (pos_of_width hn) (value % 2 ^ (8 * n)))
    rw [Octets.length_littleEndian] at hwrite
    exact guarded_store_eq_memoryError hwrite h
  memWrite_layout := by
    intro m addr value n m' hm hn h
    obtain ⟨m'', hlayout, -, hwrite⟩ := m.writeBytes_eq (mod_lt_memorySize addr)
      (littleEndian_ne_nil (pos_of_width hn) (value % 2 ^ (8 * n)))
    rw [denied_eq_ok (hwrite.symm.trans (guarded_store_eq_ok h))]
    exact hlayout

lemma CPython.access_lawful : CPython.access.Lawful where
  readBytes := by
    intro m address length n hm hpos hn h
    obtain ⟨hspace, hreadable⟩ := hm.readable h hpos hn
    have hread := m.readBytes_eq hspace hpos
    rw [inPages_eq (show ∀ pg ∈ m.pagesR, _ from hm.bound)] at hread
    exact hread.trans (congrArg (fun pg => Graypaper.denied pg _) hreadable)
  writeBytes := by
    intro m address content hm hne h
    have hlength : 0 < content.length := List.length_pos_iff.mpr hne
    obtain ⟨hspace, hwritable⟩ := (Layout.isWritable_iff hlength).mp h
    have hfits : address < memorySize := by omega
    have hwrite := m.writeBytes_eq hfits hne
    rw [inPages_eq (show ∀ pg ∈ m.pagesW, _ from fun pg hpg => hm.bound pg (hm.subset hpg))] at hwrite
    exact ⟨_, hwrite.trans (congrArg (fun pg => Graypaper.denied pg _) hwritable), rfl, rfl⟩
  memRead_fault := by
    intro m addr n a hm hn h
    exact guarded_eq_memoryError (fun x a hx => by cases hx)
      (m.readBytes_eq (mod_lt_memorySize addr) (pos_of_width hn)) h
  memWrite_fault := by
    intro m addr value n a hm hn h
    have hwrite := m.writeBytes_eq (mod_lt_memorySize addr)
      (littleEndian_ne_nil (pos_of_width hn) (value % 2 ^ (8 * n)))
    rw [Octets.length_littleEndian] at hwrite
    exact guarded_store_eq_memoryError hwrite h
  memWrite_layout := by
    intro m addr value n m' hm hn h
    have hwrite := m.writeBytes_eq (mod_lt_memorySize addr)
      (littleEndian_ne_nil (pos_of_width hn) (value % 2 ^ (8 * n)))
    rw [denied_eq_ok (hwrite.symm.trans (guarded_store_eq_ok h))]
    rfl

lemma Numba.memRead_fault {m : Numba.Memory} (hm : m.toLayout.WellFormed) {addr n : ℕ} {a : ℤ}
    (hn : n ∈ [1, 2, 4, 8]) (h : Numba.memRead m addr n = .error (.memoryError a)) :
    0 ≤ a ∧ a < 2 ^ 32 := by
  rw [Numba.memRead, Numba.memReadJit_eq m.mm hm addr hn (pos_of_width hn)] at h
  by_cases hguard : addr % 2 ^ 32 < 65536 ∨ 2 ^ 32 < addr % 2 ^ 32 + n
  · simp only [if_pos hguard] at h
    cases h
  · simp only [if_neg hguard] at h
    have hspace : addr % 2 ^ 32 + n ≤ 2 ^ 32 := by omega
    refine @denied_eq_memoryError Unit (fun pg => decide (pg ∈ m.pagesR)) _ _ () _ hspace ?_
    cases hdenied : Paged.firstDenied pvmPageSize (fun pg => decide (pg ∈ m.pagesR))
        (addr % 2 ^ 32) n with
    | none =>
      rw [hdenied] at h
      cases h
    | some pg =>
      rw [hdenied] at h
      cases h
      rfl

lemma Numba.memWrite_eq {m : Numba.Memory} (hm : m.toLayout.WellFormed) {addr value n : ℕ}
    (hn : n ∈ [1, 2, 4, 8]) :
    Numba.memWrite m addr value n =
      if addr % 2 ^ 32 < 65536 ∨ 2 ^ 32 < addr % 2 ^ 32 + n then .error .panicError
      else Graypaper.denied
        (Paged.firstDenied pvmPageSize (fun pg => pg ∈ m.pagesW) (addr % 2 ^ 32) n)
        { m with mm := Paged.write m.mm (addr % 2 ^ 32) (Octets.littleEndian n value) } := by
  rw [Numba.memWrite, Numba.memWriteJit_eq m.mm hm addr value (pos_of_width hn)]
  by_cases hguard : addr % 2 ^ 32 < 65536 ∨ 2 ^ 32 < addr % 2 ^ 32 + n
  · simp only [if_pos hguard]
    rfl
  · simp only [if_neg hguard]
    cases Paged.firstDenied pvmPageSize (fun pg => decide (pg ∈ m.pagesW)) (addr % 2 ^ 32) n <;> rfl

lemma Numba.access_lawful : Numba.access.Lawful where
  readBytes := CPython.access_lawful.readBytes
  writeBytes := CPython.access_lawful.writeBytes
  memRead_fault := fun hm hn h => Numba.memRead_fault hm hn h
  memWrite_fault := by
    intro m addr value n a hm hn h
    have hwrite := (Numba.memWrite_eq hm hn).symm.trans h
    split at hwrite
    · cases hwrite
    · exact denied_eq_memoryError (by omega) hwrite
  memWrite_layout := by
    intro m addr value n m' hm hn h
    have hwrite := (Numba.memWrite_eq hm hn).symm.trans h
    split at hwrite
    · cases hwrite
    · rw [denied_eq_ok hwrite]
      rfl

/-! ## The three memories -/

/-- The memory of an interpreter. -/
def Backend.Memory : Backend → Type
  | .graypaper => Graypaper.Memory
  | .cpython => CPython.Memory
  | .numba _ => Numba.Memory

def Backend.access : (B : Backend) → MemoryAccess B.Memory
  | .graypaper => Graypaper.access
  | .cpython => CPython.access
  | .numba _ => Numba.access

lemma Backend.access_lawful (B : Backend) : B.access.Lawful := by
  cases B with
  | graypaper => exact Graypaper.access_lawful
  | cpython => exact CPython.access_lawful
  | numba _ => exact Numba.access_lawful

/-- The memory that an interpreter has after a history. -/
def Backend.memoryOf : (B : Backend) → Memories → B.Memory
  | .graypaper, M => M.graypaper
  | .cpython, M => M.cpython
  | .numba _, M => M.numba

/-- The memory is one that a machine can have. -/
def Backend.HasMemory (B : Backend) (m : B.Memory) : Prop :=
  ∃ M : Memories, M.Reachable ∧ B.memoryOf M = m

lemma Backend.HasMemory.wellFormed {B : Backend} {m : B.Memory} (h : B.HasMemory m) :
    (B.access.layout m).WellFormed := by
  obtain ⟨M, hM, rfl⟩ := h
  have hagree := hM.agree
  cases B with
  | graypaper =>
    change M.graypaper.toLayout.WellFormed
    rw [hagree.graypaper.layout]
    exact hagree.wellFormed
  | cpython => exact hagree.wellFormed
  | numba _ =>
    change M.numba.toLayout.WellFormed
    rw [hagree.numba]
    exact hagree.wellFormed

/-! ## Reading a range -/

lemma Layout.isReadable_iff {L : Layout} {address length : ℕ} (hlength : 0 < length) :
    L.isReadable address length = true ↔ address + length ≤ memorySize ∧
      Paged.firstDenied pvmPageSize (fun pg => pg ∈ L.pagesR) address length = none := by
  rw [← Paged.find?_pages pvmPageSize_pos length address hlength, Layout.isReadable,
    if_neg (by omega)]
  split
  · next hout =>
    simp only [Bool.false_eq_true, false_iff, not_and]
    omega
  · next hin => simp [not_lt.mp hin]

/-- `read_bytes` raises at the lowest page that is not readable. -/
lemma Backend.readBytes_eq {B : Backend} {m : B.Memory} (hm : B.HasMemory m) {address length : ℕ}
    (h : address < memorySize) (hlength : 0 < length) :
    B.access.readBytes m address length =
      Graypaper.denied
        (Paged.firstDenied pvmPageSize (fun pg => pg ∈ (B.access.layout m).pagesR) address length)
        (Paged.read (B.access.byte m) address length) := by
  have hbound := hm.wellFormed.bound
  cases B with
  | graypaper => exact Graypaper.Memory.readBytes_eq m h hlength
  | cpython | numba _ =>
    have hread := CPython.Memory.readBytes_eq m h hlength
    rw [CPython.inPages_eq (show ∀ pg ∈ m.pagesR, _ from hbound)] at hread
    exact hread

/-- Behind the end of the space nothing can be read, not even nothing. -/
lemma Backend.readBytes_of_ge {B : Backend} {m : B.Memory} {address : ℕ}
    (h : memorySize ≤ address) (length : ℕ) :
    B.access.readBytes m address length = .error (.memoryError address) := by
  cases B <;> exact if_pos h

lemma Backend.readBytes_zero {B : Backend} {m : B.Memory} {address : ℕ}
    (h : address < memorySize) : B.access.readBytes m address 0 = .ok [] := by
  cases B <;> exact (if_neg (not_le.mpr h)).trans (if_pos rfl)

/-- What was read are the bytes of the range. -/
lemma Backend.readBytes_eq_ok {B : Backend} {m : B.Memory} {address length : ℕ} {data : Octets}
    (hlength : 0 < length) (h : B.access.readBytes m address length = .ok data) :
    data = Paged.read (B.access.byte m) address length := by
  have haddress : address < memorySize := by
    by_contra hle
    rw [Backend.readBytes_of_ge (not_lt.mp hle)] at h
    cases h
  cases B with
  | graypaper =>
    exact denied_eq_ok ((Graypaper.Memory.readBytes_eq m haddress hlength).symm.trans h)
  | cpython | numba _ =>
    exact denied_eq_ok ((CPython.Memory.readBytes_eq m haddress hlength).symm.trans h)

/-- A range of pages that are all readable ends inside the space. -/
lemma Layout.WellFormed.fits {L : Layout} (hL : L.WellFormed) {address length : ℕ}
    (hlength : 0 < length)
    (h : Paged.firstDenied pvmPageSize (fun pg => pg ∈ L.pagesR) address length = none) :
    address + length ≤ memorySize := by
  have hlast := of_decide_eq_true (Paged.firstDenied_eq_none.mp h (length - 1) (by omega))
  have hlt := hL.bound _ hlast
  simp only [memorySize, pvmPageSize] at hlt ⊢
  omega

/-! ## Registers and memory as a data path -/

/-- The registers and the memory of a machine. -/
structure MachineData (μ : Type) where
  reg : Regs
  mem : μ

/-- What an instruction that moves no control asks for.  A load goes on with the value; the widths
are those of the load and store instructions. -/
inductive DataOp where
  | write (reg : Regs)
  | raise
  | load (addr : ℕ) (n : ℕ) (hn : n ∈ [1, 2, 4, 8]) (reg : ℕ → Regs)
  | store (addr value : ℕ) (n : ℕ) (hn : n ∈ [1, 2, 4, 8])

/-- What the instructions of a program do with their operands. -/
def Decode : Type := Opcode → ℕ → ℕ → Regs → DataOp

/-- The registers and memory that an instruction leaves, however it ends. -/
def DataResult.data {σ : Type*} : DataResult σ → σ
  | .ok data => data
  | .memoryError _ data => data
  | .panicError data => data
  | .raised data => data

/-- `_mem_addr` of a memory error; the other refusal of an access panics. -/
def DataResult.ofError {σ : Type*} (data : σ) : AccessError → DataResult σ
  | .panicError => .panicError data
  | .memoryError memAddr => .memoryError (some memAddr) data

lemma DataResult.data_ofError {σ : Type*} (data : σ) (e : AccessError) :
    (DataResult.ofError data e).data = data := by
  cases e <;> rfl

/-- The registers after a write: a word of 64 bits takes the place of the old one. -/
def Regs.set (reg : Regs) (w : Write) : Regs :=
  fun r => if r = w.reg then BitVec.ofInt 64 w.value else reg r

section Machine

variable {μ : Type} (A : MemoryAccess μ)

/-- How an instruction ends that raises: the handler of the loop panics, where there is one. -/
def MemoryAccess.raise (data : MachineData μ) : DataResult (MachineData μ) :=
  if A.catches then .panicError data else .raised data

/-- What an instruction that moves no control does. -/
def MemoryAccess.perform (data : MachineData μ) : DataOp → DataResult (MachineData μ)
  | .write reg => .ok { data with reg := reg }
  | .raise => A.raise data
  | .load addr n _ reg =>
    match A.memRead data.mem addr n with
    | .ok value => .ok { data with reg := reg value }
    | .error e => .ofError data e
  | .store addr value n _ =>
    match A.memWrite data.mem addr value n with
    | .ok mem => .ok { data with mem := mem }
    | .error e => .ofError data e

/-- The data path of a machine whose instructions are decoded so. -/
def MemoryAccess.dataPath (decode : Decode) : DataPath (MachineData μ) where
  regs data := data.reg
  setReg data w := { data with reg := data.reg.set w }
  run opcode pc argLen data := A.perform data (decode opcode pc argLen data.reg)

variable {A}

@[simp] lemma MemoryAccess.data_raise (data : MachineData μ) : (A.raise data).data = data := by
  rw [MemoryAccess.raise]
  split <;> rfl

/-- Nothing that an instruction does touches the permissions. -/
lemma MemoryAccess.Lawful.layout_perform (hA : A.Lawful) {data : MachineData μ}
    (hdata : (A.layout data.mem).WellFormed) (op : DataOp) :
    A.layout (A.perform data op).data.mem = A.layout data.mem := by
  cases op with
  | write reg => rfl
  | raise => rw [MemoryAccess.perform, MemoryAccess.data_raise]
  | load addr n hn reg =>
    rw [MemoryAccess.perform]
    cases A.memRead data.mem addr n with
    | ok value => rfl
    | error e => rw [DataResult.data_ofError]
  | store addr value n hn =>
    rw [MemoryAccess.perform]
    cases hwrite : A.memWrite data.mem addr value n with
    | ok mem => exact hA.memWrite_layout hdata hn hwrite
    | error e => rw [DataResult.data_ofError]

lemma MemoryAccess.Lawful.keeps (hA : A.Lawful) (decode : Decode) :
    (A.dataPath decode).Keeps (fun data => (A.layout data.mem).WellFormed) := by
  have hrun : ∀ opcode pc argLen data, (A.layout data.mem).WellFormed →
      (A.layout ((A.dataPath decode).run opcode pc argLen data).data.mem).WellFormed := by
    intro opcode pc argLen data hdata
    rw [MemoryAccess.dataPath, hA.layout_perform hdata]
    exact hdata
  refine ⟨fun data w hdata => hdata, ?_, ?_, ?_, ?_⟩
  · intro opcode pc argLen data data' hdata h
    simpa only [h, DataResult.data] using hrun opcode pc argLen data hdata
  · intro opcode pc argLen data addr data' hdata h
    simpa only [h, DataResult.data] using hrun opcode pc argLen data hdata
  · intro opcode pc argLen data data' hdata h
    simpa only [h, DataResult.data] using hrun opcode pc argLen data hdata
  · intro opcode pc argLen data data' hdata h
    simpa only [h, DataResult.data] using hrun opcode pc argLen data hdata

/-- Where the loop has a handler for it, no exception of an instruction leaves `invoke`. -/
lemma MemoryAccess.perform_ne_raised (hA : A.catches = true) (data data' : MachineData μ)
    (op : DataOp) : A.perform data op ≠ .raised data' := by
  cases op with
  | write reg => exact nofun
  | raise =>
    rw [MemoryAccess.perform, MemoryAccess.raise, if_pos hA]
    exact nofun
  | load addr n hn reg =>
    rw [MemoryAccess.perform]
    rcases A.memRead data.mem addr n with (_ | a) | value <;> exact nofun
  | store addr value n hn =>
    rw [MemoryAccess.perform]
    rcases A.memWrite data.mem addr value n with (_ | a) | mem <;> exact nofun

lemma MemoryAccess.catches_dataPath (hA : A.catches = true) (decode : Decode) :
    (A.dataPath decode).Catches :=
  fun _ _ _ data data' => A.perform_ne_raised hA data data' _

/-- The address of a memory error lies in the space. -/
lemma MemoryAccess.Lawful.perform_fault (hA : A.Lawful) {data data' : MachineData μ} {op : DataOp}
    {addr : Option ℤ} (hdata : (A.layout data.mem).WellFormed)
    (h : A.perform data op = .memoryError addr data') :
    ∃ a, addr = some a ∧ 0 ≤ a ∧ a < 2 ^ 32 := by
  cases op with
  | write reg => cases h
  | raise =>
    rw [MemoryAccess.perform, MemoryAccess.raise] at h
    split at h <;> cases h
  | load addr n hn reg =>
    rw [MemoryAccess.perform] at h
    cases hread : A.memRead data.mem addr n with
    | ok value =>
      rw [hread] at h
      cases h
    | error e =>
      rw [hread] at h
      cases e <;> cases h
      exact ⟨_, rfl, hA.memRead_fault hdata hn hread⟩
  | store addr value n hn =>
    rw [MemoryAccess.perform] at h
    cases hwrite : A.memWrite data.mem addr value n with
    | ok mem =>
      rw [hwrite] at h
      cases h
    | error e =>
      rw [hwrite] at h
      cases e <;> cases h
      exact ⟨_, rfl, hA.memWrite_fault hdata hn hwrite⟩

end Machine

end Pvm
