import Pyjamaz.Pvm.RegisterSets

/-!
# One program on three interpreters

The Graypaper interpreter follows the specification; the other two are there to be fast.  From the same
registers and the same memory, with the same gas, all three should execute the same instructions and
stop at the same place for the same reason.

They do as long as no instruction is executed on which one of them is known to differ, which is what
`Backend.Follows` asks.  An instruction is compared by its scheme: the helpers of the three interpreters
mean the same (`Dialect.Plain`), and so do the accesses to their memories (`MemoryAccess.Plain`).  A
round adds the fetch and the charge, and an invocation is compared by induction on its rounds.
-/

namespace Pvm

open TwosComplement

/-! ## The helpers -/

/-- Helpers that mean what those of the specification mean. -/
structure Dialect.Plain (d : Dialect) : Prop where
  readWord : d.readWord = Graypaper.readWord
  immediate : ∀ code addr {l}, l ≤ 4 → d.immediate code addr l = .ok (Pvm.immediate code addr l)
  extend : ∀ {v n}, n ∈ [1, 2, 4] → v < 2 ^ (8 * n) → d.extend v n = .ok (signExtend (8 * n) v)
  extendInd : ∀ {v n}, n ∈ [1, 2, 4] → v < 2 ^ (8 * n) → d.extendInd v n = signExtend (8 * n) v
  address : ∀ a, d.address a % 2 ^ 32 = a % 2 ^ 32
  setReg : ∀ {w}, Fits (.ok w) → d.setReg w = .ok w

lemma CPython.readWord_eq : CPython.readWord = Graypaper.readWord := by
  funext code addr
  simp only [CPython.readWord, Graypaper.readWord, List.range_succ, List.range_zero, List.nil_append,
    List.cons_append, List.map_cons, List.map_nil, List.sum_cons, List.sum_nil, Nat.shiftLeft_eq,
    add_zero]
  omega

lemma Numba.readWord_eq : Numba.readWord = Graypaper.readWord := by
  funext code addr
  have hbyte := fun i => byteAt_lt code (addr + i)
  have h0 := byteAt_lt code addr
  have h1 := hbyte 1
  have h2 := hbyte 2
  have h3 := hbyte 3
  have h4 := hbyte 4
  have h5 := hbyte 5
  have h6 := hbyte 6
  simp only [Numba.readWord, Graypaper.readWord]
  rw [lor_shiftLeft _ h0, lor_shiftLeft (k := 16) _ (by omega), lor_shiftLeft (k := 24) _ (by omega),
    lor_shiftLeft (k := 32) _ (by omega), lor_shiftLeft (k := 40) _ (by omega),
    lor_shiftLeft (k := 48) _ (by omega), lor_shiftLeft (k := 56) _ (by omega)]
  simp only [Nat.shiftLeft_eq]
  omega

lemma Graypaper.readWord_lt (code : List UInt8) (addr : ℕ) : Graypaper.readWord code addr < 2 ^ 64 := by
  have hbyte := fun i => byteAt_lt code (addr + i)
  have h0 := byteAt_lt code addr
  have h1 := hbyte 1
  have h2 := hbyte 2
  have h3 := hbyte 3
  have h4 := hbyte 4
  have h5 := hbyte 5
  have h6 := hbyte 6
  have h7 := hbyte 7
  simp only [Graypaper.readWord, Nat.shiftLeft_eq]
  omega

/-- The widths of the loads that extend a sign. -/
lemma width_bounds {n : ℕ} (hn : n ∈ [1, 2, 4]) : 1 ≤ n ∧ n ≤ 7 := by
  simp only [List.mem_cons, List.not_mem_nil, or_false] at hn
  omega

lemma Graypaper.dialect_plain : Graypaper.dialect.Plain where
  readWord := rfl
  immediate code addr _ hl := Graypaper.pvmX_readUint code addr hl
  extend hn hv := by
    obtain ⟨hone, hseven⟩ := width_bounds hn
    exact Graypaper.pvmX_eq hone (by omega) hv
  extendInd hn hv := by
    obtain ⟨hone, hseven⟩ := width_bounds hn
    change Graypaper.pvmZInv (Graypaper.pvmZ _ _) 8 = _
    rw [Graypaper.pvmZInv_eq, Graypaper.pvmZ_eq, unsigned_signed_eq_signExtend (by omega) hv]
  address := address_mod
  setReg h := h.setReg

lemma CPython.pvmX_of_lt {v n : ℕ} (hn : n ∈ [1, 2, 4]) (hv : v < 2 ^ (8 * n)) :
    CPython.pvmX v n = signExtend (8 * n) v := by
  obtain ⟨hone, hseven⟩ := width_bounds hn
  rw [CPython.pvmX_eq hone hseven, Nat.mod_eq_of_lt hv]

lemma CPython.dialect_plain : CPython.dialect.Plain where
  readWord := CPython.readWord_eq
  immediate code addr _ hl := congrArg Except.ok (CPython.readImmediate_eq code addr hl)
  extend hn hv := congrArg Except.ok (CPython.pvmX_of_lt hn hv)
  extendInd hn hv := by
    obtain ⟨hone, hseven⟩ := width_bounds hn
    change CPython.pvmZInv (CPython.pvmZ _ _) 8 = _
    rw [CPython.pvmZInv_eq, CPython.pvmZ_eq (by omega), Nat.mod_eq_of_lt hv,
      unsigned_signed_eq_signExtend (by omega) hv]
  address a := Nat.mod_mod a _
  setReg _ := rfl

lemma Numba.dialect_plain (t : ShiftTarget) (junk : BitVec 64) : (Numba.dialect t junk).Plain where
  readWord := Numba.readWord_eq
  immediate code addr _ hl := congrArg Except.ok (Numba.readImmediate_eq code addr hl)
  extend hn hv := congrArg Except.ok (CPython.pvmX_of_lt hn hv)
  extendInd hn hv := by
    obtain ⟨hone, hseven⟩ := width_bounds hn
    change Numba.pvmZInv (Numba.pvmZ _ _) 8 = _
    rw [Numba.pvmZInv_eight, Numba.pvmZ_eq hone hseven, Nat.mod_eq_of_lt hv,
      unsigned_signed_eq_signExtend (by omega) hv]
  address := address_mod
  setReg _ := rfl

lemma Backend.dialect_plain (B : Backend) (t : ShiftTarget) (junk : BitVec 64) :
    (B.dialect t junk).Plain := by
  cases B with
  | graypaper => exact Graypaper.dialect_plain
  | cpython => exact CPython.dialect_plain
  | numba nativeGasCost => exact Numba.dialect_plain t junk

/-! ## What an instruction asks for -/

/-- Two interpreters ask for the same: for the same write, for a load at the same address of the space
after which they write the same, or for the same store. -/
inductive DataStep.Alike : DataStep → DataStep → Prop
  | register (w : Option Write) : Alike (.register (.ok w)) (.register (.ok w))
  | load {addr addr' : ℕ} {w : Width} {loaded loaded' : ℕ → Outcome}
      (haddr : addr % 2 ^ 32 = addr' % 2 ^ 32)
      (hloaded : ∀ v < 2 ^ (8 * w.bytes), ∃ write, loaded v = .ok write ∧ loaded' v = .ok write) :
      Alike (.load addr w loaded) (.load addr' w loaded')
  | store {addr addr' : ℕ} (value : ℕ) (w : Width) (haddr : addr % 2 ^ 32 = addr' % 2 ^ 32) :
      Alike (.store addr value w) (.store addr' value w)

/-- An interpreter computes what the Graypaper interpreter computes for a register instruction. -/
def Dialect.Computes (d : Dialect) (p : PVMCode) (pc argLen : ℕ) (reg : Regs) : Opcode → Prop
  | .regReg o =>
    let w := reg.get (fetchRegs p.code pc).high
    d.regRegValue o w = .ok (some (Graypaper.regRegValue o w))
  | .regRegImm o =>
    let w := reg.get (fetchRegs p.code pc).high
    let v_x := Pvm.immediate p.code (pc + 2) (immWidth argLen)
    d.regRegImmValue o w v_x = Graypaper.regRegImmValue o w v_x
  | .regRegReg o =>
    let r := fetchRegs p.code pc
    d.regRegRegValue o (reg.get r.low) (reg.get r.high) =
      Graypaper.regRegRegValue o (reg.get r.low) (reg.get r.high)
  | _ => True

lemma Width.two_pow_le (w : Width) : 2 ^ (8 * w.bytes) ≤ 2 ^ 64 := by
  cases w <;> decide

section Dialects

variable {d d' : Dialect}

/-- A value that fits is written to a register by either interpreter. -/
lemma Dialect.Plain.assign_alike (hd : d.Plain) (hd' : d'.Plain) (r : Fin 13) {v : Value}
    (hv : Fits v) : ∃ w, d.assign r v = .ok w ∧ d'.assign r v = .ok w := by
  rcases v with e | _ | x
  · exact absurd hv id
  · have hset := hd.setReg (w := none) trivial
    have hset' := hd'.setReg (w := none) trivial
    refine ⟨none, ?_, ?_⟩
    · rw [Dialect.assign, Except.ok_bind, hset]
      rfl
    · rw [Dialect.assign, Except.ok_bind, hset']
      rfl
  · have hset := hd.setReg hv
    have hset' := hd'.setReg hv
    refine ⟨some ⟨r, x⟩, ?_, ?_⟩
    · rw [Dialect.assign, Except.ok_bind, hset]
      rfl
    · rw [Dialect.assign, Except.ok_bind, hset']
      rfl

lemma Dialect.Plain.register_alike (hd : d.Plain) (hd' : d'.Plain) (r : Fin 13) {v : Value}
    (hv : Fits v) : DataStep.Alike (.register (d.assign r v)) (.register (d'.assign r v)) := by
  obtain ⟨w, hw, hw'⟩ := hd.assign_alike hd' r hv
  rw [hw, hw']
  exact .register w

/-- A load whose two extensions are the same, or a store. -/
lemma Dialect.Plain.atAddress_alike (hd : d.Plain) (hd' : d'.Plain) {addr addr' : ℕ} (value : ℕ)
    (dest : Fin 13) {extended extended' : ℕ → ℕ → Except Fault ℕ} {access : Access}
    (haddr : addr % 2 ^ 32 = addr' % 2 ^ 32)
    (hextended : ∀ w, access = .load w true → ∀ v < 2 ^ (8 * w.bytes),
      ∃ x < 2 ^ 64, extended v w.bytes = .ok x ∧ extended' v w.bytes = .ok x) :
    DataStep.Alike (d.atAddress addr value dest extended access)
      (d'.atAddress addr' value dest extended' access) := by
  cases access with
  | store w => exact .store _ w haddr
  | load w isSigned =>
    refine .load haddr fun v hv => ?_
    cases isSigned with
    | false => exact hd.assign_alike hd' dest (fits_natCast (lt_of_lt_of_le hv w.two_pow_le))
    | true =>
      obtain ⟨x, hx, hsame, hsame'⟩ := hextended w rfl v hv
      simp only [if_true, hsame, hsame']
      exact hd.assign_alike hd' dest (fits_natCast hx)

lemma DataStep.withImmediate_ok {e : Except Fault ℕ} {v : ℕ} (h : e = .ok v) (k : ℕ → DataStep) :
    DataStep.withImmediate e k = k v := by
  rw [h]
  rfl

lemma RegImmOp.width_of_signed {o : RegImmOp} {w : Width} (h : o.access = some (.load w true)) :
    w.bytes ∈ [1, 2, 4] := by
  cases o <;> cases h <;> decide

lemma RegRegMemOp.width_of_signed {o : RegRegMemOp} {w : Width} (h : o.access = .load w true) :
    w.bytes ∈ [1, 2, 4] := by
  cases o <;> cases h <;> decide

/-- An instruction asks for the same in two interpreters that compute the same. -/
lemma Dialect.Plain.dataStep_alike (hd : d.Plain) (hd' : d'.Plain) {p : PVMCode} {pc argLen : ℕ}
    {reg : Regs} {opcode : Opcode} (h : d.Computes p pc argLen reg opcode)
    (h' : d'.Computes p pc argLen reg opcode) :
    DataStep.Alike (d.dataStep p.code pc argLen reg opcode)
      (d'.dataStep p.code pc argLen reg opcode) := by
  have himm := fun addr {l : ℕ} (hl : l ≤ 4) => hd.immediate p.code addr hl
  have himm' := fun addr {l : ℕ} (hl : l ≤ 4) => hd'.immediate p.code addr hl
  have hx := immWidth_le argLen
  have hlow := reg.get_lt (fetchRegs p.code pc).low
  have hhigh := reg.get_lt (fetchRegs p.code pc).high
  cases opcode with
  | noArg o => exact .register none
  | ecalli => exact .register none
  | jump => exact .register none
  | regImmOffset o => exact .register none
  | regRegOffset o => exact .register none
  | loadImmJumpInd => exact .register none
  | loadImm64 =>
    simp only [Dialect.dataStep, hd.readWord, hd'.readWord]
    exact hd.register_alike hd' _ (fits_natCast (Graypaper.readWord_lt _ _))
  | immImm o =>
    have hy : min 4 (argLen - min 4 (byteAt p.code (pc + 1) % 8) - 1) ≤ 4 := min_le_left _ _
    have hz : min 4 (byteAt p.code (pc + 1) % 8) ≤ 4 := min_le_left _ _
    simp only [Dialect.dataStep, DataStep.withImmediate_ok (himm _ hz),
      DataStep.withImmediate_ok (himm' _ hz), DataStep.withImmediate_ok (himm _ hy),
      DataStep.withImmediate_ok (himm' _ hy)]
    exact .store _ _ rfl
  | regImm o =>
    simp only [Dialect.dataStep, DataStep.withImmediate_ok (himm _ hx),
      DataStep.withImmediate_ok (himm' _ hx)]
    cases haccess : o.access with
    | none => exact hd.register_alike hd' _ (fits_natCast (immediate_lt _ _ hx))
    | some access =>
      refine hd.atAddress_alike hd' _ _ rfl fun w hw v hv => ?_
      have hwidth := RegImmOp.width_of_signed (haccess.trans (congrArg some hw))
      exact ⟨_, signExtend_lt (by have := width_bounds hwidth; omega) hv, hd.extend hwidth hv,
        hd'.extend hwidth hv⟩
  | regImmImm o =>
    have hz := branchImmWidth_le p.code pc
    have hy := branchImmOffsetWidth_le p.code pc argLen
    simp only [Dialect.dataStep, DataStep.withImmediate_ok (himm _ hz),
      DataStep.withImmediate_ok (himm' _ hz), DataStep.withImmediate_ok (himm _ hy),
      DataStep.withImmediate_ok (himm' _ hy)]
    exact .store _ _ ((hd.address _).trans (hd'.address _).symm)
  | regRegMem o =>
    simp only [Dialect.dataStep, DataStep.withImmediate_ok (himm _ hx),
      DataStep.withImmediate_ok (himm' _ hx)]
    refine hd.atAddress_alike hd' _ _ ((hd.address _).trans (hd'.address _).symm)
      fun w hw v hv => ?_
    have hwidth := RegRegMemOp.width_of_signed hw
    exact ⟨_, signExtend_lt (by have := width_bounds hwidth; omega) hv,
      congrArg Except.ok (hd.extendInd hwidth hv), congrArg Except.ok (hd'.extendInd hwidth hv)⟩
  | regReg o =>
    simp only [Dialect.Computes] at h h'
    simp only [Dialect.dataStep, h, h']
    exact hd.register_alike hd' _ (Graypaper.regRegValue_fits o hhigh)
  | regRegImm o =>
    simp only [Dialect.Computes] at h h'
    simp only [Dialect.dataStep, DataStep.withImmediate_ok (himm _ hx),
      DataStep.withImmediate_ok (himm' _ hx), h, h']
    exact hd.register_alike hd' _ (Graypaper.regRegImmValue_fits o hhigh (immediate_lt _ _ hx))
  | regRegReg o =>
    simp only [Dialect.Computes] at h h'
    simp only [Dialect.dataStep, h, h']
    exact hd.register_alike hd' _ (Graypaper.regRegRegValue_fits o hlow hhigh)

end Dialects

/-! ## What the memories answer -/

/-- Accesses that depend on the permissions and the bytes only. -/
structure MemoryAccess.Plain {μ : Type} (A : MemoryAccess μ) : Prop where
  memRead : ∀ {m} (addr) {n}, (A.layout m).WellFormed → n ∈ [1, 2, 4, 8] →
    (A.memRead m addr n).mapError AccessError.exit = expectedLoad (A.layout m) (A.byte m) addr n
  memWrite : ∀ {m} (addr value) {n}, (A.layout m).WellFormed → n ∈ [1, 2, 4, 8] →
    ∃ m', afterStore m (A.memWrite m addr value n) =
        ((expectedStore (A.layout m) (A.byte m) addr value n).1, m') ∧
      A.layout m' = A.layout m ∧
      A.byte m' = (expectedStore (A.layout m) (A.byte m) addr value n).2

lemma Graypaper.access_plain : Graypaper.access.Plain where
  memRead {_} _ {_} _ hn := Graypaper.load_eq _ _ (pos_of_width hn)
  memWrite {m} addr value {_} _ hn := by
    obtain ⟨hexit, hlayout, hbyte⟩ := Graypaper.store_eq m addr value (pos_of_width hn)
    exact ⟨_, Prod.ext hexit rfl, hlayout, hbyte⟩

lemma CPython.access_plain : CPython.access.Plain where
  memRead {_} _ {_} hm hn := CPython.load_eq _ hm _ (pos_of_width hn)
  memWrite {_} _ _ {_} hm hn := ⟨_, CPython.store_eq _ hm _ _ (pos_of_width hn), rfl, rfl⟩

lemma Numba.access_plain (nativeGasCost : ℕ) : (Backend.numba nativeGasCost).access.Plain where
  memRead {m} addr {n} hm hn := by
    refine Eq.trans ?_ (Numba.load_eq m hm addr hn)
    change (Numba.memRead m addr n).mapError AccessError.exit = Numba.load m addr n
    simp only [Numba.memRead, Numba.load]
    split_ifs <;> rfl
  memWrite {m} addr value {n} hm hn := by
    change ∃ m', afterStore m (Numba.memWrite m addr value n) =
        ((expectedStore m.toLayout m.mm addr value n).1, m') ∧ m'.toLayout = m.toLayout ∧
      m'.mm = (expectedStore m.toLayout m.mm addr value n).2
    rw [Numba.memWrite_eq hm hn, expectedStore]
    by_cases hguard : addr % 2 ^ 32 < 65536 ∨ 2 ^ 32 < addr % 2 ^ 32 + n
    · simp only [if_pos hguard]
      exact ⟨m, rfl, rfl, rfl⟩
    · simp only [if_neg hguard]
      cases hdenied : Paged.firstDenied pvmPageSize (fun pg => decide (pg ∈ m.pagesW))
          (addr % 2 ^ 32) n with
      | none => exact ⟨_, rfl, rfl, rfl⟩
      | some pg =>
        have hexit := faultExit_page (by omega) hdenied
        exact ⟨m, congrArg (fun exit => (some exit, m)) hexit, rfl, rfl⟩

lemma Backend.access_plain (B : Backend) : B.access.Plain := by
  cases B with
  | graypaper => exact Graypaper.access_plain
  | cpython => exact CPython.access_plain
  | numba nativeGasCost => exact Numba.access_plain nativeGasCost

/-- What a load answers fits its width. -/
lemma expectedLoad_lt {L : Layout} {byte : ℕ → UInt8} {addr n v : ℕ}
    (h : expectedLoad L byte addr n = .ok v) : v < 2 ^ (8 * n) := by
  rw [expectedLoad] at h
  split at h
  · cases h
  · split at h
    · cases h
    · cases h
      have hlt := Octets.ofLittleEndian_lt (Paged.read byte (addr % 2 ^ 32) n)
      rwa [Paged.length_read, show 256 = 2 ^ 8 from rfl, ← pow_mul] at hlt

lemma expectedLoad_congr (L : Layout) (byte : ℕ → UInt8) {addr addr' : ℕ} (n : ℕ)
    (h : addr % 2 ^ 32 = addr' % 2 ^ 32) :
    expectedLoad L byte addr n = expectedLoad L byte addr' n := by
  simp only [expectedLoad, h]

lemma expectedStore_congr (L : Layout) (byte : ℕ → UInt8) {addr addr' : ℕ} (value n : ℕ)
    (h : addr % 2 ^ 32 = addr' % 2 ^ 32) :
    expectedStore L byte addr value n = expectedStore L byte addr' value n := by
  simp only [expectedStore, h]

lemma Width.bytes_mem (w : Width) : w.bytes ∈ [1, 2, 4, 8] := by
  cases w <;> decide

/-! ## One instruction -/

/-- The number of a host call as an unsigned word. -/
def Exit.asUnsigned : Exit → Exit
  | .hostHalt exitValue => .hostHalt (unsigned 64 exitValue)
  | exit => exit

section Alike

variable {μ μ' : Type} (A : MemoryAccess μ) (A' : MemoryAccess μ')

/-- Two machines have the same registers, the same permissions and the same bytes. -/
structure AlikeData (data : MachineData μ) (data' : MachineData μ') : Prop where
  reg : data.reg = data'.reg
  layout : A.layout data.mem = A'.layout data'.mem
  byte : A.byte data.mem = A'.byte data'.mem
  wellFormed : (A.layout data.mem).WellFormed

/-- Two machines go on at the same place, or stop for the same reason. -/
inductive AlikeExecuted : Executed (MachineData μ) → Executed (MachineData μ') → Prop
  | continue (pc : ℕ) {data : MachineData μ} {data' : MachineData μ'}
      (hdata : AlikeData A A' data data') : AlikeExecuted (.continue pc data) (.continue pc data')
  | stop {exit exit' : Exit} (hexit : exit.asUnsigned = exit'.asUnsigned) {data : MachineData μ}
      {data' : MachineData μ'} (hdata : AlikeData A A' data data') :
      AlikeExecuted (.stop exit data) (.stop exit' data')

variable {A A'}

lemma AlikeData.write {data : MachineData μ} {data' : MachineData μ'} (h : AlikeData A A' data data')
    (w : Option Write) :
    AlikeData A A' ⟨data.reg.write w, data.mem⟩ ⟨data'.reg.write w, data'.mem⟩ :=
  ⟨by rw [h.reg], h.layout, h.byte, h.wellFormed⟩

lemma AlikeExecuted.ofNext {next next' : Next} (hnext : next.asUnsigned = next'.asUnsigned)
    {data : MachineData μ} {data' : MachineData μ'} (h : AlikeData A A' data data') :
    AlikeExecuted A A' (.ofNext next data) (.ofNext next' data') := by
  cases next <;> cases next' <;>
    simp only [Next.asUnsigned, reduceCtorEq, Next.continue.injEq, Next.hostHalt.injEq] at hnext
  · subst hnext
    exact .continue _ h
  · exact .stop rfl h
  · exact .stop rfl h
  · have hexit : (Exit.hostHalt _).asUnsigned = (Exit.hostHalt _).asUnsigned :=
      congrArg Exit.hostHalt hnext
    exact .stop hexit h
  · exact .stop rfl h
  · exact .stop rfl h

/-- A load ends as the memory answers. -/
lemma MemoryAccess.executeData_load (A : MemoryAccess μ) (next : Next) (onFault : Exit)
    (data : MachineData μ) (addr : ℕ) (w : Width) (loaded : ℕ → Outcome) :
    A.executeData next onFault data (.load addr w loaded) =
      match (A.memRead data.mem addr w.bytes).mapError AccessError.exit with
      | .ok v => data.complete next onFault (loaded v)
      | .error exit => .stop exit data := by
  rw [MemoryAccess.executeData]
  rcases A.memRead data.mem addr w.bytes with (_ | a) | v <;> rfl

/-- So does a store. -/
lemma MemoryAccess.executeData_store (A : MemoryAccess μ) (next : Next) (onFault : Exit)
    (data : MachineData μ) (addr value : ℕ) (w : Width) :
    A.executeData next onFault data (.store addr value w) =
      match afterStore data.mem (A.memWrite data.mem addr value w.bytes) with
      | (none, mem) => .ofNext next { data with mem := mem }
      | (some exit, mem) => .stop exit { data with mem := mem } := by
  rw [MemoryAccess.executeData]
  rcases A.memWrite data.mem addr value w.bytes with (_ | a) | mem <;> rfl

/-- Two machines that ask for the same end an instruction alike. -/
lemma MemoryAccess.Plain.executeData_alike (hA : A.Plain) (hA' : A'.Plain) (next : Next)
    (onFault onFault' : Exit) {data : MachineData μ} {data' : MachineData μ'}
    (hdata : AlikeData A A' data data') {step step' : DataStep} (h : step.Alike step') :
    AlikeExecuted A A' (A.executeData next onFault data step)
      (A'.executeData next onFault' data' step') := by
  have hwell' : (A'.layout data'.mem).WellFormed := hdata.layout ▸ hdata.wellFormed
  cases h with
  | register w => exact .ofNext rfl (hdata.write w)
  | @load addr addr' w loaded loaded' haddr hloaded =>
    have hread := hA.memRead addr hdata.wellFormed w.bytes_mem
    have hread' := hA'.memRead addr' hwell' w.bytes_mem
    rw [← hdata.layout, ← hdata.byte, ← expectedLoad_congr _ _ _ haddr] at hread'
    rw [A.executeData_load, A'.executeData_load, hread, hread']
    cases hanswer : expectedLoad (A.layout data.mem) (A.byte data.mem) addr w.bytes with
    | error exit => exact .stop rfl hdata
    | ok v =>
      obtain ⟨write, hsame, hsame'⟩ := hloaded v (expectedLoad_lt hanswer)
      simp only [hsame, hsame']
      exact .ofNext rfl (hdata.write write)
  | @store addr addr' value w haddr =>
    obtain ⟨mem, hwrite, hlayout, hbyte⟩ :=
      hA.memWrite addr value hdata.wellFormed w.bytes_mem
    obtain ⟨mem', hwrite', hlayout', hbyte'⟩ :=
      hA'.memWrite addr' value hwell' w.bytes_mem
    rw [← hdata.layout, ← hdata.byte, ← expectedStore_congr _ _ _ _ haddr] at hwrite' hbyte'
    have hstored : AlikeData A A' { data with mem := mem } { data' with mem := mem' } :=
      ⟨hdata.reg, by rw [hlayout, hlayout', hdata.layout], by rw [hbyte, hbyte'],
        by rw [hlayout]; exact hdata.wellFormed⟩
    rw [A.executeData_store, A'.executeData_store, hwrite, hwrite']
    cases (expectedStore (A.layout data.mem) (A.byte data.mem) addr value w.bytes).1 with
    | none => exact .ofNext rfl hstored
    | some exit => exact .stop rfl hstored

end Alike

/-! ## Where the interpreters follow the specification -/

/-- The instructions on which an interpreter does what the Graypaper interpreter does.  CPython and Numba
each lack a mask in some register instructions, Numba keeps the jump table in 32 bits and returns the
distance of a dynamic jump among its codes, and it may serve the gas host call itself. -/
def Backend.Follows (B : Backend) (t : ShiftTarget) (p : PVMCode) (pc argLen : ℕ) (reg : Regs)
    (opcode : Opcode) : Prop :=
  let w := reg.get (fetchRegs p.code pc).high
  match B, opcode with
  | .cpython, .regReg o => o = .trailingZeroBits32 → TrailingZerosOk w
  | .cpython, .regRegReg o => o = .divU32 → w = 0 ∨ w % 2 ^ 32 ≠ 0
  | .cpython, .loadImmJumpInd => byteAt p.code (pc + 1) / 16 ≤ 12
  | .numba _, .regRegImm o => o.NativeOk t w (immediate p.code (pc + 2) (immWidth argLen))
  | .numba _, .regRegReg o => o.NativeOk t w
  | .numba nativeGasCost, opcode =>
    ∀ op ∈ ControlOp.ofOpcode opcode, ControlOk p pc argLen reg op ∧
      (op = .ecalli → nativeGasCost = 0 ∨ immediate p.code (pc + 1) (min 4 argLen) ≠ 0)
  | _, _ => True

section Instructions

variable {B : Backend} {t : ShiftTarget} {p : PVMCode} {pc argLen : ℕ} {reg : Regs}
  {opcode : Opcode}

lemma Graypaper.dialect_computes : Graypaper.dialect.Computes p pc argLen reg opcode := by
  cases opcode <;> first | rfl | trivial

lemma CPython.dialect_computes (h : Backend.cpython.Follows t p pc argLen reg opcode) :
    CPython.dialect.Computes p pc argLen reg opcode := by
  have hlow := reg.get_lt (fetchRegs p.code pc).low
  have hhigh := reg.get_lt (fetchRegs p.code pc).high
  cases opcode with
  | regReg o =>
    exact congrArg (fun v => Except.ok (some v)) ((CPython.regRegValue_eq_iff o hhigh).mpr h)
  | regRegImm o => exact CPython.regRegImmValue_eq o hhigh (immediate_lt _ _ (immWidth_le argLen))
  | regRegReg o => exact CPython.regRegRegValue_eq o hlow hhigh h
  | _ => trivial

lemma Numba.settle_of_fits {junk : BitVec 64} {v : Value} (h : Fits v) : Numba.settle junk v = v :=
  Numba.settle_of_ne (fun hpoison => by rw [hpoison] at h; exact h)

lemma Numba.dialect_computes {nativeGasCost : ℕ} {junk : BitVec 64}
    (h : (Backend.numba nativeGasCost).Follows t p pc argLen reg opcode) :
    (Numba.dialect t junk).Computes p pc argLen reg opcode := by
  have hlow := reg.get_lt (fetchRegs p.code pc).low
  have hhigh := reg.get_lt (fetchRegs p.code pc).high
  cases opcode with
  | regReg o => exact congrArg (fun v => Except.ok (some v)) (Numba.regRegValue_eq o hhigh)
  | regRegImm o =>
    have himm := immediate_lt p.code (pc + 2) (immWidth_le argLen)
    have hvalue := (Numba.regRegImmValue_eq_iff t o hhigh himm).mpr h
    simp only [Dialect.Computes, Numba.dialect, hvalue]
    exact Numba.settle_of_fits (Graypaper.regRegImmValue_fits o hhigh himm)
  | regRegReg o =>
    have hvalue := (Numba.regRegRegValue_eq_iff t o hlow hhigh).mpr h
    simp only [Dialect.Computes, Numba.dialect, hvalue]
    exact Numba.settle_of_fits (Graypaper.regRegRegValue_fits o hlow hhigh)
  | _ => trivial

lemma Backend.Follows.computes (junk : BitVec 64) (h : B.Follows t p pc argLen reg opcode) :
    (B.dialect t junk).Computes p pc argLen reg opcode := by
  cases B with
  | graypaper => exact Graypaper.dialect_computes
  | cpython => exact CPython.dialect_computes h
  | numba nativeGasCost => exact Numba.dialect_computes h

lemma ControlOp.not_register {opcode : Opcode} {op : ControlOp}
    (h : ControlOp.ofOpcode opcode = some op) :
    (∀ o, opcode ≠ .regRegImm o) ∧ ∀ o, opcode ≠ .regRegReg o := by
  constructor <;> rintro o rfl <;> cases h

lemma Backend.Follows.controlOk {nativeGasCost : ℕ} {op : ControlOp}
    (h : (Backend.numba nativeGasCost).Follows t p pc argLen reg opcode)
    (hop : ControlOp.ofOpcode opcode = some op) :
    ControlOk p pc argLen reg op ∧
      (op = .ecalli → nativeGasCost = 0 ∨ immediate p.code (pc + 1) (min 4 argLen) ≠ 0) := by
  obtain ⟨himm, hreg⟩ := ControlOp.not_register hop
  unfold Backend.Follows at h
  cases opcode with
  | regRegImm o => exact absurd rfl (himm o)
  | regRegReg o => exact absurd rfl (hreg o)
  | _ => exact h op hop

lemma Backend.Follows.register {op : ControlOp}
    (h : Backend.cpython.Follows t p pc argLen reg opcode)
    (hop : ControlOp.ofOpcode opcode = some op) :
    op = .loadImmJumpInd → byteAt p.code (pc + 1) / 16 ≤ 12 := by
  rintro rfl
  have hopcode := ControlOp.opcode_of_ofOpcode hop
  rw [← hopcode] at h
  exact h

lemma Numba.controlStepBeyond_eq (junk : BitVec 64) {op : ControlOp}
    (h : op = .loadImmJumpInd → byteAt p.code (pc + 1) / 16 ≤ 12) :
    Numba.controlStepBeyond junk p pc argLen reg op = Numba.controlStep p pc argLen reg op := by
  unfold Numba.controlStepBeyond
  split
  · exact if_neg (not_lt.mpr (h rfl))
  · rfl

/-- Control goes the same way. -/
lemma Backend.Follows.control {op : ControlOp} (h : B.Follows t p pc argLen reg opcode)
    (junk : BitVec 64) (hop : ControlOp.ofOpcode opcode = some op)
    (harg : p.instArgLen pc = some argLen) :
    (Graypaper.controlStep p pc argLen reg op).asUnsigned =
      (B.control junk p pc argLen reg op).asUnsigned := by
  have hpc : pc < 2 ^ 25 := lt_of_lt_of_le (p.pc_lt harg) p.code_length_le
  cases B with
  | graypaper => rfl
  | cpython => exact congrArg _ (Graypaper.controlStep_eq p pc argLen reg op (h.register hop))
  | numba nativeGasCost =>
    obtain ⟨⟨htable, hregister, hdistance⟩, -⟩ := h.controlOk hop
    rw [Graypaper.controlStep_eq p pc argLen reg op hregister, Backend.control,
      Numba.controlStepBeyond_eq junk hregister]
    exact ((Numba.controlStep_eq_iff p argLen reg op hpc htable hregister).mpr hdistance).symm

/-- One instruction of an interpreter that follows the Graypaper interpreter. -/
lemma Backend.Follows.instruction_alike (hvalid : p.valid = true)
    (hfetch : p.fetch pc = some (opcode, argLen)) (junk junk' : BitVec 64)
    {data : MachineData Backend.graypaper.Memory} {data' : MachineData B.Memory}
    (hdata : AlikeData Backend.graypaper.access B.access data data')
    (h : B.Follows t p pc argLen data.reg opcode) :
    AlikeExecuted Backend.graypaper.access B.access
      (Backend.graypaper.instruction t junk p pc argLen opcode data)
      (B.instruction t junk' p pc argLen opcode data') := by
  have hnext : ControlOp.ofOpcode opcode = none → opcode ≠ .noArg .trap → ∀ B : Backend,
      B.advance pc (argLen + 1 : ℕ) = .continue (pc + argLen + 1) := fun hop htrap B =>
    B.advance_next (PVMCode.next_lt hvalid hfetch (Opcode.isTermination_of_ofOpcode htrap hop)).2
  unfold Backend.instruction
  split
  · exact .stop rfl hdata
  · simp only [hnext rfl (by simp)]
    exact .ofNext rfl hdata
  · next htrap _ =>
    simp only
    cases hop : ControlOp.ofOpcode opcode with
    | some op =>
      have hstep := h.control junk' hop (PVMCode.fetch_eq_some.mp hfetch).1
      have hwrite : (Backend.graypaper.control junk p pc argLen data.reg op).write =
          (B.control junk' p pc argLen data'.reg op).write := by
        rw [← hdata.reg]
        have hwrites := congrArg ControlStep.write hstep
        exact hwrites
      have hnexts := congrArg ControlStep.next hstep
      refine .ofNext ?_ ?_
      · rw [← hdata.reg]
        exact hnexts
      · rw [hwrite]
        exact hdata.write _
    | none =>
      have hcomputes := h.computes junk'
      rw [hdata.reg] at hcomputes ⊢
      rw [hnext hop (fun h => htrap h), hnext hop (fun h => htrap h)]
      exact Backend.graypaper.access_plain.executeData_alike B.access_plain _ _ _ hdata
        (Graypaper.dialect_plain.dataStep_alike (B.dialect_plain t junk')
          Graypaper.dialect_computes hcomputes)

end Instructions

/-! ## One round -/

section Rounds

variable {μ μ' : Type} (A : MemoryAccess μ) (A' : MemoryAccess μ')

/-- Two interpreters are at the same place, with the same gas, and have paid for the block or not. -/
structure AlikeLoop (s : Loop (MachineData μ)) (s' : Loop (MachineData μ')) : Prop where
  pc : s.pc = s'.pc
  gas : s.gas = s'.gas
  gasPaid : s.gasPaid = s'.gasPaid
  skipLen : s.skipLen = s'.skipLen
  data : AlikeData A A' s.data s'.data

/-- Two rounds end alike. -/
inductive AlikeStep : Step (MachineData μ) → Step (MachineData μ') → Prop
  | refuse (exit : Exit) {s : Loop (MachineData μ)} {s' : Loop (MachineData μ')}
      (hloop : AlikeLoop A A' s s') : AlikeStep (.refuse exit s) (.refuse exit s')
  | exit {exit exit' : Exit} (hexit : exit.asUnsigned = exit'.asUnsigned)
      {s : Loop (MachineData μ)} {s' : Loop (MachineData μ')} (hloop : AlikeLoop A A' s s') :
      AlikeStep (.exit exit s) (.exit exit' s')
  | next (hostGas : ℕ) {s : Loop (MachineData μ)} {s' : Loop (MachineData μ')}
      (hloop : AlikeLoop A A' s s') : AlikeStep (.next hostGas s) (.next hostGas s')

variable {A A'} {gm : GasModel} {p : PVMCode} {s : Loop (MachineData μ)}
  {s' : Loop (MachineData μ')}

/-- Both charges are refused, or both are made. -/
def AlikeCharge (A : MemoryAccess μ) (A' : MemoryAccess μ') :
    Option (Loop (MachineData μ)) → Option (Loop (MachineData μ')) → Prop
  | none, none => True
  | some s, some s' => AlikeLoop A A' s s'
  | _, _ => False

lemma charge_alike (h : AlikeLoop A A' s s') : AlikeCharge A A' (charge p gm s) (charge p gm s') := by
  obtain ⟨pc, gas, start, skipLen, lookupBlock, data⟩ := s
  obtain ⟨pc', gas', start', skipLen', lookupBlock', data'⟩ := s'
  obtain ⟨rfl, rfl, hpaid, rfl, hdata⟩ := h
  unfold charge
  split
  · exact ⟨rfl, rfl, hpaid, rfl, hdata⟩
  · cases start with
    | some start =>
      cases start' with
      | some start' => exact ⟨rfl, rfl, rfl, rfl, hdata⟩
      | none => cases hpaid
    | none =>
      cases start' with
      | some start' => cases hpaid
      | none =>
        simp only
        split
        · trivial
        · exact ⟨rfl, rfl, rfl, rfl, hdata⟩

/-- A block that has been paid is not looked up again, and it would not be charged. -/
lemma Numba.chargeOnEntry_alike (h : AlikeLoop A A' s s') :
    AlikeCharge A A' (charge p gm s) (Numba.chargeOnEntry p gm s') := by
  have hcharge : AlikeCharge A A' (charge p gm s) (charge p gm s') := charge_alike h
  unfold Numba.chargeOnEntry
  split
  · cases hleft : charge p gm s with
    | none =>
      rw [hleft] at hcharge
      cases hright : charge p gm s' with
      | none => trivial
      | some s₂ =>
        rw [hright] at hcharge
        exact hcharge
    | some s₁ =>
      rw [hleft] at hcharge
      cases hright : charge p gm s' with
      | none =>
        rw [hright] at hcharge
        exact hcharge
      | some s₂ =>
        rw [hright] at hcharge
        exact ⟨hcharge.pc, hcharge.gas, hcharge.gasPaid, hcharge.skipLen, hcharge.data⟩
  · next hpaid =>
    obtain ⟨start', hstart'⟩ : ∃ start, s'.currentBlockStart = some start :=
      Option.ne_none_iff_exists'.mp (fun hnone => hpaid (.inr hnone))
    obtain ⟨start, hstart⟩ : ∃ start, s.currentBlockStart = some start := by
      rw [← Option.isSome_iff_exists]
      exact h.gasPaid.trans (by simp [Loop.gasPaid, hstart'])
    unfold charge
    split
    · exact ⟨h.pc, h.gas, h.gasPaid, h.skipLen, h.data⟩
    · simp only [hstart]
      exact ⟨h.pc, h.gas, by simp [Loop.gasPaid, hstart'], h.skipLen, h.data⟩

lemma finish_alike (h : AlikeLoop A A' s s') (opcode : Opcode) (argLen : ℕ)
    {e : Executed (MachineData μ)} {e' : Executed (MachineData μ')} (he : AlikeExecuted A A' e e') :
    AlikeStep A A' (finish s opcode argLen e) (finish s' opcode argLen e') := by
  cases he with
  | «continue» pc hdata =>
    refine .next 0 ⟨rfl, h.gas, ?_, rfl, hdata⟩
    simp only [Loop.gasPaid]
    split
    · rfl
    · exact h.gasPaid
  | stop hexit hdata => exact .exit hexit ⟨h.pc, h.gas, h.gasPaid, rfl, hdata⟩

end Rounds

/-- The charge of a round. -/
def Backend.charge {σ : Type*} (B : Backend) (gm : GasModel) (p : PVMCode) (s : Loop σ) :
    Option (Loop σ) :=
  match B with
  | .graypaper | .cpython => Pvm.charge p gm s
  | .numba _ => Numba.chargeOnEntry p gm s

/-- At an instruction it makes no difference whether the fetch or the charge comes first. -/
lemma Backend.enter_of_fetch {σ : Type*} (B : Backend) {gm : GasModel} {p : PVMCode} {s : Loop σ}
    {opcode : Opcode} {argLen : ℕ} (hfetch : p.fetch s.pc = some (opcode, argLen)) :
    B.enter gm p s =
      match B.charge gm p s with
      | none => .error (.outOfGas, s)
      | some s => .ok (s, opcode, argLen) := by
  cases B with
  | graypaper =>
    simp only [Backend.enter, Backend.charge]
    cases hcharge : Pvm.charge p gm s with
    | none => rfl
    | some s₁ => simp only [(charge_keeps hcharge).1, hfetch]
  | cpython =>
    cases hcharge : Pvm.charge p gm s <;>
      simp only [Backend.enter, Backend.charge, hfetch, hcharge]
  | numba nativeGasCost =>
    cases hcharge : Numba.chargeOnEntry p gm s <;>
      simp only [Backend.enter, Backend.charge, hfetch, hcharge]

lemma Backend.charge_keeps {σ : Type*} {B : Backend} {gm : GasModel} {p : PVMCode} {s s₁ : Loop σ}
    (h : B.charge gm p s = some s₁) : s₁.pc = s.pc ∧ s₁.data = s.data := by
  cases B with
  | graypaper => exact Pvm.charge_keeps h
  | cpython => exact Pvm.charge_keeps h
  | numba nativeGasCost => exact Numba.chargeOnEntry_keeps h

/-- The instruction at the program counter is one on which an interpreter follows the specification. -/
def Backend.FollowsAt {μ : Type} (B : Backend) (t : ShiftTarget) (p : PVMCode)
    (s : Loop (MachineData μ)) : Prop :=
  ∀ opcode argLen, p.fetch s.pc = some (opcode, argLen) →
    B.Follows t p s.pc argLen s.data.reg opcode

section Machines

variable {B : Backend} {t : ShiftTarget} {gm : GasModel} {p : PVMCode}
  {s : Loop (MachineData Backend.graypaper.Memory)} {s' : Loop (MachineData B.Memory)}

/-- An interpreter that follows serves no host call itself. -/
lemma Backend.Follows.serves_eq_none {pc argLen : ℕ} {reg : Regs} {opcode : Opcode}
    (h : B.Follows t p pc argLen reg opcode) (hpc : s'.pc = pc) :
    B.serves p s' opcode argLen = none := by
  cases B with
  | graypaper => rfl
  | cpython => rfl
  | numba nativeGasCost =>
    by_cases hcall : opcode = .ecalli
    · subst hcall
      have hnumber := (h.controlOk (show ControlOp.ofOpcode .ecalli = some .ecalli from rfl)).2 rfl
      rw [← Numba.readImmediate_eq _ _ (min_le_left 4 argLen), ← hpc] at hnumber
      have hserves : Numba.servesGas nativeGasCost p s' .ecalli argLen = false := by
        simp only [Numba.servesGas, decide_eq_false_iff_not]
        rintro ⟨-, hzero, hpos, -⟩
        rcases hnumber with hcost | hcall
        · omega
        · exact hcall hzero
      simp [Backend.serves, hserves]
    · exact Backend.serves_eq_none _ hcall s' argLen

/-- One round of an interpreter that follows the Graypaper interpreter. -/
lemma Backend.machineStep_alike (hvalid : p.valid = true) (junk junk' : BitVec 64)
    (h : AlikeLoop Backend.graypaper.access B.access s s') (hfetched : (p.fetch s.pc).isSome)
    (hfollows : B.FollowsAt t p s) :
    AlikeStep Backend.graypaper.access B.access (Backend.graypaper.machineStep t junk gm p s)
      (B.machineStep t junk' gm p s') := by
  obtain ⟨⟨opcode, argLen⟩, hfetch⟩ := Option.isSome_iff_exists.mp hfetched
  have hfollow := hfollows opcode argLen hfetch
  have hfetch' : p.fetch s'.pc = some (opcode, argLen) := h.pc ▸ hfetch
  have hcharge : AlikeCharge Backend.graypaper.access B.access (Backend.graypaper.charge gm p s)
      (B.charge gm p s') := by
    cases B with
    | graypaper => exact charge_alike h
    | cpython => exact charge_alike h
    | numba nativeGasCost => exact Numba.chargeOnEntry_alike h
  rw [Backend.machineStep, Backend.machineStep, Backend.enter_of_fetch _ hfetch,
    Backend.enter_of_fetch _ hfetch']
  cases hleft : Backend.graypaper.charge gm p s with
  | none =>
    rw [hleft] at hcharge
    cases hright : B.charge gm p s' with
    | none => exact .refuse .outOfGas h
    | some s₂ =>
      rw [hright] at hcharge
      exact hcharge.elim
  | some s₁ =>
    rw [hleft] at hcharge
    cases hright : B.charge gm p s' with
    | none =>
      rw [hright] at hcharge
      exact hcharge.elim
    | some s₂ =>
      rw [hright] at hcharge
      obtain ⟨hpc, hdata⟩ := Backend.charge_keeps hleft
      have hfetch₁ : p.fetch s₁.pc = some (opcode, argLen) := hpc.symm ▸ hfetch
      have hfollow₁ : B.Follows t p s₁.pc argLen s₁.data.reg opcode := by
        rw [hpc, hdata]
        exact hfollow
      have hserves₁ : Backend.graypaper.serves p s₁ opcode argLen = none := rfl
      have hserves₂ := hfollow₁.serves_eq_none hcharge.pc.symm
      simp only [Backend.round, hserves₁, hserves₂]
      rw [← hcharge.pc]
      exact finish_alike hcharge opcode argLen
        (hfollow₁.instruction_alike hvalid hfetch₁ junk junk' hcharge.data)

/-- The Graypaper interpreter goes on at an instruction. -/
lemma Graypaper.isSome_of_machineStep {junk : BitVec 64} (hvalid : p.valid = true)
    {s₁ : Loop (MachineData Backend.graypaper.Memory)} {fee : ℕ}
    (h : Backend.graypaper.machineStep t junk gm p s = .next fee s₁) : (p.fetch s₁.pc).isSome := by
  rw [Backend.machineStep_eq_step (.inl rfl)] at h
  exact Graypaper.isSome_of_step _ gm hvalid h

end Machines

/-! ## Invocations -/

/-- Every round of a run starts in a state with a property. -/
def EachRound {σ : Type*} (P : Loop σ → Prop) (step : Loop σ → Step σ) : ℕ → Loop σ → Prop
  | 0, _ => True
  | fuel + 1, s => P s ∧ ∀ hostGas s', step s = .next hostGas s' → EachRound P step fuel s'

lemma EachRound.of_forall {σ : Type*} {P : Loop σ → Prop} {step : Loop σ → Step σ}
    (h : ∀ s, P s) (fuel : ℕ) : ∀ s, EachRound P step fuel s := by
  induction fuel with
  | zero => exact fun _ => trivial
  | succ fuel ih => exact fun s => ⟨h s, fun _ s' _ => ih s'⟩

/-- An event with the number of a host call as an unsigned word. -/
def Event.asUnsigned : Event → Event
  | .exit reason => .exit reason.asUnsigned
  | event => event

/-- Two invocations executed the same instructions and ended alike. -/
structure AlikeInvocation {μ μ' : Type} (A : MemoryAccess μ) (A' : MemoryAccess μ')
    (r : Invocation (MachineData μ)) (r' : Invocation (MachineData μ')) : Prop where
  path : r.path.map Event.asUnsigned = r'.path.map Event.asUnsigned
  exit : r.exit.asUnsigned = r'.exit.asUnsigned
  self : AlikeLoop A A' r.self r'.self

/-- `invoke` of an interpreter on its registers and its memory. -/
def Backend.machineInvoke (B : Backend) (t : ShiftTarget) (junk : BitVec 64) (gm : GasModel)
    (p : PVMCode) (fuel : ℕ) (self : Loop (MachineData B.Memory)) (pc gas : ℕ) :
    Option (Invocation (MachineData B.Memory)) :=
  let self := { self with pc := pc, gas := gas, lookupBlock := true }
  if p.valid ∧ (p.instArgLen pc).isSome then loop p (B.machineStep t junk gm p) fuel self
  else some ⟨[.exit .panic], .panic, self⟩

lemma Backend.machineInvoke_eq_invoke {B : Backend} (hB : B = .graypaper ∨ B = .cpython)
    (t : ShiftTarget) (junk : BitVec 64) (gm : GasModel) (p : PVMCode) (fuel : ℕ)
    (self : Loop (MachineData B.Memory)) (pc gas : ℕ) :
    B.machineInvoke t junk gm p fuel self pc gas =
      B.invoke (B.machinePath t junk p) gm p fuel self pc gas := by
  have hstep : B.machineStep t junk gm p = B.step (B.machinePath t junk p) gm p :=
    funext (Backend.machineStep_eq_step hB t junk gm p)
  rw [Backend.machineInvoke, Backend.invoke, hstep]

section Invocations

variable {B : Backend} {t : ShiftTarget} {gm : GasModel} {p : PVMCode}

/-- The loops keep step: by induction on the rounds, the positions staying instructions. -/
lemma Backend.loop_alike (hvalid : p.valid = true) (junk junk' : BitVec 64) (fuel : ℕ) :
    ∀ {s : Loop (MachineData Backend.graypaper.Memory)} {s' : Loop (MachineData B.Memory)},
      AlikeLoop Backend.graypaper.access B.access s s' → (p.fetch s.pc).isSome →
      EachRound (B.FollowsAt t p) (Backend.graypaper.machineStep t junk gm p) fuel s →
      ∀ r, loop p (Backend.graypaper.machineStep t junk gm p) fuel s = some r →
        ∃ r', loop p (B.machineStep t junk' gm p) fuel s' = some r' ∧
          AlikeInvocation Backend.graypaper.access B.access r r' := by
  induction fuel with
  | zero =>
    intro s s' _ _ _ r hrun
    cases hrun
  | succ fuel ih =>
    intro s s' halike hfetched hrounds r hrun
    obtain ⟨hfollows, hrest⟩ := hrounds
    have hstep : AlikeStep Backend.graypaper.access B.access
        (Backend.graypaper.machineStep t junk gm p s) (B.machineStep t junk' gm p s') :=
      Backend.machineStep_alike hvalid junk junk' halike hfetched hfollows
    rw [loop] at hrun
    rw [loop]
    cases hround : Backend.graypaper.machineStep t junk gm p s with
    | refuse exit s₁ =>
      rw [hround] at hrun hstep
      obtain rfl := Option.some.inj hrun
      cases hstep' : B.machineStep t junk' gm p s' with
      | refuse exit' s₁' =>
        rw [hstep'] at hstep
        cases hstep with
        | refuse _ hloop => exact ⟨_, rfl, rfl, rfl, hloop⟩
      | exit exit' s₁' => rw [hstep'] at hstep; cases hstep
      | next hostGas s₁' => rw [hstep'] at hstep; cases hstep
    | exit exit s₁ =>
      rw [hround] at hrun hstep
      obtain rfl := Option.some.inj hrun
      cases hstep' : B.machineStep t junk' gm p s' with
      | refuse exit' s₁' => rw [hstep'] at hstep; cases hstep
      | exit exit' s₁' =>
        rw [hstep'] at hstep
        cases hstep with
        | exit hexit hloop =>
          refine ⟨_, rfl, ?_, hexit, hloop⟩
          simp [Event.asUnsigned, halike.pc, hexit]
      | next hostGas s₁' => rw [hstep'] at hstep; cases hstep
    | next hostGas s₁ =>
      rw [hround] at hrun hstep
      obtain ⟨r₁, hloop₁, rfl⟩ := Option.map_eq_some_iff.mp hrun
      cases hstep' : B.machineStep t junk' gm p s' with
      | refuse exit' s₁' => rw [hstep'] at hstep; cases hstep
      | exit exit' s₁' => rw [hstep'] at hstep; cases hstep
      | next hostGas' s₁' =>
        rw [hstep'] at hstep
        cases hstep with
        | next _ halike₁ =>
          obtain ⟨r₁', hloop₁', hsame⟩ := ih halike₁ (Graypaper.isSome_of_machineStep hvalid hround)
            (hrest hostGas s₁ hround) r₁ hloop₁
          refine ⟨_, congrArg (Option.map _) hloop₁', ?_, hsame.exit, hsame.self⟩
          simp only [List.map_cons, hsame.path, halike.pc]

/-- A program runs on an interpreter as it runs on the Graypaper interpreter, as long as every instruction
that is executed is one on which the interpreter follows it: the same instructions are executed, the run
ends at the same place for the same reason, with the same gas left, the same registers, the same
permissions and the same bytes. -/
theorem invocations_agree (B : Backend) (t : ShiftTarget) (junk : BitVec 64) (gm : GasModel)
    (p : PVMCode) {self : Loop (MachineData Backend.graypaper.Memory)}
    {self' : Loop (MachineData B.Memory)} {pc gas fuel : ℕ}
    (hself : AlikeLoop Backend.graypaper.access B.access self self')
    (hfuel : (gas + 1) * (p.code.length + 2) ≤ fuel)
    (hfollows : EachRound (B.FollowsAt t p) (Backend.graypaper.machineStep t junk gm p) fuel
      { self with pc := pc, gas := gas, lookupBlock := true }) :
    ∃ r r', Backend.graypaper.machineInvoke t junk gm p fuel self pc gas = some r ∧
      B.machineInvoke t junk gm p fuel self' pc gas = some r' ∧
      AlikeInvocation Backend.graypaper.access B.access r r' := by
  obtain ⟨r, hr⟩ : ∃ r, Backend.graypaper.machineInvoke t junk gm p fuel self pc gas = some r := by
    rw [Backend.machineInvoke_eq_invoke (.inl rfl), ← Option.isSome_iff_exists]
    exact Backend.invoke_isSome _ _ gm p self pc gas hfuel
  have hstart : AlikeLoop Backend.graypaper.access B.access
      { self with pc := pc, gas := gas, lookupBlock := true }
      { self' with pc := pc, gas := gas, lookupBlock := true } :=
    ⟨rfl, rfl, hself.gasPaid, hself.skipLen, hself.data⟩
  refine ⟨r, ?_⟩
  rw [hr]
  rw [Backend.machineInvoke] at hr ⊢
  split at hr
  · next hcode =>
    obtain ⟨opcode, argLen, hfetch⟩ := p.exists_fetch hcode.1 hcode.2
    have hfetched : (p.fetch pc).isSome := Option.isSome_iff_exists.mpr ⟨_, hfetch⟩
    obtain ⟨r', hr', hsame⟩ :=
      Backend.loop_alike hcode.1 junk junk fuel hstart hfetched hfollows r hr
    exact ⟨r', rfl, by rw [if_pos hcode]; exact hr', hsame⟩
  · next hcode =>
    obtain rfl := Option.some.inj hr
    exact ⟨_, rfl, if_neg hcode, rfl, rfl, hstart⟩

end Invocations

/-- The memories of a machine are alike, whatever has happened to them. -/
lemma Memories.Reachable.alike {M : Memories} (h : M.Reachable) (B : Backend) (reg : Regs) :
    AlikeData Backend.graypaper.access B.access ⟨reg, M.graypaper⟩ ⟨reg, B.memoryOf M⟩ := by
  obtain ⟨hwell, hsame, hnumba⟩ := h.agree
  have hwell' : M.graypaper.toLayout.WellFormed := hsame.layout.symm ▸ hwell
  cases B with
  | graypaper => exact ⟨rfl, rfl, rfl, hwell'⟩
  | cpython => exact ⟨rfl, hsame.layout, hsame.byte, hwell'⟩
  | numba nativeGasCost =>
    refine ⟨rfl, ?_, ?_, hwell'⟩
    · change M.graypaper.toLayout = M.numba.toLayout
      rw [hnumba, hsame.layout]
    · change M.graypaper.byte = M.numba.mm
      rw [hnumba, hsame.byte]

/-! ## Programs that run alike whatever they are given -/

/-- An instruction on which the interpreters agree for all operands. -/
def Opcode.isPortable : Opcode → Bool
  | .regReg o => o ≠ .trailingZeroBits32
  | .regRegImm o => o ∉ [.rotR64Imm, .rotR64ImmAlt, .rotR32Imm, .rotR32ImmAlt]
  | .regRegReg o => o ∉ [.divU32, .rotL64, .rotR64]
  | .regImm o => o ≠ .jumpInd
  | .loadImmJumpInd => false
  | _ => true

/-- Code with instructions of that kind only. -/
structure PVMCode.Portable (p : PVMCode) : Prop where
  table : ∀ e ∈ p.jumpTable, e < 2 ^ 31
  opcodes : ∀ x ∈ (decodeInstructions p.code p.opcodeBitmask).1,
    ∀ opcode ∈ Opcode.ofValue (byteAt p.code x.1), opcode.isPortable = true

lemma ControlOp.controlOk_of_isPortable {p : PVMCode} (htable : ∀ e ∈ p.jumpTable, e < 2 ^ 31)
    {opcode : Opcode} (h : opcode.isPortable = true) {op : ControlOp}
    (hop : ControlOp.ofOpcode opcode = some op) (pc argLen : ℕ) (reg : Regs) :
    ControlOk p pc argLen reg op := by
  have hopcode := ControlOp.opcode_of_ofOpcode hop
  subst hopcode
  refine ⟨htable, ?_, ?_⟩
  · rintro rfl
    cases h
  · intro a ha
    cases op with
    | jumpInd => cases h
    | loadImmJumpInd => cases h
    | _ => cases ha

lemma RegRegImmOp.nativeOk_of_isPortable {o : RegRegImmOp}
    (h : (Opcode.regRegImm o).isPortable = true) (t : ShiftTarget) (w_b v_x : ℕ) :
    o.NativeOk t w_b v_x := by
  cases o <;> trivial

lemma RegRegRegOp.nativeOk_of_isPortable {o : RegRegRegOp}
    (h : (Opcode.regRegReg o).isPortable = true) (t : ShiftTarget) (w_b : ℕ) : o.NativeOk t w_b := by
  cases o <;> trivial

/-- Portable code follows the specification in every state, on an interpreter that serves no host call
itself. -/
lemma PVMCode.Portable.followsAt {p : PVMCode} (hp : p.Portable) {B : Backend}
    (hfee : ∀ nativeGasCost, B = .numba nativeGasCost → nativeGasCost = 0) (t : ShiftTarget)
    {μ : Type} (s : Loop (MachineData μ)) : B.FollowsAt t p s := by
  intro opcode argLen hfetch
  obtain ⟨harg, hopcode⟩ := PVMCode.fetch_eq_some.mp hfetch
  have hportable := hp.opcodes _ (mem_of_lookup_eq_some harg) opcode hopcode
  cases B with
  | graypaper => trivial
  | cpython =>
    cases opcode with
    | regReg o =>
      rintro rfl
      cases hportable
    | regRegReg o =>
      rintro rfl
      cases hportable
    | loadImmJumpInd => cases hportable
    | _ => trivial
  | numba nativeGasCost =>
    have hcontrol : ∀ op ∈ ControlOp.ofOpcode opcode, ControlOk p s.pc argLen s.data.reg op ∧
        (op = .ecalli → nativeGasCost = 0 ∨ immediate p.code (s.pc + 1) (min 4 argLen) ≠ 0) :=
      fun op hop => ⟨ControlOp.controlOk_of_isPortable hp.table hportable hop _ _ _,
        fun _ => .inl (hfee nativeGasCost rfl)⟩
    cases opcode with
    | regRegImm o => exact RegRegImmOp.nativeOk_of_isPortable hportable t _ _
    | regRegReg o => exact RegRegRegOp.nativeOk_of_isPortable hportable t _
    | _ => exact hcontrol

/-- A program that stores a byte, loads it into a register and adds to it. -/
def storeAndLoad : PVMCode where
  code := [30, 3, 0, 0, 1, 7, 52, 1, 0, 0, 1, 149, 17, 5, 0]
  opcodeBitmask := [true, false, false, false, false, false, true, false, false, false, false, true,
    false, false, true]
  jumpTable := []
  code_length_le := by simp
  jumpTable_length_le := nil_length_le

lemma storeAndLoad_portable : storeAndLoad.Portable where
  table e he := absurd he List.not_mem_nil
  opcodes := by decide

/-- It runs on compiled code as it runs on the reference, with a page made writable for it. -/
theorem storeAndLoad_agrees : storeAndLoad.valid = true ∧ ∃ r r',
    Backend.graypaper.machineInvoke .masked 0 storeAndLoad.gasModel storeAndLoad 1717
        ⟨0, 0, none, 0, true, ⟨fun _ => 0, Graypaper.Memory.empty.hcPages 16 1 2⟩⟩ 0 100 = some r ∧
      (Backend.numba 0).machineInvoke .masked 0 storeAndLoad.gasModel storeAndLoad 1717
        ⟨0, 0, none, 0, true, ⟨fun _ => 0, CPython.Memory.empty.hcPages 16 1 2⟩⟩ 0 100 = some r' ∧
      AlikeInvocation Backend.graypaper.access (Backend.numba 0).access r r' := by
  have hdata := (Memories.Reachable.pages .fresh 16 1 2).alike (.numba 0) (fun _ => 0)
  have hfollows : ∀ s : Loop (MachineData Backend.graypaper.Memory),
      (Backend.numba 0).FollowsAt .masked storeAndLoad s := fun s =>
    storeAndLoad_portable.followsAt (fun _ hcost => (Backend.numba.inj hcost).symm) .masked s
  refine ⟨by decide, ?_⟩
  exact invocations_agree (.numba 0) .masked 0 storeAndLoad.gasModel storeAndLoad
    ⟨rfl, rfl, rfl, rfl, hdata⟩ (by decide) (.of_forall hfollows _ _)

end Pvm
