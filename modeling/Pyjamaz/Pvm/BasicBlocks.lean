import Mathlib.Logic.Relation
import Pyjamaz.Library.Bisect
import Pyjamaz.Pvm.Decoding
import Pyjamaz.Pvm.Runs

/-!
# The blocks of valid code

`detect_basic_blocks` cuts the instructions of valid code after each terminator.  A `BasicBlock` is
such a piece, and the code is the sequence of its pieces: that gives the starts their order, and with
it what the two searches for the block of an instruction find.

Control does not leave the instructions: a jump that goes on leads to a block start, and an
instruction that ends no block is followed by another one, since the last one is a terminator.
-/

namespace Pvm

/-! ## Basic blocks -/

/-- A basic block: instructions of which the last one and no other ends the block. -/
structure BasicBlock (code : List UInt8) where
  body : List (ℕ × ℕ)
  last : ℕ × ℕ
  straight : ∀ x ∈ body, endsBlockAt code x.1 = false
  ends : endsBlockAt code last.1 = true

namespace BasicBlock

variable {code : List UInt8}

def instructions (b : BasicBlock code) : List (ℕ × ℕ) := b.body ++ [b.last]

/-- The position of the first instruction. -/
def start (b : BasicBlock code) : ℕ := (b.body.head?.getD b.last).1

/-- The block of a terminator alone. -/
def single (x : ℕ × ℕ) (h : endsBlockAt code x.1 = true) : BasicBlock code :=
  ⟨[], x, by simp, h⟩

/-- A block with one more instruction at its front. -/
def cons (x : ℕ × ℕ) (h : endsBlockAt code x.1 = false) (b : BasicBlock code) :
    BasicBlock code :=
  ⟨x :: b.body, b.last, by
    intro y hy
    rcases List.mem_cons.mp hy with rfl | hy
    · exact h
    · exact b.straight y hy, b.ends⟩

@[simp] lemma instructions_single (x : ℕ × ℕ) (h : endsBlockAt code x.1 = true) :
    (single x h).instructions = [x] := rfl

@[simp] lemma instructions_cons (x : ℕ × ℕ) (h : endsBlockAt code x.1 = false)
    (b : BasicBlock code) : (cons x h b).instructions = x :: b.instructions := rfl

lemma start_mem (b : BasicBlock code) : b.start ∈ b.instructions.map Prod.fst := by
  obtain ⟨body, last, _, _⟩ := b
  cases body with
  | nil => exact List.mem_singleton_self _
  | cons x body => exact List.mem_cons_self

end BasicBlock

/-- The start of the block that follows an instruction, if it is a terminator that is followed by
one. -/
def startAfter (code : List UInt8) (x : ℕ × ℕ) : Option ℕ :=
  if endsBlockAt code x.1 = true ∧ x.1 + x.2 + 1 < code.length then some (x.1 + x.2 + 1) else none

/-- The instructions of a walk that ends in a terminator are a sequence of blocks, and the later
blocks start after the terminators. -/
lemma Decoded.exists_blocks {code : List UInt8} {bitmask : List Bool} {pc : ℕ} {l : List (ℕ × ℕ)}
    (h : Decoded code bitmask pc l)
    (hlast : (lastOpcode code none l).any Opcode.isTermination = true) :
    ∃ blocks : List (BasicBlock code), blocks.flatMap BasicBlock.instructions = l ∧
      blocks.map BasicBlock.start = pc :: l.filterMap (startAfter code) := by
  induction h with
  | done pc hend => cases hlast
  | step pc rest hlt hmarked hdefined hrest ih =>
    set length := argLength bitmask code.length pc 24 0
    cases hrest with
    | done _ hend =>
      have hterm : endsBlockAt code pc = true := hlast
      have hafter : startAfter code (pc, length) = none := by
        rw [startAfter, if_neg (by omega)]
      exact ⟨[.single (pc, length) hterm], rfl, by simp [hafter, BasicBlock.start, BasicBlock.single]⟩
    | step _ rest' hlt' hmarked' hdefined' hrest' =>
      obtain ⟨blocks, hflat, hstarts⟩ := ih (by simpa [lastOpcode, List.getLast?_cons] using hlast)
      cases hterm : endsBlockAt code pc with
      | true =>
        have hafter : startAfter code (pc, length) = some (pc + length + 1) :=
          if_pos ⟨hterm, hlt'⟩
        refine ⟨.single (pc, length) hterm :: blocks, ?_, ?_⟩
        · rw [List.flatMap_cons, hflat]
          rfl
        · rw [List.map_cons, hstarts, List.filterMap_cons_some hafter]
          rfl
      | false =>
        have hafter : startAfter code (pc, length) = none := by
          rw [startAfter, if_neg (by simp [hterm])]
        cases blocks with
        | nil => cases hstarts
        | cons b blocks =>
          refine ⟨.cons (pc, length) hterm b :: blocks, ?_, ?_⟩
          · rw [List.flatMap_cons, BasicBlock.instructions_cons, List.cons_append]
            rw [List.flatMap_cons] at hflat
            rw [hflat]
          · rw [List.map_cons, List.filterMap_cons_none hafter]
            rw [List.map_cons] at hstarts
            rw [(List.cons.inj hstarts).2]
            rfl

/-- `detect_basic_blocks` finds the start of the code and what follows the terminators. -/
lemma Decoded.detectBasicBlocks_eq {code : List UInt8} {bitmask : List Bool} {l : List (ℕ × ℕ)}
    (h : Decoded code bitmask 0 l) (hnonempty : code.length ≠ 0) :
    detectBasicBlocks code l = 0 :: l.filterMap (startAfter code) := by
  have hzero : (l.lookup 0).isSome := by
    rw [isSome_lookup_iff]
    cases h with
    | done _ hend => omega
    | step _ _ _ _ _ _ => exact List.mem_cons_self
  rw [detectBasicBlocks, if_pos hzero, List.singleton_append]
  congr 1
  apply List.filterMap_congr
  rintro ⟨pc, length⟩ hx
  have hlt := (h.spec hx).1
  have hnext : pc + length + 1 < code.length → (l.lookup (pc + length + 1)).isSome := by
    intro hin
    rw [isSome_lookup_iff]
    exact (h.follows hx).resolve_left (by omega)
  by_cases hin : pc + length + 1 < code.length
  · simp only [startAfter, endsBlockAt, hlt, hin, hnext hin, true_and, and_true]
  · simp only [startAfter, hin, false_and, and_false]

/-- The blocks of valid code. -/
lemma PVMCode.exists_blocks (p : PVMCode) (hvalid : p.valid = true) :
    ∃ blocks : List (BasicBlock p.code),
      blocks.flatMap BasicBlock.instructions = (decodeInstructions p.code p.opcodeBitmask).1 ∧
        blocks.map BasicBlock.start = p.basicBlockStarts := by
  obtain ⟨hnonempty, hlength, l, hl, hlast⟩ := decodeInstructions_valid_iff.mp hvalid
  obtain ⟨blocks, hflat, hstarts⟩ := hl.exists_blocks hlast
  refine ⟨blocks, ?_, ?_⟩
  · rw [decodeInstructions_eq hnonempty hlength hl, hflat]
  · rw [PVMCode.basicBlockStarts, decodeInstructions_eq hnonempty hlength hl,
      hl.detectBasicBlocks_eq hnonempty, hstarts]

/-! ## Looking up a block -/

/-- `basic_block_starts_sorted`: the block starts of valid code in increasing order. -/
def PVMCode.basicBlockStartsSorted (p : PVMCode) : List ℕ :=
  p.blocks.mergeSort (fun a b => decide (a ≤ b))

/-- `get_block_start` -/
def getBlockStart (starts : List ℕ) (pc : ℕ) : ℕ :=
  let idx : ℤ := (Bisect.bisectRight starts pc : ℤ) - 1
  if 0 ≤ idx then starts.getD idx.toNat 0 else 0

/-- `get_block_index_jit`: the index of the block, or `-1`. -/
def Numba.getBlockIndexJit (starts : List ℕ) (pc : ℕ) : ℤ :=
  if starts.length = 0 then -1
  else (Bisect.search (fun mid => decide (starts.getD mid 0 ≤ pc)) 0 starts.length : ℤ) - 1

/-- In a list of starts that are at most `pc` followed by later ones, the search finds the last of
the first. -/
lemma getBlockStart_append {l₁ l₂ : List ℕ} {start pc : ℕ} (h₁ : ∀ s ∈ l₁, s ≤ pc)
    (hstart : start ≤ pc) (h₂ : ∀ s ∈ l₂, pc < s) :
    getBlockStart (l₁ ++ start :: l₂) pc = start := by
  have hsplit : l₁ ++ start :: l₂ = (l₁ ++ [start]) ++ l₂ := by simp
  have hfront : ∀ s ∈ l₁ ++ [start], s ≤ pc := by
    intro s hs
    rcases List.mem_append.mp hs with hs | hs
    · exact h₁ s hs
    · rw [List.mem_singleton.mp hs]
      exact hstart
  have hindex : Bisect.bisectRight (l₁ ++ start :: l₂) pc = l₁.length + 1 := by
    rw [hsplit, Bisect.bisectRight_append hfront h₂, List.length_append]
    rfl
  rw [getBlockStart, hindex]
  simp

lemma Numba.getBlockIndexJit_append {l₁ l₂ : List ℕ} {start pc : ℕ} (h₁ : ∀ s ∈ l₁, s ≤ pc)
    (hstart : start ≤ pc) (h₂ : ∀ s ∈ l₂, pc < s) :
    Numba.getBlockIndexJit (l₁ ++ start :: l₂) pc = l₁.length := by
  rw [Numba.getBlockIndexJit, if_neg (by simp)]
  rw [Bisect.search_eq (k := l₁.length + 1) 0 _ ?_ (Nat.zero_le _) (by simp)]
  · push_cast
    ring
  · intro i _ hi
    rw [decide_eq_true_iff]
    rcases Nat.lt_trichotomy i l₁.length with hlt | rfl | hgt
    · rw [List.getD_append _ _ _ _ hlt, List.getD_eq_getElem _ _ hlt]
      exact iff_of_true (h₁ _ (List.getElem_mem hlt)) (by omega)
    · simpa using hstart
    · obtain ⟨k, rfl⟩ : ∃ k, i = l₁.length + (k + 1) := ⟨i - l₁.length - 1, by omega⟩
      have hk : k < l₂.length := by
        rw [List.length_append, List.length_cons] at hi
        omega
      rw [List.getD_append_right _ _ _ _ (by omega), Nat.add_sub_cancel_left, List.getD_cons_succ,
        List.getD_eq_getElem _ _ hk]
      exact iff_of_false (not_le.mpr (h₂ _ (List.getElem_mem hk))) (by omega)

/-- Positions increase inside a block and from block to block. -/
lemma pairwise_of_blocks {code : List UInt8} {blocks : List (BasicBlock code)}
    (h : ((blocks.flatMap BasicBlock.instructions).map Prod.fst).Pairwise (· < ·)) :
    (∀ b ∈ blocks, b.instructions.Pairwise (fun x y => x.1 < y.1)) ∧
      blocks.Pairwise (fun b c => ∀ x ∈ b.instructions, ∀ y ∈ c.instructions, x.1 < y.1) := by
  rw [List.pairwise_map, List.pairwise_flatMap] at h
  exact h

namespace BasicBlock

variable {code : List UInt8}

/-- The first instruction. -/
lemma exists_first (b : BasicBlock code) : ∃ x ∈ b.instructions, x.1 = b.start := by
  obtain ⟨x, hx, heq⟩ := List.mem_map.mp b.start_mem
  exact ⟨x, hx, heq⟩

lemma start_le (b : BasicBlock code) (h : b.instructions.Pairwise (fun x y => x.1 < y.1))
    {x : ℕ × ℕ} (hx : x ∈ b.instructions) : b.start ≤ x.1 := by
  obtain ⟨body, last, _, _⟩ := b
  cases body with
  | nil =>
    rw [List.mem_singleton.mp hx]
    exact le_rfl
  | cons y body =>
    rcases List.mem_cons.mp hx with rfl | hx
    · exact le_rfl
    · exact ((List.pairwise_cons.mp h).1 x hx).le

end BasicBlock

/-- An instruction lies behind the starts of its own and of the earlier blocks, and before the starts
of the later ones. -/
lemma starts_around {code : List UInt8} {before after : List (BasicBlock code)}
    {b : BasicBlock code} {x : ℕ × ℕ}
    (h : (((before ++ b :: after).flatMap BasicBlock.instructions).map Prod.fst).Pairwise (· < ·))
    (hx : x ∈ b.instructions) :
    (∀ s ∈ before.map BasicBlock.start, s ≤ x.1) ∧ b.start ≤ x.1 ∧
      ∀ s ∈ after.map BasicBlock.start, x.1 < s := by
  obtain ⟨hinside, hacross⟩ := pairwise_of_blocks h
  obtain ⟨-, hafter, hbefore⟩ := List.pairwise_append.mp hacross
  refine ⟨?_, b.start_le (hinside b (by simp)) hx, ?_⟩
  · intro s hs
    obtain ⟨c, hc, rfl⟩ := List.mem_map.mp hs
    obtain ⟨y, hy, heq⟩ := c.exists_first
    rw [← heq]
    exact (hbefore c hc b List.mem_cons_self y hy x hx).le
  · intro s hs
    obtain ⟨c, hc, rfl⟩ := List.mem_map.mp hs
    obtain ⟨y, hy, heq⟩ := c.exists_first
    rw [← heq]
    exact (List.pairwise_cons.mp hafter).1 c hc x hx y hy

/-- The starts of blocks increase. -/
lemma pairwise_starts {code : List UInt8} {blocks : List (BasicBlock code)}
    (h : ((blocks.flatMap BasicBlock.instructions).map Prod.fst).Pairwise (· < ·)) :
    (blocks.map BasicBlock.start).Pairwise (· < ·) := by
  rw [List.pairwise_map]
  refine (pairwise_of_blocks h).2.imp ?_
  intro b c hbc
  obtain ⟨x, hx, hxb⟩ := b.exists_first
  obtain ⟨y, hy, hyc⟩ := c.exists_first
  rw [← hxb, ← hyc]
  exact hbc x hx y hy

/-- The positions of valid code increase. -/
lemma PVMCode.pairwise_positions (p : PVMCode) (hvalid : p.valid = true) :
    ((decodeInstructions p.code p.opcodeBitmask).1.map Prod.fst).Pairwise (· < ·) :=
  (exists_decoded_of_valid hvalid).sorted

/-- The blocks of valid code, with the sorted list of their starts. -/
lemma PVMCode.basicBlockStartsSorted_eq (p : PVMCode) (hvalid : p.valid = true)
    {blocks : List (BasicBlock p.code)}
    (hflat : blocks.flatMap BasicBlock.instructions = (decodeInstructions p.code p.opcodeBitmask).1)
    (hstarts : blocks.map BasicBlock.start = p.basicBlockStarts) :
    p.basicBlockStartsSorted = blocks.map BasicBlock.start := by
  have hsorted := p.pairwise_positions hvalid
  rw [← hflat] at hsorted
  rw [PVMCode.basicBlockStartsSorted, PVMCode.blocks, if_pos hvalid, ← hstarts]
  apply List.mergeSort_of_pairwise
  exact (pairwise_starts hsorted).imp (fun hlt => by simpa using hlt.le)

/-- The block that the price of an instruction is looked up under is the one it lies in. -/
lemma PVMCode.getBlockStart_eq (p : PVMCode) (hvalid : p.valid = true)
    {blocks : List (BasicBlock p.code)}
    (hflat : blocks.flatMap BasicBlock.instructions = (decodeInstructions p.code p.opcodeBitmask).1)
    (hstarts : blocks.map BasicBlock.start = p.basicBlockStarts) {b : BasicBlock p.code}
    (hb : b ∈ blocks) {x : ℕ × ℕ} (hx : x ∈ b.instructions) : p.getBlockStart x.1 = b.start := by
  obtain ⟨before, after, rfl⟩ := List.append_of_mem hb
  have hsorted := p.pairwise_positions hvalid
  rw [← hflat] at hsorted
  obtain ⟨h₁, hb, h₂⟩ := starts_around hsorted hx
  have hlt := pairwise_starts hsorted
  rw [List.map_append, List.map_cons, List.pairwise_append] at hlt
  have hkeep : (before.map BasicBlock.start ++ b.start :: after.map BasicBlock.start).filter
      (fun s => decide (s ≤ x.1)) = before.map BasicBlock.start ++ [b.start] := by
    rw [List.filter_append, List.filter_eq_self.mpr (by simpa using h₁),
      List.filter_cons_of_pos (by simpa using hb),
      List.filter_eq_nil_iff.mpr (by simpa using h₂)]
  rw [PVMCode.getBlockStart, PVMCode.blocks, if_pos hvalid, ← hstarts, List.map_append,
    List.map_cons, hkeep]
  apply le_antisymm
  · apply List.max_le_of_forall_le
    intro s hs
    rcases List.mem_append.mp hs with hs | hs
    · exact (hlt.2.2 s hs b.start List.mem_cons_self).le
    · rw [List.mem_singleton.mp hs]
  · exact List.le_max_of_le (List.mem_append_right _ (List.mem_singleton_self _)) le_rfl

/-! ## Every interpreter stays on instructions -/

lemma CPython.mem_of_controlStep {p : PVMCode} {pc argLen pc' : ℕ} {reg : Regs} {op : ControlOp}
    (h : (CPython.controlStep p pc argLen reg op).next = .continue pc') :
    pc' ∈ p.basicBlockStarts := by
  have hsjump : ∀ {v}, CPython.sjump p pc v = .continue pc' → pc' ∈ p.basicBlockStarts := by
    intro v h
    rw [← Graypaper.sjump_eq] at h
    exact Graypaper.mem_of_sjump h
  have hbranch : ∀ {b C}, CPython.branch p pc argLen b C = .continue pc' →
      pc' ∈ p.basicBlockStarts := by
    intro b C h
    rw [← Graypaper.branch_eq] at h
    exact Graypaper.mem_of_branch h
  have hdjump : ∀ {a}, CPython.djump p pc a = .continue pc' → pc' ∈ p.basicBlockStarts := by
    intro a h
    rw [← Graypaper.djump_eq] at h
    exact Graypaper.mem_of_djump h
  cases op with
  | fallthrough => exact hsjump h
  | ecalli => cases h
  | jump => exact hsjump h
  | jumpInd => exact hdjump h
  | regImmOffset o =>
    cases o with
    | loadImmJump => exact hsjump h
    | _ => exact hbranch h
  | regRegOffset o => exact hbranch h
  | loadImmJumpInd => exact hdjump h

/-- A native dynamic jump that goes on goes to a block. -/
lemma Numba.mem_of_djump {p : PVMCode} {pc a pc' : ℕ} (hpc : pc < 2 ^ 25)
    (h : Numba.djump p.jumpTable (Numba.basicBlockStartMask p) pc a = .continue pc') :
    pc' ∈ p.basicBlockStarts := by
  cases htarget : p.dynamicTarget a with
  | none =>
    rw [Numba.djump_of_not_dynamicTarget p pc a htarget, ← Graypaper.djump_eq] at h
    exact Graypaper.mem_of_djump h
  | some e =>
    have hstart : p.isBlockStart (pc + ((e : ℤ) - pc)) = true := by
      rw [PVMCode.dynamicTarget] at htarget
      split_ifs at htarget
      rw [add_sub_cancel]
      exact (Option.filter_eq_some_iff.mp htarget).2
    rw [Numba.djump, Numba.djumpJit_of_dynamicTarget p hpc htarget] at h
    split_ifs at h
    rw [Numba.advance_eq, CPython.advance_eq p hstart, add_sub_cancel, Int.toNat_natCast] at h
    rw [add_sub_cancel] at hstart
    cases h
    exact (p.isBlockStart_natCast _).mp hstart

lemma Numba.mem_of_controlStep {p : PVMCode} {pc argLen pc' : ℕ} {reg : Regs} {op : ControlOp}
    (hpc : pc < 2 ^ 25) (h : (Numba.controlStep p pc argLen reg op).next = .continue pc') :
    pc' ∈ p.basicBlockStarts := by
  have hsjump : ∀ {v}, Numba.sjump (Numba.basicBlockStartMask p) pc v = .continue pc' →
      pc' ∈ p.basicBlockStarts := by
    intro v h
    rw [Numba.sjump_eq, ← Graypaper.sjump_eq] at h
    exact Graypaper.mem_of_sjump h
  have hbranch : ∀ {b C}, Numba.branch (Numba.basicBlockStartMask p) pc argLen b C =
      .continue pc' → pc' ∈ p.basicBlockStarts := by
    intro b C h
    rw [Numba.branch_eq, ← Graypaper.branch_eq] at h
    exact Graypaper.mem_of_branch h
  rw [Numba.controlStep] at h
  split at h
  · cases h
  · next jumpTable hfits =>
    obtain rfl : jumpTable = p.jumpTable := by
      rw [Numba.jumpTableArray] at hfits
      split_ifs at hfits
      exact (Option.some.inj hfits).symm
    cases op with
    | fallthrough => exact hsjump h
    | ecalli => cases h
    | jump => exact hsjump h
    | jumpInd => exact Numba.mem_of_djump hpc h
    | regImmOffset o =>
      cases o with
      | loadImmJump => exact hsjump h
      | _ => exact hbranch h
    | regRegOffset o => exact hbranch h
    | loadImmJumpInd =>
      simp only at h
      split at h
      · cases h
      · exact Numba.mem_of_djump hpc h

/-- Control only goes to the start of a block, in every interpreter. -/
lemma Backend.mem_of_controlStep (B : Backend) {p : PVMCode} {pc argLen pc' : ℕ} {reg : Regs}
    {op : ControlOp} (hpc : pc < 2 ^ 25)
    (h : (B.controlStep p pc argLen reg op).next = .continue pc') : pc' ∈ p.basicBlockStarts := by
  cases B with
  | graypaper => exact Graypaper.mem_of_controlStep h
  | cpython => exact CPython.mem_of_controlStep h
  | numba _ => exact Numba.mem_of_controlStep hpc h

variable {σ : Type*}

/-- The next instruction of a round that goes on: inside a block the following one, after a
terminator the start of a block. -/
lemma Backend.isSome_of_execute (B : Backend) (D : DataPath σ) {p : PVMCode}
    (hvalid : p.valid = true) {pc argLen pc' : ℕ} {opcode : Opcode} {data data' : σ}
    (hfetch : p.fetch pc = some (opcode, argLen))
    (h : execute B.controlStep B.advance D p pc argLen opcode data = .continue pc' data') :
    (p.instArgLen pc').isSome := by
  cases hend : opcode.isTermination with
  | false =>
    rw [execute_advances B D hvalid hfetch hend h]
    exact p.isSome_next hvalid hfetch hend
  | true =>
    have hpc := p.pc_lt (PVMCode.fetch_eq_some.mp hfetch).1
    have hlength := p.code_length_le
    rw [execute.eq_def] at h
    split at h
    · cases h
    · cases hend
    · next htrap _ =>
      split at h
      · exact p.isSome_of_mem_basicBlockStarts
          (B.mem_of_controlStep (by omega) (Executed.ofNext_eq_continue h))
      · next hdata =>
        rw [Opcode.isTermination_of_ofOpcode htrap hdata] at hend
        cases hend

/-- One round leads from an instruction to an instruction. -/
lemma Backend.isSome_of_step (B : Backend) (D : DataPath σ) (gm : GasModel) {p : PVMCode}
    (hvalid : p.valid = true) {s s' : Loop σ} {fee : ℕ} (h : B.step D gm p s = .next fee s') :
    (p.instArgLen s'.pc).isSome := by
  have hmoved := B.step_moved D gm p s
  rw [h] at hmoved
  cases hmoved with
  | next opcode argLen _ hfetch hexec => exact B.isSome_of_execute D hvalid hfetch hexec
  | served argLen _ w _ hfetch hpc hdata =>
    have hlt := PVMCode.next_lt hvalid hfetch rfl
    rw [hpc, Nat.mod_eq_of_lt hlt.2]
    exact p.isSome_next hvalid hfetch rfl

/-- The interpreter gets from one state of its loop to another. -/
def Backend.Reaches (B : Backend) (D : DataPath σ) (gm : GasModel) (p : PVMCode) :
    Loop σ → Loop σ → Prop :=
  Relation.ReflTransGen (fun s s' => ∃ fee, B.step D gm p s = .next fee s')

/-- Decoding answers that code is valid exactly when its marks are well placed and the code ends with
the arguments of the last instruction; the positions found are then the marks.  The blocks of valid
code are its instructions, cut after each terminator; both searches find the block of every
instruction, which is the one it is priced by; and a run that starts at an instruction only ever gets to
instructions. -/
theorem decoding_and_blocks :
    (∀ code bitmask, (decodeInstructions code bitmask).2 = true ↔
      WellMarked code bitmask ∧ Covered code bitmask) ∧
    (∀ code bitmask, (decodeInstructions code bitmask).2 = true →
      (decodeInstructions code bitmask).1.map Prod.fst =
        (List.range code.length).filter (fun i => Marked bitmask i)) ∧
    (∀ p : PVMCode, p.valid = true → ∃ blocks : List (BasicBlock p.code),
      Contiguous 0 (decodeInstructions p.code p.opcodeBitmask).1 p.code.length ∧
      blocks.flatMap BasicBlock.instructions = (decodeInstructions p.code p.opcodeBitmask).1 ∧
      blocks.map BasicBlock.start = p.basicBlockStarts ∧
      ∀ b ∈ blocks, ∀ x ∈ b.instructions,
        getBlockStart p.basicBlockStartsSorted x.1 = b.start ∧ p.getBlockStart x.1 = b.start ∧
        ∃ i : ℕ, Numba.getBlockIndexJit p.basicBlockStartsSorted x.1 = i ∧
          p.basicBlockStartsSorted[i]? = some b.start) ∧
    (∀ (B : Backend) (D : DataPath σ) (gm : GasModel) (p : PVMCode), p.valid = true →
      ∀ s s', (p.instArgLen s.pc).isSome → B.Reaches D gm p s s' →
        (p.instArgLen s'.pc).isSome ∧ Marked p.opcodeBitmask s'.pc) := by
  refine ⟨fun _ _ => decodeInstructions_valid_iff_wellMarked, ?_, ?_, ?_⟩
  · intro code bitmask hvalid
    rw [(exists_decoded_of_valid hvalid).positions, List.range_eq_range', Nat.sub_zero]
  · intro p hvalid
    obtain ⟨blocks, hflat, hstarts⟩ := p.exists_blocks hvalid
    refine ⟨blocks, (exists_decoded_of_valid hvalid).contiguous (Nat.zero_le _), hflat, hstarts, ?_⟩
    intro b hb x hx
    have hpriced := p.getBlockStart_eq hvalid hflat hstarts hb hx
    have hsorted := p.pairwise_positions hvalid
    rw [← hflat] at hsorted
    rw [p.basicBlockStartsSorted_eq hvalid hflat hstarts]
    obtain ⟨before, after, rfl⟩ := List.append_of_mem hb
    obtain ⟨h₁, hb, h₂⟩ := starts_around hsorted hx
    rw [List.map_append, List.map_cons]
    exact ⟨getBlockStart_append h₁ hb h₂, hpriced, _, Numba.getBlockIndexJit_append h₁ hb h₂, by simp⟩
  · intro B D gm p hvalid s s' hs hreach
    have hsome : (p.instArgLen s'.pc).isSome := by
      induction hreach with
      | refl => exact hs
      | tail _ hstep _ =>
        obtain ⟨fee, hstep⟩ := hstep
        exact B.isSome_of_step D gm hvalid hstep
    refine ⟨hsome, ?_⟩
    rw [PVMCode.instArgLen, isSome_lookup_iff] at hsome
    exact ((exists_decoded_of_valid hvalid).mem_iff.mp hsome).2.2

/-- Three blocks: a `fallthrough`, a `load_imm` with a `fallthrough`, and a trap. -/
def threeBlocks : PVMCode where
  code := [1, 51, 7, 5, 1, 0]
  opcodeBitmask := [true, true, false, false, true, true]
  jumpTable := []
  code_length_le := by decide
  jumpTable_length_le := nil_length_le

/-- The marks of the three blocks are their instructions, the search finds the block of each, and no run
from the start leaves the instructions. -/
theorem threeBlocks_decoded :
    WellMarked threeBlocks.code threeBlocks.opcodeBitmask ∧
    (decodeInstructions threeBlocks.code threeBlocks.opcodeBitmask).1.map Prod.fst = [0, 1, 4, 5] ∧
    threeBlocks.basicBlockStarts = [0, 1, 5] ∧
    (∃ blocks : List (BasicBlock threeBlocks.code), blocks.map BasicBlock.start = [0, 1, 5] ∧
      ∀ b ∈ blocks, ∀ x ∈ b.instructions,
        getBlockStart threeBlocks.basicBlockStartsSorted x.1 = b.start) ∧
    ∀ (B : Backend) (D : DataPath Unit) (gm : GasModel) (s s' : Loop Unit), s.pc = 0 →
      B.Reaches D gm threeBlocks s s' → Marked threeBlocks.opcodeBitmask s'.pc := by
  obtain ⟨hmarked, hpositions, hblocks, hruns⟩ := decoding_and_blocks (σ := Unit)
  have hvalid : threeBlocks.valid = true := by decide
  obtain ⟨blocks, -, hflat, hstarts, hsearch⟩ := hblocks threeBlocks hvalid
  have hstarts' : threeBlocks.basicBlockStarts = [0, 1, 5] := by decide
  refine ⟨((hmarked _ _).mp hvalid).1, ?_, hstarts',
    ⟨blocks, hstarts.trans hstarts', fun b hb x hx => (hsearch b hb x hx).1⟩, ?_⟩
  · rw [hpositions _ _ hvalid]
    decide
  · intro B D gm s s' hs hreach
    refine (hruns B D gm threeBlocks hvalid s s' ?_ hreach).2
    rw [hs]
    decide

end Pvm
