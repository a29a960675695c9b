import Mathlib.Data.List.Basic
import Mathlib.Data.Nat.Notation
import Mathlib.Tactic.Common
import Pyjamaz.Library.Dict
import Pyjamaz.Pvm.Machine

/-!
# Programs, instruction starts and basic blocks

`PVMCode` is a decoded code blob: the code, the bitmask that marks instruction starts, and the jump
table.  Decoding enforces the two size limits, which are fields of the structure; the entries of the
jump table are unsigned integers of whatever width the blob declares, so they are arbitrary numbers.

`decodeInstructions` walks the bitmask and `detectBasicBlocks` derives the set of basic-block starts
from it.  All three interpreters call these two functions, so the model has them once.
-/

namespace Pvm

/-- `PVMCode`, with the limits that `from_jam_bytes` checks. -/
structure PVMCode where
  code : List UInt8
  opcodeBitmask : List Bool
  jumpTable : List ℕ
  code_length_le : code.length ≤ 2 ^ 25
  jumpTable_length_le : jumpTable.length ≤ 2 ^ 24

lemma nil_length_le : ([] : List ℕ).length ≤ 2 ^ 24 := Nat.zero_le _

/-! ## Decoding -/

/-- The inner loop of `decode_instructions`: argument bytes run to the next marked byte, the end of
the code, or 24 bytes. -/
def argLength (bitmask : List Bool) (codeLength pc : ℕ) : ℕ → ℕ → ℕ
  | 0, length => length
  | remaining + 1, length =>
    if pc + length + 1 < codeLength ∧ bitmask.getD (pc + length + 1) false = false then
      argLength bitmask codeLength pc remaining (length + 1)
    else length

/-- The outer loop of `decode_instructions`.  The `positions` and `lengths` of the source are kept
together as pairs of an instruction's position and the length of its arguments. -/
def decodeLoop (code : List UInt8) (bitmask : List Bool) :
    ℕ → ℕ → List (ℕ × ℕ) → Option Opcode → List (ℕ × ℕ) × Bool
  | 0, _, positions, _ => (positions, false)
  | fuel + 1, pc, positions, lastOpcode =>
    if pc < code.length then
      match bitmask.getD pc false, Opcode.ofValue (byteAt code pc) with
      | true, some opcode =>
        let length := argLength bitmask code.length pc 24 0
        decodeLoop code bitmask fuel (pc + length + 1) (positions ++ [(pc, length)]) (some opcode)
      | _, _ => (positions, false)
    else (positions, lastOpcode.any Opcode.isTermination)

/-- `decode_instructions`: the instructions found and whether the whole blob is valid.  Every round
of the loop advances, so one round per byte and one to finish are enough. -/
def decodeInstructions (code : List UInt8) (bitmask : List Bool) : List (ℕ × ℕ) × Bool :=
  if code.length = 0 ∨ code.length ≠ bitmask.length then ([], false)
  else decodeLoop code bitmask (code.length + 1) 0 [] none

/-- `inst_pos` with `inst_arg_len`: the argument length of the instruction that starts at `pc`. -/
def PVMCode.instArgLen (p : PVMCode) (pc : ℕ) : Option ℕ :=
  (decodeInstructions p.code p.opcodeBitmask).1.lookup pc

/-- `code_valid` -/
def PVMCode.valid (p : PVMCode) : Bool := (decodeInstructions p.code p.opcodeBitmask).2

/-- `detect_basic_blocks`: entry zero and the instructions that follow a terminator. -/
def detectBasicBlocks (code : List UInt8) (positions : List (ℕ × ℕ)) : List ℕ :=
  (if (positions.lookup 0).isSome then [0] else []) ++
    positions.filterMap (fun (pc, length) =>
      if pc < code.length ∧ (Opcode.ofValue (byteAt code pc)).any Opcode.isTermination ∧
          pc + length + 1 < code.length ∧ (positions.lookup (pc + length + 1)).isSome then
        some (pc + length + 1)
      else none)

/-- `basic_block_starts_set` -/
def PVMCode.basicBlockStarts (p : PVMCode) : List ℕ :=
  detectBasicBlocks p.code (decodeInstructions p.code p.opcodeBitmask).1

/-! ## Where instructions and blocks can start -/

lemma isSome_lookup_iff {positions : List (ℕ × ℕ)} {pc : ℕ} :
    (positions.lookup pc).isSome ↔ pc ∈ positions.map Prod.fst := by
  rw [Option.isSome_iff_ne_none, ne_eq, Dict.lookup_eq_none_iff, not_not]

/-- Every block start is an instruction start. -/
lemma mem_positions_of_mem_detectBasicBlocks {code : List UInt8} {positions : List (ℕ × ℕ)} {s : ℕ}
    (h : s ∈ detectBasicBlocks code positions) : s ∈ positions.map Prod.fst := by
  rw [detectBasicBlocks, List.mem_append] at h
  rcases h with h | h
  · split at h
    · next hzero =>
      obtain rfl : s = 0 := by simpa using h
      exact isSome_lookup_iff.mp hzero
    · simp at h
  · obtain ⟨⟨pc, length⟩, -, hstart⟩ := List.mem_filterMap.mp h
    simp only at hstart
    split at hstart
    · next hcond =>
      cases hstart
      exact isSome_lookup_iff.mp hcond.2.2.2
    · cases hstart

/-- Decoding only records positions inside the code. -/
lemma decodeLoop_positions_lt (code : List UInt8) (bitmask : List Bool) (fuel : ℕ) :
    ∀ (pc : ℕ) (positions : List (ℕ × ℕ)) (last : Option Opcode),
      (∀ x ∈ positions, x.1 < code.length) →
      ∀ x ∈ (decodeLoop code bitmask fuel pc positions last).1, x.1 < code.length := by
  induction fuel with
  | zero =>
    intro pc positions last hpos x hx
    exact hpos x hx
  | succ fuel ih =>
    intro pc positions last hpos x hx
    rw [decodeLoop] at hx
    split at hx
    · next hlt =>
      split at hx
      · refine ih _ _ _ ?_ x hx
        intro y hy
        rcases List.mem_append.mp hy with hy | hy
        · exact hpos y hy
        · obtain rfl : y = _ := by simpa using hy
          exact hlt
      · exact hpos x hx
    · exact hpos x hx

lemma PVMCode.basicBlockStart_lt (p : PVMCode) {s : ℕ} (h : s ∈ p.basicBlockStarts) :
    s < p.code.length := by
  obtain ⟨x, hx, rfl⟩ := List.mem_map.mp (mem_positions_of_mem_detectBasicBlocks h)
  rw [decodeInstructions] at hx
  split at hx
  · simp at hx
  · exact decodeLoop_positions_lt _ _ _ _ _ _ (by simp) x hx

/-- An instruction start lies inside the code. -/
lemma PVMCode.pc_lt (p : PVMCode) {pc len : ℕ} (h : p.instArgLen pc = some len) :
    pc < p.code.length := by
  have hmem : pc ∈ (decodeInstructions p.code p.opcodeBitmask).1.map Prod.fst := by
    apply isSome_lookup_iff.mp
    rw [PVMCode.instArgLen] at h
    rw [h]
    rfl
  obtain ⟨x, hx, rfl⟩ := List.mem_map.mp hmem
  rw [decodeInstructions] at hx
  split at hx
  · simp at hx
  · exact decodeLoop_positions_lt _ _ _ _ _ _ (by simp) x hx

lemma argLength_le (bitmask : List Bool) (codeLength pc : ℕ) (remaining : ℕ) :
    ∀ length, argLength bitmask codeLength pc remaining length ≤ length + remaining := by
  induction remaining with
  | zero =>
    intro length
    exact le_rfl
  | succ remaining ih =>
    intro length
    rw [argLength]
    split
    · have := ih (length + 1)
      omega
    · omega

/-! ## Valid code -/

/-- What decoding knows of a recorded instruction: its opcode exists, and the instruction that
follows it is recorded too, or is the one the loop is about to read and its opcode is the last one
seen. -/
def Followed (code : List UInt8) (positions : List (ℕ × ℕ)) (pc : ℕ) (last : Option Opcode)
    (x : ℕ × ℕ) : Prop :=
  (Opcode.ofValue (byteAt code x.1)).isSome ∧
    (x.1 + x.2 + 1 ∈ positions.map Prod.fst ∨
      x.1 + x.2 + 1 = pc ∧ last = Opcode.ofValue (byteAt code x.1))

/-- In code that decodes to the end, every instruction that does not end a block is followed by
another one. -/
lemma decodeLoop_followed (code : List UInt8) (bitmask : List Bool) (fuel : ℕ) :
    ∀ (pc : ℕ) (positions : List (ℕ × ℕ)) (last : Option Opcode),
      (∀ x ∈ positions, Followed code positions pc last x) →
      (decodeLoop code bitmask fuel pc positions last).2 = true →
      ∀ x ∈ (decodeLoop code bitmask fuel pc positions last).1,
        (Opcode.ofValue (byteAt code x.1)).isSome ∧
          (x.1 + x.2 + 1 ∈ (decodeLoop code bitmask fuel pc positions last).1.map Prod.fst ∨
            (Opcode.ofValue (byteAt code x.1)).any Opcode.isTermination = true) := by
  induction fuel with
  | zero =>
    intro pc positions last _ hvalid
    simp [decodeLoop] at hvalid
  | succ fuel ih =>
    intro pc positions last hpos hvalid x hx
    rw [decodeLoop] at hvalid hx ⊢
    split at hvalid
    · next hlt =>
      rw [if_pos hlt] at hx ⊢
      split at hvalid
      · next opcode hmarked hopcode =>
        simp only [hmarked, hopcode] at hx ⊢
        refine ih _ _ _ ?_ hvalid x hx
        intro y hy
        rcases List.mem_append.mp hy with hy | hy
        · obtain ⟨hsome, hnext⟩ := hpos y hy
          refine ⟨hsome, Or.inl ?_⟩
          rw [List.map_append, List.mem_append]
          rcases hnext with hnext | ⟨hnext, -⟩
          · exact Or.inl hnext
          · exact Or.inr (by simp [hnext])
        · obtain rfl : y = _ := by simpa using hy
          exact ⟨by simp [hopcode], Or.inr ⟨rfl, hopcode.symm⟩⟩
      · simp at hvalid
    · next hend =>
      rw [if_neg hend] at hx ⊢
      obtain ⟨hsome, hnext⟩ := hpos x hx
      refine ⟨hsome, ?_⟩
      rcases hnext with hnext | ⟨-, hlast⟩
      · exact Or.inl hnext
      · exact Or.inr (by rw [← hlast]; exact hvalid)

/-- Decoding forgets nothing it has recorded. -/
lemma subset_decodeLoop (code : List UInt8) (bitmask : List Bool) (fuel : ℕ) :
    ∀ (pc : ℕ) (positions : List (ℕ × ℕ)) (last : Option Opcode),
      positions ⊆ (decodeLoop code bitmask fuel pc positions last).1 := by
  induction fuel with
  | zero =>
    intro pc positions last
    exact List.Subset.refl _
  | succ fuel ih =>
    intro pc positions last
    rw [decodeLoop]
    split
    · split
      · exact List.Subset.trans (List.subset_append_left _ _) (ih _ _ _)
      · exact List.Subset.refl _
    · exact List.Subset.refl _

/-- The instruction at a position, with the length of its arguments. -/
def PVMCode.fetch (p : PVMCode) (pc : ℕ) : Option (Opcode × ℕ) :=
  match p.instArgLen pc, Opcode.ofValue (byteAt p.code pc) with
  | some argLen, some opcode => some (opcode, argLen)
  | _, _ => none

lemma PVMCode.fetch_eq_some {p : PVMCode} {pc argLen : ℕ} {opcode : Opcode} :
    p.fetch pc = some (opcode, argLen) ↔
      p.instArgLen pc = some argLen ∧ Opcode.ofValue (byteAt p.code pc) = some opcode := by
  rw [PVMCode.fetch]
  cases p.instArgLen pc <;> cases Opcode.ofValue (byteAt p.code pc) <;> simp [and_comm]

lemma mem_of_lookup_eq_some {positions : List (ℕ × ℕ)} {pc argLen : ℕ}
    (h : positions.lookup pc = some argLen) : (pc, argLen) ∈ positions := by
  obtain ⟨l₁, l₂, hsplit, -⟩ := List.lookup_eq_some_iff.mp h
  rw [hsplit]
  simp

/-- What a recorded instruction of valid code is followed by. -/
lemma PVMCode.followed (p : PVMCode) (hvalid : p.valid = true) {pc argLen : ℕ}
    (h : p.instArgLen pc = some argLen) :
    (Opcode.ofValue (byteAt p.code pc)).isSome ∧
      ((p.instArgLen (pc + argLen + 1)).isSome ∨
        (Opcode.ofValue (byteAt p.code pc)).any Opcode.isTermination = true) := by
  have hmem := mem_of_lookup_eq_some h
  rw [PVMCode.valid] at hvalid
  rw [PVMCode.instArgLen, isSome_lookup_iff]
  rw [decodeInstructions] at hmem hvalid ⊢
  split at hvalid
  · cases hvalid
  · next hlength =>
    rw [if_neg hlength] at hmem ⊢
    exact decodeLoop_followed _ _ _ _ _ _ (by simp) hvalid _ hmem

/-- Every position of valid code can be fetched. -/
lemma PVMCode.exists_fetch (p : PVMCode) (hvalid : p.valid = true) {pc : ℕ}
    (h : (p.instArgLen pc).isSome) : ∃ opcode argLen, p.fetch pc = some (opcode, argLen) := by
  obtain ⟨argLen, hlen⟩ := Option.isSome_iff_exists.mp h
  obtain ⟨opcode, hopcode⟩ := Option.isSome_iff_exists.mp (p.followed hvalid hlen).1
  exact ⟨opcode, argLen, PVMCode.fetch_eq_some.mpr ⟨hlen, hopcode⟩⟩

/-- An instruction of valid code that ends no block is followed by an instruction. -/
lemma PVMCode.isSome_next (p : PVMCode) (hvalid : p.valid = true) {pc argLen : ℕ} {opcode : Opcode}
    (h : p.fetch pc = some (opcode, argLen)) (hend : opcode.isTermination = false) :
    (p.instArgLen (pc + argLen + 1)).isSome := by
  obtain ⟨hlen, hopcode⟩ := PVMCode.fetch_eq_some.mp h
  rcases (p.followed hvalid hlen).2 with hnext | hterm
  · exact hnext
  · rw [hopcode] at hterm
    simp [hend] at hterm

/-- Valid code starts with an instruction. -/
lemma PVMCode.isSome_zero (p : PVMCode) (hvalid : p.valid = true) : (p.instArgLen 0).isSome := by
  rw [PVMCode.instArgLen, isSome_lookup_iff]
  rw [PVMCode.valid] at hvalid
  rw [decodeInstructions] at hvalid ⊢
  split at hvalid
  · cases hvalid
  · next hlength =>
    have hpos : 0 < p.code.length := Nat.pos_of_ne_zero (fun h => hlength (Or.inl h))
    rw [if_neg hlength]
    rw [decodeLoop, if_pos hpos] at hvalid ⊢
    split at hvalid
    · next opcode hmarked hopcode =>
      have hsub := subset_decodeLoop p.code p.opcodeBitmask p.code.length
        (0 + argLength p.opcodeBitmask p.code.length 0 24 0 + 1)
        ([] ++ [(0, argLength p.opcodeBitmask p.code.length 0 24 0)]) (some opcode)
      exact List.mem_map.mpr ⟨_, hsub List.mem_cons_self, rfl⟩
    · cases hvalid

lemma PVMCode.zero_mem_basicBlockStarts (p : PVMCode) (hvalid : p.valid = true) :
    0 ∈ p.basicBlockStarts := by
  have hzero := p.isSome_zero hvalid
  rw [PVMCode.instArgLen] at hzero
  rw [PVMCode.basicBlockStarts, detectBasicBlocks, if_pos hzero]
  simp

/-- Every block start can be fetched. -/
lemma PVMCode.isSome_of_mem_basicBlockStarts (p : PVMCode) {s : ℕ} (h : s ∈ p.basicBlockStarts) :
    (p.instArgLen s).isSome := by
  rw [PVMCode.instArgLen, isSome_lookup_iff]
  exact mem_positions_of_mem_detectBasicBlocks h

end Pvm
