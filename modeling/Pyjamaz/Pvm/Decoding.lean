import Mathlib.Data.List.GetD
import Mathlib.Data.List.Range
import Mathlib.Data.Nat.Find
import Pyjamaz.Pvm.Program

/-!
# Which code is valid

`decode_instructions` walks the bitmask from instruction to instruction.  `Decoded` is the list of
instructions that such a walk finds, one rule for each round of the loop, and everything about valid
code is read off it: the positions are the set bits, every instruction starts where the one before it
ends, and the last one ends its block.

An instruction has at most 24 argument bytes.  That bounds the distance between two set bits, and
also the distance from the last one to the end of the code: code that goes on for longer after its
last instruction is not valid, although its set bits may be well placed (`longTail_not_valid`).
-/

namespace Pvm

/-! ## The bitmask of valid code -/

/-- The bitmask marks a position as an instruction start. -/
def Marked (bitmask : List Bool) (i : ℕ) : Prop := bitmask.getD i false = true

instance (bitmask : List Bool) (i : ℕ) : Decidable (Marked bitmask i) :=
  inferInstanceAs (Decidable (_ = true))

/-- Two marked positions with no marked one between them. -/
def Consecutive (bitmask : List Bool) (i j : ℕ) : Prop :=
  Marked bitmask i ∧ Marked bitmask j ∧ i < j ∧ ∀ k, i < k → k < j → ¬ Marked bitmask k

/-- The last marked position. -/
def LastMarked (bitmask : List Bool) (i : ℕ) : Prop :=
  Marked bitmask i ∧ ∀ k, i < k → ¬ Marked bitmask k

/-- The byte at a position is the opcode of a terminator. -/
def endsBlockAt (code : List UInt8) (pc : ℕ) : Bool :=
  (Opcode.ofValue (byteAt code pc)).any Opcode.isTermination

/-- A bitmask that marks instructions: it is as long as the code and marks its first byte, every
marked byte is an opcode, no two consecutive ones are more than 25 apart and the last one is a
terminator. -/
structure WellMarked (code : List UInt8) (bitmask : List Bool) : Prop where
  nonempty : code.length ≠ 0
  length_eq : code.length = bitmask.length
  first : Marked bitmask 0
  defined : ∀ i, Marked bitmask i → (Opcode.ofValue (byteAt code i)).isSome
  spaced : ∀ i j, Consecutive bitmask i j → j ≤ i + 25
  terminated : ∀ i, LastMarked bitmask i → endsBlockAt code i = true

/-- The code ends with the arguments of its last instruction. -/
def Covered (code : List UInt8) (bitmask : List Bool) : Prop :=
  ∀ i, LastMarked bitmask i → code.length ≤ i + 25

lemma Marked.lt {bitmask : List Bool} {i : ℕ} (h : Marked bitmask i) : i < bitmask.length := by
  by_contra hout
  rw [Marked, List.getD_eq_default _ _ (not_lt.mp hout)] at h
  cases h

/-! ## The walk -/

/-- The instructions that decoding finds from a position to the end of the code. -/
inductive Decoded (code : List UInt8) (bitmask : List Bool) : ℕ → List (ℕ × ℕ) → Prop
  | done (pc : ℕ) (h : code.length ≤ pc) : Decoded code bitmask pc []
  | step (pc : ℕ) (rest : List (ℕ × ℕ)) (h : pc < code.length) (hmarked : Marked bitmask pc)
      (hdefined : (Opcode.ofValue (byteAt code pc)).isSome)
      (hrest : Decoded code bitmask (pc + argLength bitmask code.length pc 24 0 + 1) rest) :
      Decoded code bitmask pc ((pc, argLength bitmask code.length pc 24 0) :: rest)

/-- The opcode of the last instruction found, or the one seen before. -/
def lastOpcode (code : List UInt8) (last : Option Opcode) (l : List (ℕ × ℕ)) : Option Opcode :=
  match l.getLast? with
  | none => last
  | some x => Opcode.ofValue (byteAt code x.1)

/-- What one argument length says about the bytes that follow: they are not marked, and the length
stops at the limit, at the end of the code or at a marked byte. -/
lemma argLength_spec (bitmask : List Bool) (codeLength pc remaining : ℕ) :
    ∀ length, pc + length < codeLength →
      pc + argLength bitmask codeLength pc remaining length < codeLength ∧
      length ≤ argLength bitmask codeLength pc remaining length ∧
      (∀ k, pc + length < k → k ≤ pc + argLength bitmask codeLength pc remaining length →
        ¬ Marked bitmask k) ∧
      (argLength bitmask codeLength pc remaining length = length + remaining ∨
        pc + argLength bitmask codeLength pc remaining length + 1 = codeLength ∨
        Marked bitmask (pc + argLength bitmask codeLength pc remaining length + 1)) := by
  induction remaining with
  | zero =>
    intro length hlt
    rw [argLength]
    exact ⟨hlt, le_rfl, fun k hk hk' => absurd hk (not_lt.mpr hk'), Or.inl rfl⟩
  | succ remaining ih =>
    intro length hlt
    rw [argLength]
    split
    · next hmore =>
      obtain ⟨hin, hle, hclear, hstop⟩ := ih (length + 1) (by omega)
      refine ⟨hin, by omega, ?_, ?_⟩
      · intro k hk hk'
        rcases Nat.eq_or_lt_of_le (show pc + length + 1 ≤ k by omega) with rfl | hbeyond
        · rw [Marked, hmore.2]
          exact Bool.false_ne_true
        · exact hclear k (by omega) hk'
      · rcases hstop with hstop | hstop
        · exact Or.inl (by omega)
        · exact Or.inr hstop
    · next hstop =>
      refine ⟨hlt, le_rfl, fun k hk hk' => absurd hk (not_lt.mpr hk'), Or.inr ?_⟩
      by_cases hend : pc + length + 1 < codeLength
      · have hmarked : bitmask.getD (pc + length + 1) false ≠ false := fun h => hstop ⟨hend, h⟩
        exact Or.inr (by rw [Marked]; exact Bool.eq_true_of_not_eq_false hmarked)
      · exact Or.inl (by omega)

/-- Where the next instruction is, and what lies before it. -/
lemma argLength_next (bitmask : List Bool) {codeLength pc : ℕ} (h : pc < codeLength) :
    pc + argLength bitmask codeLength pc 24 0 + 1 ≤ codeLength ∧
      argLength bitmask codeLength pc 24 0 ≤ 24 ∧
      (∀ k, pc < k → k < pc + argLength bitmask codeLength pc 24 0 + 1 → ¬ Marked bitmask k) ∧
      (argLength bitmask codeLength pc 24 0 = 24 ∨
        pc + argLength bitmask codeLength pc 24 0 + 1 = codeLength ∨
        Marked bitmask (pc + argLength bitmask codeLength pc 24 0 + 1)) := by
  obtain ⟨hin, -, hclear, hstop⟩ := argLength_spec bitmask codeLength pc 24 0 (by omega)
  have hle := argLength_le bitmask codeLength pc 24 0
  refine ⟨by omega, by omega, fun k hk hk' => hclear k (by omega) (by omega), ?_⟩
  rwa [Nat.zero_add] at hstop

/-- A loop that runs to the end has walked from instruction to instruction. -/
lemma decoded_of_decodeLoop {code : List UInt8} {bitmask : List Bool} (fuel : ℕ) :
    ∀ {pc : ℕ} {positions : List (ℕ × ℕ)} {last : Option Opcode},
      (decodeLoop code bitmask fuel pc positions last).2 = true →
      ∃ l, Decoded code bitmask pc l := by
  induction fuel with
  | zero =>
    intro pc positions last h
    cases h
  | succ fuel ih =>
    intro pc positions last h
    rw [decodeLoop] at h
    split at h
    · next hlt =>
      split at h
      · next opcode hmarked hopcode =>
        obtain ⟨rest, hrest⟩ := ih h
        exact ⟨_, .step pc rest hlt hmarked (by rw [hopcode]; rfl) hrest⟩
      · cases h
    · next hend => exact ⟨[], .done pc (not_lt.mp hend)⟩

/-- What the loop answers where the walk is possible. -/
lemma Decoded.decodeLoop_eq {code : List UInt8} {bitmask : List Bool} {pc : ℕ}
    {l : List (ℕ × ℕ)} (h : Decoded code bitmask pc l) :
    ∀ {fuel : ℕ} {positions : List (ℕ × ℕ)} {last : Option Opcode}, code.length - pc < fuel →
      decodeLoop code bitmask fuel pc positions last =
        (positions ++ l, (lastOpcode code last l).any Opcode.isTermination) := by
  induction h with
  | done pc hend =>
    intro fuel positions last hfuel
    obtain ⟨fuel, rfl⟩ : ∃ n, fuel = n + 1 := ⟨fuel - 1, by omega⟩
    rw [decodeLoop, if_neg (not_lt.mpr hend), List.append_nil]
    rfl
  | step pc rest hlt hmarked hdefined hrest ih =>
    intro fuel positions last hfuel
    obtain ⟨fuel, rfl⟩ : ∃ n, fuel = n + 1 := ⟨fuel - 1, by omega⟩
    obtain ⟨opcode, hopcode⟩ := Option.isSome_iff_exists.mp hdefined
    have hmarked' : bitmask.getD pc false = true := hmarked
    have hlast : lastOpcode code (some opcode) rest =
        lastOpcode code last ((pc, argLength bitmask code.length pc 24 0) :: rest) := by
      rw [lastOpcode, lastOpcode, List.getLast?_cons]
      cases rest.getLast? with
      | none => exact hopcode.symm
      | some x => rfl
    rw [decodeLoop, if_pos hlt]
    simp only [hmarked', hopcode]
    rw [ih (by omega), hlast, List.append_assoc]
    rfl

/-- Decoding, as a walk over the whole code. -/
lemma decodeInstructions_valid_iff {code : List UInt8} {bitmask : List Bool} :
    (decodeInstructions code bitmask).2 = true ↔
      code.length ≠ 0 ∧ code.length = bitmask.length ∧ ∃ l, Decoded code bitmask 0 l ∧
        (lastOpcode code none l).any Opcode.isTermination = true := by
  rw [decodeInstructions]
  split
  · next hbad =>
    refine iff_of_false Bool.false_ne_true ?_
    rintro ⟨hnonempty, hlength, -⟩
    rcases hbad with hbad | hbad
    · exact hnonempty hbad
    · exact hbad hlength
  · next hgood =>
    obtain ⟨hnonempty, hlength⟩ := not_or.mp hgood
    constructor
    · intro h
      obtain ⟨l, hl⟩ := decoded_of_decodeLoop _ h
      rw [hl.decodeLoop_eq (by omega)] at h
      exact ⟨hnonempty, not_not.mp hlength, l, hl, h⟩
    · rintro ⟨-, -, l, hl, hlast⟩
      rw [hl.decodeLoop_eq (by omega)]
      exact hlast

/-- The instructions of valid code are those of the walk. -/
lemma decodeInstructions_eq {code : List UInt8} {bitmask : List Bool} {l : List (ℕ × ℕ)}
    (hnonempty : code.length ≠ 0) (hlength : code.length = bitmask.length)
    (hl : Decoded code bitmask 0 l) : (decodeInstructions code bitmask).1 = l := by
  rw [decodeInstructions, if_neg (by rintro (h | h) <;> [exact hnonempty h; exact h hlength]),
    hl.decodeLoop_eq (by omega)]
  rfl

/-! ## What the walk finds -/

/-- Instructions one after the other, each of which starts where the one before it ends. -/
def Contiguous : ℕ → List (ℕ × ℕ) → ℕ → Prop
  | pc, [], stop => pc = stop
  | pc, x :: rest, stop => x.1 = pc ∧ Contiguous (pc + x.2 + 1) rest stop

lemma Decoded.contiguous {code : List UInt8} {bitmask : List Bool} {pc : ℕ} {l : List (ℕ × ℕ)}
    (h : Decoded code bitmask pc l) (hpc : pc ≤ code.length) : Contiguous pc l code.length := by
  induction h with
  | done pc hend => exact le_antisymm hpc hend
  | step pc rest hlt hmarked hdefined hrest ih =>
    exact ⟨rfl, ih (argLength_next bitmask hlt).1⟩

/-- The positions found are the marked ones. -/
lemma Decoded.positions {code : List UInt8} {bitmask : List Bool} {pc : ℕ} {l : List (ℕ × ℕ)}
    (h : Decoded code bitmask pc l) :
    l.map Prod.fst = (List.range' pc (code.length - pc)).filter (fun i => Marked bitmask i) := by
  induction h with
  | done pc hend =>
    rw [Nat.sub_eq_zero_of_le hend]
    rfl
  | step pc rest hlt hmarked hdefined hrest ih =>
    obtain ⟨hle, -, hclear, -⟩ := argLength_next bitmask hlt
    set length := argLength bitmask code.length pc 24 0
    have hsplit : List.range' pc (code.length - pc) =
        pc :: (List.range' (pc + 1) length ++
          List.range' (pc + length + 1) (code.length - (pc + length + 1))) := by
      have hcount : code.length - pc =
          (length + (code.length - (pc + length + 1))) + 1 := by omega
      rw [hcount, List.range'_succ, ← List.range'_append_1, Nat.add_right_comm pc 1 length]
    have hnone : (List.range' (pc + 1) length).filter (fun i => Marked bitmask i) = [] := by
      rw [List.filter_eq_nil_iff]
      intro i hi
      obtain ⟨hi₁, hi₂⟩ := List.mem_range'_1.mp hi
      simpa using hclear i (by omega) (by omega)
    rw [hsplit, List.filter_cons_of_pos (by simpa using hmarked), List.filter_append, hnone,
      List.map_cons, ih]
    rfl

lemma Decoded.mem_iff {code : List UInt8} {bitmask : List Bool} {pc : ℕ} {l : List (ℕ × ℕ)}
    (h : Decoded code bitmask pc l) {i : ℕ} :
    i ∈ l.map Prod.fst ↔ pc ≤ i ∧ i < code.length ∧ Marked bitmask i := by
  rw [h.positions, List.mem_filter, List.mem_range'_1, decide_eq_true_iff]
  constructor
  · rintro ⟨⟨hle, hlt⟩, hmarked⟩
    exact ⟨hle, by omega, hmarked⟩
  · rintro ⟨hle, hlt, hmarked⟩
    exact ⟨⟨hle, by omega⟩, hmarked⟩

lemma Decoded.sorted {code : List UInt8} {bitmask : List Bool} {pc : ℕ} {l : List (ℕ × ℕ)}
    (h : Decoded code bitmask pc l) : (l.map Prod.fst).Pairwise (· < ·) := by
  rw [h.positions]
  exact List.Pairwise.filter _ List.pairwise_lt_range'

/-- What is known of each instruction found. -/
lemma Decoded.spec {code : List UInt8} {bitmask : List Bool} {pc : ℕ} {l : List (ℕ × ℕ)}
    (h : Decoded code bitmask pc l) {x : ℕ × ℕ} (hx : x ∈ l) :
    x.1 < code.length ∧ (Opcode.ofValue (byteAt code x.1)).isSome ∧
      x.2 = argLength bitmask code.length x.1 24 0 := by
  induction h with
  | done pc hend => cases hx
  | step pc rest hlt hmarked hdefined hrest ih =>
    rcases List.mem_cons.mp hx with rfl | hx
    · exact ⟨hlt, hdefined, rfl⟩
    · exact ih hx

/-- After an instruction comes another one, or the end of the code. -/
lemma Decoded.follows {code : List UInt8} {bitmask : List Bool} {pc : ℕ} {l : List (ℕ × ℕ)}
    (h : Decoded code bitmask pc l) {x : ℕ × ℕ} (hx : x ∈ l) :
    x.1 + x.2 + 1 = code.length ∨ x.1 + x.2 + 1 ∈ l.map Prod.fst := by
  induction h with
  | done pc hend => cases hx
  | step pc rest hlt hmarked hdefined hrest ih =>
    rcases List.mem_cons.mp hx with rfl | hx
    · cases hrest with
      | done _ hend => exact Or.inl (le_antisymm (argLength_next bitmask hlt).1 hend)
      | step _ _ _ _ _ _ => exact Or.inr (by simp)
    · rcases ih hx with hend | hnext
      · exact Or.inl hend
      · exact Or.inr (List.mem_cons_of_mem _ hnext)

/-- The last instruction found is the last marked position. -/
lemma Decoded.lastMarked_iff {code : List UInt8} {bitmask : List Bool} {l : List (ℕ × ℕ)}
    (h : Decoded code bitmask 0 l) (hlength : code.length = bitmask.length) {i : ℕ} :
    LastMarked bitmask i ↔ ∃ x, l.getLast? = some x ∧ x.1 = i := by
  constructor
  · rintro ⟨hmarked, hlast⟩
    obtain ⟨x, hx, rfl⟩ := List.mem_map.mp
      (h.mem_iff.mpr ⟨Nat.zero_le i, by rw [hlength]; exact hmarked.lt, hmarked⟩)
    obtain ⟨init, y, rfl⟩ := List.eq_nil_or_concat' l |>.resolve_left (List.ne_nil_of_mem hx)
    refine ⟨y, by simp, ?_⟩
    rcases List.mem_append.mp hx with hx | hx
    · have hsorted := h.sorted
      rw [List.map_append, List.pairwise_append] at hsorted
      have hlt := hsorted.2.2 x.1 (List.mem_map_of_mem hx) y.1 (by simp)
      exact absurd (h.mem_iff.mp (List.mem_map_of_mem (by simp))).2.2 (hlast y.1 hlt)
    · rw [List.mem_singleton.mp hx]
  · rintro ⟨x, hlast, rfl⟩
    obtain ⟨init, rfl⟩ := List.getLast?_eq_some_iff.mp hlast
    refine ⟨(h.mem_iff.mp (List.mem_map_of_mem (by simp))).2.2, fun k hk hmarked => ?_⟩
    have hmem := h.mem_iff.mpr ⟨Nat.zero_le k, by rw [hlength]; exact hmarked.lt, hmarked⟩
    have hsorted := h.sorted
    rw [List.map_append, List.pairwise_append] at hsorted
    rw [List.map_append, List.mem_append] at hmem
    rcases hmem with hmem | hmem
    · have hlt := hsorted.2.2 k hmem x.1 (by simp)
      omega
    · obtain rfl : k = x.1 := by simpa using hmem
      exact lt_irrefl _ hk

/-! ## Which code is valid -/

/-- From a marked position, the next one or the end of the code is at most 25 bytes away. -/
lemma WellMarked.exists_next {code : List UInt8} {bitmask : List Bool}
    (h : WellMarked code bitmask) (hcovered : Covered code bitmask) {i : ℕ}
    (hi : Marked bitmask i) : ∃ j, i < j ∧ j ≤ i + 25 ∧ (Marked bitmask j ∨ j = code.length) := by
  classical
  by_cases hmore : ∃ j, i < j ∧ Marked bitmask j
  · obtain ⟨hlt, hmarked⟩ := Nat.find_spec hmore
    have hclear : ∀ k, i < k → k < Nat.find hmore → ¬ Marked bitmask k :=
      fun k hk hk' hmarked => Nat.find_min hmore hk' ⟨hk, hmarked⟩
    exact ⟨_, hlt, h.spaced i _ ⟨hi, hmarked, hlt, hclear⟩, Or.inl hmarked⟩
  · have hlast : LastMarked bitmask i := ⟨hi, fun k hk hmarked => hmore ⟨k, hk, hmarked⟩⟩
    have hlt := hi.lt
    rw [← h.length_eq] at hlt
    exact ⟨code.length, hlt, hcovered i hlast, Or.inr rfl⟩

/-- Well-placed marks can be walked from one to the next. -/
lemma WellMarked.exists_decoded {code : List UInt8} {bitmask : List Bool}
    (h : WellMarked code bitmask) (hcovered : Covered code bitmask) (rounds : ℕ) :
    ∀ pc, code.length - pc ≤ rounds → (Marked bitmask pc ∨ pc = code.length) →
      ∃ l, Decoded code bitmask pc l := by
  induction rounds with
  | zero =>
    intro pc hrounds _
    exact ⟨[], .done pc (by omega)⟩
  | succ rounds ih =>
    intro pc hrounds hpc
    by_cases hlt : pc < code.length
    · have hmarked : Marked bitmask pc := hpc.resolve_right (by omega)
      obtain ⟨hle, hargs, hclear, hstop⟩ := argLength_next bitmask hlt
      obtain ⟨j, hj, hnear, hnext⟩ := h.exists_next hcovered hmarked
      have hfollows : Marked bitmask (pc + argLength bitmask code.length pc 24 0 + 1) ∨
          pc + argLength bitmask code.length pc 24 0 + 1 = code.length := by
        rcases hstop with hfull | hend | hstop
        · -- 24 argument bytes: the next mark is no further away and not among them
          have hbeyond : ¬ j < pc + argLength bitmask code.length pc 24 0 + 1 := by
            intro hbefore
            rcases hnext with hnext | hnext
            · exact hclear j hj hbefore hnext
            · omega
          have heq : j = pc + argLength bitmask code.length pc 24 0 + 1 := by omega
          rwa [heq] at hnext
        · exact Or.inr hend
        · exact Or.inl hstop
      obtain ⟨rest, hrest⟩ := ih _ (by omega) hfollows
      exact ⟨_, .step pc rest hlt hmarked (h.defined pc hmarked) hrest⟩
    · exact ⟨[], .done pc (not_lt.mp hlt)⟩

lemma Decoded.wellMarked {code : List UInt8} {bitmask : List Bool} {l : List (ℕ × ℕ)}
    (hnonempty : code.length ≠ 0) (hlength : code.length = bitmask.length)
    (hl : Decoded code bitmask 0 l)
    (hlast : (lastOpcode code none l).any Opcode.isTermination = true) :
    WellMarked code bitmask ∧ Covered code bitmask := by
  have hmem : ∀ i, Marked bitmask i → ∃ x ∈ l, x.1 = i := by
    intro i hi
    have hmem := hl.mem_iff.mpr ⟨Nat.zero_le i, by rw [hlength]; exact hi.lt, hi⟩
    obtain ⟨x, hx, heq⟩ := List.mem_map.mp hmem
    exact ⟨x, hx, heq⟩
  have hnext : ∀ i, Marked bitmask i → ∃ j, i < j ∧ j ≤ i + 25 ∧
      (∀ k, i < k → k < j → ¬ Marked bitmask k) ∧ (Marked bitmask j ∨ j = code.length) := by
    intro i hi
    obtain ⟨x, hx, rfl⟩ := hmem i hi
    obtain ⟨hlt, -, hargs⟩ := hl.spec hx
    obtain ⟨-, hle, hclear, -⟩ := argLength_next bitmask hlt
    rw [← hargs] at hle hclear
    refine ⟨x.1 + x.2 + 1, by omega, by omega, hclear, ?_⟩
    rcases hl.follows hx with hend | hnext
    · exact Or.inr hend
    · exact Or.inl (hl.mem_iff.mp hnext).2.2
  refine ⟨⟨hnonempty, hlength, ?_, ?_, ?_, ?_⟩, ?_⟩
  · cases hl with
    | done _ hend => omega
    | step _ _ _ hmarked => exact hmarked
  · intro i hi
    obtain ⟨x, hx, rfl⟩ := hmem i hi
    exact (hl.spec hx).2.1
  · rintro i j ⟨hi, hj, hlt, hclear⟩
    obtain ⟨k, hk, hnear, hclear', hend⟩ := hnext i hi
    by_contra hfar
    rcases hend with hend | hend
    · exact hclear k hk (by omega) hend
    · have hin := hj.lt
      omega
  · intro i hi
    obtain ⟨x, hx, rfl⟩ := (hl.lastMarked_iff hlength).mp hi
    rw [lastOpcode, hx] at hlast
    exact hlast
  · intro i hi
    obtain ⟨k, hk, hnear, -, hend⟩ := hnext i hi.1
    rcases hend with hend | hend
    · exact absurd hend (hi.2 k hk)
    · omega

/-- Which code is valid. -/
lemma decodeInstructions_valid_iff_wellMarked {code : List UInt8} {bitmask : List Bool} :
    (decodeInstructions code bitmask).2 = true ↔
      WellMarked code bitmask ∧ Covered code bitmask := by
  rw [decodeInstructions_valid_iff]
  constructor
  · rintro ⟨hnonempty, hlength, l, hl, hlast⟩
    exact hl.wellMarked hnonempty hlength hlast
  · rintro ⟨hmarks, hcovered⟩
    obtain ⟨l, hl⟩ := hmarks.exists_decoded hcovered code.length 0 (by omega) (Or.inl hmarks.first)
    refine ⟨hmarks.nonempty, hmarks.length_eq, l, hl, ?_⟩
    have hne : l ≠ [] := by
      rintro rfl
      have hpos := Nat.pos_of_ne_zero hmarks.nonempty
      simpa using hl.mem_iff.mpr ⟨le_rfl, hpos, hmarks.first⟩
    obtain ⟨init, x, rfl⟩ := (List.eq_nil_or_concat' l).resolve_left hne
    have hlast : (init ++ [x]).getLast? = some x := by simp
    have hterm := hmarks.terminated x.1 ((hl.lastMarked_iff hmarks.length_eq).mpr ⟨x, hlast, rfl⟩)
    rw [lastOpcode, hlast]
    exact hterm

/-- The instructions of valid code. -/
lemma exists_decoded_of_valid {code : List UInt8} {bitmask : List Bool}
    (h : (decodeInstructions code bitmask).2 = true) :
    Decoded code bitmask 0 (decodeInstructions code bitmask).1 := by
  obtain ⟨hnonempty, hlength, l, hl, -⟩ := decodeInstructions_valid_iff.mp h
  rwa [decodeInstructions_eq hnonempty hlength hl]

/-- A trap with 25 argument bytes: its only mark is well placed and a terminator, and the code is not
valid. -/
theorem longTail_not_valid :
    WellMarked (List.replicate 26 0) (true :: List.replicate 25 false) ∧
      (decodeInstructions (List.replicate 26 0) (true :: List.replicate 25 false)).2 = false := by
  have hmarks : ∀ i, Marked (true :: List.replicate 25 false) i → i = 0 := by
    intro i hi
    cases i with
    | zero => rfl
    | succ i =>
      rw [Marked, List.getD_cons_succ, List.getD_eq_getElem?_getD, List.getElem?_replicate] at hi
      split at hi <;> cases hi
  refine ⟨⟨by decide, by decide, by decide, ?_, ?_, ?_⟩, by decide⟩
  · intro i hi
    rw [hmarks i hi]
    decide
  · rintro i j ⟨hi, hj, hlt, -⟩
    have hi₀ := hmarks i hi
    have hj₀ := hmarks j hj
    omega
  · rintro i ⟨hi, -⟩
    rw [hmarks i hi]
    decide

end Pvm
