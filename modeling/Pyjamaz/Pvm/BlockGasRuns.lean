import Mathlib.Algebra.Order.BigOperators.Group.List
import Mathlib.Algebra.Order.Ring.Int
import Mathlib.Algebra.Order.Ring.Nat
import Mathlib.Data.List.TakeWhile
import Pyjamaz.Pvm.BlockGas

/-!
# Every block has a price

The simulation of a block ends, and on its way the machine stays within its means.  `Inv` says what
every round keeps: units that are free or held make up what there is, the objects are ordered as the
program is, an entry depends on earlier objects only, and deleted objects have no cycles left.

An entry holds its units from its start to the cycle in which it completes, which is one cycle before
it is finished: for that last cycle it is still executing and its units are free again.

The loop cannot stall.  When no entry is being decoded or executed and none can be retired, the first
one waits; everything it depends on is gone and all units are free, so it can start.  `roundsLeft` is
the measure that this keeps going down.
-/

namespace Pvm

namespace BlockGas

/-! ## Entries -/

/-- The units an entry holds. -/
def Entry.held (e : Entry) (i : Fin 5) : ℤ := if e.state = .exe ∧ 1 ≤ e.cyclesLeft then e.units i else 0

/-- What is true of every entry in the buffer. -/
structure Entry.Sound (e : Entry) : Prop where
  not_retired : e.state ≠ .retired
  fin_done : e.state = .fin → e.cyclesLeft = 0
  pending : e.state = .dec ∨ e.state = .wait → 1 ≤ e.cyclesLeft
  cyclesLeft_le : e.cyclesLeft ≤ 100
  units_nonneg : ∀ i, 0 ≤ e.units i
  units_le : ∀ i, e.units i ≤ Units.capacity i

/-- The rounds that an entry still causes. -/
def Entry.work (e : Entry) : ℕ :=
  match e.state with
  | .dec => e.cyclesLeft + 4
  | .wait => e.cyclesLeft + 3
  | .exe => e.cyclesLeft + 2
  | .fin => 1
  | .retired => 0

lemma Entry.held_of_not_exe {e : Entry} (h : e.state ≠ .exe) (i : Fin 5) : e.held i = 0 :=
  if_neg (fun hexe => h hexe.1)

/-- What an entry holds after a cycle and what it gave back in it. -/
lemma Entry.held_tick (e : Entry) (i : Fin 5) : e.tick.held i + e.released i = e.held i := by
  obtain ⟨state, cyclesLeft, dependencies, registers, units, pc⟩ := e
  cases state with
  | exe =>
    rcases cyclesLeft with _ | _ | n <;> simp [Entry.tick, Entry.held, Entry.released]
  | dec | wait | fin | retired => simp [Entry.tick, Entry.held, Entry.released]

lemma Entry.Sound.tick {e : Entry} (h : e.Sound) : e.tick.Sound := by
  obtain ⟨hlive, hfin, hpending, hle, hnonneg, hcapacity⟩ := h
  rw [Entry.tick]
  split
  · next hdec => exact ⟨nofun, nofun, fun _ => hpending (Or.inl hdec), hle, hnonneg, hcapacity⟩
  · next hexe =>
    split
    · next hzero => exact ⟨nofun, fun _ => hzero, nofun, hle, hnonneg, hcapacity⟩
    · refine ⟨?_, ?_, ?_, ?_, hnonneg, hcapacity⟩ <;> simp only [hexe]
      · exact nofun
      · exact nofun
      · exact nofun
      · omega
  · exact ⟨hlive, hfin, hpending, hle, hnonneg, hcapacity⟩

lemma Entry.pc_tick (e : Entry) : e.tick.pc = e.pc := by
  rw [Entry.tick]
  split
  · rfl
  · split <;> rfl
  · rfl

lemma Entry.dependencies_tick (e : Entry) : e.tick.dependencies = e.dependencies := by
  rw [Entry.tick]
  split
  · rfl
  · split <;> rfl
  · rfl

/-- A cycle moves every entry on that is not waiting or finished. -/
lemma Entry.work_tick (e : Entry) :
    e.tick.work ≤ e.work ∧ (e.state = .dec ∨ e.state = .exe → e.tick.work < e.work) := by
  obtain ⟨state, cyclesLeft, dependencies, registers, units, pc⟩ := e
  cases state with
  | exe =>
    rcases cyclesLeft with _ | n <;> simp [Entry.tick, Entry.work]
  | dec | wait | fin | retired => simp [Entry.tick, Entry.work]

/-- A function on entries that changes their registers at most. -/
def KeepsButRegisters (f : Entry → Entry) : Prop :=
  ∀ e, f e = { e with registers := (f e).registers }

lemma keepsButRegisters_rename (sources destinations : RegMask) :
    KeepsButRegisters (Entry.rename sources destinations) := fun _ => rfl

lemma keepsButRegisters_clobber (destinations : RegMask) :
    KeepsButRegisters (Entry.clobber destinations) := fun _ => rfl

section KeepsButRegisters

variable {f : Entry → Entry} (hf : KeepsButRegisters f)

include hf

lemma KeepsButRegisters.pc (e : Entry) : (f e).pc = e.pc := by rw [hf e]

lemma KeepsButRegisters.dependencies (e : Entry) : (f e).dependencies = e.dependencies := by
  rw [hf e]

lemma KeepsButRegisters.held (e : Entry) (i : Fin 5) : (f e).held i = e.held i := by
  rw [hf e]
  rfl

lemma KeepsButRegisters.work (e : Entry) : (f e).work = e.work := by
  rw [hf e]
  rfl

lemma KeepsButRegisters.state (e : Entry) : (f e).state = e.state := by rw [hf e]

lemma KeepsButRegisters.sound {e : Entry} (h : e.Sound) : (f e).Sound := by
  rw [hf e]
  exact ⟨h.1, h.2, h.3, h.4, h.5, h.6⟩

end KeepsButRegisters

/-! ## The buffer -/

/-- The units the entries of a buffer hold. -/
def heldBy (rob : List Entry) (i : Fin 5) : ℤ := (rob.map (fun e => e.held i)).sum

/-- The rounds a buffer still causes. -/
def workOf (rob : List Entry) : ℕ := (rob.map Entry.work).sum

/-- What is true of the deleted objects and the buffer. -/
structure Buffer (removed rob : List Entry) : Prop where
  ordered : ((removed ++ rob).map Entry.pc).Pairwise (· < ·)
  removed_done : ∀ e ∈ removed, e.cyclesLeft = 0
  sound : ∀ e ∈ rob, e.Sound
  earlier : ∀ i e, rob[i]? = some e → ∀ d ∈ e.dependencies, d < removed.length + i

lemma heldBy_append (l l' : List Entry) (i : Fin 5) : heldBy (l ++ l') i = heldBy l i + heldBy l' i := by
  simp [heldBy]

lemma heldBy_cons (e : Entry) (l : List Entry) (i : Fin 5) :
    heldBy (e :: l) i = e.held i + heldBy l i := by
  simp [heldBy]

lemma workOf_append (l l' : List Entry) : workOf (l ++ l') = workOf l + workOf l' := by
  simp [workOf]

lemma workOf_cons (e : Entry) (l : List Entry) : workOf (e :: l) = e.work + workOf l := by
  simp [workOf]

lemma heldBy_eq_zero {l : List Entry} (h : ∀ e ∈ l, e.state ≠ .exe) (i : Fin 5) : heldBy l i = 0 := by
  apply List.sum_eq_zero
  intro x hx
  obtain ⟨e, he, rfl⟩ := List.mem_map.mp hx
  exact Entry.held_of_not_exe (h e he) i

lemma heldBy_map {f : Entry → Entry} (hf : KeepsButRegisters f) (l : List Entry) (i : Fin 5) :
    heldBy (l.map f) i = heldBy l i := by
  rw [heldBy, List.map_map]
  exact congrArg List.sum (List.map_congr_left (fun e _ => hf.held e i))

lemma workOf_map {f : Entry → Entry} (hf : KeepsButRegisters f) (l : List Entry) :
    workOf (l.map f) = workOf l := by
  rw [workOf, List.map_map]
  exact congrArg List.sum (List.map_congr_left (fun e _ => hf.work e))

/-- A buffer in which the entries have changed, but not their order, their soundness and what they
depend on. -/
lemma Buffer.map {removed rob : List Entry} (h : Buffer removed rob) {f : Entry → Entry}
    (hpc : ∀ e, (f e).pc = e.pc) (hdeps : ∀ e, (f e).dependencies = e.dependencies)
    (hsound : ∀ e, e.Sound → (f e).Sound) : Buffer removed (rob.map f) := by
  refine ⟨?_, h.removed_done, ?_, ?_⟩
  · have hsame : (rob.map f).map Entry.pc = rob.map Entry.pc := by
      rw [List.map_map]
      exact List.map_congr_left (fun e _ => hpc e)
    rw [List.map_append, hsame, ← List.map_append]
    exact h.ordered
  · intro e he
    obtain ⟨e', he', rfl⟩ := List.mem_map.mp he
    exact hsound e' (h.sound e' he')
  · intro i e he d hd
    rw [List.getElem?_map] at he
    obtain ⟨e', he', rfl⟩ := Option.map_eq_some_iff.mp he
    rw [hdeps] at hd
    exact h.earlier i e' he' d hd

/-- A new entry at the end of the buffer. -/
lemma Buffer.snoc {removed rob : List Entry} (h : Buffer removed rob) {e : Entry} (he : e.Sound)
    (hpc : ∀ e' ∈ removed ++ rob, e'.pc < e.pc)
    (hdeps : ∀ d ∈ e.dependencies, d < removed.length + rob.length) :
    Buffer removed (rob ++ [e]) := by
  refine ⟨?_, h.removed_done, ?_, ?_⟩
  · rw [← List.append_assoc, List.map_append, List.pairwise_append]
    refine ⟨h.ordered, List.pairwise_singleton _ _, ?_⟩
    intro x hx y hy
    obtain ⟨e', he', rfl⟩ := List.mem_map.mp hx
    obtain rfl : y = e.pc := by simpa using hy
    exact hpc e' he'
  · intro e' he'
    rcases List.mem_append.mp he' with he' | he'
    · exact h.sound e' he'
    · rw [List.mem_singleton.mp he']
      exact he
  · intro i e' he' d hd
    by_cases hlt : i < rob.length
    · rw [List.getElem?_append_left hlt] at he'
      exact h.earlier i e' he' d hd
    · rw [List.getElem?_append_right (not_lt.mp hlt)] at he'
      cases hindex : i - rob.length with
      | zero =>
        rw [hindex] at he'
        obtain rfl := Option.some.inj he'
        have hlast := hdeps d hd
        omega
      | succ n =>
        rw [hindex] at he'
        cases he'

/-- An entry that starts. -/
lemma Buffer.begin {removed before later : List Entry} {e : Entry}
    (h : Buffer removed (before ++ e :: later)) : Buffer removed (before ++ e.begin :: later) := by
  have he := h.sound e (by simp)
  refine ⟨?_, h.removed_done, ?_, ?_⟩
  · have hordered := h.ordered
    rw [List.map_append, List.map_append, List.map_cons] at hordered ⊢
    exact hordered
  · intro e' he'
    rcases List.mem_append.mp he' with he' | he'
    · exact h.sound e' (List.mem_append_left _ he')
    · rcases List.mem_cons.mp he' with rfl | he'
      · exact ⟨nofun, nofun, nofun, he.4, he.5, he.6⟩
      · exact h.sound e' (by simp [he'])
  · intro i e' he' d hd
    rcases Nat.lt_trichotomy i before.length with hlt | rfl | hgt
    · rw [List.getElem?_append_left hlt] at he'
      exact h.earlier i e' (by rw [List.getElem?_append_left hlt]; exact he') d hd
    · rw [List.getElem?_append_right le_rfl, Nat.sub_self] at he'
      obtain rfl := Option.some.inj he'
      cases hd
    · obtain ⟨k, rfl⟩ : ∃ k, i = before.length + (k + 1) := ⟨i - before.length - 1, by omega⟩
      rw [List.getElem?_append_right (by omega), Nat.add_sub_cancel_left] at he'
      refine h.earlier (before.length + (k + 1)) e' ?_ d hd
      rw [List.getElem?_append_right (by omega), Nat.add_sub_cancel_left]
      exact he'

/-- Finished entries at the front that are deleted. -/
lemma Buffer.retire {removed retired rob : List Entry} (h : Buffer removed (retired ++ rob))
    (hfin : ∀ e ∈ retired, e.state = .fin) : Buffer (removed ++ retired) rob := by
  refine ⟨?_, ?_, ?_, ?_⟩
  · rw [List.append_assoc]
    exact h.ordered
  · intro e he
    rcases List.mem_append.mp he with he | he
    · exact h.removed_done e he
    · exact (h.sound e (List.mem_append_left _ he)).fin_done (hfin e he)
  · intro e he
    exact h.sound e (List.mem_append_right _ he)
  · intro i e he d hd
    have hindex : (retired ++ rob)[retired.length + i]? = some e := by
      rw [List.getElem?_append_right (by omega), Nat.add_sub_cancel_left]
      exact he
    have hlt := h.earlier _ e hindex d hd
    rw [List.length_append]
    omega

/-! ## Reading an instruction of valid code -/

/-- What the decoder reads at an instruction of valid code. -/
structure Instruction.Valid (p : PVMCode) (x : Instruction) : Prop where
  cost : x.cost.Sensible
  one_le : x.isMove = false → 1 ≤ x.cost.cycles
  pc_lt : x.pc < p.code.length
  next : ∀ pc ∈ x.next, x.pc < pc ∧ (p.instArgLen pc).isSome

lemma exists_instruction {p : PVMCode} (hvalid : p.valid = true) (polkavmCmov : Bool) {pc : ℕ}
    (hpc : (p.instArgLen pc).isSome) :
    ∃ x, readInstruction p.code (decodeInstructions p.code p.opcodeBitmask).1 polkavmCmov pc =
      .ok x ∧ x.pc = pc ∧ x.Valid p := by
  obtain ⟨opcode, argLen, hfetch⟩ := p.exists_fetch hvalid hpc
  obtain ⟨hlen, hopcode⟩ := PVMCode.fetch_eq_some.mp hfetch
  obtain ⟨cost, hcost, hsensible, hone⟩ := @exists_instructionCost _ _ argLen _ hopcode
  have hargs : argLen ≤ 24 := by
    have hdecoded := exists_decoded_of_valid hvalid
    obtain ⟨hlt, -, heq⟩ := hdecoded.spec (mem_of_lookup_eq_some hlen)
    simp only at hlt heq
    rw [heq]
    exact (argLength_next p.opcodeBitmask hlt).2.1
  have hlookup : (decodeInstructions p.code p.opcodeBitmask).1.lookup pc = some argLen := hlen
  rw [readInstruction, hlookup]
  simp only [if_neg (not_lt.mpr hargs), hcost, instructionRegisters, hopcode]
  refine ⟨_, rfl, rfl, hsensible, ?_, p.pc_lt hlen, ?_⟩
  · intro hmove
    apply hone
    rintro rfl
    rw [← Opcode.value_of_ofValue hopcode] at hmove
    simp at hmove
  · intro pc' hnext
    simp only [Instruction.next, endsBlockAt, hopcode, Option.any_some] at hnext
    split at hnext
    · cases hnext
    · next hends =>
      obtain rfl := Option.some.inj hnext
      refine ⟨show pc < pc + 1 + argLen by omega, ?_⟩
      have hsome := p.isSome_next hvalid hfetch (Bool.eq_false_of_not_eq_true hends)
      rwa [Nat.add_right_comm] at hsome

/-! ## What every round keeps -/

/-- The machine between two rounds. -/
structure Inv (p : PVMCode) (s : Simulation) : Prop where
  position : ∀ pc ∈ s.pc, (p.instArgLen pc).isSome ∧ ∀ e ∈ s.objects, e.pc < pc
  decodeSlots : 0 ≤ s.decodeSlots ∧ s.decodeSlots ≤ 4
  startsLeft : 0 ≤ s.startsLeft ∧ s.startsLeft ≤ 5
  fresh : s.startsLeft = 5 ∨ ∃ e ∈ s.rob, e.state = .exe
  units_nonneg : ∀ i, 0 ≤ s.units i
  balance : ∀ i, s.units i + heldBy s.rob i = Units.capacity i
  length_le : s.rob.length ≤ 32
  buffer : Buffer s.removed s.rob

/-- The rounds that are left at most. -/
def roundsLeft (p : PVMCode) (s : Simulation) : ℕ :=
  (match s.pc with
    | none => 0
    | some pc => p.code.length - pc) * 200 +
  workOf s.rob + if s.decodeSlots = 4 then 0 else 1

lemma inv_initial {p : PVMCode} {start : ℕ} (h : (p.instArgLen start).isSome) :
    Inv p (Simulation.initial start) where
  position := by
    rintro pc hpc
    obtain rfl := Option.some.inj hpc
    exact ⟨h, by simp [Simulation.objects, Simulation.initial]⟩
  decodeSlots := ⟨show (0 : ℤ) ≤ 4 by decide, le_rfl⟩
  startsLeft := ⟨show (0 : ℤ) ≤ 5 by decide, le_rfl⟩
  fresh := Or.inl rfl
  units_nonneg := show ∀ i, 0 ≤ Units.capacity i by decide
  balance := fun i => add_zero _
  length_le := Nat.zero_le _
  buffer := ⟨List.Pairwise.nil, by simp [Simulation.initial], by simp [Simulation.initial],
    by simp [Simulation.initial]⟩

/-- References to the objects of a buffer are numbers of these. -/
lemma lt_of_mem_dependenciesOf {first : ℕ} {rob : List Entry} {sources : RegMask} {d : ℕ}
    (h : d ∈ dependenciesOf first rob sources) : d < first + rob.length := by
  obtain ⟨x, hx, rfl⟩ := List.mem_map.mp h
  obtain ⟨-, hlt, -⟩ := List.mem_zipIdx (List.mem_filter.mp hx).1
  omega

/-- A change of registers leaves the objects before the next instruction. -/
lemma Inv.pc_lt_of_map {p : PVMCode} {s : Simulation} (h : Inv p s) {pc : ℕ} (hpc : s.pc = some pc)
    {f : Entry → Entry} (hf : KeepsButRegisters f) {e : Entry} (he : e ∈ s.removed ++ s.rob.map f) :
    e.pc < pc := by
  have hbefore := (h.position pc hpc).2
  rcases List.mem_append.mp he with he | he
  · exact hbefore e (List.mem_append_left _ he)
  · obtain ⟨e', he', rfl⟩ := List.mem_map.mp he
    rw [hf.pc]
    exact hbefore e' (List.mem_append_right _ he')

lemma Inv.decodeSlots_decode {p : PVMCode} {s : Simulation} (h : Inv p s) {x : Instruction}
    (hslots : (x.cost.decodeSlots : ℤ) ≤ s.decodeSlots) :
    0 ≤ (s.decode x).decodeSlots ∧ (s.decode x).decodeSlots ≤ 4 := by
  have hle := h.decodeSlots.2
  have hnonneg : (0 : ℤ) ≤ x.cost.decodeSlots := Int.natCast_nonneg _
  simp only [Simulation.decode]
  omega

/-- A move renames the registers of the entries. -/
lemma Inv.decode_move {p : PVMCode} {s : Simulation} (h : Inv p s) {x : Instruction}
    (hx : x.Valid p) (hpc : s.pc = some x.pc)
    (hslots : (x.cost.decodeSlots : ℤ) ≤ s.decodeSlots) (hmove : x.isMove = true) :
    Inv p (s.decode x) := by
  have hrename := keepsButRegisters_rename x.sources x.destinations
  have hrob : (s.decode x).rob = s.rob.map (Entry.rename x.sources x.destinations) := by
    simp only [Simulation.decode, Instruction.into, hmove, if_true]
  refine ⟨?_, h.decodeSlots_decode hslots, h.startsLeft, ?_, h.units_nonneg, ?_, ?_, ?_⟩
  · intro pc hnext
    obtain ⟨hlt, hsome⟩ := hx.next pc hnext
    refine ⟨hsome, fun e he => ?_⟩
    rw [Simulation.objects, hrob] at he
    exact (h.pc_lt_of_map hpc hrename he).trans hlt
  · refine h.fresh.imp_right ?_
    rintro ⟨e, he, hexe⟩
    rw [hrob]
    exact ⟨_, List.mem_map_of_mem he, hexe⟩
  · intro i
    rw [hrob, heldBy_map hrename]
    exact h.balance i
  · rw [hrob, List.length_map]
    exact h.length_le
  · rw [hrob]
    exact h.buffer.map hrename.pc hrename.dependencies (fun _ => hrename.sound)

/-- Any other instruction takes the last place of the buffer. -/
lemma Inv.decode_entry {p : PVMCode} {s : Simulation} (h : Inv p s) {x : Instruction}
    (hx : x.Valid p) (hpc : s.pc = some x.pc) (hroom : s.rob.length < 32)
    (hslots : (x.cost.decodeSlots : ℤ) ≤ s.decodeSlots) (hmove : x.isMove = false) :
    Inv p (s.decode x) := by
  have hclobber := keepsButRegisters_clobber x.destinations
  have hrob : (s.decode x).rob =
      s.rob.map (Entry.clobber x.destinations) ++ [x.entry s.removed.length s.rob] := by
    simp only [Simulation.decode, Instruction.into, hmove, Bool.false_eq_true, if_false]
  refine ⟨?_, h.decodeSlots_decode hslots, h.startsLeft, ?_, h.units_nonneg, ?_, ?_, ?_⟩
  · intro pc hnext
    obtain ⟨hlt, hsome⟩ := hx.next pc hnext
    refine ⟨hsome, fun e he => ?_⟩
    rw [Simulation.objects, hrob, ← List.append_assoc] at he
    rcases List.mem_append.mp he with he | he
    · exact (h.pc_lt_of_map hpc hclobber he).trans hlt
    · rw [List.mem_singleton.mp he]
      exact hlt
  · refine h.fresh.imp_right ?_
    rintro ⟨e, he, hexe⟩
    rw [hrob]
    exact ⟨_, List.mem_append_left _ (List.mem_map_of_mem he), hexe⟩
  · intro i
    have hnew : heldBy [x.entry s.removed.length s.rob] i = 0 :=
      heldBy_eq_zero (by simp [Instruction.entry]) i
    rw [hrob, heldBy_append, heldBy_map hclobber, hnew, add_zero]
    exact h.balance i
  · rw [hrob, List.length_append, List.length_map]
    exact hroom
  · rw [hrob]
    refine (h.buffer.map hclobber.pc hclobber.dependencies (fun _ => hclobber.sound)).snoc ?_
      (fun e he => h.pc_lt_of_map hpc hclobber he) ?_
    · exact ⟨nofun, nofun, fun _ => hx.one_le hmove, hx.cost.cycles_le, hx.cost.units_nonneg,
        hx.cost.units_le⟩
    · intro d hd
      rw [List.length_map]
      exact lt_of_mem_dependenciesOf hd

lemma Inv.decode {p : PVMCode} {s : Simulation} (h : Inv p s) {x : Instruction} (hx : x.Valid p)
    (hpc : s.pc = some x.pc) (hroom : s.rob.length < 32)
    (hslots : (x.cost.decodeSlots : ℤ) ≤ s.decodeSlots) : Inv p (s.decode x) := by
  cases hmove : x.isMove with
  | true => exact h.decode_move hx hpc hslots hmove
  | false => exact h.decode_entry hx hpc hroom hslots hmove

/-- Decoding brings the end of the block nearer than it makes work. -/
lemma roundsLeft_decode {p : PVMCode} {s : Simulation} {x : Instruction} (hx : x.Valid p)
    (hpc : s.pc = some x.pc) : roundsLeft p (s.decode x) < roundsLeft p s := by
  have hwork : workOf (s.decode x).rob ≤ workOf s.rob + 104 := by
    simp only [Simulation.decode, Instruction.into]
    split
    · rw [workOf_map (keepsButRegisters_rename _ _)]
      omega
    · have hle := hx.cost.cycles_le
      have hnew : workOf [x.entry s.removed.length s.rob] = x.cost.cycles + 4 := by
        simp [workOf, Instruction.entry, Entry.work]
      rw [workOf_append, workOf_map (keepsButRegisters_clobber _), hnew]
      omega
  have hdistance : (match (s.decode x).pc with
      | none => 0
      | some pc => p.code.length - pc) + 1 ≤ p.code.length - x.pc := by
    have hlt := hx.pc_lt
    have hnext := hx.next
    simp only [Simulation.decode]
    cases hxnext : x.next with
    | none =>
      simp only
      omega
    | some pc =>
      have hpc' := (hnext pc hxnext).1
      simp only
      omega
  have hflag : (if (s.decode x).decodeSlots = 4 then 0 else 1) ≤ 1 := by split <;> omega
  simp only [roundsLeft, hpc]
  omega

/-! ## Starting an entry -/

lemma startIn_eq_some {entries rob rob' : List Entry} {units : Units} {e : Entry}
    (h : startIn entries units rob = some (e, rob')) :
    ∃ before later, rob = before ++ e :: later ∧ rob' = before ++ e.begin :: later ∧
      e.isReady entries units = true := by
  rw [startIn] at h
  split at h
  · cases h
  · next first later hdrop =>
    cases h
    have hsplit := List.takeWhile_append_dropWhile (p := fun e => !e.isReady entries units) (l := rob)
    rw [hdrop] at hsplit
    refine ⟨_, later, hsplit.symm, rfl, ?_⟩
    have hhead := List.head?_dropWhile_not (fun e => !e.isReady entries units) rob
    rw [hdrop] at hhead
    simpa using hhead

lemma startIn_eq_none {entries rob : List Entry} {units : Units}
    (h : startIn entries units rob = none) : ∀ e ∈ rob, e.isReady entries units = false := by
  rw [startIn] at h
  split at h
  · next hdrop =>
    intro e he
    have hall := List.dropWhile_eq_nil_iff.mp hdrop e he
    simpa using hall
  · cases h

lemma Entry.isReady_iff {entries : List Entry} {units : Units} {e : Entry} :
    e.isReady entries units = true ↔ e.state = .wait ∧ (∀ i, e.units i ≤ units i) ∧
      ∀ d ∈ e.dependencies, cyclesOf entries d = 0 := by
  simp [Entry.isReady, and_assoc]

lemma Inv.start {p : PVMCode} {s s' : Simulation} (h : Inv p s) (hstart : s.tryStart = some s') :
    Inv p s' ∧ roundsLeft p s' < roundsLeft p s := by
  rw [Simulation.tryStart] at hstart
  split at hstart
  · cases hstart
  · next hslots =>
    obtain ⟨⟨e, rob'⟩, hin, rfl⟩ := Option.map_eq_some_iff.mp hstart
    obtain ⟨before, later, hrob, rfl, hready⟩ := startIn_eq_some hin
    obtain ⟨hwait, hunits, -⟩ := Entry.isReady_iff.mp hready
    have hbuffer := h.buffer
    rw [hrob] at hbuffer
    have hsound := hbuffer.sound e (by simp)
    have hheld : ∀ i, e.begin.held i = e.units i := fun i =>
      if_pos ⟨rfl, hsound.pending (Or.inr hwait)⟩
    have hfree : ∀ i, e.held i = 0 := Entry.held_of_not_exe (by rw [hwait]; nofun)
    refine ⟨⟨?_, h.decodeSlots, ?_, ?_, ?_, ?_, ?_, hbuffer.begin⟩, ?_⟩
    · intro pc hpc
      obtain ⟨hsome, hbefore⟩ := h.position pc hpc
      refine ⟨hsome, fun e' he' => ?_⟩
      have hall : ∀ e'' ∈ s.removed ++ (before ++ e :: later), e''.pc < pc := by
        rw [← hrob]
        exact hbefore
      rcases List.mem_append.mp he' with he' | he'
      · exact hall e' (List.mem_append_left _ he')
      · rcases List.mem_append.mp he' with he' | he'
        · exact hall e' (by simp [he'])
        · rcases List.mem_cons.mp he' with rfl | he'
          · exact hall e (by simp)
          · exact hall e' (by simp [he'])
    · obtain ⟨hlo, hhi⟩ := h.startsLeft
      simp only
      omega
    · exact Or.inr ⟨e.begin, by simp, rfl⟩
    · intro i
      have hle := hunits i
      simp only
      omega
    · intro i
      have hbalance := h.balance i
      rw [hrob, heldBy_append, heldBy_cons, hfree] at hbalance
      simp only
      rw [heldBy_append, heldBy_cons, hheld]
      omega
    · have hle := h.length_le
      rw [hrob, List.length_append, List.length_cons] at hle
      rw [List.length_append, List.length_cons]
      exact hle
    · have hwork : e.work = e.begin.work + 1 := by
        simp only [Entry.work, hwait, Entry.begin]
      simp only [roundsLeft, hrob, workOf_append, workOf_cons]
      omega

/-! ## The end of a cycle -/

/-- The entries that retire and those that stay. -/
lemma retire_split (rob : List Entry) :
    rob = rob.takeWhile (fun e => e.state = .fin) ++ rob.dropWhile (fun e => e.state = .fin) ∧
      ∀ e ∈ rob.takeWhile (fun e => e.state = .fin), e.state = .fin := by
  refine ⟨List.takeWhile_append_dropWhile.symm, fun e he => ?_⟩
  simpa using List.mem_takeWhile_imp he

lemma heldBy_tick (l : List Entry) (i : Fin 5) :
    heldBy (l.map Entry.tick) i + (l.map (fun e => e.released i)).sum = heldBy l i := by
  induction l with
  | nil => rfl
  | cons e l ih =>
    have hheld := e.held_tick i
    rw [List.map_cons, List.map_cons, heldBy_cons, heldBy_cons, List.sum_cons]
    omega

lemma workOf_tick_le (l : List Entry) : workOf (l.map Entry.tick) ≤ workOf l := by
  rw [workOf, workOf, List.map_map]
  exact List.sum_le_sum (fun e _ => e.work_tick.1)

lemma released_nonneg {e : Entry} (h : e.Sound) (i : Fin 5) : 0 ≤ e.released i := by
  rw [Entry.released]
  split
  · exact h.units_nonneg i
  · exact le_rfl

lemma Inv.tick {p : PVMCode} {s : Simulation} (h : Inv p s) : Inv p s.tick := by
  obtain ⟨hsplit, hfin⟩ := retire_split s.rob
  set retired := s.rob.takeWhile (fun e => e.state = .fin) with hretired
  set rest := s.rob.dropWhile (fun e => e.state = .fin) with hrest
  have hbuffer := h.buffer
  rw [hsplit] at hbuffer
  have hbuffer := hbuffer.retire hfin
  have hsum : ∀ i, 0 ≤ (rest.map (fun e => e.released i)).sum := by
    intro i
    apply List.sum_nonneg
    intro x hx
    obtain ⟨e, he, rfl⟩ := List.mem_map.mp hx
    exact released_nonneg (hbuffer.sound e he) i
  refine ⟨?_, ⟨show (0 : ℤ) ≤ 4 by decide, le_rfl⟩, ⟨show (0 : ℤ) ≤ 5 by decide, le_rfl⟩, Or.inl rfl,
    ?_, ?_, ?_, hbuffer.map Entry.pc_tick Entry.dependencies_tick (fun _ => Entry.Sound.tick)⟩
  · intro pc hpc
    obtain ⟨hsome, hbefore⟩ := h.position pc hpc
    refine ⟨hsome, fun e he => ?_⟩
    have hall : ∀ e' ∈ s.removed ++ (retired ++ rest), e'.pc < pc := by
      rw [← hsplit]
      exact hbefore
    change e ∈ (s.removed ++ retired) ++ rest.map Entry.tick at he
    rcases List.mem_append.mp he with he | he
    · refine hall e ?_
      rw [← List.append_assoc]
      exact List.mem_append_left _ he
    · obtain ⟨e', he', rfl⟩ := List.mem_map.mp he
      rw [Entry.pc_tick]
      exact hall e' (by simp [he'])
  · intro i
    exact add_nonneg (h.units_nonneg i) (hsum i)
  · intro i
    have hbalance := h.balance i
    have hnone : heldBy retired i = 0 := by
      apply heldBy_eq_zero
      intro e he
      rw [hfin e he]
      nofun
    have hticked := heldBy_tick rest i
    rw [hsplit, heldBy_append, hnone] at hbalance
    change s.units i + (rest.map (fun e => e.released i)).sum + heldBy (rest.map Entry.tick) i = _
    omega
  · have hle := h.length_le
    rw [hsplit, List.length_append] at hle
    change (rest.map Entry.tick).length ≤ 32
    rw [List.length_map]
    omega

/-- A cycle moves an entry on, deletes one, or refills the decoding slots. -/
lemma roundsLeft_tick {p : PVMCode} {s : Simulation}
    (hmoves : (∃ e ∈ s.rob, e.state = .dec ∨ e.state = .exe) ∨
      (∃ e later, s.rob = e :: later ∧ e.state = .fin) ∨ s.decodeSlots ≠ 4) :
    roundsLeft p s.tick < roundsLeft p s := by
  obtain ⟨hsplit, hfin⟩ := retire_split s.rob
  set retired := s.rob.takeWhile (fun e => e.state = .fin) with hretired
  set rest := s.rob.dropWhile (fun e => e.state = .fin) with hrest
  have hticked := workOf_tick_le rest
  have hwork : workOf s.rob = workOf retired + workOf rest := by
    rw [← workOf_append, ← hsplit]
  have hafter : workOf s.tick.rob = workOf (rest.map Entry.tick) := rfl
  have hslots : s.tick.decodeSlots = 4 := rfl
  simp only [roundsLeft, hslots, if_true, hafter, hwork]
  rcases hmoves with ⟨e, he, hmoving⟩ | ⟨e, later, hrob, hhead⟩ | hspent
  · have hmem : e ∈ rest := by
      rw [hsplit] at he
      refine (List.mem_append.mp he).resolve_left (fun hmem => ?_)
      rw [hfin e hmem] at hmoving
      rcases hmoving with hmoving | hmoving <;> cases hmoving
    have hless : workOf (rest.map Entry.tick) < workOf rest := by
      rw [workOf, workOf, List.map_map]
      exact List.sum_lt_sum _ _ (fun e _ => e.work_tick.1) ⟨e, hmem, e.work_tick.2 hmoving⟩
    simp only [Simulation.tick]
    omega
  · have hfirst : retired = e :: later.takeWhile (fun e => e.state = .fin) := by
      rw [hretired, hrob, List.takeWhile_cons_of_pos (by simpa using hhead)]
    have hone : 1 ≤ workOf retired := by
      rw [hfirst, workOf_cons, Entry.work, hhead]
      simp only
      omega
    simp only [Simulation.tick]
    omega
  · rw [if_neg hspent]
    simp only [Simulation.tick]
    omega

/-- An entry whose dependencies are deleted objects depends on nothing that has cycles left. -/
lemma cyclesOf_removed {p : PVMCode} {s : Simulation} (h : Inv p s) {d : ℕ}
    (hd : d < s.removed.length) : cyclesOf s.objects d = 0 := by
  rw [cyclesOf, Simulation.objects, List.getElem?_append_left hd, List.getElem?_eq_getElem hd]
  exact h.buffer.removed_done _ (List.getElem_mem hd)

/-- When nothing can be decoded or started and the block is not done, the next cycle gets on. -/
lemma Inv.moves {p : PVMCode} {s : Simulation} (h : Inv p s) (hstart : s.tryStart = none)
    (hdecode : ∀ pc ∈ s.pc, 32 ≤ s.rob.length ∨ s.decodeSlots ≠ 4)
    (hopen : ¬ (s.pc = none ∧ s.rob = [])) :
    (∃ e ∈ s.rob, e.state = .dec ∨ e.state = .exe) ∨
      (∃ e later, s.rob = e :: later ∧ e.state = .fin) ∨ s.decodeSlots ≠ 4 := by
  by_contra hstuck
  obtain ⟨hidle, hstuck⟩ := not_or.mp hstuck
  obtain ⟨hhead, hslots⟩ := not_or.mp hstuck
  have hno : ∀ e ∈ s.rob, e.state ≠ .exe := fun e he hexe => hidle ⟨e, he, Or.inr hexe⟩
  cases hrob : s.rob with
  | nil =>
    cases hpc : s.pc with
    | none => exact hopen ⟨hpc, hrob⟩
    | some pc =>
      rcases hdecode pc hpc with hfull | hspent
      · rw [hrob] at hfull
        simp at hfull
      · exact hslots hspent
  | cons e later =>
    have hmem : e ∈ s.rob := by
      rw [hrob]
      exact List.mem_cons_self
    have hsound := h.buffer.sound e hmem
    -- the first entry waits
    have hwait : e.state = .wait := by
      cases hstate : e.state with
      | wait => rfl
      | dec => exact absurd ⟨e, hmem, Or.inl hstate⟩ hidle
      | exe => exact absurd hstate (hno e hmem)
      | fin => exact absurd ⟨e, later, hrob, hstate⟩ hhead
      | retired => exact absurd hstate hsound.not_retired
    -- with every unit free and nothing to wait for, so that it is ready
    have hready : e.isReady s.objects s.units = true := by
      refine Entry.isReady_iff.mpr ⟨hwait, fun i => ?_, fun d hd => ?_⟩
      · have hbalance := h.balance i
        rw [heldBy_eq_zero hno] at hbalance
        have hle := hsound.units_le i
        omega
      · have hlt := h.buffer.earlier 0 e (by rw [hrob]; rfl) d hd
        exact cyclesOf_removed h hlt
    have hfresh : s.startsLeft = 5 := by
      refine h.fresh.resolve_right ?_
      rintro ⟨e', he', hexe⟩
      exact hno e' he' hexe
    rw [Simulation.tryStart, if_neg (by omega), Option.map_eq_none_iff] at hstart
    rw [startIn_eq_none hstart e hmem] at hready
    cases hready

/-! ## The whole simulation -/

/-- What the decoder does in valid code. -/
lemma Inv.tryDecode {p : PVMCode} (hvalid : p.valid = true) (polkavmCmov : Bool) {s : Simulation}
    (h : Inv p s) :
    (∃ x : Instruction, x.Valid p ∧ s.pc = some x.pc ∧ s.rob.length < 32 ∧
      (x.cost.decodeSlots : ℤ) ≤ s.decodeSlots ∧
      s.tryDecode p.code (decodeInstructions p.code p.opcodeBitmask).1 polkavmCmov =
        .ok (some (s.decode x))) ∨
    (s.tryDecode p.code (decodeInstructions p.code p.opcodeBitmask).1 polkavmCmov = .ok none ∧
      ∀ pc ∈ s.pc, 32 ≤ s.rob.length ∨ s.decodeSlots ≠ 4) := by
  rw [Simulation.tryDecode]
  cases hpc : s.pc with
  | none => exact Or.inr ⟨rfl, nofun⟩
  | some pc =>
    obtain ⟨x, hread, rfl, hx⟩ := exists_instruction hvalid polkavmCmov (h.position pc hpc).1
    simp only
    by_cases hroom : s.rob.length < 32
    · rw [if_pos hroom, hread]
      by_cases hslots : (x.cost.decodeSlots : ℤ) ≤ s.decodeSlots
      · exact Or.inl ⟨x, hx, rfl, hroom, hslots, by rw [Except.map, if_pos hslots]⟩
      · refine Or.inr ⟨by rw [Except.map, if_neg hslots], fun _ _ => Or.inr ?_⟩
        have hle := hx.cost.decodeSlots_le
        omega
    · rw [if_neg hroom]
      exact Or.inr ⟨rfl, fun _ _ => Or.inl (not_lt.mp hroom)⟩

/-- Everything a round can do in valid code. -/
lemma Inv.step {p : PVMCode} (hvalid : p.valid = true) (polkavmCmov : Bool) {s : Simulation}
    (h : Inv p s) :
    (∃ gas, 1 ≤ gas ∧ s.step p.code (decodeInstructions p.code p.opcodeBitmask).1 polkavmCmov =
      .done (.ok gas)) ∨
    ∃ s', s.step p.code (decodeInstructions p.code p.opcodeBitmask).1 polkavmCmov = .next s' ∧
      Inv p s' ∧ roundsLeft p s' < roundsLeft p s ∧
      ∃ retired, s'.removed = s.removed ++ retired ∧ retired <+: s.rob := by
  rw [Simulation.step]
  rcases h.tryDecode hvalid polkavmCmov with ⟨x, hx, hpc, hroom, hslots, hdecode⟩ |
    ⟨hdecode, hfull⟩
  · rw [hdecode]
    exact Or.inr ⟨_, rfl, h.decode hx hpc hroom hslots, roundsLeft_decode hx hpc, [],
      (List.append_nil _).symm, List.nil_prefix⟩
  · rw [hdecode]
    cases hstart : s.tryStart with
    | some s' =>
      obtain ⟨hinv, hless⟩ := h.start hstart
      refine Or.inr ⟨s', rfl, hinv, hless, [], ?_, List.nil_prefix⟩
      rw [Simulation.tryStart] at hstart
      split at hstart
      · cases hstart
      · obtain ⟨_, -, rfl⟩ := Option.map_eq_some_iff.mp hstart
        exact (List.append_nil _).symm
    | none =>
      simp only
      split
      · exact Or.inl ⟨_, le_max_right _ _, rfl⟩
      · next hopen =>
        exact Or.inr ⟨_, rfl, h.tick, roundsLeft_tick (h.moves hstart hfull hopen), _, rfl,
          List.takeWhile_prefix _⟩

end BlockGas

end Pvm
