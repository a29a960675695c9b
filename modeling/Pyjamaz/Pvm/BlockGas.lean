import Pyjamaz.Library.Iteration
import Pyjamaz.Pvm.Decoding
import Pyjamaz.Pvm.InstructionCost

/-!
# The price of a basic block

`calculate_block_gas` prices a basic block by simulating an out-of-order machine.  It decodes the
instructions into a reorder buffer of at most 32 entries, starts entries whose operands and execution
units are there, lets the others wait, and retires the finished ones in the order of the program.
The price is the number of cycles, less three.

An entry refers to the entries it depends on as objects, and a retired entry is deleted from the
buffer while such references to it may remain.  The model keeps the deleted objects in a list of
their own: the list of all objects in the order in which they were made is `removed ++ rob`, and a
reference is an index into it.

`Unpruned` is the simulation as it would be without the deletion: retired entries stay in the
buffer, take part in the renaming of registers and are depended on, but they have no cycles left, and
only the others count against the 32.
-/

namespace Pvm

namespace BlockGas

/-- The state of a reorder entry.  The code deletes an entry instead of retiring it; `retired` only
occurs without pruning. -/
inductive EntryState where
  | dec | wait | exe | fin | retired
  deriving DecidableEq, Repr

/-- `_Entry` -/
structure Entry where
  state : EntryState
  cyclesLeft : ℕ
  dependencies : List ℕ
  registers : RegMask
  units : Units
  pc : ℕ

/-! ## One entry -/

/-- Register renaming: whoever holds a source now also holds the destination. -/
def Entry.rename (sources destinations : RegMask) (e : Entry) : Entry :=
  { e with registers :=
      if e.registers &&& sources ≠ 0 then e.registers ||| destinations
      else e.registers &&& ~~~destinations }

/-- A write takes the old names of its destinations away. -/
def Entry.clobber (destinations : RegMask) (e : Entry) : Entry :=
  { e with registers := e.registers &&& ~~~destinations }

/-- The entry starts to execute. -/
def Entry.begin (e : Entry) : Entry := { e with state := .exe, dependencies := [] }

/-- What the end of a cycle does to an entry that stays. -/
def Entry.tick (e : Entry) : Entry :=
  match e.state with
  | .dec => { e with state := .wait }
  | .exe =>
    if e.cyclesLeft = 0 then { e with state := .fin } else { e with cyclesLeft := e.cyclesLeft - 1 }
  | _ => e

/-- The units an entry gives back at the end of a cycle. -/
def Entry.released (e : Entry) (i : Fin 5) : ℤ :=
  if e.state = .exe ∧ e.cyclesLeft = 1 then e.units i else 0

/-- The cycles that the object with a number has left. -/
def cyclesOf (entries : List Entry) (d : ℕ) : ℕ := (entries[d]?.map Entry.cyclesLeft).getD 0

/-- The entry waits, its units are free and nothing it depends on has cycles left. -/
def Entry.isReady (entries : List Entry) (units : Units) (e : Entry) : Bool :=
  e.state = .wait && decide (∀ i, e.units i ≤ units i) &&
    e.dependencies.all (fun d => cyclesOf entries d = 0)

/-! ## The instruction to decode -/

/-- What the decoder reads at a position. -/
structure Instruction where
  pc : ℕ
  argLen : ℕ
  cost : InstructionCost
  sources : RegMask
  destinations : RegMask
  /-- the instruction is `move_reg` -/
  isMove : Bool
  /-- the instruction is a terminator -/
  ends : Bool

def readInstruction (code : List UInt8) (positions : List (ℕ × ℕ)) (polkavmCmov : Bool) (pc : ℕ) :
    Except ValueError Instruction :=
  match positions.lookup pc with
  | none => .error (.invalidInstructionPosition pc)
  | some argLen =>
    if 24 < argLen then .error (.invalidInstructionSkipDistance argLen)
    else do
      let cost ← instructionCost code pc argLen
      let (sources, destinations) ← instructionRegisters code pc polkavmCmov
      return {
        pc := pc
        argLen := argLen
        cost := cost
        sources := sources
        destinations := destinations
        isMove := byteAt code pc = Opcode.value (.regReg .moveReg)
        ends := endsBlockAt code pc }

/-- The position of the next instruction of the block. -/
def Instruction.next (x : Instruction) : Option ℕ :=
  if x.ends then none else some (x.pc + 1 + x.argLen)

/-- The objects of a buffer that hold one of the sources, numbered from `first`. -/
def dependenciesOf (first : ℕ) (rob : List Entry) (sources : RegMask) : List ℕ :=
  ((rob.zipIdx first).filter (fun x => x.1.registers &&& sources ≠ 0)).map Prod.snd

/-- The entry of a decoded instruction. -/
def Instruction.entry (x : Instruction) (first : ℕ) (rob : List Entry) : Entry where
  state := .dec
  cyclesLeft := x.cost.cycles
  dependencies := dependenciesOf first rob x.sources
  registers := x.destinations
  units := x.cost.units
  pc := x.pc

/-- The buffer after decoding: a register move only renames, any other instruction gets an entry. -/
def Instruction.into (x : Instruction) (first : ℕ) (rob : List Entry) : List Entry :=
  if x.isMove then rob.map (Entry.rename x.sources x.destinations)
  else rob.map (Entry.clobber x.destinations) ++ [x.entry first rob]

/-- The first entry that is ready, with the buffer in which it has started. -/
def startIn (entries : List Entry) (units : Units) (rob : List Entry) :
    Option (Entry × List Entry) :=
  match rob.dropWhile (fun e => !e.isReady entries units) with
  | [] => none
  | e :: later => some (e, rob.takeWhile (fun e => !e.isReady entries units) ++ e.begin :: later)

/-! ## The simulation -/

/-- The variables of `calculate_block_gas`, and the objects that were deleted from `rob`. -/
structure Simulation where
  pc : Option ℕ
  cycles : ℕ
  decodeSlots : ℤ
  startsLeft : ℤ
  units : Units
  removed : List Entry
  rob : List Entry

namespace Simulation

/-- All objects, in the order in which they were made. -/
def objects (s : Simulation) : List Entry := s.removed ++ s.rob

def decode (s : Simulation) (x : Instruction) : Simulation :=
  { s with
    pc := x.next
    decodeSlots := s.decodeSlots - x.cost.decodeSlots
    rob := x.into s.removed.length s.rob }

/-- Decoding has precedence, while there is an instruction, room in the buffer and slots. -/
def tryDecode (code : List UInt8) (positions : List (ℕ × ℕ)) (polkavmCmov : Bool)
    (s : Simulation) : Except ValueError (Option Simulation) :=
  match s.pc with
  | none => .ok none
  | some pc =>
    if s.rob.length < 32 then
      (readInstruction code positions polkavmCmov pc).map (fun x =>
        if (x.cost.decodeSlots : ℤ) ≤ s.decodeSlots then some (s.decode x) else none)
    else .ok none

def tryStart (s : Simulation) : Option Simulation :=
  if s.startsLeft = 0 then none
  else (startIn s.objects s.units s.rob).map (fun (e, rob) =>
    { s with startsLeft := s.startsLeft - 1, units := fun i => s.units i - e.units i, rob := rob })

/-- The end of a cycle. -/
def tick (s : Simulation) : Simulation :=
  let retired := s.rob.takeWhile (fun e => e.state = .fin)
  let rob := s.rob.dropWhile (fun e => e.state = .fin)
  { s with
    cycles := s.cycles + 1
    decodeSlots := 4
    startsLeft := 5
    units := fun i => s.units i + (rob.map (fun e => e.released i)).sum
    removed := s.removed ++ retired
    rob := rob.map Entry.tick }

/-- One round of the loop. -/
def step (code : List UInt8) (positions : List (ℕ × ℕ)) (polkavmCmov : Bool) (s : Simulation) :
    Iteration.Round Simulation (Except ValueError ℕ) :=
  match s.tryDecode code positions polkavmCmov with
  | .error e => .done (.error e)
  | .ok (some s') => .next s'
  | .ok none =>
    match s.tryStart with
    | some s' => .next s'
    | none =>
      if s.pc = none ∧ s.rob = [] then .done (.ok (max (s.cycles - 3) 1)) else .next s.tick

def initial (start : ℕ) : Simulation := ⟨some start, 0, 4, 5, Units.capacity, [], []⟩

end Simulation

/-- `calculate_block_gas`, for at most `fuel` rounds of its loop. -/
def calculateBlockGas (code : List UInt8) (positions : List (ℕ × ℕ)) (polkavmCmov : Bool)
    (start fuel : ℕ) : Option (Except ValueError ℕ) :=
  if (positions.lookup start).isNone then some (.error (.invalidBasicBlockStart start))
  else Iteration.run (Simulation.step code positions polkavmCmov) fuel (Simulation.initial start)

/-! ## The simulation without pruning -/

/-- The same machine, which keeps its retired entries. -/
structure Unpruned where
  pc : Option ℕ
  cycles : ℕ
  decodeSlots : ℤ
  startsLeft : ℤ
  units : Units
  rob : List Entry

/-- The entry is retired, or about to be if all before it are. -/
def Entry.isOver (e : Entry) : Bool := e.state = .fin || e.state = .retired

namespace Unpruned

/-- The entries that count against the size of the buffer. -/
def live (u : Unpruned) : List Entry := u.rob.filter (fun e => e.state ≠ .retired)

def tryDecode (code : List UInt8) (positions : List (ℕ × ℕ)) (polkavmCmov : Bool)
    (u : Unpruned) : Except ValueError (Option Unpruned) :=
  match u.pc with
  | none => .ok none
  | some pc =>
    if u.live.length < 32 then
      (readInstruction code positions polkavmCmov pc).map (fun x =>
        if (x.cost.decodeSlots : ℤ) ≤ u.decodeSlots then
          some { u with
            pc := x.next
            decodeSlots := u.decodeSlots - x.cost.decodeSlots
            rob := x.into 0 u.rob }
        else none)
    else .ok none

def tryStart (u : Unpruned) : Option Unpruned :=
  if u.startsLeft = 0 then none
  else (startIn u.rob u.units u.rob).map (fun (e, rob) =>
    { u with startsLeft := u.startsLeft - 1, units := fun i => u.units i - e.units i, rob := rob })

def tick (u : Unpruned) : Unpruned :=
  let ended := u.rob.takeWhile Entry.isOver
  let rest := u.rob.dropWhile Entry.isOver
  { u with
    cycles := u.cycles + 1
    decodeSlots := 4
    startsLeft := 5
    units := fun i => u.units i + (rest.map (fun e => e.released i)).sum
    rob := ended.map (fun e => { e with state := .retired }) ++ rest.map Entry.tick }

def step (code : List UInt8) (positions : List (ℕ × ℕ)) (polkavmCmov : Bool) (u : Unpruned) :
    Iteration.Round Unpruned (Except ValueError ℕ) :=
  match u.tryDecode code positions polkavmCmov with
  | .error e => .done (.error e)
  | .ok (some u') => .next u'
  | .ok none =>
    match u.tryStart with
    | some u' => .next u'
    | none =>
      if u.pc = none ∧ u.live = [] then .done (.ok (max (u.cycles - 3) 1)) else .next u.tick

def initial (start : ℕ) : Unpruned := ⟨some start, 0, 4, 5, Units.capacity, []⟩

end Unpruned

/-- The price of a block without pruning. -/
def calculateBlockGasUnpruned (code : List UInt8) (positions : List (ℕ × ℕ)) (polkavmCmov : Bool)
    (start fuel : ℕ) : Option (Except ValueError ℕ) :=
  if (positions.lookup start).isNone then some (.error (.invalidBasicBlockStart start))
  else Iteration.run (Unpruned.step code positions polkavmCmov) fuel (Unpruned.initial start)

end BlockGas

end Pvm
