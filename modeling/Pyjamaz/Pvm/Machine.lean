import Mathlib.Algebra.Order.Ring.Int
import Mathlib.Data.Fin.Basic
import Mathlib.Data.Nat.Notation
import Pyjamaz.Library.Result
import Pyjamaz.Pvm.Opcode

/-!
# The machine the three interpreters share

The repository has three interpreters for one virtual machine: a direct transcription of the
specification (`Graypaper`), a faster one in plain Python (`CPython`) and one compiled by Numba
(`Numba`).  They share the register file, the code bytes and the instruction set; everything else,
down to the helper functions, is written three times.  This file holds the shared part.

A step of a register instruction reads operand registers, computes and writes at most one register.
`Outcome` is what such a step leaves behind: a `Write`, no write (a conditional move whose condition
fails), or the exception it raised.
-/

namespace Pvm

/-- There are registers, so a number names one. -/
instance neZero_registers : NeZero 13 := ⟨by decide⟩

/-- The register file: thirteen 64-bit registers. -/
def Regs := Fin 13 → BitVec 64

/-- `min(12, n)`: register nibbles above twelve name the last register. -/
def clampReg (n : ℕ) : Fin 13 := ⟨min 12 n, by omega⟩

/-- The unsigned value of a register. -/
def Regs.get (reg : Regs) (r : Fin 13) : ℕ := (reg r).toNat

lemma Regs.get_lt (reg : Regs) (r : Fin 13) : reg.get r < 2 ^ 64 := (reg r).isLt

/-- The byte of the code at an index.  Every interpreter appends 25 zero bytes to the code before it
runs, and no operand is read further than that. -/
def byteAt (code : List UInt8) (i : ℕ) : ℕ := (code.getD i 0).toNat

lemma byteAt_lt (code : List UInt8) (i : ℕ) : byteAt code i < 2 ^ 8 := (code.getD i 0).toNat_lt

/-- The ways in which computing a register value can fail.  `poison` is the result of a native shift
whose amount is not below the word size, which the compiler leaves undefined. -/
inductive Fault where
  | assertionError
  | overflowError
  | zeroDivisionError
  | poison
  deriving DecidableEq, Repr

/-- A register write; Python integers are unbounded, so the value is an integer. -/
structure Write where
  reg : Fin 13
  value : ℤ
  deriving DecidableEq, Repr

/-- What a register instruction leaves behind. -/
abbrev Outcome := Except Fault (Option Write)

/-- A value computed for a register, or no value when nothing is written. -/
abbrev Value := Except Fault (Option ℤ)

/-- The outcome of writing a computed value to a register. -/
def Value.writeTo (r : Fin 13) : Value → Outcome
  | .error e => .error e
  | .ok none => .ok none
  | .ok (some v) => .ok (some ⟨r, v⟩)

lemma Value.writeTo_inj {r : Fin 13} {v v' : Value} (h : v.writeTo r = v'.writeTo r) : v = v' := by
  rcases v with e | _ | x <;> rcases v' with e' | _ | x' <;> simp [Value.writeTo] at h ⊢ <;> exact h

/-- The operand bytes of the two-register and three-register formats. -/
structure RegOperands where
  /-- low nibble of the first operand byte -/
  low : Fin 13
  /-- high nibble of the first operand byte -/
  high : Fin 13
  /-- second operand byte -/
  third : Fin 13

/-- The three interpreters decode register operands with the same expressions. -/
def fetchRegs (code : List UInt8) (pc : ℕ) : RegOperands where
  low := clampReg (byteAt code (pc + 1) % 16)
  high := clampReg (byteAt code (pc + 1) / 16)
  third := clampReg (byteAt code (pc + 2))

/-- The width of the immediate of the two-register format. -/
def immWidth (argLen : ℕ) : ℕ := min 4 (argLen - 1)

lemma immWidth_le (argLen : ℕ) : immWidth argLen ≤ 4 := min_le_left _ _

end Pvm
