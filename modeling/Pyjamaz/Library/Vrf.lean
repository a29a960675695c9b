import Mathlib.Data.Set.Basic

/-!
# Verifiable random functions

A verifiable random function gives every secret an output on every input.  The holder of a secret can
prove the output, and the proof signs a message as well; whoever has the public key reads the output
off the proof.  A ring proof shows an output of some holder of a ring of public keys and not of which.

What is assumed of such a scheme is a matter of the theorem that uses it: `Complete` and `Unique` are
the correctness of the scheme, `RingSound` that of its ring proofs, and `Separates` and
`CollisionFree` say that no two outputs in a certain set are equal by accident.
-/

structure Vrf (Secret Public Input Message Proof Output : Type) where
  publicKey : Secret → Public
  output : Secret → Input → Output
  sign : Secret → Input → Message → Proof
  verify : Public → Input → Message → Proof → Option Output

namespace Vrf

variable {Secret Public Input Message Proof Output RingProof Id : Type}
  (V : Vrf Secret Public Input Message Proof Output)

/-- What a holder signs is accepted, and shows its output. -/
def Complete : Prop :=
  ∀ sk x m, V.verify (V.publicKey sk) x m (V.sign sk x m) = some (V.output sk x)

/-- No key has proofs of two outputs on one input. -/
def Unique : Prop :=
  ∀ pk x m m' π π' y y', V.verify pk x m π = some y → V.verify pk x m' π' = some y' → y = y'

/-- A ring proof shows an output of one of the holders; `read` is the form in which it shows it. -/
def RingSound (read : Output → Id) (ringVerify : List Public → Input → RingProof → Option Id) : Prop :=
  ∀ ring x π id, ringVerify ring x π = some id →
    ∃ sk, V.publicKey sk ∈ ring ∧ read (V.output sk x) = id

/-- No two of these keys have proofs of one output on an input. -/
def Separates (keys : Set Public) (x : Input) : Prop :=
  ∀ pk ∈ keys, ∀ pk' ∈ keys, ∀ m m' π π' y, V.verify pk x m π = some y →
    V.verify pk' x m' π' = some y → pk = pk'

/-- Two outputs are equal only for one key and one input, among these secrets and inputs. -/
def CollisionFree (pairs : Set (Secret × Input)) : Prop :=
  ∀ p ∈ pairs, ∀ q ∈ pairs, V.output p.1 p.2 = V.output q.1 q.2 →
    V.publicKey p.1 = V.publicKey q.1 ∧ p.2 = q.2

variable {V}

/-- A proof that is accepted under the key of a holder shows the output of the holder. -/
lemma Unique.eq_output (hunique : V.Unique) (hcomplete : V.Complete) {sk : Secret} {x : Input}
    {m : Message} {π : Proof} {y : Output} (h : V.verify (V.publicKey sk) x m π = some y) :
    y = V.output sk x :=
  hunique _ x m m π _ y _ h (hcomplete sk x m)

/-- Secrets of one key have one output. -/
lemma Unique.output_congr (hunique : V.Unique) (hcomplete : V.Complete) {sk sk' : Secret}
    (h : V.publicKey sk = V.publicKey sk') (x : Input) (m : Message) :
    V.output sk x = V.output sk' x := by
  have hverify := hcomplete sk x m
  rw [h] at hverify
  exact hunique.eq_output hcomplete hverify

end Vrf
