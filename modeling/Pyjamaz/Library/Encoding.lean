import Pyjamaz.Library.Octets
import Pyjamaz.Library.TwosComplement

/-!
# Encoders of records and sequences

An encoder answers octets, or nothing when the value does not fit its type.  A record is encoded field
by field, and a sequence as its length followed by its items.

The encoders of the basic types are a parameter, a `Codec`, and `Codec.Documented` is what is known of
them.  Of lengths it is `ShortPrefix`, that small ones take few octets.  `Codec.natural` is a codec of
which all this is true.

What the file is for are sizes: a bound on the encoding of each item gives a bound on the encoding of
the sequence.
-/

namespace Octets

variable {α : Type}

/-! ## Encoders -/

/-- An encoder of values of one type; it raises on a value that does not fit. -/
abbrev Encoder (α : Type) := α → Option Octets

/-- The encodings of the items of a sequence, one after another. -/
def encodeItems (encode : Encoder α) (xs : List α) : Option Octets := (xs.mapM encode).map List.flatten

/-- The encoders of the basic types. -/
structure Codec where
  /-- an unsigned integer of some octets -/
  uint : ℕ → Encoder ℤ
  /-- a number of one to nine octets -/
  varInt : ℕ → Octets
  bytes : Octets → Octets
  h256 : Encoder Octets
  /-- a sequence, from the encodings of its items -/
  vec : List Octets → Octets

/-- `Vec(…).encode` -/
def encodeVec (codec : Codec) (encode : Encoder α) (xs : List α) : Option Octets :=
  (xs.mapM encode).map codec.vec

/-- The variable-length encoding of a number below `2 ^ (7 * (l + 1))` takes at most `l + 1` octets. -/
def ShortPrefix (varInt : ℕ → Octets) : Prop :=
  ∀ l < 8, ∀ n < 2 ^ (7 * (l + 1)), (varInt n).length ≤ l + 1

/-- What a codec promises: integers of fixed width are little-endian, a hash is encoded as it is, and a
byte string and a sequence have their length before them. -/
structure Codec.Documented (codec : Codec) : Prop where
  uint : ∀ w ∈ [1, 2, 4, 8], codec.uint w = encodeUint w
  varInt : ShortPrefix codec.varInt
  bytes : ∀ bytes, codec.bytes bytes = codec.varInt bytes.length ++ bytes
  h256 : ∀ bytes, bytes.length = 32 → codec.h256 bytes = some bytes
  length_h256 : ∀ bytes encoded, codec.h256 bytes = some encoded → encoded.length = 32
  vec : ∀ items, codec.vec items = codec.varInt items.length ++ items.flatten

/-- The encoding of a number in one to nine octets: the leading ones of the first octet count the
octets that follow, its other bits are the highest of the number. -/
def naturalPrefix (n : ℕ) : Octets :=
  let l := (TwosComplement.bitLength n - 1) / 7
  if l < 8 then UInt8.ofNat (2 ^ 8 - 2 ^ (8 - l) + n / 2 ^ (8 * l)) :: littleEndian l (n % 2 ^ (8 * l))
  else 255 :: littleEndian 8 n

lemma shortPrefix_naturalPrefix : ShortPrefix naturalPrefix := by
  intro l hl n hn
  have hsize : TwosComplement.bitLength n ≤ 7 * (l + 1) := Nat.size_le.mpr hn
  have hle : (TwosComplement.bitLength n - 1) / 7 ≤ l := by omega
  rw [naturalPrefix, if_pos (by omega), List.length_cons, length_littleEndian]
  omega

/-- The codec with these lengths. -/
def Codec.natural : Codec where
  uint := encodeUint
  varInt := naturalPrefix
  bytes bytes := naturalPrefix bytes.length ++ bytes
  h256 bytes := if bytes.length = 32 then some bytes else none
  vec items := naturalPrefix items.length ++ items.flatten

lemma Codec.documented_natural : Codec.natural.Documented where
  uint w _ := rfl
  varInt := shortPrefix_naturalPrefix
  bytes bytes := rfl
  h256 bytes h := if_pos h
  length_h256 bytes encoded h := by
    obtain ⟨hlength, hsame⟩ := Option.ite_none_right_eq_some.mp h
    rw [← Option.some.inj hsame, hlength]
  vec items := rfl

/-! ## Sizes -/

@[simp] lemma encodeItems_nil (encode : Encoder α) : encodeItems encode [] = some [] := rfl

lemma encodeItems_cons {encode : Encoder α} {x : α} {xs : List α} {bytes : Octets} :
    encodeItems encode (x :: xs) = some bytes ↔
      ∃ first, encode x = some first ∧ ∃ rest, encodeItems encode xs = some rest ∧
        first ++ rest = bytes := by
  simp only [encodeItems, Option.map_eq_some_iff, List.mapM_cons, bind, Option.bind_eq_some_iff, pure,
    Option.some.injEq]
  constructor
  · rintro ⟨_, ⟨first, hfirst, items, hitems, rfl⟩, rfl⟩
    exact ⟨first, hfirst, _, ⟨items, hitems, rfl⟩, rfl⟩
  · rintro ⟨first, hfirst, _, ⟨items, hitems, rfl⟩, rfl⟩
    exact ⟨_, ⟨first, hfirst, items, hitems, rfl⟩, rfl⟩

/-- Every item of a sequence that was encoded was encoded. -/
lemma exists_of_encodeItems {encode : Encoder α} {xs : List α} {bytes : Octets}
    (h : encodeItems encode xs = some bytes) : ∀ x ∈ xs, ∃ first, encode x = some first := by
  induction xs generalizing bytes with
  | nil =>
    intro x hx
    cases hx
  | cons y ys ih =>
    obtain ⟨first, hfirst, rest, hrest, -⟩ := encodeItems_cons.mp h
    intro x hx
    rcases List.mem_cons.mp hx with rfl | hx
    · exact ⟨first, hfirst⟩
    · exact ih hrest x hx

/-- The size of a sequence from the sizes of its items. -/
lemma length_encodeItems_le {encode : Encoder α} {size : α → ℕ} {xs : List α} {bytes : Octets}
    (hsize : ∀ x ∈ xs, ∀ b, encode x = some b → b.length ≤ size x)
    (h : encodeItems encode xs = some bytes) : bytes.length ≤ (xs.map size).sum := by
  induction xs generalizing bytes with
  | nil =>
    cases h
    exact Nat.zero_le _
  | cons y ys ih =>
    obtain ⟨first, hfirst, rest, hrest, rfl⟩ := encodeItems_cons.mp h
    have hhead := hsize y (List.mem_cons_self ..) first hfirst
    have htail := ih (fun x hx => hsize x (List.mem_cons_of_mem y hx)) hrest
    rw [List.length_append, List.map_cons, List.sum_cons]
    exact Nat.add_le_add hhead htail

/-- Items of one size. -/
lemma length_encodeItems_const_le {encode : Encoder α} {size : ℕ} {xs : List α} {bytes : Octets}
    (hsize : ∀ x ∈ xs, ∀ b, encode x = some b → b.length ≤ size)
    (h : encodeItems encode xs = some bytes) : bytes.length ≤ size * xs.length := by
  have : bytes.length ≤ (xs.map fun _ => size).sum := length_encodeItems_le hsize h
  rwa [List.map_const', List.sum_replicate_nat, Nat.mul_comm] at this

/-- As many items come as go in. -/
lemma length_of_mapM {encode : Encoder α} {xs : List α} {items : List Octets}
    (h : xs.mapM encode = some items) : items.length = xs.length := by
  induction xs generalizing items with
  | nil =>
    cases h
    rfl
  | cons x xs ih =>
    simp only [List.mapM_cons, bind, Option.bind_eq_some_iff, pure, Option.some.injEq] at h
    obtain ⟨first, -, rest, hrest, rfl⟩ := h
    rw [List.length_cons, List.length_cons, ih hrest]

section Codec

variable {codec : Codec}

lemma encodeVec_eq_some (hcodec : codec.Documented) {encode : Encoder α} {xs : List α}
    {bytes : Octets} : encodeVec codec encode xs = some bytes ↔
      ∃ items, encodeItems encode xs = some items ∧ codec.varInt xs.length ++ items = bytes := by
  simp only [encodeVec, encodeItems, Option.map_eq_some_iff]
  constructor
  · rintro ⟨items, hitems, rfl⟩
    exact ⟨_, ⟨items, hitems, rfl⟩, by rw [hcodec.vec, length_of_mapM hitems]⟩
  · rintro ⟨_, ⟨items, hitems, rfl⟩, rfl⟩
    exact ⟨items, hitems, by rw [hcodec.vec, length_of_mapM hitems]⟩

/-- Every item of a sequence that was encoded was encoded. -/
lemma exists_of_encodeVec {encode : Encoder α} {xs : List α} {bytes : Octets}
    (h : encodeVec codec encode xs = some bytes) : ∀ x ∈ xs, ∃ first, encode x = some first := by
  obtain ⟨items, hitems, -⟩ := Option.map_eq_some_iff.mp h
  exact exists_of_encodeItems (Option.map_eq_some_iff.mpr ⟨items, hitems, rfl⟩)

namespace Codec.Documented

variable (hcodec : codec.Documented)
include hcodec

/-- A field of a fixed width that was encoded. -/
lemma length_uint {w : ℕ} (hw : w ∈ [1, 2, 4, 8]) {z : ℤ} {bytes : Octets}
    (h : codec.uint w z = some bytes) : bytes.length = w := by
  rw [hcodec.uint w hw] at h
  exact (encodeUint_eq_some h).1

lemma nonneg_of_uint {w : ℕ} (hw : w ∈ [1, 2, 4, 8]) {z : ℤ} {bytes : Octets}
    (h : codec.uint w z = some bytes) : 0 ≤ z := by
  rw [hcodec.uint w hw] at h
  rw [← (encodeUint_eq_some h).2]
  exact Int.natCast_nonneg _

/-- The size of a byte string with its length. -/
lemma length_bytes_le {l : ℕ} (hl : l < 8) {bytes : Octets} (h : bytes.length < 2 ^ (7 * (l + 1))) :
    (codec.bytes bytes).length ≤ l + 1 + bytes.length := by
  rw [hcodec.bytes, List.length_append]
  exact Nat.add_le_add_right (hcodec.varInt l hl _ h) _

/-- A sequence whose items have one size, after a length of a few octets. -/
lemma length_encodeVec_le {encode : Encoder α} {l size : ℕ} (hl : l < 8)
    (hsize : ∀ x b, encode x = some b → b.length ≤ size) {xs : List α} {bytes : Octets}
    (hlength : xs.length < 2 ^ (7 * (l + 1))) (h : encodeVec codec encode xs = some bytes) :
    bytes.length ≤ l + 1 + size * xs.length := by
  obtain ⟨items, hitems, rfl⟩ := (encodeVec_eq_some hcodec).mp h
  rw [List.length_append]
  exact Nat.add_le_add (hcodec.varInt l hl _ hlength)
    (length_encodeItems_const_le (fun x _ b hb => hsize x b hb) hitems)

end Codec.Documented

end Codec

end Octets
