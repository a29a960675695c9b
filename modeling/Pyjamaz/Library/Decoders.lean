import Pyjamaz.Library.Encoding

/-!
# Decoders of sequences

A decoder takes a value off the front of a byte string and answers the value with what is left, or
nothing when the bytes run out.  `takeNatural` reads a number of one to nine octets, `takeItems` reads
items of one size.

Each of them undoes its encoder whatever follows: `takeNatural_naturalPrefix` and
`takeItems_flatten`, from which `takeVec_encodeVec` is assembled.
-/

namespace Octets

/-! ## Numbers -/

/-- How many of the leading bits of an octet are ones. -/
def leadingOnes (b : UInt8) : ℕ := 8 - TwosComplement.bitLength (255 - b.toNat)

/-- The number at the front: the leading ones of the first octet count the octets that follow it, and
its other bits are the highest of the number. -/
def takeNatural : Octets → Option (ℕ × Octets)
  | [] => none
  | first :: rest =>
    let l := leadingOnes first
    if rest.length < l then none
    else some ((first.toNat - (2 ^ 8 - 2 ^ (8 - l))) * 2 ^ (8 * l) + ofLittleEndian (rest.take l),
      rest.drop l)

/-- An octet with a given number of leading ones. -/
lemma leadingOnes_ofNat {l high : ℕ} (hl : l < 8) (hhigh : high < 2 ^ (7 - l)) :
    leadingOnes (UInt8.ofNat (2 ^ 8 - 2 ^ (8 - l) + high)) = l ∧
      (UInt8.ofNat (2 ^ 8 - 2 ^ (8 - l) + high)).toNat = 2 ^ 8 - 2 ^ (8 - l) + high := by
  have hpow : (2 : ℕ) ^ (8 - l) = 2 * 2 ^ (7 - l) := by
    rw [← Nat.pow_succ']
    congr 1
    omega
  have hle : (2 : ℕ) ^ (8 - l) ≤ 2 ^ 8 := Nat.pow_le_pow_right (by norm_num) (by omega)
  have htoNat : (UInt8.ofNat (2 ^ 8 - 2 ^ (8 - l) + high)).toNat = 2 ^ 8 - 2 ^ (8 - l) + high := by
    rw [UInt8.toNat_ofNat', Nat.mod_eq_of_lt]
    omega
  refine ⟨?_, htoNat⟩
  have hsize : TwosComplement.bitLength (255 - (2 ^ 8 - 2 ^ (8 - l) + high)) = 8 - l := by
    apply le_antisymm
    · exact Nat.size_le.mpr (by omega)
    · have hlt := Nat.lt_size.mpr (show 2 ^ (7 - l) ≤ 255 - (2 ^ 8 - 2 ^ (8 - l) + high) by omega)
      have : 7 - l < TwosComplement.bitLength (255 - (2 ^ 8 - 2 ^ (8 - l) + high)) := hlt
      omega
  rw [leadingOnes, htoNat, hsize]
  omega

/-- A number of 64 bits is read back from its encoding, whatever follows it. -/
lemma takeNatural_naturalPrefix {n : ℕ} (hn : n < 2 ^ 64) (rest : Octets) :
    takeNatural (naturalPrefix n ++ rest) = some (n, rest) := by
  have hsize : n < 2 ^ TwosComplement.bitLength n := Nat.lt_size_self n
  rw [naturalPrefix]
  set l := (TwosComplement.bitLength n - 1) / 7 with hl
  by_cases hshort : l < 8
  · have hlt : n < 2 ^ (7 * (l + 1)) :=
      lt_of_lt_of_le hsize (Nat.pow_le_pow_right (by norm_num) (by omega))
    have hhigh : n / 2 ^ (8 * l) < 2 ^ (7 - l) := by
      rw [Nat.div_lt_iff_lt_mul (by positivity), ← pow_add]
      rwa [show 7 - l + 8 * l = 7 * (l + 1) by omega]
    obtain ⟨hones, htoNat⟩ := leadingOnes_ofNat hshort hhigh
    have hmod : n % 2 ^ (8 * l) < 2 ^ (8 * l) := Nat.mod_lt _ (by positivity)
    rw [if_pos hshort, List.cons_append, takeNatural]
    simp only [hones]
    rw [if_neg (by simp), htoNat, Nat.add_sub_cancel_left, List.take_left' (length_littleEndian _ _),
      List.drop_left' (length_littleEndian _ _), ofLittleEndian_littleEndian l hmod, Nat.mul_comm,
      Nat.div_add_mod]
  · have hones : leadingOnes 255 = 8 := by decide
    rw [if_neg hshort, List.cons_append, takeNatural]
    simp only [hones]
    rw [if_neg (by simp), List.take_left' (length_littleEndian _ _),
      List.drop_left' (length_littleEndian _ _), ofLittleEndian_littleEndian 8 hn]
    simp

/-! ## Items of one size -/

/-- The octets of an array of one size, or nothing when the value has another one. -/
def encodeArray (size : ℕ) : Encoder Octets := fun bytes =>
  if bytes.length = size then some bytes else none

def takeItems (size : ℕ) : ℕ → Octets → Option (List Octets × Octets)
  | 0, bytes => some ([], bytes)
  | count + 1, bytes =>
    if bytes.length < size then none
    else do
      let (items, rest) ← takeItems size count (bytes.drop size)
      return (bytes.take size :: items, rest)

/-- `Vec(Array(U8, size)).decode` -/
def takeVec (size : ℕ) (bytes : Octets) : Option (List Octets × Octets) := do
  let (count, rest) ← takeNatural bytes
  takeItems size count rest

lemma encodeArray_eq_some {size : ℕ} {bytes encoded : Octets} :
    encodeArray size bytes = some encoded ↔ bytes.length = size ∧ encoded = bytes := by
  unfold encodeArray
  split
  · next h => exact ⟨fun heq => ⟨h, (Option.some.inj heq).symm⟩, fun heq => by rw [heq.2]⟩
  · next h => exact ⟨fun heq => (Option.some_ne_none _ heq.symm).elim, fun heq => absurd heq.1 h⟩

/-- A sequence of arrays of one size can be encoded. -/
lemma encodeItems_encodeArray {size : ℕ} {items : List Octets} (h : ∀ x ∈ items, x.length = size) :
    encodeItems (encodeArray size) items = some items.flatten := by
  induction items with
  | nil => rfl
  | cons x items ih =>
    have hx := encodeArray_eq_some.mpr ⟨h x List.mem_cons_self, rfl⟩
    exact encodeItems_cons.mpr ⟨x, hx, _, ih (fun y hy => h y (List.mem_cons_of_mem _ hy)), rfl⟩

lemma takeItems_flatten {size : ℕ} {items : List Octets} (h : ∀ x ∈ items, x.length = size)
    (rest : Octets) : takeItems size items.length (items.flatten ++ rest) = some (items, rest) := by
  induction items with
  | nil => rfl
  | cons x items ih =>
    have hx := h x List.mem_cons_self
    rw [List.length_cons, takeItems, List.flatten_cons, List.append_assoc,
      if_neg (by rw [List.length_append]; omega), List.drop_left' hx, List.take_left' hx,
      ih (fun y hy => h y (List.mem_cons_of_mem _ hy))]
    rfl

/-- A sequence of arrays is encoded, and what it is encoded to is read back, whatever follows. -/
lemma takeVec_encodeVec {size : ℕ} {items : List Octets} (h : ∀ x ∈ items, x.length = size)
    (hcount : items.length < 2 ^ 64) :
    ∃ bytes, encodeVec .natural (encodeArray size) items = some bytes ∧
      ∀ rest, takeVec size (bytes ++ rest) = some (items, rest) := by
  refine ⟨_, (encodeVec_eq_some Codec.documented_natural).mpr ⟨_, encodeItems_encodeArray h, rfl⟩,
    fun rest => ?_⟩
  change takeVec size (naturalPrefix items.length ++ items.flatten ++ rest) = _
  rw [takeVec, List.append_assoc, takeNatural_naturalPrefix hcount]
  exact takeItems_flatten h rest

end Octets
