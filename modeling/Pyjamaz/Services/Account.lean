import Pyjamaz.Library.Octets

/-!
# Service accounts

The scalar part of a service account and its 89-byte form in the state.  The three dictionaries that
the source's dataclass also carries are not read by any accessor of the services state, which keeps
items, preimages and availability under keys of their own, and are left out.

Balances and footprints are integers: the source computes them with unbounded Python integers and
only the encoder checks their range.  `U64` and `U32` are the numbers of eight and four octets, lowest
octet first, that `int.to_bytes` and `int.from_bytes` give elsewhere in the source.
-/

namespace Services

open Octets

/-- `ServiceAccount` -/
structure ServiceAccount where
  codeHash : Octets32
  balance : ℤ
  gasLimitAccumulate : ℕ
  gasLimitOnTransfer : ℕ
  footprintStorageBytes : ℤ
  depositOffset : ℕ
  footprintStorageItems : ℤ
  creationSlot : ℕ
  lastAccumulationSlot : ℕ
  parentService : ℕ
  deriving DecidableEq, Repr

namespace ServiceAccount

/-- `threshold_balance`: the deposit for the account, its items and its bytes, less the offset. -/
def thresholdBalance (a : ServiceAccount) : ℤ :=
  max 0 (100 + 10 * a.footprintStorageItems + 1 * a.footprintStorageBytes - a.depositOffset)

lemma thresholdBalance_nonneg (a : ServiceAccount) : 0 ≤ a.thresholdBalance := le_max_left _ _

/-! ## Footprint updates -/

def updateFootprintAddStorageItem (a : ServiceAccount) (keyLen valueLen : ℕ) : ServiceAccount :=
  { a with
    footprintStorageItems := a.footprintStorageItems + 1
    footprintStorageBytes := a.footprintStorageBytes + (34 + keyLen + valueLen) }

def updateFootprintRemoveStorageItem (a : ServiceAccount) (keyLen valueLen : ℕ) : ServiceAccount :=
  { a with
    footprintStorageItems := a.footprintStorageItems - 1
    footprintStorageBytes := a.footprintStorageBytes - (34 + keyLen + valueLen) }

def updateFootprintUpdateStorageItem (a : ServiceAccount) (oldValueLen newValueLen : ℕ) :
    ServiceAccount :=
  { a with
    footprintStorageBytes := a.footprintStorageBytes + (newValueLen - oldValueLen : ℤ) }

def updateFootprintAddPreimage (a : ServiceAccount) (size : ℕ) : ServiceAccount :=
  { a with
    footprintStorageItems := a.footprintStorageItems + 2
    footprintStorageBytes := a.footprintStorageBytes + (81 + size) }

def updateFootprintRemovePreimage (a : ServiceAccount) (size : ℕ) : ServiceAccount :=
  { a with
    footprintStorageItems := a.footprintStorageItems - 2
    footprintStorageBytes := a.footprintStorageBytes - (81 + size) }

/-! ## Serialization -/

/-- `to_serialized_bytes`; a field that does not fit its width raises. -/
def toSerializedBytes (a : ServiceAccount) : Option Octets := do
  let balance ← encodeUint 8 a.balance
  let gasLimitAccumulate ← encodeUint 8 a.gasLimitAccumulate
  let gasLimitOnTransfer ← encodeUint 8 a.gasLimitOnTransfer
  let footprintStorageBytes ← encodeUint 8 a.footprintStorageBytes
  let depositOffset ← encodeUint 8 a.depositOffset
  let footprintStorageItems ← encodeUint 4 a.footprintStorageItems
  let creationSlot ← encodeUint 4 a.creationSlot
  let lastAccumulationSlot ← encodeUint 4 a.lastAccumulationSlot
  let parentService ← encodeUint 4 a.parentService
  return [0] ++ (a.codeHash.toList ++ (balance ++ (gasLimitAccumulate ++ (gasLimitOnTransfer ++
    (footprintStorageBytes ++ (depositOffset ++ (footprintStorageItems ++ (creationSlot ++
    (lastAccumulationSlot ++ parentService)))))))))

lemma size_codeHash {data : Octets} (h : 89 ≤ data.length) :
    (slice data 1 33).toArray.size = 32 := by
  simp only [slice, List.size_toArray, List.length_take, List.length_drop]
  omega

/-- `from_serialized_bytes`; another version or a short input raises. -/
def fromSerializedBytes (data : Octets) : Option ServiceAccount :=
  if h : data.head? = some 0 ∧ 89 ≤ data.length then
    some {
      codeHash := ⟨(slice data 1 33).toArray, size_codeHash h.2⟩
      balance := ofLittleEndian (slice data 33 41)
      gasLimitAccumulate := ofLittleEndian (slice data 41 49)
      gasLimitOnTransfer := ofLittleEndian (slice data 49 57)
      footprintStorageBytes := ofLittleEndian (slice data 57 65)
      depositOffset := ofLittleEndian (slice data 65 73)
      footprintStorageItems := ofLittleEndian (slice data 73 77)
      creationSlot := ofLittleEndian (slice data 77 81)
      lastAccumulationSlot := ofLittleEndian (slice data 81 85)
      parentService := ofLittleEndian (slice data 85 89) }
  else none

/-- A decoded account has no negative field. -/
lemma balance_nonneg_of_fromSerializedBytes {data : Octets} {a : ServiceAccount}
    (h : fromSerializedBytes data = some a) : 0 ≤ a.balance := by
  unfold fromSerializedBytes at h
  split at h
  · cases h
    exact Int.natCast_nonneg _
  · cases h

/-- What is written to the state is read back. -/
theorem fromSerializedBytes_toSerializedBytes {a : ServiceAccount} {data : Octets}
    (h : a.toSerializedBytes = some data) : fromSerializedBytes data = some a := by
  simp only [toSerializedBytes, Option.bind_eq_bind, Option.bind_eq_some_iff, Option.pure_def,
    Option.some.injEq] at h
  obtain ⟨b1, h1, b2, h2, b3, h3, b4, h4, b5, h5, b6, h6, b7, h7, b8, h8, b9, h9, rfl⟩ := h
  obtain ⟨l1, v1⟩ := encodeUint_eq_some h1
  obtain ⟨l2, v2⟩ := encodeUint_eq_some h2
  obtain ⟨l3, v3⟩ := encodeUint_eq_some h3
  obtain ⟨l4, v4⟩ := encodeUint_eq_some h4
  obtain ⟨l5, v5⟩ := encodeUint_eq_some h5
  obtain ⟨l6, v6⟩ := encodeUint_eq_some h6
  obtain ⟨l7, v7⟩ := encodeUint_eq_some h7
  obtain ⟨l8, v8⟩ := encodeUint_eq_some h8
  obtain ⟨l9, v9⟩ := encodeUint_eq_some h9
  have hlen : 89 ≤ ([0] ++ (a.codeHash.toList ++ (b1 ++ (b2 ++ (b3 ++ (b4 ++ (b5 ++ (b6 ++ (b7 ++
      (b8 ++ b9)))))))))).length := by
    simp [l1, l2, l3, l4, l5, l6, l7, l8, l9]
  have hc : a.codeHash.toList.length = 32 := by simp
  rw [fromSerializedBytes, dif_pos ⟨rfl, hlen⟩]
  -- the slices are the fields that were written
  simp (disch := simp [*]) only [slice_append_right, slice_append_left, slice_self,
    List.length_singleton, hc, l1, l2, l3, l4, l5, l6, l7, l8, Nat.reduceSub, v1, v4, v6,
    Int.natCast_inj.mp v2, Int.natCast_inj.mp v3, Int.natCast_inj.mp v5, Int.natCast_inj.mp v7,
    Int.natCast_inj.mp v8, Int.natCast_inj.mp v9]
  have hhash : (⟨a.codeHash.toList.toArray, by simp⟩ : Octets32) = a.codeHash := by
    apply Vector.toArray_inj.mp
    exact Array.toArray_toList
  rw [hhash]

end ServiceAccount

end Services
