import Mathlib.Data.Nat.Bitwise
import Pyjamaz.Library.HashTree
import Pyjamaz.Library.Octets
import Pyjamaz.Library.Result

/-!
# The state trie

The state root is the digest of a binary trie over the bits of the 31-byte state keys.  A leaf keeps
a value of at most 32 bytes as it is and a longer one as its hash; a branch keeps the digests of its
two halves without the first bit of the left one.

`state_root_commits` says that the root is a function of the finite map, and that it binds: from two
different maps with one root, `rootBreak` computes where the hash function was broken.  The trie itself
is `trie`, and `merkle` is its digest (`merkle_eq`).  The results of the library about hash trees then
apply to it, and of the trie it remains to say that it contains the entries of the list.

Three helper functions cache the hashes of leaves and branches.  They return what they would compute,
so they are left out.  The hash function is a parameter.
-/

namespace Merkle

open Octets

/-- The keys of the state. -/
abbrev Octets31 := Vector UInt8 31

/-- An entry of the state. -/
abbrev Entry := Octets31 × Octets

/-- What stops the computation of a root. -/
inductive TrieError where
  /-- a bit behind the end of a key -/
  | index
  /-- the interpreter's limit on nested calls -/
  | recursion
  deriving DecidableEq, Repr

/-! ## Nodes -/

/-- The first byte without its first bit. -/
def maskFirst (digest : Octets32) : Octets := (digest[0] &&& 0x7f) :: digest.toList.tail

/-- `_branch` -/
def branch (left right : Octets32) : Octets := maskFirst left ++ right.toList

/-- `value.ljust(32, b'\0')` -/
def ljust (value : Octets) : Octets := value ++ List.replicate (32 - value.length) 0

/-- `_leaf` -/
def leaf (hash : Octets → Octets32) (entry : Entry) : Octets :=
  let (key, value) := entry
  if value.length ≤ 32 then
    (0b10000000 ||| UInt8.ofNat value.length) :: key.toList ++ ljust value
  else 0b11000000 :: key.toList ++ (hash value).toList

/-- `_bit` -/
def bit (key : Octets31) (index : ℕ) : Except TrieError Bool :=
  match key[index / 8]? with
  | none => .error .index
  | some byte => .ok (byte.toNat &&& (1 <<< ((7 - (index : ℤ)) % 8).toNat) ≠ 0)

/-- The loop that sorts the entries by a bit into `left` and `right`. -/
def split (index : ℕ) : List Entry → Except TrieError (List Entry × List Entry)
  | [] => .ok ([], [])
  | entry :: rest => do
    let b ← bit entry.1 index
    let (left, right) ← split index rest
    return if b then (left, entry :: right) else (entry :: left, right)

/-- `merkle`, with the number of nested calls that the interpreter allows. -/
def merkle (hash : Octets → Octets32) : ℕ → List Entry → ℕ → Except TrieError Octets32
  | _, [], _ => .ok (Vector.replicate 32 0)
  | _, [entry], _ => .ok (hash (leaf hash entry))
  | 0, _ :: _ :: _, _ => .error .recursion
  | depth + 1, data@(_ :: _ :: _), index => do
    let (left, right) ← split index data
    let leftHash ← merkle hash depth left (index + 1)
    let rightHash ← merkle hash depth right (index + 1)
    return hash (branch leftHash rightHash)

/-- `root` -/
def root (hash : Octets → Octets32) (depth : ℕ) (data : List Entry) : Except TrieError Octets32 :=
  merkle hash depth data 0

/-! ## The trie -/

/-- The trie whose digest `merkle` computes. -/
def trie : ℕ → List Entry → ℕ → Except TrieError (HashTree Entry)
  | _, [], _ => .ok .empty
  | _, [entry], _ => .ok (.leaf entry)
  | 0, _ :: _ :: _, _ => .error .recursion
  | depth + 1, data@(_ :: _ :: _), index => do
    let (left, right) ← split index data
    let l ← trie depth left (index + 1)
    let r ← trie depth right (index + 1)
    return .branch l r

/-- The encodings of the nodes. -/
def nodeEncoding (hash : Octets → Octets32) : NodeEncoding Entry Octets Octets32 Octets where
  leaf := leaf hash
  branch := branch
  null := Vector.replicate 32 0
  keep := maskFirst

/-- The root is the digest of the trie. -/
lemma merkle_eq (hash : Octets → Octets32) (depth : ℕ) (data : List Entry) (index : ℕ) :
    merkle hash depth data index =
      (trie depth data index).map (HashTree.digest hash (nodeEncoding hash)) := by
  induction depth, data, index using merkle.induct with
  | case1 => rw [merkle, trie]; rfl
  | case2 => rw [merkle, trie]; rfl
  | case3 => rw [merkle, trie]; rfl
  | case4 depth a b rest index ih =>
    rw [merkle, trie]
    cases split index (a :: b :: rest) with
    | error e => rfl
    | ok p =>
      obtain ⟨left, right⟩ := p
      simp only [Except.ok_bind, ih]
      cases trie depth left (index + 1) with
      | error e => rfl
      | ok l => cases trie depth right (index + 1) <;> rfl

/-! ## Bits -/

/-- The bit of a key that has one at the index. -/
def bitAt (key : Octets31) (index : ℕ) : Bool :=
  (key.toList.getD (index / 8) 0).toNat.testBit (7 - index % 8)

lemma bit_eq (key : Octets31) {index : ℕ} (h : index < 248) :
    bit key index = .ok (bitAt key index) := by
  have hbyte : index / 8 < 31 := by omega
  have hshift : ((7 - (index : ℤ)) % 8).toNat = 7 - index % 8 := by omega
  have hget : key.toList.getD (index / 8) 0 = key[index / 8] := by
    rw [List.getD_eq_getElem _ _ (by simpa using hbyte), Vector.getElem_toList]
  have hmask : ∀ n i : ℕ, (n &&& 1 <<< i ≠ 0) ↔ n.testBit i := by
    intro n i
    rw [Nat.one_shiftLeft, Nat.and_two_pow]
    cases n.testBit i <;> simp
  rw [bit, Vector.getElem?_eq_getElem hbyte, hshift, bitAt, hget]
  simp only [hmask, Bool.decide_eq_true]

lemma bit_eq_error (key : Octets31) {index : ℕ} (h : 248 ≤ index) :
    bit key index = .error .index := by
  have hbyte : ¬ index / 8 < 31 := by omega
  rw [bit, Vector.getElem?_eq_none (by omega)]

/-- The bits determine the key. -/
lemma eq_of_bitAt {key key' : Octets31} (h : ∀ index < 248, bitAt key index = bitAt key' index) :
    key = key' := by
  apply Vector.ext
  intro i hi
  apply UInt8.toNat_inj.mp
  apply Nat.eq_of_testBit_eq
  intro j
  by_cases hj : j < 8
  · have hindex := h (8 * i + (7 - j)) (by omega)
    have hdiv : (8 * i + (7 - j)) / 8 = i := by omega
    have hmod : 7 - (8 * i + (7 - j)) % 8 = j := by omega
    rw [bitAt, bitAt, hdiv, hmod, List.getD_eq_getElem _ _ (by simpa using hi),
      List.getD_eq_getElem _ _ (by simpa using hi), Vector.getElem_toList,
      Vector.getElem_toList] at hindex
    exact hindex
  · have hlarge : ∀ b : UInt8, b.toNat.testBit j = false := by
      intro b
      have hb : b.toNat < 2 ^ 8 := b.toNat_lt
      exact Nat.testBit_lt_two_pow (hb.trans_le (Nat.pow_le_pow_right (by norm_num) (by omega)))
    rw [hlarge, hlarge]

/-! ## The entries of the trie -/

lemma split_eq {index : ℕ} (h : index < 248) (data : List Entry) :
    split index data =
      .ok (data.filter (fun e => !bitAt e.1 index), data.filter (fun e => bitAt e.1 index)) := by
  induction data with
  | nil => rfl
  | cons entry rest ih =>
    rw [split, bit_eq _ h, ih]
    cases hbit : bitAt entry.1 index
    · simp [hbit]
    · simp [hbit]

lemma split_eq_error {index : ℕ} (h : 248 ≤ index) (entry : Entry) (rest : List Entry) :
    split index (entry :: rest) = .error .index := by
  rw [split, bit_eq_error _ h]
  rfl

/-- Entries that still share a node agree on the bits before it. -/
def SharePrefix (index : ℕ) (data : List Entry) : Prop :=
  ∀ e ∈ data, ∀ e' ∈ data, ∀ i < index, bitAt e.1 i = bitAt e'.1 i

lemma SharePrefix.filter {index : ℕ} {data : List Entry} (h : SharePrefix index data) (b : Bool) :
    SharePrefix (index + 1) (data.filter (fun e => bitAt e.1 index == b)) := by
  intro e he e' he' i hi
  obtain ⟨he, hbit⟩ := List.mem_filter.mp he
  obtain ⟨he', hbit'⟩ := List.mem_filter.mp he'
  rcases Nat.lt_succ_iff_lt_or_eq.mp hi with hlt | rfl
  · exact h e he e' he' i hlt
  · rw [beq_iff_eq.mp hbit, beq_iff_eq.mp hbit']

/-- Two entries with different keys share no node behind the last bit. -/
lemma SharePrefix.lt {index : ℕ} {a b : Entry} {rest : List Entry}
    (h : SharePrefix index (a :: b :: rest)) (hkeys : ((a :: b :: rest).map Prod.fst).Nodup) :
    index < 248 := by
  by_contra hindex
  have heq : a.1 = b.1 := eq_of_bitAt (fun i hi => h a (by simp) b (by simp) i (by omega))
  rw [List.map_cons, List.map_cons, heq] at hkeys
  exact (List.nodup_cons.mp hkeys).1 List.mem_cons_self

/-- The trie of distinct keys is built, and it has the entries of the list. -/
lemma trie_eq_ok (depth : ℕ) (data : List Entry) (index : ℕ)
    (hkeys : (data.map Prod.fst).Nodup) (hshared : SharePrefix index data)
    (hdepth : 248 ≤ depth + index) :
    ∃ t, trie depth data index = .ok t ∧ t.entries.Perm data := by
  induction depth, data, index using trie.induct with
  | case1 => exact ⟨.empty, by rw [trie], .refl _⟩
  | case2 depth entry index => exact ⟨.leaf entry, by rw [trie], .refl _⟩
  | case3 a b rest index =>
    have hlt := hshared.lt hkeys
    omega
  | case4 depth a b rest index ih =>
    have hlt := hshared.lt hkeys
    have hkeep : ∀ p : Entry → Bool, (((a :: b :: rest).filter p).map Prod.fst).Nodup :=
      fun p => hkeys.sublist ((List.filter_sublist).map Prod.fst)
    have hleft : SharePrefix (index + 1) ((a :: b :: rest).filter (fun e => !bitAt e.1 index)) := by
      simpa using hshared.filter false
    have hright : SharePrefix (index + 1) ((a :: b :: rest).filter (fun e => bitAt e.1 index)) := by
      simpa using hshared.filter true
    obtain ⟨l, hl, hlperm⟩ := ih _ (hkeep _) hleft (by omega)
    obtain ⟨r, hr, hrperm⟩ := ih _ (hkeep _) hright (by omega)
    refine ⟨.branch l r, ?_, ?_⟩
    · rw [trie, split_eq hlt, Except.ok_bind]
      simp only [hl, hr, Except.ok_bind]
      rfl
    · exact (hlperm.append hrperm).trans (List.perm_append_comm.trans
        (List.filter_append_perm (fun e : Entry => bitAt e.1 index) _))

/-- The order of the entries does not matter. -/
lemma trie_perm (depth : ℕ) : ∀ {data data' : List Entry}, data.Perm data' → ∀ index,
    trie depth data index = trie depth data' index := by
  induction depth with
  | zero =>
    intro data data' h index
    match data, data', h.length_eq with
    | [], [], _ => rfl
    | [e], [e'], _ => rw [List.singleton_perm_singleton.mp h]
    | _ :: _ :: _, _ :: _ :: _, _ => rw [trie, trie]
  | succ depth ih =>
    intro data data' h index
    match data, data', h.length_eq with
    | [], [], _ => rfl
    | [e], [e'], _ => rw [List.singleton_perm_singleton.mp h]
    | a :: b :: rest, a' :: b' :: rest', _ =>
      rw [trie, trie]
      by_cases hlt : index < 248
      · rw [split_eq hlt, split_eq hlt]
        simp only [Except.ok_bind, ih (h.filter _)]
      · rw [split_eq_error (by omega), split_eq_error (by omega)]

/-! ## Binding -/

/-- What two different leaves with one encoding break: their values are longer than 32 bytes and have
one hash. -/
def leafBreak (e e' : Entry) : HashBreak Octets := .collision e.2 e'.2

lemma ljust_inj {value value' : Octets} (hlength : value.length = value'.length)
    (h : ljust value = ljust value') : value = value' :=
  (List.append_inj h hlength).1

/-- A leaf of a short value starts with the bits `10`, that of a long one with `11`. -/
lemma leafHead_ne {n : ℕ} (hn : n ≤ 32) :
    (0b10000000 ||| UInt8.ofNat n : UInt8) ≠ 0b11000000 := by
  have hall : ∀ k ≤ 32, (0b10000000 ||| UInt8.ofNat k : UInt8) ≠ 0b11000000 := by decide
  exact hall n hn

lemma leafHead_inj {n m : ℕ} (hn : n ≤ 32) (hm : m ≤ 32)
    (h : (0b10000000 ||| UInt8.ofNat n : UInt8) = 0b10000000 ||| UInt8.ofNat m) : n = m := by
  have hlow : ∀ k ≤ 32, ((0b10000000 ||| UInt8.ofNat k) &&& 0x7f).toNat = k := by decide
  rw [← hlow n hn, ← hlow m hm, h]

lemma leaf_ne_branch (hash : Octets → Octets32) (e : Entry) (left right : Octets32) :
    leaf hash e ≠ branch left right := by
  have hmasked : ∀ b : UInt8, (b &&& 0x7f).toNat < 128 := by
    intro b
    rw [UInt8.toNat_and]
    exact Nat.and_lt_two_pow b.toNat (n := 7) (by decide)
  intro h
  have hhead : (leaf hash e).head? = some (left[0] &&& 0x7f) := by
    rw [h]
    rfl
  have hlarge : ∀ n ≤ 32, ¬ (0b10000000 ||| UInt8.ofNat n : UInt8).toNat < 128 := by decide
  obtain ⟨key, value⟩ := e
  rw [leaf] at hhead
  by_cases hlength : value.length ≤ 32
  · simp only [if_pos hlength] at hhead
    have hbyte : (0b10000000 ||| UInt8.ofNat value.length : UInt8) = left[0] &&& 0x7f :=
      Option.some.inj hhead
    exact hlarge _ hlength (hbyte ▸ hmasked _)
  · simp only [if_neg hlength] at hhead
    have hbyte : (0b11000000 : UInt8) = left[0] &&& 0x7f := Option.some.inj hhead
    have hlt := hmasked left[0]
    rw [← hbyte] at hlt
    exact absurd hlt (by decide)

lemma leafBreak_valid (hash : Octets → Octets32) {e e' : Entry} (hne : e ≠ e')
    (h : leaf hash e = leaf hash e') :
    (leafBreak e e').Valid hash (Vector.replicate 32 0) maskFirst := by
  obtain ⟨key, value⟩ := e
  obtain ⟨key', value'⟩ := e'
  have hkey : ∀ {a b c d : Octets}, a.length = 31 → c.length = 31 → a ++ b = c ++ d → a = c ∧ b = d :=
    fun ha hc hab => List.append_inj hab (ha.trans hc.symm)
  rw [leaf, leaf] at h
  by_cases hlength : value.length ≤ 32
  · by_cases hlength' : value'.length ≤ 32
    · -- both values are in the leaves, which are then the same
      simp only [if_pos hlength, if_pos hlength', List.cons_append, List.cons.injEq] at h
      obtain ⟨hhead, htail⟩ := h
      obtain ⟨hk, hv⟩ := hkey (by simp) (by simp) htail
      exact absurd (Prod.ext (Vector.toList_inj.mp hk)
        (ljust_inj (leafHead_inj hlength hlength' hhead) hv)) hne
    · simp only [if_pos hlength, if_neg hlength', List.cons_append, List.cons.injEq] at h
      exact absurd h.1 (leafHead_ne hlength)
  · by_cases hlength' : value'.length ≤ 32
    · simp only [if_neg hlength, if_pos hlength', List.cons_append, List.cons.injEq] at h
      exact absurd h.1.symm (leafHead_ne hlength')
    · simp only [if_neg hlength, if_neg hlength', List.cons_append, List.cons.injEq] at h
      obtain ⟨hk, hv⟩ := hkey (by simp) (by simp) h.2
      refine ⟨fun hvalue => hne (Prod.ext (Vector.toList_inj.mp hk) hvalue), ?_⟩
      rw [Vector.toList_inj.mp hv]

/-- The encodings of the nodes tell them apart. -/
lemma nodeEncoding_separates (hash : Octets → Octets32) :
    (nodeEncoding hash).Separates hash leafBreak where
  leaf_ne_branch := leaf_ne_branch hash
  branch_inj := by
    intro d₁ d₂ d₁' d₂' h
    obtain ⟨hleft, hright⟩ := List.append_inj h (by simp [maskFirst])
    exact ⟨hleft, by rw [Vector.toList_inj.mp hright]⟩
  leafBreak_valid := fun hne h => leafBreak_valid hash hne h

/-- Where two maps with one root break the hash function. -/
def rootBreak (hash : Octets → Octets32) (depth : ℕ) (data data' : List Entry) :
    HashBreak Octets :=
  match trie depth data 0, trie depth data' 0 with
  | .ok t, .ok t' => HashTree.findBreak hash (nodeEncoding hash) leafBreak t t'
  | _, _ => .null []

/-- The state root exists for every list of entries with distinct keys, depends on the finite map
alone, and binds it: two different maps with one root break the hash function, up to the first bit of
its digests, at messages that `rootBreak` computes.  The keys have 248 bits, which is how deep the
calls of `merkle` are nested. -/
theorem state_root_commits (hash : Octets → Octets32) {depth : ℕ} (hdepth : 248 ≤ depth) :
    (∀ data : List Entry, (data.map Prod.fst).Nodup → ∃ digest, root hash depth data = .ok digest) ∧
    (∀ data data' : List Entry, data.Perm data' → root hash depth data = root hash depth data') ∧
    ∀ data data' : List Entry, (data.map Prod.fst).Nodup → (data'.map Prod.fst).Nodup →
      (∃ entry, ¬ (entry ∈ data ↔ entry ∈ data')) → root hash depth data = root hash depth data' →
        (rootBreak hash depth data data').Valid hash (Vector.replicate 32 0) maskFirst := by
  have hshare : ∀ data, SharePrefix 0 data := fun data e _ e' _ i hi => absurd hi (Nat.not_lt_zero i)
  refine ⟨?_, ?_, ?_⟩
  · intro data hkeys
    obtain ⟨t, ht, -⟩ := trie_eq_ok depth data 0 hkeys (hshare data) (by omega)
    exact ⟨_, by rw [root, merkle_eq, ht]; rfl⟩
  · intro data data' hperm
    rw [root, root, merkle_eq, merkle_eq, trie_perm depth hperm]
  · rintro data data' hkeys hkeys' ⟨entry, hentry⟩ hroot
    obtain ⟨t, ht, hentries⟩ := trie_eq_ok depth data 0 hkeys (hshare data) (by omega)
    obtain ⟨t', ht', hentries'⟩ := trie_eq_ok depth data' 0 hkeys' (hshare data') (by omega)
    have hne : t ≠ t' := by
      rintro rfl
      exact hentry (hentries.symm.trans hentries').mem_iff
    have hdigest : t.digest hash (nodeEncoding hash) = t'.digest hash (nodeEncoding hash) := by
      rw [root, root, merkle_eq, merkle_eq, ht, ht'] at hroot
      exact Except.ok.inj hroot
    rw [rootBreak, ht, ht']
    exact HashTree.findBreak_valid (nodeEncoding_separates hash) t t' hne (congrArg _ hdigest)

/-- A key with only its first octet set. -/
def sampleKey (first : UInt8) : Octets31 := (Vector.replicate 31 0).set 0 first

/-- Three entries; the last one is longer than a leaf and ends in an octet. -/
def sampleEntries (last : UInt8) : List Entry :=
  [(sampleKey 0x00, [1]), (sampleKey 0x80, []), (sampleKey 0xC0, List.replicate 32 7 ++ [last])]

/-- If the hash is the first octets of a message, two maps that differ in that octet have one root, and
the break is found two branches down: the two long values have one digest. -/
theorem toDigest_breaks :
    root toDigest 248 (sampleEntries 3) = root toDigest 248 (sampleEntries 4) ∧
      rootBreak toDigest 248 (sampleEntries 3) (sampleEntries 4) =
        .collision (List.replicate 32 7 ++ [3]) (List.replicate 32 7 ++ [4]) ∧
      (rootBreak toDigest 248 (sampleEntries 3) (sampleEntries 4)).Valid toDigest
        (Vector.replicate 32 0) maskFirst := by
  have hroot : root toDigest 248 (sampleEntries 3) = root toDigest 248 (sampleEntries 4) := by
    decide +kernel
  have hdiffer : ∃ entry, ¬ (entry ∈ sampleEntries 3 ↔ entry ∈ sampleEntries 4) :=
    ⟨(sampleKey 0xC0, List.replicate 32 7 ++ [3]), by decide +kernel⟩
  exact ⟨hroot, by decide +kernel, (state_root_commits toDigest (le_refl 248)).2.2 (sampleEntries 3)
    (sampleEntries 4) (by decide +kernel) (by decide +kernel) hdiffer hroot⟩

end Merkle
