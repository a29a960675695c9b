import Mathlib.Data.List.Nodup
import Mathlib.Data.Nat.Notation
import Mathlib.Tactic.Common

/-!
# Insertion-ordered dictionaries

A model of Python's `dict`: a list of key-value entries in which no key occurs twice.  Assigning to a
key that is present keeps its place, assigning to a new key appends it, and iteration follows the
list.  `Dict` therefore distinguishes two dictionaries that hold the same values in a different
order; Python's `==` does not, and `Dict.Same` is that relation.

Lookups after an operation are the `simp` set `get?_insert`, `get?_erase`, `get?_update` and
`get?_filterKeys`.  A loop that assigns to a dictionary is a list of assignments: the last one to a
key counts (`get?_assign`), and if those to one key agree their order is irrelevant
(`same_assign`).
-/

/-- An insertion-ordered dictionary. -/
structure Dict (K V : Type) where
  entries : List (K × V)
  nodup : (entries.map Prod.fst).Nodup
  deriving DecidableEq

namespace Dict

variable {K V : Type}

@[ext] lemma ext_entries {d d' : Dict K V} (h : d.entries = d'.entries) : d = d' := by
  cases d
  cases d'
  congr

/-- The keys in order. -/
def keys (d : Dict K V) : List K := d.entries.map Prod.fst

/-- The values in the order of their keys. -/
def values (d : Dict K V) : List V := d.entries.map Prod.snd

/-- `{}` -/
def empty : Dict K V := ⟨[], List.nodup_nil⟩

instance : EmptyCollection (Dict K V) := ⟨empty⟩

@[simp] lemma entries_empty : (∅ : Dict K V).entries = [] := rfl

variable [DecidableEq K]

/-- `d.get(k)` -/
def get? (d : Dict K V) (k : K) : Option V := d.entries.lookup k

/-- `k in d` -/
def contains (d : Dict K V) (k : K) : Bool := (d.get? k).isSome

/-! ## Lookups in a list of entries -/

lemma lookup_eq_none_iff {entries : List (K × V)} {k : K} :
    entries.lookup k = none ↔ k ∉ entries.map Prod.fst := by
  rw [List.lookup_eq_none_iff, List.mem_map]
  constructor
  · rintro h ⟨entry, hmem, rfl⟩
    simpa using h entry hmem
  · intro h entry hmem
    rw [bne_iff_ne]
    rintro rfl
    exact h ⟨entry, hmem, rfl⟩

lemma mem_of_lookup {entries : List (K × V)} {k : K} {v : V} (h : entries.lookup k = some v) :
    (k, v) ∈ entries := by
  obtain ⟨before, after, rfl, -⟩ := List.lookup_eq_some_iff.mp h
  simp

lemma lookup_of_mem {entries : List (K × V)} {k : K} {v : V}
    (hnodup : (entries.map Prod.fst).Nodup) (h : (k, v) ∈ entries) : entries.lookup k = some v := by
  induction entries with
  | nil => cases h
  | cons entry rest ih =>
    obtain ⟨k', v'⟩ := entry
    rw [List.map_cons, List.nodup_cons] at hnodup
    rcases List.mem_cons.mp h with heq | hmem
    · cases heq
      simp
    · have hne : (k == k') = false := by
        apply beq_false_of_ne
        rintro rfl
        exact hnodup.1 (List.mem_map.mpr ⟨(k, v), hmem, rfl⟩)
      simp only [List.lookup_cons, hne]
      exact ih hnodup.2 hmem

lemma mem_entries_iff {d : Dict K V} {k : K} {v : V} :
    (k, v) ∈ d.entries ↔ d.get? k = some v :=
  ⟨lookup_of_mem d.nodup, mem_of_lookup⟩

lemma contains_iff {d : Dict K V} {k : K} : d.contains k = true ↔ k ∈ d.keys := by
  rw [contains, get?, Option.isSome_iff_ne_none, ne_eq, lookup_eq_none_iff, not_not]
  rfl

lemma get?_eq_none_iff {d : Dict K V} {k : K} : d.get? k = none ↔ d.contains k = false := by
  rw [contains]
  cases d.get? k <;> simp

@[simp] lemma get?_empty (k : K) : (∅ : Dict K V).get? k = none := rfl

@[simp] lemma contains_empty (k : K) : (∅ : Dict K V).contains k = false := rfl

/-! ## Assignment -/

/-- `d[k] = v` on the list of entries. -/
def insertEntry (k : K) (v : V) : List (K × V) → List (K × V)
  | [] => [(k, v)]
  | (k', v') :: rest => if k = k' then (k, v) :: rest else (k', v') :: insertEntry k v rest

lemma mem_map_fst_insertEntry {k k' : K} {v : V} {entries : List (K × V)} :
    k' ∈ (insertEntry k v entries).map Prod.fst ↔ k' = k ∨ k' ∈ entries.map Prod.fst := by
  induction entries with
  | nil => simp [insertEntry]
  | cons entry rest ih =>
    obtain ⟨k₀, v₀⟩ := entry
    rw [insertEntry]
    split
    · next h =>
      subst h
      simp
    · rw [List.map_cons, List.mem_cons, ih, List.map_cons, List.mem_cons]
      tauto

lemma nodup_insertEntry {k : K} {v : V} {entries : List (K × V)}
    (h : (entries.map Prod.fst).Nodup) : ((insertEntry k v entries).map Prod.fst).Nodup := by
  induction entries with
  | nil => simp [insertEntry]
  | cons entry rest ih =>
    obtain ⟨k₀, v₀⟩ := entry
    rw [List.map_cons, List.nodup_cons] at h
    rw [insertEntry]
    split
    · next heq =>
      subst heq
      exact List.nodup_cons.mpr h
    · next hne =>
      rw [List.map_cons, List.nodup_cons, mem_map_fst_insertEntry]
      exact ⟨not_or.mpr ⟨fun h0 => hne h0.symm, h.1⟩, ih h.2⟩

lemma lookup_insertEntry (k k' : K) (v : V) (entries : List (K × V)) :
    (insertEntry k v entries).lookup k' = if k' = k then some v else entries.lookup k' := by
  induction entries with
  | nil =>
    by_cases h : k' = k
    · simp [insertEntry, h]
    · have hne : (k' == k) = false := by simpa using h
      simp [insertEntry, List.lookup_cons, hne, h]
  | cons entry rest ih =>
    obtain ⟨k₀, v₀⟩ := entry
    rw [insertEntry]
    split
    · next heq =>
      subst heq
      by_cases h : k' = k
      · simp [h]
      · have hne : (k' == k) = false := by simpa using h
        simp [List.lookup_cons, hne, h]
    · next hne =>
      by_cases h0 : k' = k₀
      · subst h0
        rw [if_neg (fun h : k' = k => hne h.symm)]
        simp
      · have hne0 : (k' == k₀) = false := by simpa using h0
        simp only [List.lookup_cons, hne0, ih]

/-- `d[k] = v` -/
def insert (d : Dict K V) (k : K) (v : V) : Dict K V :=
  ⟨insertEntry k v d.entries, nodup_insertEntry d.nodup⟩

@[simp] lemma get?_insert (d : Dict K V) (k k' : K) (v : V) :
    (d.insert k v).get? k' = if k' = k then some v else d.get? k' :=
  lookup_insertEntry k k' v d.entries

lemma insertEntry_insertEntry (k : K) (v v' : V) (entries : List (K × V)) :
    insertEntry k v' (insertEntry k v entries) = insertEntry k v' entries := by
  induction entries with
  | nil => simp [insertEntry]
  | cons entry rest ih =>
    obtain ⟨k₀, v₀⟩ := entry
    by_cases h : k = k₀
    · simp [insertEntry, h]
    · simp [insertEntry, h, ih]

/-- The later of two assignments to one key counts. -/
@[simp] lemma insert_insert (d : Dict K V) (k : K) (v v' : V) :
    (d.insert k v).insert k v' = d.insert k v' :=
  ext_entries (insertEntry_insertEntry k v v' d.entries)

/-- Assigning the value that a key has changes nothing. -/
lemma insert_of_get? {d : Dict K V} {k : K} {v : V} (h : d.get? k = some v) : d.insert k v = d := by
  apply ext_entries
  obtain ⟨entries, hnodup⟩ := d
  change insertEntry k v entries = entries
  change entries.lookup k = some v at h
  clear hnodup
  induction entries with
  | nil => cases h
  | cons entry rest ih =>
    obtain ⟨k₀, v₀⟩ := entry
    rw [insertEntry]
    split
    · next heq =>
      subst heq
      simp at h
      rw [h]
    · next hne =>
      have hbeq : (k == k₀) = false := by simpa using hne
      rw [List.lookup_cons, hbeq] at h
      rw [ih h]

lemma get?_insert_self (d : Dict K V) (k : K) (v : V) : (d.insert k v).get? k = some v := by
  simp

lemma get?_insert_of_ne (d : Dict K V) {k k' : K} (h : k' ≠ k) (v : V) :
    (d.insert k v).get? k' = d.get? k' := by
  simp [h]

@[simp] lemma contains_insert (d : Dict K V) (k k' : K) (v : V) :
    (d.insert k v).contains k' = (decide (k' = k) || d.contains k') := by
  by_cases h : k' = k
  · simp [contains, h]
  · simp [contains, h]

lemma insertEntry_of_not_mem {k : K} {entries : List (K × V)} (h : k ∉ entries.map Prod.fst) (v : V) :
    insertEntry k v entries = entries ++ [(k, v)] := by
  induction entries with
  | nil => rfl
  | cons entry rest ih =>
    obtain ⟨k₀, v₀⟩ := entry
    rw [List.map_cons, List.mem_cons, not_or] at h
    rw [insertEntry, if_neg h.1, ih h.2, List.cons_append]

/-- A new key comes last. -/
lemma values_insert_of_none {d : Dict K V} {k : K} (h : d.get? k = none) (v : V) :
    (d.insert k v).values = d.values ++ [v] := by
  change (insertEntry k v d.entries).map Prod.snd = _
  rw [insertEntry_of_not_mem (lookup_eq_none_iff.mp h), List.map_append]
  rfl

/-- A key that is present keeps its place. -/
lemma map_values_insert {α : Type} {f : V → α} {d : Dict K V} {k : K} {v v' : V}
    (h : d.get? k = some v) (hv : f v' = f v) :
    (d.insert k v').values.map f = d.values.map f := by
  obtain ⟨entries, hnodup⟩ := d
  change entries.lookup k = some v at h
  change ((insertEntry k v' entries).map Prod.snd).map f = (entries.map Prod.snd).map f
  clear hnodup
  induction entries with
  | nil => cases h
  | cons entry rest ih =>
    obtain ⟨k₀, v₀⟩ := entry
    rw [insertEntry]
    split
    · next heq =>
      subst heq
      simp at h
      rw [List.map_cons, List.map_cons, List.map_cons, List.map_cons, hv, h]
    · next hne =>
      have hbeq : (k == k₀) = false := by simpa using hne
      rw [List.lookup_cons, hbeq] at h
      rw [List.map_cons, List.map_cons, List.map_cons, List.map_cons, ih h]

lemma mem_values_insert {d : Dict K V} {k : K} {v w : V} (h : w ∈ (d.insert k v).values) :
    w = v ∨ w ∈ d.values := by
  obtain ⟨⟨k', w'⟩, hentry, rfl⟩ := List.mem_map.mp h
  have hget := get?_insert d k k' v
  rw [mem_entries_iff] at hentry
  rw [hentry] at hget
  split at hget
  · exact .inl (Option.some.inj hget)
  · exact .inr (List.mem_map.mpr ⟨(k', w'), mem_entries_iff.mpr hget.symm, rfl⟩)

/-! ## Removal -/

/-- `d.pop(k, None)` -/
def erase (d : Dict K V) (k : K) : Dict K V :=
  ⟨d.entries.filter (fun entry => entry.1 ≠ k),
    d.nodup.sublist (List.filter_sublist.map Prod.fst)⟩

/-- The entries whose key satisfies a test, as a dict comprehension keeps them. -/
def filterKeys (d : Dict K V) (keep : K → Bool) : Dict K V :=
  ⟨d.entries.filter (fun entry => keep entry.1),
    d.nodup.sublist (List.filter_sublist.map Prod.fst)⟩

lemma lookup_filter (entries : List (K × V)) (keep : K → Bool) (k : K) :
    (entries.filter (fun entry => keep entry.1)).lookup k =
      if keep k then entries.lookup k else none := by
  induction entries with
  | nil => simp
  | cons entry rest ih =>
    obtain ⟨k₀, v₀⟩ := entry
    by_cases hk : k = k₀
    · subst hk
      by_cases hkeep : keep k = true
      · simp [hkeep]
      · simp [hkeep] at ih ⊢
        exact ih
    · have hne : (k == k₀) = false := by simpa using hk
      by_cases hkeep : keep k₀ = true
      · simp [hkeep, List.lookup_cons, hne, ih]
      · simp [hkeep, List.lookup_cons, hne, ih]

@[simp] lemma get?_filterKeys (d : Dict K V) (keep : K → Bool) (k : K) :
    (d.filterKeys keep).get? k = if keep k then d.get? k else none :=
  lookup_filter d.entries keep k

@[simp] lemma get?_erase (d : Dict K V) (k k' : K) :
    (d.erase k).get? k' = if k' = k then none else d.get? k' := by
  have h := lookup_filter d.entries (fun x => x ≠ k) k'
  by_cases hk : k' = k
  · simpa [get?, erase, hk] using h
  · simpa [get?, erase, hk] using h

@[simp] lemma contains_erase (d : Dict K V) (k k' : K) :
    (d.erase k).contains k' = (!decide (k' = k) && d.contains k') := by
  by_cases h : k' = k
  · simp [contains, h]
  · simp [contains, h]

/-- Removing an absent key changes nothing. -/
lemma erase_of_not_contains {d : Dict K V} {k : K} (h : d.contains k = false) : d.erase k = d := by
  apply ext_entries
  apply List.filter_eq_self.mpr
  rintro ⟨k', v'⟩ hmem
  have hk : k ∉ d.keys := by
    rw [← contains_iff, h]
    exact Bool.false_ne_true
  simp only [ne_eq, decide_eq_true_eq]
  rintro rfl
  exact hk (List.mem_map.mpr ⟨_, hmem, rfl⟩)

lemma filter_insertEntry (k : K) (v : V) (entries : List (K × V)) :
    (insertEntry k v entries).filter (fun entry => entry.1 ≠ k) =
      entries.filter (fun entry => entry.1 ≠ k) := by
  induction entries with
  | nil => simp [insertEntry]
  | cons entry rest ih =>
    obtain ⟨k₀, v₀⟩ := entry
    rw [insertEntry]
    split
    · next h => simp [h]
    · next h =>
      simp only [List.filter_cons]
      rw [ih]

/-- Assigning to a key and removing it again. -/
@[simp] lemma erase_insert (d : Dict K V) (k : K) (v : V) : (d.insert k v).erase k = d.erase k :=
  ext_entries (filter_insertEntry k v d.entries)

/-! ## Merging -/

/-- A loop of assignments. -/
def assign (d : Dict K V) (writes : List (K × V)) : Dict K V :=
  writes.foldl (fun acc entry => acc.insert entry.1 entry.2) d

/-- `d.update(d')` -/
def update (d d' : Dict K V) : Dict K V := d.assign d'.entries

@[simp] lemma assign_nil (d : Dict K V) : d.assign [] = d := rfl

lemma assign_append (d : Dict K V) (writes writes' : List (K × V)) :
    d.assign (writes ++ writes') = (d.assign writes).assign writes' :=
  List.foldl_append

/-- Assigning to new keys appends the entries. -/
lemma entries_assign {writes : List (K × V)} :
    ∀ {d : Dict K V}, ((d.entries ++ writes).map Prod.fst).Nodup →
      (d.assign writes).entries = d.entries ++ writes := by
  induction writes with
  | nil =>
    intro d _
    simp
  | cons entry rest ih =>
    intro d hnodup
    obtain ⟨k, v⟩ := entry
    have hnew : k ∉ d.entries.map Prod.fst := by
      rw [List.map_append, List.map_cons, List.nodup_append] at hnodup
      intro hmem
      exact hnodup.2.2 k hmem k List.mem_cons_self rfl
    have hentries : (d.insert k v).entries = d.entries ++ [(k, v)] := insertEntry_of_not_mem hnew v
    have hcons : d.assign ((k, v) :: rest) = (d.insert k v).assign rest := rfl
    rw [hcons, ih (by rw [hentries]; simpa using hnodup), hentries, List.append_assoc,
      List.singleton_append]

/-- After a list of assignments, the last one to a key counts. -/
lemma get?_assign (writes : List (K × V)) (k : K) :
    ∀ d : Dict K V, (d.assign writes).get? k = (writes.reverse.lookup k).or (d.get? k) := by
  induction writes with
  | nil =>
    intro d
    simp
  | cons entry rest ih =>
    intro d
    obtain ⟨k₀, v₀⟩ := entry
    have hcons : d.assign ((k₀, v₀) :: rest) = (d.insert k₀ v₀).assign rest := rfl
    rw [hcons, ih, List.reverse_cons, List.lookup_append, Option.or_assoc]
    by_cases hk : k = k₀
    · simp [hk]
    · have hne : (k == k₀) = false := by simpa using hk
      simp [List.lookup_cons, hne, hk]

/-- When assignments to one key agree, each of them is what the dictionary holds in the end. -/
lemma get?_assign_eq_some {writes : List (K × V)}
    (hagree : ∀ k v v', (k, v) ∈ writes → (k, v') ∈ writes → v = v') {d : Dict K V} {k : K} {v : V} :
    (d.assign writes).get? k = some v ↔
      (k, v) ∈ writes ∨ ((∀ v', (k, v') ∉ writes) ∧ d.get? k = some v) := by
  rw [get?_assign]
  cases h : writes.reverse.lookup k with
  | none =>
    have habsent : ∀ v', (k, v') ∉ writes := by
      intro v' hmem
      rw [lookup_eq_none_iff] at h
      exact h (List.mem_map.mpr ⟨(k, v'), by simpa using hmem, rfl⟩)
    simp [habsent]
  | some v₀ =>
    have hmem : (k, v₀) ∈ writes := by simpa using mem_of_lookup h
    rw [Option.some_or, Option.some.injEq]
    constructor
    · rintro rfl
      exact .inl hmem
    · rintro (hv | ⟨habsent, -⟩)
      · exact hagree k v₀ v hmem hv
      · exact absurd hmem (habsent v₀)

/-- What a loop of assignments leaves in an empty dictionary was assigned. -/
lemma mem_of_get?_assign {writes : List (K × V)} {k : K} {v : V}
    (h : ((∅ : Dict K V).assign writes).get? k = some v) : (k, v) ∈ writes := by
  rw [get?_assign, get?_empty, Option.or_none] at h
  simpa using mem_of_lookup h

@[simp] lemma get?_update (d d' : Dict K V) (k : K) :
    (d.update d').get? k = (d'.get? k).or (d.get? k) := by
  have hlookup : d'.entries.reverse.lookup k = d'.entries.lookup k := by
    apply Option.ext
    intro v
    have hnodup : (d'.entries.reverse.map Prod.fst).Nodup := by
      rw [List.map_reverse]
      exact List.nodup_reverse.mpr d'.nodup
    constructor
    · intro h
      exact lookup_of_mem d'.nodup (by simpa using mem_of_lookup h)
    · intro h
      exact lookup_of_mem hnodup (by simpa using mem_of_lookup h)
  rw [update, get?_assign, hlookup]
  rfl

/-! ## Equality up to order -/

/-- Python's `==` on dictionaries: the same value under every key. -/
def Same (d d' : Dict K V) : Prop := ∀ k, d.get? k = d'.get? k

lemma Same.refl (d : Dict K V) : d.Same d := fun _ => rfl

lemma Same.symm {d d' : Dict K V} (h : d.Same d') : d'.Same d := fun k => (h k).symm

lemma Same.trans {d d' d'' : Dict K V} (h : d.Same d') (h' : d'.Same d'') : d.Same d'' :=
  fun k => (h k).trans (h' k)

/-- Agreeing assignments can be made in any order. -/
lemma same_assign {writes writes' : List (K × V)} (hmem : ∀ w, w ∈ writes ↔ w ∈ writes')
    (hagree : ∀ k v v', (k, v) ∈ writes → (k, v') ∈ writes → v = v') (d : Dict K V) :
    (d.assign writes).Same (d.assign writes') := by
  have hagree' : ∀ k v v', (k, v) ∈ writes' → (k, v') ∈ writes' → v = v' := by
    intro k v v' h h'
    exact hagree k v v' ((hmem _).mpr h) ((hmem _).mpr h')
  intro k
  apply Option.ext
  intro v
  rw [get?_assign_eq_some hagree, get?_assign_eq_some hagree', hmem]
  simp only [hmem]

/-- Only the empty dictionary has no key. -/
lemma eq_empty_of_same {d : Dict K V} (h : d.Same ∅) : d = ∅ := by
  apply ext_entries
  rw [entries_empty, List.eq_nil_iff_forall_not_mem]
  rintro ⟨k, v⟩ hmem
  have hget := mem_entries_iff.mp hmem
  rw [h k, get?_empty] at hget
  cases hget

end Dict
