import Pyjamaz.Pvm.MemoryAgreement

/-!
# Memory states and what they answer

A load or a store is expected to depend on the layout and the bytes only: `expectedLoad` and
`expectedStore` say how.  The first half of this file proves it of each interpreter.  The second half
goes through what can happen to a memory, from `init_memory` to the host calls, and proves that the
three memories of one machine keep the same layout and the same bytes.
-/

namespace Pvm

/-! ## Expected answers -/

/-- The answer of a load in a memory with this layout and these bytes. -/
def expectedLoad (L : Layout) (byte : ℕ → UInt8) (addr n : ℕ) : Except Exit ℕ :=
  let a := addr % 2 ^ 32
  if a < 65536 ∨ 2 ^ 32 < a + n then .error .panic
  else
    match Paged.firstDenied pvmPageSize (fun pg => pg ∈ L.pagesR) a n with
    | some pg => .error (.pageFault (some (pg * pvmPageSize : ℕ)))
    | none => .ok (Octets.ofLittleEndian (Paged.read byte a n))

/-- The answer of a store, and the bytes after it. -/
def expectedStore (L : Layout) (byte : ℕ → UInt8) (addr value n : ℕ) :
    Option Exit × (ℕ → UInt8) :=
  let a := addr % 2 ^ 32
  if a < 65536 ∨ 2 ^ 32 < a + n then (some .panic, byte)
  else
    match Paged.firstDenied pvmPageSize (fun pg => pg ∈ L.pagesW) a n with
    | some pg => (some (.pageFault (some (pg * pvmPageSize : ℕ))), byte)
    | none => (none, Paged.write byte a (Octets.littleEndian n value))

/-- A fault past the guard zone is reported at the page that was found. -/
lemma faultExit_page {allowed : ℕ → Bool} {a n pg : ℕ} (ha : 65536 ≤ a)
    (h : Paged.firstDenied pvmPageSize allowed a n = some pg) :
    faultExit (some (pg * pvmPageSize : ℕ)) = .pageFault (some (pg * pvmPageSize : ℕ)) := by
  obtain ⟨-, i, hi, rfl⟩ := Paged.firstDenied_spec h
  have hpage : 16 ≤ (a + i) / pvmPageSize := by
    rw [Nat.le_div_iff_mul_le pvmPageSize_pos]
    have : 16 * pvmPageSize = 65536 := by decide
    omega
  have hsize : pvmPageSize = 4096 := rfl
  rw [faultExit, if_neg (by omega), if_neg (by rw [hsize]; omega), hsize]
  congr 2
  omega

lemma littleEndian_value_mod (n value : ℕ) :
    Octets.littleEndian n (value % 2 ^ (8 * n)) = Octets.littleEndian n value := by
  have hpow : (2 : ℕ) ^ (8 * n) = 256 ^ n := by rw [Nat.pow_mul]
  rw [hpow, Octets.littleEndian_mod]

lemma littleEndian_ne_nil {n : ℕ} (hn : 0 < n) (value : ℕ) : Octets.littleEndian n value ≠ [] := by
  rw [← List.length_pos_iff, Octets.length_littleEndian]
  exact hn

/-- A guarded access past the guard: what the interpreter makes of its result. -/
lemma guarded_access {α β : Type} {a n : ℕ} {allowed : ℕ → Bool} {access : Except AccessError α}
    {value : α} (f : α → β)
    (h : access = Graypaper.denied (Paged.firstDenied pvmPageSize allowed a n) value) :
    Except.mapError AccessError.exit (do
        guardAccess a n
        let x ← access
        .ok (f x)) =
      if a < 65536 ∨ 2 ^ 32 < a + n then .error .panic
      else
        match Paged.firstDenied pvmPageSize allowed a n with
        | some pg => .error (.pageFault (some (pg * pvmPageSize : ℕ)))
        | none => .ok (f value) := by
  by_cases hguard : a < 65536 ∨ 2 ^ 32 < a + n
  · rw [if_pos hguard, guardAccess, memorySize, if_pos hguard]
    rfl
  · rw [if_neg hguard, guardAccess, memorySize, if_neg hguard, h]
    cases hdenied : Paged.firstDenied pvmPageSize allowed a n with
    | none => rfl
    | some pg =>
      have hexit := faultExit_page (by omega) hdenied
      simp only [Graypaper.denied, bind, Except.bind, Except.mapError, AccessError.exit, hexit]

lemma mod_lt_memorySize (addr : ℕ) : addr % 2 ^ 32 < memorySize := Nat.mod_lt _ (by decide)

lemma Graypaper.load_eq (m : Graypaper.Memory) (addr : ℕ) {n : ℕ} (hn : 0 < n) :
    Graypaper.load m addr n = expectedLoad m.toLayout m.byte addr n := by
  rw [Graypaper.load, Graypaper.Memory.memRead, expectedLoad]
  exact guarded_access _ (m.readBytes_eq (mod_lt_memorySize addr) hn)

lemma CPython.inPages_eq {pages : Finset ℕ} (h : ∀ pg ∈ pages, pg < memorySize / pvmPageSize) :
    CPython.inPages pages = fun pg => decide (pg ∈ pages) := by
  funext pg
  have hsize : memorySize / pvmPageSize = 2 ^ 20 := by decide
  by_cases hpg : pg ∈ pages
  · have hlt := h pg hpg
    rw [hsize] at hlt
    simp only [CPython.inPages, hpg, hsize, not_true_eq_false, decide_false, Bool.or_false,
      decide_true, Bool.not_eq_true', decide_eq_false_iff_not]
    omega
  · simp [CPython.inPages, hpg]

lemma CPython.load_eq (m : CPython.Memory) (hm : m.toLayout.WellFormed) (addr : ℕ) {n : ℕ}
    (hn : 0 < n) : CPython.load m addr n = expectedLoad m.toLayout m.mm addr n := by
  rw [CPython.load, CPython.Memory.memRead, expectedLoad]
  have hread := m.readBytes_eq (mod_lt_memorySize addr) hn
  rw [CPython.inPages_eq hm.bound] at hread
  exact guarded_access _ hread

/-- The status and the address that an access through sections ends with. -/
lemma Numba.access_eq {L : Layout} (hL : L.WellFormed) {required : Acl}
    (hrequired : required = .readable ∨ required = .writable) {addr n : ℕ} (hn : 0 < n) :
    (match Numba.findWhole (Numba.linkMemory L) addr n with
      | some s => if s.access < required.value then some (addr / pvmPageSize) else none
      | none => (Numba.locate (Numba.linkMemory L) required addr n).map (fun x => x / pvmPageSize)) =
      Paged.firstDenied pvmPageSize (Numba.permitted L required) addr n := by
  cases hwhole : Numba.findWhole (Numba.linkMemory L) addr n with
  | some s => exact (Numba.findWhole_linkMemory hrequired hn hwhole).symm
  | none => exact Numba.locate_linkMemory hL hrequired addr n

lemma findWhole_start {sections : List Numba.Section} {s : Numba.Section} {addr n : ℕ}
    (h : Numba.findWhole sections addr n = some s) : s.start + (addr - s.start) = addr := by
  have hbounds := List.find?_some h
  simp only [Bool.and_eq_true, decide_eq_true_eq] at hbounds
  exact Nat.add_sub_cancel' hbounds.1

lemma Numba.memReadJit_eq (mm : ℕ → UInt8) {L : Layout} (hL : L.WellFormed) (addr : ℕ) {n : ℕ}
    (hn : n ∈ [1, 2, 4, 8]) (hpos : 0 < n) :
    Numba.memReadJit mm (Numba.linkMemory L) addr n =
      if addr % 2 ^ 32 < 65536 ∨ 2 ^ 32 < addr % 2 ^ 32 + n then (-2, 0)
      else
        match Paged.firstDenied pvmPageSize (fun pg => pg ∈ L.pagesR) (addr % 2 ^ 32) n with
        | some pg => (-1, pg * pvmPageSize)
        | none => (0, Octets.ofLittleEndian (Paged.read mm (addr % 2 ^ 32) n)) := by
  have haccess : _ = Paged.firstDenied pvmPageSize (fun pg => decide (pg ∈ L.pagesR))
      (addr % 2 ^ 32) n := Numba.access_eq hL (Or.inl rfl) hpos
  rw [Numba.memReadJit, ← haccess]
  congr 1
  cases hwhole : Numba.findWhole (Numba.linkMemory L) (addr % 2 ^ 32) n with
  | some s =>
    simp only [findWhole_start hwhole, Numba.readUintJit_eq _ _ hn]
    split <;> rfl
  | none =>
    simp only
    cases Numba.locate (Numba.linkMemory L) .readable (addr % 2 ^ 32) n with
    | some x => rfl
    | none => simp only [Option.map_none, Numba.collect_eq]

lemma Numba.memWriteJit_eq (mm : ℕ → UInt8) {L : Layout} (hL : L.WellFormed) (addr value : ℕ)
    {n : ℕ} (hpos : 0 < n) :
    Numba.memWriteJit mm (Numba.linkMemory L) addr value n =
      if addr % 2 ^ 32 < 65536 ∨ 2 ^ 32 < addr % 2 ^ 32 + n then (-2, 0, mm)
      else
        match Paged.firstDenied pvmPageSize (fun pg => pg ∈ L.pagesW) (addr % 2 ^ 32) n with
        | some pg => (-1, pg * pvmPageSize, mm)
        | none => (0, 0, Paged.write mm (addr % 2 ^ 32) (Octets.littleEndian n value)) := by
  have haccess : _ = Paged.firstDenied pvmPageSize (fun pg => decide (pg ∈ L.pagesW))
      (addr % 2 ^ 32) n := Numba.access_eq hL (Or.inr rfl) hpos
  rw [Numba.memWriteJit, ← haccess]
  congr 1
  cases hwhole : Numba.findWhole (Numba.linkMemory L) (addr % 2 ^ 32) n with
  | some s =>
    simp only [findWhole_start hwhole, Numba.spread_eq]
    split <;> rfl
  | none =>
    simp only
    cases Numba.locate (Numba.linkMemory L) .writable (addr % 2 ^ 32) n with
    | some x => rfl
    | none => simp only [Option.map_none, Numba.spread_eq]

lemma pos_of_width {n : ℕ} (hn : n ∈ [1, 2, 4, 8]) : 0 < n := by
  simp only [List.mem_cons, List.not_mem_nil, or_false] at hn
  omega

lemma Numba.load_eq (m : Numba.Memory) (hm : m.toLayout.WellFormed) (addr : ℕ) {n : ℕ}
    (hn : n ∈ [1, 2, 4, 8]) : Numba.load m addr n = expectedLoad m.toLayout m.mm addr n := by
  rw [Numba.load, expectedLoad, Numba.memReadJit_eq m.mm hm addr hn (pos_of_width hn)]
  by_cases hguard : addr % 2 ^ 32 < 65536 ∨ 2 ^ 32 < addr % 2 ^ 32 + n
  · simp only [if_pos hguard]
    rfl
  · simp only [if_neg hguard]
    cases hdenied : Paged.firstDenied pvmPageSize (fun pg => decide (pg ∈ m.pagesR))
        (addr % 2 ^ 32) n with
    | none => rfl
    | some pg =>
      have hexit := faultExit_page (by omega) hdenied
      simp only [hexit]
      rfl

/-! ## Stores -/

/-- A guarded store past the guard: what the interpreter makes of its result. -/
lemma guarded_store {μ : Type} {a n : ℕ} {allowed : ℕ → Bool} {access : Except AccessError μ}
    {m m' : μ} (h : access = Graypaper.denied (Paged.firstDenied pvmPageSize allowed a n) m') :
    afterStore m (do guardAccess a n; access) =
      if a < 65536 ∨ 2 ^ 32 < a + n then (some .panic, m)
      else
        match Paged.firstDenied pvmPageSize allowed a n with
        | some pg => (some (.pageFault (some (pg * pvmPageSize : ℕ))), m)
        | none => (none, m') := by
  by_cases hguard : a < 65536 ∨ 2 ^ 32 < a + n
  · rw [if_pos hguard, guardAccess, memorySize, if_pos hguard]
    rfl
  · rw [if_neg hguard, guardAccess, memorySize, if_neg hguard, h]
    cases hdenied : Paged.firstDenied pvmPageSize allowed a n with
    | none => rfl
    | some pg =>
      have hexit := faultExit_page (by omega) hdenied
      simp only [Graypaper.denied, bind, Except.bind, afterStore, AccessError.exit, hexit]

lemma Graypaper.store_eq (m : Graypaper.Memory) (addr value : ℕ) {n : ℕ} (hn : 0 < n) :
    (Graypaper.store m addr value n).1 = (expectedStore m.toLayout m.byte addr value n).1 ∧
      (Graypaper.store m addr value n).2.toLayout = m.toLayout ∧
      (Graypaper.store m addr value n).2.byte =
        (expectedStore m.toLayout m.byte addr value n).2 := by
  obtain ⟨m', hlayout, hbyte, hwrite⟩ :=
    m.writeBytes_eq (mod_lt_memorySize addr) (littleEndian_ne_nil hn (value % 2 ^ (8 * n)))
  rw [Octets.length_littleEndian] at hwrite
  rw [littleEndian_value_mod] at hbyte
  have hstore : Graypaper.store m addr value n =
      if addr % 2 ^ 32 < 65536 ∨ 2 ^ 32 < addr % 2 ^ 32 + n then (some .panic, m)
      else
        match Paged.firstDenied pvmPageSize (fun pg => pg ∈ m.pagesW) (addr % 2 ^ 32) n with
        | some pg => (some (.pageFault (some (pg * pvmPageSize : ℕ))), m)
        | none => (none, m') := guarded_store hwrite
  rw [hstore, expectedStore]
  by_cases hguard : addr % 2 ^ 32 < 65536 ∨ 2 ^ 32 < addr % 2 ^ 32 + n
  · simp only [if_pos hguard]
    exact ⟨trivial, trivial, trivial⟩
  · simp only [if_neg hguard]
    cases Paged.firstDenied pvmPageSize (fun pg => decide (pg ∈ m.pagesW)) (addr % 2 ^ 32) n with
    | some pg => exact ⟨rfl, rfl, rfl⟩
    | none => exact ⟨rfl, hlayout, hbyte⟩

lemma CPython.store_eq (m : CPython.Memory) (hm : m.toLayout.WellFormed) (addr value : ℕ) {n : ℕ}
    (hn : 0 < n) :
    CPython.store m addr value n =
      ((expectedStore m.toLayout m.mm addr value n).1,
        { m with mm := (expectedStore m.toLayout m.mm addr value n).2 }) := by
  have hwrite :=
    m.writeBytes_eq (mod_lt_memorySize addr) (littleEndian_ne_nil hn (value % 2 ^ (8 * n)))
  rw [Octets.length_littleEndian, littleEndian_value_mod, CPython.inPages_eq
    (fun pg hpg => hm.bound pg (hm.subset hpg))] at hwrite
  rw [CPython.store, CPython.Memory.memWrite, expectedStore, littleEndian_value_mod]
  rw [guarded_store hwrite]
  split
  · rfl
  · cases Paged.firstDenied pvmPageSize (fun pg => decide (pg ∈ m.pagesW)) (addr % 2 ^ 32) n <;> rfl

lemma Numba.store_eq (m : Numba.Memory) (hm : m.toLayout.WellFormed) (addr value : ℕ) {n : ℕ}
    (hn : 0 < n) :
    Numba.store m addr value n =
      ((expectedStore m.toLayout m.mm addr value n).1,
        { m with mm := (expectedStore m.toLayout m.mm addr value n).2 }) := by
  rw [Numba.store, expectedStore, Numba.memWriteJit_eq m.mm hm addr value hn]
  by_cases hguard : addr % 2 ^ 32 < 65536 ∨ 2 ^ 32 < addr % 2 ^ 32 + n
  · simp only [if_pos hguard]
    rfl
  · simp only [if_neg hguard]
    cases hdenied : Paged.firstDenied pvmPageSize (fun pg => decide (pg ∈ m.pagesW))
        (addr % 2 ^ 32) n with
    | none => rfl
    | some pg =>
      have hexit := faultExit_page (by omega) hdenied
      simp only [hexit]
      rfl

/-! ## Changes of permissions -/

lemma Layout.WellFormed.setAcl {L : Layout} (h : L.WellFormed) {pg : ℕ}
    (hpg : pg < memorySize / pvmPageSize) (acl : Acl) : (L.setAcl pg acl).WellFormed := by
  rw [Layout.setAcl]
  split_ifs
  · refine ⟨Finset.erase_subset_erase _ h.subset, ?_, h.stack_lt⟩
    intro x hx
    exact h.bound x (Finset.mem_of_mem_erase hx)
  · refine ⟨Finset.insert_subset_insert _ h.subset, ?_, h.stack_lt⟩
    intro x hx
    rcases Finset.mem_insert.mp hx with rfl | hx
    · exact hpg
    · exact h.bound x hx
  · refine ⟨?_, ?_, h.stack_lt⟩
    · exact (Finset.erase_subset _ _).trans (h.subset.trans (Finset.subset_insert _ _))
    · intro x hx
      rcases Finset.mem_insert.mp hx with rfl | hx
      · exact hpg
      · exact h.bound x hx

lemma Layout.WellFormed.changeAcl {L : Layout} (h : L.WellFormed) (pageIdx nrPages : ℕ)
    (hbound : pageIdx + nrPages ≤ memorySize / pvmPageSize) (acl : Acl) :
    (L.changeAcl pageIdx nrPages acl).WellFormed := by
  have hpages : ∀ pg ∈ List.range' pageIdx nrPages, pg < memorySize / pvmPageSize := by
    intro pg hpg
    have hmem := List.mem_range'_1.mp hpg
    omega
  rw [Layout.changeAcl]
  generalize List.range' pageIdx nrPages = pages at hpages
  induction pages generalizing L with
  | nil => exact h
  | cons pg rest ih =>
    rw [List.foldl_cons]
    exact ih (h.setAcl (hpages pg List.mem_cons_self) acl)
      (fun pg hpg => hpages pg (List.mem_cons_of_mem _ hpg))

/-- Permissions only appear on the pages that are changed. -/
lemma Layout.mem_changeAcl {L : Layout} {pageIdx nrPages : ℕ} {acl : Acl} {x : ℕ}
    (h : x ∈ (L.changeAcl pageIdx nrPages acl).pagesR) :
    x ∈ L.pagesR ∨ pageIdx ≤ x ∧ x < pageIdx + nrPages := by
  rw [← List.mem_range'_1]
  rw [Layout.changeAcl] at h
  generalize List.range' pageIdx nrPages = pages at h ⊢
  induction pages generalizing L with
  | nil => exact Or.inl h
  | cons pg rest ih =>
    rw [List.foldl_cons] at h
    rcases ih h with h | h
    · rw [Layout.setAcl] at h
      split_ifs at h
      · exact Or.inl (Finset.mem_of_mem_erase h)
      · rcases Finset.mem_insert.mp h with rfl | h
        · exact Or.inr List.mem_cons_self
        · exact Or.inl h
      · rcases Finset.mem_insert.mp h with rfl | h
        · exact Or.inr List.mem_cons_self
        · exact Or.inl h
    · exact Or.inr (List.mem_cons_of_mem _ h)

/-- The heap grows below the zone in front of the stack. -/
lemma Layout.WellFormed.hcGrowHeap {L : Layout} (h : L.WellFormed) (requestedSize gas : ℕ) :
    (L.hcGrowHeap requestedSize gas).WellFormed := by
  rw [Layout.hcGrowHeap]
  cases hheap : L.heapBase with
  | none => exact h
  | some heapBase =>
    cases hstack : L.stackBase with
    | none => exact h
    | some stackBase =>
      have hlt : (stackBase / pvmInitZoneSize * pvmInitZoneSize - pvmInitZoneSize) / pvmPageSize ≤
          memorySize / pvmPageSize := by
        have hstackLt := h.stack_lt stackBase hstack
        apply Nat.div_le_div_right
        have hround := Nat.div_mul_le_self stackBase pvmInitZoneSize
        have hsize : memorySize = 2 ^ 32 := rfl
        omega
      simp only
      generalize (stackBase / pvmInitZoneSize * pvmInitZoneSize - pvmInitZoneSize) / pvmPageSize = b
        at hlt ⊢
      generalize hfirst : heapBase / pvmPageSize = a
      generalize hused : a + (L.pagesW.filter (fun page => a ≤ page ∧ page < b)).card = used
      by_cases hquery : requestedSize ≤ used ∨ b < requestedSize
      · rw [if_pos (Or.inr hquery)]
        exact h
      · rw [if_neg hquery]
        split
        · exact h
        · have hchanged := h.changeAcl a (requestedSize - a) (by omega) .writable
          exact ⟨hchanged.subset, hchanged.bound, hchanged.stack_lt⟩

/-! ## One memory in two pictures -/

/-- The Graypaper memory and a map with the same layout and the same bytes. -/
structure Same (g : Graypaper.Memory) (c : CPython.Memory) : Prop where
  layout : g.toLayout = c.toLayout
  byte : g.byte = c.mm

/-- A page set to zero is a page of zeros written. -/
lemma Graypaper.Memory.byte_zeroPage (m : Graypaper.Memory) (pg : ℕ) :
    (m.setPage pg (fun _ => 0)).byte =
      Paged.write m.byte (pg * pvmPageSize) (List.replicate pvmPageSize 0) := by
  have hcell : ∀ i < pvmPageSize,
      (0 : UInt8) = Paged.write (m.pageContent pg) 0 (List.replicate pvmPageSize 0) i := by
    intro i hi
    have hlength : i < (List.replicate pvmPageSize (0 : UInt8)).length := by
      rw [List.length_replicate]
      exact hi
    have hwritten : Paged.write (m.pageContent pg) 0 (List.replicate pvmPageSize 0) (0 + i) =
        (List.replicate pvmPageSize 0)[i] := Paged.write_of_mem (m.pageContent pg) hlength
    rw [Nat.zero_add, List.getElem_replicate] at hwritten
    exact hwritten.symm
  have hzero : (m.setPage pg (fun _ => 0)).byte =
      Paged.write m.byte (pg * pvmPageSize + 0) (List.replicate pvmPageSize 0) :=
    m.byte_setPage (by rw [List.length_replicate, Nat.zero_add]) hcell
  rw [hzero, Nat.add_zero]

lemma Graypaper.Memory.zero_eq (m : Graypaper.Memory) (pageIdx nrPages : ℕ) (acl : Acl) :
    (m.zero pageIdx nrPages acl).toLayout = m.changeAcl pageIdx nrPages acl ∧
      (m.zero pageIdx nrPages acl).byte =
        Paged.write m.byte (pageIdx * pvmPageSize) (List.replicate (nrPages * pvmPageSize) 0) := by
  induction nrPages generalizing m pageIdx with
  | zero => simp [Graypaper.Memory.zero, Layout.changeAcl]
  | succ n ih =>
    have hpage := m.byte_zeroPage pageIdx
    obtain ⟨hlayout, hbyte⟩ := ih
      { m.setPage pageIdx (fun _ => 0) with
        toLayout := (m.setPage pageIdx (fun _ => 0)).setAcl pageIdx acl } (pageIdx + 1)
    have happend := Paged.write_append m.byte (pageIdx * pvmPageSize)
      (List.replicate pvmPageSize 0) (List.replicate (n * pvmPageSize) 0)
    rw [List.length_replicate, List.replicate_append_replicate] at happend
    rw [Graypaper.Memory.zero, List.range'_succ, List.foldl_cons]
    refine ⟨?_, ?_⟩
    · rw [Layout.changeAcl, List.range'_succ, List.foldl_cons]
      exact hlayout
    · refine hbyte.trans ?_
      change Paged.write (m.setPage pageIdx (fun _ => 0)).byte _ _ = _
      rw [hpage, Nat.add_mul, Nat.one_mul, happend, Nat.add_mul, Nat.one_mul, Nat.add_comm]

/-- `hc_pages` answers from the layout, and it takes the same bytes to zero. -/
lemma Same.hcPages {g : Graypaper.Memory} {c : CPython.Memory} (h : Same g c) (p n r : ℕ) :
    Same (g.hcPages p n r) (c.hcPages p n r) := by
  rw [Graypaper.Memory.hcPages, CPython.Memory.hcPages, h.layout]
  by_cases hallowed : c.pagesAllowed p n r
  · rw [if_pos hallowed, if_pos hallowed]
    by_cases hr : r < 3
    · have hfit : ¬ memorySize < p * pvmPageSize + n * pvmPageSize := by
        simp only [Layout.pagesAllowed, Bool.and_eq_true, Bool.not_eq_true', Bool.or_eq_false_iff,
          decide_eq_false_iff_not] at hallowed
        have hpages : memorySize = memorySize / pvmPageSize * pvmPageSize := by decide
        rw [← Nat.add_mul, hpages, not_lt]
        exact Nat.mul_le_mul_right _ (by omega)
      obtain ⟨hlayout, hbyte⟩ := g.zero_eq p n (pagesAcl r)
      rw [if_pos hr, if_pos hr, CPython.Memory.zero]
      by_cases hn : n = 0
      · subst hn
        rw [if_pos rfl]
        exact h
      · rw [if_neg hn, if_neg hfit]
        refine ⟨?_, ?_⟩
        · change (Layout.changeAcl _ _ _ _) = Layout.changeAcl _ _ _ _
          rw [hlayout, h.layout]
        · change (g.zero p n (pagesAcl r)).byte = _
          rw [hbyte, h.byte]
    · rw [if_neg hr, if_neg hr]
      refine ⟨?_, h.byte⟩
      change (Layout.changeAcl _ _ _ _) = Layout.changeAcl _ _ _ _
      rw [h.layout]
  · rw [if_neg hallowed, if_neg hallowed]
    exact h

/-- Bytes that a host call writes. -/
lemma Same.hostWrite {g : Graypaper.Memory} {c : CPython.Memory} (h : Same g c)
    (hc : c.toLayout.WellFormed) (address : ℕ) (content : Octets) :
    Same (g.hostWrite address content) (c.hostWrite address content) := by
  by_cases hcontent : content = []
  · subst hcontent
    exact h
  · by_cases haddress : address < memorySize
    · obtain ⟨g', hlayout, hbyte, hwrite⟩ := g.writeBytes_eq haddress hcontent
      have hwrite' := c.writeBytes_eq haddress hcontent
      rw [CPython.inPages_eq (fun pg hpg => hc.bound pg (hc.subset hpg))] at hwrite'
      rw [Graypaper.Memory.hostWrite, CPython.Memory.hostWrite, hwrite, hwrite', h.layout]
      cases Paged.firstDenied pvmPageSize (fun pg => decide (pg ∈ c.pagesW)) address
          content.length with
      | some pg => exact h
      | none =>
        refine ⟨hlayout.trans h.layout, ?_⟩
        change g'.byte = Paged.write c.mm address content
        rw [hbyte, h.byte]
    · have hge : memorySize ≤ address := not_lt.mp haddress
      rw [Graypaper.Memory.hostWrite, CPython.Memory.hostWrite, Graypaper.Memory.writeBytes,
        CPython.Memory.writeBytes, if_neg hcontent, if_neg hcontent, if_pos hge, if_pos hge]
      exact h

/-- The layout after `hc_pages`, and after bytes are written. -/
lemma CPython.Memory.wellFormed_hcPages {c : CPython.Memory} (h : c.toLayout.WellFormed)
    (p n r : ℕ) : (c.hcPages p n r).toLayout.WellFormed := by
  rw [CPython.Memory.hcPages]
  by_cases hallowed : c.pagesAllowed p n r
  · rw [if_pos hallowed]
    have hbound : p + n ≤ memorySize / pvmPageSize := by
      simp only [Layout.pagesAllowed, Bool.and_eq_true, Bool.not_eq_true', Bool.or_eq_false_iff,
        decide_eq_false_iff_not] at hallowed
      omega
    split
    · exact h
    · next m hm =>
      suffices hwf : m.toLayout.WellFormed from hwf.changeAcl p n hbound _
      split at hm
      · rw [CPython.Memory.zero] at hm
        split_ifs at hm
        · rw [← Option.some.inj hm]
          exact h
        · rw [← Option.some.inj hm]
          exact h.changeAcl p n hbound _
      · rw [← Option.some.inj hm]
        exact h
  · rw [if_neg hallowed]
    exact h

lemma CPython.Memory.toLayout_hostWrite (c : CPython.Memory) (address : ℕ) (content : Octets) :
    (c.hostWrite address content).toLayout = c.toLayout := by
  by_cases hcontent : content = []
  · subst hcontent
    rfl
  · by_cases haddress : address < memorySize
    · rw [CPython.Memory.hostWrite, c.writeBytes_eq haddress hcontent]
      cases Paged.firstDenied pvmPageSize (CPython.inPages c.pagesW) address content.length <;> rfl
    · rw [CPython.Memory.hostWrite, CPython.Memory.writeBytes, if_neg hcontent,
        if_pos (not_lt.mp haddress)]

/-! ## The segments of a program -/

lemma le_pageSize (n : ℕ) : n ≤ pageSize n := by
  have hpage : pvmPageSize = 4096 := rfl
  rw [pageSize, hpage]
  omega

@[simp] lemma pageSize_mul (n : ℕ) : pageSize (n * pvmPageSize) = n * pvmPageSize := by
  have hpage : pvmPageSize = 4096 := rfl
  rw [pageSize, hpage]
  omega

lemma pageSize_eq_mul (n : ℕ) : pageSize n = pageSize n / pvmPageSize * pvmPageSize := by
  rw [pageSize, Nat.mul_div_cancel_left _ pvmPageSize_pos, Nat.mul_comm]

lemma pageSize_mono {n m : ℕ} (h : n ≤ m) : pageSize n ≤ pageSize m := by
  apply Nat.mul_le_mul_left
  exact Nat.div_le_div_right (by omega)

/-- Merging a permission into a page that is not writable sets it. -/
lemma Layout.mergeAcl_eq_setAcl (L : Layout) {pg : ℕ} {acl : Acl} (hacl : acl ≠ .inaccessible)
    (h : acl = .readable → pg ∉ L.pagesW) : L.mergeAcl pg acl = L.setAcl pg acl := by
  cases acl with
  | inaccessible => exact absurd rfl hacl
  | readable =>
    have herase : L.pagesW.erase pg = L.pagesW := Finset.erase_eq_of_notMem (h rfl)
    simp [Layout.mergeAcl, Layout.setAcl, herase]
  | writable => simp [Layout.mergeAcl, Layout.setAcl]
  | readWrite => simp [Layout.mergeAcl, Layout.setAcl]

/-- The pages that a segment adds are the same, whether they are merged in or set. -/
lemma Layout.foldl_mergeAcl {L : Layout} {base : ℕ} {acl : Acl} (hacl : acl ≠ .inaccessible)
    (n : ℕ) (h : ∀ pg ∈ L.pagesW, pg < base) :
    (List.range n).foldl (fun L localPage => L.mergeAcl (base + localPage) acl) L =
      L.changeAcl base n acl := by
  have hpages : ∀ (pages : List ℕ) (L : Layout), (∀ pg ∈ pages, acl = .readable → pg ∉ L.pagesW) →
      pages.foldl (fun L pg => L.mergeAcl pg acl) L = pages.foldl (fun L pg => L.setAcl pg acl) L := by
    intro pages
    induction pages with
    | nil => exact fun _ _ => rfl
    | cons pg rest ih =>
      intro L hL
      rw [List.foldl_cons, List.foldl_cons,
        L.mergeAcl_eq_setAcl hacl (hL pg List.mem_cons_self)]
      apply ih
      intro pg' hpg' hreadable
      have hnot := hL pg' (List.mem_cons_of_mem _ hpg') hreadable
      subst hreadable
      simp [Layout.setAcl, hnot]
  rw [Layout.changeAcl, List.range'_eq_map_range, ← hpages, List.foldl_map]
  intro pg hpg _ hmem
  obtain ⟨i, -, rfl⟩ := List.mem_map.mp hpg
  exact absurd (h _ hmem) (by omega)

/-- Whether or not the page is created, its bytes are those written. -/
lemma Graypaper.Memory.byte_write (m : Graypaper.Memory) {pg : ℕ} {data : Octets}
    (h : data.length ≤ pvmPageSize) :
    (m.write pg data).byte = Paged.write m.byte (pg * pvmPageSize) data := by
  have hslice : (m.writeSlice pg 0 data).byte = Paged.write m.byte (pg * pvmPageSize + 0) data :=
    m.byte_writeSlice (by rw [Nat.zero_add]; exact h)
  rw [Nat.add_zero] at hslice
  rw [Graypaper.Memory.write]
  split
  · next hmissing =>
    split
    · next hzero =>
      -- a missing page reads as zeros, so writing zeros changes nothing
      refine (Paged.write_eq_self _ ?_).symm
      intro i hi
      have hcell := List.all_eq_true.mp hzero _ (List.getElem_mem hi)
      rw [m.byte_page (by omega), Graypaper.Memory.pageContent, hmissing]
      exact (of_decide_eq_true hcell).symm
    · exact hslice
  · exact hslice

@[simp] lemma Graypaper.Memory.toLayout_write (m : Graypaper.Memory) (pg : ℕ) (data : Octets) :
    (m.write pg data).toLayout = m.toLayout := by
  rw [Graypaper.Memory.write]
  split
  · split <;> rfl
  · rfl

/-- The loop of `add_segment` after some pages: what it has written is a prefix of the contents. -/
lemma Graypaper.Memory.foldl_write (m : Graypaper.Memory) (startPage : ℕ) (contents : Octets)
    (n : ℕ) (hn : n ≤ pageSize contents.length / pvmPageSize) :
    ((List.range n).foldl (fun m localPage =>
        m.write (startPage + localPage) (Octets.slice contents (localPage * pvmPageSize)
          (min (localPage * pvmPageSize + pvmPageSize) contents.length))) m).toLayout = m.toLayout ∧
      ((List.range n).foldl (fun m localPage =>
        m.write (startPage + localPage) (Octets.slice contents (localPage * pvmPageSize)
          (min (localPage * pvmPageSize + pvmPageSize) contents.length))) m).byte =
        Paged.write m.byte (startPage * pvmPageSize) (contents.take (n * pvmPageSize)) := by
  induction n with
  | zero => simp
  | succ n ih =>
    obtain ⟨hlayout, hbyte⟩ := ih (by omega)
    have hfull : n * pvmPageSize ≤ contents.length := by
      have hpage : pvmPageSize = 4096 := rfl
      rw [pageSize, Nat.mul_div_cancel_left _ pvmPageSize_pos, hpage] at hn
      rw [hpage]
      omega
    have hslice : Octets.slice contents (n * pvmPageSize)
        (min (n * pvmPageSize + pvmPageSize) contents.length) =
          (contents.drop (n * pvmPageSize)).take pvmPageSize := by
      rw [Octets.slice, List.take_eq_take_iff, List.length_drop]
      omega
    have htake : contents.take ((n + 1) * pvmPageSize) =
        contents.take (n * pvmPageSize) ++ (contents.drop (n * pvmPageSize)).take pvmPageSize := by
      rw [Nat.add_mul, Nat.one_mul, List.take_add]
    have happend := Paged.write_append m.byte (startPage * pvmPageSize)
      (contents.take (n * pvmPageSize)) ((contents.drop (n * pvmPageSize)).take pvmPageSize)
    rw [List.length_take_of_le hfull, ← htake, ← Nat.add_mul] at happend
    rw [List.range_succ, List.foldl_append, List.foldl_cons, List.foldl_nil]
    refine ⟨(Graypaper.Memory.toLayout_write _ _ _).trans hlayout, ?_⟩
    rw [Graypaper.Memory.byte_write _ (by rw [hslice]; exact List.length_take_le _ _), hbyte, hslice,
      happend]

/-- `add_segment` with contents that fit. -/
lemma Graypaper.Memory.addSegment_eq (m : Graypaper.Memory) {address size : ℕ} (acl : Acl)
    {contents : Octets} (haddress : address / pvmPageSize * pvmPageSize = address)
    (hsize : contents.length ≤ size) :
    (m.addSegment address size acl contents).toLayout =
        m.changeAcl (address / pvmPageSize) (pageSize size / pvmPageSize) acl ∧
      (m.addSegment address size acl contents).byte = Paged.write m.byte address contents := by
  rw [Graypaper.Memory.addSegment]
  split
  · next hempty =>
    obtain ⟨rfl, rfl⟩ := hempty
    simp [pageSize, Layout.changeAcl, pvmPageSize]
  · have hlength : min contents.length (pageSize size) = contents.length :=
      min_eq_left (hsize.trans (le_pageSize size))
    have htake : contents.take (pageSize contents.length / pvmPageSize * pvmPageSize) = contents := by
      rw [← pageSize_eq_mul]
      exact List.take_of_length_le (le_pageSize _)
    simp only [max_eq_left hsize, hlength]
    obtain ⟨hlayout, hbyte⟩ := Graypaper.Memory.foldl_write
      { m with toLayout := m.changeAcl (address / pvmPageSize) (pageSize size / pvmPageSize) acl }
      (address / pvmPageSize) contents _ le_rfl
    rw [htake, haddress] at hbyte
    exact ⟨hlayout, hbyte⟩

/-- Nothing is in use from an address on. -/
structure CPython.Memory.FreeFrom (c : CPython.Memory) (frontier : ℕ) : Prop where
  wellFormed : c.toLayout.WellFormed
  pages : ∀ pg ∈ c.pagesR, (pg + 1) * pvmPageSize ≤ frontier
  bytes : ∀ x, frontier ≤ x → c.mm x = 0

/-- A segment behind everything in use: CPython also fills its last page with zeros, which are there
already. -/
lemma Same.segment {g : Graypaper.Memory} {c : CPython.Memory} (h : Same g c) {frontier : ℕ}
    (hc : c.FreeFrom frontier) {address size : ℕ} {acl : Acl} {contents : Octets}
    (hfrontier : frontier ≤ address) (haddress : address / pvmPageSize * pvmPageSize = address)
    (hcontents : contents.length ≤ size) (hsize : size ≤ pvmMaxHeapSize)
    (hfit : address + pageSize size ≤ memorySize) (hacl : acl ≠ .inaccessible) :
    ∃ s, CPython.MemorySection.new address size contents acl = some s ∧
      Same (g.addSegment address size acl contents) (c.loadSection s) ∧
      (c.loadSection s).FreeFrom (address + pageSize size) := by
  have hpages : address + pageSize size =
      (address / pvmPageSize + pageSize size / pvmPageSize) * pvmPageSize := by
    rw [Nat.add_mul, haddress, ← pageSize_eq_mul]
  have hidem : pageSize (pageSize size) = pageSize size := by
    rw [pageSize_eq_mul size, pageSize_mul]
  have hle : pageSize contents.length ≤ pageSize size := pageSize_mono hcontents
  have hlength := le_pageSize contents.length
  obtain ⟨hlayout, hbyte⟩ := g.addSegment_eq acl haddress hcontents
  refine ⟨_, by rw [CPython.MemorySection.new, if_neg (by omega)], ?_⟩
  have hload : c.loadSection
      ⟨address, pageSize size, address + pageSize contents.length,
        contents ++ List.replicate (pageSize size - contents.length) 0, acl⟩ =
      { c.changeAcl (address / pvmPageSize) (pageSize size / pvmPageSize) acl with
        mm := Paged.write c.mm address contents } := by
    have htake : (contents ++ List.replicate (pageSize size - contents.length) (0 : UInt8)).take
        (min (contents ++ List.replicate (pageSize size - contents.length) (0 : UInt8)).length
          (address + pageSize contents.length - address)) =
        contents ++ List.replicate (pageSize contents.length - contents.length) 0 := by
      rw [Nat.add_sub_cancel_left, List.length_append, List.length_replicate, min_eq_right (by omega),
        List.take_append, List.take_of_length_le hlength, List.take_replicate, min_eq_left (by omega)]
    rw [CPython.Memory.loadSection]
    simp only
    rw [hidem, Layout.foldl_mergeAcl hacl, htake, ← Paged.write_append, Paged.write_eq_self]
    · intro i hi
      rw [Paged.write_of_le _ (by omega), List.getElem_replicate]
      exact hc.bytes _ (by omega)
    · intro pg hpg
      have hlow := hc.pages pg (hc.wellFormed.subset hpg)
      have hlt : (pg + 1) * pvmPageSize ≤ address / pvmPageSize * pvmPageSize := by omega
      exact Nat.le_of_mul_le_mul_right hlt pvmPageSize_pos
  rw [hload]
  refine ⟨⟨by rw [hlayout, h.layout], by rw [hbyte, h.byte]⟩, ?_, ?_, ?_⟩
  · apply hc.wellFormed.changeAcl
    have hmemory : memorySize = memorySize / pvmPageSize * pvmPageSize := by decide
    rw [hpages, hmemory] at hfit
    exact Nat.le_of_mul_le_mul_right hfit pvmPageSize_pos
  · intro pg hpg
    rw [hpages]
    rcases Layout.mem_changeAcl hpg with hold | ⟨-, hnew⟩
    · have hlow := hc.pages pg hold
      omega
    · exact Nat.mul_le_mul_right _ hnew
  · intro x hx
    have hsizeLe := le_pageSize size
    change Paged.write c.mm address contents x = 0
    rw [Paged.write_of_le _ (by omega)]
    exact hc.bytes x (by omega)

lemma pageSize_le_zoneSize (n : ℕ) : pageSize n ≤ zoneSize n := by
  have hpage : pvmPageSize = 4096 := rfl
  have hzone : pvmInitZoneSize = 65536 := rfl
  rw [pageSize, zoneSize, hpage, hzone]
  omega

lemma div_mul_pageSize {n k : ℕ} (h : n = k * pvmPageSize) : n / pvmPageSize * pvmPageSize = n := by
  rw [h, Nat.mul_div_cancel _ pvmPageSize_pos]

lemma zoneSize_eq_mul (n : ℕ) :
    zoneSize n = (n + pvmInitZoneSize - 1) / pvmInitZoneSize * 16 * pvmPageSize := by
  have hzone : pvmInitZoneSize = 16 * pvmPageSize := rfl
  rw [zoneSize, Nat.mul_assoc, ← hzone, Nat.mul_comm]

lemma pageSize_pageSize (n : ℕ) : pageSize (pageSize n) = pageSize n := by
  rw [pageSize_eq_mul n, pageSize_mul]

namespace ProgramData

variable (d : ProgramData)

lemma pageSize_heapMemSize : pageSize d.heapMemSize = d.heapMemSize := by
  rw [heapMemSize, pageSize_eq_mul d.heapContents.length, ← Nat.add_mul, pageSize_mul]

/-- Adding whole pages before or after the rounding is the same. -/
lemma heapMemSize_eq :
    d.heapMemSize = pageSize (d.heapContents.length + d.heapMemPages * pvmPageSize) := by
  have hpage : pvmPageSize = 4096 := rfl
  rw [heapMemSize, pageSize, pageSize, hpage]
  omega

lemma heapStart_aligned : d.heapStart / pvmPageSize * pvmPageSize = d.heapStart := by
  apply div_mul_pageSize (k := 32 +
    (d.romContents.length + pvmInitZoneSize - 1) / pvmInitZoneSize * 16)
  have hzone : 2 * pvmInitZoneSize = 32 * pvmPageSize := rfl
  rw [heapStart, zoneSize_eq_mul, hzone, Nat.add_mul]

lemma stackStart_aligned : d.stackStart / pvmPageSize * pvmPageSize = d.stackStart := by
  apply div_mul_pageSize (k := 1044448 - pageSize d.stackMemSize / pvmPageSize)
  have hspace : 2 ^ 32 - 2 * pvmInitZoneSize - pvmInputDataSize = 1044448 * pvmPageSize := rfl
  rw [stackStart, hspace, stackSize, Nat.sub_mul, ← pageSize_eq_mul]

lemma rom_before_heap : romStart + pageSize d.romSize ≤ d.heapStart := by
  have hle := pageSize_le_zoneSize d.romContents.length
  rw [romSize, pageSize_pageSize, romStart, heapStart]
  omega

lemma heap_before_stack : d.heapStart + pageSize d.heapMemSize ≤ d.stackStart := by
  have hfits := d.fits
  have hstack := pageSize_le_zoneSize d.stackMemSize
  have hheap := pageSize_le_zoneSize (d.heapContents.length + d.heapMemPages * pvmPageSize)
  rw [pageSize_heapMemSize, heapMemSize_eq, heapStart, stackStart, stackSize]
  omega

lemma stack_before_args : d.stackStart + pageSize d.stackSize ≤ argsStart := by
  have hfits := d.fits
  have hstack := pageSize_le_zoneSize d.stackMemSize
  rw [stackSize, pageSize_pageSize, stackStart, stackSize, argsStart]
  omega

lemma args_fit : argsStart + pageSize d.argsSize ≤ memorySize := by
  have hmono := pageSize_mono d.arguments_le
  have hinput : pageSize pvmInputDataSize = 2 ^ 24 := by decide
  have hstart : argsStart = 2 ^ 32 - pvmInitZoneSize - 2 ^ 24 := rfl
  have hzone : pvmInitZoneSize = 65536 := rfl
  have hsize : memorySize = 2 ^ 32 := rfl
  rw [argsSize, pageSize_pageSize]
  omega

/-- No segment is larger than a section may be. -/
lemma sizes_le : d.romSize ≤ pvmMaxHeapSize ∧ d.heapMemSize ≤ pvmMaxHeapSize ∧
    d.stackSize ≤ pvmMaxHeapSize ∧ d.argsSize ≤ pvmMaxHeapSize := by
  have hpage : pvmPageSize = 4096 := rfl
  have hmax : pvmMaxHeapSize = 1000000000 := by decide
  have hinput : pvmInputDataSize = 2 ^ 24 := rfl
  have hrom := d.rom_lt
  have hheap := d.heap_lt
  have hpages := d.pages_lt
  have hstack := d.stack_lt
  have hargs := d.arguments_le
  simp only [romSize, heapMemSize, stackSize, argsSize, pageSize, hpage, hmax]
  omega

end ProgramData

/-- The four segments of a program lie behind each other, on pages of their own. -/
lemma Same.init (d : ProgramData) :
    ∃ c, CPython.initMemory d = some c ∧ Same (Graypaper.initMemory d) c ∧
      c.toLayout.WellFormed := by
  obtain ⟨hromMax, hheapMax, hstackMax, hargsMax⟩ := d.sizes_le
  have hromHeap := d.rom_before_heap
  have hheapStack := d.heap_before_stack
  have hstackArgs := d.stack_before_args
  have hargs := d.args_fit
  have hempty : Same .empty .empty := ⟨rfl, rfl⟩
  have hfree : CPython.Memory.empty.FreeFrom 0 :=
    ⟨⟨Finset.Subset.refl _, fun pg hpg => absurd hpg (Finset.notMem_empty pg),
      fun base hbase => by cases hbase⟩, fun pg hpg => absurd hpg (Finset.notMem_empty pg),
      fun _ _ => rfl⟩
  have hromLength : d.romContents.length ≤ d.romSize := le_pageSize _
  have hheapLength : d.heapContents.length ≤ d.heapMemSize :=
    (le_pageSize _).trans (Nat.le_add_right _ _)
  have hstackLength : (List.replicate d.stackSize (0 : UInt8)).length ≤ d.stackSize :=
    List.length_replicate.le
  have hargsLength : d.argumentContents.length ≤ d.argsSize := le_pageSize _
  obtain ⟨rom, hrom, hsame, hfree⟩ := hempty.segment hfree (Nat.zero_le _)
    (by decide : ProgramData.romStart / pvmPageSize * pvmPageSize = ProgramData.romStart)
    hromLength hromMax (by omega)
    (by decide : Acl.readable ≠ .inaccessible)
  obtain ⟨heap, hheap, hsame, hfree⟩ := hsame.segment hfree hromHeap d.heapStart_aligned hheapLength
    hheapMax (by omega) (by decide : Acl.writable ≠ .inaccessible)
  obtain ⟨stack, hstack, hsame, hfree⟩ := hsame.segment hfree hheapStack d.stackStart_aligned
    hstackLength hstackMax (by omega) (by decide : Acl.writable ≠ .inaccessible)
  obtain ⟨arguments, harguments, hsame, hfree⟩ := hsame.segment hfree hstackArgs
    (by decide : ProgramData.argsStart / pvmPageSize * pvmPageSize = ProgramData.argsStart)
    hargsLength hargsMax hargs
    (by decide : Acl.readable ≠ .inaccessible)
  let c := (((CPython.Memory.empty.loadSection rom).loadSection heap).loadSection stack).loadSection
    arguments
  refine ⟨⟨c.setBases d, c.mm⟩, by rw [CPython.initMemory, hrom, hheap, hstack, harguments]; rfl,
    ⟨?_, hsame.byte⟩, ?_⟩
  · change Layout.setBases _ d = Layout.setBases c.toLayout d
    rw [hsame.layout]
  · refine ⟨hfree.wellFormed.subset, hfree.wellFormed.bound, ?_⟩
    intro base hbase
    have hbase : d.stackStart = base := Option.some.inj hbase
    have hlt : ProgramData.argsStart < memorySize := by decide
    omega

/-! ## Reachable memories -/

/-- The three memories of a machine have one layout and the same bytes. -/
structure Memories.Agree (M : Memories) : Prop where
  wellFormed : M.cpython.toLayout.WellFormed
  graypaper : Same M.graypaper M.cpython
  numba : M.numba = M.cpython

lemma Same.store {g : Graypaper.Memory} {c : CPython.Memory} (h : Same g c)
    (hc : c.toLayout.WellFormed) (addr value : ℕ) {n : ℕ} (hn : 0 < n) :
    Same (Graypaper.store g addr value n).2 (CPython.store c addr value n).2 := by
  obtain ⟨-, hlayout, hbyte⟩ := Graypaper.store_eq g addr value hn
  rw [h.layout, h.byte] at hbyte
  rw [CPython.store_eq c hc addr value hn]
  exact ⟨hlayout.trans h.layout, hbyte⟩

/-- Whatever happens to a memory, it happens to all three. -/
lemma Memories.Reachable.agree {M : Memories} (h : M.Reachable) : M.Agree := by
  induction h with
  | fresh =>
    refine ⟨⟨Finset.Subset.refl _, ?_, ?_⟩, ⟨rfl, rfl⟩, rfl⟩
    · exact fun pg hpg => absurd hpg (Finset.notMem_empty pg)
    · exact fun base hbase => by cases hbase
  | init d hinit =>
    obtain ⟨c, hc, hsame, hwf⟩ := Same.init d
    obtain rfl := Option.some.inj (hc.symm.trans hinit)
    exact ⟨hwf, hsame, rfl⟩
  | @growHeap M _ requestedSize gas ih =>
    refine ⟨ih.wellFormed.hcGrowHeap requestedSize gas, ⟨?_, ih.graypaper.byte⟩, ?_⟩
    · change M.graypaper.hcGrowHeap requestedSize gas = M.cpython.hcGrowHeap requestedSize gas
      rw [ih.graypaper.layout]
    · rw [ih.numba]
  | @pages M _ p c r ih =>
    exact ⟨CPython.Memory.wellFormed_hcPages ih.wellFormed p c r, ih.graypaper.hcPages p c r,
      congrArg (fun m => CPython.Memory.hcPages m p c r) ih.numba⟩
  | @hostWrite M _ address content ih =>
    refine ⟨?_, ih.graypaper.hostWrite ih.wellFormed address content,
      congrArg (fun m => CPython.Memory.hostWrite m address content) ih.numba⟩
    change (M.cpython.hostWrite address content).toLayout.WellFormed
    rw [CPython.Memory.toLayout_hostWrite]
    exact ih.wellFormed
  | @store M _ addr value n hn ih =>
    have hpos := pos_of_width hn
    refine ⟨?_, ih.graypaper.store ih.wellFormed addr value hpos, ?_⟩
    · change (CPython.store M.cpython addr value n).2.toLayout.WellFormed
      rw [CPython.store_eq M.cpython ih.wellFormed addr value hpos]
      exact ih.wellFormed
    · change (Numba.store M.numba addr value n).2 = (CPython.store M.cpython addr value n).2
      rw [ih.numba, CPython.store_eq M.cpython ih.wellFormed addr value hpos,
        Numba.store_eq M.cpython ih.wellFormed addr value hpos]

/-! ## What an access does -/

/-- A page that an access touches without permission. -/
abbrev Inaccessible (pages : Finset ℕ) (addr n : ℕ) : ℕ → Prop :=
  Paged.Denied pvmPageSize (fun pg => pg ∈ pages) (addr % 2 ^ 32) n

/-- An access stays out of the guard zone and inside the space. -/
def InSpace (addr n : ℕ) : Prop := 2 ^ 16 ≤ addr % 2 ^ 32 ∧ addr % 2 ^ 32 + n ≤ 2 ^ 32

/-- How a load ends. -/
structure LoadSpec (L : Layout) (byte : ℕ → UInt8) (addr n : ℕ) (result : Except Exit ℕ) :
    Prop where
  panic : ¬ InSpace addr n → result = .error .panic
  fault : InSpace addr n → ∀ pg, IsLeast {pg | Inaccessible L.pagesR addr n pg} pg →
    result = .error (.pageFault (some (pg * pvmPageSize : ℕ)))
  value : InSpace addr n → (∀ pg, ¬ Inaccessible L.pagesR addr n pg) →
    result = .ok (Octets.ofLittleEndian (Paged.read byte (addr % 2 ^ 32) n))

/-- How a store ends, and what it leaves. -/
structure StoreSpec (L : Layout) (byte : ℕ → UInt8) (addr value n : ℕ)
    (result : Option Exit) (byte' : ℕ → UInt8) : Prop where
  panic : ¬ InSpace addr n → result = some .panic
  fault : InSpace addr n → ∀ pg, IsLeast {pg | Inaccessible L.pagesW addr n pg} pg →
    result = some (.pageFault (some (pg * pvmPageSize : ℕ)))
  unchanged : result ≠ none → byte' = byte
  stored : InSpace addr n → (∀ pg, ¬ Inaccessible L.pagesW addr n pg) →
    result = none ∧ ∀ x, byte' x =
      if addr % 2 ^ 32 ≤ x ∧ x < addr % 2 ^ 32 + n then
        UInt8.ofNat (value / 256 ^ (x - addr % 2 ^ 32))
      else byte x

lemma not_inSpace {addr n : ℕ} :
    ¬ InSpace addr n ↔ addr % 2 ^ 32 < 65536 ∨ 2 ^ 32 < addr % 2 ^ 32 + n := by
  rw [InSpace]
  omega

lemma expectedLoad_spec (L : Layout) (byte : ℕ → UInt8) (addr n : ℕ) :
    LoadSpec L byte addr n (expectedLoad L byte addr n) := by
  refine ⟨?_, ?_, ?_⟩
  · intro hguard
    exact if_pos (not_inSpace.mp hguard)
  · intro hspace pg hleast
    have hguard := fun h => not_inSpace.mpr h hspace
    simp only [expectedLoad, if_neg hguard]
    rw [Paged.firstDenied_of_isLeast hleast]
  · intro hspace hallowed
    have hguard := fun h => not_inSpace.mpr h hspace
    simp only [expectedLoad, if_neg hguard]
    rw [Paged.firstDenied_eq_none_iff.mpr hallowed]

/-- The bytes of a stored number. -/
lemma write_littleEndian (byte : ℕ → UInt8) (a n value x : ℕ) :
    Paged.write byte a (Octets.littleEndian n value) x =
      if a ≤ x ∧ x < a + n then UInt8.ofNat (value / 256 ^ (x - a)) else byte x := by
  have hlength : (Octets.littleEndian n value).length = n := Octets.length_littleEndian n value
  split
  · next hx =>
    obtain ⟨i, rfl⟩ := Nat.exists_eq_add_of_le hx.1
    have hi : i < (Octets.littleEndian n value).length := by omega
    rw [Paged.write_of_mem _ hi, Octets.getElem_littleEndian, Nat.add_sub_cancel_left]
  · next hx =>
    by_cases hlow : x < a
    · rw [Paged.write_of_lt _ _ hlow]
    · rw [Paged.write_of_le _ (by omega)]

lemma expectedStore_spec (L : Layout) (byte : ℕ → UInt8) (addr value n : ℕ) :
    StoreSpec L byte addr value n (expectedStore L byte addr value n).1
      (expectedStore L byte addr value n).2 := by
  refine ⟨?_, ?_, ?_, ?_⟩
  · intro hguard
    simp only [expectedStore, if_pos (not_inSpace.mp hguard)]
  · intro hspace pg hleast
    have hguard := fun h => not_inSpace.mpr h hspace
    simp only [expectedStore, if_neg hguard]
    rw [Paged.firstDenied_of_isLeast hleast]
  · intro hstopped
    rw [expectedStore] at hstopped ⊢
    split
    · rfl
    · next hguard =>
      rw [if_neg hguard] at hstopped
      cases hdenied : Paged.firstDenied pvmPageSize (fun pg => decide (pg ∈ L.pagesW))
          (addr % 2 ^ 32) n with
      | some pg => rfl
      | none =>
        rw [hdenied] at hstopped
        exact absurd rfl hstopped
  · intro hspace hallowed
    have hguard := fun h => not_inSpace.mpr h hspace
    simp only [expectedStore, if_neg hguard]
    rw [Paged.firstDenied_eq_none_iff.mpr hallowed]
    exact ⟨rfl, write_littleEndian byte (addr % 2 ^ 32) n value⟩

/-- In every state that the memory of a machine can reach, the three interpreters have the same
layout and the same bytes, and a load or a store of any width at any address ends in the same way:
with a panic in the guard zone and past the end of the space, else with a page fault at the lowest
page that it may not touch, else with the little-endian value.  A store that stops changes no
byte, one that goes through changes those at its address, and the memories agree after it. -/
theorem memory_agrees {M : Memories} (h : M.Reachable) (addr value : ℕ) {n : ℕ}
    (hn : n ∈ [1, 2, 4, 8]) :
    (Same M.graypaper M.cpython ∧ Same M.graypaper M.numba) ∧
      (Graypaper.load M.graypaper addr n = CPython.load M.cpython addr n ∧
        Graypaper.load M.graypaper addr n = Numba.load M.numba addr n ∧
        LoadSpec M.graypaper.toLayout M.graypaper.byte addr n
          (Graypaper.load M.graypaper addr n)) ∧
      ((Graypaper.store M.graypaper addr value n).1 = (CPython.store M.cpython addr value n).1 ∧
        (Graypaper.store M.graypaper addr value n).1 = (Numba.store M.numba addr value n).1 ∧
        Same (Graypaper.store M.graypaper addr value n).2 (CPython.store M.cpython addr value n).2 ∧
        Same (Graypaper.store M.graypaper addr value n).2 (Numba.store M.numba addr value n).2 ∧
        (Graypaper.store M.graypaper addr value n).2.toLayout = M.graypaper.toLayout ∧
        StoreSpec M.graypaper.toLayout M.graypaper.byte addr value n
          (Graypaper.store M.graypaper addr value n).1
          (Graypaper.store M.graypaper addr value n).2.byte) := by
  have hpos := pos_of_width hn
  obtain ⟨hwf, hsame, hnumba⟩ := h.agree
  obtain ⟨hexit, hlayout, hbyte⟩ := Graypaper.store_eq M.graypaper addr value hpos
  have hstore := hsame.store hwf addr value hpos
  have hloadSpec := expectedLoad_spec M.graypaper.toLayout M.graypaper.byte addr n
  have hstoreSpec := expectedStore_spec M.graypaper.toLayout M.graypaper.byte addr value n
  have hstored : Numba.store M.cpython addr value n = CPython.store M.cpython addr value n := by
    rw [Numba.store_eq _ hwf addr value hpos, CPython.store_eq _ hwf addr value hpos]
  rw [hnumba]
  refine ⟨⟨hsame, hsame⟩, ⟨?_, ?_, ?_⟩, ?_, ?_, hstore, ?_, hlayout, ?_⟩
  · rw [Graypaper.load_eq _ addr hpos, CPython.load_eq _ hwf addr hpos, hsame.layout, hsame.byte]
  · rw [Graypaper.load_eq _ addr hpos, Numba.load_eq _ hwf addr hn, hsame.layout, hsame.byte]
  · rw [Graypaper.load_eq _ addr hpos]
    exact hloadSpec
  · rw [hexit, CPython.store_eq _ hwf addr value hpos, hsame.layout, hsame.byte]
  · rw [hexit, Numba.store_eq _ hwf addr value hpos, hsame.layout, hsame.byte]
  · rw [hstored]
    exact hstore
  · rw [hexit, hbyte]
    exact hstoreSpec

/-- A new memory in which the pages host call makes the page 16 writable: a store of two bytes that
begins on its last byte ends in a fault at the next page, and changes neither. -/
theorem memory_agrees_straddle :
    (Numba.store (CPython.Memory.empty.hcPages 16 1 2) 69631 0x1234 2).1 =
        some (.pageFault (some 69632)) ∧
      (Graypaper.store (Graypaper.Memory.empty.hcPages 16 1 2) 69631 0x1234 2).2.byte =
        (Graypaper.Memory.empty.hcPages 16 1 2).byte := by
  obtain ⟨-, -, -, hexit, -, -, -, hspec⟩ :=
    memory_agrees (.pages .fresh 16 1 2) 69631 0x1234 (by decide : 2 ∈ [1, 2, 4, 8])
  have hspace : InSpace 69631 2 := by
    rw [InSpace]
    decide
  have hfault := hspec.fault hspace 17 (by
    refine ⟨⟨⟨1, by decide, by decide⟩, by decide⟩, ?_⟩
    rintro pg ⟨⟨i, hi, rfl⟩, hdenied⟩
    interval_cases i
    · exact absurd hdenied (by decide)
    · decide)
  exact ⟨hexit.symm.trans hfault, hspec.unchanged (by rw [hfault]; exact Option.some_ne_none _)⟩

end Pvm
