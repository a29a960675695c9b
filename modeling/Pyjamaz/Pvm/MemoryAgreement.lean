import Pyjamaz.Pvm.Memory

/-!
# Agreement of the interpreters on memory

The three memories are three pictures of one: a layout, and a byte at every address.  Each access is
reduced to that picture.  The loops over pages of the Graypaper interpreter, the scan of CPython and
the search through sections of Numba all come out at `Paged.firstDenied`, the lowest page of the
range that may not be touched; and what they read and write is `Paged.read` and `Paged.write` on the
bytes.

`Pyjamaz.Pvm.MemoryStates` puts this together: there, in every state that a machine can reach, a
load or a store of any width at any address ends in the same way in all three interpreters.
-/

namespace Pvm

/-! ## The Graypaper interpreter -/

lemma pvmPageSize_pos : 0 < pvmPageSize := by decide

namespace Graypaper

variable {m : Memory}

lemma Memory.byte_page (m : Memory) {pg i : ℕ} (hi : i < pvmPageSize) :
    m.byte (pg * pvmPageSize + i) = m.pageContent pg i := by
  rw [Memory.byte, Nat.mul_comm, Nat.mul_add_div pvmPageSize_pos, Nat.div_eq_of_lt hi,
    Nat.mul_add_mod, Nat.mod_eq_of_lt hi, Nat.add_zero]

/-- Reading from a page is reading from the space. -/
lemma Memory.read_page (m : Memory) {pg off n : ℕ} (h : off + n ≤ pvmPageSize) :
    Paged.read (m.pageContent pg) off n = Paged.read m.byte (pg * pvmPageSize + off) n := by
  apply List.map_congr_left
  intro i hi
  have hlt := List.mem_range.mp hi
  rw [Nat.add_assoc, Memory.byte_page m (by omega)]

lemma Memory.pageContent_setPage (m : Memory) (pg pg' : ℕ) (page : ℕ → UInt8) :
    (m.setPage pg page).pageContent pg' = if pg' = pg then page else m.pageContent pg' := by
  by_cases h : pg' = pg
  · subst h
    simp [Memory.pageContent, Memory.setPage]
  · simp [Memory.pageContent, Memory.setPage, h]

/-- Writing to a page is writing to the space: only the cells of the page count. -/
lemma Memory.byte_setPage (m : Memory) {pg off : ℕ} {data : Octets} {page : ℕ → UInt8}
    (h : off + data.length ≤ pvmPageSize)
    (hpage : ∀ i < pvmPageSize, page i = Paged.write (m.pageContent pg) off data i) :
    (m.setPage pg page).byte = Paged.write m.byte (pg * pvmPageSize + off) data := by
  funext x
  have hdiv := Nat.div_add_mod x pvmPageSize
  have hmod := Nat.mod_lt x pvmPageSize_pos
  have hcell := hpage _ hmod
  rw [Memory.byte, Memory.pageContent_setPage]
  by_cases hpage : x / pvmPageSize = pg
  · rw [if_pos hpage, hcell, Paged.write, Paged.write, Memory.byte, hpage]
    rw [hpage] at hdiv
    have hx : x = pg * pvmPageSize + x % pvmPageSize := by rw [Nat.mul_comm pg]; omega
    by_cases hoff : off ≤ x % pvmPageSize
    · rw [if_pos hoff, if_pos (by omega)]
      congr 2
      omega
    · rw [if_neg hoff, if_neg (by omega)]
  · rw [if_neg hpage]
    change m.byte x = _
    rcases Nat.lt_or_gt_of_ne hpage with hlt | hgt
    · have hle : (x / pvmPageSize + 1) * pvmPageSize ≤ pg * pvmPageSize :=
        Nat.mul_le_mul_right _ hlt
      rw [Paged.write_of_lt]
      rw [Nat.add_mul, Nat.mul_comm (x / pvmPageSize)] at hle
      omega
    · have hle : (pg + 1) * pvmPageSize ≤ x / pvmPageSize * pvmPageSize :=
        Nat.mul_le_mul_right _ hgt
      rw [Paged.write_of_le]
      rw [Nat.add_mul, Nat.mul_comm (x / pvmPageSize)] at hle
      omega

lemma Memory.byte_writeSlice (m : Memory) {pg off : ℕ} {data : Octets}
    (h : off + data.length ≤ pvmPageSize) :
    (m.writeSlice pg off data).byte = Paged.write m.byte (pg * pvmPageSize + off) data :=
  m.byte_setPage h (fun _ _ => rfl)

@[simp] lemma Memory.toLayout_writeSlice (m : Memory) (pg off : ℕ) (data : Octets) :
    (m.writeSlice pg off data).toLayout = m.toLayout := rfl

/-- What is left of a range after its first chunk starts on the next page. -/
lemma segment_step {address stop pos pg : ℕ} (hpos : pos < stop) (hpg : pg = pos / pvmPageSize)
    (hfirst : pos = if pg = address / pvmPageSize then address else pg * pvmPageSize) :
    segment address stop pg = (pos, pos + Paged.chunk pvmPageSize pos (stop - pos)) := by
  have hps := pvmPageSize_pos
  rw [segment, ← hfirst]
  congr 1
  rcases Nat.lt_or_eq_of_le (Paged.chunk_le pvmPageSize pos (stop - pos)) with hlt | heq
  · have hnext := Paged.chunk_next hps hlt
    have hlast : pg + 1 ≤ (stop - 1) / pvmPageSize := by
      rw [Nat.le_div_iff_mul_le hps, hpg, ← hnext]
      omega
    rw [if_neg (by omega), hnext, ← hpg, Nat.add_mul, Nat.one_mul]
  · have hpage : (pos + (stop - pos - 1)) / pvmPageSize = pos / pvmPageSize :=
      Paged.chunk_page hps (by rw [heq]; omega)
    have hsub : pos + (stop - pos - 1) = stop - 1 := by omega
    rw [if_pos (by rw [hpg, ← hpage, hsub]), heq]
    omega

/-- The chunk of a range fits on its page. -/
lemma chunk_fits (pos n : ℕ) :
    pos % pvmPageSize + Paged.chunk pvmPageSize pos n ≤ pvmPageSize := by
  have hmod := Nat.mod_lt pos pvmPageSize_pos
  have hle : Paged.chunk pvmPageSize pos n ≤ pvmPageSize - pos % pvmPageSize := min_le_left _ _
  omega

lemma page_add_mod (pos : ℕ) : pos / pvmPageSize * pvmPageSize + pos % pvmPageSize = pos := by
  rw [Nat.mul_comm]
  exact Nat.div_add_mod pos pvmPageSize

lemma sub_page (pos : ℕ) : pos - pos / pvmPageSize * pvmPageSize = pos % pvmPageSize := by
  have h := page_add_mod pos
  omega

/-- The result of an access whose lowest page without permission is given. -/
def denied {α : Type*} (pg : Option ℕ) (value : α) : Except AccessError α :=
  match pg with
  | some pg => .error (.memoryError (pg * pvmPageSize : ℕ))
  | none => .ok value

/-- The page that a loop over the rest of a range starts on. -/
lemma rest_page {address pos n : ℕ} (hpos : address ≤ pos)
    (hlt : Paged.chunk pvmPageSize pos n < n) :
    (pos + Paged.chunk pvmPageSize pos n) / pvmPageSize = pos / pvmPageSize + 1 ∧
      pos + Paged.chunk pvmPageSize pos n =
        if pos / pvmPageSize + 1 = address / pvmPageSize then address
        else (pos / pvmPageSize + 1) * pvmPageSize := by
  have hps := pvmPageSize_pos
  have hnext := Paged.chunk_next hps hlt
  have hle : address / pvmPageSize ≤ pos / pvmPageSize := Nat.div_le_div_right hpos
  refine ⟨by rw [hnext, Nat.mul_div_cancel _ hps], ?_⟩
  rw [if_neg (by omega), hnext]

lemma Memory.readPages_eq (m : Memory) (address stop : ℕ) (n : ℕ) :
    ∀ pos, stop = pos + n → 0 < n → address ≤ pos →
      (pos = if pos / pvmPageSize = address / pvmPageSize then address
        else pos / pvmPageSize * pvmPageSize) →
      m.readPages address stop
          (List.range' (pos / pvmPageSize) (Paged.pageCount pvmPageSize pos n)) =
        denied (Paged.firstDenied pvmPageSize (fun pg => pg ∈ m.pagesR) pos n)
          (Paged.read m.byte pos n) := by
  have hps := pvmPageSize_pos
  induction n using Nat.strong_induction_on with
  | _ n ih =>
    intro pos hstop hn hle hfirst
    have hchunk := Paged.chunk_le pvmPageSize pos n
    have hchunk0 : 0 < Paged.chunk pvmPageSize pos n := Paged.chunk_pos hps hn
    have hsub : stop - pos = n := by omega
    have hseg : segment address stop (pos / pvmPageSize) =
        (pos, pos + Paged.chunk pvmPageSize pos n) := by
      rw [← hsub]
      exact segment_step (by omega) rfl hfirst
    have hpart : Paged.read (m.pageContent (pos / pvmPageSize)) (pos - pos / pvmPageSize * pvmPageSize)
        (pos + Paged.chunk pvmPageSize pos n - pos) =
          Paged.read m.byte pos (Paged.chunk pvmPageSize pos n) := by
      rw [sub_page, Nat.add_sub_cancel_left, Memory.read_page m (chunk_fits pos n), page_add_mod]
    rw [Paged.firstDenied_step hps hn]
    rcases Nat.lt_or_eq_of_le hchunk with hlt | heq
    · obtain ⟨hpage, hrest⟩ := rest_page hle hlt
      have hread := ih (n - Paged.chunk pvmPageSize pos n) (by omega)
        (pos + Paged.chunk pvmPageSize pos n) (by omega) (by omega) (by omega)
        (by rw [hpage]; exact hrest)
      rw [hpage] at hread
      rw [Paged.pageCount_of_chunk_lt hps hlt, List.range'_succ, Memory.readPages, hseg]
      by_cases hmem : pos / pvmPageSize ∈ m.pagesR
      · have hsplit : Paged.read m.byte pos n =
            Paged.read m.byte pos (Paged.chunk pvmPageSize pos n) ++
              Paged.read m.byte (pos + Paged.chunk pvmPageSize pos n)
                (n - Paged.chunk pvmPageSize pos n) := by
          rw [← Paged.read_append]
          congr 1
          omega
        simp only [hmem, not_true_eq_false, if_false, decide_true, if_true, hread, hpart, hsplit]
        cases Paged.firstDenied pvmPageSize (fun pg => decide (pg ∈ m.pagesR))
          (pos + Paged.chunk pvmPageSize pos n) (n - Paged.chunk pvmPageSize pos n) <;> rfl
      · simp [hmem, denied]
    · rw [Paged.pageCount_of_chunk_eq hps hn heq, List.range'_one, Memory.readPages, hseg]
      by_cases hmem : pos / pvmPageSize ∈ m.pagesR
      · rw [heq] at hpart
        simp only [hmem, not_true_eq_false, if_false, decide_true, if_true, Memory.readPages, heq,
          hpart, Nat.sub_self, Paged.firstDenied_zero, denied]
        simp [bind, Except.bind]
      · simp [hmem, denied]

/-- `read_bytes` in terms of the space. -/
lemma Memory.readBytes_eq (m : Memory) {address length : ℕ} (h : address < memorySize)
    (hlength : 0 < length) :
    m.readBytes address length =
      denied (Paged.firstDenied pvmPageSize (fun pg => pg ∈ m.pagesR) address length)
        (Paged.read m.byte address length) := by
  have hps := pvmPageSize_pos
  rw [Memory.readBytes, if_neg (by omega), if_neg (by omega)]
  simp only
  split
  · next hpage =>
    have hcount : Paged.pageCount pvmPageSize address length = 1 := by
      rw [Paged.pageCount]
      omega
    have hloop := m.readPages_eq address (address + length) length address rfl hlength le_rfl
      (by rw [if_pos rfl])
    rw [hcount, List.range'_one, Memory.readPages] at hloop
    rw [← hloop, segment, if_pos rfl, if_pos hpage]
    by_cases hmem : address / pvmPageSize ∈ m.pagesR
    · simp [hmem, Memory.readPages, sub_page, bind, Except.bind]
    · simp [hmem]
  · exact m.readPages_eq address (address + length) length address rfl hlength le_rfl
      (by rw [if_pos rfl])

/-- The bytes of a slice that a chunk of the range takes. -/
lemma length_slice_chunk {data : Octets} {cursor c : ℕ} (h : cursor + c ≤ data.length) :
    (Octets.slice data cursor (cursor + c)).length = c := by
  simp only [Octets.slice, List.length_take, List.length_drop]
  omega

lemma slice_append_drop {data : Octets} {cursor c : ℕ} :
    Octets.slice data cursor (cursor + c) ++ data.drop (cursor + c) = data.drop cursor := by
  rw [Octets.slice, Nat.add_sub_cancel_left, ← List.drop_drop, List.take_append_drop]

lemma Memory.writePages_eq (address stop : ℕ) (data : Octets) (n : ℕ) :
    ∀ (m : Memory) (pos cursor : ℕ), stop = pos + n → 0 < n → address ≤ pos →
      data.length = cursor + n →
      (pos = if pos / pvmPageSize = address / pvmPageSize then address
        else pos / pvmPageSize * pvmPageSize) →
      (Memory.writePages address stop data m cursor
          (List.range' (pos / pvmPageSize) (Paged.pageCount pvmPageSize pos n))).toLayout =
        m.toLayout ∧
      (Memory.writePages address stop data m cursor
          (List.range' (pos / pvmPageSize) (Paged.pageCount pvmPageSize pos n))).byte =
        Paged.write m.byte pos (data.drop cursor) := by
  have hps := pvmPageSize_pos
  induction n using Nat.strong_induction_on with
  | _ n ih =>
    intro m pos cursor hstop hn hle hlength hfirst
    have hchunk := Paged.chunk_le pvmPageSize pos n
    have hchunk0 : 0 < Paged.chunk pvmPageSize pos n := Paged.chunk_pos hps hn
    have hsub : stop - pos = n := by omega
    have hseg : segment address stop (pos / pvmPageSize) =
        (pos, pos + Paged.chunk pvmPageSize pos n) := by
      rw [← hsub]
      exact segment_step (by omega) rfl hfirst
    have hslice : (Octets.slice data cursor (cursor + Paged.chunk pvmPageSize pos n)).length =
        Paged.chunk pvmPageSize pos n := length_slice_chunk (by omega)
    have hbyte : (m.writeSlice (pos / pvmPageSize) (pos - pos / pvmPageSize * pvmPageSize)
        (Octets.slice data cursor (cursor + Paged.chunk pvmPageSize pos n))).byte =
          Paged.write m.byte pos
            (Octets.slice data cursor (cursor + Paged.chunk pvmPageSize pos n)) := by
      rw [sub_page, Memory.byte_writeSlice m (by rw [hslice]; exact chunk_fits pos n), page_add_mod]
    rcases Nat.lt_or_eq_of_le hchunk with hlt | heq
    · obtain ⟨hpage, hrest⟩ := rest_page hle hlt
      have hwrite := ih (n - Paged.chunk pvmPageSize pos n) (by omega)
        (m.writeSlice (pos / pvmPageSize) (pos - pos / pvmPageSize * pvmPageSize)
          (Octets.slice data cursor (cursor + Paged.chunk pvmPageSize pos n)))
        (pos + Paged.chunk pvmPageSize pos n) (cursor + Paged.chunk pvmPageSize pos n)
        (by omega) (by omega) (by omega) (by omega) (by rw [hpage]; exact hrest)
      rw [hpage] at hwrite
      rw [Paged.pageCount_of_chunk_lt hps hlt, List.range'_succ, Memory.writePages, hseg]
      simp only [Nat.add_sub_cancel_left]
      refine ⟨hwrite.1, ?_⟩
      rw [hwrite.2, hbyte]
      have happend := Paged.write_append m.byte pos
        (Octets.slice data cursor (cursor + Paged.chunk pvmPageSize pos n))
        (data.drop (cursor + Paged.chunk pvmPageSize pos n))
      rw [hslice, slice_append_drop] at happend
      exact happend
    · rw [Paged.pageCount_of_chunk_eq hps hn heq, List.range'_one, Memory.writePages, hseg]
      simp only [Nat.add_sub_cancel_left, Memory.writePages]
      refine ⟨rfl, ?_⟩
      rw [hbyte, heq, Octets.slice, Nat.add_sub_cancel_left, List.take_of_length_le (by simp; omega)]

/-- `write_bytes` in terms of the space: a refusal, or a memory with the same layout and the bytes
written. -/
lemma Memory.writeBytes_eq (m : Memory) {address : ℕ} {content : Octets} (h : address < memorySize)
    (hcontent : content ≠ []) :
    ∃ m' : Memory, m'.toLayout = m.toLayout ∧ m'.byte = Paged.write m.byte address content ∧
      m.writeBytes address content =
        denied (Paged.firstDenied pvmPageSize (fun pg => pg ∈ m.pagesW) address content.length) m' := by
  have hps := pvmPageSize_pos
  have hlength : 0 < content.length := List.length_pos_iff.mpr hcontent
  have hfind : (List.range' (address / pvmPageSize)
      (Paged.pageCount pvmPageSize address content.length)).find? (fun pg => !(pg ∈ m.pagesW)) =
        Paged.firstDenied pvmPageSize (fun pg => pg ∈ m.pagesW) address content.length :=
    Paged.find?_pages hps content.length address hlength
  have hwrite := Memory.writePages_eq address (address + content.length) content content.length m
    address 0 rfl hlength le_rfl (by omega) (by rw [if_pos rfl])
  rw [List.drop_zero] at hwrite
  rw [Memory.writeBytes, if_neg hcontent, if_neg (by omega)]
  simp only
  split
  · next hpage =>
    have hcount : Paged.pageCount pvmPageSize address content.length = 1 := by
      rw [Paged.pageCount]
      omega
    have hchunk : address % pvmPageSize + content.length ≤ pvmPageSize := by
      have hdiv := Nat.div_add_mod address pvmPageSize
      have hdiv' := Nat.div_add_mod (address + content.length - 1) pvmPageSize
      have hmod := Nat.mod_lt (address + content.length - 1) hps
      rw [← hpage] at hdiv'
      omega
    refine ⟨m.writeSlice (address / pvmPageSize) (address % pvmPageSize) content, rfl, ?_, ?_⟩
    · rw [Memory.byte_writeSlice m hchunk, page_add_mod]
    · rw [hcount, List.range'_one] at hfind
      rw [← hfind]
      by_cases hmem : address / pvmPageSize ∈ m.pagesW
      · simp [hmem, denied]
      · simp [hmem, denied]
  · refine ⟨_, hwrite.1, hwrite.2, ?_⟩
    have hpages : (address + content.length - 1) / pvmPageSize + 1 - address / pvmPageSize =
        Paged.pageCount pvmPageSize address content.length := rfl
    rw [hpages, hfind]
    cases Paged.firstDenied pvmPageSize (fun pg => decide (pg ∈ m.pagesW)) address content.length <;>
      rfl

end Graypaper

/-! ## The CPython interpreter -/

namespace CPython

/-- The scan finds the lowest page that is not allowed. -/
lemma scan_eq (allowed : ℕ → Bool) (stop : ℕ) (fuel : ℕ) : ∀ pos, pos ≤ stop → stop ≤ pos + fuel →
    scan allowed stop fuel pos = Paged.firstDenied pvmPageSize allowed pos (stop - pos) := by
  have hps := pvmPageSize_pos
  induction fuel with
  | zero =>
    intro pos hle hfuel
    have hzero : stop - pos = 0 := by omega
    rw [hzero, Paged.firstDenied_zero, scan]
  | succ fuel ih =>
    intro pos hle hfuel
    rw [scan]
    split
    · next hlt =>
      have hpos : 0 < Paged.chunk pvmPageSize pos (stop - pos) :=
        Paged.chunk_pos hps (by omega)
      have hchunk := Paged.chunk_le pvmPageSize pos (stop - pos)
      have hrest := ih (pos + Paged.chunk pvmPageSize pos (stop - pos)) (by omega) (by omega)
      have hsub : stop - (pos + Paged.chunk pvmPageSize pos (stop - pos)) =
          stop - pos - Paged.chunk pvmPageSize pos (stop - pos) := by omega
      rw [hsub] at hrest
      rw [Paged.firstDenied_step hps (by omega), ← hrest]
      cases hallowed : allowed (pos / pvmPageSize) with
      | true => simp [hallowed, Paged.chunk]
      | false => simp [hallowed]
    · have hzero : stop - pos = 0 := by omega
      rw [hzero, Paged.firstDenied_zero]

/-- Both paths of an access check for the lowest page that is not allowed. -/
lemma firstDenied_of_samePage {allowed : ℕ → Bool} {address length : ℕ} (hlength : 0 < length)
    (h : address / pvmPageSize = (address + length - 1) / pvmPageSize) :
    Paged.firstDenied pvmPageSize allowed address length =
      if allowed (address / pvmPageSize) then none else some (address / pvmPageSize) := by
  have hcount : Paged.pageCount pvmPageSize address length = 1 := by
    rw [Paged.pageCount]
    omega
  rw [← Paged.find?_pages pvmPageSize_pos length address hlength, hcount, List.range'_one]
  cases hallowed : allowed (address / pvmPageSize) <;> simp [hallowed]

lemma Memory.readBytes_eq (m : Memory) {address length : ℕ} (h : address < memorySize)
    (hlength : 0 < length) :
    m.readBytes address length =
      Graypaper.denied (Paged.firstDenied pvmPageSize (inPages m.pagesR) address length)
        (Paged.read m.mm address length) := by
  rw [Memory.readBytes, if_neg (by omega), if_neg (by omega)]
  simp only
  split
  · next hpage =>
    rw [firstDenied_of_samePage hlength hpage]
    cases inPages m.pagesR (address / pvmPageSize) <;> rfl
  · rw [scan_eq _ _ _ _ (by omega) le_rfl, Nat.add_sub_cancel_left]
    cases Paged.firstDenied pvmPageSize (inPages m.pagesR) address length <;> rfl

lemma Memory.writeBytes_eq (m : Memory) {address : ℕ} {content : Octets} (h : address < memorySize)
    (hcontent : content ≠ []) :
    m.writeBytes address content =
      Graypaper.denied (Paged.firstDenied pvmPageSize (inPages m.pagesW) address content.length)
        { m with mm := Paged.write m.mm address content } := by
  have hlength : 0 < content.length := List.length_pos_iff.mpr hcontent
  rw [Memory.writeBytes, if_neg hcontent, if_neg (by omega)]
  simp only
  split
  · next hpage =>
    rw [firstDenied_of_samePage hlength hpage]
    cases inPages m.pagesW (address / pvmPageSize) <;> rfl
  · rw [scan_eq _ _ _ _ (by omega) le_rfl, Nat.add_sub_cancel_left]
    cases Paged.firstDenied pvmPageSize (inPages m.pagesW) address content.length <;> rfl

end CPython

/-! ## Numba's sections -/

/-- What every change of a layout keeps: a writable page is readable, and all pages lie in the
space, as does the stack. -/
structure Layout.WellFormed (L : Layout) : Prop where
  subset : L.pagesW ⊆ L.pagesR
  bound : ∀ pg ∈ L.pagesR, pg < memorySize / pvmPageSize
  stack_lt : ∀ base ∈ L.stackBase, base < memorySize

namespace Numba

/-- A section is a run of readable pages with the permission that it says. -/
def Section.Run (L : Layout) (s : Section) : Prop :=
  ∃ lo hi, s.start = lo * pvmPageSize ∧ s.stop = (hi + 1) * pvmPageSize ∧
    ∀ pg, lo ≤ pg → pg ≤ hi → pg ∈ L.pagesR ∧ s.access = (pageAcl L.pagesW pg).value

/-- The page of an address in a run is one of its pages. -/
lemma Section.Run.access_eq {L : Layout} {s : Section} (h : s.Run L) {x : ℕ} (hstart : s.start ≤ x)
    (hstop : x < s.stop) :
    x / pvmPageSize ∈ L.pagesR ∧ s.access = (pageAcl L.pagesW (x / pvmPageSize)).value := by
  obtain ⟨lo, hi, hlo, hhi, hpages⟩ := h
  apply hpages
  · rw [Nat.le_div_iff_mul_le pvmPageSize_pos, ← hlo]
    exact hstart
  · rw [← Nat.lt_succ_iff, Nat.div_lt_iff_lt_mul pvmPageSize_pos, Nat.succ_eq_add_one, ← hhi]
    exact hstop

/-- An extended run takes pages off the front, up to its end, all with its permission. -/
lemma extendRun_spec (pagesW : Finset ℕ) (sections : List Section) (acl : Acl) (pages : List ℕ) :
    ∀ runEnd, ∃ run, pages = run ++ (extendRun pagesW sections acl runEnd pages).2 ∧
      runEnd ≤ (extendRun pagesW sections acl runEnd pages).1 ∧
      (∀ pg, pg ∈ run ↔ runEnd < pg ∧ pg ≤ (extendRun pagesW sections acl runEnd pages).1) ∧
      ∀ pg ∈ run, pageAcl pagesW pg = acl := by
  have hstop : ∀ (runEnd : ℕ) (rest : List ℕ), ∃ run, rest = run ++ rest ∧ runEnd ≤ runEnd ∧
      (∀ pg, pg ∈ run ↔ runEnd < pg ∧ pg ≤ runEnd) ∧ ∀ pg ∈ run, pageAcl pagesW pg = acl := by
    intro runEnd rest
    refine ⟨[], rfl, le_rfl, ?_, by simp⟩
    intro pg
    simp
  induction pages with
  | nil =>
    intro runEnd
    exact hstop runEnd []
  | cons nxt rest ih =>
    intro runEnd
    rw [extendRun]
    split_ifs with hnext hcovered hacl
    · exact hstop runEnd _
    · exact hstop runEnd _
    · exact hstop runEnd _
    · push Not at hnext hacl
      obtain ⟨run, hsplit, hle, hmem, hall⟩ := ih nxt
      refine ⟨nxt :: run, by rw [List.cons_append, ← hsplit], by omega, ?_, ?_⟩
      · intro pg
        rw [List.mem_cons, hmem]
        omega
      · intro pg hpg
        rcases List.mem_cons.mp hpg with rfl | hpg
        · exact hacl
        · exact hall pg hpg

/-- A section behind all pages so far covers none of the pages to come. -/
lemma addrIsCovered_eq_false {sections : List Section} {page : ℕ}
    (h : ∀ s ∈ sections, s.stop ≤ page * pvmPageSize) :
    addrIsCovered sections (page * pvmPageSize) = false := by
  rw [addrIsCovered, List.any_eq_false]
  intro s hs
  have hle := h s hs
  simp only [Bool.and_eq_true, decide_eq_true_eq]
  omega

/-- A section made at the first of the pages is a run of them. -/
lemma run_extendRun {L : Layout} {sections : List Section} {page : ℕ} {rest : List ℕ}
    {out : ℕ × List ℕ} (hout : extendRun L.pagesW sections (pageAcl L.pagesW page) page rest = out)
    (hreadable : ∀ pg ∈ page :: rest, pg ∈ L.pagesR) :
    Section.Run L ⟨page * pvmPageSize, (out.1 + 1) * pvmPageSize,
      (pageAcl L.pagesW page).value⟩ := by
  obtain ⟨run, hsplit, -, hmem, hacl⟩ :=
    extendRun_spec L.pagesW sections (pageAcl L.pagesW page) rest page
  rw [hout] at hsplit hmem
  refine ⟨page, out.1, rfl, rfl, ?_⟩
  intro pg hlo hhi
  rcases Nat.lt_or_eq_of_le hlo with hlt | heq
  · have hpg := (hmem pg).mpr ⟨hlt, hhi⟩
    refine ⟨hreadable pg (List.mem_cons_of_mem _ ?_), by rw [hacl pg hpg]⟩
    rw [hsplit]
    exact List.mem_append_left _ hpg
  · subst heq
    exact ⟨hreadable page List.mem_cons_self, rfl⟩

/-- The pages that a run leaves come in order after its end, and are all but its own. -/
lemma rest_extendRun {pagesW : Finset ℕ} {sections : List Section} {acl : Acl} {page : ℕ}
    {rest : List ℕ} {out : ℕ × List ℕ} (hout : extendRun pagesW sections acl page rest = out)
    (hsorted : (page :: rest).Pairwise (· < ·)) :
    page ≤ out.1 ∧ out.2.length ≤ rest.length ∧ out.2.Pairwise (· < ·) ∧ out.2 ⊆ rest ∧
      (∀ pg ∈ out.2, out.1 < pg) ∧ ∀ pg ∈ rest, (page ≤ pg ∧ pg ≤ out.1) ∨ pg ∈ out.2 := by
  obtain ⟨run, hsplit, hle, hmem, -⟩ := extendRun_spec pagesW sections acl rest page
  rw [hout] at hsplit hle hmem
  obtain ⟨runEnd, rest'⟩ := out
  simp only at hsplit hle hmem
  subst hsplit
  rw [List.pairwise_cons, List.pairwise_append] at hsorted
  obtain ⟨hfirst, -, hsorted', hrun⟩ := hsorted
  refine ⟨hle, ?_, hsorted', List.subset_append_right _ _, ?_, ?_⟩
  · rw [List.length_append]
    exact Nat.le_add_left _ _
  · intro pg hpg
    rcases Nat.lt_or_eq_of_le hle with hlt | heq
    · exact hrun runEnd ((hmem runEnd).mpr ⟨hlt, le_rfl⟩) pg hpg
    · rw [← heq]
      exact hfirst pg (List.mem_append_right _ hpg)
  · intro pg hpg
    rcases List.mem_append.mp hpg with hpg | hpg
    · obtain ⟨hlt, hhi⟩ := (hmem pg).mp hpg
      exact .inl ⟨hlt.le, hhi⟩
    · exact .inr hpg

/-- Linking makes runs of the readable pages and leaves none of them out. -/
lemma linkRuns_spec (L : Layout) (fuel : ℕ) :
    ∀ (sections : List Section) (pages : List ℕ), pages.length ≤ fuel → pages.Pairwise (· < ·) →
      (∀ pg ∈ pages, pg ∈ L.pagesR) → (∀ s ∈ sections, s.Run L) →
      (∀ s ∈ sections, ∀ pg ∈ pages, s.stop ≤ pg * pvmPageSize) →
      (∀ s ∈ linkRuns L.pagesW fuel sections pages, s.Run L) ∧
      sections ⊆ linkRuns L.pagesW fuel sections pages ∧
      ∀ pg ∈ pages, ∃ s ∈ linkRuns L.pagesW fuel sections pages,
        s.start ≤ pg * pvmPageSize ∧ (pg + 1) * pvmPageSize ≤ s.stop := by
  induction fuel with
  | zero =>
    intro sections pages hlength _ _ hruns _
    obtain rfl : pages = [] := List.length_eq_zero_iff.mp (by omega)
    exact ⟨hruns, List.Subset.refl _, by simp⟩
  | succ fuel ih =>
    intro sections pages hlength hsorted hreadable hruns hbehind
    cases pages with
    | nil => exact ⟨hruns, List.Subset.refl _, by simp⟩
    | cons page rest =>
      have hcovered := addrIsCovered_eq_false (fun s hs => hbehind s hs page List.mem_cons_self)
      rw [linkRuns, hcovered]
      simp only [Bool.false_eq_true, if_false]
      generalize hout : extendRun L.pagesW sections (pageAcl L.pagesW page) page rest = out
      have hnew := run_extendRun hout hreadable
      obtain ⟨hle, hlength', hsorted', hsubset, hafter, hcases⟩ := rest_extendRun hout hsorted
      obtain ⟨runEnd, rest'⟩ := out
      simp only at hnew hle hlength' hsorted' hsubset hafter hcases ⊢
      have hsize : page * pvmPageSize + (runEnd - page + 1) * pvmPageSize =
          (runEnd + 1) * pvmPageSize := by
        rw [← Nat.add_mul]
        congr 1
        omega
      rw [hsize]
      set made : Section := ⟨page * pvmPageSize, (runEnd + 1) * pvmPageSize,
        (pageAcl L.pagesW page).value⟩ with hmade
      obtain ⟨hruns', hsub, hcover⟩ := ih (sections ++ [made]) rest'
        (hlength'.trans (Nat.le_of_succ_le_succ hlength)) hsorted'
        (fun pg hpg => hreadable pg (List.mem_cons_of_mem _ (hsubset hpg)))
        (by
          intro s hs
          rcases List.mem_append.mp hs with hs | hs
          · exact hruns s hs
          · obtain rfl := List.mem_singleton.mp hs
            exact hnew)
        (by
          intro s hs pg hpg
          rcases List.mem_append.mp hs with hs | hs
          · exact hbehind s hs pg (List.mem_cons_of_mem _ (hsubset hpg))
          · obtain rfl := List.mem_singleton.mp hs
            exact Nat.mul_le_mul_right _ (hafter pg hpg))
      have hin : ∀ pg, page ≤ pg → pg ≤ runEnd →
          ∃ s ∈ linkRuns L.pagesW fuel (sections ++ [made]) rest',
            s.start ≤ pg * pvmPageSize ∧ (pg + 1) * pvmPageSize ≤ s.stop := by
        intro pg hlo hhi
        exact ⟨made, hsub (List.mem_append_right _ (List.mem_singleton.mpr rfl)),
          Nat.mul_le_mul_right _ hlo, Nat.mul_le_mul_right _ (by omega)⟩
      refine ⟨hruns', List.Subset.trans (List.subset_append_left _ _) hsub, ?_⟩
      intro pg hpg
      rcases List.mem_cons.mp hpg with rfl | hpg
      · exact hin pg le_rfl hle
      · rcases hcases pg hpg with ⟨hlo, hhi⟩ | hpg
        · exact hin pg hlo hhi
        · exact hcover pg hpg

lemma linkMemory_spec (L : Layout) :
    (∀ s ∈ linkMemory L, s.Run L) ∧
      ∀ pg ∈ L.pagesR, ∃ s ∈ linkMemory L,
        s.start ≤ pg * pvmPageSize ∧ (pg + 1) * pvmPageSize ≤ s.stop := by
  have hspec := linkRuns_spec L (L.pagesR.sort (fun a b => a ≤ b)).length []
    (L.pagesR.sort (fun a b => a ≤ b)) le_rfl (Finset.sortedLT_sort _).pairwise
    (fun pg hpg => (Finset.mem_sort _).mp hpg) (by simp) (by simp)
  exact ⟨hspec.1, fun pg hpg => hspec.2.2 pg ((Finset.mem_sort _).mpr hpg)⟩

/-- The section of an address tells the permission of its page. -/
lemma findSection_linkMemory (L : Layout) (x : ℕ) :
    match findSection (linkMemory L) x with
    | none => x / pvmPageSize ∉ L.pagesR
    | some s => x / pvmPageSize ∈ L.pagesR ∧ s.access = (pageAcl L.pagesW (x / pvmPageSize)).value := by
  obtain ⟨hruns, hcover⟩ := linkMemory_spec L
  cases hfind : findSection (linkMemory L) x with
  | none =>
    intro hreadable
    obtain ⟨s, hs, hstart, hstop⟩ := hcover _ hreadable
    have hnone := List.find?_eq_none.mp hfind s hs
    have hdiv := Nat.div_add_mod x pvmPageSize
    have hmod := Nat.mod_lt x pvmPageSize_pos
    rw [Nat.mul_comm] at hstart
    rw [Nat.add_mul, Nat.mul_comm] at hstop
    simp only [Bool.and_eq_true, decide_eq_true_eq] at hnone
    omega
  | some s =>
    have hs := List.mem_of_find?_eq_some hfind
    have hbounds := List.find?_some hfind
    simp only [Bool.and_eq_true, decide_eq_true_eq] at hbounds
    exact (hruns s hs).access_eq hbounds.1 hbounds.2

/-- The pages that an access of a kind may touch. -/
def permitted (L : Layout) : Acl → ℕ → Bool
  | .writable, pg => pg ∈ L.pagesW
  | _, pg => pg ∈ L.pagesR

lemma value_pageAcl (pagesW : Finset ℕ) (pg : ℕ) :
    (pageAcl pagesW pg).value = if pg ∈ pagesW then 2 else 1 := by
  rw [pageAcl]
  split <;> rfl

/-- The comparison with the permission of a readable page. -/
lemma access_lt_iff {L : Layout} {required : Acl}
    (hrequired : required = .readable ∨ required = .writable) {pg : ℕ} (hpg : pg ∈ L.pagesR) :
    (pageAcl L.pagesW pg).value < required.value ↔ permitted L required pg = false := by
  rw [value_pageAcl]
  rcases hrequired with rfl | rfl
  · simp only [permitted, hpg, Acl.value, decide_true, Bool.true_eq_false, iff_false]
    split <;> omega
  · simp only [permitted, Acl.value, decide_eq_false_iff_not]
    split
    · next hw => simp [hw]
    · next hw => simp [hw]

/-- Looking up the bytes of a range one by one finds the lowest page that is not permitted. -/
lemma locate_linkMemory {L : Layout} (hL : L.WellFormed) {required : Acl}
    (hrequired : required = .readable ∨ required = .writable) (addr n : ℕ) :
    (locate (linkMemory L) required addr n).map (fun x => x / pvmPageSize) =
      Paged.firstDenied pvmPageSize (permitted L required) addr n := by
  have hpred : refuses (linkMemory L) required =
      fun x => !permitted L required (x / pvmPageSize) := by
    funext x
    have hsection := findSection_linkMemory L x
    rw [refuses]
    cases hfind : findSection (linkMemory L) x with
    | none =>
      rw [hfind] at hsection
      have hdenied : permitted L required (x / pvmPageSize) = false := by
        rcases hrequired with rfl | rfl
        · simpa [permitted] using hsection
        · simpa [permitted] using fun hw => hsection (hL.subset hw)
      simp [hdenied]
    | some s =>
      rw [hfind] at hsection
      obtain ⟨hpg, haccess⟩ := hsection
      have hiff := access_lt_iff hrequired hpg
      simp only
      rw [haccess]
      cases hpermitted : permitted L required (x / pvmPageSize) with
      | true =>
        rw [hpermitted] at hiff
        simpa using hiff
      | false =>
        rw [hpermitted] at hiff
        simpa using hiff
  rw [locate, hpred, Paged.firstDenied, List.find?_map, List.find?_map, Option.map_map]
  rfl

/-- A section with the whole range decides for all its pages at once. -/
lemma findWhole_linkMemory {L : Layout} {required : Acl}
    (hrequired : required = .readable ∨ required = .writable) {addr n : ℕ} (hn : 0 < n) {s : Section}
    (h : findWhole (linkMemory L) addr n = some s) :
    Paged.firstDenied pvmPageSize (permitted L required) addr n =
      if s.access < required.value then some (addr / pvmPageSize) else none := by
  have hs := List.mem_of_find?_eq_some h
  have hbounds := List.find?_some h
  simp only [Bool.and_eq_true, decide_eq_true_eq] at hbounds
  have hrun := (linkMemory_spec L).1 s hs
  have hbyte : ∀ i < n, (s.access < required.value ↔
      permitted L required ((addr + i) / pvmPageSize) = false) := by
    intro i hi
    obtain ⟨hpg, haccess⟩ := hrun.access_eq (x := addr + i) (by omega) (by omega)
    rw [haccess]
    exact access_lt_iff hrequired hpg
  split
  · next hlt =>
    have hdenied := (hbyte 0 hn).mp hlt
    rw [Nat.add_zero] at hdenied
    rw [Paged.firstDenied_step pvmPageSize_pos hn, hdenied]
    rfl
  · next hge =>
    rw [Paged.firstDenied_eq_none]
    intro i hi
    rw [← Bool.not_eq_false, ← hbyte i hi]
    exact hge

/-! ## Numba's bytes -/

/-- Putting bytes together with `|` gives the little-endian number. -/
lemma collect_eq (mm : ℕ → UInt8) (addr n : ℕ) :
    collect mm addr n = Octets.ofLittleEndian (Paged.read mm addr n) := by
  induction n with
  | zero => rfl
  | succ n ih =>
    have hread : Paged.read mm addr (n + 1) = Paged.read mm addr n ++ [mm (addr + n)] :=
      Paged.read_append mm addr n 1
    have hlt := Octets.ofLittleEndian_lt (Paged.read mm addr n)
    have hpow : (256 : ℕ) ^ n = 2 ^ (8 * n) := by rw [Nat.pow_mul]
    rw [Paged.length_read, hpow] at hlt
    rw [hread, Octets.ofLittleEndian_append, Paged.length_read, hpow, ← ih] at *
    rw [collect, List.range_succ, List.foldl_append, List.foldl_cons, List.foldl_nil]
    change collect mm addr n ||| _ = _
    rw [Nat.or_comm, ← Nat.shiftLeft_add_eq_or_of_lt hlt, Nat.shiftLeft_eq, Nat.add_comm]

/-- The unrolled reads do the same. -/
lemma readUintJit_eq (mm : ℕ → UInt8) (addr : ℕ) {n : ℕ} (hn : n ∈ [1, 2, 4, 8]) :
    readUintJit mm addr n = Octets.ofLittleEndian (Paged.read mm addr n) := by
  rw [← collect_eq]
  simp only [List.mem_cons, List.not_mem_nil, or_false] at hn
  rcases hn with rfl | rfl | rfl | rfl <;> simp [readUintJit, collect, List.range_succ]

/-- Storing byte by byte writes the little-endian bytes. -/
lemma spread_eq (mm : ℕ → UInt8) (addr value n : ℕ) :
    spread mm addr value n = Paged.write mm addr (Octets.littleEndian n value) := by
  induction n with
  | zero => simp [spread, Octets.littleEndian]
  | succ n ih =>
    have hpow : (256 : ℕ) ^ n = 2 ^ (8 * n) := by rw [Nat.pow_mul]
    have happend := Paged.write_append mm addr (Octets.littleEndian n value)
      [UInt8.ofNat (value / 256 ^ n)]
    rw [Octets.length_littleEndian, ← Octets.littleEndian_succ] at happend
    rw [← happend, ← ih, spread, List.range_succ, List.foldl_append, List.foldl_cons,
      List.foldl_nil]
    change Function.update (spread mm addr value n) _ _ = _
    funext x
    rw [Nat.shiftRight_eq_div_pow, ← hpow]
    by_cases hx : x = addr + n
    · subst hx
      have hcell : Paged.write (spread mm addr value n) (addr + n)
          [UInt8.ofNat (value / 256 ^ n)] (addr + n + 0) = UInt8.ofNat (value / 256 ^ n) :=
        Paged.write_of_mem _ (by simp)
      rw [Function.update_self]
      exact hcell.symm
    · rw [Function.update_of_ne hx]
      rcases Nat.lt_or_gt_of_ne hx with hlt | hgt
      · rw [Paged.write_of_lt _ _ hlt]
      · rw [Paged.write_of_le _ (by simp; omega)]

end Numba

end Pvm
