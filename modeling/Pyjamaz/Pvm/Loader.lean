import Pyjamaz.Pvm.MemoryStates
import Pyjamaz.Pvm.Program

/-!
# Loading a program

`from_serialized_bytes` reads the sizes and the contents of the sections from a blob, checks that they
fit into the address space, and lays them out.  The four sections get page ranges of their own: ROM at
the bottom, the heap a zone above it, and from the top down the arguments and the stack.

The check is one inequality between sizes rounded to zones, while the sections are placed by sizes
rounded to pages.  `ProgramData.pages_apart` says what it gives: between the pages of the heap and the
stack there is at least a zone.  `initMemory_permissions` then reads the permissions of a loaded memory
off its page ranges.

`JamBytes` comes from another package; a read gives at most the bytes that were asked for, and nothing
else is assumed of it.
-/

namespace Pvm

/-! ## The loader -/

/-- `JamBytes`: a stream of bytes.  `getNextBytes` fails where the method raises. -/
structure ByteStream where
  Stream : Type
  jamBytes : Octets → Stream
  getNextBytes : Stream → (length : ℕ) → Option ({bytes : Octets // bytes.length ≤ length} × Stream)
  getRemainingLength : Stream → ℤ

/-- `PVMProgram`, as `from_serialized_bytes` makes it. -/
structure PVMProgram where
  code : PVMCode
  data : ProgramData

lemma ofLittleEndian_lt_pow {bytes : Octets} {n : ℕ} (h : bytes.length ≤ n) :
    Octets.ofLittleEndian bytes < 256 ^ n := by
  exact (Octets.ofLittleEndian_lt bytes).trans_le (Nat.pow_le_pow_right (by norm_num) h)

/-- `int.from_bytes(jam_bytes.get_next_bytes(length), byteorder='little')` -/
def ByteStream.getNumber (J : ByteStream) (stream : J.Stream) (length : ℕ) :
    Option ({n : ℕ // n < 256 ^ length} × J.Stream) :=
  (J.getNextBytes stream length).map
    (fun (bytes, stream) => (⟨Octets.ofLittleEndian bytes.1, ofLittleEndian_lt_pow bytes.2⟩, stream))

lemma zoneSize_mono {n m : ℕ} (h : n ≤ m) : zoneSize n ≤ zoneSize m :=
  Nat.mul_le_mul_left _ (Nat.div_le_div_right (by omega))

/-- `PVMProgram.from_serialized_bytes`; `deblob` is `PVMCode.from_bytes_cached`. -/
def fromSerializedBytes (J : ByteStream) (deblob : Octets → Option PVMCode)
    (serializedProgram argumentContents : Octets) : Option PVMProgram :=
  if harguments : pvmInputDataSize < argumentContents.length then none
  else do
    let stream := J.jamBytes serializedProgram
    let (pvmRomSize, stream) ← J.getNumber stream 3
    let (pvmHeapSize, stream) ← J.getNumber stream 3
    let (heapMemPages, stream) ← J.getNumber stream 2
    let (stackMemSize, stream) ← J.getNumber stream 3
    let (pvmRomContents, stream) ← J.getNextBytes stream pvmRomSize
    let (pvmHeapContents, stream) ← J.getNextBytes stream pvmHeapSize
    let (pvmCodeSize, stream) ← J.getNumber stream 4
    let (pvmCode, stream) ← J.getNextBytes stream pvmCodeSize
    if J.getRemainingLength stream ≠ 0 then none
    else if hfits : 5 * pvmInitZoneSize + zoneSize pvmRomSize +
        zoneSize (pvmHeapSize + heapMemPages * pvmPageSize) + zoneSize stackMemSize +
        pvmInputDataSize ≤ 2 ^ 32 then do
      let code ← deblob pvmCode
      some {
        code := code
        data := {
          romContents := pvmRomContents
          heapContents := pvmHeapContents
          argumentContents := argumentContents
          heapMemPages := heapMemPages
          stackMemSize := stackMemSize
          rom_lt := pvmRomContents.2.trans_lt pvmRomSize.2
          heap_lt := pvmHeapContents.2.trans_lt pvmHeapSize.2
          pages_lt := heapMemPages.2
          stack_lt := stackMemSize.2
          arguments_le := not_lt.mp harguments
          fits := by
            have hrom := zoneSize_mono pvmRomContents.2
            have hheap := zoneSize_mono
              (Nat.add_le_add_right pvmHeapContents.2 (heapMemPages * pvmPageSize))
            omega } }
    else none

/-! ## Page ranges -/

namespace ProgramData

variable (d : ProgramData)

def romPages : Finset ℕ :=
  Finset.Ico (romStart / pvmPageSize) ((romStart + d.romSize) / pvmPageSize)

/-- The first page of the heap. -/
def heapFirst : ℕ := d.heapStart / pvmPageSize

/-- The end of the heap of a new memory, as a page. -/
def heapEnd : ℕ := (d.heapStart + d.heapMemSize) / pvmPageSize

/-- The heap when it ends before a page. -/
def heapPages (stop : ℕ) : Finset ℕ := Finset.Ico d.heapFirst stop

def stackPages : Finset ℕ :=
  Finset.Ico (d.stackStart / pvmPageSize) ((d.stackStart + d.stackSize) / pvmPageSize)

def argsPages : Finset ℕ :=
  Finset.Ico (argsStart / pvmPageSize) ((argsStart + d.argsSize) / pvmPageSize)

/-- The last page at which the heap may end: a zone below the zones of the stack. -/
def guardPage : ℕ := (d.stackStart / pvmInitZoneSize * pvmInitZoneSize - pvmInitZoneSize) / pvmPageSize

/-- The same below the pages of the stack. -/
def printedGuardPage : ℕ := (d.stackStart - pvmInitZoneSize) / pvmPageSize

/-- The order of the page ranges, and the zone between the heap and the stack. -/
lemma pages_apart : (romStart + d.romSize) / pvmPageSize ≤ d.heapFirst ∧
    d.heapFirst ≤ d.heapEnd ∧ d.heapEnd ≤ d.guardPage ∧ d.guardPage ≤ d.printedGuardPage ∧
    d.printedGuardPage + 16 = d.stackStart / pvmPageSize ∧
    d.stackStart / pvmPageSize ≤ (d.stackStart + d.stackSize) / pvmPageSize ∧
    (d.stackStart + d.stackSize) / pvmPageSize ≤ argsStart / pvmPageSize ∧
    (argsStart + d.argsSize) / pvmPageSize ≤ 2 ^ 20 := by
  have hfits := d.fits
  have hargs := d.arguments_le
  have hpage : pvmPageSize = 4096 := rfl
  have hzone : pvmInitZoneSize = 65536 := rfl
  have hinput : pvmInputDataSize = 16777216 := rfl
  simp only [romStart, romSize, heapFirst, heapEnd, heapStart, heapMemSize_eq, guardPage,
    printedGuardPage, stackStart, stackSize, argsStart, argsSize, pageSize, zoneSize, hpage, hzone,
    hinput] at hfits hargs ⊢
  omega

/-- A segment that starts on a page takes the pages up to its end. -/
lemma pageIndex_add {address size : ℕ} (h : address / pvmPageSize * pvmPageSize = address) :
    address / pvmPageSize + pageSize size / pvmPageSize = (address + pageSize size) / pvmPageSize := by
  have hpage : pvmPageSize = 4096 := rfl
  rw [hpage] at h ⊢
  omega

end ProgramData

/-! ## Permissions of a loaded memory -/

namespace Layout

variable (L : Layout) (pageIdx nrPages x : ℕ)

@[simp] lemma heapBase_setAcl (pg : ℕ) (acl : Acl) : (L.setAcl pg acl).heapBase = L.heapBase := by
  rw [setAcl]
  split_ifs <;> rfl

@[simp] lemma stackBase_setAcl (pg : ℕ) (acl : Acl) :
    (L.setAcl pg acl).stackBase = L.stackBase := by
  rw [setAcl]
  split_ifs <;> rfl

/-- Changing permissions moves no section. -/
lemma bases_changeAcl (acl : Acl) : (L.changeAcl pageIdx nrPages acl).heapBase = L.heapBase ∧
    (L.changeAcl pageIdx nrPages acl).stackBase = L.stackBase := by
  rw [changeAcl]
  generalize List.range' pageIdx nrPages = pages
  induction pages generalizing L with
  | nil => exact ⟨rfl, rfl⟩
  | cons pg rest ih =>
    rw [List.foldl_cons, ← L.heapBase_setAcl pg acl, ← L.stackBase_setAcl pg acl]
    exact ih _

/-- The pages of a range become writable, and stay readable. -/
lemma changeAcl_writable :
    (x ∈ (L.changeAcl pageIdx nrPages .writable).pagesW ↔
      x ∈ L.pagesW ∨ pageIdx ≤ x ∧ x < pageIdx + nrPages) ∧
    (x ∈ (L.changeAcl pageIdx nrPages .writable).pagesR ↔
      x ∈ L.pagesR ∨ pageIdx ≤ x ∧ x < pageIdx + nrPages) := by
  rw [changeAcl, ← List.mem_range'_1]
  generalize List.range' pageIdx nrPages = pages
  induction pages generalizing L with
  | nil => simp
  | cons pg rest ih =>
    rw [List.foldl_cons, (ih _).1, (ih _).2]
    simp only [setAcl, reduceCtorEq, if_false, true_or, if_true, Finset.mem_insert, List.mem_cons]
    tauto

/-- The pages of a range become readable only. -/
lemma changeAcl_readable :
    (x ∈ (L.changeAcl pageIdx nrPages .readable).pagesW ↔
      x ∈ L.pagesW ∧ ¬ (pageIdx ≤ x ∧ x < pageIdx + nrPages)) ∧
    (x ∈ (L.changeAcl pageIdx nrPages .readable).pagesR ↔
      x ∈ L.pagesR ∨ pageIdx ≤ x ∧ x < pageIdx + nrPages) := by
  rw [changeAcl, ← List.mem_range'_1]
  generalize List.range' pageIdx nrPages = pages
  induction pages generalizing L with
  | nil => simp
  | cons pg rest ih =>
    rw [List.foldl_cons, (ih _).1, (ih _).2]
    simp only [setAcl, reduceCtorEq, if_false, or_self, Finset.mem_insert, Finset.mem_erase,
      List.mem_cons, not_or]
    tauto

end Layout

/-- The pages of a loaded program whose heap ends before a page. -/
structure Layout.Mapped (d : ProgramData) (stop : ℕ) (L : Layout) : Prop where
  heapBase : L.heapBase = some d.heapStart
  stackBase : L.stackBase = some d.stackStart
  pagesW : L.pagesW = d.heapPages stop ∪ d.stackPages
  pagesR : L.pagesR = d.romPages ∪ d.heapPages stop ∪ d.stackPages ∪ d.argsPages

/-- The layout of a loaded memory, section by section. -/
lemma initMemory_toLayout (d : ProgramData) : (Graypaper.initMemory d).toLayout =
    ((((Layout.empty.changeAcl (ProgramData.romStart / pvmPageSize)
      (pageSize d.romSize / pvmPageSize) .readable).changeAcl d.heapFirst
      (pageSize d.heapMemSize / pvmPageSize) .writable).changeAcl (d.stackStart / pvmPageSize)
      (pageSize d.stackSize / pvmPageSize) .writable).changeAcl (ProgramData.argsStart / pvmPageSize)
      (pageSize d.argsSize / pvmPageSize) .readable).setBases d := by
  have hrom : ∀ m : Graypaper.Memory,
      (m.addSegment ProgramData.romStart d.romSize .readable d.romContents).toLayout =
        m.changeAcl _ _ .readable :=
    fun m => (m.addSegment_eq .readable (by decide) (le_pageSize _)).1
  have hheap : ∀ m : Graypaper.Memory,
      (m.addSegment d.heapStart d.heapMemSize .writable d.heapContents).toLayout =
        m.changeAcl _ _ .writable :=
    fun m => (m.addSegment_eq .writable d.heapStart_aligned
      ((le_pageSize _).trans (Nat.le_add_right _ _))).1
  have hstack : ∀ m : Graypaper.Memory,
      (m.addSegment d.stackStart d.stackSize .writable (List.replicate d.stackSize 0)).toLayout =
        m.changeAcl _ _ .writable :=
    fun m => (m.addSegment_eq .writable d.stackStart_aligned List.length_replicate.le).1
  have hargs : ∀ m : Graypaper.Memory,
      (m.addSegment ProgramData.argsStart d.argsSize .readable d.argumentContents).toLayout =
        m.changeAcl _ _ .readable :=
    fun m => (m.addSegment_eq .readable (by decide) (le_pageSize _)).1
  rw [Graypaper.initMemory]
  simp only [Layout.setBases, hargs, hstack, hheap, hrom]
  rfl

/-- A loaded memory has the permissions of its sections. -/
lemma initMemory_mapped (d : ProgramData) : (Graypaper.initMemory d).toLayout.Mapped d d.heapEnd := by
  obtain ⟨hrom, hheap, hguard, hprinted, hstack, hstackEnd, hargs, -⟩ := d.pages_apart
  have hpages : ∀ {address size x : ℕ}, address / pvmPageSize * pvmPageSize = address →
      pageSize size = size → ((address / pvmPageSize ≤ x ∧
        x < address / pvmPageSize + pageSize size / pvmPageSize) ↔
        x ∈ Finset.Ico (address / pvmPageSize) ((address + size) / pvmPageSize)) := by
    intro address size x haddress hsize
    rw [Finset.mem_Ico, ProgramData.pageIndex_add haddress, hsize]
  have hromPages : ∀ x, (ProgramData.romStart / pvmPageSize ≤ x ∧
      x < ProgramData.romStart / pvmPageSize + pageSize d.romSize / pvmPageSize) ↔ x ∈ d.romPages :=
    fun _ => hpages (by decide) (pageSize_pageSize _)
  have hheapPages : ∀ x, (d.heapFirst ≤ x ∧ x < d.heapFirst + pageSize d.heapMemSize / pvmPageSize) ↔
      x ∈ d.heapPages d.heapEnd :=
    fun _ => hpages d.heapStart_aligned d.pageSize_heapMemSize
  have hstackPages : ∀ x, (d.stackStart / pvmPageSize ≤ x ∧
      x < d.stackStart / pvmPageSize + pageSize d.stackSize / pvmPageSize) ↔ x ∈ d.stackPages :=
    fun _ => hpages d.stackStart_aligned (pageSize_pageSize _)
  have hargsPages : ∀ x, (ProgramData.argsStart / pvmPageSize ≤ x ∧
      x < ProgramData.argsStart / pvmPageSize + pageSize d.argsSize / pvmPageSize) ↔
        x ∈ d.argsPages :=
    fun _ => hpages (by decide) (pageSize_pageSize _)
  rw [initMemory_toLayout]
  refine ⟨rfl, rfl, ?_, ?_⟩
  · ext x
    change x ∈ (Layout.changeAcl _ _ _ _).pagesW ↔ _
    rw [(Layout.changeAcl_readable _ _ _ x).1, (Layout.changeAcl_writable _ _ _ x).1,
      (Layout.changeAcl_writable _ _ _ x).1, (Layout.changeAcl_readable _ _ _ x).1, hargsPages,
      hstackPages, hheapPages, Finset.mem_union]
    simp only [Layout.empty, Finset.notMem_empty, false_and, false_or]
    constructor
    · exact fun h => h.1
    · intro h
      refine ⟨h, ?_⟩
      simp only [ProgramData.heapPages, ProgramData.stackPages, ProgramData.argsPages,
        Finset.mem_Ico] at h ⊢
      omega
  · ext x
    change x ∈ (Layout.changeAcl _ _ _ _).pagesR ↔ _
    rw [(Layout.changeAcl_readable _ _ _ x).2, (Layout.changeAcl_writable _ _ _ x).2,
      (Layout.changeAcl_writable _ _ _ x).2, (Layout.changeAcl_readable _ _ _ x).2, hargsPages,
      hstackPages, hheapPages, hromPages]
    simp only [Layout.empty, Finset.notMem_empty, false_or, Finset.mem_union]

end Pvm
