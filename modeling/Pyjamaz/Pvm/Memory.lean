import Mathlib.Data.Finset.Sort
import Pyjamaz.Library.Octets
import Pyjamaz.Library.Paged
import Pyjamaz.Pvm.Interpreter

/-!
# Memory in the three interpreters

The address space is `2 ^ 32` bytes in pages of 4096.  All interpreters keep the readable and the
writable pages in two sets, and the host calls that change permissions work on these.  The contents
are kept in three ways.  The Graypaper interpreter has a dictionary of pages, where a missing page is
zero; the cache in front of it holds the same page objects and is left out.  CPython maps the whole
space.  Numba maps it too, but its compiled code reads and writes through sections: runs of pages
with one permission, built from the sets before every invocation, each a view of the map.

A load or a store ends with a value, or it stops the machine: a panic below `2 ^ 16` or past the end
of the space, a page fault at the lowest page that it may not touch.
-/

namespace Pvm

/-- `PVM_PAGE_SIZE` -/
def pvmPageSize : ℕ := 4096

/-- `PVM_INIT_ZONE_SIZE` -/
def pvmInitZoneSize : ℕ := 2 ^ 16

/-- `PVM_INPUT_DATA_SIZE` -/
def pvmInputDataSize : ℕ := 2 ^ 24

/-- `PVM_MAX_HEAP_SIZE` -/
def pvmMaxHeapSize : ℕ := 1000000 * 1000

/-- `PVMMemory.SIZE` -/
def memorySize : ℕ := 2 ^ 32

/-- `page_size`: a number of bytes rounded up to whole pages. -/
def pageSize (bytes : ℕ) : ℕ := pvmPageSize * ((bytes + pvmPageSize - 1) / pvmPageSize)

/-- `zone_size`: a number of bytes rounded up to whole zones. -/
def zoneSize (items : ℕ) : ℕ :=
  pvmInitZoneSize * ((items + pvmInitZoneSize - 1) / pvmInitZoneSize)

/-- `MEM_I`, `MEM_R`, `MEM_W`, `MEM_RW` -/
inductive Acl where
  | inaccessible
  | readable
  | writable
  | readWrite
  deriving DecidableEq, Repr

/-- The number of a permission. -/
def Acl.value : Acl → ℤ
  | .inaccessible => 0
  | .readable => 1
  | .writable => 2
  | .readWrite => 3

/-! ## Permissions -/

/-- What the three memories have in common: `pages_r`, `pages_w`, `heap_base`, `stack_base` and
`heap_ptr`. -/
structure Layout where
  pagesR : Finset ℕ
  pagesW : Finset ℕ
  heapBase : Option ℕ
  stackBase : Option ℕ
  heapPtr : ℕ

/-- The layout of `PVMMemory()`. -/
def Layout.empty : Layout := ⟨∅, ∅, none, none, 0⟩

def Layout.mergeAcl (L : Layout) (pageIdx : ℕ) (acl : Acl) : Layout :=
  let L := if acl ≠ .inaccessible then { L with pagesR := insert pageIdx L.pagesR } else L
  if acl = .writable ∨ acl = .readWrite then { L with pagesW := insert pageIdx L.pagesW } else L

def Layout.setAcl (L : Layout) (pageIdx : ℕ) (acl : Acl) : Layout :=
  if acl = .inaccessible then
    { L with pagesR := L.pagesR.erase pageIdx, pagesW := L.pagesW.erase pageIdx }
  else if acl = .writable ∨ acl = .readWrite then
    { L with pagesR := insert pageIdx L.pagesR, pagesW := insert pageIdx L.pagesW }
  else { L with pagesR := insert pageIdx L.pagesR, pagesW := L.pagesW.erase pageIdx }

/-- `change_acl`, and the loops over `set_acl` elsewhere. -/
def Layout.changeAcl (L : Layout) (pageIdx nrPages : ℕ) (acl : Acl) : Layout :=
  (List.range' pageIdx nrPages).foldl (fun L pg => L.setAcl pg acl) L

/-- `is_accessible` in the mode `MEM_R`. -/
def Layout.isReadable (L : Layout) (address length : ℕ) : Bool :=
  if length = 0 then true
  else if memorySize < address + length then false
  else (List.range' (address / pvmPageSize) (Paged.pageCount pvmPageSize address length)).all
    (fun pg => pg ∈ L.pagesR)

/-- `hc_grow_heap` on the memory, with the settings of version 0.8.0.  Without a heap the conversion
of `heap_base` raises. -/
def Layout.hcGrowHeap (L : Layout) (requestedSize gas : ℕ) : Layout :=
  match L.heapBase, L.stackBase with
  | some heapBase, some stackBase =>
    let a := heapBase / pvmPageSize
    let b := (stackBase / pvmInitZoneSize * pvmInitZoneSize - pvmInitZoneSize) / pvmPageSize
    let h := a + (L.pagesW.filter (fun page => a ≤ page ∧ page < b)).card
    let query := requestedSize ≤ h ∨ b < requestedSize
    let stop := if query then h else requestedSize
    let cost := 275 + (stop - h) * 121
    if gas < cost ∨ query then L
    else { L.changeAcl a (stop - a) .writable with heapPtr := stop * pvmPageSize }
  | _, _ => L

/-- The permission that `hc_pages` sets. -/
def pagesAcl (r : ℕ) : Acl :=
  if r = 0 then .inaccessible else if r = 1 ∨ r = 3 then .readable else .writable

/-- The checks of `hc_pages` on its arguments. -/
def Layout.pagesAllowed (L : Layout) (p c r : ℕ) : Bool :=
  !(4 < r || p < 16 || memorySize / pvmPageSize ≤ p + c) &&
    (r ≤ 2 || L.isReadable (p * pvmPageSize) (c * pvmPageSize))

/-! ## Loads and stores, as the interpreters see them -/

/-- The exceptions of a memory access: `PanicError`, or `PVMMemoryError` with `_mem_addr`. -/
inductive AccessError where
  | panicError
  | memoryError (memAddr : ℤ)
  deriving DecidableEq, Repr

/-- What `invoke` makes of an exception. -/
def AccessError.exit : AccessError → Exit
  | .panicError => .panic
  | .memoryError memAddr => faultExit (some memAddr)

/-- The guard of `mem_read` and `mem_write`. -/
def guardAccess (addr n : ℕ) : Except AccessError Unit :=
  if addr < 65536 ∨ memorySize < addr + n then .error .panicError else .ok ()

namespace Graypaper

/-- `PVMMemory`: pages that were never written are missing. -/
structure Memory extends Layout where
  pages : ℕ → Option (ℕ → UInt8)

/-- `page_content` without `create`. -/
def Memory.pageContent (m : Memory) (pageIdx : ℕ) : ℕ → UInt8 :=
  (m.pages pageIdx).getD (fun _ => 0)

/-- The byte at an address. -/
def Memory.byte (m : Memory) (x : ℕ) : UInt8 :=
  m.pageContent (x / pvmPageSize) (x % pvmPageSize)

def Memory.setPage (m : Memory) (pageIdx : ℕ) (page : ℕ → UInt8) : Memory :=
  { m with pages := Function.update m.pages pageIdx (some page) }

/-- `page_content(create=True)` and the assignment to a slice of it. -/
def Memory.writeSlice (m : Memory) (pageIdx pageOff : ℕ) (data : Octets) : Memory :=
  m.setPage pageIdx (Paged.write (m.pageContent pageIdx) pageOff data)

/-- `write`: a page of zeros is not created. -/
def Memory.write (m : Memory) (pageIdx : ℕ) (data : Octets) : Memory :=
  match m.pages pageIdx with
  | none => if data.all (fun b => b = 0) then m else m.writeSlice pageIdx 0 data
  | some _ => m.writeSlice pageIdx 0 data

def Memory.addSegment (m : Memory) (address size : ℕ) (acl : Acl) (contents : Octets) : Memory :=
  if size = 0 ∧ contents = [] then m
  else
    let size := pageSize (max size contents.length)
    let startPage := address / pvmPageSize
    let m := { m with toLayout := m.changeAcl startPage (size / pvmPageSize) acl }
    let dataLen := min contents.length size
    (List.range (pageSize dataLen / pvmPageSize)).foldl (fun m localPage =>
      let start := localPage * pvmPageSize
      m.write (startPage + localPage)
        (Octets.slice contents start (min (start + pvmPageSize) dataLen))) m

/-- The part of a range that lies on a page. -/
def segment (address stop pg : ℕ) : ℕ × ℕ :=
  (if pg = address / pvmPageSize then address else pg * pvmPageSize,
    if pg = (stop - 1) / pvmPageSize then stop else pg * pvmPageSize + pvmPageSize)

/-- The loop of `read_bytes` over the pages of a range. -/
def Memory.readPages (m : Memory) (address stop : ℕ) : List ℕ → Except AccessError Octets
  | [] => .ok []
  | pg :: rest =>
    let (segStart, segEnd) := segment address stop pg
    if pg ∉ m.pagesR then .error (.memoryError (pg * pvmPageSize : ℕ))
    else do
      let parts ← m.readPages address stop rest
      .ok (Paged.read (m.pageContent pg) (segStart - pg * pvmPageSize) (segEnd - segStart) ++ parts)

/-- `read_bytes` without padding. -/
def Memory.readBytes (m : Memory) (address length : ℕ) : Except AccessError Octets :=
  if memorySize ≤ address then .error (.memoryError address)
  else if length = 0 then .ok []
  else
    let stop := address + length
    let pg := address / pvmPageSize
    if pg = (stop - 1) / pvmPageSize then
      if pg ∉ m.pagesR then .error (.memoryError (pg * pvmPageSize : ℕ))
      else .ok (Paged.read (m.pageContent pg) (address % pvmPageSize) length)
    else m.readPages address stop (List.range' pg ((stop - 1) / pvmPageSize + 1 - pg))

/-- The second loop of `write_bytes` over the pages of a range. -/
def Memory.writePages (address stop : ℕ) (data : Octets) : Memory → ℕ → List ℕ → Memory
  | m, _, [] => m
  | m, cursor, pg :: rest =>
    let (segStart, segEnd) := segment address stop pg
    let chunk := segEnd - segStart
    writePages address stop data
      (m.writeSlice pg (segStart - pg * pvmPageSize) (Octets.slice data cursor (cursor + chunk)))
      (cursor + chunk) rest

/-- `write_bytes`: every page is checked before the first one is written. -/
def Memory.writeBytes (m : Memory) (address : ℕ) (content : Octets) : Except AccessError Memory :=
  if content = [] then .ok m
  else if memorySize ≤ address then .error (.memoryError address)
  else
    let stop := address + content.length
    let pg := address / pvmPageSize
    if pg = (stop - 1) / pvmPageSize then
      if pg ∉ m.pagesW then .error (.memoryError (pg * pvmPageSize : ℕ))
      else .ok (m.writeSlice pg (address % pvmPageSize) content)
    else
      let pages := List.range' pg ((stop - 1) / pvmPageSize + 1 - pg)
      match pages.find? (fun pg => !(pg ∈ m.pagesW)) with
      | some pg => .error (.memoryError (pg * pvmPageSize : ℕ))
      | none => .ok (writePages address stop content m 0 pages)

/-- `mem_read` -/
def Memory.memRead (m : Memory) (addr n : ℕ) : Except AccessError ℕ := do
  let addr := addr % memorySize
  guardAccess addr n
  let data ← m.readBytes addr n
  .ok (Octets.ofLittleEndian data)

/-- `mem_write` -/
def Memory.memWrite (m : Memory) (addr value n : ℕ) : Except AccessError Memory := do
  let addr := addr % memorySize
  guardAccess addr n
  m.writeBytes addr (Octets.littleEndian n (value % 2 ^ (8 * n)))

/-- `zero` -/
def Memory.zero (m : Memory) (pageIdx nrPages : ℕ) (acl : Acl) : Memory :=
  (List.range' pageIdx nrPages).foldl (fun m pg =>
    let m := m.setPage pg (fun _ => 0)
    { m with toLayout := m.setAcl pg acl }) m

/-- `hc_pages` on the memory of the inner machine. -/
def Memory.hcPages (m : Memory) (p c r : ℕ) : Memory :=
  if m.pagesAllowed p c r then
    let m := if r < 3 then m.zero p c (pagesAcl r) else m
    { m with toLayout := m.changeAcl p c (pagesAcl r) }
  else m

end Graypaper

namespace CPython

/-- `PVMMemory`: the whole space is mapped. -/
structure Memory extends Layout where
  mm : ℕ → UInt8

/-- `MemorySection` -/
structure MemorySection where
  address : ℕ
  size : ℕ
  pagedTail : ℕ
  contents : Octets
  acl : Acl

/-- The constructor of `MemorySection`: the contents are filled up with zeros to the size; one that
is too large raises. -/
def MemorySection.new (address size : ℕ) (contents : Octets) (acl : Acl) : Option MemorySection :=
  if pvmMaxHeapSize < size then none
  else some {
    address := address
    size := pageSize size
    pagedTail := address + pageSize contents.length
    contents := contents ++ List.replicate (pageSize size - contents.length) 0
    acl := acl }

def Memory.loadSection (m : Memory) (s : MemorySection) : Memory :=
  let basePage := s.address / pvmPageSize
  let L := (List.range (pageSize s.size / pvmPageSize)).foldl
    (fun L localPage => L.mergeAcl (basePage + localPage) s.acl) m.toLayout
  let dataLen := min s.contents.length (s.pagedTail - s.address)
  { L with mm := Paged.write m.mm s.address (s.contents.take dataLen) }

/-- The loop that checks the pages of a range, for at most `fuel` rounds. -/
def scan (allowed : ℕ → Bool) (stop : ℕ) : ℕ → ℕ → Option ℕ
  | 0, _ => none
  | fuel + 1, scanAddr =>
    if scanAddr < stop then
      let pg := scanAddr / pvmPageSize
      let chunk := min (pvmPageSize - scanAddr % pvmPageSize) (stop - scanAddr)
      if !allowed pg then some pg else scan allowed stop fuel (scanAddr + chunk)
    else none

/-- `pg > _MAX_PAGE_IDX or pg not in pages`, negated. -/
def inPages (pages : Finset ℕ) (pg : ℕ) : Bool :=
  !(memorySize / pvmPageSize - 1 < pg || pg ∉ pages)

/-- `read_bytes` without padding. -/
def Memory.readBytes (m : Memory) (address length : ℕ) : Except AccessError Octets :=
  if memorySize ≤ address then .error (.memoryError address)
  else if length = 0 then .ok []
  else
    let stop := address + length
    let pg := address / pvmPageSize
    if pg = (stop - 1) / pvmPageSize then
      if !inPages m.pagesR pg then .error (.memoryError (pg * pvmPageSize : ℕ))
      else .ok (Paged.read m.mm address length)
    else
      match scan (inPages m.pagesR) stop length address with
      | some pg => .error (.memoryError (pg * pvmPageSize : ℕ))
      | none => .ok (Paged.read m.mm address length)

/-- `write_bytes` -/
def Memory.writeBytes (m : Memory) (address : ℕ) (content : Octets) : Except AccessError Memory :=
  if content = [] then .ok m
  else if memorySize ≤ address then .error (.memoryError address)
  else
    let stop := address + content.length
    let pg := address / pvmPageSize
    if pg = (stop - 1) / pvmPageSize then
      if !inPages m.pagesW pg then .error (.memoryError (pg * pvmPageSize : ℕ))
      else .ok { m with mm := Paged.write m.mm address content }
    else
      match scan (inPages m.pagesW) stop content.length address with
      | some pg => .error (.memoryError (pg * pvmPageSize : ℕ))
      | none => .ok { m with mm := Paged.write m.mm address content }

/-- `mem_read` -/
def Memory.memRead (m : Memory) (addr n : ℕ) : Except AccessError ℕ := do
  let addr := addr % 2 ^ 32
  guardAccess addr n
  let data ← m.readBytes addr n
  .ok (Octets.ofLittleEndian data)

/-- `mem_write` -/
def Memory.memWrite (m : Memory) (addr value n : ℕ) : Except AccessError Memory := do
  let addr := addr % 2 ^ 32
  guardAccess addr n
  m.writeBytes addr (Octets.littleEndian n (value % 2 ^ (8 * n)))

/-- `zero`; past the end of the space it raises. -/
def Memory.zero (m : Memory) (pageIdx nrPages : ℕ) (acl : Acl) : Option Memory :=
  if nrPages = 0 then some m
  else if memorySize < pageIdx * pvmPageSize + nrPages * pvmPageSize then none
  else some {
    m.changeAcl pageIdx nrPages acl with
    mm := Paged.write m.mm (pageIdx * pvmPageSize) (List.replicate (nrPages * pvmPageSize) 0) }

/-- `hc_pages` on the memory of the inner machine. -/
def Memory.hcPages (m : Memory) (p c r : ℕ) : Memory :=
  if m.pagesAllowed p c r then
    match if r < 3 then m.zero p c (pagesAcl r) else some m with
    | none => m
    | some m => { m with toLayout := m.changeAcl p c (pagesAcl r) }
  else m

end CPython

namespace Numba

/-- A section of `_link_memory`: a run of pages with one permission, as a view of the map. -/
structure Section where
  start : ℕ
  stop : ℕ
  access : ℤ
  deriving DecidableEq, Repr

/-- `addr_is_covered` -/
def addrIsCovered (sections : List Section) (addr : ℕ) : Bool :=
  sections.any (fun s => s.start < s.stop && s.start ≤ addr && addr < s.stop)

/-- The permission of a readable page. -/
def pageAcl (pagesW : Finset ℕ) (page : ℕ) : Acl := if page ∈ pagesW then .writable else .readable

/-- The inner loop of `_link_memory`: a run goes on while the pages follow each other, are not
covered and have one permission. -/
def extendRun (pagesW : Finset ℕ) (sections : List Section) (acl : Acl) :
    ℕ → List ℕ → ℕ × List ℕ
  | runEnd, [] => (runEnd, [])
  | runEnd, nxt :: rest =>
    if nxt ≠ runEnd + 1 then (runEnd, nxt :: rest)
    else if addrIsCovered sections (nxt * pvmPageSize) then (runEnd, nxt :: rest)
    else if pageAcl pagesW nxt ≠ acl then (runEnd, nxt :: rest)
    else extendRun pagesW sections acl nxt rest

/-- The outer loop of `_link_memory`, for at most `fuel` rounds. -/
def linkRuns (pagesW : Finset ℕ) : ℕ → List Section → List ℕ → List Section
  | 0, sections, _ => sections
  | _ + 1, sections, [] => sections
  | fuel + 1, sections, page :: rest =>
    if addrIsCovered sections (page * pvmPageSize) then linkRuns pagesW fuel sections rest
    else
      let acl := pageAcl pagesW page
      let (runEnd, rest) := extendRun pagesW sections acl page rest
      let start := page * pvmPageSize
      let size := (runEnd - page + 1) * pvmPageSize
      linkRuns pagesW fuel (sections ++ [⟨start, start + size, acl.value⟩]) rest

/-- `_link_memory`: the sections of the readable pages in order.  The four sections that the source
keeps empty are not passed to the compiled code. -/
def linkMemory (L : Layout) : List Section :=
  let readablePages := L.pagesR.sort (fun a b => a ≤ b)
  linkRuns L.pagesW readablePages.length [] readablePages

/-- The search for the section of an address. -/
def findSection (sections : List Section) (addr : ℕ) : Option Section :=
  sections.find? (fun s => s.start ≤ addr && addr < s.stop)

/-- The search for a section with the whole range. -/
def findWhole (sections : List Section) (addr n : ℕ) : Option Section :=
  sections.find? (fun s => s.start ≤ addr && addr + n ≤ s.stop)

/-- `found < 0 or section_access[found] < required` -/
def refuses (sections : List Section) (required : Acl) (address : ℕ) : Bool :=
  match findSection sections address with
  | none => true
  | some s => s.access < required.value

/-- The loop that looks up every byte of a range: the address of the first that is not accessible. -/
def locate (sections : List Section) (required : Acl) (addr n : ℕ) : Option ℕ :=
  ((List.range n).map (fun byte => addr + byte)).find? (refuses sections required)

/-- `read_uint_jit` on a section, whose cells are those of the map. -/
def readUintJit (mm : ℕ → UInt8) (addr : ℕ) : ℕ → ℕ
  | 1 => (mm addr).toNat
  | 2 => (mm addr).toNat ||| (mm (addr + 1)).toNat <<< 8
  | 4 => (mm addr).toNat ||| (mm (addr + 1)).toNat <<< 8 ||| (mm (addr + 2)).toNat <<< 16 |||
      (mm (addr + 3)).toNat <<< 24
  | 8 => (mm addr).toNat ||| (mm (addr + 1)).toNat <<< 8 ||| (mm (addr + 2)).toNat <<< 16 |||
      (mm (addr + 3)).toNat <<< 24 ||| (mm (addr + 4)).toNat <<< 32 |||
      (mm (addr + 5)).toNat <<< 40 ||| (mm (addr + 6)).toNat <<< 48 |||
      (mm (addr + 7)).toNat <<< 56
  | _ => 0

/-- The loop of `mem_read_jit` that puts the bytes together. -/
def collect (mm : ℕ → UInt8) (addr n : ℕ) : ℕ :=
  (List.range n).foldl (fun value byte => value ||| (mm (addr + byte)).toNat <<< (8 * byte)) 0

/-- `mem_read_jit`: a status and a value. -/
def memReadJit (mm : ℕ → UInt8) (sections : List Section) (addr n : ℕ) : ℤ × ℕ :=
  let addr := addr % 2 ^ 32
  if addr < 65536 ∨ 2 ^ 32 < addr + n then (-2, 0)
  else
    match findWhole sections addr n with
    | some s =>
      if s.access < Acl.readable.value then (-1, addr / pvmPageSize * pvmPageSize)
      else (0, readUintJit mm (s.start + (addr - s.start)) n)
    | none =>
      match locate sections .readable addr n with
      | some address => (-1, address / pvmPageSize * pvmPageSize)
      | none => (0, collect mm addr n)

/-- The loop of `mem_write_jit` that stores the bytes. -/
def spread (mm : ℕ → UInt8) (addr value n : ℕ) : ℕ → UInt8 :=
  (List.range n).foldl (fun mm byte =>
    Function.update mm (addr + byte) (UInt8.ofNat (value >>> (8 * byte)))) mm

/-- `mem_write_jit`: a status, a fault address and the map. -/
def memWriteJit (mm : ℕ → UInt8) (sections : List Section) (addr value n : ℕ) :
    ℤ × ℕ × (ℕ → UInt8) :=
  let addr := addr % 2 ^ 32
  if addr < 65536 ∨ 2 ^ 32 < addr + n then (-2, 0, mm)
  else
    match findWhole sections addr n with
    | some s =>
      if s.access < Acl.writable.value then (-1, addr / pvmPageSize * pvmPageSize, mm)
      else (0, 0, spread mm (s.start + (addr - s.start)) value n)
    | none =>
      match locate sections .writable addr n with
      | some address => (-1, address / pvmPageSize * pvmPageSize, mm)
      | none => (0, 0, spread mm addr value n)

/-- Numba's `PVMMemory` is CPython's. -/
abbrev Memory := CPython.Memory

/-- A load: the status of `mem_read_jit` as `invoke` reads it. -/
def load (m : Memory) (addr n : ℕ) : Except Exit ℕ :=
  let (status, value) := memReadJit m.mm (linkMemory m.toLayout) addr n
  if status = -2 then .error .panic
  else if status ≠ 0 then .error (faultExit (some value))
  else .ok value

/-- A store; the memory is changed through the sections. -/
def store (m : Memory) (addr value n : ℕ) : Option Exit × Memory :=
  let (status, faultAddr, mm) := memWriteJit m.mm (linkMemory m.toLayout) addr value n
  (if status = -2 then some .panic
    else if status < 0 then some (faultExit (some faultAddr))
    else none, { m with mm := mm })

end Numba

/-- The end of a store: why it stopped, if it did, and the memory. -/
def afterStore {μ : Type} (m : μ) : Except AccessError μ → Option Exit × μ
  | .ok m => (none, m)
  | .error e => (some e.exit, m)

/-- A load of the Graypaper interpreter. -/
def Graypaper.load (m : Graypaper.Memory) (addr n : ℕ) : Except Exit ℕ :=
  (m.memRead addr n).mapError AccessError.exit

/-- A store of the Graypaper interpreter. -/
def Graypaper.store (m : Graypaper.Memory) (addr value n : ℕ) : Option Exit × Graypaper.Memory :=
  afterStore m (m.memWrite addr value n)

/-- A load of the CPython interpreter. -/
def CPython.load (m : CPython.Memory) (addr n : ℕ) : Except Exit ℕ :=
  (m.memRead addr n).mapError AccessError.exit

/-- A store of the CPython interpreter. -/
def CPython.store (m : CPython.Memory) (addr value n : ℕ) : Option Exit × CPython.Memory :=
  afterStore m (m.memWrite addr value n)

/-! ## Initial memory -/

/-- The parts of a serialized program that `from_serialized_bytes` passes on to `init_memory`: the
sizes come in fields of two and three bytes, and the sections have to fit into the space. -/
structure ProgramData where
  romContents : Octets
  heapContents : Octets
  argumentContents : Octets
  heapMemPages : ℕ
  stackMemSize : ℕ
  rom_lt : romContents.length < 2 ^ 24
  heap_lt : heapContents.length < 2 ^ 24
  pages_lt : heapMemPages < 2 ^ 16
  stack_lt : stackMemSize < 2 ^ 24
  arguments_le : argumentContents.length ≤ pvmInputDataSize
  fits : 5 * pvmInitZoneSize + zoneSize romContents.length +
    zoneSize (heapContents.length + heapMemPages * pvmPageSize) + zoneSize stackMemSize +
    pvmInputDataSize ≤ 2 ^ 32

namespace ProgramData

variable (d : ProgramData)

def romStart : ℕ := pvmInitZoneSize

def romSize : ℕ := pageSize d.romContents.length

def heapMemSize : ℕ := pageSize d.heapContents.length + d.heapMemPages * pvmPageSize

def heapStart : ℕ := 2 * pvmInitZoneSize + zoneSize d.romContents.length

def stackSize : ℕ := pageSize d.stackMemSize

def stackStart : ℕ := 2 ^ 32 - 2 * pvmInitZoneSize - pvmInputDataSize - d.stackSize

def argsStart : ℕ := 2 ^ 32 - pvmInitZoneSize - pvmInputDataSize

def argsSize : ℕ := pageSize d.argumentContents.length

end ProgramData

/-- The last lines of `init_memory`. -/
def Layout.setBases (L : Layout) (d : ProgramData) : Layout :=
  { L with
    heapBase := some d.heapStart
    stackBase := some d.stackStart
    heapPtr := d.heapStart + d.heapMemSize }

/-- `PVMMemory()` of the Graypaper interpreter. -/
def Graypaper.Memory.empty : Graypaper.Memory := ⟨Layout.empty, fun _ => none⟩

/-- `init_memory` with the Graypaper interpreter's `alloc_memory`. -/
def Graypaper.initMemory (d : ProgramData) : Graypaper.Memory :=
  let m := Graypaper.Memory.empty
  let m := m.addSegment ProgramData.romStart d.romSize .readable d.romContents
  let m := m.addSegment d.heapStart d.heapMemSize .writable d.heapContents
  let m := m.addSegment d.stackStart d.stackSize .writable (List.replicate d.stackSize 0)
  let m := m.addSegment ProgramData.argsStart d.argsSize .readable d.argumentContents
  { m with toLayout := m.setBases d }

/-- `PVMMemory()` of the CPython interpreter. -/
def CPython.Memory.empty : CPython.Memory := ⟨Layout.empty, fun _ => 0⟩

/-- `init_memory` with the `alloc_memory` of the CPython interpreter, which is also Numba's. -/
def CPython.initMemory (d : ProgramData) : Option CPython.Memory := do
  let rom ← MemorySection.new ProgramData.romStart d.romSize d.romContents .readable
  let heap ← MemorySection.new d.heapStart d.heapMemSize d.heapContents .writable
  let stack ← MemorySection.new d.stackStart d.stackSize (List.replicate d.stackSize 0) .writable
  let arguments ←
    MemorySection.new ProgramData.argsStart d.argsSize d.argumentContents .readable
  let m := CPython.Memory.empty
  let m := (((m.loadSection rom).loadSection heap).loadSection stack).loadSection arguments
  some { m with toLayout := m.setBases d }

/-! ## The memory of one machine in the three interpreters -/

/-- The memories of the three interpreters after the same history. -/
structure Memories where
  graypaper : Graypaper.Memory
  cpython : CPython.Memory
  numba : Numba.Memory

/-- `write_bytes` by a host call; one that raises leaves the memory as it is. -/
def Graypaper.Memory.hostWrite (m : Graypaper.Memory) (address : ℕ) (content : Octets) :
    Graypaper.Memory :=
  match m.writeBytes address content with
  | .ok m => m
  | .error _ => m

def CPython.Memory.hostWrite (m : CPython.Memory) (address : ℕ) (content : Octets) :
    CPython.Memory :=
  match m.writeBytes address content with
  | .ok m => m
  | .error _ => m

/-- The memories that a machine can have: new ones, those of a program, and what host calls and
stores make of them. -/
inductive Memories.Reachable : Memories → Prop
  | fresh : Reachable ⟨.empty, .empty, .empty⟩
  | init (d : ProgramData) {m : CPython.Memory} (h : CPython.initMemory d = some m) :
      Reachable ⟨Graypaper.initMemory d, m, m⟩
  | growHeap {M : Memories} (h : Reachable M) (requestedSize gas : ℕ) :
      Reachable
        ⟨{ M.graypaper with toLayout := M.graypaper.hcGrowHeap requestedSize gas },
          { M.cpython with toLayout := M.cpython.hcGrowHeap requestedSize gas },
          { M.numba with toLayout := M.numba.hcGrowHeap requestedSize gas }⟩
  | pages {M : Memories} (h : Reachable M) (p c r : ℕ) :
      Reachable ⟨M.graypaper.hcPages p c r, M.cpython.hcPages p c r, M.numba.hcPages p c r⟩
  | hostWrite {M : Memories} (h : Reachable M) (address : ℕ) (content : Octets) :
      Reachable ⟨M.graypaper.hostWrite address content, M.cpython.hostWrite address content,
        M.numba.hostWrite address content⟩
  | store {M : Memories} (h : Reachable M) (addr value n : ℕ) (hn : n ∈ [1, 2, 4, 8]) :
      Reachable ⟨(Graypaper.store M.graypaper addr value n).2,
        (CPython.store M.cpython addr value n).2, (Numba.store M.numba addr value n).2⟩

end Pvm
