import Pyjamaz.HostCalls.Context
import Pyjamaz.Pvm.Loader
import Pyjamaz.Pvm.Sessions

/-!
# Growing the heap

`hc_grow_heap` finds the end of the heap by counting the writable pages between the heap base and the
guard zone in front of the stack.  It answers the end in register 7, after making the pages up to a
requested end writable where that lies in front of the guard zone and the gas suffices.

The count is the end because the pages of the heap are a prefix of that range and no other writable
page lies in it.  `Layout.Mapped` is the invariant that says so; a call keeps it
(`hcGrowHeap_mapped`), and `heap_layout` is the result for every loaded program and every sequence of
calls.  Two settings change the price of a call and where the guard zone is put; the results hold for
all of them.
-/

namespace HostCalls

open Pvm

/-! ## The call -/

/-- The settings that the call reads: `GP080_GROW_HEAP_OOG_COMPAT` and
`GP080_GROW_HEAP_STACK_COMPAT`, both under version 0.8.0. -/
structure GrowHeapSettings where
  oogCompat : Bool
  stackCompat : Bool
  deriving DecidableEq, Repr

/-- The settings of the repository. -/
def GrowHeapSettings.default : GrowHeapSettings := ⟨true, true⟩

/-- `b`: the exclusive end of the heap, before the guard zone. -/
def growHeapLimit (settings : GrowHeapSettings) (stackBase : ℕ) : ℕ :=
  let stackBase :=
    if settings.stackCompat then stackBase / pvmInitZoneSize * pvmInitZoneSize else stackBase
  (stackBase - pvmInitZoneSize) / pvmPageSize

/-- `h`: the current end of the heap. -/
def currentHeapEnd (layout : Layout) (a b : ℕ) : ℕ :=
  a + (layout.pagesW.filter (fun page => a ≤ page ∧ page < b)).card

/-- `hc_grow_heap`; without a heap or a stack the conversion of the base raises. -/
def hcGrowHeap (settings : GrowHeapSettings) (registers : Registers) (layout : Layout)
    (out : InvocationMutationOutput) : Option (InvocationMutationOutput × Layout) := do
  let heapBase ← layout.heapBase
  let stackBase ← layout.stackBase
  let a := heapBase / pvmPageSize
  let b := growHeapLimit settings stackBase
  let h := currentHeapEnd layout a b
  let requestedSize := registers.get 7
  let gas := out.gasLimit
  let query := requestedSize ≤ h ∨ b < requestedSize
  let stop := if query then h else requestedSize
  let cost : ℤ :=
    if settings.oogCompat then 275 + ((stop : ℤ) - h) * 121
    else 275 + ((requestedSize : ℤ) - h) * 121
  let gasLimit :=
    if settings.oogCompat then max 0 (gas - cost)
    else if query then gas - 275
    else if gas < cost then gas else gas - cost
  if gas < cost then some ({ out with gasLimit := gasLimit, exitCondition := .outOfGas }, layout)
  else
    let out := { out.resumeWith stop with gasLimit := gasLimit }
    if query then some (out, layout)
    else some (out,
      { layout.changeAcl a (stop - a) .writable with heapPtr := stop * pvmPageSize })

/-- Under the settings of the repository the call changes the memory as `Layout.hcGrowHeap` says. -/
lemma hcGrowHeap_layout (registers : Registers) (layout : Layout) (out : InvocationMutationOutput)
    {gas : ℕ} (hgas : out.gasLimit = gas) {out' : InvocationMutationOutput} {layout' : Layout}
    (h : hcGrowHeap .default registers layout out = some (out', layout')) :
    layout' = layout.hcGrowHeap (registers.get 7) gas := by
  obtain ⟨heapBase, hheap, h⟩ := Option.bind_eq_some_iff.mp h
  obtain ⟨stackBase, hstack, h⟩ := Option.bind_eq_some_iff.mp h
  rw [Layout.hcGrowHeap, hheap, hstack]
  simp only [GrowHeapSettings.default, growHeapLimit, currentHeapEnd, if_true, hgas] at h ⊢
  generalize (stackBase / pvmInitZoneSize * pvmInitZoneSize - pvmInitZoneSize) / pvmPageSize = b at h ⊢
  generalize heapBase / pvmPageSize = a at h ⊢
  generalize a + (layout.pagesW.filter (fun page => a ≤ page ∧ page < b)).card = used at h ⊢
  by_cases hquery : registers.get 7 ≤ used ∨ b < registers.get 7
  · simp only [if_pos hquery] at h
    rw [if_pos (Or.inr hquery)]
    split at h
    · cases h
      rfl
    · cases h
      rfl
  · simp only [hquery, if_false, or_false] at h ⊢
    have hcost : (gas : ℤ) < (275 : ℤ) + ((registers.get 7 : ℤ) - used) * 121 ↔
        gas < 275 + (registers.get 7 - used) * 121 := by
      rw [not_or] at hquery
      omega
    by_cases hlt : gas < 275 + (registers.get 7 - used) * 121
    · rw [if_pos (hcost.mpr hlt)] at h
      cases h
      rw [if_pos hlt]
    · rw [if_neg (fun hc => hlt (hcost.mp hc))] at h
      cases h
      rw [if_neg hlt]

/-! ## The end of the heap -/

variable {settings : GrowHeapSettings} {d : ProgramData} {stop : ℕ} {L : Layout}

/-- The last page at which the heap may end. -/
def heapLimit (settings : GrowHeapSettings) (d : ProgramData) : ℕ :=
  growHeapLimit settings d.stackStart

lemma heapLimit_bounds (settings : GrowHeapSettings) (d : ProgramData) :
    d.heapEnd ≤ heapLimit settings d ∧ heapLimit settings d + 16 ≤ d.stackStart / pvmPageSize := by
  obtain ⟨-, -, hguard, hprinted, hstack, -⟩ := d.pages_apart
  cases hcompat : settings.stackCompat with
  | true =>
    have heq : heapLimit settings d = d.guardPage := by
      rw [heapLimit, growHeapLimit, hcompat]
      rfl
    omega
  | false =>
    have heq : heapLimit settings d = d.printedGuardPage := by
      rw [heapLimit, growHeapLimit, hcompat]
      rfl
    omega

/-- The writable pages between the heap base and the guard zone are those of the heap. -/
lemma heap_prefix (hmapped : L.Mapped d stop) (hstop : stop ≤ heapLimit settings d) :
    L.pagesW.filter (fun page => d.heapFirst ≤ page ∧ page < heapLimit settings d) =
      d.heapPages stop := by
  have hlimit := (heapLimit_bounds settings d).2
  ext x
  rw [Finset.mem_filter, hmapped.pagesW, Finset.mem_union]
  simp only [ProgramData.heapPages, ProgramData.stackPages, Finset.mem_Ico]
  omega

/-- Counting them finds the end. -/
lemma currentHeapEnd_eq (hmapped : L.Mapped d stop) (hfirst : d.heapFirst ≤ stop)
    (hstop : stop ≤ heapLimit settings d) :
    currentHeapEnd L d.heapFirst (heapLimit settings d) = stop := by
  rw [currentHeapEnd, heap_prefix hmapped hstop, ProgramData.heapPages, Nat.card_Ico]
  omega

/-- Growing the heap appends pages to it. -/
lemma Mapped.grow (hmapped : L.Mapped d stop) (hfirst : d.heapFirst ≤ stop) {stop' : ℕ}
    (hle : stop ≤ stop') (heapPtr : ℕ) :
    Layout.Mapped d stop'
      { L.changeAcl d.heapFirst (stop' - d.heapFirst) .writable with heapPtr := heapPtr } := by
  obtain ⟨hheap, hstack⟩ := L.bases_changeAcl d.heapFirst (stop' - d.heapFirst) .writable
  have hrange : ∀ x, x < d.heapFirst + (stop' - d.heapFirst) ↔ x < stop' := by omega
  have hkeep : ∀ x, x < stop → x < stop' := fun x hx => hx.trans_le hle
  refine ⟨hheap.trans hmapped.heapBase, hstack.trans hmapped.stackBase, ?_, ?_⟩
  · ext x
    change x ∈ (L.changeAcl _ _ _).pagesW ↔ _
    rw [(L.changeAcl_writable _ _ x).1, hmapped.pagesW]
    simp only [ProgramData.heapPages, Finset.mem_union, Finset.mem_Ico, hrange x]
    have hx := hkeep x
    tauto
  · ext x
    change x ∈ (L.changeAcl _ _ _).pagesR ↔ _
    rw [(L.changeAcl_writable _ _ x).2, hmapped.pagesR]
    simp only [ProgramData.heapPages, Finset.mem_union, Finset.mem_Ico, hrange x]
    have hx := hkeep x
    grind

/-! ## One call -/

/-- What a call makes of a heap that ends before a page: it is out of gas and changes nothing but the
gas, or it answers the new end. -/
inductive HeapAnswered (settings : GrowHeapSettings) (d : ProgramData) (stop : ℕ) (L : Layout)
    (out out' : InvocationMutationOutput) (L' : Layout) : Prop
  | outOfGas (hexit : out'.exitCondition = .outOfGas) (hregisters : out'.registers = out.registers)
      (hlayout : L' = L)
  | resume (stop' : ℕ) (hexit : out'.exitCondition = .resume) (hle : stop ≤ stop')
      (hlimit : stop' ≤ heapLimit settings d) (hmapped : L'.Mapped d stop')
      (hregisters : out'.registers = out.registers.assign 7 stop')

/-- A call keeps the invariant. -/
lemma hcGrowHeap_mapped (hmapped : L.Mapped d stop) (hstart : d.heapEnd ≤ stop)
    (hstop : stop ≤ heapLimit settings d) (registers : Registers) (out : InvocationMutationOutput) :
    ∃ out' L', hcGrowHeap settings registers L out = some (out', L') ∧
      HeapAnswered settings d stop L out out' L' := by
  obtain ⟨-, hfirst, -⟩ := d.pages_apart
  have hend := currentHeapEnd_eq hmapped (hfirst.trans hstart) hstop
  rw [hcGrowHeap, hmapped.heapBase, hmapped.stackBase]
  simp only [Option.bind_eq_bind, Option.bind_some]
  rw [← heapLimit, ← ProgramData.heapFirst, hend]
  -- the price and the gas that is left do not matter
  have hanswer : ∀ (cost gasLimit : ℤ) (stop' : ℕ) (L'' : Layout), stop ≤ stop' →
      stop' ≤ heapLimit settings d → L''.Mapped d stop' → ∃ out' L',
        (if out.gasLimit < cost then
          some ({ out with gasLimit := gasLimit, exitCondition := ExitReason.outOfGas }, L)
        else some ({ out.resumeWith stop' with gasLimit := gasLimit }, L'')) = some (out', L') ∧
          HeapAnswered settings d stop L out out' L' := by
    intro cost gasLimit stop' L'' hle hlimit hmapped'
    split
    · refine ⟨_, _, rfl, ?_⟩
      exact .outOfGas rfl rfl rfl
    · refine ⟨_, _, rfl, ?_⟩
      exact .resume stop' rfl hle hlimit hmapped' rfl
  by_cases hquery : registers.get 7 ≤ stop ∨ heapLimit settings d < registers.get 7
  · simp only [if_pos hquery]
    exact hanswer _ _ stop L le_rfl hstop hmapped
  · simp only [if_neg hquery]
    obtain ⟨hlt, hle⟩ := not_or.mp hquery
    exact hanswer _ _ (registers.get 7) _ (not_le.mp hlt).le (not_lt.mp hle)
      (Mapped.grow hmapped (hfirst.trans hstart) (not_le.mp hlt).le _)

/-! ## Sequences of calls -/

/-- The layouts that calls with any requests and any gas make of one. -/
inductive Grown (settings : GrowHeapSettings) (L₀ : Layout) : Layout → Prop
  | start : Grown settings L₀ L₀
  | call {L L' : Layout} (hgrown : Grown settings L₀ L) (registers : Registers)
      (out out' : InvocationMutationOutput)
      (hcall : hcGrowHeap settings registers L out = some (out', L')) : Grown settings L₀ L'

/-- The invariant holds after every sequence of calls. -/
lemma Grown.mapped {L₀ : Layout} (hstart : L₀.Mapped d d.heapEnd) (hgrown : Grown settings L₀ L) :
    ∃ stop, L.Mapped d stop ∧ d.heapEnd ≤ stop ∧ stop ≤ heapLimit settings d := by
  induction hgrown with
  | start => exact ⟨d.heapEnd, hstart, le_rfl, (heapLimit_bounds settings d).1⟩
  | call _ registers out out' hcall ih =>
    obtain ⟨stop, hmapped, hle, hlimit⟩ := ih
    obtain ⟨_, _, hcall', hanswered⟩ := hcGrowHeap_mapped hmapped hle hlimit registers out
    rw [hcall, Option.some.injEq, Prod.mk.injEq] at hcall'
    obtain ⟨rfl, rfl⟩ := hcall'
    cases hanswered with
    | outOfGas _ _ hlayout =>
      rw [hlayout]
      exact ⟨stop, hmapped, hle, hlimit⟩
    | resume stop' _ hle' hlimit' hmapped' _ => exact ⟨stop', hmapped', hle.trans hle', hlimit'⟩

/-- The page ranges of a program whose heap ends before a page. -/
structure Apart (d : ProgramData) (stop : ℕ) : Prop where
  disjoint : [d.romPages, d.heapPages stop, d.stackPages, d.argsPages].Pairwise Disjoint
  inside : ∀ pages ∈ [d.romPages, d.heapPages stop, d.stackPages, d.argsPages], ∀ pg ∈ pages,
    2 ^ 16 ≤ pg * pvmPageSize ∧ (pg + 1) * pvmPageSize ≤ 2 ^ 32
  zone : stop * pvmPageSize + pvmInitZoneSize ≤ d.stackStart

/-- A heap that ends before the guard zone lies apart from the other sections. -/
lemma apart_of_le (hstop : stop ≤ heapLimit settings d) : Apart d stop := by
  obtain ⟨hrom, hfirst, hguard, hprinted, hstack, hstackEnd, hargs, hspace⟩ := d.pages_apart
  have hlimit := (heapLimit_bounds settings d).2
  have hromFirst : ProgramData.romStart / pvmPageSize = 16 := by decide
  have hromLe : 16 ≤ (ProgramData.romStart + d.romSize) / pvmPageSize := by
    rw [← hromFirst]
    exact Nat.div_le_div_right (Nat.le_add_right _ _)
  have hargsFirst : ProgramData.argsStart / pvmPageSize ≤ 2 ^ 20 := by decide
  have hspan : ∀ pg, 16 ≤ pg → pg < 2 ^ 20 →
      2 ^ 16 ≤ pg * pvmPageSize ∧ (pg + 1) * pvmPageSize ≤ 2 ^ 32 := by
    intro pg hlow hhigh
    have hpage : pvmPageSize = 4096 := rfl
    rw [hpage]
    omega
  refine ⟨?_, ?_, ?_⟩
  · simp only [List.pairwise_cons, List.mem_cons, List.not_mem_nil, or_false, forall_eq_or_imp,
      forall_eq, ProgramData.romPages, ProgramData.heapPages, ProgramData.stackPages,
      ProgramData.argsPages, Finset.disjoint_left, Finset.mem_Ico]
    refine ⟨⟨?_, ?_, ?_⟩, ⟨?_, ?_⟩, ?_, by simp⟩
    · exact fun pg h h' => by omega
    · exact fun pg h h' => by omega
    · exact fun pg h h' => by omega
    · exact fun pg h h' => by omega
    · exact fun pg h h' => by omega
    · exact fun pg h h' => by omega
  · simp only [List.mem_cons, List.not_mem_nil, or_false, forall_eq_or_imp, forall_eq,
      ProgramData.romPages, ProgramData.heapPages, ProgramData.stackPages, ProgramData.argsPages,
      Finset.mem_Ico]
    refine ⟨?_, ?_, ?_, ?_⟩
    · exact fun pg h => hspan pg (by omega) (by omega)
    · exact fun pg h => hspan pg (by omega) (by omega)
    · exact fun pg h => hspan pg (by omega) (by omega)
    · exact fun pg h => hspan pg (by omega) (by omega)
  · have haligned := d.stackStart_aligned
    have hzone : pvmInitZoneSize = 16 * pvmPageSize := rfl
    rw [hzone, ← haligned, ← Nat.add_mul]
    exact Nat.mul_le_mul_right _ (by omega)

/-- For every blob and argument that the loader accepts, in every interpreter and after every sequence
of calls with any requests and any gas: the sections lie on page ranges of their own inside
`[2 ^ 16, 2 ^ 32)`, the heap at least a zone below the stack; the writable pages between the heap base
and the guard zone are a prefix; and the next call changes nothing, being out of gas, or answers in
register 7 the end of a prefix that did not shrink, no other page having become writable.  Under the
settings of the repository the call does to the memory what it does in every run of the memory model. -/
theorem heap_layout (J : ByteStream) (deblob : Octets → Option PVMCode)
    (serializedProgram argumentContents : Octets) (p : PVMProgram) :
    fromSerializedBytes J deblob serializedProgram argumentContents = some p →
      (∃ m, CPython.initMemory p.data = some m ∧
        m.toLayout = (Graypaper.initMemory p.data).toLayout) ∧
      ∀ (settings : GrowHeapSettings) (L : Layout),
        Grown settings (Graypaper.initMemory p.data).toLayout L →
          ∃ stop, p.data.heapEnd ≤ stop ∧ L.Mapped p.data stop ∧ Apart p.data stop ∧
            L.pagesW.filter (fun page => p.data.heapFirst ≤ page ∧
              page < heapLimit settings p.data) = p.data.heapPages stop ∧
            ∀ (registers : Registers) (out : InvocationMutationOutput), ∃ out' L',
              hcGrowHeap settings registers L out = some (out', L') ∧
              HeapAnswered settings p.data stop L out out' L' ∧
              (∀ pg ∈ L'.pagesW, pg ∉ L.pagesW → ∃ stop',
                out'.registers = out.registers.assign 7 stop' ∧ pg ∈ p.data.heapPages stop') ∧
              (settings = .default → ∀ gas : ℕ, out.gasLimit = gas →
                L' = L.hcGrowHeap (registers.get 7) gas) := by
  intro _
  refine ⟨?_, fun settings L hgrown => ?_⟩
  · obtain ⟨m, hm, hsame, -⟩ := Same.init p.data
    exact ⟨m, hm, hsame.layout.symm⟩
  · obtain ⟨stop, hmapped, hle, hlimit⟩ := hgrown.mapped (initMemory_mapped p.data)
    refine ⟨stop, hle, hmapped, apart_of_le hlimit, heap_prefix hmapped hlimit,
      fun registers out => ?_⟩
    obtain ⟨out', L', hcall, hanswered⟩ := hcGrowHeap_mapped hmapped hle hlimit registers out
    refine ⟨out', L', hcall, hanswered, fun pg hpg hnot => ?_, fun hsettings gas hgas => ?_⟩
    · cases hanswered with
      | outOfGas _ _ hlayout =>
        rw [hlayout] at hpg
        exact absurd hpg hnot
      | resume stop' _ _ _ hmapped' hregisters =>
        rw [hmapped'.pagesW, Finset.mem_union] at hpg
        rw [hmapped.pagesW, Finset.mem_union, not_or] at hnot
        exact ⟨stop', hregisters, hpg.resolve_right hnot.2⟩
    · rw [hsettings] at hcall
      exact hcGrowHeap_layout registers L out hgas hcall

/-! ## A sample blob -/

/-- A stream that gives what was asked for or fails. -/
def sampleStream : ByteStream where
  Stream := Octets
  jamBytes data := data
  getNextBytes stream length :=
    if length ≤ stream.length then
      some (⟨stream.take length, List.length_take_le _ _⟩, stream.drop length)
    else none
  getRemainingLength stream := stream.length

/-- One octet of ROM, one for the heap with a page behind it, a stack of one octet and the code of a
trap. -/
def sampleBlob : Octets :=
  [1, 0, 0] ++ [1, 0, 0] ++ [1, 0] ++ [1, 0, 0] ++ [5] ++ [9] ++ [5, 0, 0, 0] ++ [0, 1, 1, 0, 1]

/-- The one code there is. -/
def sampleDeblob (code : Octets) : Option PVMCode := if code = [0, 1, 1, 0, 1] then some trapProgram else none

/-- The program of the blob, started with two octets. -/
def loadedProgram : PVMProgram :=
  (fromSerializedBytes sampleStream sampleDeblob sampleBlob [2, 3]).get (by decide +kernel)

/-- A request for the pages in front of a page. -/
def requestHeap (stop : ℕ) : Registers := (Vector.replicate 13 0).set 7 stop

/-- What is left of ten thousand units of gas. -/
def sampleOutput (gas : ℤ) : InvocationMutationOutput := ⟨.resume, gas, Vector.replicate 13 0⟩

/-- A call makes the pages up to the sixtieth writable and the next one is out of gas: the heap ends
there, its sections lie apart, and what a further call answers is no smaller. -/
theorem sampleBlob_apart : ∃ L,
    Grown .default (Graypaper.initMemory loadedProgram.data).toLayout L ∧
      L.Mapped loadedProgram.data 60 ∧ Apart loadedProgram.data 60 ∧
      ∀ (registers : Registers) (out : InvocationMutationOutput), ∃ out' L',
        hcGrowHeap .default registers L out = some (out', L') ∧
        HeapAnswered .default loadedProgram.data 60 L out out' L' := by
  set start := (Graypaper.initMemory loadedProgram.data).toLayout
  have hload : fromSerializedBytes sampleStream sampleDeblob sampleBlob [2, 3] = some loadedProgram :=
    (Option.some_get _).symm
  have hfirst : (hcGrowHeap .default (requestHeap 60) start (sampleOutput 10000)).any (fun first =>
      (hcGrowHeap .default (requestHeap 90) first.2 (sampleOutput 300)).any (fun second =>
        decide (second.1.exitCondition = .outOfGas ∧ 59 ∈ second.2.pagesW ∧ 60 ∉ second.2.pagesW))) =
      true := by
    decide +kernel
  obtain ⟨first, hgrow, hsecond⟩ := (Option.any_eq_true _ _).mp hfirst
  obtain ⟨second, hrefuse, hends⟩ := (Option.any_eq_true _ _).mp hsecond
  obtain ⟨-, hin, hout⟩ := of_decide_eq_true hends
  have hgrown : Grown .default start second.2 :=
    .call (.call .start _ _ first.1 hgrow) _ _ second.1 hrefuse
  obtain ⟨stop, -, hmapped, hapart, hprefix, hnext⟩ :=
    (heap_layout sampleStream sampleDeblob sampleBlob [2, 3] loadedProgram hload).2 .default _ hgrown
  have hpages : ∀ page, page ∈ loadedProgram.data.heapPages stop ↔
      page ∈ second.2.pagesW ∧ 48 ≤ page ∧ page < 1044416 := by
    intro page
    have hheap : loadedProgram.data.heapFirst = 48 := by decide +kernel
    have hlimit : heapLimit .default loadedProgram.data = 1044416 := by decide +kernel
    rw [← hprefix, Finset.mem_filter, hheap, hlimit]
  have hmem : ∀ page, page ∈ loadedProgram.data.heapPages stop ↔ 48 ≤ page ∧ page < stop :=
    fun page => Finset.mem_Ico
  have hstop : stop = 60 := by
    have h59 := (hmem 59).mp ((hpages 59).mpr ⟨hin, by decide, by decide⟩)
    have h60 : ¬ 60 < stop := fun hlt =>
      hout ((hpages 60).mp ((hmem 60).mpr ⟨by decide, hlt⟩)).1
    omega
  rw [hstop] at hmapped hapart hnext
  refine ⟨second.2, hgrown, hmapped, hapart, fun registers out => ?_⟩
  obtain ⟨out', L', hcall, hanswered, -⟩ := hnext registers out
  exact ⟨out', L', hcall, hanswered⟩

end HostCalls
