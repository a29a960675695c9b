import Pyjamaz.Library.Peeling
import Pyjamaz.Pipeline.Queue

/-!
# The order of accumulation

`priority_queue` lists the entries that wait for nothing, takes them out of the queue and out of what
the others wait for, and calls itself with what is left.  Each call but the last one takes an entry from
the queue, also when packages wait for each other or for packages that nobody reported, so the calls
come to an end; but there is one for every layer of the dependency graph, and a chain of dependencies
can be longer than the recursion limit allows.

What the calls list are the layers (`PriorityCalls.layered`).  `accumulation_order` says for
`set_accumulatable_work_reports` what that means: if the layers are fewer than the nested calls, then
nothing is listed twice or before what it depends on, and what is left out depends on something that
is left out as well; and otherwise it raises.
-/

namespace Pipeline

open Accumulation Peeling

/-! ## Layers -/

/-- The package of an entry. -/
def QueueEntry.packageHash (e : QueueEntry) : Octets32 := e.report.packageHash

lemma unblocked_eq (queue : List QueueEntry) :
    unblocked queue = (nextLayer QueueEntry.packageHash QueueEntry.dependencies queue []).map
      QueueEntry.report := by
  rw [unblocked, nextLayer]
  congr 1
  apply List.filter_congr
  intro e _
  rw [Bool.eq_iff_iff, decide_eq_true_eq, decide_eq_true_eq, List.length_eq_zero_iff,
    List.eq_nil_iff_forall_not_mem]
  simp

lemma hashes_map_report (entries : List QueueEntry) :
    hashes (entries.map QueueEntry.report) = entries.map QueueEntry.packageHash := by
  rw [hashes, List.map_map]
  rfl

/-- The layers of an edited queue are the layers of the queue after the accumulated packages. -/
lemma layered_editQueue {queue : List QueueEntry} {accumulated listed : List Octets32}
    {layers : List (List QueueEntry)}
    (horder : Layered QueueEntry.packageHash QueueEntry.dependencies (editQueue queue accumulated)
      listed layers) :
    ∃ layers', Layered QueueEntry.packageHash QueueEntry.dependencies queue (accumulated ++ listed)
      layers' ∧
      layers.map (List.map QueueEntry.report) = layers'.map (List.map QueueEntry.report) := by
  have hedited : Layered QueueEntry.packageHash QueueEntry.dependencies
      ((queue.filter (fun e => e.packageHash ∉ accumulated)).map
        (fun e => ⟨e.report, remaining e.dependencies accumulated⟩)) listed layers := horder
  have hwaits : ∀ (e : QueueEntry) (d : Octets32),
      d ∈ QueueEntry.dependencies ⟨e.report, remaining e.dependencies accumulated⟩ ↔
        d ∈ e.dependencies ∧ d ∉ accumulated := fun e d => mem_remaining
  have hkey : ∀ e : QueueEntry,
      QueueEntry.packageHash ⟨e.report, remaining e.dependencies accumulated⟩ = e.packageHash :=
    fun _ => rfl
  obtain ⟨layers', horder', rfl⟩ := hedited.of_edit hkey hwaits
  refine ⟨layers', horder', ?_⟩
  rw [List.map_map]
  refine List.map_congr_left (fun layer _ => ?_)
  rw [Function.comp_apply, List.map_map]
  rfl

/-- The calls list the layers. -/
lemma PriorityCalls.layered {queue : List QueueEntry} {calls : List (List Report)}
    (h : PriorityCalls queue calls) :
    ∃ layers, Layered QueueEntry.packageHash QueueEntry.dependencies queue [] layers ∧
      calls = layers.map (List.map QueueEntry.report) := by
  induction h with
  | @stop queue h =>
    rw [List.length_eq_zero_iff, unblocked_eq, List.map_eq_nil_iff] at h
    exact ⟨[], .done h, rfl⟩
  | @call queue rest h _ ih =>
    obtain ⟨layers, horder, rfl⟩ := ih
    obtain ⟨layers', horder', hreports⟩ := layered_editQueue horder
    have hne : nextLayer QueueEntry.packageHash QueueEntry.dependencies queue [] ≠ [] := by
      intro hnil
      rw [unblocked_eq, hnil] at h
      exact h rfl
    refine ⟨_, .layer hne (horder'.congr (fun k => ?_)), ?_⟩
    · rw [List.append_nil, mem_workReportMapping, unblocked_eq, hashes_map_report, List.nil_append]
    · rw [List.map_cons, ← unblocked_eq, hreports]

/-! ## The reports to accumulate -/

/-- The packages that a report depends on. -/
def Report.dependencies (w : Report) : List Octets32 := w.prerequisites ++ w.segmentRootLookup.keys

lemma Report.dependencies_of_isReady {w : Report} (h : w.isReady = true) : w.dependencies = [] := by
  rw [Report.isReady, Bool.and_eq_true, decide_eq_true_eq, decide_eq_true_eq,
    List.length_eq_zero_iff, List.length_eq_zero_iff] at h
  rw [Report.dependencies, Dict.keys, h.1, h.2]
  rfl

/-- An entry that waits for the dependencies of its report which are not accumulated. -/
def QueueEntry.Exact (history : List (List Octets32)) (e : QueueEntry) : Prop :=
  ∀ d, d ∈ e.dependencies ↔ d ∈ e.report.dependencies ∧ d ∉ history.flatten

/-- The newly queued reports are entries like that. -/
lemma exact_queuedWorkReports (available : List Report) (history : List (List Octets32)) :
    ∀ e ∈ queuedWorkReports available history, e.Exact history := by
  intro e he d
  obtain ⟨e₀, he₀, -, rfl⟩ := mem_editQueue.mp he
  obtain ⟨w, -, rfl⟩ := List.mem_map.mp he₀
  rw [mem_remaining, workReportDependencies, mem_sortedHashes]
  rfl

/-- The list is the ready reports and the layers of the entries after them, if the nested calls are
enough. -/
lemma exists_layers (ready : List Report) (queued : List QueueEntry)
    (queue : List (List QueueEntry)) (m : ℕ) :
    ∃ layers, Layered QueueEntry.packageHash QueueEntry.dependencies (queueEntries queue queued m)
        (hashes ready) layers ∧
      ∀ depth, setAccumulatableWorkReports depth ready queued queue m =
        if layers.length < depth then .ok (ready ++ layers.flatten.map QueueEntry.report)
        else .error .recursionError := by
  obtain ⟨calls, hcalls, -⟩ :=
    exists_priorityCalls (editQueue (queueEntries queue queued m) (workReportMapping ready))
  obtain ⟨layers, horder, hlayers⟩ := hcalls.layered
  obtain ⟨layers', horder', heq⟩ := layered_editQueue horder
  refine ⟨layers', horder'.congr (fun k => ?_), fun depth => ?_⟩
  · rw [List.append_nil, mem_workReportMapping]
  · rw [heq] at hlayers
    rw [setAccumulatableWorkReports, hcalls.priorityQueue_eq, hlayers, List.length_map,
      ← List.map_flatten]
    split_ifs <;> rfl

/-- The reports of the entries that are not listed and wait for listed packages only, in the order of
the queue. -/
def dependencyLayer (entries : List QueueEntry) (listed : List Octets32) : List Report :=
  (nextLayer QueueEntry.packageHash QueueEntry.dependencies entries listed).map QueueEntry.report

/-- What the list of the reports to accumulate promises for the entries of the queue. -/
structure Ordered (history : List (List Octets32)) (ready : List Report) (entries : List QueueEntry)
    (list : List Report) : Prop where
  /-- no package is listed twice -/
  nodup : (hashes list).Nodup
  /-- the list goes on from the ready reports layer by layer -/
  layers : ∃ layers : List (List Report), list = ready ++ layers.flatten ∧
    ∀ (before after : List (List Report)) (layer : List Report),
      layers = before ++ layer :: after →
        layer ≠ [] ∧ layer = dependencyLayer entries (hashes (ready ++ before.flatten))
  /-- a dependency is accumulated, ready or listed before -/
  sound : (∀ e ∈ entries, e.Exact history) → ∀ (before after : List Report) (w : Report),
    list = before ++ w :: after → ∀ d ∈ w.dependencies,
      d ∈ history.flatten ∨ d ∈ hashes ready ∨ d ∈ hashes before
  /-- what is left out depends on a package that is none of these -/
  maximal : (∀ e ∈ entries, e.Exact history) → ∀ e ∈ entries, e.report ∉ list →
    ∃ d ∈ e.report.dependencies, d ∉ history.flatten ∧ d ∉ hashes ready ∧ d ∉ hashes list

section Order

variable {history : List (List Octets32)} {ready : List Report} {entries : List QueueEntry}
  {layers : List (List QueueEntry)}
  (horder : Layered QueueEntry.packageHash QueueEntry.dependencies entries (hashes ready) layers)
include horder

lemma nodup_of_layered (hdistinct : (hashes ready ++ entryHashes entries).Nodup) :
    (hashes (ready ++ layers.flatten.map QueueEntry.report)).Nodup := by
  rw [List.nodup_append'] at hdistinct
  rw [hashes_append, hashes_map_report, List.nodup_append']
  refine ⟨hdistinct.1, horder.nodup hdistinct.2.1, fun h hready hlisted => ?_⟩
  obtain ⟨e, he, rfl⟩ := List.mem_map.mp hlisted
  exact (horder.mem_items he).2 hready

lemma layers_of_layered : ∃ layers' : List (List Report),
    ready ++ layers.flatten.map QueueEntry.report = ready ++ layers'.flatten ∧
      ∀ (before after : List (List Report)) (layer : List Report),
        layers' = before ++ layer :: after →
          layer ≠ [] ∧ layer = dependencyLayer entries (hashes (ready ++ before.flatten)) := by
  refine ⟨layers.map (List.map QueueEntry.report), by rw [List.map_flatten], ?_⟩
  intro before after layer h
  obtain ⟨before', rest, rfl, rfl, hrest⟩ := List.map_eq_append_iff.mp h
  obtain ⟨layer', after', rfl, rfl, rfl⟩ := List.map_eq_cons_iff.mp hrest
  obtain ⟨hne, hlayer⟩ := horder.eq_nextLayer rfl
  refine ⟨fun hnil => hne (List.map_eq_nil_iff.mp hnil), ?_⟩
  rw [hashes_append, ← List.map_flatten, hashes_map_report, dependencyLayer, ← hlayer]

lemma sound_of_layered (hready : ∀ w ∈ ready, w.isReady = true)
    (hexact : ∀ e ∈ entries, e.Exact history) {before after : List Report} {w : Report}
    (h : ready ++ layers.flatten.map QueueEntry.report = before ++ w :: after) :
    ∀ d ∈ w.dependencies, d ∈ history.flatten ∨ d ∈ hashes ready ∨ d ∈ hashes before := by
  intro d hd
  -- a ready report depends on nothing
  have hnotReady : w ∉ ready := by
    intro hw
    rw [Report.dependencies_of_isReady (hready w hw)] at hd
    exact absurd hd List.not_mem_nil
  generalize hflatten : layers.flatten = order at h
  rcases List.append_eq_append_iff.mp h with ⟨mid, rfl, hlisted⟩ | ⟨mid, hbefore, hafter⟩
  · obtain ⟨before', rest, rfl, rfl, hrest⟩ := List.map_eq_append_iff.mp hlisted
    obtain ⟨e, after', rfl, rfl, rfl⟩ := List.map_eq_cons_iff.mp hrest
    by_cases hhistory : d ∈ history.flatten
    · exact .inl hhistory
    · have hmem := (horder.mem_items (a := e) (by rw [hflatten]; simp)).1
      rw [hashes_append, hashes_map_report, List.mem_append]
      rcases horder.waits_listed hflatten d ((hexact e hmem d).mpr ⟨hd, hhistory⟩) with hd | hd
      · exact .inr (.inl hd)
      · exact .inr (.inr (.inr hd))
  · cases mid with
    | nil =>
      obtain ⟨e, after', rfl, rfl, rfl⟩ := List.map_eq_cons_iff.mp hafter.symm
      by_cases hhistory : d ∈ history.flatten
      · exact .inl hhistory
      · have hmem := (horder.mem_items (a := e) (by rw [hflatten]; simp)).1
        rcases horder.waits_listed (hflatten.trans (List.nil_append (e :: after')).symm) d
          ((hexact e hmem d).mpr ⟨hd, hhistory⟩) with hd | hd
        · exact .inr (.inl hd)
        · exact absurd hd List.not_mem_nil
    | cons w' mid =>
      rw [List.cons_append, List.cons.injEq] at hafter
      rw [hbefore, hafter.1] at hnotReady
      exact absurd (by simp) hnotReady

lemma maximal_of_layered (hdistinct : (hashes ready ++ entryHashes entries).Nodup)
    (hexact : ∀ e ∈ entries, e.Exact history) {e : QueueEntry} (he : e ∈ entries)
    (hnot : e.report ∉ ready ++ layers.flatten.map QueueEntry.report) :
    ∃ d ∈ e.report.dependencies, d ∉ history.flatten ∧ d ∉ hashes ready ∧
      d ∉ hashes (ready ++ layers.flatten.map QueueEntry.report) := by
  rw [List.mem_append, not_or] at hnot
  rw [List.nodup_append'] at hdistinct
  have hmem : e.packageHash ∈ entryHashes entries := List.mem_map_of_mem he
  have hready : e.packageHash ∉ hashes ready := fun h => hdistinct.2.2 h hmem
  have hlisted : e.packageHash ∉ layers.flatten.map QueueEntry.packageHash := by
    intro h
    obtain ⟨e', he', heq⟩ := List.mem_map.mp h
    have hsame := List.inj_on_of_nodup_map hdistinct.2.1 (horder.mem_items he').1 he heq
    exact hnot.2 (List.mem_map.mpr ⟨e', he', by rw [hsame]⟩)
  obtain ⟨d, hd, hdready, hdlisted⟩ := horder.blocked he hready hlisted
  obtain ⟨hdep, hhistory⟩ := (hexact e he d).mp hd
  refine ⟨d, hdep, hhistory, hdready, ?_⟩
  rw [hashes_append, hashes_map_report, List.mem_append, not_or]
  exact ⟨hdready, hdlisted⟩

end Order

/-- For ready reports, a queue and newly queued reports with distinct packages, whose entries after the
ready reports have some layers of dependencies: the list of the reports to accumulate comes back
exactly if the layers are fewer than the nested calls that the recursion limit leaves.  It goes on from
the ready reports layer by layer, lists nothing twice or before what it depends on, and leaves out only
what depends on a package that is neither accumulated nor listed. -/
theorem accumulation_order (history : List (List Octets32)) (ready : List Report)
    (queue : List (List QueueEntry)) (queued : List QueueEntry) (m : ℕ)
    (hready : ∀ w ∈ ready, w.isReady = true)
    (hdistinct : (hashes ready ++ entryHashes (queueEntries queue queued m)).Nodup) :
    ∃ layers, Layered QueueEntry.packageHash QueueEntry.dependencies (queueEntries queue queued m)
        (hashes ready) layers ∧
      ∀ depth, ((∃ list, setAccumulatableWorkReports depth ready queued queue m = .ok list ∧
          Ordered history ready (queueEntries queue queued m) list) ↔ layers.length < depth) ∧
        (depth ≤ layers.length →
          setAccumulatableWorkReports depth ready queued queue m = .error .recursionError) := by
  obtain ⟨layers, horder, hlist⟩ := exists_layers ready queued queue m
  refine ⟨layers, horder, fun depth => ⟨⟨?_, fun hdepth => ?_⟩, fun hdepth => ?_⟩⟩
  · rintro ⟨list, hok, -⟩
    rw [hlist] at hok
    split_ifs at hok with hdepth
    exact hdepth
  · refine ⟨_, (hlist depth).trans (if_pos hdepth), ?_⟩
    exact
      { nodup := nodup_of_layered horder hdistinct
        layers := layers_of_layered horder
        sound := fun hexact before after w h => sound_of_layered horder hready hexact h
        maximal := fun hexact e he hnot => maximal_of_layered horder hdistinct hexact he hnot }
  · rw [hlist, if_neg (not_lt.mpr hdepth)]

/-- A report of a package that depends on packages. -/
def sampleDependent (package : UInt8) (prerequisites : List UInt8) : Report where
  packageHash := Vector.replicate 32 package
  exportsRoot := Vector.replicate 32 0
  authorizerHash := Vector.replicate 32 0
  authOutput := []
  results := []
  coreIndex := 0
  prerequisites := prerequisites.map (Vector.replicate 32)
  segmentRootLookup := ∅

/-- Package 3 waits for itself and package 4 for package 2, which is newly queued behind package 1. -/
def sampleQueue : List (List QueueEntry) :=
  [[workReportDependencies (sampleDependent 3 [3])], [workReportDependencies (sampleDependent 4 [2])]]

/-- Package 1 is ready, packages 2 and 4 follow in two layers, and package 3 is left out. -/
theorem sampleQueue_ordered : ∃ list,
    setAccumulatableWorkReports 3 [sampleDependent 1 []]
        [workReportDependencies (sampleDependent 2 [1])] sampleQueue 1 = .ok list ∧
      hashes list = [1, 2, 4].map (Vector.replicate 32) ∧
      Ordered [] [sampleDependent 1 []]
        (queueEntries sampleQueue [workReportDependencies (sampleDependent 2 [1])] 1) list := by
  obtain ⟨layers, -, hlist⟩ := accumulation_order [] [sampleDependent 1 []] sampleQueue
    [workReportDependencies (sampleDependent 2 [1])] 1 (by decide) (by decide)
  have hok : ∃ list, setAccumulatableWorkReports 3 [sampleDependent 1 []]
      [workReportDependencies (sampleDependent 2 [1])] sampleQueue 1 = .ok list ∧
        hashes list = [1, 2, 4].map (Vector.replicate 32) := ⟨_, rfl, by decide⟩
  obtain ⟨list, hok, hhashes⟩ := hok
  have hdepth : layers.length < 3 := by
    by_contra hle
    rw [(hlist 3).2 (not_lt.mp hle)] at hok
    cases hok
  obtain ⟨list', hok', hordered⟩ := (hlist 3).1.mpr hdepth
  obtain rfl := Except.ok.inj (hok.symm.trans hok')
  exact ⟨list, hok, hhashes, hordered⟩

/-! ## A chain of dependencies -/

lemma size_littleEndian_toArray (i : ℕ) : (Octets.littleEndian 32 i).toArray.size = 32 := by simp

/-- The packages of a chain, by their places in it. -/
def chainHash (i : ℕ) : Octets32 :=
  ⟨(Octets.littleEndian 32 i).toArray, size_littleEndian_toArray i⟩

lemma chainHash_inj {i j : ℕ} (hi : i < 2 ^ 256) (hj : j < 2 ^ 256) (h : chainHash i = chainHash j) :
    i = j := by
  have hbytes : Octets.littleEndian 32 i = Octets.littleEndian 32 j := by
    simpa [chainHash] using congrArg Vector.toList h
  exact Octets.littleEndian_inj (by omega) (by omega) hbytes

/-- The report of a package depends on the package before it. -/
def chainReport : ℕ → Report
  | 0 => { sampleDependent 0 [] with packageHash := chainHash 0 }
  | i + 1 =>
    { sampleDependent 0 [] with
      packageHash := chainHash (i + 1)
      prerequisites := [chainHash i] }

/-- The entries of the next `n` packages after package `i`. -/
def chain : ℕ → ℕ → List QueueEntry
  | _, 0 => []
  | i, n + 1 => workReportDependencies (chainReport (i + 1)) :: chain (i + 1) n

lemma packageHash_chainReport (i : ℕ) : (chainReport i).packageHash = chainHash i := by
  cases i <;> rfl

lemma mem_chain {n : ℕ} : ∀ {i : ℕ} {e : QueueEntry}, e ∈ chain i n →
    ∃ j, i < j ∧ j ≤ i + n ∧ e = ⟨chainReport j, [chainHash (j - 1)]⟩ := by
  induction n with
  | zero =>
    intro i e he
    exact absurd he List.not_mem_nil
  | succ n ih =>
    intro i e he
    rcases List.mem_cons.mp he with rfl | he
    · exact ⟨i + 1, Nat.lt_succ_self i, by omega, rfl⟩
    · obtain ⟨j, hlt, hle, rfl⟩ := ih he
      exact ⟨j, by omega, by omega, rfl⟩

lemma entryHashes_chain (n : ℕ) : ∀ i, entryHashes (chain i n) =
    (List.range' (i + 1) n).map chainHash := by
  induction n with
  | zero => exact fun i => rfl
  | succ n ih =>
    intro i
    rw [chain, List.range'_succ, List.map_cons, ← ih (i + 1)]
    rfl

/-- A package that the entries are not about and do not wait for changes nothing. -/
lemma editQueue_chain {i n : ℕ} (hn : i + n + 1 < 2 ^ 256) :
    editQueue (chain (i + 1) n) [chainHash i] = chain (i + 1) n := by
  have hother : ∀ j, i < j → j ≤ i + 1 + n → chainHash j ≠ chainHash i := by
    intro j hlt hle heq
    have hsame := chainHash_inj (by omega) (by omega) heq
    omega
  rw [editQueue, List.filter_eq_self.mpr]
  · refine (List.map_congr_left fun e he => ?_).trans (List.map_id _)
    obtain ⟨j, hlt, hle, rfl⟩ := mem_chain he
    have hwaits := hother (j - 1) (by omega) (by omega)
    simp [remaining, hwaits, sortedHashes]
  · intro e he
    obtain ⟨j, hlt, hle, rfl⟩ := mem_chain he
    have hkept := hother j (by omega) (by omega)
    simp [packageHash_chainReport, hkept]

/-- With the package before them, the entries lose what the first one waits for. -/
lemma editQueue_chain_succ {i n : ℕ} (hn : i + n + 1 < 2 ^ 256) :
    editQueue (chain i (n + 1)) [chainHash i] =
      ⟨chainReport (i + 1), []⟩ :: chain (i + 1) n := by
  have hne : chainHash (i + 1) ≠ chainHash i := by
    intro heq
    have hsame := chainHash_inj (by omega) (by omega) heq
    omega
  have hfirst : editQueue [workReportDependencies (chainReport (i + 1))] [chainHash i] =
      [⟨chainReport (i + 1), []⟩] := by
    simp [editQueue, workReportDependencies, hne, chainReport, remaining, sortedHashes,
      sampleDependent, Dict.keys]
  have hsplit : editQueue (chain i (n + 1)) [chainHash i] =
      editQueue [workReportDependencies (chainReport (i + 1))] [chainHash i] ++
        editQueue (chain (i + 1) n) [chainHash i] := by
    rw [chain, ← List.singleton_append, editQueue, List.filter_append, List.map_append]
    rfl
  rw [hsplit, hfirst, editQueue_chain hn]
  rfl

/-- Each call lists one entry of the chain. -/
lemma priorityQueue_chain (depth : ℕ) : ∀ {i n : ℕ}, i + n + 1 < 2 ^ 256 → depth ≤ n + 1 →
    priorityQueue depth (⟨chainReport (i + 1), []⟩ :: chain (i + 1) n) =
      .error .recursionError := by
  induction depth with
  | zero =>
    intro i n _ _
    rfl
  | succ depth ih =>
    intro i n hn hle
    have hunblocked : unblocked (⟨chainReport (i + 1), []⟩ :: chain (i + 1) n) =
        [chainReport (i + 1)] := by
      have hwait : (chain (i + 1) n).filter (fun e => e.dependencies.length = 0) = [] := by
        rw [List.filter_eq_nil_iff]
        intro e he
        obtain ⟨j, -, -, rfl⟩ := mem_chain he
        simp
      rw [unblocked, List.filter_cons_of_pos (by simp), hwait]
      rfl
    have hmapping : workReportMapping [chainReport (i + 1)] = [chainHash (i + 1)] := rfl
    have hedit : editQueue (⟨chainReport (i + 1), []⟩ :: chain (i + 1) n) [chainHash (i + 1)] =
        editQueue (chain (i + 1) n) [chainHash (i + 1)] := by
      rw [editQueue, List.filter_cons_of_neg (by simp [packageHash_chainReport])]
      rfl
    rw [priorityQueue, hunblocked, if_neg (by simp), hmapping, hedit]
    cases n with
    | zero =>
      have hdepth : depth = 0 := by omega
      subst hdepth
      rfl
    | succ n =>
      rw [editQueue_chain_succ (by omega), ih (by omega) (by omega)]
      rfl

/-- A thousand packages that depend on each other one by one, the first one on a ready package, exhaust
a thousand nested calls. -/
theorem chain_not_returned :
    (∀ w ∈ [chainReport 0], w.isReady = true) ∧
      (hashes [chainReport 0] ++ entryHashes (queueEntries [chain 0 1000] [] 0)).Nodup ∧
      setAccumulatableWorkReports 1000 [chainReport 0] [] [chain 0 1000] 0 =
        .error .recursionError := by
  have hentries : queueEntries [chain 0 1000] [] 0 = chain 0 1000 := by
    simp [queueEntries]
  refine ⟨by simp [chainReport, Report.isReady, sampleDependent], ?_, ?_⟩
  · have hhashes : hashes [chainReport 0] ++ entryHashes (chain 0 1000) =
        (List.range 1001).map chainHash := by
      rw [entryHashes_chain, List.range_eq_range', List.range'_succ, List.map_cons]
      rfl
    rw [hentries, hhashes]
    refine List.Nodup.map_on (fun i hi j hj heq => ?_) List.nodup_range
    rw [List.mem_range] at hi hj
    exact chainHash_inj (by omega) (by omega) heq
  · have hmapping : workReportMapping [chainReport 0] = [chainHash 0] := rfl
    rw [setAccumulatableWorkReports, hentries, hmapping, editQueue_chain_succ (by norm_num),
      priorityQueue_chain 1000 (by norm_num) le_rfl]
    rfl

end Pipeline
