import Mathlib.Data.List.Forall2
import Pyjamaz.Pvm.BlockGasRuns
import Pyjamaz.Pvm.Interpreter

/-!
# Deleting retired entries makes no difference

The simulation and its unpruned version go through their rounds side by side.  At any moment the
buffer without pruning is a front of retired entries, as many as objects were deleted, followed by
entries that match those of the pruned buffer.  Only the dependencies may differ, and only on the
front: without pruning, later instructions still come to depend on retired entries.  These have no
cycles left, so what an entry waits for is the same.
-/

namespace Pvm

namespace BlockGas

/-! ## Matching entries -/

/-- An entry of the pruned buffer and its counterpart, when `n` objects were deleted. -/
structure EntryMatches (n : ℕ) (e e' : Entry) : Prop where
  state : e'.state = e.state
  cyclesLeft : e'.cyclesLeft = e.cyclesLeft
  registers : e'.registers = e.registers
  units : e'.units = e.units
  dependencies : ∀ d, n ≤ d → (d ∈ e'.dependencies ↔ d ∈ e.dependencies)

lemma EntryMatches.mono {n m : ℕ} (hle : n ≤ m) {e e' : Entry} (h : EntryMatches n e e') :
    EntryMatches m e e' :=
  ⟨h.1, h.2, h.3, h.4, fun d hd => h.5 d (hle.trans hd)⟩

lemma EntryMatches.rename {n : ℕ} {e e' : Entry} (h : EntryMatches n e e')
    (sources destinations : RegMask) :
    EntryMatches n (e.rename sources destinations) (e'.rename sources destinations) :=
  ⟨h.1, h.2, by simp only [Entry.rename, h.registers], h.4, h.5⟩

lemma EntryMatches.clobber {n : ℕ} {e e' : Entry} (h : EntryMatches n e e')
    (destinations : RegMask) : EntryMatches n (e.clobber destinations) (e'.clobber destinations) :=
  ⟨h.1, h.2, by simp only [Entry.clobber, h.registers], h.4, h.5⟩

lemma EntryMatches.begin {n : ℕ} {e e' : Entry} (h : EntryMatches n e e') :
    EntryMatches n e.begin e'.begin :=
  ⟨rfl, h.2, h.3, h.4, fun _ _ => Iff.rfl⟩

lemma EntryMatches.tick {n : ℕ} {e e' : Entry} (h : EntryMatches n e e') :
    EntryMatches n e.tick e'.tick := by
  obtain ⟨state, cyclesLeft, dependencies, registers, units, pc⟩ := e
  obtain ⟨state', cyclesLeft', dependencies', registers', units', pc'⟩ := e'
  obtain ⟨hstate, hcycles, hregisters, hunits, hdeps⟩ := h
  simp only at hstate hcycles hregisters hunits
  subst hstate hcycles hregisters hunits
  cases state' with
  | exe =>
    simp only [Entry.tick]
    split <;> exact ⟨rfl, rfl, rfl, rfl, hdeps⟩
  | dec | wait | fin | retired => exact ⟨rfl, rfl, rfl, rfl, hdeps⟩

lemma EntryMatches.released {n : ℕ} {e e' : Entry} (h : EntryMatches n e e') (i : Fin 5) :
    e'.released i = e.released i := by
  rw [Entry.released, Entry.released, h.state, h.cyclesLeft, h.units]

/-! ## Matching lists -/

section Forall₂

variable {α β : Type*} {R : α → β → Prop} {l : List α} {l' : List β}

lemma forall₂_getElem? (h : List.Forall₂ R l l') (i : ℕ) :
    (l[i]? = none ∧ l'[i]? = none) ∨ ∃ a b, l[i]? = some a ∧ l'[i]? = some b ∧ R a b := by
  induction h generalizing i with
  | nil => exact Or.inl ⟨rfl, rfl⟩
  | @cons a b l l' hab _ ih =>
    cases i with
    | zero => exact Or.inr ⟨a, b, rfl, rfl, hab⟩
    | succ i => exact ih i

lemma forall₂_exists_left (h : List.Forall₂ R l l') {b : β} (hb : b ∈ l') : ∃ a ∈ l, R a b := by
  induction h with
  | nil => cases hb
  | @cons a b' l l' hab _ ih =>
    rcases List.mem_cons.mp hb with rfl | hb
    · exact ⟨a, List.mem_cons_self, hab⟩
    · obtain ⟨a', ha', hR⟩ := ih hb
      exact ⟨a', List.mem_cons_of_mem _ ha', hR⟩

lemma forall₂_map_eq {γ : Type*} (h : List.Forall₂ R l l') {f : α → γ} {g : β → γ}
    (hfg : ∀ a b, R a b → g b = f a) : l'.map g = l.map f := by
  induction h with
  | nil => rfl
  | cons hab _ ih => rw [List.map_cons, List.map_cons, hfg _ _ hab, ih]

lemma forall₂_takeWhile_dropWhile (h : List.Forall₂ R l l') {p : α → Bool} {q : β → Bool}
    (hpq : ∀ a b, a ∈ l → R a b → q b = p a) :
    List.Forall₂ R (l.takeWhile p) (l'.takeWhile q) ∧
      List.Forall₂ R (l.dropWhile p) (l'.dropWhile q) := by
  induction h with
  | nil => exact ⟨.nil, .nil⟩
  | @cons a b l l' hab hrest ih =>
    have hhead := hpq a b List.mem_cons_self hab
    obtain ⟨htake, hdrop⟩ := ih (fun a b ha => hpq a b (List.mem_cons_of_mem _ ha))
    cases hp : p a with
    | true =>
      rw [hp] at hhead
      rw [List.takeWhile_cons_of_pos hp, List.takeWhile_cons_of_pos hhead,
        List.dropWhile_cons_of_pos hp, List.dropWhile_cons_of_pos hhead]
      exact ⟨.cons hab htake, hdrop⟩
    | false =>
      rw [hp] at hhead
      rw [List.takeWhile_cons_of_neg (by simp [hp]), List.takeWhile_cons_of_neg (by simp [hhead]),
        List.dropWhile_cons_of_neg (by simp [hp]), List.dropWhile_cons_of_neg (by simp [hhead])]
      exact ⟨.nil, .cons hab hrest⟩

end Forall₂

/-- The entries a new entry depends on. -/
lemma mem_dependenciesOf {first : ℕ} {rob : List Entry} {sources : RegMask} {d : ℕ} :
    d ∈ dependenciesOf first rob sources ↔
      ∃ i e, rob[i]? = some e ∧ d = first + i ∧ e.registers &&& sources ≠ 0 := by
  simp only [dependenciesOf, List.mem_map, List.mem_filter, decide_eq_true_iff]
  constructor
  · rintro ⟨⟨e, d⟩, ⟨hmem, hholds⟩, rfl⟩
    obtain ⟨hle, hlt, heq⟩ := List.mem_zipIdx hmem
    refine ⟨d - first, e, ?_, by omega, hholds⟩
    rw [List.getElem?_eq_getElem (by omega), heq]
  · rintro ⟨i, e, hget, rfl, hholds⟩
    refine ⟨(e, first + i), ⟨?_, hholds⟩, rfl⟩
    exact List.mk_add_mem_zipIdx_iff_getElem?.mpr hget

/-! ## Matching machines -/

/-- The buffers with and without pruning. -/
structure BuffersMatch (removed rob dead live : List Entry) : Prop where
  length_eq : dead.length = removed.length
  dead_done : ∀ e ∈ dead, e.state = .retired ∧ e.cyclesLeft = 0
  matching : List.Forall₂ (EntryMatches removed.length) rob live

/-- The simulation and its unpruned version after the same rounds. -/
structure Matches (s : Simulation) (u : Unpruned) : Prop where
  pc : u.pc = s.pc
  cycles : u.cycles = s.cycles
  decodeSlots : u.decodeSlots = s.decodeSlots
  startsLeft : u.startsLeft = s.startsLeft
  units : u.units = s.units
  buffers : ∃ dead live, u.rob = dead ++ live ∧ BuffersMatch s.removed s.rob dead live

section Buffers

variable {removed rob dead live : List Entry}

lemma BuffersMatch.map (h : BuffersMatch removed rob dead live) {f : Entry → Entry}
    (hf : KeepsButRegisters f)
    (hmatch : ∀ e e', EntryMatches removed.length e e' → EntryMatches removed.length (f e) (f e')) :
    BuffersMatch removed (rob.map f) (dead.map f) (live.map f) := by
  refine ⟨by rw [List.length_map, h.length_eq], ?_, ?_⟩
  · intro e he
    obtain ⟨e', he', rfl⟩ := List.mem_map.mp he
    rw [hf e']
    exact h.dead_done e' he'
  · rw [List.forall₂_map_left_iff, List.forall₂_map_right_iff]
    exact h.matching.imp hmatch

/-- The new entry matches: what it depends on beyond the deleted objects is the same. -/
lemma BuffersMatch.entry (h : BuffersMatch removed rob dead live) (x : Instruction) :
    EntryMatches removed.length (x.entry removed.length rob) (x.entry 0 (dead ++ live)) := by
  refine ⟨rfl, rfl, rfl, rfl, fun d hd => ?_⟩
  simp only [Instruction.entry, mem_dependenciesOf, Nat.zero_add]
  constructor
  · rintro ⟨i, e', hget, rfl, hholds⟩
    rw [List.getElem?_append_right (by rw [h.length_eq]; exact hd), h.length_eq] at hget
    rcases forall₂_getElem? h.matching (d - removed.length) with ⟨-, hnone⟩ |
      ⟨e, e'', hget', hget'', hmatch⟩
    · rw [hnone] at hget
      cases hget
    · rw [hget''] at hget
      obtain rfl := Option.some.inj hget
      exact ⟨_, e, hget', by omega, by rw [← hmatch.registers]; exact hholds⟩
  · rintro ⟨i, e, hget, rfl, hholds⟩
    rcases forall₂_getElem? h.matching i with ⟨hnone, -⟩ | ⟨e₁, e', hget', hget'', hmatch⟩
    · rw [hnone] at hget
      cases hget
    · rw [hget'] at hget
      obtain rfl := Option.some.inj hget
      refine ⟨_, e', ?_, rfl, by rw [hmatch.registers]; exact hholds⟩
      rw [List.getElem?_append_right (by rw [h.length_eq]; omega), h.length_eq,
        Nat.add_sub_cancel_left]
      exact hget''

/-- Decoding keeps the buffers matching. -/
lemma BuffersMatch.into (h : BuffersMatch removed rob dead live) (x : Instruction) :
    ∃ dead' live', x.into 0 (dead ++ live) = dead' ++ live' ∧
      BuffersMatch removed (x.into removed.length rob) dead' live' := by
  rw [Instruction.into, Instruction.into]
  cases x.isMove with
  | true =>
    exact ⟨_, _, List.map_append, h.map (keepsButRegisters_rename _ _)
      (fun _ _ hmatch => hmatch.rename _ _)⟩
  | false =>
    have hmapped := h.map (keepsButRegisters_clobber x.destinations)
      (fun _ _ hmatch => hmatch.clobber _)
    refine ⟨_, live.map (Entry.clobber x.destinations) ++ [x.entry 0 (dead ++ live)], ?_,
      hmapped.1, hmapped.2, ?_⟩
    · simp only [Bool.false_eq_true, if_false, List.map_append, List.append_assoc]
    · exact List.rel_append hmapped.3 (.cons (h.entry x) .nil)

/-- An object has the same cycles left in both. -/
lemma BuffersMatch.cyclesOf_eq (h : BuffersMatch removed rob dead live)
    (hdone : ∀ e ∈ removed, e.cyclesLeft = 0) (d : ℕ) :
    cyclesOf (dead ++ live) d = cyclesOf (removed ++ rob) d := by
  rw [cyclesOf, cyclesOf]
  by_cases hd : d < removed.length
  · have hd' : d < dead.length := by rw [h.length_eq]; exact hd
    rw [List.getElem?_append_left hd, List.getElem?_append_left hd', List.getElem?_eq_getElem hd,
      List.getElem?_eq_getElem hd']
    exact ((h.dead_done _ (List.getElem_mem hd')).2).trans (hdone _ (List.getElem_mem hd)).symm
  · rw [List.getElem?_append_right (not_lt.mp hd),
      List.getElem?_append_right (by rw [h.length_eq]; exact not_lt.mp hd), h.length_eq]
    rcases forall₂_getElem? h.matching (d - removed.length) with ⟨hnone, hnone'⟩ |
      ⟨e, e', hget, hget', hmatch⟩
    · rw [hnone, hnone']
    · rw [hget, hget']
      exact hmatch.cyclesLeft

/-- Matching entries are ready at the same time. -/
lemma BuffersMatch.isReady_eq (h : BuffersMatch removed rob dead live)
    (hdone : ∀ e ∈ removed, e.cyclesLeft = 0) (units : Units) {e e' : Entry}
    (hmatch : EntryMatches removed.length e e') :
    e'.isReady (dead ++ live) units = e.isReady (removed ++ rob) units := by
  have hgone : ∀ d, d < removed.length → cyclesOf (removed ++ rob) d = 0 := by
    intro d hd
    rw [cyclesOf, List.getElem?_append_left hd, List.getElem?_eq_getElem hd]
    exact hdone _ (List.getElem_mem hd)
  have hdeps : (∀ d ∈ e'.dependencies, cyclesOf (dead ++ live) d = 0) ↔
      ∀ d ∈ e.dependencies, cyclesOf (removed ++ rob) d = 0 := by
    simp only [h.cyclesOf_eq hdone]
    constructor
    · intro hall d hd
      by_cases hlt : d < removed.length
      · exact hgone d hlt
      · exact hall d ((hmatch.dependencies d (not_lt.mp hlt)).mpr hd)
    · intro hall d hd
      by_cases hlt : d < removed.length
      · exact hgone d hlt
      · exact hall d ((hmatch.dependencies d (not_lt.mp hlt)).mp hd)
  rw [Bool.eq_iff_iff, Entry.isReady_iff, Entry.isReady_iff, hmatch.state, hmatch.units, hdeps]

/-- A retired entry is never ready. -/
lemma BuffersMatch.dead_not_ready (h : BuffersMatch removed rob dead live) (entries : List Entry)
    (units : Units) : ∀ e ∈ dead, (!e.isReady entries units) = true := by
  intro e he
  simp [Entry.isReady, (h.dead_done e he).1]

/-- The same entry starts in both. -/
lemma BuffersMatch.startIn (h : BuffersMatch removed rob dead live)
    (hdone : ∀ e ∈ removed, e.cyclesLeft = 0) (units : Units) :
    (BlockGas.startIn (removed ++ rob) units rob = none ∧
      BlockGas.startIn (dead ++ live) units (dead ++ live) = none) ∨
    ∃ e e' rob' live', BlockGas.startIn (removed ++ rob) units rob = some (e, rob') ∧
      BlockGas.startIn (dead ++ live) units (dead ++ live) = some (e', dead ++ live') ∧
      e'.units = e.units ∧ BuffersMatch removed rob' dead live' := by
  have hsplit := forall₂_takeWhile_dropWhile h.matching
    (p := fun e => !e.isReady (removed ++ rob) units)
    (q := fun e => !e.isReady (dead ++ live) units)
    (fun e e' _ hmatch => by rw [h.isReady_eq hdone units hmatch])
  have hdead := h.dead_not_ready (dead ++ live) units
  rw [BlockGas.startIn, BlockGas.startIn, List.dropWhile_append_of_pos hdead,
    List.takeWhile_append_of_pos hdead]
  obtain ⟨htake, hdrop⟩ := hsplit
  generalize rob.dropWhile (fun e => !e.isReady (removed ++ rob) units) = rest at hdrop
  generalize live.dropWhile (fun e => !e.isReady (dead ++ live) units) = rest' at hdrop
  cases hdrop with
  | nil => exact Or.inl ⟨rfl, rfl⟩
  | @cons e e' later later' hmatch hlater =>
    refine Or.inr ⟨e, e', _, live.takeWhile (fun e => !e.isReady (dead ++ live) units) ++
      e'.begin :: later', rfl, ?_, hmatch.units, h.1, h.2, ?_⟩
    · simp only [List.append_assoc]
    · exact List.rel_append htake (.cons hmatch.begin hlater)

/-- The entries that retire are those that are over without pruning, the front apart. -/
lemma BuffersMatch.retire (h : BuffersMatch removed rob dead live)
    (hsound : ∀ e ∈ rob, e.Sound) :
    (dead ++ live).takeWhile Entry.isOver = dead ++ live.takeWhile Entry.isOver ∧
      (dead ++ live).dropWhile Entry.isOver = live.dropWhile Entry.isOver ∧
      List.Forall₂ (EntryMatches removed.length) (rob.takeWhile (fun e => e.state = .fin))
        (live.takeWhile Entry.isOver) ∧
      List.Forall₂ (EntryMatches removed.length) (rob.dropWhile (fun e => e.state = .fin))
        (live.dropWhile Entry.isOver) := by
  have hdead : ∀ e ∈ dead, e.isOver = true := by
    intro e he
    simp [Entry.isOver, (h.dead_done e he).1]
  have hsplit := forall₂_takeWhile_dropWhile h.matching
    (p := fun e => e.state = .fin) (q := Entry.isOver) (by
      intro e e' he hmatch
      have hlive := (hsound e he).not_retired
      simp [Entry.isOver, hmatch.state, hlive])
  exact ⟨List.takeWhile_append_of_pos hdead, List.dropWhile_append_of_pos hdead, hsplit⟩

end Buffers

/-! ## Lockstep -/

lemma Matches.live {s : Simulation} {u : Unpruned} (h : Matches s u)
    (hsound : ∀ e ∈ s.rob, e.Sound) : u.live.length = s.rob.length := by
  obtain ⟨dead, live, hrob, hbuffers⟩ := h.buffers
  have hdead : dead.filter (fun e => e.state ≠ .retired) = [] := by
    rw [List.filter_eq_nil_iff]
    intro e he
    simp [(hbuffers.dead_done e he).1]
  have hlive : live.filter (fun e => e.state ≠ .retired) = live := by
    rw [List.filter_eq_self]
    intro e' he'
    obtain ⟨e, he, hmatch⟩ := forall₂_exists_left hbuffers.matching he'
    simpa [hmatch.state] using (hsound e he).not_retired
  rw [Unpruned.live, hrob, List.filter_append, hdead, hlive, List.nil_append,
    hbuffers.matching.length_eq]

lemma Matches.tick {s : Simulation} {u : Unpruned} (h : Matches s u)
    (hsound : ∀ e ∈ s.rob, e.Sound) : Matches s.tick u.tick := by
  obtain ⟨dead, live, hrob, hbuffers⟩ := h.buffers
  obtain ⟨hover, hrest, htake, hdrop⟩ := hbuffers.retire hsound
  rw [← hrob] at hover hrest
  refine ⟨h.pc, ?_, rfl, rfl, ?_, ?_⟩
  · simp only [Unpruned.tick, Simulation.tick, h.cycles]
  · funext i
    have hsame := forall₂_map_eq hdrop (f := fun e => e.released i) (g := fun e => e.released i)
      (fun e e' hmatch => hmatch.released i)
    simp only [Unpruned.tick, Simulation.tick, h.units, hrest, hsame]
  · refine ⟨(dead ++ live.takeWhile Entry.isOver).map (fun e => { e with state := .retired }),
      (live.dropWhile Entry.isOver).map Entry.tick, ?_, ?_, ?_, ?_⟩
    · simp only [Unpruned.tick, hover, hrest]
    · rw [List.length_map, List.length_append, hbuffers.length_eq, ← htake.length_eq]
      exact (List.length_append).symm
    · intro e he
      obtain ⟨e', he', rfl⟩ := List.mem_map.mp he
      refine ⟨rfl, ?_⟩
      rcases List.mem_append.mp he' with he' | he'
      · exact (hbuffers.dead_done e' he').2
      · obtain ⟨e, he, hmatch⟩ := forall₂_exists_left htake he'
        have hin : e ∈ s.rob := (List.takeWhile_prefix _).subset he
        exact hmatch.cyclesLeft.trans ((hsound e hin).fin_done ((retire_split s.rob).2 e he))
    · simp only [Simulation.tick, List.forall₂_map_left_iff, List.forall₂_map_right_iff]
      exact hdrop.imp (fun e e' hmatch => hmatch.tick.mono (by simp))

/-- Decoding does the same in both. -/
lemma Matches.tryDecode {s : Simulation} {u : Unpruned} (h : Matches s u)
    (hsound : ∀ e ∈ s.rob, e.Sound) (code : List UInt8) (positions : List (ℕ × ℕ))
    (polkavmCmov : Bool) :
    (∃ e, s.tryDecode code positions polkavmCmov = .error e ∧
      u.tryDecode code positions polkavmCmov = .error e) ∨
    (s.tryDecode code positions polkavmCmov = .ok none ∧
      u.tryDecode code positions polkavmCmov = .ok none) ∨
    ∃ s' u', s.tryDecode code positions polkavmCmov = .ok (some s') ∧
      u.tryDecode code positions polkavmCmov = .ok (some u') ∧ Matches s' u' := by
  rw [Simulation.tryDecode, Unpruned.tryDecode, h.pc, h.live hsound, h.decodeSlots]
  cases hpc : s.pc with
  | none => exact Or.inr (Or.inl ⟨rfl, rfl⟩)
  | some pc =>
    simp only
    split
    · cases readInstruction code positions polkavmCmov pc with
      | error e => exact Or.inl ⟨e, rfl, rfl⟩
      | ok x =>
        simp only [Except.map]
        split
        · obtain ⟨dead, live, hrob, hbuffers⟩ := h.buffers
          refine Or.inr (Or.inr ⟨_, _, rfl, rfl, rfl, h.cycles, rfl, h.startsLeft, h.units, ?_⟩)
          simp only [hrob]
          exact hbuffers.into x
        · exact Or.inr (Or.inl ⟨rfl, rfl⟩)
    · exact Or.inr (Or.inl ⟨rfl, rfl⟩)

/-- So does starting an entry. -/
lemma Matches.tryStart {s : Simulation} {u : Unpruned} (h : Matches s u)
    (hdone : ∀ e ∈ s.removed, e.cyclesLeft = 0) :
    (s.tryStart = none ∧ u.tryStart = none) ∨
      ∃ s' u', s.tryStart = some s' ∧ u.tryStart = some u' ∧ Matches s' u' := by
  obtain ⟨dead, live, hrob, hbuffers⟩ := h.buffers
  rw [Simulation.tryStart, Unpruned.tryStart, h.startsLeft, h.units, hrob, Simulation.objects]
  split
  · exact Or.inl ⟨rfl, rfl⟩
  · rcases hbuffers.startIn hdone s.units with ⟨hnone, hnone'⟩ |
      ⟨e, e', rob', live', hsome, hsome', hunits, hbuffers'⟩
    · rw [hnone, hnone']
      exact Or.inl ⟨rfl, rfl⟩
    · rw [hsome, hsome']
      refine Or.inr ⟨_, _, rfl, rfl, h.pc, h.cycles, h.decodeSlots, rfl, ?_, dead, live', rfl,
        hbuffers'⟩
      simp only [hunits]

/-- One round of both. -/
lemma Matches.step {s : Simulation} {u : Unpruned} (h : Matches s u)
    (hbuffer : Buffer s.removed s.rob) (code : List UInt8) (positions : List (ℕ × ℕ))
    (polkavmCmov : Bool) :
    Iteration.Lockstep Matches (s.step code positions polkavmCmov)
      (u.step code positions polkavmCmov) := by
  rw [Simulation.step, Unpruned.step]
  rcases h.tryDecode hbuffer.sound code positions polkavmCmov with ⟨e, herror, herror'⟩ |
    ⟨hnone, hnone'⟩ | ⟨s', u', hsome, hsome', hmatch⟩
  · rw [herror, herror']
    exact .done _
  · rw [hnone, hnone']
    rcases h.tryStart hbuffer.removed_done with ⟨hidle, hidle'⟩ | ⟨s', u', hsome, hsome', hmatch⟩
    · have hempty : u.live = [] ↔ s.rob = [] := by
        rw [← List.length_eq_zero_iff, ← List.length_eq_zero_iff, h.live hbuffer.sound]
      rw [hidle, hidle', h.cycles]
      simp only
      by_cases hover : s.pc = none ∧ s.rob = []
      · rw [if_pos hover, if_pos ⟨h.pc.trans hover.1, hempty.mpr hover.2⟩]
        exact .done _
      · rw [if_neg hover, if_neg (fun hover' => hover ⟨h.pc.symm.trans hover'.1,
          hempty.mp hover'.2⟩)]
        exact .next (h.tick hbuffer.sound)
    · rw [hsome, hsome']
      exact .next hmatch
  · rw [hsome, hsome']
    exact .next hmatch

/-- Without pruning the price of a block is the same. -/
lemma calculateBlockGas_unpruned {p : PVMCode} (hvalid : p.valid = true) (polkavmCmov : Bool)
    {start : ℕ} (hstart : (p.instArgLen start).isSome) (fuel : ℕ) :
    calculateBlockGas p.code (decodeInstructions p.code p.opcodeBitmask).1 polkavmCmov start fuel =
      calculateBlockGasUnpruned p.code (decodeInstructions p.code p.opcodeBitmask).1 polkavmCmov
        start fuel := by
  rw [calculateBlockGas, calculateBlockGasUnpruned]
  split
  · rfl
  · apply Iteration.run_eq_of_lockstep (R := fun s u => Inv p s ∧ Matches s u)
    · rintro s u ⟨hinv, hmatch⟩
      have hround := hmatch.step hinv.buffer p.code
        (decodeInstructions p.code p.opcodeBitmask).1 polkavmCmov
      generalize u.step p.code (decodeInstructions p.code p.opcodeBitmask).1 polkavmCmov = round
        at hround ⊢
      rcases hinv.step hvalid polkavmCmov with ⟨gas, -, hstep⟩ | ⟨s', hstep, hinv', -, -⟩
      · rw [hstep] at hround ⊢
        cases hround with
        | done _ => exact .done _
      · rw [hstep] at hround ⊢
        cases hround with
        | next hmatch' => exact .next ⟨hinv', hmatch'⟩
    · refine ⟨inv_initial hstart, rfl, rfl, rfl, rfl, rfl, [], [], rfl, rfl, by simp, .nil⟩

/-! ## The price of a block -/

/-- The machine stays within its means: no unit, decoding slot or start is overdrawn, what is free
and what is held is what there is, and at most 32 entries are in the buffer, which follow the deleted
ones in the order of the program. -/
structure WithinMeans (s : Simulation) : Prop where
  units_nonneg : ∀ i, 0 ≤ s.units i
  balance : ∀ i, s.units i +
    ((s.rob.filter (fun e => e.state = .exe ∧ 1 ≤ e.cyclesLeft)).map (fun e => e.units i)).sum =
      Units.capacity i
  decodeSlots_nonneg : 0 ≤ s.decodeSlots
  startsLeft_nonneg : 0 ≤ s.startsLeft
  length_le : s.rob.length ≤ 32
  ordered : ((s.removed ++ s.rob).map Entry.pc).Pairwise (· < ·)

lemma heldBy_eq_filter (rob : List Entry) (i : Fin 5) :
    heldBy rob i =
      ((rob.filter (fun e => e.state = .exe ∧ 1 ≤ e.cyclesLeft)).map (fun e => e.units i)).sum := by
  induction rob with
  | nil => rfl
  | cons e rob ih =>
    rw [heldBy_cons, Entry.held, List.filter_cons]
    split
    · next h =>
      rw [if_pos (by simpa using h), List.map_cons, List.sum_cons, ih]
    · next h =>
      rw [if_neg (by simpa using h), zero_add, ih]

lemma Inv.withinMeans {p : PVMCode} {s : Simulation} (h : Inv p s) : WithinMeans s where
  units_nonneg := h.units_nonneg
  balance := fun i => by rw [← heldBy_eq_filter]; exact h.balance i
  decodeSlots_nonneg := h.decodeSlots.1
  startsLeft_nonneg := h.startsLeft.1
  length_le := h.length_le
  ordered := h.buffer.ordered

/-- One deletion: the objects that retire are the first in the buffer. -/
lemma Inv.retires {p : PVMCode} (hvalid : p.valid = true) (polkavmCmov : Bool) {s s' : Simulation}
    (h : Inv p s)
    (hstep : s.step p.code (decodeInstructions p.code p.opcodeBitmask).1 polkavmCmov = .next s') :
    Inv p s' ∧ roundsLeft p s' < roundsLeft p s ∧
      ∃ retired, s'.removed = s.removed ++ retired ∧ retired <+: s.rob := by
  rcases h.step hvalid polkavmCmov with ⟨gas, -, hdone⟩ | ⟨s₁, hnext, hinv, hless, hretired⟩
  · rw [hdone] at hstep
    cases hstep
  · rw [hnext] at hstep
    cases hstep
    exact ⟨hinv, hless, hretired⟩

/-- With enough rounds the simulation of a block of valid code ends, with and without pruning. -/
lemma exists_gas {p : PVMCode} (hvalid : p.valid = true) (polkavmCmov : Bool) {start : ℕ}
    (hstart : (p.instArgLen start).isSome) :
    ∃ gas, 1 ≤ gas ∧ ∀ fuel, 200 * (p.code.length + 1) ≤ fuel →
      calculateBlockGas p.code (decodeInstructions p.code p.opcodeBitmask).1 polkavmCmov start fuel =
        some (.ok gas) ∧
      calculateBlockGasUnpruned p.code (decodeInstructions p.code p.opcodeBitmask).1 polkavmCmov
        start fuel = some (.ok gas) := by
  have hrounds : roundsLeft p (Simulation.initial start) < 200 * (p.code.length + 1) := by
    have hinitial : roundsLeft p (Simulation.initial start) = (p.code.length - start) * 200 := rfl
    rw [hinitial]
    omega
  have hnot : ¬ ((decodeInstructions p.code p.opcodeBitmask).1.lookup start).isNone = true := by
    rw [PVMCode.instArgLen] at hstart
    simpa using hstart
  have hkept : ∀ s s', Inv p s →
      s.step p.code (decodeInstructions p.code p.opcodeBitmask).1 polkavmCmov = .next s' →
      Inv p s' := fun s s' hinv hstep => (hinv.retires hvalid polkavmCmov hstep).1
  have hends := Iteration.run_isSome hkept
    (fun s s' hinv hstep => (hinv.retires hvalid polkavmCmov hstep).2.1)
    (200 * (p.code.length + 1)) _ (inv_initial hstart) hrounds
  obtain ⟨result, hrun⟩ := Option.isSome_iff_exists.mp hends
  have hresult := Iteration.run_result (Q := fun result => ∃ gas, 1 ≤ gas ∧ result = .ok gas) hkept
    (by
      intro s result hinv hdone
      rcases hinv.step hvalid polkavmCmov with ⟨gas, hone, hstep⟩ | ⟨s', hstep, -⟩
      · rw [hstep] at hdone
        cases hdone
        exact ⟨gas, hone, rfl⟩
      · rw [hstep] at hdone
        cases hdone) _ _ result (inv_initial hstart) hrun
  obtain ⟨gas, hone, rfl⟩ := hresult
  refine ⟨gas, hone, fun fuel hfuel => ?_⟩
  have hfound : calculateBlockGas p.code (decodeInstructions p.code p.opcodeBitmask).1 polkavmCmov
      start fuel = some (.ok gas) := by
    rw [calculateBlockGas, if_neg hnot]
    exact Iteration.run_mono hrun hfuel
  exact ⟨hfound, by rw [← calculateBlockGas_unpruned hvalid polkavmCmov hstart, hfound]⟩

/-- The price of every block of valid code is found, is at least one and is the price without
pruning; and on the way to it the machine stays within its means and retires its entries in the order
of the program. -/
theorem block_has_price (p : PVMCode) (hvalid : p.valid = true) (polkavmCmov : Bool) {start : ℕ}
    (hstart : start ∈ p.basicBlockStarts) :
    (∃ gas, 1 ≤ gas ∧ ∀ fuel, 200 * (p.code.length + 1) ≤ fuel →
      calculateBlockGas p.code (decodeInstructions p.code p.opcodeBitmask).1 polkavmCmov start fuel =
        some (.ok gas) ∧
      calculateBlockGasUnpruned p.code (decodeInstructions p.code p.opcodeBitmask).1 polkavmCmov
        start fuel = some (.ok gas)) ∧
    ∀ s, Iteration.Reaches
        (Simulation.step p.code (decodeInstructions p.code p.opcodeBitmask).1 polkavmCmov)
        (Simulation.initial start) s →
      WithinMeans s ∧
      ∀ s', s.step p.code (decodeInstructions p.code p.opcodeBitmask).1 polkavmCmov = .next s' →
        ∃ retired, s'.removed = s.removed ++ retired ∧ retired <+: s.rob := by
  have hsome := p.isSome_of_mem_basicBlockStarts hstart
  refine ⟨exists_gas hvalid polkavmCmov hsome, fun s hreach => ?_⟩
  have hinv : Inv p s := hreach.of_kept
    (fun s s' hinv hstep => (hinv.retires hvalid polkavmCmov hstep).1) (inv_initial hsome)
  exact ⟨hinv.withinMeans, fun s' hstep => (hinv.retires hvalid polkavmCmov hstep).2.2⟩

/-- An addition and a trap. -/
def addTrap : PVMCode where
  code := [200, 0x10, 2, 0]
  opcodeBitmask := [true, false, false, true]
  jumpTable := []
  code_length_le := by decide
  jumpTable_length_le := nil_length_le

/-- The price of a block is found within so many rounds. -/
theorem addTrap_has_price :
    ∃ gas, 1 ≤ gas ∧
      calculateBlockGas addTrap.code (decodeInstructions addTrap.code addTrap.opcodeBitmask).1 false 0
        1000 = some (.ok gas) := by
  have hvalid : addTrap.valid = true := by decide
  have hstart : 0 ∈ addTrap.basicBlockStarts := addTrap.zero_mem_basicBlockStarts hvalid
  obtain ⟨⟨gas, hone, hfound⟩, -⟩ := block_has_price addTrap hvalid false hstart
  exact ⟨gas, hone, (hfound 1000 (by decide)).1⟩

/-- In its last cycle the addition still executes and has given its unit back: the free units and
those of all executing entries are one more than there are. -/
theorem addTrap_releases_early :
    addTrap.valid = true ∧ 0 ∈ addTrap.basicBlockStarts ∧
      ∃ s, Iteration.Reaches
          (Simulation.step addTrap.code (decodeInstructions addTrap.code addTrap.opcodeBitmask).1
            false) (Simulation.initial 0) s ∧
        s.units 0 + ((s.rob.filter (fun e => e.state = .exe)).map (fun e => e.units 0)).sum ≠
          Units.capacity 0 := by
  have hvalid : addTrap.valid = true := by decide
  refine ⟨hvalid, addTrap.zero_mem_basicBlockStarts hvalid, ?_⟩
  have hsix : ∃ s, Iteration.after
      (Simulation.step addTrap.code (decodeInstructions addTrap.code addTrap.opcodeBitmask).1 false) 6
      (Simulation.initial 0) = some s ∧
      s.units 0 + ((s.rob.filter (fun e => e.state = .exe)).map (fun e => e.units 0)).sum ≠
        Units.capacity 0 := by
    refine ⟨_, rfl, ?_⟩
    decide
  obtain ⟨s, hafter, hover⟩ := hsix
  exact ⟨s, .of_after 6 hafter, hover⟩

end BlockGas

/-- `GasModel` of a program, as the interpreters build it: the prices of its blocks. -/
def PVMCode.gasModel (p : PVMCode) : GasModel where
  computeBlockGasCost start :=
    match BlockGas.calculateBlockGas p.code (decodeInstructions p.code p.opcodeBitmask).1 false start
        (200 * (p.code.length + 1)) with
    | some (.ok gas) => max gas 1
    | _ => 1
  one_le_cost start := by
    split
    · exact le_max_right _ _
    · exact le_rfl

lemma PVMCode.gasModel_cost {p : PVMCode} (hvalid : p.valid = true) {start : ℕ}
    (hstart : start ∈ p.basicBlockStarts) {fuel : ℕ} (hfuel : 200 * (p.code.length + 1) ≤ fuel) :
    BlockGas.calculateBlockGas p.code (decodeInstructions p.code p.opcodeBitmask).1 false start fuel =
      some (.ok (p.gasModel.computeBlockGasCost start)) := by
  obtain ⟨gas, hone, hfound⟩ :=
    BlockGas.exists_gas hvalid false (p.isSome_of_mem_basicBlockStarts hstart)
  rw [(hfound fuel hfuel).1, PVMCode.gasModel]
  simp only [(hfound _ le_rfl).1, max_eq_left hone]

/-- The price of a block is what the simulation finds. -/
lemma PVMCode.gasModel_eq {p : PVMCode} (hvalid : p.valid = true) {start : ℕ}
    (hstart : start ∈ p.basicBlockStarts) {fuel gas : ℕ} (hfuel : 200 * (p.code.length + 1) ≤ fuel)
    (h : BlockGas.calculateBlockGas p.code (decodeInstructions p.code p.opcodeBitmask).1 false start
      fuel = some (.ok gas)) : p.gasModel.computeBlockGasCost start = gas := by
  have hcost := PVMCode.gasModel_cost hvalid hstart hfuel
  rw [h] at hcost
  exact (Except.ok.inj (Option.some.inj hcost)).symm

end Pvm
