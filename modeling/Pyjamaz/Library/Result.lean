import Mathlib.Algebra.Order.Ring.Int
import Mathlib.Data.List.Forall2

/-!
# Results with exceptions

`Except` models code that may raise.  Core states its monad laws for `pure`; the first two lemmas here
are the same facts for the constructors, and the inversion lemmas take computations that returned
apart: sequences, checks, and loops over lists.
-/

namespace Except

variable {ε α β γ : Type}

@[simp] theorem ok_bind (x : α) (f : α → Except ε β) : (Except.ok x >>= f) = f x := rfl

@[simp] theorem error_bind (e : ε) (f : α → Except ε β) :
    (Except.error e >>= f) = Except.error e := rfl

/-- A sequence returned: its first part did, and then the rest. -/
theorem bind_eq_ok {x : Except ε α} {f : α → Except ε β} {b : β} :
    x >>= f = .ok b ↔ ∃ a, x = .ok a ∧ f a = .ok b := by
  cases x with
  | ok a =>
    constructor
    · intro h
      exact ⟨a, rfl, h⟩
    · rintro ⟨a', ha', h⟩
      cases ha'
      exact h
  | error e =>
    constructor
    · intro h
      cases h
    · rintro ⟨a, ha, -⟩
      cases ha

/-- A result that is mapped comes from a result. -/
theorem map_eq_ok {x : Except ε α} {f : α → β} {b : β} :
    x.map f = .ok b ↔ ∃ a, x = .ok a ∧ f a = b := by
  cases x with
  | error e => simp [Except.map]
  | ok a => simp [Except.map]

/-- Naming an exception anew does not change what returns. -/
theorem mapError_eq_ok {ε' : Type} {x : Except ε α} {f : ε → ε'} {a : α} :
    x.mapError f = .ok a ↔ x = .ok a := by
  cases x with
  | ok b =>
    show (.ok b : Except ε' α) = .ok a ↔ _
    rw [ok.injEq, ok.injEq]
  | error e =>
    constructor <;> intro h <;> cases h

/-- `if condition: raise …` -/
def raiseIf (condition : Prop) [Decidable condition] (e : ε) : Except ε Unit :=
  if condition then .error e else .ok ()

/-- A check passed: its condition does not hold. -/
theorem raiseIf_eq_ok {condition : Prop} [Decidable condition] {e : ε} {u : Unit} :
    raiseIf condition e = .ok u ↔ ¬ condition := by
  unfold raiseIf
  by_cases h : condition
  · rw [if_pos h]
    exact iff_of_false (fun hraised => nomatch hraised) (not_not_intro h)
  · rw [if_neg h]
    exact iff_of_true rfl h

/-- What comes after a check. -/
theorem raiseIf_bind {condition : Prop} [Decidable condition] {e : ε} {f : Unit → Except ε β} :
    (raiseIf condition e >>= f) = if condition then .error e else f () := by
  unfold raiseIf
  by_cases h : condition
  · rw [if_pos h, if_pos h, error_bind]
  · rw [if_neg h, if_neg h, ok_bind]

/-- A loop over a list returned: so did every turn. -/
theorem forM_eq_ok {f : α → Except ε Unit} {xs : List α} (h : xs.forM f = .ok ()) :
    ∀ x ∈ xs, f x = .ok () := by
  induction xs with
  | nil =>
    intro x hx
    cases hx
  | cons y xs ih =>
    rw [List.forM, bind_eq_ok] at h
    obtain ⟨⟨⟩, hy, h⟩ := h
    intro x hx
    rcases List.mem_cons.mp hx with rfl | hx
    · exact hy
    · exact ih h x hx

/-- A loop of checks returns exactly when every check does. -/
theorem forM_eq_ok_iff {f : α → Except ε Unit} {xs : List α} :
    xs.forM f = .ok () ↔ ∀ x ∈ xs, f x = .ok () := by
  refine ⟨forM_eq_ok, fun h => ?_⟩
  induction xs with
  | nil => rfl
  | cons y xs ih =>
    rw [List.forM, h y List.mem_cons_self]
    exact ih (fun x hx => h x (List.mem_cons_of_mem _ hx))

/-- A list whose items were computed one after another: each of them returned. -/
theorem mapM_cons_eq_ok {f : α → Except ε β} {x : α} {xs : List α} {zs : List β} :
    (x :: xs).mapM f = .ok zs ↔
      ∃ y, f x = .ok y ∧ ∃ ys, xs.mapM f = .ok ys ∧ y :: ys = zs := by
  rw [List.mapM_cons, bind_eq_ok]
  refine exists_congr (fun y => and_congr_right fun _ => ?_)
  rw [bind_eq_ok]
  refine exists_congr (fun ys => and_congr_right fun _ => ?_)
  show (ok (y :: ys) : Except ε (List β)) = ok zs ↔ y :: ys = zs
  rw [ok.injEq]

/-- A list that was computed, item by item. -/
theorem mapM_eq_ok_iff {f : α → Except ε β} {xs : List α} {ys : List β} :
    xs.mapM f = .ok ys ↔ List.Forall₂ (fun x y => f x = .ok y) xs ys := by
  induction xs generalizing ys with
  | nil =>
    constructor
    · intro h
      cases h
      exact .nil
    · intro h
      cases h
      rfl
  | cons x xs ih =>
    rw [mapM_cons_eq_ok]
    constructor
    · rintro ⟨y, hy, rest, hrest, rfl⟩
      exact .cons hy (ih.mp hrest)
    · intro h
      cases h with
      | cons hy hrest => exact ⟨_, hy, _, ih.mpr hrest, rfl⟩

/-- A list whose items can be computed can be computed. -/
theorem exists_mapM_eq_ok {f : α → Except ε β} {xs : List α}
    (h : ∀ x ∈ xs, ∃ y, f x = .ok y) : ∃ ys, xs.mapM f = .ok ys := by
  induction xs with
  | nil => exact ⟨[], rfl⟩
  | cons x xs ih =>
    obtain ⟨y, hy⟩ := h x (List.mem_cons_self ..)
    obtain ⟨ys, hys⟩ := ih (fun x hx => h x (List.mem_cons_of_mem _ hx))
    exact ⟨y :: ys, mapM_cons_eq_ok.mpr ⟨y, hy, ys, hys, rfl⟩⟩

/-- Every item of a list that was computed comes from one it was computed of. -/
theorem exists_of_mem_mapM {f : α → Except ε β} {xs : List α} {ys : List β}
    (h : xs.mapM f = .ok ys) : ∀ y ∈ ys, ∃ x ∈ xs, f x = .ok y := by
  rw [mapM_eq_ok_iff] at h
  induction h with
  | nil =>
    intro y hy
    cases hy
  | cons hxy _ ih =>
    intro z hz
    rcases List.mem_cons.mp hz with rfl | hz
    · exact ⟨_, List.mem_cons_self .., hxy⟩
    · obtain ⟨x', hx', hz⟩ := ih z hz
      exact ⟨x', List.mem_cons_of_mem _ hx', hz⟩

/-- The size of a list that was computed, from a bound on each item. -/
theorem sum_mapM_le {f : α → Except ε β} {size : β → Nat} {bound : α → Nat} {xs : List α}
    {ys : List β} (hf : ∀ x ∈ xs, ∀ y, f x = .ok y → size y ≤ bound x) (h : xs.mapM f = .ok ys) :
    (ys.map size).sum ≤ (xs.map bound).sum := by
  rw [mapM_eq_ok_iff] at h
  induction h with
  | nil => exact Nat.zero_le _
  | cons hxy _ ih =>
    have hhead := hf _ (List.mem_cons_self ..) _ hxy
    have htail := ih (fun x hx => hf x (List.mem_cons_of_mem _ hx))
    rw [List.map_cons, List.sum_cons, List.map_cons, List.sum_cons]
    exact Nat.add_le_add hhead htail

/-- A list of lists, computed in one go or part by part. -/
theorem mapM_flatMap_eq_ok {f : α → Except ε β} {g : γ → List α} {xs : List γ} {ys : List β} :
    (xs.flatMap g).mapM f = .ok ys ↔
      ∃ parts, xs.mapM (fun x => (g x).mapM f) = .ok parts ∧ parts.flatten = ys := by
  induction xs generalizing ys with
  | nil =>
    constructor
    · intro h
      cases h
      exact ⟨[], rfl, rfl⟩
    · rintro ⟨parts, hparts, rfl⟩
      cases hparts
      rfl
  | cons x xs ih =>
    rw [List.flatMap_cons, List.mapM_append, bind_eq_ok]
    constructor
    · rintro ⟨part, hpart, h⟩
      obtain ⟨rest, hrest, hys⟩ := bind_eq_ok.mp h
      obtain ⟨parts, hparts, rfl⟩ := ih.mp hrest
      cases hys
      exact ⟨part :: parts, mapM_cons_eq_ok.mpr ⟨part, hpart, parts, hparts, rfl⟩, rfl⟩
    · rintro ⟨parts, hparts, rfl⟩
      obtain ⟨part, hpart, rest, hrest, rfl⟩ := mapM_cons_eq_ok.mp hparts
      exact ⟨part, hpart, bind_eq_ok.mpr ⟨rest.flatten, ih.mpr ⟨rest, hrest, rfl⟩, rfl⟩⟩

/-- A list that was computed and then mapped. -/
theorem mapM_map_eq_ok {f : α → Except ε β} {g : β → γ} {xs : List α} {zs : List γ} :
    xs.mapM (fun x => f x >>= fun y => pure (g y)) = .ok zs ↔
      ∃ ys, xs.mapM f = .ok ys ∧ ys.map g = zs := by
  simp only [mapM_eq_ok_iff]
  induction xs generalizing zs with
  | nil =>
    constructor
    · intro h
      cases h
      exact ⟨[], .nil, rfl⟩
    · rintro ⟨ys, hys, rfl⟩
      cases hys
      exact .nil
  | cons x xs ih =>
    constructor
    · intro h
      cases h with
      | cons hx hrest =>
        obtain ⟨y, hy, hz⟩ := bind_eq_ok.mp hx
        obtain ⟨ys, hys, rfl⟩ := ih.mp hrest
        cases hz
        exact ⟨y :: ys, .cons hy hys, rfl⟩
    · rintro ⟨ys, hys, rfl⟩
      cases hys with
      | cons hy hrest => exact .cons (bind_eq_ok.mpr ⟨_, hy, rfl⟩) (ih.mpr ⟨_, hrest, rfl⟩)

/-- A property that each step of a fold keeps and extends by the item it took. -/
theorem foldlM_induction {f : β → α → Except ε β} {P : List α → β → Prop} {xs : List α} {b c : β}
    (hstep : ∀ done b x b', x ∈ xs → P done b → f b x = .ok b' → P (done ++ [x]) b')
    (hb : P [] b) (h : xs.foldlM f b = .ok c) : P xs c := by
  have hrun : ∀ rest done b, (∀ x ∈ rest, x ∈ xs) → P done b → rest.foldlM f b = .ok c →
      P (done ++ rest) c := by
    intro rest
    induction rest with
    | nil =>
      intro done b _ hP h
      cases h
      rwa [List.append_nil]
    | cons x rest ih =>
      intro done b hmem hP h
      rw [List.foldlM_cons, bind_eq_ok] at h
      obtain ⟨b', hb', h⟩ := h
      have hP' := hstep done b x b' (hmem x (List.mem_cons_self ..)) hP hb'
      have := ih (done ++ [x]) b' (fun y hy => hmem y (List.mem_cons_of_mem x hy)) hP' h
      rwa [List.append_assoc, List.singleton_append] at this
  exact hrun xs [] b (fun x hx => hx) hb h

/-- A fold whose steps keep a property and return under it returns. -/
theorem exists_foldlM_eq_ok {f : β → α → Except ε β} {P : List α → β → Prop} {xs : List α} {b : β}
    (hstep : ∀ done b x, x ∈ xs → P done b → ∃ b', f b x = .ok b' ∧ P (done ++ [x]) b')
    (hb : P [] b) : ∃ c, xs.foldlM f b = .ok c := by
  have hrun : ∀ (rest done : List α) (b : β), (∀ x ∈ rest, x ∈ xs) → P done b →
      ∃ c, rest.foldlM f b = .ok c := by
    intro rest
    induction rest with
    | nil =>
      intro done b _ _
      exact ⟨b, rfl⟩
    | cons x rest ih =>
      intro done b hmem hP
      obtain ⟨b', hb', hP'⟩ := hstep done b x (hmem x (List.mem_cons_self ..)) hP
      obtain ⟨c, hc⟩ := ih _ b' (fun y hy => hmem y (List.mem_cons_of_mem x hy)) hP'
      exact ⟨c, by rw [List.foldlM_cons, hb', ok_bind, hc]⟩
  exact hrun xs [] b (fun x hx => hx) hb

/-- A fold raised: one of its steps did. -/
theorem exists_of_foldlM_eq_error {f : β → α → Except ε β} {xs : List α} {b : β} {e : ε}
    (h : xs.foldlM f b = .error e) : ∃ b', ∃ x ∈ xs, f b' x = .error e := by
  induction xs generalizing b with
  | nil => cases h
  | cons x xs ih =>
    rw [List.foldlM_cons] at h
    cases hx : f b x with
    | error e' =>
      rw [hx] at h
      cases h
      exact ⟨b, x, List.mem_cons_self .., hx⟩
    | ok b' =>
      rw [hx, ok_bind] at h
      obtain ⟨b'', y, hy, hraised⟩ := ih h
      exact ⟨b'', y, List.mem_cons_of_mem x hy, hraised⟩

/-- A list was not computed: one of its items was not. -/
theorem exists_of_mapM_eq_error {f : α → Except ε β} {xs : List α} {e : ε}
    (h : xs.mapM f = .error e) : ∃ x ∈ xs, f x = .error e := by
  induction xs with
  | nil => cases h
  | cons x xs ih =>
    rw [List.mapM_cons] at h
    cases hx : f x with
    | error e' =>
      rw [hx] at h
      cases h
      exact ⟨x, List.mem_cons_self .., hx⟩
    | ok y =>
      rw [hx, ok_bind] at h
      cases hxs : xs.mapM f with
      | error e' =>
        rw [hxs] at h
        cases h
        obtain ⟨z, hz, hraised⟩ := ih hxs
        exact ⟨z, List.mem_cons_of_mem x hz, hraised⟩
      | ok ys =>
        rw [hxs] at h
        cases h

end Except
