import Mathlib.Data.List.Nodup
import Mathlib.Data.List.Perm.Subperm
import Mathlib.Order.Nat
import Mathlib.Data.Nat.Notation
import Mathlib.Tactic.Common

/-!
# Walks along a chain of links

A partial function `next` sends a place to the one it is linked to.  `Walk next c l d` says that
following the links from the cursor `c` passes the places `l`, in this order, and then stands at the
cursor `d`; a cursor is `none` once a place without a link has been left.  As `next` is a function,
of two walks from one cursor one continues the other (`Walk.comparable`).

Links along which a rank decreases have no cycle: no walk passes a place twice
(`Walk.nodup`), and every walk can be continued to its end (`exists_walk_none`).
-/

namespace Links

variable {α : Type} {next next' : α → Option α}

/-- Following the links from one cursor to another, past the listed places. -/
inductive Walk (next : α → Option α) : Option α → List α → Option α → Prop
  | stop (c : Option α) : Walk next c [] c
  | move {a : α} {l : List α} {c : Option α} (h : Walk next (next a) l c) :
      Walk next (some a) (a :: l) c

/-- A place from which the links lead to another one, or the place itself. -/
def Reaches (next : α → Option α) (a b : α) : Prop := ∃ l, Walk next (some a) l (some b)

lemma Reaches.refl (next : α → Option α) (a : α) : Reaches next a a := ⟨[], .stop _⟩

namespace Walk

lemma of_none {l : List α} {c : Option α} (h : Walk next none l c) : l = [] ∧ c = none := by
  cases h
  exact ⟨rfl, rfl⟩

lemma of_nil {c d : Option α} (h : Walk next c [] d) : c = d := by
  cases h
  rfl

lemma of_cons {c d : Option α} {a : α} {l : List α} (h : Walk next c (a :: l) d) :
    c = some a ∧ Walk next (next a) l d := by
  cases h with
  | move h => exact ⟨rfl, h⟩

lemma append {c d e : Option α} {l l' : List α} (h : Walk next c l d) (h' : Walk next d l' e) :
    Walk next c (l ++ l') e := by
  induction h with
  | stop c => exact h'
  | move h ih => exact .move (ih h')

/-- Every place passed splits the walk. -/
lemma split {c d : Option α} {l : List α} (h : Walk next c l d) {a : α} (ha : a ∈ l) :
    ∃ l₁ l₂, l = l₁ ++ a :: l₂ ∧ Walk next c l₁ (some a) ∧ Walk next (some a) (a :: l₂) d := by
  induction h with
  | stop c => cases ha
  | @move b l c h ih =>
    by_cases hab : a = b
    · subst hab
      exact ⟨[], l, rfl, .stop _, .move h⟩
    · obtain ⟨l₁, l₂, hl, h₁, h₂⟩ := ih ((List.mem_cons.mp ha).resolve_left hab)
      refine ⟨b :: l₁, l₂, ?_, .move h₁, h₂⟩
      rw [hl, List.cons_append]

/-- Of two walks from one cursor, one continues the other. -/
lemma comparable {c d d' : Option α} {l l' : List α} (h : Walk next c l d)
    (h' : Walk next c l' d') :
    (∃ r, l' = l ++ r ∧ Walk next d r d') ∨ ∃ r, l = l' ++ r ∧ Walk next d' r d := by
  induction h generalizing l' with
  | stop c => exact .inl ⟨l', rfl, h'⟩
  | @move a l c h ih =>
    cases h' with
    | stop _ => exact .inr ⟨a :: l, rfl, .move h⟩
    | move h' =>
      rcases ih h' with ⟨r, rfl, hr⟩ | ⟨r, rfl, hr⟩
      · exact .inl ⟨r, rfl, hr⟩
      · exact .inr ⟨r, rfl, hr⟩

/-- Two walks from one cursor that end at the same place, not passed before, are the same. -/
lemma unique {c : Option α} {b : α} {l l' : List α} (h : Walk next c l (some b))
    (h' : Walk next c l' (some b)) (hb : b ∉ l) (hb' : b ∉ l') : l = l' := by
  rcases h.comparable h' with ⟨r, hl, hr⟩ | ⟨r, hl, hr⟩
  · cases hr with
    | stop _ => rw [hl, List.append_nil]
    | move hr => exact absurd (hl ▸ by simp) hb'
  · cases hr with
    | stop _ => rw [hl, List.append_nil]
    | move hr => exact absurd (hl ▸ by simp) hb

/-- Only the links of the places passed matter. -/
lemma congr {c d : Option α} {l : List α} (h : Walk next c l d)
    (hnext : ∀ a ∈ l, next' a = next a) : Walk next' c l d := by
  induction h with
  | stop c => exact .stop c
  | @move a l c h ih =>
    have ha : next' a = next a := hnext a List.mem_cons_self
    have hl := ih (fun b hb => hnext b (List.mem_cons_of_mem _ hb))
    rw [← ha] at hl
    exact .move hl

/-- All places passed but the last have a link. -/
lemma linked_dropLast {c d : Option α} {l : List α} (h : Walk next c l d) :
    ∀ a ∈ l.dropLast, next a ≠ none := by
  induction h with
  | stop c => nofun
  | @move b l c h ih =>
    cases l with
    | nil => nofun
    | cons a l =>
      intro x hx
      rw [List.dropLast_cons_of_ne_nil (List.cons_ne_nil a l)] at hx
      rcases List.mem_cons.mp hx with rfl | hx
      · rw [h.of_cons.1]
        exact Option.some_ne_none a
      · exact ih x hx

/-- A walk without repetition is not longer than a list of all linked places, by more than one. -/
lemma length_le {c d : Option α} {l keys : List α} (h : Walk next c l d) (hnodup : l.Nodup)
    (hkeys : ∀ a, next a ≠ none → a ∈ keys) : l.length ≤ keys.length + 1 := by
  have hsub : l.dropLast ⊆ keys := fun a ha => hkeys a (h.linked_dropLast a ha)
  have hdrop : l.dropLast.Nodup := hnodup.sublist l.dropLast_sublist
  have hlength := (hdrop.subperm hsub).length_le
  rw [List.length_dropLast] at hlength
  omega

end Walk

lemma Reaches.trans {a b c : α} (h : Reaches next a b) (h' : Reaches next b c) :
    Reaches next a c := by
  obtain ⟨l, hl⟩ := h
  obtain ⟨l', hl'⟩ := h'
  exact ⟨l ++ l', hl.append hl'⟩

lemma Reaches.eq_or_next {a b : α} (h : Reaches next a b) :
    a = b ∨ ∃ c, next a = some c ∧ Reaches next c b := by
  obtain ⟨l, hl⟩ := h
  cases hl with
  | stop _ => exact .inl rfl
  | @move _ l _ hl =>
    cases hnext : next a with
    | none =>
      rw [hnext] at hl
      cases hl.of_none.2
    | some c => exact .inr ⟨c, rfl, l, hnext ▸ hl⟩

lemma reaches_of_mem {a b : α} {l : List α} {c : Option α} (h : Walk next (some a) l c)
    (hb : b ∈ l) : Reaches next a b := by
  obtain ⟨l₁, -, -, h₁, -⟩ := h.split hb
  exact ⟨l₁, h₁⟩

/-! ## Links along which a rank decreases -/

/-- The rank decreases along every link. -/
def Ranked (next : α → Option α) (rank : α → ℕ) : Prop :=
  ∀ a b, next a = some b → rank b < rank a

variable {rank : α → ℕ}

/-- A walk does not come back to a rank it has left. -/
lemma Walk.rank_le (hrank : Ranked next rank) {c d : Option α} {l : List α} (h : Walk next c l d) :
    ∀ {a}, c = some a → (∀ b ∈ l, rank b ≤ rank a) ∧ (∀ b, d = some b → rank b ≤ rank a) := by
  induction h with
  | stop c =>
    intro a hc
    subst hc
    refine ⟨nofun, fun b hb => ?_⟩
    cases hb
    exact le_rfl
  | @move x l d h ih =>
    intro a hc
    cases hc
    cases hnext : next x with
    | none =>
      rw [hnext] at h
      obtain ⟨rfl, rfl⟩ := h.of_none
      refine ⟨fun b hb => ?_, nofun⟩
      cases List.mem_singleton.mp hb
      exact le_rfl
    | some y =>
      have hlt : rank y < rank x := hrank x y hnext
      obtain ⟨hmem, hlast⟩ := ih hnext
      refine ⟨fun b hb => ?_, fun b hb => (hlast b hb).trans hlt.le⟩
      rcases List.mem_cons.mp hb with rfl | hb
      · exact le_rfl
      · exact (hmem b hb).trans hlt.le

lemma Reaches.rank_le (hrank : Ranked next rank) {a b : α} (h : Reaches next a b) :
    rank b ≤ rank a := by
  obtain ⟨l, hl⟩ := h
  exact (hl.rank_le hrank rfl).2 b rfl

/-- Past its first place a walk is strictly below it. -/
lemma Walk.rank_lt (hrank : Ranked next rank) {a : α} {l : List α} {d : Option α}
    (h : Walk next (some a) (a :: l) d) :
    (∀ b ∈ l, rank b < rank a) ∧ ∀ b, d = some b → rank b < rank a := by
  have htail := h.of_cons.2
  cases hnext : next a with
  | none =>
    rw [hnext] at htail
    obtain ⟨rfl, rfl⟩ := htail.of_none
    exact ⟨nofun, nofun⟩
  | some y =>
    have hlt : rank y < rank a := hrank a y hnext
    obtain ⟨hmem, hlast⟩ := htail.rank_le hrank hnext
    exact ⟨fun b hb => (hmem b hb).trans_lt hlt, fun b hb => (hlast b hb).trans_lt hlt⟩

lemma Walk.nodup (hrank : Ranked next rank) {c d : Option α} {l : List α} (h : Walk next c l d) :
    l.Nodup := by
  induction h with
  | stop c => exact List.nodup_nil
  | move h ih =>
    refine List.nodup_cons.mpr ⟨fun ha => ?_, ih⟩
    exact absurd ((Walk.move h).rank_lt hrank |>.1 _ ha) (lt_irrefl _)

/-- A walk does not end at a place it has passed. -/
lemma Walk.not_mem_end (hrank : Ranked next rank) {c : Option α} {b : α} {l : List α}
    (h : Walk next c l (some b)) : b ∉ l := by
  intro hb
  obtain ⟨l₁, l₂, -, -, h₂⟩ := h.split hb
  exact absurd ((h₂.rank_lt hrank).2 b rfl) (lt_irrefl _)

/-- Two places that reach each other are one. -/
lemma Reaches.antisymm (hrank : Ranked next rank) {a b : α} (h : Reaches next a b)
    (h' : Reaches next b a) : a = b := by
  obtain ⟨l, hl⟩ := h
  cases hl with
  | stop _ => rfl
  | move hl =>
    have hlt := ((Walk.move hl).rank_lt hrank).2 b rfl
    exact absurd (h'.rank_le hrank) (not_le.mpr hlt)

/-- Every walk can be continued to its end. -/
lemma exists_walk_none (hrank : Ranked next rank) (c : Option α) : ∃ l, Walk next c l none := by
  cases c with
  | none => exact ⟨[], .stop _⟩
  | some a =>
    induction hn : rank a using Nat.strong_induction_on generalizing a with
    | _ n ih =>
      subst hn
      cases hnext : next a with
      | none => exact ⟨[a], .move (by rw [hnext]; exact .stop _)⟩
      | some b =>
        obtain ⟨l, hl⟩ := ih (rank b) (hrank a b hnext) b rfl
        exact ⟨a :: l, .move (by rw [hnext]; exact hl)⟩

/-- A new link from a place that the linked one does not reach keeps the links ranked. -/
lemma exists_ranked_update [DecidableEq α] (hrank : Ranked next rank) {a b : α}
    (h : ¬ Reaches next b a) (hnext : ∀ x, x ≠ a → next' x = next x ∨ next' x = none)
    (ha : next' a = some b) : ∃ rank', Ranked next' rank' := by
  classical
  refine ⟨fun x => rank x + if Reaches next x a then rank b + 1 else 0, ?_⟩
  intro x y hxy
  by_cases hx : x = a
  · subst hx
    cases ha.symm.trans hxy
    simp only [h, if_false, Reaches.refl, if_true]
    omega
  · have hlink : next x = some y := by
      rcases hnext x hx with heq | heq
      · exact heq ▸ hxy
      · cases heq.symm.trans hxy
    have hlt := hrank x y hlink
    by_cases hy : Reaches next y a
    · have hxa : Reaches next x a := by
        obtain ⟨l, hl⟩ := hy
        exact ⟨x :: l, .move (hlink ▸ hl)⟩
      simp only [hy, hxa, if_true]
      omega
    · simp only [hy, if_false]
      omega

/-- Fewer links are still ranked. -/
lemma Ranked.mono (hrank : Ranked next rank) (h : ∀ x, next' x = next x ∨ next' x = none) :
    Ranked next' rank := by
  intro x y hxy
  rcases h x with heq | heq
  · exact hrank x y (heq ▸ hxy)
  · cases heq.symm.trans hxy

end Links
