import Mathlib.Data.List.Nodup
import Mathlib.Tactic.Common

/-!
# Peeling a dependency graph

Items wait for keys, and an item can be listed when every key it waits for is listed.  Listing all such
items at once, in their order, and repeating this until nothing more can be listed gives an order by
layers.  `Layered` gives these layers, as a relation: it says nothing about how they are found, and
the graph may have cycles and keys that no item has.

Every key that a listed item waits for is listed before it (`Layered.waits_listed`), no key is listed
twice (`Layered.nodup`), and an item that stays unlisted waits for a key that is never listed
(`Layered.blocked`).  Dropping what is listed from the items and from what they wait for does not
change the order (`Layered.of_edit`).
-/

namespace Peeling

variable {α β κ : Type*} [BEq κ] [LawfulBEq κ]

/-- The items that are not listed and wait for listed keys only. -/
def nextLayer (key : α → κ) (waits : α → List κ) (items : List α) (listed : List κ) : List α :=
  items.filter (fun a => key a ∉ listed ∧ ∀ k ∈ waits a, k ∈ listed)

/-- The layers of what can be listed after some keys. -/
inductive Layered (key : α → κ) (waits : α → List κ) (items : List α) :
    List κ → List (List α) → Prop
  | done {listed : List κ} (h : nextLayer key waits items listed = []) :
      Layered key waits items listed []
  | layer {listed : List κ} {rest : List (List α)} (h : nextLayer key waits items listed ≠ [])
      (hrest : Layered key waits items
        (listed ++ (nextLayer key waits items listed).map key) rest) :
      Layered key waits items listed (nextLayer key waits items listed :: rest)

variable {key : α → κ} {waits : α → List κ} {items : List α} {listed : List κ}
  {layers : List (List α)}

lemma mem_nextLayer {a : α} : a ∈ nextLayer key waits items listed ↔
    a ∈ items ∧ key a ∉ listed ∧ ∀ k ∈ waits a, k ∈ listed := by
  rw [nextLayer, List.mem_filter, decide_eq_true_eq]

/-- A layer depends only on which keys are listed. -/
lemma nextLayer_congr {listed' : List κ} (h : ∀ k, k ∈ listed ↔ k ∈ listed') :
    nextLayer key waits items listed = nextLayer key waits items listed' := by
  simp only [nextLayer, h]

namespace Layered

lemma congr (horder : Layered key waits items listed layers) :
    ∀ {listed' : List κ}, (∀ k, k ∈ listed ↔ k ∈ listed') →
      Layered key waits items listed' layers := by
  induction horder with
  | done h =>
    intro listed' hiff
    rw [nextLayer_congr hiff] at h
    exact .done h
  | layer h _ ih =>
    intro listed' hiff
    have hlayer : nextLayer key waits items _ = nextLayer key waits items listed' :=
      nextLayer_congr hiff
    rw [hlayer] at h ih ⊢
    refine .layer h (ih (fun k => ?_))
    rw [List.mem_append, List.mem_append, hiff]

lemma mem_items (horder : Layered key waits items listed layers) {a : α} (ha : a ∈ layers.flatten) :
    a ∈ items ∧ key a ∉ listed := by
  induction horder with
  | done => exact absurd ha List.not_mem_nil
  | layer _ _ ih =>
    rw [List.flatten_cons] at ha
    rcases List.mem_append.mp ha with ha | ha
    · exact ⟨(mem_nextLayer.mp ha).1, (mem_nextLayer.mp ha).2.1⟩
    · exact ⟨(ih ha).1, fun hmem => (ih ha).2 (List.mem_append_left _ hmem)⟩

/-- What a listed item waits for is listed before it. -/
lemma waits_listed (horder : Layered key waits items listed layers) :
    ∀ {before after : List α} {a : α}, layers.flatten = before ++ a :: after →
      ∀ k ∈ waits a, k ∈ listed ∨ k ∈ before.map key := by
  induction horder with
  | done =>
    intro before after a h
    exact absurd h (by simp)
  | @layer listed rest hne _ ih =>
    intro before after a h k hk
    rw [List.flatten_cons] at h
    rcases List.append_eq_append_iff.mp h with ⟨mid, hbefore, hrest⟩ | ⟨mid, hlayer, hafter⟩
    · -- the item is behind the layer
      rw [hbefore, List.map_append, List.mem_append]
      rcases ih hrest k hk with hmem | hmem
      · exact (List.mem_append.mp hmem).imp id .inl
      · exact .inr (.inr hmem)
    · -- the item is in the layer, or the first one behind it
      cases mid with
      | nil =>
        rw [List.append_nil] at hlayer
        rcases ih (hafter.symm.trans (List.nil_append _).symm) k hk with hmem | hmem
        · rw [hlayer] at hmem
          exact List.mem_append.mp hmem
        · exact absurd hmem List.not_mem_nil
      | cons a' mid =>
        rw [List.cons_append, List.cons.injEq] at hafter
        have hmem : a ∈ nextLayer key waits items listed := by
          rw [hlayer, hafter.1]
          simp
        exact .inl ((mem_nextLayer.mp hmem).2.2 k hk)

/-- An item that is not listed waits for a key that is not listed. -/
lemma blocked (horder : Layered key waits items listed layers) {a : α} (ha : a ∈ items)
    (hkey : key a ∉ listed) (hnot : key a ∉ layers.flatten.map key) :
    ∃ k ∈ waits a, k ∉ listed ∧ k ∉ layers.flatten.map key := by
  induction horder with
  | @done listed h =>
    by_contra hall
    have hmem : a ∈ nextLayer key waits items listed := by
      refine mem_nextLayer.mpr ⟨ha, hkey, fun k hk => ?_⟩
      by_contra hk'
      exact hall ⟨k, hk, hk', List.not_mem_nil⟩
    rw [h] at hmem
    exact absurd hmem List.not_mem_nil
  | layer _ _ ih =>
    rw [List.flatten_cons, List.map_append, List.mem_append, not_or] at hnot
    obtain ⟨k, hk, hlisted, hrest⟩ := ih (by simp [hkey, hnot.1]) hnot.2
    rw [List.mem_append, not_or] at hlisted
    refine ⟨k, hk, hlisted.1, ?_⟩
    rw [List.flatten_cons, List.map_append, List.mem_append, not_or]
    exact ⟨hlisted.2, hrest⟩

/-- No key is listed twice. -/
lemma nodup (horder : Layered key waits items listed layers) (hitems : (items.map key).Nodup) :
    (layers.flatten.map key).Nodup := by
  induction horder with
  | done => exact List.nodup_nil
  | layer _ hrest ih =>
    rw [List.flatten_cons, List.map_append, List.nodup_append']
    refine ⟨hitems.sublist (List.filter_sublist.map key), ih, fun k hk hk' => ?_⟩
    obtain ⟨a, ha, rfl⟩ := List.mem_map.mp hk'
    exact (hrest.mem_items ha).2 (List.mem_append_right _ hk)

/-- Each layer is the next one after those before it. -/
lemma eq_nextLayer (horder : Layered key waits items listed layers) :
    ∀ {before after : List (List α)} {layer : List α}, layers = before ++ layer :: after →
      layer ≠ [] ∧ layer = nextLayer key waits items (listed ++ before.flatten.map key) := by
  induction horder with
  | done =>
    intro before after layer h
    exact absurd h (by simp)
  | @layer listed rest h _ ih =>
    intro before after layer hl
    cases before with
    | nil =>
      rw [List.nil_append, List.cons.injEq] at hl
      rw [← hl.1, List.flatten_nil, List.map_nil, List.append_nil]
      exact ⟨h, rfl⟩
    | cons first before =>
      rw [List.cons_append, List.cons.injEq] at hl
      have hnext := ih hl.2
      rwa [← hl.1, List.flatten_cons, List.map_append, ← List.append_assoc]

/-- The layers of the items from which the listed ones are dropped, with what they wait for, are the
layers of the items after what is listed. -/
lemma of_edit {key' : β → κ} {waits' : β → List κ} {f : α → β} {dropped listed : List κ}
    {layers : List (List β)} (hkey : ∀ a, key' (f a) = key a)
    (hwaits : ∀ a k, k ∈ waits' (f a) ↔ k ∈ waits a ∧ k ∉ dropped)
    (horder : Layered key' waits' ((items.filter (fun a => key a ∉ dropped)).map f) listed layers) :
    ∃ layers', Layered key waits items (dropped ++ listed) layers' ∧
      layers = layers'.map (List.map f) := by
  have hlayer : ∀ listed : List κ,
      nextLayer key' waits' ((items.filter (fun a => key a ∉ dropped)).map f) listed =
        (nextLayer key waits items (dropped ++ listed)).map f := by
    intro listed
    rw [nextLayer, nextLayer, List.filter_map, List.filter_filter]
    congr 1
    apply List.filter_congr
    intro a _
    rw [Bool.eq_iff_iff]
    simp only [Function.comp, Bool.and_eq_true, decide_eq_true_eq, hkey, hwaits, List.mem_append,
      not_or]
    constructor
    · rintro ⟨⟨hlisted, hall⟩, hdropped⟩
      refine ⟨⟨hdropped, hlisted⟩, fun k hk => ?_⟩
      by_cases hk' : k ∈ dropped
      · exact .inl hk'
      · exact .inr (hall k ⟨hk, hk'⟩)
    · rintro ⟨⟨hdropped, hlisted⟩, hall⟩
      exact ⟨⟨hlisted, fun k hk => (hall k hk.1).resolve_left hk.2⟩, hdropped⟩
  induction horder with
  | @done listed h =>
    rw [hlayer, List.map_eq_nil_iff] at h
    exact ⟨[], .done h, rfl⟩
  | @layer listed rest h _ ih =>
    obtain ⟨layers', horder', rfl⟩ := ih
    rw [hlayer] at h ⊢
    refine ⟨_, .layer (fun hnil => h (by rw [hnil]; rfl)) (horder'.congr (fun k => ?_)),
      (List.map_cons).symm⟩
    have hkeys : ((nextLayer key waits items (dropped ++ listed)).map f).map key' =
        (nextLayer key waits items (dropped ++ listed)).map key := by
      rw [List.map_map]
      exact List.map_congr_left (fun a _ => hkey a)
    rw [hlayer, hkeys, List.append_assoc]

end Layered

end Peeling
