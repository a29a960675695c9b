import Mathlib.Data.Nat.Notation
import Mathlib.Logic.Relation
import Mathlib.Tactic.Common

/-!
# Loops

A loop is given by what one round does: it stops with a result, or goes on with another state.
`run` plays at most so many rounds.

Three rules cover what is usually wanted of a loop.  What every round keeps holds in every state that
is reached (`Reaches.of_kept`); a loop whose rounds use up a measure ends, once there are more rounds
than the measure allows (`run_isSome`); and two loops that stay in step have the same result
(`run_eq_of_lockstep`).
-/

namespace Iteration

/-- What one round of a loop does. -/
inductive Round (σ ρ : Type*) where
  | done (result : ρ)
  | next (state : σ)

variable {σ τ ρ : Type*}

/-- The loop, for at most `fuel` rounds. -/
def run (step : σ → Round σ ρ) : ℕ → σ → Option ρ
  | 0, _ => none
  | fuel + 1, s =>
    match step s with
    | .done result => some result
    | .next s => run step fuel s

/-- The state after a number of rounds, if the loop goes on for so long. -/
def after (step : σ → Round σ ρ) : ℕ → σ → Option σ
  | 0, s => some s
  | n + 1, s =>
    match step s with
    | .done _ => none
    | .next s => after step n s

/-- The states a loop gets to. -/
def Reaches (step : σ → Round σ ρ) : σ → σ → Prop :=
  Relation.ReflTransGen (fun s s' => step s = .next s')

lemma Reaches.of_after {step : σ → Round σ ρ} (n : ℕ) :
    ∀ {s s' : σ}, after step n s = some s' → Reaches step s s' := by
  induction n with
  | zero =>
    intro s s' h
    obtain rfl := Option.some.inj h
    exact .refl
  | succ n ih =>
    intro s s' h
    rw [after] at h
    cases hstep : step s with
    | done result =>
      rw [hstep] at h
      cases h
    | next s₁ =>
      rw [hstep] at h
      exact .head hstep (ih h)

/-- What every round keeps holds in every state that is reached. -/
lemma Reaches.of_kept {step : σ → Round σ ρ} {I : σ → Prop}
    (hkept : ∀ s s', I s → step s = .next s' → I s') {s s' : σ} (h : Reaches step s s')
    (hs : I s) : I s' := by
  induction h with
  | refl => exact hs
  | tail _ hstep ih => exact hkept _ _ ih hstep

/-- A loop whose rounds keep an invariant and use up a measure ends. -/
lemma run_isSome {step : σ → Round σ ρ} {I : σ → Prop} {μ : σ → ℕ}
    (hkept : ∀ s s', I s → step s = .next s' → I s')
    (hless : ∀ s s', I s → step s = .next s' → μ s' < μ s) (fuel : ℕ) :
    ∀ s, I s → μ s < fuel → (run step fuel s).isSome := by
  induction fuel with
  | zero =>
    intro s _ hfuel
    exact absurd hfuel (Nat.not_lt_zero _)
  | succ fuel ih =>
    intro s hs hfuel
    rw [run]
    cases hstep : step s with
    | done result => rfl
    | next s' =>
      have hlt := hless s s' hs hstep
      exact ih s' (hkept s s' hs hstep) (by omega)

/-- What a round that stops answers is what the loop answers. -/
lemma run_result {step : σ → Round σ ρ} {I : σ → Prop} {Q : ρ → Prop}
    (hkept : ∀ s s', I s → step s = .next s' → I s')
    (hdone : ∀ s result, I s → step s = .done result → Q result) (fuel : ℕ) :
    ∀ s result, I s → run step fuel s = some result → Q result := by
  induction fuel with
  | zero =>
    intro s result _ h
    cases h
  | succ fuel ih =>
    intro s result hs h
    rw [run] at h
    cases hstep : step s with
    | done result' =>
      rw [hstep] at h
      obtain rfl := Option.some.inj h
      exact hdone s result' hs hstep
    | next s' =>
      rw [hstep] at h
      exact ih s' result (hkept s s' hs hstep) h

/-- More rounds do not change a result. -/
lemma run_mono {step : σ → Round σ ρ} {fuel : ℕ} :
    ∀ {fuel' : ℕ} {s : σ} {result : ρ}, run step fuel s = some result → fuel ≤ fuel' →
      run step fuel' s = some result := by
  induction fuel with
  | zero =>
    intro fuel' s result h
    cases h
  | succ fuel ih =>
    intro fuel' s result h hle
    obtain ⟨more, rfl⟩ : ∃ n, fuel' = n + 1 := ⟨fuel' - 1, by omega⟩
    rw [run] at h ⊢
    cases hstep : step s with
    | done result' => rwa [hstep] at h
    | next s' =>
      rw [hstep] at h
      exact ih h (by omega)

/-- Rounds of two loops that stay in step. -/
inductive Lockstep (R : σ → τ → Prop) : Round σ ρ → Round τ ρ → Prop
  | done (result : ρ) : Lockstep R (.done result) (.done result)
  | next {s : σ} {t : τ} (h : R s t) : Lockstep R (.next s) (.next t)

/-- Two loops that stay in step have the same result. -/
lemma run_eq_of_lockstep {step : σ → Round σ ρ} {step' : τ → Round τ ρ} {R : σ → τ → Prop}
    (hsteps : ∀ s t, R s t → Lockstep R (step s) (step' t)) (fuel : ℕ) :
    ∀ s t, R s t → run step fuel s = run step' fuel t := by
  induction fuel with
  | zero =>
    intro s t _
    rfl
  | succ fuel ih =>
    intro s t hR
    have hround := hsteps s t hR
    rw [run, run]
    generalize step s = round at hround
    generalize step' t = round' at hround
    cases hround with
    | done result => rfl
    | next h => exact ih _ _ h

end Iteration
