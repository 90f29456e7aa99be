import Mathlib.Data.List.Basic

/-!
# CLib.Loop

Loops that may not end. A loop is given by its body: from a state, one round emits some events and
either goes on in another state or ends with a result.

* `Steps` — finitely many rounds that all go on, with the events they emit.
* `Exec`  — a loop that ends: its events and its result.

Rules: `Exec.deterministic`, `Exec.split` (every `Steps` path is the beginning of the run),
`Exec.final` (it has a last round), `Steps.linear` (of two paths one goes on from the other),
`Steps.observe` (the same path under another observation), `Steps.invariant`,
`Steps.invariant_log` (the same with the events so far) and `not_exec_of_invariant` (a set of states
that no round leaves, and in which no round ends the loop, gives divergence).
-/

namespace CLib

inductive Round (σ ρ : Type) where
  | next (s : σ)
  | done (r : ρ)
  deriving DecidableEq

section Loop

variable {σ ε ρ : Type} (round : σ → List ε × Round σ ρ)

inductive Steps : σ → List ε → σ → Prop where
  | refl {s : σ} : Steps s [] s
  | cons {s s' s'' : σ} {t t' : List ε} :
      round s = (t, .next s') → Steps s' t' s'' → Steps s (t ++ t') s''

inductive Exec : σ → List ε → ρ → Prop where
  | done {s : σ} {t : List ε} {r : ρ} : round s = (t, .done r) → Exec s t r
  | next {s s' : σ} {t t' : List ε} {r : ρ} :
      round s = (t, .next s') → Exec s' t' r → Exec s (t ++ t') r

variable {round}

theorem Steps.trans {s s' s'' : σ} {t t' : List ε} (h₁ : Steps round s t s')
    (h₂ : Steps round s' t' s'') : Steps round s (t ++ t') s'' := by
  induction h₁ with
  | refl => exact h₂
  | cons h _ ih =>
    rw [List.append_assoc]
    exact .cons h (ih h₂)

theorem Steps.snoc {s s' s'' : σ} {t t' : List ε} (h : Steps round s t s')
    (hr : round s' = (t', .next s'')) : Steps round s (t ++ t') s'' := by
  have hone : Steps round s' (t' ++ []) s'' := .cons hr .refl
  rw [List.append_nil] at hone
  exact h.trans hone

theorem Exec.of_steps {s s' : σ} {t t' : List ε} {r : ρ} (hs : Steps round s t s')
    (he : Exec round s' t' r) : Exec round s (t ++ t') r := by
  induction hs with
  | refl => exact he
  | cons h _ ih =>
    rw [List.append_assoc]
    exact .next h (ih he)

/-- Only the first round looks at the initial state. -/
theorem Exec.congr {s s' : σ} {t : List ε} {r : ρ} (h : round s = round s')
    (he : Exec round s t r) : Exec round s' t r := by
  cases he with
  | done hs => exact .done (h ▸ hs)
  | next hs he' => exact .next (h ▸ hs) he'

/-- The loop is deterministic: its initial state fixes its events and its result. -/
theorem Exec.deterministic {s : σ} {t t' : List ε} {r r' : ρ} (h : Exec round s t r)
    (h' : Exec round s t' r') : t = t' ∧ r = r' := by
  induction h generalizing t' with
  | done hs =>
    cases h' with
    | done hs' => rw [hs] at hs'; cases hs'; exact ⟨rfl, rfl⟩
    | next hs' _ => rw [hs] at hs'; cases hs'
  | next hs _ ih =>
    cases h' with
    | done hs' => rw [hs] at hs'; cases hs'
    | next hs' he' =>
      rw [hs] at hs'
      cases hs'
      obtain ⟨rfl, rfl⟩ := ih he'
      exact ⟨rfl, rfl⟩

/-- The run of a loop goes through every state that `Steps` reaches. -/
theorem Exec.split {s s' : σ} {t t' : List ε} {r : ρ} (hs : Steps round s t s')
    (he : Exec round s t' r) : ∃ t'', t' = t ++ t'' ∧ Exec round s' t'' r := by
  induction hs generalizing t' with
  | refl => exact ⟨t', rfl, he⟩
  | cons h _ ih =>
    cases he with
    | done h' => rw [h] at h'; cases h'
    | next h' he' =>
      rw [h] at h'
      cases h'
      obtain ⟨t'', rfl, he''⟩ := ih he'
      exact ⟨t'', (List.append_assoc ..).symm, he''⟩

/-- A loop that ends has a last round. -/
theorem Exec.final {s : σ} {t : List ε} {r : ρ} (he : Exec round s t r) :
    ∃ t' s', Steps round s t' s' ∧ (round s').2 = .done r := by
  induction he with
  | done h => exact ⟨[], _, .refl, by rw [h]⟩
  | next h _ ih =>
    obtain ⟨t', s', hs, hdone⟩ := ih
    exact ⟨_, s', .cons h hs, hdone⟩

theorem Exec.of_final {s s' : σ} {t : List ε} {r : ρ} (hs : Steps round s t s')
    (hdone : (round s').2 = .done r) : ∃ t', Exec round s t' r :=
  ⟨_, .of_steps hs (.done (Prod.ext rfl hdone))⟩

/-- Of two paths from one state, one goes on from where the other ends. -/
theorem Steps.linear {s s₁ s₂ : σ} {t₁ t₂ : List ε} (h₁ : Steps round s t₁ s₁)
    (h₂ : Steps round s t₂ s₂) : (∃ t, Steps round s₁ t s₂) ∨ ∃ t, Steps round s₂ t s₁ := by
  induction h₁ generalizing t₂ with
  | refl => exact .inl ⟨t₂, h₂⟩
  | cons h hs ih =>
    cases h₂ with
    | refl => exact .inr ⟨_, .cons h hs⟩
    | cons h' hs' =>
      rw [h] at h'
      cases h'
      exact ih hs'

/-- The states of a loop do not depend on what its rounds emit. -/
theorem Steps.observe {ε' : Type} {s s' : σ} {t : List ε} (hs : Steps round s t s')
    (round' : σ → List ε' × Round σ ρ) (hround : ∀ s, (round' s).2 = (round s).2) :
    ∃ t', Steps round' s t' s' := by
  induction hs with
  | refl => exact ⟨[], .refl⟩
  | @cons s _ _ _ _ h _ ih =>
    obtain ⟨t', hs'⟩ := ih
    exact ⟨_, .cons (Prod.ext rfl ((hround s).trans (by rw [h]))) hs'⟩

/-- A property of states that every round keeps holds in every state reached. -/
theorem Steps.invariant {P : σ → Prop} (hP : ∀ s t s', P s → round s = (t, .next s') → P s')
    {s s' : σ} {t : List ε} (hs : Steps round s t s') (h : P s) : P s' := by
  induction hs with
  | refl => exact h
  | cons hr _ ih => exact ih (hP _ _ _ h hr)

/-- The same for a property of a state and of the events on the way to it. -/
theorem Steps.invariant_log {P : List ε → σ → Prop}
    (hP : ∀ t s t' s', P t s → round s = (t', .next s') → P (t ++ t') s') {s s' : σ}
    {t₀ t : List ε} (hs : Steps round s t s') (h : P t₀ s) : P (t₀ ++ t) s' := by
  induction hs generalizing t₀ with
  | refl => rwa [List.append_nil]
  | cons hr _ ih =>
    rw [← List.append_assoc]
    exact ih (hP _ _ _ _ h hr)

/-- A loop whose rounds all go on within a set of states does not end from there. -/
theorem not_exec_of_invariant {P : σ → Prop}
    (hP : ∀ s, P s → ∃ t s', round s = (t, .next s') ∧ P s') {s : σ} (h : P s) {t : List ε}
    {r : ρ} :
    ¬ Exec round s t r := by
  intro he
  induction he with
  | done hs =>
    obtain ⟨_, _, hr, _⟩ := hP _ h
    rw [hs] at hr
    cases hr
  | next hs _ ih =>
    obtain ⟨_, _, hr, hP'⟩ := hP _ h
    rw [hs] at hr
    cases hr
    exact ih hP'

end Loop

end CLib
