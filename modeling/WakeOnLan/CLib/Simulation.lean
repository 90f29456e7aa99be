import WakeOnLan.CLib.Loop

/-!
# CLib.Simulation

Two loops that go round together. They may emit events of different kinds; what relates them is
said of what each has emitted so far and of where it is.

* `Together`           — related loops both go on, related again, or both end.
* `Together.steps`     — every path of the one has its path of the other.
* `Together.exec`      — every run of the one has its run of the other.
* `Together.exec_iff`  — where the run of the other fixes the run of the one, they are the same.
-/

namespace CLib

section Simulation

variable {σ ε ρ τ δ π : Type}

/-- `R` relates what two loops have emitted and where they are, `F` what they have emitted and
their results. -/
def Together (R : List ε → σ → List δ → τ → Prop) (F : List ε → ρ → List δ → π → Prop)
    (round : σ → List ε × Round σ ρ) (round' : τ → List δ × Round τ π) : Prop :=
  ∀ t s u v, R t s u v →
    (∃ t' s' u' v', round s = (t', .next s') ∧ round' v = (u', .next v') ∧
      R (t ++ t') s' (u ++ u') v') ∨
    ∃ t' r u' q, round s = (t', .done r) ∧ round' v = (u', .done q) ∧ F (t ++ t') r (u ++ u') q

variable {R : List ε → σ → List δ → τ → Prop} {F : List ε → ρ → List δ → π → Prop}
  {round : σ → List ε × Round σ ρ} {round' : τ → List δ × Round τ π}

theorem Together.swap (h : Together R F round round') :
    Together (fun u v t s => R t s u v) (fun u q t r => F t r u q) round' round := by
  intro u v t s hR
  rcases h t s u v hR with ⟨t', s', u', v', hs, hv, hR'⟩ | ⟨t', r, u', q, hs, hv, hF⟩
  · exact .inl ⟨u', v', t', s', hv, hs, hR'⟩
  · exact .inr ⟨u', q, t', r, hv, hs, hF⟩

theorem Together.steps (h : Together R F round round') {s s' : σ} {t₀ t : List ε}
    (hs : Steps round s t s') {u₀ : List δ} {v : τ} (hR : R t₀ s u₀ v) :
    ∃ u v', Steps round' v u v' ∧ R (t₀ ++ t) s' (u₀ ++ u) v' := by
  induction hs generalizing t₀ u₀ v with
  | refl => exact ⟨[], v, .refl, by rwa [List.append_nil, List.append_nil]⟩
  | cons hr _ ih =>
    rcases h _ _ _ _ hR with ⟨t', s', u', v', hr', hv, hR'⟩ | ⟨t', r, u', q, hr', _, _⟩
    · rw [hr] at hr'
      cases hr'
      obtain ⟨u, v'', hsteps, hR''⟩ := ih hR'
      rw [List.append_assoc, List.append_assoc] at hR''
      exact ⟨u' ++ u, v'', .cons hv hsteps, hR''⟩
    · rw [hr] at hr'
      cases hr'

theorem Together.exec (h : Together R F round round') {s : σ} {t₀ t : List ε} {r : ρ}
    (he : Exec round s t r) {u₀ : List δ} {v : τ} (hR : R t₀ s u₀ v) :
    ∃ u q, Exec round' v u q ∧ F (t₀ ++ t) r (u₀ ++ u) q := by
  induction he generalizing t₀ u₀ v with
  | done hr =>
    rcases h _ _ _ _ hR with ⟨t', s', u', v', hr', _, _⟩ | ⟨t', r, u', q, hr', hv, hF⟩
    · rw [hr] at hr'
      cases hr'
    · rw [hr] at hr'
      cases hr'
      exact ⟨u', q, .done hv, hF⟩
  | next hr _ ih =>
    rcases h _ _ _ _ hR with ⟨t', s', u', v', hr', hv, hR'⟩ | ⟨t', r, u', q, hr', _, _⟩
    · rw [hr] at hr'
      cases hr'
      obtain ⟨u, q, hexec, hF⟩ := ih hR'
      rw [List.append_assoc, List.append_assoc] at hF
      exact ⟨u' ++ u, q, .next hv hexec, hF⟩
    · rw [hr] at hr'
      cases hr'

theorem Together.exec_iff (h : Together R F round round')
    (hfun : ∀ t r t' r' u q, F t r u q → F t' r' u q → t = t' ∧ r = r') {s : σ} {v : τ}
    (hR : R [] s [] v) (t : List ε) (r : ρ) :
    Exec round s t r ↔ ∃ u q, Exec round' v u q ∧ F t r u q := by
  constructor
  · intro he
    exact h.exec he hR
  · rintro ⟨u, q, he, hF⟩
    obtain ⟨t', r', he', hF'⟩ := h.swap.exec he hR
    obtain ⟨rfl, rfl⟩ := hfun _ _ _ _ _ _ hF hF'
    exact he'

end Simulation

end CLib
