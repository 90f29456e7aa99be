import Mathlib.Data.List.Basic

/-!
# CLib.LastWins

Settings that may be given several times, the last of which counts.

* `lastOf f l` — the value of the last element of `l` that sets what `f` reads.
* `lastOf_cons_getD` — one more setting in front is a new default: a variable that is assigned
  option by option ends with the last value.
* `lastOf_swap` — neighbours that do not both set it may change places.
-/

namespace CLib

def lastOf {α β : Type} (f : α → Option β) (l : List α) : Option β := (l.filterMap f).getLast?

section LastOf

variable {α β : Type} {f : α → Option β} {l : List α}

theorem lastOf_cons (f : α → Option β) (a : α) (l : List α) :
    lastOf f (a :: l) = (lastOf f l).or (f a) := by
  cases h : f a with
  | none => simp [lastOf, h]
  | some b =>
    cases hl : l.filterMap f with
    | nil => simp [lastOf, h, hl]
    | cons c t => simp [lastOf, h, hl, List.getLast?_cons]

theorem lastOf_cons_getD (f : α → Option β) (a : α) (l : List α) (b : β) :
    (lastOf f (a :: l)).getD b = (lastOf f l).getD ((f a).getD b) := by
  rw [lastOf_cons]
  cases lastOf f l with
  | none => rfl
  | some c => rfl

theorem lastOf_append (f : α → Option β) (l l' : List α) :
    lastOf f (l ++ l') = (lastOf f l').or (lastOf f l) := by
  induction l with
  | nil => simp [lastOf]
  | cons a l ih => rw [List.cons_append, lastOf_cons, ih, lastOf_cons, Option.or_assoc]

theorem lastOf_pair (f : α → Option β) (pre : List α) (a b : α) (post : List α) :
    lastOf f (pre ++ a :: b :: post) =
      (lastOf f post).or ((f b).or ((f a).or (lastOf f pre))) := by
  rw [lastOf_append, lastOf_cons, lastOf_cons, Option.or_assoc, Option.or_assoc]

theorem lastOf_swap {a b : α} (h : f a = none ∨ f b = none) (pre post : List α) :
    lastOf f (pre ++ b :: a :: post) = lastOf f (pre ++ a :: b :: post) := by
  rw [lastOf_pair, lastOf_pair]
  rcases h with h | h
  · simp [h]
  · simp [h]

theorem lastOf_eq_none_iff : lastOf f l = none ↔ ∀ a ∈ l, f a = none := by
  simp [lastOf]

/-- A setting read in two steps. -/
theorem lastOf_bind {γ : Type} {g : α → Option γ} {k : β → Option γ}
    (hg : ∀ a, g a = (f a).bind k) {b : β} {c : γ} (h : lastOf f l = some b) (hk : k b = some c) :
    lastOf g l = some c := by
  induction l with
  | nil => cases h
  | cons a l ih =>
    rw [lastOf_cons] at h ⊢
    cases hl : lastOf f l with
    | some b' =>
      rw [hl] at h
      cases h
      rw [ih hl]
      rfl
    | none =>
      have hnone : lastOf g l = none := by
        rw [lastOf_eq_none_iff]
        intro a' ha'
        rw [hg, lastOf_eq_none_iff.mp hl a' ha']
        rfl
      rw [hl, Option.none_or] at h
      rw [hnone, Option.none_or, hg, h]
      exact hk

theorem exists_of_lastOf {b : β} (h : lastOf f l = some b) : ∃ a ∈ l, f a = some b :=
  List.mem_filterMap.mp (List.mem_of_getLast? h)

end LastOf

end CLib
