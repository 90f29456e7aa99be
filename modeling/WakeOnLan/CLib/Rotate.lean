import Mathlib.Data.List.Induction

/-!
# CLib.Rotate

Two neighbouring parts of an array change places, in place and without a buffer.

* `swapAt`     — two elements change places; `none` is an access outside the array.
* `swapRanges` — the loop that swaps two parts of one length, element by element.
* `rotate`     — the loop that swaps the shorter part with the far end of the longer one, until a
  part is empty.

`swapAt_eq`, `swapRanges_eq` and `rotate_eq` say what the array holds afterwards, and that no access
is outside it. Both parts keep their order.
-/

namespace CLib

variable {α : Type}

def swapAt (a : List α) (i j : Nat) : Option (List α) :=
  match a[i]?, a[j]? with
  | some x, some y => some ((a.set i y).set j x)
  | _, _ => none

/-- `a[p + i]` and `a[q + i]` change places for `i = 0`, ..., `len - 1`. -/
def swapRanges (a : List α) (p q len : Nat) : Option (List α) :=
  (List.range len).foldlM (fun a i => swapAt a (p + i) (q + i)) a

/-- `[bottom, middle)` and `[middle, top)` change places. -/
def rotate (a : List α) (bottom middle top : Nat) : Option (List α) :=
  if top > middle ∧ middle > bottom then
    if top - middle > middle - bottom then
      -- the lower part is the short one
      match swapRanges a bottom (top - (middle - bottom)) (middle - bottom) with
      | none => none
      | some a => rotate a bottom middle (top - (middle - bottom))
    else
      match swapRanges a bottom middle (top - middle) with
      | none => none
      | some a => rotate a (bottom + (top - middle)) middle top
  else some a
termination_by top - bottom
decreasing_by all_goals omega

theorem swapAt_eq (P M S : List α) (x y : α) :
    swapAt (P ++ x :: (M ++ y :: S)) P.length (P.length + 1 + M.length) =
      some (P ++ y :: (M ++ x :: S)) := by
  have hx : (P ++ x :: (M ++ y :: S))[P.length]? = some x := by simp
  have hj : P.length + 1 + M.length - P.length = M.length + 1 := by omega
  have hy : (P ++ x :: (M ++ y :: S))[P.length + 1 + M.length]? = some y := by
    rw [List.getElem?_append_right (by omega), hj]
    simp
  have hset : ((P ++ x :: (M ++ y :: S)).set P.length y).set (P.length + 1 + M.length) x =
      P ++ y :: (M ++ x :: S) := by
    rw [List.set_append_right _ _ (Nat.le_refl _), Nat.sub_self, List.set_cons_zero,
      List.set_append_right _ _ (by omega), hj, List.set_cons_succ,
      List.set_append_right _ _ (Nat.le_refl _), Nat.sub_self, List.set_cons_zero]
  simp only [swapAt, hx, hy, hset]

/-- After `n` rounds the first `n` elements of the two parts have changed places. -/
theorem swapRanges_eq (P M S : List α) {X Y : List α} (h : X.length = Y.length) :
    swapRanges (P ++ X ++ M ++ Y ++ S) P.length (P.length + X.length + M.length) X.length =
      some (P ++ Y ++ M ++ X ++ S) := by
  induction X using List.reverseRecOn generalizing M Y S with
  | nil =>
    obtain rfl : Y = [] := List.length_eq_zero_iff.mp h.symm
    rfl
  | append_singleton X x ih =>
    obtain rfl | ⟨Y, y, rfl⟩ := List.eq_nil_or_concat Y
    · simp at h
    · rw [List.concat_eq_append] at h ⊢
      have hlen : X.length = Y.length := by simpa using h
      have hrounds := ih (x :: M) (y :: S) hlen
      have hq : P.length + (X ++ [x]).length + M.length =
          P.length + X.length + (x :: M).length := by
        simp only [List.length_append, List.length_cons, List.length_nil]
        omega
      have hlast := swapAt_eq (P ++ Y) (M ++ X) S x y
      have hp : (P ++ Y).length = P.length + X.length := by rw [List.length_append, hlen]
      have hq' : (P ++ Y).length + 1 + (M ++ X).length =
          P.length + X.length + (x :: M).length + X.length := by
        simp only [List.length_append, List.length_cons, ← hlen]
        omega
      rw [hp] at hlast
      rw [hp] at hq'
      rw [hq'] at hlast
      unfold swapRanges at hrounds ⊢
      rw [hq, List.length_append, List.length_singleton, List.range_succ, List.foldlM_append]
      have harr : P ++ (X ++ [x]) ++ M ++ (Y ++ [y]) ++ S = P ++ X ++ x :: M ++ Y ++ y :: S := by
        simp
      rw [harr, hrounds]
      have hmid : P ++ Y ++ x :: M ++ X ++ y :: S = P ++ Y ++ x :: (M ++ X ++ y :: S) := by simp
      simpa [hmid] using hlast

/-- One round puts the shorter part where it belongs and leaves a smaller exchange; the recursion is
on the length of the two parts. -/
theorem rotate_eq (P A B S : List α) :
    rotate (P ++ A ++ B ++ S) P.length (P.length + A.length) (P.length + A.length + B.length) =
      some (P ++ B ++ A ++ S) := by
  induction hn : A.length + B.length using Nat.strongRecOn generalizing P A B S with
  | ind n ih =>
    by_cases hempty : B.length = 0 ∨ A.length = 0
    · rw [rotate, if_neg (by omega)]
      rcases hempty with hB | hA
      · simp [List.length_eq_zero_iff.mp hB]
      · simp [List.length_eq_zero_iff.mp hA]
    · rw [rotate, if_pos (by omega)]
      by_cases hshort : B.length > A.length
      · -- `A` changes places with the end of `B`, and is done
        rw [if_pos (by omega)]
        obtain ⟨B₁, B₂, rfl, hB₂⟩ : ∃ B₁ B₂, B = B₁ ++ B₂ ∧ A.length = B₂.length :=
          ⟨B.take (B.length - A.length), B.drop (B.length - A.length),
            (List.take_append_drop ..).symm, by rw [List.length_drop]; omega⟩
        have hB : (B₁ ++ B₂).length = B₁.length + B₂.length := List.length_append
        have hfar : P.length + A.length + (B₁ ++ B₂).length - (P.length + A.length - P.length) =
            P.length + A.length + B₁.length := by omega
        have hlen : P.length + A.length - P.length = A.length := by omega
        have hswap := swapRanges_eq P B₁ S hB₂
        have hrest := ih (B₂.length + B₁.length) (by omega) P B₂ B₁ (A ++ S) rfl
        rw [← hB₂] at hrest
        rw [hfar, hlen, ← List.append_assoc (P ++ A) B₁ B₂, hswap]
        simpa using hrest
      · -- `B` changes places with the beginning of `A`, and is done
        rw [if_neg (by omega)]
        obtain ⟨A₁, A₂, rfl, hA₁⟩ : ∃ A₁ A₂, A = A₁ ++ A₂ ∧ A₁.length = B.length :=
          ⟨A.take B.length, A.drop B.length, (List.take_append_drop ..).symm,
            by rw [List.length_take]; omega⟩
        have hA : (A₁ ++ A₂).length = A₁.length + A₂.length := List.length_append
        have hlen : P.length + (A₁ ++ A₂).length + B.length - (P.length + (A₁ ++ A₂).length) =
            A₁.length := by omega
        have hmid : P.length + (A₁ ++ A₂).length = P.length + A₁.length + A₂.length := by omega
        have hswap := swapRanges_eq P A₂ S hA₁
        have hrest := ih (A₂.length + A₁.length) (by omega) (P ++ B) A₂ A₁ S rfl
        have hP : (P ++ B).length = P.length + A₁.length := by rw [List.length_append, hA₁]
        rw [hP] at hrest
        have htop : P.length + A₁.length + A₂.length + B.length =
            P.length + A₁.length + A₂.length + A₁.length := by omega
        rw [hlen, hmid, ← List.append_assoc P A₁ A₂, hswap, htop]
        simpa using hrest

end CLib
