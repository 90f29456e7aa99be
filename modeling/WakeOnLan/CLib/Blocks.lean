import Mathlib.Algebra.Order.Group.Nat
import Mathlib.Data.List.Basic

/-!
# CLib.Blocks

Messages that are eaten in blocks of `w` elements.

* `absorbN` — the first `n` blocks of a message, one after the other.
* `absorb`  — all its blocks; what does not fill a block at the end is not looked at.
* `Held`    — a state that was given a message in pieces: it has absorbed whole blocks of it and
  holds the rest back.

Rules: `absorb_append` (a message that ends with a block), `Held.nil`, `Held.keep` (a piece is put
behind the rest), `Held.flush` (blocks at the front of the rest are absorbed), `Held.absorbed`
(nothing is held back).
-/

namespace CLib

section Blocks

variable {σ α : Type} (f : σ → List α → σ) (w : Nat)

def absorbN (s : σ) (m : List α) : Nat → σ
  | 0 => s
  | n + 1 => f (absorbN s m n) ((m.drop (n * w)).take w)

def absorb (s : σ) (m : List α) : σ := absorbN f w s m (m.length / w)

variable {f w}

theorem absorbN_foldl (s : σ) (m : List α) (n : Nat) :
    absorbN f w s m n = (List.range n).foldl (fun s i => f s ((m.drop (i * w)).take w)) s := by
  induction n with
  | zero => rfl
  | succ n ih => rw [List.range_succ, List.foldl_append, ← ih]; rfl

/-- What lies behind the blocks does not matter. -/
theorem absorbN_prefix (s : σ) {m : List α} (r : List α) {n : Nat} (h : n * w ≤ m.length) :
    absorbN f w s (m ++ r) n = absorbN f w s m n := by
  induction n with
  | zero => rfl
  | succ n ih =>
    rw [Nat.succ_mul] at h
    have hdrop : ((m ++ r).drop (n * w)).take w = (m.drop (n * w)).take w := by
      rw [List.drop_append_of_le_length (by omega), List.take_append_of_le_length]
      rw [List.length_drop]
      omega
    simp only [absorbN, ih (by omega), hdrop]

theorem absorbN_add (s : σ) (m : List α) (k n : Nat) :
    absorbN f w s m (k + n) = absorbN f w (absorbN f w s m k) (m.drop (k * w)) n := by
  induction n with
  | zero => rfl
  | succ n ih =>
    rw [← Nat.add_assoc, absorbN, ih, absorbN, List.drop_drop, Nat.add_mul]

@[simp] theorem absorb_nil (s : σ) : absorb f w s [] = s := by simp [absorb, absorbN]

theorem absorb_append (s : σ) {m : List α} (r : List α) (hw : 0 < w) (h : w ∣ m.length) :
    absorb f w s (m ++ r) = absorb f w (absorb f w s m) r := by
  obtain ⟨k, hk⟩ := h
  have hm : m.length / w = k := by rw [hk, Nat.mul_div_cancel_left k hw]
  have hmr : (m ++ r).length / w = k + r.length / w := by
    rw [List.length_append, hk, Nat.mul_add_div hw]
  have hdrop : (m ++ r).drop (k * w) = r := by
    rw [Nat.mul_comm, ← hk, List.drop_left]
  rw [absorb, hmr, absorbN_add, hdrop, absorbN_prefix s r (by rw [hk, Nat.mul_comm])]
  rw [absorb, absorb, hm]

/-! ## Messages in pieces -/

variable (f w) in
/-- From `s₀`, the message `m` has led to `s`, with `rest` still to be absorbed. -/
def Held (s₀ : σ) (m : List α) (s : σ) (rest : List α) : Prop :=
  ∃ done, m = done ++ rest ∧ w ∣ done.length ∧ s = absorb f w s₀ done

variable {s₀ s : σ} {m rest : List α}

theorem Held.nil (s₀ : σ) : Held f w s₀ [] s₀ [] := ⟨[], by simp⟩

theorem Held.keep (h : Held f w s₀ m s rest) (piece : List α) :
    Held f w s₀ (m ++ piece) s (rest ++ piece) := by
  obtain ⟨done, rfl, hdvd, hs⟩ := h
  exact ⟨done, List.append_assoc .., hdvd, hs⟩

theorem Held.flush {p q : List α} (hw : 0 < w) (h : Held f w s₀ m s (p ++ q))
    (hp : w ∣ p.length) : Held f w s₀ m (absorb f w s p) q := by
  obtain ⟨done, rfl, hdvd, rfl⟩ := h
  refine ⟨done ++ p, (List.append_assoc ..).symm, ?_, (absorb_append s₀ p hw hdvd).symm⟩
  rw [List.length_append]
  exact Nat.dvd_add hdvd hp

theorem Held.absorbed (h : Held f w s₀ m s []) : s = absorb f w s₀ m := by
  obtain ⟨done, rfl, -, hs⟩ := h
  rw [List.append_nil]
  exact hs

theorem Held.length_le (h : Held f w s₀ m s rest) : rest.length ≤ m.length := by
  obtain ⟨done, rfl, -, -⟩ := h
  rw [List.length_append]
  omega

/-- How much has been absorbed is a number of blocks. -/
theorem Held.dvd (h : Held f w s₀ m s rest) : w ∣ m.length - rest.length := by
  obtain ⟨done, rfl, hdvd, -⟩ := h
  rw [List.length_append, Nat.add_sub_cancel]
  exact hdvd

end Blocks

end CLib
