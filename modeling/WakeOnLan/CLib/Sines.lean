import Mathlib.Analysis.Complex.Trigonometric
import Mathlib.Tactic.Linarith
import Mathlib.Tactic.NormNum

/-!
# CLib.Sines

The sine of a natural number, in integers.

* `cosPart` / `sinPart` — the series at 1. `dist_exp_I` bounds what is left of it.
* `Near`     — integers that enclose the sine and the cosine of a number, times `unit`.
* `sines`    — such integers for every `n`, by the addition formulas (`near_sines`).
* `Encloses` — the enclosure is fine enough to tell the integer part (`floor_abs_sin`).
-/

namespace CLib

open Finset

/-! ## The series at 1 -/

noncomputable def cosPart (n : ℕ) : ℝ := ∑ j ∈ range n, (-1) ^ j / ((2 * j).factorial : ℝ)

noncomputable def sinPart (n : ℕ) : ℝ := ∑ j ∈ range n, (-1) ^ j / ((2 * j + 1).factorial : ℝ)

theorem I_pow_even (n : ℕ) : Complex.I ^ (2 * n) = (((-1) ^ n : ℝ) : ℂ) := by
  rw [pow_mul, Complex.I_sq]
  push_cast
  rfl

theorem sum_exp_I (n : ℕ) :
    ∑ m ∈ range (2 * n), Complex.I ^ m / (m.factorial : ℂ) =
      (cosPart n : ℂ) + sinPart n * Complex.I := by
  induction n with
  | zero => simp [cosPart, sinPart]
  | succ n ih =>
    have hcos : cosPart (n + 1) = cosPart n + (-1) ^ n / ((2 * n).factorial : ℝ) :=
      Finset.sum_range_succ ..
    have hsin : sinPart (n + 1) = sinPart n + (-1) ^ n / ((2 * n + 1).factorial : ℝ) :=
      Finset.sum_range_succ ..
    rw [Nat.mul_succ, Finset.sum_range_succ, Finset.sum_range_succ, ih, pow_succ, I_pow_even,
      hcos, hsin]
    push_cast
    ring

theorem dist_exp_I {n : ℕ} (hn : 0 < n) :
    |Real.cos 1 - cosPart n| ≤ (2 * n + 1 : ℝ) * ((2 * n).factorial * (2 * n) : ℝ)⁻¹ ∧
      |Real.sin 1 - sinPart n| ≤ (2 * n + 1 : ℝ) * ((2 * n).factorial * (2 * n) : ℝ)⁻¹ := by
  have h := Complex.exp_bound (x := Complex.I) (by simp) (n := 2 * n) (by omega)
  rw [sum_exp_I] at h
  have hre := (Complex.abs_re_le_norm _).trans h
  have him := (Complex.abs_im_le_norm _).trans h
  constructor
  · simpa [Complex.exp_re] using hre
  · simpa [Complex.exp_im] using him

/-! ## Enclosures -/

def unit : ℤ := 2 ^ 160

/-- `s` and `c` are the sine and the cosine of `x` in units, up to `e`. -/
structure Near (x : ℝ) (s c e : ℤ) : Prop where
  sin : |Real.sin x * unit - s| ≤ e
  cos : |Real.cos x * unit - c| ≤ e

def sinOne : ℤ := 1229811222063188079455875033478504257159032017171
def cosOne : ℤ := 789652704679948512850133577617776009509005113993

theorem near_one : Near 1 sinOne cosOne 2 := by
  obtain ⟨hcos, hsin⟩ := dist_exp_I (n := 22) (by norm_num)
  rw [abs_le] at hcos hsin
  simp only [cosPart, sinPart, Finset.sum_range_succ, Finset.sum_range_zero,
    Nat.factorial] at hcos hsin
  norm_num at hcos hsin
  constructor
  · rw [abs_le]
    norm_num [unit, sinOne]
    constructor <;> linarith
  · rw [abs_le]
    norm_num [unit, cosOne]
    constructor <;> linarith

/-- A product of two enclosed numbers, each at most one unit. -/
theorem mul_near {u x y : ℝ} {a b e e' : ℝ} (hu : 0 < u) (hx : |x| ≤ u) (hy : |y| ≤ u)
    (ha : |x - a| ≤ e) (hb : |y - b| ≤ e') : |x * y - a * b| ≤ e * u + (u + e) * e' := by
  have hsplit : x * y - a * b = (x - a) * y + a * (y - b) := by ring
  have ha' : |a| ≤ u + e := by
    have hax : a = x - (x - a) := by ring
    rw [hax]
    exact (abs_sub _ _).trans (add_le_add hx ha)
  have he : 0 ≤ e := (abs_nonneg _).trans ha
  rw [hsplit]
  refine (abs_add_le _ _).trans (add_le_add ?_ ?_)
  · rw [abs_mul]
    exact mul_le_mul ha hy (abs_nonneg _) he
  · rw [abs_mul]
    exact mul_le_mul ha' hb (abs_nonneg _) (by linarith)

/-- A number that is enclosed in squares of the unit is enclosed in units. -/
theorem div_near {y : ℝ} {n e : ℤ} (h : |y * unit * unit - n| ≤ e) :
    |y * unit - (n / unit : ℤ)| ≤ (e / unit + 2 : ℤ) := by
  have hu : (0 : ℝ) < (unit : ℝ) := by norm_num [unit]
  have hpos : 0 < unit := by norm_num [unit]
  have hn : (n : ℝ) = unit * (n / unit : ℤ) + (n % unit : ℤ) := by
    exact_mod_cast (Int.mul_ediv_add_emod n unit).symm
  have he : (e : ℝ) = unit * (e / unit : ℤ) + (e % unit : ℤ) := by
    exact_mod_cast (Int.mul_ediv_add_emod e unit).symm
  have hn0 : (0 : ℝ) ≤ (n % unit : ℤ) := by exact_mod_cast Int.emod_nonneg n (ne_of_gt hpos)
  have hn1 : ((n % unit : ℤ) : ℝ) < unit := by exact_mod_cast Int.emod_lt_of_pos n hpos
  have he1 : ((e % unit : ℤ) : ℝ) < unit := by exact_mod_cast Int.emod_lt_of_pos e hpos
  rw [abs_le] at h ⊢
  push_cast
  constructor
  · refine le_of_mul_le_mul_right ?_ hu
    linarith [h.1]
  · refine le_of_mul_le_mul_right ?_ hu
    linarith [h.2]

def nextError (e : ℤ) : ℤ := 2 * (e * unit + (unit + e) * 2) / unit + 2

def sines : ℕ → ℤ × ℤ × ℤ
  | 0 => (0, unit, 0)
  | n + 1 =>
    let (s, c, e) := sines n
    ((s * cosOne + c * sinOne) / unit, (c * cosOne - s * sinOne) / unit, nextError e)

/-- The addition formulas, with what the errors add up to. -/
theorem Near.add_one {x : ℝ} {s c e : ℤ} (h : Near x s c e) :
    Near (x + 1) ((s * cosOne + c * sinOne) / unit) ((c * cosOne - s * sinOne) / unit)
      (nextError e) := by
  have hu : (0 : ℝ) < (unit : ℝ) := by norm_num [unit]
  have hsin (y : ℝ) : |Real.sin y * unit| ≤ unit := by
    rw [abs_mul, abs_of_pos hu]
    exact mul_le_of_le_one_left hu.le (Real.abs_sin_le_one y)
  have hcos (y : ℝ) : |Real.cos y * unit| ≤ unit := by
    rw [abs_mul, abs_of_pos hu]
    exact mul_le_of_le_one_left hu.le (Real.abs_cos_le_one y)
  have hsc := abs_le.mp (mul_near hu (hsin x) (hcos 1) h.sin near_one.cos)
  have hcs := abs_le.mp (mul_near hu (hcos x) (hsin 1) h.cos near_one.sin)
  have hcc := abs_le.mp (mul_near hu (hcos x) (hcos 1) h.cos near_one.cos)
  have hss := abs_le.mp (mul_near hu (hsin x) (hsin 1) h.sin near_one.sin)
  constructor
  · apply div_near
    rw [abs_le, Real.sin_add]
    push_cast at hsc hcs ⊢
    constructor <;> linarith [hsc.1, hsc.2, hcs.1, hcs.2]
  · apply div_near
    rw [abs_le, Real.cos_add]
    push_cast at hcc hss ⊢
    constructor <;> linarith [hcc.1, hcc.2, hss.1, hss.2]

theorem near_sines (n : ℕ) : Near n (sines n).1 (sines n).2.1 (sines n).2.2 := by
  induction n with
  | zero => constructor <;> simp [sines]
  | succ n ih =>
    rw [Nat.cast_succ]
    exact ih.add_one

/-! ## Integer parts -/

/-- The integer part of `m * |sin n|` is `t`, whatever the error of the enclosure is. -/
def Encloses (m n t : ℕ) : Prop :=
  t * unit ≤ m * (|(sines n).1| - (sines n).2.2) ∧
    m * (|(sines n).1| + (sines n).2.2) < (t + 1) * unit

instance (m n t : ℕ) : Decidable (Encloses m n t) := inferInstanceAs (Decidable (_ ∧ _))

theorem floor_abs_sin {m n t : ℕ} (h : Encloses m n t) : ⌊(m : ℝ) * |Real.sin n|⌋₊ = t := by
  have hu : (0 : ℝ) < (unit : ℝ) := by norm_num [unit]
  have hm : (0 : ℝ) ≤ m := Nat.cast_nonneg m
  have hsin : |Real.sin n * unit| = |Real.sin n| * unit := by rw [abs_mul, abs_of_pos hu]
  have hdist := (abs_abs_sub_abs_le _ _).trans (near_sines n).sin
  rw [hsin] at hdist
  obtain ⟨hle, hlt⟩ := h
  have hle' : (t : ℝ) * unit ≤ m * (|((sines n).1 : ℝ)| - (sines n).2.2) := by exact_mod_cast hle
  have hlt' : (m : ℝ) * (|((sines n).1 : ℝ)| + (sines n).2.2) < (t + 1) * unit := by
    exact_mod_cast hlt
  obtain ⟨hlow, hhigh⟩ := abs_le.mp hdist
  rw [Nat.floor_eq_iff (mul_nonneg hm (abs_nonneg _))]
  constructor
  · refine le_of_mul_le_mul_right ?_ hu
    calc (t : ℝ) * unit ≤ m * (|((sines n).1 : ℝ)| - (sines n).2.2) := hle'
      _ ≤ m * (|Real.sin n| * unit) := mul_le_mul_of_nonneg_left (by linarith) hm
      _ = m * |Real.sin n| * unit := (mul_assoc ..).symm
  · refine lt_of_mul_lt_mul_right ?_ hu.le
    calc (m : ℝ) * |Real.sin n| * unit = m * (|Real.sin n| * unit) := mul_assoc ..
      _ ≤ m * (|((sines n).1 : ℝ)| + (sines n).2.2) :=
        mul_le_mul_of_nonneg_left (by linarith) hm
      _ < (t + 1) * unit := hlt'

end CLib
