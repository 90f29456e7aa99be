import Mathlib.Tactic.IntervalCases
import WakeOnLan.CLib.Checked

/-!
# CLib.Words

Bytes and words that are read from memory, checked against the array.

* `loadAt`   — `n` bytes.
* `loadWord` — a word in the byte order of the host.
* `swapWord` — the four bytes of a word in the opposite order. It turns a word that was read on a
  host of the one byte order into what a host of the other would have read (`swapWord_word`), and so
  for a word that is stored (`wordBytes_swapWord`).
* `asInt`, `asSize` — what an `int` and a `size_t` keep of a number.
-/

namespace CLib

def asInt (v : Int) : Int := v.bmod (2 ^ 32)

def asSize (v : Int) : Nat := (v % 2 ^ 64).toNat

theorem asInt_of_lt {v : Int} (hlo : 0 ≤ v) (hhi : v < 2 ^ 31) : asInt v = v := by
  refine Int.bmod_eq_of_le ?_ ?_ <;> omega

theorem asSize_of_lt {v : Int} (hlo : 0 ≤ v) (hhi : v < 2 ^ 64) : asSize v = v.toNat := by
  rw [asSize, Int.emod_eq_of_lt hlo hhi]

def loadAt (p : Bytes) (off n : Nat) : Except Fault Bytes :=
  if off + n ≤ p.length then .ok ((p.drop off).take n) else .error .overflow

theorem loadAt_ok {p : Bytes} {off n : Nat} (h : off + n ≤ p.length) :
    loadAt p off n = .ok ((p.drop off).take n) := if_pos h

/-- The word with these bytes, the lowest first. -/
def word (a b c d : UInt8) : UInt32 :=
  a.toUInt32 ||| (b.toUInt32 <<< 8) ||| (c.toUInt32 <<< 16) ||| (d.toUInt32 <<< 24)

def wordOf (a b c d : UInt8) : Endian → UInt32
  | .little => word a b c d
  | .big => word d c b a

def loadWord (e : Endian) (p : Bytes) (off : Nat) : Except Fault UInt32 :=
  match p.drop off with
  | a :: b :: c :: d :: _ => .ok (wordOf a b c d e)
  | _ => .error .overflow

def swapWord (n : UInt32) : UInt32 :=
  (n <<< 24) ||| ((n &&& (0xff00 : UInt32)) <<< 8) ||| ((n >>> 8) &&& (0xff00 : UInt32)) |||
    (n >>> 24)

theorem swapWord_word (a b c d : UInt8) : swapWord (word d c b a) = word a b c d := by
  apply UInt32.eq_of_toBitVec_eq
  simp only [swapWord, word]
  ext i hi
  simp
  interval_cases i <;> simp

theorem wordBytes_swapWord (v : UInt32) : wordBytes (swapWord v) .big = wordBytes v .little := by
  simp only [wordBytes, swapWord, List.cons.injEq, and_true]
  refine ⟨?_, ?_, ?_, ?_⟩ <;> (apply UInt8.eq_of_toBitVec_eq; ext i hi; simp)
  all_goals interval_cases i <;> simp

/-- A word within the array is read as the four bytes at its place. -/
theorem loadWord_ok (e : Endian) {p : Bytes} {off : Nat} (h : off + 4 ≤ p.length) :
    loadWord e p off = .ok (wordOf (p.getD off 0) (p.getD (off + 1) 0) (p.getD (off + 2) 0)
      (p.getD (off + 3) 0) e) := by
  have hcons (i : Nat) (hi : i < p.length) : p.drop i = p.getD i 0 :: p.drop (i + 1) := by
    rw [List.drop_eq_getElem_cons hi, List.getD_eq_getElem?_getD, List.getElem?_eq_getElem hi]
    rfl
  rw [loadWord, hcons off (by omega), hcons (off + 1) (by omega), hcons (off + 2) (by omega),
    hcons (off + 3) (by omega)]

/-! ## Loops whose rounds are all within bounds -/

theorem mapM_ok {α β : Type} {f : α → Except Fault β} {g : α → β} {l : List α}
    (h : ∀ a ∈ l, f a = .ok (g a)) : l.mapM f = .ok (l.map g) := by
  induction l with
  | nil => rfl
  | cons a l ih =>
    have hl := ih fun b hb => h b (List.mem_cons_of_mem a hb)
    simp [List.mapM_cons, h a List.mem_cons_self, hl, bind, Except.bind, pure, Except.pure]

theorem foldlM_ok {σ : Type} {step : σ → Nat → Except Fault σ} {f : σ → Nat → σ} {n : Nat}
    (h : ∀ s, ∀ i < n, step s i = .ok (f s i)) (s : σ) :
    (List.range n).foldlM step s = .ok ((List.range n).foldl f s) := by
  induction n with
  | zero => rfl
  | succ n ih =>
    have hn := ih fun s i hi => h s i (Nat.lt_succ_of_lt hi)
    simp [List.range_succ, List.foldlM_append, hn, h _ n (Nat.lt_succ_self n), bind, Except.bind,
      pure, Except.pure]

end CLib
