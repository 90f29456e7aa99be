import Mathlib.Algebra.Ring.Int.Defs
import Mathlib.Algebra.Ring.Nat
import Mathlib.Data.List.Basic

/-!
# CLib.Bytes

Byte strings and the character classes of the C locale.

* `ascii` — the bytes of a string literal.
* `cstr`  — the C string at the start of a byte sequence: everything before the first NUL.
* `digitVal` / `digitsVal` — the value of a digit and of a digit string in a given base, as
  `strtoul` reads them.

The maximal-munch lemmas at the end say when `takeWhile` stops exactly at a given boundary; every
scanner lemma rests on them.
-/

namespace CLib

abbrev Bytes := List UInt8

def ascii (s : String) : Bytes := s.toList.map fun c => UInt8.ofNat c.toNat

/-- `isspace`: space, `\t`, `\n`, `\v`, `\f`, `\r`. -/
def isSpace (c : UInt8) : Bool := c == 32 || (9 ≤ c && c ≤ 13)

def isDigit (c : UInt8) : Bool := 48 ≤ c && c ≤ 57

def isXDigit (c : UInt8) : Bool :=
  isDigit c || (97 ≤ c && c ≤ 102) || (65 ≤ c && c ≤ 70)

def isAlpha (c : UInt8) : Bool := (97 ≤ c && c ≤ 122) || (65 ≤ c && c ≤ 90)

def cstr (s : Bytes) : Bytes := s.takeWhile (· != 0)

/-- The value of a digit; `255` for a byte that is a digit in no base up to sixteen. -/
def digitVal (c : UInt8) : Nat :=
  if isDigit c then c.toNat - 48
  else if 97 ≤ c && c ≤ 102 then c.toNat - 87
  else if 65 ≤ c && c ≤ 70 then c.toNat - 55
  else 255

def isDigitOf (base : Nat) (c : UInt8) : Bool := digitVal c < base

def digitsVal (base : Nat) (ds : Bytes) : Nat :=
  ds.foldl (fun n c => n * base + digitVal c) 0

/-- A statement about bytes holds of all of them once it holds of `0..255`. -/
theorem forall_byte {P : UInt8 → Prop} (h : ∀ n, n < 256 → P (UInt8.ofNat n)) (c : UInt8) :
    P c := by
  have := h c.toNat c.toNat_lt
  simpa using this

theorem isDigitOf_sixteen (c : UInt8) : isDigitOf 16 c = isXDigit c := by
  revert c
  apply forall_byte
  decide +kernel

theorem digitVal_lt_of_isXDigit {c : UInt8} (h : isXDigit c = true) : digitVal c < 16 := by
  rw [← isDigitOf_sixteen] at h
  simpa [isDigitOf] using h

/-! ## Maximal munch -/

section Munch

variable {α : Type} {p : α → Bool} {tok rest : List α}

/-- `rest` does not go on with a byte of the class `p`. -/
def Stops (p : α → Bool) (rest : List α) : Prop := ∀ c, rest.head? = some c → p c = false

@[simp] theorem stops_nil : Stops p ([] : List α) := by
  intro c h
  cases h

@[simp] theorem stops_cons {c : α} : Stops p (c :: rest) ↔ p c = false := by
  simp [Stops]

theorem takeWhile_of_stops (h : Stops p rest) : rest.takeWhile p = [] := by
  cases rest with
  | nil => rfl
  | cons c r => simp [stops_cons.mp h]

theorem takeWhile_munch (ht : ∀ c ∈ tok, p c = true) (hr : Stops p rest) :
    (tok ++ rest).takeWhile p = tok := by
  rw [List.takeWhile_append_of_pos ht, takeWhile_of_stops hr, List.append_nil]

theorem dropWhile_munch (ht : ∀ c ∈ tok, p c = true) (hr : Stops p rest) :
    (tok ++ rest).dropWhile p = rest := by
  rw [List.dropWhile_append_of_pos ht]
  cases rest with
  | nil => rfl
  | cons c r => simp [stops_cons.mp hr]

theorem stops_dropWhile (s : List α) : Stops p (s.dropWhile p) := by
  induction s with
  | nil => exact stops_nil
  | cons c s ih =>
    rw [List.dropWhile_cons]
    split
    · exact ih
    · rename_i h
      exact stops_cons.mpr (by simpa using h)

end Munch

end CLib
