import WakeOnLan.CLib.Bytes

/-!
# CLib.Printf

Numbers printed by `printf`, and the bounded `snprintf`.

* `fmtHex`   — `%<width>x`: the digits of the number, padded with blanks on the left.
* `fmtInt`   — `%d`.
* `snprintf` — what a call stores: at most `size - 1` bytes of the text, and a NUL.
-/

namespace CLib

def fmtHex (width n : Nat) : Bytes :=
  let ds := (Nat.toDigits 16 n).map fun c => UInt8.ofNat c.toNat
  List.replicate (width - ds.length) 32 ++ ds

def fmtInt (n : Int) : Bytes := ascii (toString n)

def snprintf (size : Nat) (text : Bytes) : Bytes :=
  if size = 0 then [] else text.take (size - 1) ++ [0]

theorem length_fmtHex_two (b : UInt8) : (fmtHex 2 b.toNat).length = 2 := by
  revert b
  apply forall_byte
  decide +kernel

/-- A text that does not fit loses its end: of two characters, size two keeps the first. -/
theorem snprintf_two {text : Bytes} (h : text.length = 2) :
    ∃ c, snprintf 2 text = [c, 0] := by
  match text, h with
  | [c, _], _ => exact ⟨c, rfl⟩

end CLib
