import WakeOnLan.CLib.Scanf

/-!
# CLib.Tokens

Printed tokens, and what the directives of `sscanf` make of them.

* `Word p w`    — a text that a scanset with the class `p` and the width `w` can take as a whole.
* `AtEnd s`     — a token may end before `s`: nothing follows, or white space.
* `scan_word` / `scan_decimal` / `scan_unsigned` — a token that is printed is read back, up to the
  width.
* `HexItem t r` — what `%2x` takes: `t`, when `r` follows it (`scan_hexItem`, `scan_hexItem_inv`).
-/

namespace CLib

structure Word (p : UInt8 → Bool) (width : Option Nat) where
  text : Bytes
  ne : text ≠ []
  chars : ∀ c ∈ text, p c = true
  fits : ∀ n, width = some n → text.length ≤ n

structure Blanks where
  text : Bytes
  chars : ∀ c ∈ text, isSpace c = true

def AtEnd (s : Bytes) : Prop := Stops (fun c => !isSpace c) s

theorem atEnd_blanks_append {b s : Bytes} (hb : ∀ c ∈ b, isSpace c = true) (hs : AtEnd s) :
    AtEnd (b ++ s) := by
  cases b with
  | nil => exact hs
  | cons c b =>
    have hc := hb c (List.mem_cons_self ..)
    simp [AtEnd, hc]

theorem atEnd_sep_append (w : Word isSpace none) (s : Bytes) : AtEnd (w.text ++ s) := by
  obtain ⟨text, ne, chars, -⟩ := w
  cases text with
  | nil => exact absurd rfl ne
  | cons c t =>
    have hc := chars c (List.mem_cons_self ..)
    simp [AtEnd, hc]

/-- A class without white space stops at the end of a token. -/
theorem AtEnd.stops {p : UInt8 → Bool} {s : Bytes} (h : AtEnd s)
    (hp : ∀ c, p c = true → isSpace c = false) : Stops p s := by
  intro c hc
  have hsp : isSpace c = true := by simpa using h c hc
  by_contra hne
  rw [hp c (by simpa using hne)] at hsp
  cases hsp

theorem cstr_append {a : Bytes} (ha : ∀ c ∈ a, c ≠ 0) (b : Bytes) :
    cstr (a ++ b) = a ++ cstr b := by
  have ha' : ∀ c ∈ a, (c != 0) = true := by simpa using ha
  exact List.takeWhile_append_of_pos ha'

/-! ## Scansets -/

theorem stops_take {p : UInt8 → Bool} {r : Bytes} (hr : Stops p r) (n : Nat) :
    Stops p (r.take n) := by
  intro c hc
  rw [List.head?_take] at hc
  split at hc
  · cases hc
  · exact hr c hc

section Sets

variable {p : UInt8 → Bool} {width : Option Nat}

theorem Word.ne_zero (w : Word p width) (hp : p 0 = false) {c : UInt8} (hc : c ∈ w.text) :
    c ≠ 0 := by
  rintro rfl
  rw [w.chars 0 hc] at hp
  cases hp

/-- A scanset takes a word as a whole when its class stops behind it, or its width does. -/
theorem scan_word (w : Word p width) {r : Bytes} (hr : Stops p r ∨ width = some w.text.length) :
    (Directive.set width p).scan (w.text ++ r) = .ok (some (.str w.text), r) := by
  obtain ⟨text, ne, chars, fits⟩ := w
  have htok : (window width (text ++ r)).takeWhile p = text := by
    cases width with
    | none => exact takeWhile_munch chars (hr.resolve_right (by simp))
    | some n =>
      have hlen := fits n rfl
      have htake : (text ++ r).take n = text ++ r.take (n - text.length) := by
        rw [List.take_append, List.take_of_length_le hlen]
      have hstop : Stops p (r.take (n - text.length)) := by
        rcases hr with hr | hr
        · exact stops_take hr _
        · obtain rfl : n = text.length := by simpa using hr
          rw [Nat.sub_self, List.take_zero]
          exact stops_nil
      rw [window, htake, takeWhile_munch chars hstop]
  have hne : text ++ r ≠ [] := by simp [ne]
  simp only [Directive.scan, scanSet, if_neg hne, htok, if_neg ne, List.drop_left]

end Sets

/-! ## Decimal numbers -/

theorem digitVal_lt_of_isDigit {c : UInt8} (h : isDigit c = true) : digitVal c < 10 := by
  revert c
  apply forall_byte
  decide +kernel

theorem isDigitOf_ten (c : UInt8) : isDigitOf 10 c = isDigit c := by
  revert c
  apply forall_byte
  decide +kernel

theorem isDigit_not_space {c : UInt8} (h : isDigit c = true) : isSpace c = false := by
  revert c
  apply forall_byte
  decide +kernel

theorem isDigit_not_sign {c : UInt8} (h : isDigit c = true) : c ≠ 43 ∧ c ≠ 45 := by
  revert c
  apply forall_byte
  decide +kernel

/-- Horner's rule from any start value. -/
theorem foldl_digits (base n : Nat) (ds : Bytes) :
    ds.foldl (fun n c => n * base + digitVal c) n =
      n * base ^ ds.length + digitsVal base ds := by
  induction ds generalizing n with
  | nil => simp [digitsVal]
  | cons d t ih =>
    have h0 := ih (0 * base + digitVal d)
    have hn := ih (n * base + digitVal d)
    simp only [digitsVal, List.foldl_cons, List.length_cons] at h0 hn ⊢
    rw [hn, h0, Nat.zero_mul, Nat.zero_add, Nat.add_mul, Nat.mul_assoc, Nat.pow_succ',
      Nat.add_assoc]

theorem digitsVal_append (base : Nat) (a b : Bytes) :
    digitsVal base (a ++ b) = digitsVal base a * base ^ b.length + digitsVal base b := by
  rw [digitsVal, List.foldl_append, foldl_digits]
  rfl

theorem digitsVal_lt {ds : Bytes} (hd : ∀ c ∈ ds, isDigit c = true) :
    digitsVal 10 ds < 10 ^ ds.length := by
  induction ds with
  | nil => exact Nat.one_pos
  | cons d t ih =>
    have hlt := digitVal_lt_of_isDigit (hd d (List.mem_cons_self ..))
    have ht := ih fun c hc => hd c (List.mem_cons_of_mem _ hc)
    have hd1 : digitsVal 10 [d] = digitVal d := by simp [digitsVal]
    have hcons := digitsVal_append 10 [d] t
    rw [hd1, List.singleton_append] at hcons
    have hmul := Nat.mul_le_mul_right (10 ^ t.length) (Nat.le_of_lt_succ hlt)
    rw [hcons, List.length_cons, Nat.pow_succ']
    omega

theorem strtoul_of_lt {v : Nat} (h : v < 2 ^ 64) : strtoul false v = UInt32.ofNat v := by
  have hv : ¬ 2 ^ 64 ≤ v := Nat.not_le_of_lt h
  simp only [strtoul, if_neg hv, Bool.false_eq_true, if_false]

theorem radix_ten (s : Bytes) : radix 10 s = s := by
  match s with
  | [] | [_] => rfl
  | c :: x :: s => simp [radix]

theorem sign_digit {c : UInt8} (hc : isDigit c = true) (s : Bytes) :
    sign (c :: s) = (false, c :: s) := by
  obtain ⟨hplus, hminus⟩ := isDigit_not_sign hc
  simp [sign, hplus, hminus]

/-- `%u` takes the digits that its field begins with. -/
theorem scan_digits {width : Option Nat} {s ds r u : Bytes} (hne : ds ≠ [])
    (hd : ∀ c ∈ ds, isDigit c = true) (hr : Stops isDigit r) (hs : s = ds ++ u)
    (hfield : window width s = ds ++ r) :
    (Directive.num 10 width).scan s =
      .ok (some (.num (strtoul false (digitsVal 10 ds))), u) := by
  have hd' : ∀ c ∈ ds, isDigitOf 10 c = true := by
    intro c hc
    rw [isDigitOf_ten]
    exact hd c hc
  have hr' : Stops (isDigitOf 10) r := by
    intro c hc
    rw [isDigitOf_ten]
    exact hr c hc
  have hsign : sign (ds ++ r) = (false, ds ++ r) := by
    obtain ⟨d, t, rfl⟩ := List.exists_cons_of_ne_nil hne
    exact sign_digit (hd d (List.mem_cons_self ..)) _
  have hskip : s.dropWhile isSpace = s := by
    obtain ⟨d, t, rfl⟩ := List.exists_cons_of_ne_nil hne
    simp [hs, isDigit_not_space (hd d (List.mem_cons_self ..))]
  have hsne : s ≠ [] := by
    rw [hs]
    exact List.append_ne_nil_of_left_ne_nil hne _
  have hlen : ds.length ≤ (ds ++ r).length := by
    rw [List.length_append]
    exact Nat.le_add_right _ _
  simp only [Directive.scan, scanNum, hskip, hfield, hsign, radix_ten, takeWhile_munch hd' hr']
  rw [if_neg hsne, if_neg hne, Nat.sub_sub_self hlen, hs, List.drop_left]

/-- `%<w>u` takes the first `w` digits of a number, whatever follows them. -/
theorem scan_decimal {w : Nat} (hw : 0 < w) (hw' : w ≤ 19) {ds r : Bytes} (hne : ds ≠ [])
    (hd : ∀ c ∈ ds, isDigit c = true) (hr : Stops isDigit r) :
    (Directive.num 10 (some w)).scan (ds ++ r) =
      .ok (some (.num (UInt32.ofNat (digitsVal 10 (ds.take w)))), ds.drop w ++ r) := by
  have hd' : ∀ c ∈ ds.take w, isDigit c = true := fun c hc => hd c (List.mem_of_mem_take hc)
  have hval : digitsVal 10 (ds.take w) < 2 ^ 64 := by
    have hlen : (ds.take w).length ≤ 19 := Nat.le_trans (List.length_take_le ..) hw'
    have hlt := digitsVal_lt hd'
    have hpow : 10 ^ (ds.take w).length ≤ 10 ^ 19 := Nat.pow_le_pow_right (by decide) hlen
    omega
  have hne' : ds.take w ≠ [] := by
    simp only [ne_eq, List.take_eq_nil_iff, not_or]
    exact ⟨Nat.ne_of_gt hw, hne⟩
  have hsplit : ds ++ r = ds.take w ++ (ds.drop w ++ r) := by
    rw [← List.append_assoc, List.take_append_drop]
  have hfield : window (some w) (ds ++ r) = ds.take w ++ r.take (w - ds.length) :=
    List.take_append
  rw [scan_digits hne' hd' (stops_take hr _) hsplit hfield, strtoul_of_lt hval]

/-- `%u` takes all the digits of a number. A number above `ULONG_MAX` becomes that. -/
theorem scan_unsigned {ds r : Bytes} (hne : ds ≠ []) (hd : ∀ c ∈ ds, isDigit c = true)
    (hr : Stops isDigit r) :
    (Directive.num 10 none).scan (ds ++ r) =
      .ok (some (.num (strtoul false (digitsVal 10 ds))), r) :=
  scan_digits hne hd hr rfl rfl

/-! ## Hexadecimal fields -/

/-- The letter of a `0x`. -/
def isX (c : UInt8) : Bool := c == 120 || c == 88

/-- `t` is what `%2x` takes from the input `t ++ r`: two digits, or one that nothing extends, or a
sign and one digit. -/
inductive HexItem : Bytes → Bytes → Prop where
  | two {d e : UInt8} {r : Bytes} : isXDigit d = true → isXDigit e = true → HexItem [d, e] r
  | one {d : UInt8} {r : Bytes} : isXDigit d = true → Stops isXDigit r → (d = 48 → Stops isX r) →
      HexItem [d] r
  | signed {c d : UInt8} {r : Bytes} : c = 43 ∨ c = 45 → isXDigit d = true → HexItem [c, d] r

/-- The number that an item denotes. -/
def itemVal (t : Bytes) : UInt32 := strtoul (sign t).1 (digitsVal 16 (sign t).2)

section Hex

variable {s t r : Bytes}

/-- `%2x` takes an item, behind any white space. -/
theorem scan_hexItem (h : s.dropWhile isSpace = t ++ r) (hi : HexItem t r) :
    (Directive.num 16 (some 2)).scan s = .ok (some (.num (itemVal t)), r) := by
  cases hi with
  | @two d e _ hd he =>
    obtain ⟨hplus, hminus⟩ := isXDigit_not_sign hd
    obtain ⟨hx, hX⟩ := isXDigit_not_x he
    simp [Directive.scan, scanNum, h, window, itemVal, sign, hplus, hminus, radix, hx, hX,
      isDigitOf_sixteen, hd, he]
  | @one d _ hd hr hx =>
    obtain ⟨hplus, hminus⟩ := isXDigit_not_sign hd
    cases r with
    | nil =>
      simp [Directive.scan, scanNum, h, window, itemVal, sign, hplus, hminus, radix,
        isDigitOf_sixteen, hd]
    | cons e r =>
      have he := stops_cons.mp hr
      have hnot : ¬ (d = 48 ∧ (e = 120 ∨ e = 88)) := by
        rintro ⟨h0, hx'⟩
        have := stops_cons.mp (hx h0)
        simp [isX] at this
        exact hx'.elim this.1 this.2
      simp [Directive.scan, scanNum, h, window, itemVal, sign, hplus, hminus, radix, hnot,
        isDigitOf_sixteen, hd, he]
  | @signed c d _ hc hd =>
    rcases hc with rfl | rfl
    · simp [Directive.scan, scanNum, h, window, itemVal, sign, radix, isDigitOf_sixteen, hd]
    · simp [Directive.scan, scanNum, h, window, itemVal, sign, radix, isDigitOf_sixteen, hd]

/-- And it takes nothing else. -/
theorem scan_hexItem_inv {v : Option Value} (h : (Directive.num 16 (some 2)).scan s = .ok (v, r)) :
    ∃ t, s.dropWhile isSpace = t ++ r ∧ HexItem t r := by
  simp only [Directive.scan, scanNum, window] at h
  cases hs : s.dropWhile isSpace with
  | nil => simp [hs] at h
  | cons c u =>
    by_cases hsign : c = 43 ∨ c = 45
    · cases u with
      | nil => rcases hsign with rfl | rfl <;> simp [hs, sign, radix] at h
      | cons d u =>
        by_cases hd : isXDigit d = true
        · refine ⟨[c, d], ?_, .signed hsign hd⟩
          rcases hsign with rfl | rfl <;>
          simp [hs, sign, radix, isDigitOf_sixteen, hd] at h <;> simp [h]
        · rcases hsign with rfl | rfl <;> simp [hs, sign, radix, isDigitOf_sixteen, hd] at h
    · obtain ⟨hplus, hminus⟩ := not_or.mp hsign
      by_cases hc : isXDigit c = true
      · cases u with
        | nil =>
          simp [hs, sign, hplus, hminus, radix, isDigitOf_sixteen, hc] at h
          obtain ⟨-, rfl⟩ := h
          exact ⟨[c], rfl, .one hc stops_nil fun _ => stops_nil⟩
        | cons d u =>
          by_cases hd : isXDigit d = true
          · obtain ⟨hx, hX⟩ := isXDigit_not_x hd
            simp [hs, sign, hplus, hminus, radix, hx, hX, isDigitOf_sixteen, hc, hd] at h
            obtain ⟨-, rfl⟩ := h
            exact ⟨[c, d], rfl, .two hc hd⟩
          · by_cases hx : c = 48 ∧ (d = 120 ∨ d = 88)
            · simp [hs, sign, radix, hx] at h
            · simp [hs, sign, hplus, hminus, radix, hx, isDigitOf_sixteen, hc, hd] at h
              obtain ⟨-, rfl⟩ := h
              refine ⟨[c], rfl, .one hc (stops_cons.mpr (by simpa using hd)) fun h0 => ?_⟩
              rw [stops_cons]
              simp [isX]
              exact not_or.mp fun hx' => hx ⟨h0, hx'⟩
      · cases u with
        | nil => simp [hs, sign, hplus, hminus, radix, isDigitOf_sixteen, hc] at h
        | cons d u =>
          by_cases hx : c = 48 ∧ (d = 120 ∨ d = 88)
          · simp [hs, sign, radix, hx] at h
          · simp [hs, sign, hplus, hminus, radix, hx, isDigitOf_sixteen, hc] at h

end Hex

end CLib
