import WakeOnLan.CLib.Memory
import WakeOnLan.CLib.Scanf

/-!
# CLib.Checked

Accesses that are checked against the array: one with any part outside of it is a `Fault`.

* `storeAt`         — a checked store. Within the array it is `writeAt`.
* `foldlM_checked`  — a loop of checked rounds is the loop without the checks, as long as every
  round is within bounds.
* `pairReads`       — how many bytes `%2x` looks at. When they are all in the array, what lies
  behind it does not matter (`sscanf_pair_append`); when one is not, it does (`sscanf_pair_two`).
-/

namespace CLib

def storeAt (p : Bytes) (off : Nat) (bs : Bytes) : Except Fault Bytes :=
  if off + bs.length ≤ p.length then .ok (writeAt p off bs) else .error .overflow

theorem storeAt_ok {p bs : Bytes} {off : Nat} (h : off + bs.length ≤ p.length) :
    storeAt p off bs = .ok (writeAt p off bs) := if_pos h

theorem storeAt_overflow {p bs : Bytes} {off : Nat} (h : p.length < off + bs.length) :
    storeAt p off bs = .error .overflow := if_neg (Nat.not_le_of_lt h)

/-- A store within the array leaves what is behind it alone. -/
theorem writeAt_slack {p bs : Bytes} {off : Nat} (h : off + bs.length ≤ p.length) (s : Bytes) :
    writeAt (p ++ s) off bs = writeAt p off bs ++ s := by
  rw [writeAt_eq (by rw [List.length_append]; omega), writeAt_eq h,
    List.take_append_of_le_length (by omega), List.drop_append_of_le_length h]
  simp only [List.append_assoc]

/-! ## Loops -/

section Loop

variable {step : Bytes → Nat → Except Fault Bytes} {f : Bytes → Nat → Bytes} {p : Bytes} {n : Nat}

theorem foldlM_range_succ (step : Bytes → Nat → Except Fault Bytes) (p : Bytes) (n : Nat) :
    (List.range (n + 1)).foldlM step p = (List.range n).foldlM step p >>= fun q => step q n := by
  rw [List.range_succ, List.foldlM_append]
  congr 1
  funext q
  simp

/-- Whether a round is within bounds depends on its index only, so the loop ends with a result
exactly if all its rounds are. -/
theorem foldlM_checked (ok : Nat → Prop) [DecidablePred ok]
    (hstep : ∀ q j, q.length = p.length → j < n →
      step q j = if ok j then .ok (f q j) else .error .overflow)
    (hlen : ∀ q j, (f q j).length = q.length) :
    (List.range n).foldlM step p =
      if ∀ j < n, ok j then .ok ((List.range n).foldl f p) else .error .overflow := by
  induction n with
  | zero => simp [pure, Except.pure]
  | succ n ih =>
    have hih := ih fun q j hq hj => hstep q j hq (Nat.lt_succ_of_lt hj)
    rw [foldlM_range_succ, hih]
    by_cases hall : ∀ j < n, ok j
    · have hround := hstep _ n (length_foldl_range hlen p n) (Nat.lt_succ_self n)
      have hlast : (∀ j < n + 1, ok j) ↔ ok n := by
        rw [Nat.forall_lt_succ_right]
        exact and_iff_right hall
      rw [if_pos hall, List.range_succ, List.foldl_append]
      simp only [bind, Except.bind, hround, hlast, List.foldl_cons, List.foldl_nil]
    · have hlast : ¬ ∀ j < n + 1, ok j := fun h => hall fun j hj => h j (Nat.lt_succ_of_lt hj)
      rw [if_neg hall, if_neg hlast]
      rfl

/-- Rounds that leave what is behind the array alone make a loop that does. -/
theorem foldl_slack {g : Bytes → Nat → Bytes} {s : Bytes}
    (h : ∀ q j, q.length = p.length → j < n → g (q ++ s) j = f q j ++ s)
    (hlen : ∀ q j, (f q j).length = q.length) :
    (List.range n).foldl g (p ++ s) = (List.range n).foldl f p ++ s := by
  induction n with
  | zero => rfl
  | succ n ih =>
    have hih := ih fun q j hq hj => h q j hq (Nat.lt_succ_of_lt hj)
    rw [List.range_succ, List.foldl_append, List.foldl_append, hih, List.foldl_cons,
      List.foldl_nil, List.foldl_cons, List.foldl_nil,
      h _ n (length_foldl_range hlen p n) (Nat.lt_succ_self n)]

end Loop

/-! ## What `%2x` looks at -/

/-- White space, and then a byte that may begin a number and the one after it, or one that may
not. -/
def pairReads (s : Bytes) : Nat :=
  (s.takeWhile isSpace).length +
    match s.dropWhile isSpace with
    | c :: _ => if isXDigit c = true ∨ c = 43 ∨ c = 45 then 2 else 1
    | [] => 1

/-- The number in a field of at most two bytes. -/
def pairValue (field : Bytes) : Option UInt32 :=
  let ds := (radix 16 (sign field).2).takeWhile (isDigitOf 16)
  if ds = [] then none else some (strtoul (sign field).1 (digitsVal 16 ds))

theorem scan_pair_values (s : Bytes) :
    (scan [.num 16 (some 2)] s).values =
      ((pairValue ((s.dropWhile isSpace).take 2)).map Value.num).toList := by
  by_cases ht : s.dropWhile isSpace = []
  · simp [scan, Directive.scan, scanNum, ht, pairValue, sign, radix]
  · by_cases hds : (radix 16 (sign ((s.dropWhile isSpace).take 2)).2).takeWhile
        (isDigitOf 16) = []
    · simp [scan, Directive.scan, scanNum, ht, window, pairValue, hds]
    · simp [scan, Directive.scan, scanNum, ht, window, pairValue, hds]

/-- A field that begins with no digit and no sign has no number. -/
theorem pairValue_none {c : UInt8} (hx : isXDigit c = false) (hs : c ≠ 43 ∧ c ≠ 45) (t : Bytes) :
    pairValue (c :: t) = none := by
  have h48 : c ≠ 48 := by
    rintro rfl
    cases hx
  have hdig : isDigitOf 16 c = false := by rw [isDigitOf_sixteen]; exact hx
  have hradix : radix 16 (c :: t) = c :: t := by
    cases t with
    | nil => rfl
    | cons x t => simp [radix, h48]
  simp [pairValue, sign, hs.1, hs.2, hradix, hdig]

theorem dropWhile_cstr {b t : Bytes} (hb : ∀ c ∈ b, isSpace c = true) (ht : Stops isSpace t) :
    (cstr (b ++ t)).dropWhile isSpace = cstr t := by
  have hne : ∀ c ∈ b, (c != 0) = true := by
    intro c hc
    have := hb c hc
    simp only [bne_iff_ne]
    rintro rfl
    cases this
  have hstop : Stops isSpace (cstr t) := by
    cases t with
    | nil => exact stops_nil
    | cons c t =>
      rw [cstr, List.takeWhile_cons]
      split
      · exact stops_cons.mpr (stops_cons.mp ht)
      · exact stops_nil
  rw [cstr, List.takeWhile_append_of_pos hne]
  exact dropWhile_munch hb hstop

/-- When all the bytes that `%2x` looks at are there, it does not see what follows them. -/
theorem sscanf_pair_append {s : Bytes} (h : pairReads s ≤ s.length) (r : Bytes) :
    (sscanf (s ++ r) [.num 16 (some 2)]).values = (sscanf s [.num 16 (some 2)]).values := by
  have hb : ∀ c ∈ s.takeWhile isSpace, isSpace c = true :=
    fun c hc => List.all_eq_true.mp List.all_takeWhile c hc
  have hstop := stops_dropWhile (p := isSpace) s
  have hsplit : s = s.takeWhile isSpace ++ s.dropWhile isSpace :=
    List.takeWhile_append_dropWhile.symm
  have hlen := congrArg List.length hsplit
  rw [List.length_append] at hlen
  simp only [sscanf, scan_pair_values]
  congr 2
  cases ht : s.dropWhile isSpace with
  | nil =>
    simp only [pairReads, ht] at h
    rw [ht, List.length_nil] at hlen
    omega
  | cons c t =>
    rw [ht] at hstop hsplit hlen
    have hnon := stops_cons.mp hstop
    rw [hsplit, List.append_assoc, dropWhile_cstr hb (by simpa using hnon),
      dropWhile_cstr hb (by simpa using hnon)]
    by_cases hc : isXDigit c = true ∨ c = 43 ∨ c = 45
    · -- two bytes are looked at, and both are there
      simp only [pairReads, ht, if_pos hc] at h
      cases t with
      | nil =>
        simp only [List.length_cons, List.length_nil] at hlen
        omega
      | cons d t =>
        by_cases hc0 : c = 0
        · simp [cstr, hc0]
        · by_cases hd0 : d = 0
          · simp [cstr, hc0, hd0]
          · simp [cstr, hc0, hd0]
    · simp only [not_or, Bool.not_eq_true] at hc
      by_cases hc0 : c = 0
      · simp [cstr, hc0]
      · simp [cstr, hc0, pairValue_none hc.1 hc.2]

theorem pairValue_two {c : UInt8} (h : isXDigit c = true ∨ c = 43 ∨ c = 45) :
    ∃ v w, pairValue [c, 49] = some v ∧ pairValue [c, 50] = some w ∧ v.toUInt8 ≠ w.toUInt8 := by
  have hall : ∀ c : UInt8, (isXDigit c = true ∨ c = 43 ∨ c = 45) →
      (pairValue [c, 49]).isSome ∧ (pairValue [c, 50]).isSome ∧
        (pairValue [c, 49]).map UInt32.toUInt8 ≠ (pairValue [c, 50]).map UInt32.toUInt8 := by
    apply forall_byte
    decide +kernel
  obtain ⟨hv, hw, hne⟩ := hall c h
  obtain ⟨v, hv⟩ := Option.isSome_iff_exists.mp hv
  obtain ⟨w, hw⟩ := Option.isSome_iff_exists.mp hw
  rw [hv, hw] at hne
  exact ⟨v, w, hv, hw, fun heq => hne (congrArg some heq)⟩

/-- When a byte that `%2x` looks at is missing, the byte that lies there decides. -/
theorem sscanf_pair_two {s : Bytes} (h : s.length < pairReads s) :
    ∃ v w, (sscanf (s ++ [49]) [.num 16 (some 2)]).values = [.num v] ∧
      (sscanf (s ++ [50]) [.num 16 (some 2)]).values = [.num w] ∧ v.toUInt8 ≠ w.toUInt8 := by
  have hb : ∀ c ∈ s.takeWhile isSpace, isSpace c = true :=
    fun c hc => List.all_eq_true.mp List.all_takeWhile c hc
  have hsplit : s = s.takeWhile isSpace ++ s.dropWhile isSpace :=
    List.takeWhile_append_dropWhile.symm
  have hlen := congrArg List.length hsplit
  rw [List.length_append] at hlen
  simp only [sscanf, scan_pair_values]
  cases ht : s.dropWhile isSpace with
  | nil =>
    rw [ht, List.append_nil] at hsplit
    rw [hsplit, dropWhile_cstr hb (stops_cons.mpr rfl), dropWhile_cstr hb (stops_cons.mpr rfl)]
    exact ⟨1, 2, by decide +kernel, by decide +kernel, by decide⟩
  | cons c t =>
    have hnon : isSpace c = false := by
      have hstop := stops_dropWhile (p := isSpace) s
      rw [ht] at hstop
      exact stops_cons.mp hstop
    -- a byte that needs no second one was all there
    have hc : isXDigit c = true ∨ c = 43 ∨ c = 45 := by
      by_contra hc
      simp only [pairReads, ht, if_neg hc] at h
      simp only [ht, List.length_cons] at hlen
      omega
    obtain rfl : t = [] := by
      simp only [pairReads, ht, if_pos hc] at h
      simp only [ht, List.length_cons] at hlen
      exact List.length_eq_zero_iff.mp (by omega)
    have hc0 : c ≠ 0 := by
      rintro rfl
      revert hc
      decide
    obtain ⟨v, w, hv, hw, hne⟩ := pairValue_two hc
    refine ⟨v, w, ?_, ?_, hne⟩
    · rw [hsplit, ht, List.append_assoc, List.singleton_append,
        dropWhile_cstr hb (stops_cons.mpr hnon)]
      simp [cstr, hc0, hv]
    · rw [hsplit, ht, List.append_assoc, List.singleton_append,
        dropWhile_cstr hb (stops_cons.mpr hnon)]
      simp [cstr, hc0, hw]

end CLib
