import WakeOnLan.CLib.Bytes

/-!
# CLib.Stdio

An input stream of the C library and `getline`.

* `File`    — the bytes still to come, what lies behind the last of them (the end of the file or a
  read error), and the two sticky flags that `feof` and `ferror` report.
* `getline` — the next line with its newline; an unterminated last line sets the flag of what
  lies behind it, and with nothing left to read the result is `none` (`-1`).
* `lines`   — the lines of a byte stream, each with its newline; `wholeLines` leaves an unterminated
  last one out.
* `byLines` — the induction principle that follows the lines of a stream.
-/

namespace CLib

inductive Ending where
  | eof
  | error
  deriving DecidableEq, Repr

structure File where
  rest : Bytes
  ending : Ending
  feof : Bool
  ferror : Bool
  deriving DecidableEq, Repr

/-- A stream that has just been opened. -/
def fopened (content : Bytes) (ending : Ending) : File :=
  { rest := content, ending := ending, feof := false, ferror := false }

/-- A read ran into what lies behind the last byte. -/
def File.hitEnd (fp : File) : File :=
  match fp.ending with
  | .eof => { fp with rest := [], feof := true }
  | .error => { fp with rest := [], ferror := true }

/-- The bytes up to and including the first newline, and the bytes after it. -/
def breakLine : Bytes → Bytes × Bytes
  | [] => ([], [])
  | c :: s => if c = 10 then ([10], s) else (c :: (breakLine s).1, (breakLine s).2)

def getline (fp : File) : Option Bytes × File :=
  let line := (breakLine fp.rest).1
  if line.getLast? = some 10 then (some line, { fp with rest := (breakLine fp.rest).2 })
  else if line = [] then (none, fp.hitEnd)
  else (some line, fp.hitEnd)

def lines : Bytes → List Bytes
  | [] => []
  | c :: s =>
    if c = 10 then [10] :: lines s
    else
      match lines s with
      | [] => [[c]]
      | l :: ls => (c :: l) :: ls

/-- The lines that come with their newline. -/
def wholeLines (s : Bytes) : List Bytes := (lines s).filter (·.getLast? == some 10)

/-- Every line of the stream ends in a newline; the empty stream has none. -/
def NewlineTerminated (s : Bytes) : Prop := s = [] ∨ s.getLast? = some 10

instance (s : Bytes) : Decidable (NewlineTerminated s) :=
  inferInstanceAs (Decidable (_ ∨ _))

/-! ## Lines of a stream -/

theorem breakLine_line {l : Bytes} (hl : 10 ∉ l) (s : Bytes) :
    breakLine (l ++ 10 :: s) = (l ++ [10], s) := by
  induction l with
  | nil => simp [breakLine]
  | cons c l ih =>
    obtain ⟨hc, hl⟩ := not_or.mp (List.mem_cons.not.mp hl)
    simp [breakLine, Ne.symm hc, ih hl]

theorem breakLine_tail {t : Bytes} (ht : 10 ∉ t) : breakLine t = (t, []) := by
  induction t with
  | nil => rfl
  | cons c t ih =>
    obtain ⟨hc, ht⟩ := not_or.mp (List.mem_cons.not.mp ht)
    simp [breakLine, Ne.symm hc, ih ht]

theorem length_breakLine_le (s : Bytes) : (breakLine s).2.length ≤ s.length := by
  induction s with
  | nil => exact Nat.le_refl _
  | cons c s ih =>
    unfold breakLine
    split
    · exact Nat.le_succ _
    · exact Nat.le_succ_of_le ih

theorem lines_line {l : Bytes} (hl : 10 ∉ l) (s : Bytes) :
    lines (l ++ 10 :: s) = (l ++ [10]) :: lines s := by
  induction l with
  | nil => simp [lines]
  | cons c l ih =>
    obtain ⟨hc, hl⟩ := not_or.mp (List.mem_cons.not.mp hl)
    simp [lines, Ne.symm hc, ih hl]

theorem lines_tail {t : Bytes} (ht : 10 ∉ t) (hne : t ≠ []) : lines t = [t] := by
  induction t with
  | nil => exact absurd rfl hne
  | cons c t ih =>
    obtain ⟨hc, ht⟩ := not_or.mp (List.mem_cons.not.mp ht)
    cases t with
    | nil => simp [lines, Ne.symm hc]
    | cons d t => rw [lines, if_neg (Ne.symm hc), ih ht (by simp)]

/-- A stream is empty, or an unterminated line, or a line and a stream. -/
theorem byLines {P : Bytes → Prop} (nil : P []) (tail : ∀ t, 10 ∉ t → t ≠ [] → P t)
    (line : ∀ l s, 10 ∉ l → P s → P (l ++ 10 :: s)) (s : Bytes) : P s := by
  have key : ∀ n (s : Bytes), s.length ≤ n → P s := by
    intro n
    induction n with
    | zero =>
      intro s hs
      rw [List.length_eq_zero_iff.mp (Nat.le_zero.mp hs)]
      exact nil
    | succ n ih =>
      intro s hs
      by_cases h : 10 ∈ s
      · obtain ⟨l, r, rfl, hl⟩ := List.eq_append_cons_of_mem h
        refine line l r hl (ih r ?_)
        simp only [List.length_append, List.length_cons] at hs
        omega
      · by_cases hne : s = []
        · exact hne ▸ nil
        · exact tail s h hne
  exact key s.length s (Nat.le_refl _)

theorem not_newlineTerminated_tail {t : Bytes} (ht : 10 ∉ t) (hne : t ≠ []) :
    ¬ NewlineTerminated t := by
  rintro (h | h)
  · exact hne h
  · exact ht (List.mem_of_getLast? h)

theorem newlineTerminated_line {l s : Bytes} :
    NewlineTerminated (l ++ 10 :: s) ↔ NewlineTerminated s := by
  cases s with
  | nil => simp [NewlineTerminated]
  | cons c s => simp [NewlineTerminated, List.getLast?_append, List.getLast?_cons_cons]

theorem wholeLines_line {l : Bytes} (hl : 10 ∉ l) (s : Bytes) :
    wholeLines (l ++ 10 :: s) = (l ++ [10]) :: wholeLines s := by
  have hlast : ((l ++ [10]).getLast? == some 10) = true := by simp
  rw [wholeLines, lines_line hl, List.filter_cons, if_pos hlast]
  rfl

theorem wholeLines_tail {t : Bytes} (ht : 10 ∉ t) : wholeLines t = [] := by
  by_cases hne : t = []
  · subst hne
    rfl
  · have hlast : ¬ (t.getLast? == some 10) = true := by
      rw [beq_iff_eq]
      exact fun h => ht (List.mem_of_getLast? h)
    rw [wholeLines, lines_tail ht hne, List.filter_cons, if_neg hlast]
    rfl

theorem wholeLines_eq {s : Bytes} (h : NewlineTerminated s) : wholeLines s = lines s := by
  induction s using byLines with
  | nil => rfl
  | tail t ht hne => exact absurd h (not_newlineTerminated_tail ht hne)
  | line l s hl ih => rw [wholeLines_line hl, lines_line hl, ih (newlineTerminated_line.mp h)]

/-- The lines of a newline-terminated stream do not depend on what follows it. -/
theorem lines_append {a : Bytes} (ha : NewlineTerminated a) (b : Bytes) :
    lines (a ++ b) = lines a ++ lines b := by
  induction a using byLines with
  | nil => rfl
  | tail t ht hne => exact absurd ha (not_newlineTerminated_tail ht hne)
  | line l s hl ih =>
    have := ih (newlineTerminated_line.mp ha)
    rw [List.append_assoc, List.cons_append, lines_line hl, lines_line hl, this, List.cons_append]

theorem NewlineTerminated.append {a b : Bytes} (ha : NewlineTerminated a)
    (hb : NewlineTerminated b) : NewlineTerminated (a ++ b) := by
  rcases hb with rfl | hb
  · rwa [List.append_nil]
  · exact .inr (by simp [List.getLast?_append, hb])

/-! ## `getline` -/

theorem getline_line {l : Bytes} (hl : 10 ∉ l) {fp : File} {s : Bytes}
    (hfp : fp.rest = l ++ 10 :: s) : getline fp = (some (l ++ [10]), { fp with rest := s }) := by
  simp [getline, hfp, breakLine_line hl]

theorem getline_tail {fp : File} (ht : 10 ∉ fp.rest) (hne : fp.rest ≠ []) :
    getline fp = (some fp.rest, fp.hitEnd) := by
  have : fp.rest.getLast? ≠ some 10 := fun h => ht (List.mem_of_getLast? h)
  simp [getline, breakLine_tail ht, this, hne]

theorem getline_nil {fp : File} (h : fp.rest = []) : getline fp = (none, fp.hitEnd) := by
  simp [getline, h, breakLine]

/-- What lies behind the last byte stays what it is. -/
@[simp] theorem File.hitEnd_ending (fp : File) : fp.hitEnd.ending = fp.ending := by
  unfold File.hitEnd
  split <;> rfl

theorem File.hitEnd_ferror {fp : File} (h : fp.ending = .error) : fp.hitEnd.ferror = true := by
  rw [File.hitEnd, h]

theorem getline_ending {fp fp' : File} {line : Option Bytes} (h : getline fp = (line, fp')) :
    fp'.ending = fp.ending := by
  simp only [getline] at h
  split at h
  · cases h
    rfl
  · split at h
    · cases h
      exact fp.hitEnd_ending
    · cases h
      exact fp.hitEnd_ending

/-- Nothing to read: a flag is set. -/
theorem getline_none {fp fp' : File} (h : getline fp = (none, fp')) : fp' = fp.hitEnd := by
  simp only [getline] at h
  split at h
  · cases h
  · split at h
    · cases h
      rfl
    · cases h

/-- A line that is handed back has been taken from the stream. -/
theorem getline_length_lt {fp fp' : File} {line : Bytes} (h : getline fp = (some line, fp')) :
    fp'.rest.length < fp.rest.length := by
  cases hr : fp.rest with
  | nil => simp [getline_nil hr] at h
  | cons c s =>
    have hle := length_breakLine_le s
    have hend : fp.hitEnd.rest = [] := by
      unfold File.hitEnd
      split <;> rfl
    simp only [getline, hr] at h
    split at h
    · cases h
      simp only [breakLine]
      split
      · exact Nat.lt_succ_self _
      · exact Nat.lt_succ_of_le hle
    · split at h
      · cases h
      · cases h
        rw [hend]
        exact Nat.succ_pos _

end CLib
