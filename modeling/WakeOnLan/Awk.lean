import WakeOnLan.CLib.Bytes

/-!
# Awk

The text operations of AWK that small line scripts are made of.

* `Pattern` — a regular expression that is a sequence of character classes, each once, any number
  of times, or at least once. `rests` gives every way to match a prefix, `matchLen` the longest.
* `sub` / `gsub` — substitution, for patterns that do not match the empty string.
* `records` / `fields` — input split at a record separator and a field separator of one byte.
* `words`   — splitting at blanks, as the default field separator and `split (s, a, " ")` do.

`mem_rests_cons` takes a match apart class by class; `words_blanks` and `words_word` compute the
words of a text from left to right.
-/

namespace Awk

open CLib

/-! ## Patterns -/

inductive Atom where
  | one (p : UInt8 → Bool)
  | star (p : UInt8 → Bool)
  | plus (p : UInt8 → Bool)

abbrev Pattern := List Atom

/-- A text that matches itself. -/
def lit (s : Bytes) : Pattern := s.map fun c => .one (· == c)

def starRests (p : UInt8 → Bool) : Bytes → List Bytes
  | [] => [[]]
  | c :: s => (c :: s) :: if p c then starRests p s else []

/-- What can be left of the input behind a match of the class. -/
def Atom.rests : Atom → Bytes → List Bytes
  | .star p, s => starRests p s
  | .one _, [] | .plus _, [] => []
  | .one p, c :: s => if p c then [s] else []
  | .plus p, c :: s => if p c then starRests p s else []

def rests : Pattern → Bytes → List Bytes
  | [], s => [s]
  | a :: r, s => (a.rests s).flatMap (rests r)

/-- `^r` matches. -/
def matchesAt (r : Pattern) (s : Bytes) : Bool := rests r s ≠ []

/-- `r` matches somewhere. -/
def matchesIn (r : Pattern) : Bytes → Bool
  | [] => matchesAt r []
  | c :: s => matchesAt r (c :: s) || matchesIn r s

/-- The length of the longest match at the beginning of the input. -/
def matchLen (r : Pattern) (s : Bytes) : Option Nat :=
  ((rests r s).map fun t => s.length - t.length).max?

/-- `sub (r, repl, s)` -/
def sub (r : Pattern) (repl : Bytes → Bytes) : Bytes → Bytes
  | [] => []
  | c :: s =>
    match matchLen r (c :: s) with
    | some n => repl ((c :: s).take n) ++ (c :: s).drop n
    | none => c :: sub r repl s

/-- `gsub (r, repl, s)` -/
def gsub (r : Pattern) (repl : Bytes → Bytes) : Bytes → Bytes
  | [] => []
  | c :: s =>
    match matchLen r (c :: s) with
    | none | some 0 => c :: gsub r repl s
    | some (n + 1) => repl ((c :: s).take (n + 1)) ++ gsub r repl (s.drop n)
termination_by s => s.length
decreasing_by
  all_goals
    simp only [List.length_drop, List.length_cons]
    omega

/-! ## Records, fields and words -/

/-- The records of an input; the last one needs no separator behind it. -/
def records (rs : UInt8) (s : Bytes) : List Bytes :=
  let parts := s.splitOn rs
  if parts.getLast? = some [] then parts.dropLast else parts

/-- The fields of a record for a separator that is not a blank. -/
def fields (fs : UInt8) (s : Bytes) : List Bytes := if s = [] then [] else s.splitOn fs

def isBlank (c : UInt8) : Bool := c == 32 || c == 9 || c == 10

def words : Bytes → List Bytes
  | [] => []
  | c :: s =>
    if isBlank c then words s
    else
      match s with
      | [] => [[c]]
      | d :: t =>
        if isBlank d then [c] :: words (d :: t)
        else
          match words (d :: t) with
          | [] => [[c]]
          | w :: ws => (c :: w) :: ws

/-- `$i` and `a[i]`: counted from one, and empty where there is nothing. -/
def nth (xs : List Bytes) (i : Nat) : Bytes := xs.getD (i - 1) []

/-- `$0` after a field was assigned to. -/
def joinFields (xs : List Bytes) : Bytes := [32].intercalate xs

/-! ## Matching -/

theorem mem_starRests {p : UInt8 → Bool} {s r : Bytes} :
    r ∈ starRests p s ↔ ∃ tok, s = tok ++ r ∧ ∀ c ∈ tok, p c = true := by
  induction s with
  | nil =>
    constructor
    · intro h
      rw [List.mem_singleton.mp h]
      exact ⟨[], rfl, by simp⟩
    · rintro ⟨tok, h, -⟩
      rw [(List.append_eq_nil_iff.mp h.symm).2]
      exact List.mem_singleton.mpr rfl
  | cons c s ih =>
    constructor
    · intro h
      rcases List.mem_cons.mp h with rfl | h
      · exact ⟨[], rfl, by simp⟩
      · split at h
        · rename_i hc
          obtain ⟨tok, rfl, htok⟩ := ih.mp h
          exact ⟨c :: tok, rfl, by simpa [hc] using htok⟩
        · cases h
    · rintro ⟨tok, h, htok⟩
      cases tok with
      | nil =>
        rw [List.nil_append] at h
        exact h ▸ List.mem_cons_self ..
      | cons d tok =>
        rw [List.cons_append] at h
        obtain ⟨rfl, rfl⟩ := List.cons.inj h
        have hc := htok c (List.mem_cons_self ..)
        refine List.mem_cons_of_mem _ ?_
        rw [if_pos hc]
        exact ih.mpr ⟨tok, rfl, fun c hc => htok c (List.mem_cons_of_mem _ hc)⟩

theorem mem_rests_cons {a : Atom} {r : Pattern} {s t : Bytes} :
    t ∈ rests (a :: r) s ↔ ∃ m ∈ a.rests s, t ∈ rests r m := List.mem_flatMap

theorem mem_rests_star {p : UInt8 → Bool} {r : Pattern} {tok s t : Bytes}
    (htok : ∀ c ∈ tok, p c = true) (h : t ∈ rests r s) : t ∈ rests (.star p :: r) (tok ++ s) :=
  mem_rests_cons.mpr ⟨s, mem_starRests.mpr ⟨tok, rfl, htok⟩, h⟩

theorem mem_rests_plus {p : UInt8 → Bool} {r : Pattern} {tok s t : Bytes} (hne : tok ≠ [])
    (htok : ∀ c ∈ tok, p c = true) (h : t ∈ rests r s) : t ∈ rests (.plus p :: r) (tok ++ s) := by
  cases tok with
  | nil => exact absurd rfl hne
  | cons c tok =>
    refine mem_rests_cons.mpr ⟨s, ?_, h⟩
    simp only [List.cons_append, Atom.rests, if_pos (htok c (List.mem_cons_self ..))]
    exact mem_starRests.mpr ⟨tok, rfl, fun d hd => htok d (List.mem_cons_of_mem _ hd)⟩

theorem mem_rests_lit {r : Pattern} (w : Bytes) {s t : Bytes} (h : t ∈ rests r s) :
    t ∈ rests (lit w ++ r) (w ++ s) := by
  induction w with
  | nil => exact h
  | cons c w ih => exact mem_rests_cons.mpr ⟨w ++ s, by simp [Atom.rests], ih⟩

theorem matchesAt_of_mem {r : Pattern} {s t : Bytes} (h : t ∈ rests r s) :
    matchesAt r s = true := by
  simpa [matchesAt] using List.ne_nil_of_mem h

theorem exists_of_matchesAt {r : Pattern} {s : Bytes} (h : matchesAt r s = true) :
    ∃ t, t ∈ rests r s := by
  simp only [matchesAt, decide_eq_true_eq] at h
  exact List.exists_mem_of_ne_nil _ h

/-- A literal can only match where its first byte stands. -/
theorem not_matchesAt_star_lit {p : UInt8 → Bool} {r : Pattern} {b c : UInt8} {w tok s : Bytes}
    (htok : ∀ d ∈ tok, p d = true) (hb : p b = false) (hc : p c = false) (hne : c ≠ b) :
    matchesAt (.star p :: (lit (b :: w) ++ r)) (tok ++ c :: s) = false := by
  rw [Bool.eq_false_iff]
  intro h
  obtain ⟨t, ht⟩ := exists_of_matchesAt h
  obtain ⟨m, hm, ht⟩ := mem_rests_cons.mp ht
  obtain ⟨tok', heq, htok'⟩ := mem_starRests.mp hm
  obtain ⟨m', hm', -⟩ := mem_rests_cons.mp ht
  cases m with
  | nil => cases hm'
  | cons d m =>
    have hd : d = b := by
      simp only [Atom.rests] at hm'
      split at hm'
      · rename_i h
        exact eq_of_beq h
      · cases hm'
    subst hd
    rcases List.append_eq_append_iff.mp heq with ⟨u, rfl, hu⟩ | ⟨u, rfl, hu⟩
    · cases u with
      | nil => cases hu; exact hne rfl
      | cons e u =>
        cases hu
        rw [htok' c (by simp)] at hc
        cases hc
    · cases u with
      | nil => cases hu; exact hne rfl
      | cons e u =>
        cases hu
        rw [htok d (by simp)] at hb
        cases hb

theorem matchesIn_iff {r : Pattern} {s : Bytes} :
    matchesIn r s = true ↔ ∃ before t, s = before ++ t ∧ matchesAt r t = true := by
  induction s with
  | nil =>
    constructor
    · intro h
      exact ⟨[], [], rfl, h⟩
    · rintro ⟨before, t, h, ht⟩
      rw [(List.append_eq_nil_iff.mp h.symm).2] at ht
      exact ht
  | cons c s ih =>
    simp only [matchesIn, Bool.or_eq_true]
    constructor
    · rintro (h | h)
      · exact ⟨[], c :: s, rfl, h⟩
      · obtain ⟨before, t, rfl, ht⟩ := ih.mp h
        exact ⟨c :: before, t, rfl, ht⟩
    · rintro ⟨before, t, h, ht⟩
      cases before with
      | nil =>
        rw [List.nil_append] at h
        exact .inl (h ▸ ht)
      | cons d before =>
        rw [List.cons_append] at h
        obtain ⟨rfl, rfl⟩ := List.cons.inj h
        exact .inr (ih.mpr ⟨before, t, rfl, ht⟩)

section Literal

variable {p : UInt8 → Bool} {r : Pattern} {b c d : UInt8} {w a s tok : Bytes}

theorem not_matchesAt_lit (hne : c ≠ b) : matchesAt (lit (b :: w) ++ r) (c :: s) = false := by
  simp [matchesAt, lit, rests, Atom.rests, hne]

theorem matchesAt_lit_cons : matchesAt (lit (b :: w) ++ r) (b :: s) = matchesAt (lit w ++ r) s := by
  have hrests : rests (lit (b :: w) ++ r) (b :: s) = rests (lit w ++ r) s := by
    simp [lit, rests, Atom.rests]
  rw [matchesAt, hrests]
  rfl

/-- A search for a literal passes over bytes that are not its first. -/
theorem matchesIn_skip (htok : ∀ c ∈ tok, c ≠ b) :
    matchesIn (lit (b :: w) ++ r) (tok ++ s) = matchesIn (lit (b :: w) ++ r) s := by
  induction tok with
  | nil => rfl
  | cons c tok ih =>
    have hc := htok c (List.mem_cons_self ..)
    rw [List.cons_append, matchesIn, not_matchesAt_lit hc, Bool.false_or,
      ih fun d hd => htok d (List.mem_cons_of_mem _ hd)]

/-- A literal does not match where one of its bytes is missing. -/
theorem not_matchesAt_of_not_mem (hb : b ∈ w) (hs : b ∉ s) : matchesAt (lit w ++ r) s = false := by
  induction w generalizing s with
  | nil => cases hb
  | cons c w ih =>
    cases s with
    | nil => rfl
    | cons d s =>
      by_cases hd : d = c
      · subst hd
        have hbw : b ∈ w := by
          rcases List.mem_cons.mp hb with rfl | hb
          · exact absurd (List.mem_cons_self ..) hs
          · exact hb
        rw [matchesAt_lit_cons]
        exact ih hbw fun h => hs (List.mem_cons_of_mem _ h)
      · exact not_matchesAt_lit hd

theorem not_matchesIn_of_not_mem (hb : b ∈ w) (hs : b ∉ s) : matchesIn (lit w ++ r) s = false := by
  induction s with
  | nil => exact not_matchesAt_of_not_mem hb hs
  | cons c s ih =>
    rw [matchesIn, not_matchesAt_of_not_mem hb hs, ih fun h => hs (List.mem_cons_of_mem _ h)]
    rfl

/-- A match does not reach over a byte that the pattern has no place for. -/
theorem matchesAt_sep (hw : d ∉ w) (hp : p d = false) :
    matchesAt (lit w ++ [.plus p]) (a ++ d :: s) = matchesAt (lit w ++ [.plus p]) a := by
  induction w generalizing a with
  | nil =>
    cases a with
    | nil => simp [matchesAt, lit, rests, Atom.rests, hp]
    | cons c a =>
      cases hc : p c with
      | false => simp [matchesAt, lit, rests, Atom.rests, hc]
      | true =>
        have hrest : ∀ t, starRests p t ≠ [] := by
          intro t
          cases t <;> simp [starRests]
        simp [matchesAt, lit, rests, Atom.rests, hc, hrest]
  | cons b w ih =>
    have hdb : d ≠ b := fun h => hw (h ▸ List.mem_cons_self ..)
    have hdw : d ∉ w := fun h => hw (List.mem_cons_of_mem _ h)
    cases a with
    | nil => exact not_matchesAt_lit hdb
    | cons c a =>
      by_cases hc : c = b
      · subst hc
        rw [List.cons_append, matchesAt_lit_cons, matchesAt_lit_cons, ih hdw]
      · rw [List.cons_append, not_matchesAt_lit hc, not_matchesAt_lit hc]

theorem matchesIn_sep (hw : d ∉ w) (hp : p d = false) :
    matchesIn (lit w ++ [.plus p]) (a ++ d :: s) =
      (matchesIn (lit w ++ [.plus p]) a || matchesIn (lit w ++ [.plus p]) s) := by
  induction a with
  | nil =>
    have hnil : matchesAt (lit w ++ [.plus p]) ([] ++ d :: s) = matchesAt (lit w ++ [.plus p]) [] :=
      matchesAt_sep hw hp
    rw [List.nil_append] at hnil
    rw [List.nil_append, matchesIn, matchesIn, hnil]
  | cons c a ih =>
    rw [List.cons_append, matchesIn, matchesIn, ih, ← List.cons_append, matchesAt_sep hw hp,
      Bool.or_assoc]

/-- A text that is joined from fields has a match where one of its fields has. -/
theorem matchesIn_join (hw : d ∉ w) (hp : p d = false) (x : Bytes) (xs : List Bytes) :
    matchesIn (lit w ++ [.plus p]) ([d].intercalate (x :: xs)) =
      (x :: xs).any (matchesIn (lit w ++ [.plus p])) := by
  induction xs generalizing x with
  | nil => simp
  | cons y xs ih =>
    rw [List.intercalate_cons_cons, List.append_assoc, List.singleton_append, matchesIn_sep hw hp,
      ih y]
    rfl

end Literal

theorem matchesIn_of_mem {r : Pattern} {s t : Bytes} (h : t ∈ rests r s) :
    matchesIn r s = true := matchesIn_iff.mpr ⟨[], s, rfl, matchesAt_of_mem h⟩

/-! ## Substitution -/

section Substitution

variable {p q : UInt8 → Bool} {r : Pattern} {repl : Bytes → Bytes} {b c : UInt8} {s tok : Bytes}

theorem matchLen_one_none (hc : p c = false) : matchLen (.one p :: r) (c :: s) = none := by
  simp [matchLen, rests, Atom.rests, hc]

theorem matchLen_single (hc : p c = true) : matchLen [.one p] (c :: s) = some 1 := by
  simp [matchLen, rests, Atom.rests, hc]

theorem sub_skip (htok : ∀ d ∈ tok, p d = false) :
    sub (.one p :: r) repl (tok ++ s) = tok ++ sub (.one p :: r) repl s := by
  induction tok with
  | nil => rfl
  | cons d tok ih =>
    have hd := htok d (List.mem_cons_self ..)
    rw [List.cons_append, sub, matchLen_one_none hd,
      ih fun e he => htok e (List.mem_cons_of_mem _ he)]
    rfl

theorem sub_single (hc : p c = true) : sub [.one p] repl (c :: s) = repl [c] ++ s := by
  rw [sub, matchLen_single hc]
  rfl

theorem gsub_nil : gsub r repl [] = [] := by rw [gsub]

theorem gsub_none (h : matchLen r (c :: s) = none) :
    gsub r repl (c :: s) = c :: gsub r repl s := by
  rw [gsub, h]

theorem gsub_some {n : Nat} (h : matchLen r (c :: s) = some (n + 1)) :
    gsub r repl (c :: s) = repl ((c :: s).take (n + 1)) ++ gsub r repl (s.drop n) := by
  rw [gsub, h]

theorem gsub_skip (htok : ∀ d ∈ tok, p d = false) :
    gsub (.one p :: r) repl (tok ++ s) = tok ++ gsub (.one p :: r) repl s := by
  induction tok with
  | nil => rfl
  | cons d tok ih =>
    have hd := htok d (List.mem_cons_self ..)
    rw [List.cons_append, gsub_none (matchLen_one_none hd),
      ih fun e he => htok e (List.mem_cons_of_mem _ he)]
    rfl

theorem matchLen_lit (w s : Bytes) : matchLen (lit w) (w ++ s) = some w.length := by
  have hrests : rests (lit w) (w ++ s) = [s] := by
    induction w with
    | nil => rfl
    | cons c w ih =>
      simp only [lit, List.map_cons, rests, Atom.rests, List.cons_append, beq_self_eq_true, if_true,
        List.flatMap_cons, List.flatMap_nil, List.append_nil]
      exact ih
  simp [matchLen, hrests]

/-- A literal is taken out where it stands. -/
theorem gsub_lit (w s : Bytes) :
    gsub (lit (b :: w)) (fun _ => []) (b :: w ++ s) = gsub (lit (b :: w)) (fun _ => []) s := by
  have hlen : matchLen (lit (b :: w)) (b :: (w ++ s)) = some (w.length + 1) :=
    matchLen_lit (b :: w) s
  rw [List.cons_append, gsub_some hlen]
  simp

/-- Where a byte of a literal is missing, nothing is taken out. -/
theorem gsub_lit_all {w : Bytes} (hb : b ∈ w) (hs : b ∉ s) : gsub (lit w) repl s = s := by
  induction s with
  | nil => exact gsub_nil
  | cons c s ih =>
    have hno : matchesAt (lit w ++ []) (c :: s) = false := not_matchesAt_of_not_mem hb hs
    have hlen : matchLen (lit w) (c :: s) = none := by
      rw [List.append_nil] at hno
      simp only [matchesAt, ne_eq, decide_eq_false_iff_not, not_not] at hno
      simp [matchLen, hno]
    rw [gsub_none hlen, ih fun h => hs (List.mem_cons_of_mem _ h)]

theorem gsub_pair (hb : p b = true) (hc : q c = true) :
    gsub [.one p, .one q] repl (b :: c :: s) = repl [b, c] ++ gsub [.one p, .one q] repl s := by
  have hlen : matchLen [.one p, .one q] (b :: c :: s) = some 2 := by
    simp [matchLen, rests, Atom.rests, hb, hc]
    omega
  rw [gsub_some (n := 1) hlen]
  rfl

end Substitution

/-! ## Records -/

section Records

variable {rs : UInt8} {ls : List Bytes} {last : Bytes}

theorem intercalate_eq (x : Bytes) (xs : List Bytes) :
    [rs].intercalate (x :: xs) = x ++ xs.flatMap (rs :: ·) := by
  induction xs generalizing x with
  | nil => simp
  | cons y xs ih =>
    rw [List.intercalate_cons_cons, ih y]
    simp

theorem splitOn_terminated (h : ∀ l ∈ ls, rs ∉ l) (hlast : rs ∉ last) :
    (ls.flatMap (· ++ [rs]) ++ last).splitOn rs = ls ++ [last] := by
  induction ls with
  | nil => exact List.splitOn_eq_singleton hlast
  | cons l ls ih =>
    have htext : ((l :: ls).flatMap (· ++ [rs]) ++ last) =
        l ++ rs :: (ls.flatMap (· ++ [rs]) ++ last) := by simp
    rw [htext, List.splitOn_append_cons_self_of_not_mem (h l (List.mem_cons_self ..)),
      ih fun l hl => h l (List.mem_cons_of_mem _ hl)]
    rfl

/-- The records of a text are what its separators terminate, and what is left at the end. -/
theorem records_terminated (h : ∀ l ∈ ls, rs ∉ l) (hlast : rs ∉ last) :
    records rs (ls.flatMap (· ++ [rs]) ++ last) = ls ++ if last = [] then [] else [last] := by
  simp only [records, splitOn_terminated h hlast]
  by_cases hl : last = [] <;> simp [hl]

/-- A fold over the records, where the empty record does nothing. -/
theorem foldl_records {α : Type} {f : α → Bytes → α} (hf : ∀ a, f a [] = a) (a : α) (s : Bytes) :
    (records rs s).foldl f a = (s.splitOn rs).foldl f a := by
  simp only [records]
  split
  · rename_i h
    obtain ⟨parts, hparts⟩ := List.getLast?_eq_some_iff.mp h
    rw [hparts, List.dropLast_concat, List.foldl_append]
    exact (hf _).symm
  · rfl

end Records

/-! ## Words -/

theorem words_cons_blank {c : UInt8} (hc : isBlank c = true) (s : Bytes) :
    words (c :: s) = words s := by
  rw [words.eq_def]
  simp [hc]

theorem words_blanks {w : Bytes} (hw : ∀ c ∈ w, isBlank c = true) (s : Bytes) :
    words (w ++ s) = words s := by
  induction w with
  | nil => rfl
  | cons c w ih =>
    have hc := hw c (List.mem_cons_self ..)
    rw [List.cons_append, words_cons_blank hc, ih fun d hd => hw d (List.mem_cons_of_mem _ hd)]

/-- A word up to the next blank. -/
theorem words_word {w s : Bytes} (hne : w ≠ []) (hw : ∀ c ∈ w, isBlank c = false)
    (hs : Stops (fun c => !isBlank c) s) : words (w ++ s) = w :: words s := by
  induction w with
  | nil => exact absurd rfl hne
  | cons c w ih =>
    have hc := hw c (List.mem_cons_self ..)
    cases w with
    | nil =>
      cases s with
      | nil => simp [words, hc]
      | cons d s =>
        have hd : isBlank d = true := by simpa using stops_cons.mp hs
        simp [words, hc, hd]
    | cons d w =>
      have hd := hw d (by simp)
      have := ih (by simp) (fun e he => hw e (List.mem_cons_of_mem _ he))
      rw [List.cons_append] at this
      rw [List.cons_append, List.cons_append, words, if_neg (by simp [hc]), if_neg (by simp [hd]),
        this]

theorem words_ne_nil {c : UInt8} (hc : isBlank c = false) (s : Bytes) : words (c :: s) ≠ [] := by
  cases s with
  | nil => simp [words, hc]
  | cons d s =>
    rw [words, if_neg (by simp [hc])]
    split
    · simp
    · split <;> simp

/-- The words of a text have characters, and no blank among them. -/
theorem mem_words {s w : Bytes} (h : w ∈ words s) : w ≠ [] ∧ ∀ c ∈ w, isBlank c = false := by
  induction s using words.induct generalizing w with
  | case1 => cases h
  | case2 d s hd ih => exact ih (by rwa [words_cons_blank hd] at h)
  | case3 d hd =>
    rw [words, if_neg hd, List.mem_singleton] at h
    subst h
    simpa using hd
  | case4 d hd e s he ih =>
    rw [words, if_neg hd, if_pos he] at h
    rcases List.mem_cons.mp h with rfl | h
    · simpa using hd
    · exact ih h
  | case5 d hd e s he hw ih => exact absurd hw (words_ne_nil (by simpa using he) s)
  | case6 d hd e s he w' ws hw ih =>
    rw [words, if_neg hd, if_neg he, hw] at h
    rcases List.mem_cons.mp h with rfl | h
    · obtain ⟨-, hblank⟩ := ih (hw ▸ List.mem_cons_self)
      exact ⟨List.cons_ne_nil _ _, List.forall_mem_cons.mpr ⟨by simpa using hd, hblank⟩⟩
    · exact ih (hw ▸ List.mem_cons_of_mem _ h)

/-- The words of two texts with a blank between them. -/
theorem words_append {c : UInt8} (hc : isBlank c = true) (s t : Bytes) :
    words (s ++ c :: t) = words s ++ words t := by
  induction s using words.induct with
  | case1 => exact words_cons_blank hc t
  | case2 d s hd ih => rw [List.cons_append, words_cons_blank hd, words_cons_blank hd, ih]
  | case3 d hd => simp [words, hd, hc, words_cons_blank hc]
  | case4 d hd e s he ih =>
    rw [List.cons_append, List.cons_append, words, if_neg hd, if_pos he, ← List.cons_append, ih,
      words, if_neg hd, if_pos he]
    rfl
  | case5 d hd e s he hw ih => exact absurd hw (words_ne_nil (by simpa using he) s)
  | case6 d hd e s he w ws hw ih =>
    rw [List.cons_append, List.cons_append, words, if_neg hd, if_neg he, ← List.cons_append, ih, hw,
      words, if_neg hd, if_neg he, hw]
    rfl

theorem words_single {w : Bytes} (hne : w ≠ []) (hw : ∀ c ∈ w, isBlank c = false) :
    words w = [w] := by
  have h : words (w ++ []) = w :: words [] := words_word hne hw stops_nil
  rwa [List.append_nil] at h

end Awk
