import WakeOnLan.Getstr
import WakeOnLan.MacfileStream

/-!
# WakeOnLan.GetstrCorrect

`getstr` reads a line of any length, into any buffer.

* `upTo`           — the bytes up to and including the first delimiter, and the bytes after it.
* `Reading.Holds`  — the invariant of the loop: what was read lies at the front of the buffer, the
  free part is counted right, and the block is no larger than `cap`. Below `2 ^ 31` bytes an `int`
  can count what is free.
* `getstr_reads`   — no assertion fails, no store leaves the block, and what the call hands back is
  the line, with its NUL, behind the first `offset` bytes of the old buffer.
-/

namespace WakeOnLan

open CLib

namespace Getstr

/-! ## Lines -/

def stop (delim1 delim2 c : UInt8) : Bool := c == delim1 || (delim2 != 0 && c == delim2)

theorem stop_iff {delim1 delim2 c : UInt8} :
    stop delim1 delim2 c = true ↔ c = delim1 ∨ (delim2 ≠ 0 ∧ c = delim2) := by
  simp [stop]

def upTo (p : UInt8 → Bool) : Bytes → Bytes × Bytes
  | [] => ([], [])
  | c :: s => if p c then ([c], s) else (c :: (upTo p s).1, (upTo p s).2)

/-! ## One round -/

structure Reading.Holds (r : Reading) (pre : Bytes) (cap : Nat) : Prop where
  front : pre <+: r.lineptr
  pos : r.readPos = pre.length
  avail : r.ncharsAvail = (r.lineptr.length : Int) - pre.length
  bounded : r.lineptr.length ≤ cap

/-- No block of up to `cap` bytes is refused. -/
def Heap.Ample (heap : Heap) (cap : Nat) : Prop := ∀ n ≤ cap, (heap n).isSome

theorem grow_eq {n : Nat} (h : n < 2 ^ 31) :
    grow n = if n > minChunk then n * 2 else n + minChunk := by
  have hdouble : asSize ((n : Int) * 2) = n * 2 := by
    rw [asSize_of_lt] <;> omega
  have hchunk : asSize ((n : Int) + minChunk) = n + minChunk := by
    rw [asSize_of_lt] <;> unfold minChunk <;> omega
  rw [grow, hdouble, hchunk]

theorem realloc_prefix {heap : Heap} {cap n : Nat} (hheap : heap.Ample cap) (hn : n ≤ cap)
    {p : Bytes} (hle : p.length ≤ n) :
    ∃ q, realloc heap p n = some q ∧ q.length = n ∧ p <+: q := by
  obtain ⟨fresh, hfresh⟩ := Option.isSome_iff_exists.mp (hheap n hn)
  refine ⟨xrealloc fresh p n, by simp [realloc, hfresh], length_xrealloc .., ?_⟩
  exact List.prefix_take_iff.mpr ⟨List.prefix_append .., hle⟩

section Round

variable {r : Reading} {pre : Bytes} {cap : Nat} (hmax : cap < 2 ^ 31) (h : r.Holds pre cap)

include h

theorem Reading.Holds.assertion : r.assertion = .ok () := by
  rw [Reading.assertion, if_pos]
  rw [h.avail, h.pos]
  congr 1
  omega

theorem Reading.Holds.set (hroom : pre.length < r.lineptr.length) (c : UInt8) :
    pre ++ [c] <+: r.lineptr.set r.readPos c := by
  have hpos := h.pos
  obtain ⟨q, hq⟩ := h.front
  cases q with
  | nil =>
    rw [← hq, List.append_nil] at hroom
    omega
  | cons d q =>
    have hset : r.lineptr.set r.readPos c = pre ++ [c] ++ q := by
      rw [← hq, hpos]
      simp
    rw [hset]
    exact List.prefix_append ..

include hmax

/-- Behind `makeRoom` there is room for a character and the NUL. -/
theorem Reading.Holds.makeRoom {heap : Heap} (hheap : heap.Ample cap) (hcap : 128 ≤ cap)
    (hpre : 2 * (pre.length + 1) ≤ cap) :
    ∃ r', r.makeRoom heap = .ok (some r') ∧ r'.Holds pre cap ∧
      pre.length + 2 ≤ r'.lineptr.length := by
  have hle := h.front.length_le
  have havail := h.avail
  by_cases hfull : r.ncharsAvail < 2
  · obtain ⟨n, hn⟩ : ∃ n, n = grow r.lineptr.length := ⟨_, rfl⟩
    -- the block is at most one byte longer than what it holds
    have hbounds : r.lineptr.length ≤ n ∧ pre.length + 2 ≤ n ∧ n ≤ cap := by
      have hbounded := h.bounded
      rw [grow_eq (by omega), minChunk] at hn
      split at hn <;> omega
    obtain ⟨q, hq, hqlen, hfront⟩ := realloc_prefix hheap hbounds.2.2 hbounds.1
    have hpos := h.pos
    have hfree : asInt ((n : Int) - r.readPos) = n - r.readPos := by
      apply asInt_of_lt <;> omega
    have hplace : asSize ((n : Int) - (n - r.readPos)) = r.readPos := by
      rw [asSize_of_lt] <;> omega
    obtain ⟨r', hr'⟩ : ∃ r' : Reading, r' =
        { lineptr := q, ncharsAvail := (n : Int) - r.readPos, readPos := r.readPos } := ⟨_, rfl⟩
    have hholds : r'.Holds pre cap := by
      subst hr'
      exact ⟨h.front.trans hfront, hpos, by simp only [hqlen, hpos],
        by simpa [hqlen] using hbounds.2.2⟩
    refine ⟨r', ?_, hholds, ?_⟩
    · rw [Reading.makeRoom, if_pos hfull]
      simp only [← hn, hfree, hplace, hq, ← hr', hholds.assertion, bind, Except.bind]
      rfl
    · rw [hr']
      simpa [hqlen] using hbounds.2.1
  · refine ⟨r, ?_, h, by omega⟩
    rw [Reading.makeRoom, if_neg hfull]
    rfl

theorem Reading.Holds.put (hroom : pre.length < r.lineptr.length) (c : UInt8) :
    ∃ r', r.put c = .ok r' ∧ r'.Holds (pre ++ [c]) cap ∧
      r'.lineptr.length = r.lineptr.length := by
  have hpos := h.pos
  have havail := h.avail
  have hbounded := h.bounded
  have hfree : asInt (r.ncharsAvail - 1) = r.ncharsAvail - 1 := by
    apply asInt_of_lt <;> omega
  refine ⟨_, if_pos (by omega), ⟨h.set hroom c, ?_, ?_, ?_⟩, List.length_set ..⟩
  · simp [hpos]
  · simp only [hfree, List.length_set, List.length_append, List.length_singleton]
    omega
  · simpa using hbounded

end Round

/-! ## The loop -/

section Loop

variable {heap : Heap} (delim1 delim2 : UInt8) {cap : Nat} (hheap : heap.Ample cap)
  (hcap : 128 ≤ cap) (hmax : cap < 2 ^ 31)

include hheap hcap hmax

/-- By induction on what is left of the stream. -/
theorem getstrLoop_reads (fp : File) {rest : Bytes} (hferr : fp.ferror = true → rest = [])
    {r : Reading} {pre : Bytes} (h : r.Holds pre cap)
    (hline : 2 * (pre.length + (upTo (stop delim1 delim2) rest).1.length + 1) ≤ cap) :
    ∃ r', r'.Holds (pre ++ (upTo (stop delim1 delim2) rest).1) cap ∧
      (pre ++ (upTo (stop delim1 delim2) rest).1).length < r'.lineptr.length ∧
      getstrLoop heap delim1 delim2 fp rest r =
        .ok (if rest.any (stop delim1 delim2) then
          .left r' { fp with rest := (upTo (stop delim1 delim2) rest).2 }
        else atEnd r' { fp with rest := [] }.hitEnd) := by
  induction rest generalizing r pre with
  | nil =>
    obtain ⟨r', hroom, hholds, hlen⟩ := h.makeRoom hmax hheap hcap
      (by simpa [upTo] using hline)
    refine ⟨r', by simpa [upTo] using hholds, ?_, ?_⟩
    · simp only [upTo, List.append_nil]
      omega
    · simp only [getstrLoop, h.assertion, hroom, bind, Except.bind]
      rfl
  | cons c s ih =>
    have hok : fp.ferror = false := by
      cases hf : fp.ferror with
      | false => rfl
      | true => cases hferr hf
    obtain ⟨r₁, hroom, h₁, hlen₁⟩ := h.makeRoom hmax hheap hcap (by omega)
    obtain ⟨r₂, hput, h₂, hlen₂⟩ := h₁.put hmax (by omega) c
    have hfree : (pre ++ [c]).length < r₂.lineptr.length := by
      rw [hlen₂, List.length_append, List.length_singleton]
      omega
    have hround : getstrLoop heap delim1 delim2 fp (c :: s) r =
        if c = delim1 ∨ (delim2 ≠ 0 ∧ c = delim2) then .ok (.left r₂ { fp with rest := s })
        else getstrLoop heap delim1 delim2 fp s r₂ := by
      simp only [getstrLoop, h.assertion, hroom, hok, hput, bind, Except.bind]
      rfl
    rw [hround]
    by_cases hc : stop delim1 delim2 c = true
    · refine ⟨r₂, by simpa [upTo, hc] using h₂, by simpa [upTo, hc] using hfree, ?_⟩
      rw [if_pos (stop_iff.mp hc)]
      simp [upTo, hc]
    · obtain ⟨r₃, h₃, hlen₃, hloop⟩ := ih (by simp [hok]) h₂ (by
        simp only [upTo, hc, Bool.false_eq_true, if_false, List.length_cons, List.length_append,
          List.length_nil] at hline ⊢
        omega)
      refine ⟨r₃, by simpa [upTo, hc] using h₃, by simpa [upTo, hc] using hlen₃, ?_⟩
      rw [if_neg (fun hs => hc (stop_iff.mpr hs)), hloop]
      simp [upTo, hc]

end Loop

/-! ## One call -/

/-- The block that a call works on. -/
theorem firstBlock_cases {heap : Heap} {cap : Nat} (hheap : heap.Ample cap) (hcap : 128 ≤ cap)
    {lineptr : Option Bytes} (hblock : ∀ p ∈ lineptr, p.length ≤ cap) :
    ∃ p, firstBlock heap lineptr = some p ∧
      p.length ≤ cap ∧ p.length = (lineptr.map List.length).getD minChunk ∧
      ∀ q ∈ lineptr, q = p := by
  cases lineptr with
  | some p => exact ⟨p, rfl, hblock p rfl, rfl, by simp⟩
  | none =>
    have hmin : minChunk ≤ cap := Nat.le_trans (by decide) hcap
    obtain ⟨fresh, hfresh⟩ := Option.isSome_iff_exists.mp (hheap minChunk hmin)
    refine ⟨xmalloc fresh minChunk, by simp [firstBlock, malloc, hfresh], ?_, by simp, by simp⟩
    rw [length_xmalloc, minChunk]
    omega

/-- `getstr` on a block or a null pointer: no assertion fails and no store leaves the block. Up to
`offset` the old contents stay. The result is `-1` if there is nothing in the block and nothing to
read; otherwise the line is behind them, with a NUL. -/
theorem getstr_reads {heap : Heap} {cap : Nat} (hheap : heap.Ample cap) (hcap : 128 ≤ cap)
    (hmax : cap < 2 ^ 31) (delim1 delim2 : UInt8) {lineptr : Option Bytes}
    (hblock : ∀ p ∈ lineptr, p.length ≤ cap)
    {offset : Nat} (hoffset : offset ≤ (lineptr.map List.length).getD minChunk)
    {fp : File} (hferr : fp.ferror = true → fp.rest = []) {line rest : Bytes}
    (hupTo : upTo (stop delim1 delim2) fp.rest = (line, rest))
    (hline : 2 * (offset + line.length + 1) ≤ cap) :
    ∃ p pre, pre.length = offset ∧ (∀ q ∈ lineptr, pre = q.take offset) ∧ p.length ≤ cap ∧
      (offset + line.length ≠ 0 → pre ++ line ++ [0] <+: p) ∧
      getstr heap delim1 delim2 lineptr fp offset =
        .ok (if fp.rest.any (stop delim1 delim2) then
          ⟨line.length, some p, { fp with rest := rest }⟩
        else if offset + line.length = 0 then ⟨-1, some p, fp.hitEnd⟩
        else ⟨line.length, some p, fp.hitEnd⟩) := by
  obtain ⟨p₀, hp₀, hlen₀, hsize₀, hold⟩ := firstBlock_cases hheap hcap hblock
  have hpre : (p₀.take offset).length = offset := by
    rw [List.length_take]
    omega
  have havail : asInt ((p₀.length : Int) - offset) = p₀.length - offset := by
    apply asInt_of_lt <;> omega
  have hholds : (Reading.mk p₀ (asInt (p₀.length - offset)) offset).Holds (p₀.take offset) cap :=
    ⟨List.take_prefix .., hpre.symm, by simp only [hpre, havail], hlen₀⟩
  have hend : { fp with rest := [] : File }.hitEnd = fp.hitEnd := by
    unfold File.hitEnd
    rfl
  obtain ⟨r, hr, hroom, hloop⟩ := getstrLoop_reads delim1 delim2 hheap hcap hmax fp hferr
    hholds (by rw [hupTo, hpre]; exact hline)
  rw [hupTo] at hr hroom hloop
  have hpos : r.readPos = offset + line.length := by
    rw [hr.pos, List.length_append, hpre]
  have hret : asInt ((r.readPos : Int) - offset) = line.length := by
    rw [asInt_of_lt] <;> omega
  have hfree : r.readPos < r.lineptr.length := by
    rw [hr.pos]
    exact hroom
  have hkept : ∀ q ∈ lineptr, p₀.take offset = q.take offset := by
    intro q hq
    rw [hold q hq]
  have hset : (r.lineptr.set r.readPos 0).length ≤ cap := by
    rw [List.length_set]
    exact hr.bounded
  by_cases hany : fp.rest.any (stop delim1 delim2) = true
  · refine ⟨_, _, hpre, hkept, hset, fun _ => hr.set hroom 0, ?_⟩
    rw [if_pos hany] at hloop ⊢
    simp only [getstr, hp₀, hloop, bind, Except.bind, hret]
    exact if_pos hfree
  · by_cases hzero : offset + line.length = 0
    · refine ⟨r.lineptr, _, hpre, hkept, hr.bounded, fun h => absurd hzero h, ?_⟩
      rw [if_neg hany] at hloop ⊢
      rw [if_pos hzero]
      simp only [getstr, hp₀, hloop, bind, Except.bind, atEnd, hpos, if_pos hzero, hend]
      rfl
    · refine ⟨_, _, hpre, hkept, hset, fun _ => hr.set hroom 0, ?_⟩
      rw [if_neg hany] at hloop ⊢
      rw [if_neg hzero]
      have hne : r.readPos ≠ 0 := by omega
      simp only [getstr, hp₀, hloop, bind, Except.bind, atEnd, if_neg hne, hret, hend]
      exact if_pos hfree

/-- A heap that refuses nothing and hands out bytes that are not zero. -/
def dirtyHeap : Heap := fun _ => some fun _ => 0xff

theorem dirtyHeap_ample (cap : Nat) : dirtyHeap.Ample cap := fun _ _ => rfl

/-! ## `getline` -/

theorem upTo_newline (s : Bytes) : upTo (stop 10 0) s = breakLine s := by
  induction s with
  | nil => rfl
  | cons c s ih =>
    by_cases hc : c = 10
    · simp [upTo, breakLine, stop, hc]
    · simp [upTo, breakLine, stop, hc, ih]

theorem any_newline (s : Bytes) : s.any (stop 10 0) = true ↔ 10 ∈ s := by
  simp [stop]

/-- The replacement reads the lines that the library function reads, into a block that is no larger
than `cap`. -/
theorem getline_reads {heap : Heap} {cap : Nat} (hheap : heap.Ample cap) (hcap : 128 ≤ cap)
    (hmax : cap < 2 ^ 31) {lineptr : Option Bytes} (hblock : ∀ p ∈ lineptr, p.length ≤ cap)
    {fp : File} (hferr : fp.ferror = true → fp.rest = [])
    (hline : ∀ l, (CLib.getline fp).1 = some l → 2 * (l.length + 1) ≤ cap) :
    ∃ p, p.length ≤ cap ∧ (∀ l, (CLib.getline fp).1 = some l → l ++ [0] <+: p) ∧
      getline heap lineptr fp =
        .ok ⟨(CLib.getline fp).1.elim (-1) fun l => l.length, some p, (CLib.getline fp).2⟩ := by
  have hupTo := upTo_newline fp.rest
  have hany := any_newline fp.rest
  by_cases hnl : 10 ∈ fp.rest
  · obtain ⟨l, s, hrest, hl⟩ := List.eq_append_cons_of_mem hnl
    rw [hrest, breakLine_line hl] at hupTo
    rw [getline_line hl hrest] at hline ⊢
    obtain ⟨p, pre, hpre, -, hp, hfront, hcall⟩ := getstr_reads hheap hcap hmax 10 0 hblock
      (Nat.zero_le _) hferr (hrest ▸ hupTo) (by simpa using hline _ rfl)
    rw [List.length_eq_zero_iff.mp hpre] at hfront
    refine ⟨p, hp, ?_, ?_⟩
    · rintro _ ⟨⟩
      simpa using hfront (by simp)
    · rw [if_pos (hany.mpr hnl)] at hcall
      exact hcall
  · by_cases hne : fp.rest = []
    · have hnil : upTo (stop 10 0) fp.rest = ([], []) := by
        rw [hne]
        rfl
      rw [getline_nil hne]
      obtain ⟨p, -, -, -, hp, -, hcall⟩ := getstr_reads hheap hcap hmax 10 0 hblock
        (Nat.zero_le _) hferr hnil (by simp; omega)
      refine ⟨p, hp, fun l hl => (by cases hl), ?_⟩
      rw [if_neg (fun h => hnl (hany.mp h))] at hcall
      exact hcall
    · rw [breakLine_tail hnl] at hupTo
      rw [getline_tail hnl hne] at hline ⊢
      obtain ⟨p, pre, hpre, -, hp, hfront, hcall⟩ := getstr_reads hheap hcap hmax 10 0 hblock
        (Nat.zero_le _) hferr hupTo (by simpa using hline _ rfl)
      have hpos : 0 + fp.rest.length ≠ 0 := by
        have := List.length_pos_iff.mpr hne
        omega
      rw [List.length_eq_zero_iff.mp hpre] at hfront
      refine ⟨p, hp, ?_, ?_⟩
      · rintro _ ⟨⟩
        exact hfront hpos
      · rw [if_neg (fun h => hnl (hany.mp h)), if_neg hpos] at hcall
        exact hcall

end Getstr

/-! ## `macfile_parse` -/

/-- `get_tokens` sees the string at the front of the block. -/
theorem getTokens_cstr {s t : Bytes} (h : cstr s = cstr t) (o : Outs) :
    getTokens s o = getTokens t o := by
  simp only [getTokens, attempt, sscanfInto, sscanf, h]

theorem cstr_front {l p : Bytes} (h : l ++ [0] <+: p) : cstr p = cstr l := by
  obtain ⟨q, rfl⟩ := h
  induction l with
  | nil => rfl
  | cons c l ih =>
    simp only [cstr, List.cons_append, List.takeWhile_cons] at ih ⊢
    rw [ih]

theorem getline_lines {fp fp' : File} {l : Bytes} (h : getline fp = (some l, fp')) :
    lines fp.rest = l :: lines fp'.rest := by
  by_cases hnl : 10 ∈ fp.rest
  · obtain ⟨l', s, hrest, hl'⟩ := List.eq_append_cons_of_mem hnl
    rw [getline_line hl' hrest] at h
    cases h
    rw [hrest, lines_line hl']
  · by_cases hne : fp.rest = []
    · rw [getline_nil hne] at h
      cases h
    · rw [getline_tail hnl hne] at h
      cases h
      have hend : fp.hitEnd.rest = [] := List.length_eq_zero_iff.mp (Getstr.length_hitEnd fp)
      rw [lines_tail hnl hne, hend]
      rfl

/-- The result of the loop without the block. -/
def withoutBlock : LoopExit × File × Outs × Option Bytes → LoopExit × File × Outs :=
  fun x => (x.1, x.2.1, x.2.2.1)

theorem macfileLoopC_eq {heap : Getstr.Heap} {cap : Nat} (hheap : heap.Ample cap)
    (hcap : 128 ≤ cap) (hmax : cap < 2 ^ 31) {fp : File}
    (hlines : ∀ l ∈ lines fp.rest, 2 * (l.length + 1) ≤ cap)
    {willy : Option Bytes} (hblock : ∀ p ∈ willy, p.length ≤ cap) (o : Outs) (k : UInt32) :
    (macfileLoopC heap fp willy o k).map withoutBlock =
      (macfileLoop fp o k).mapError .fault := by
  obtain ⟨n, hn⟩ : ∃ n, fp.rest.length = n := ⟨_, rfl⟩
  induction n using Nat.strong_induction_on generalizing fp willy o k with
  | _ n ih =>
    rw [macfileLoopC, macfileLoop_unfold]
    by_cases hflag : fp.feof = true ∨ fp.ferror = true
    · rw [dif_pos hflag, if_pos hflag]
      rfl
    · rw [dif_neg hflag, if_neg hflag]
      have hferr : fp.ferror = true → fp.rest = [] := fun h => absurd (.inr h) hflag
      have hline : ∀ l, (getline fp).1 = some l → 2 * (l.length + 1) ≤ cap := by
        intro l hl
        refine hlines l ?_
        rw [getline_lines (Prod.ext hl rfl)]
        exact List.mem_cons_self
      obtain ⟨p, hp, hfront, hcall⟩ := Getstr.getline_reads hheap hcap hmax hblock hferr hline
      obtain ⟨line, fp', hget⟩ : ∃ line fp', getline fp = (line, fp') := ⟨_, _, rfl⟩
      rw [hget] at hfront hcall
      split
      · rename_i t ht
        rw [hcall] at ht
        cases ht
      · rename_i res hres
        rw [hcall] at hres
        cases hres
        cases line with
        | none =>
          simp only [hget]
          rfl
        | some l =>
          have hsame := getTokens_cstr (cstr_front (hfront l rfl)) o
          have hlt := getline_length_lt hget
          have hlines' : ∀ l ∈ lines fp'.rest, 2 * (l.length + 1) ≤ cap := by
            intro l' hl'
            refine hlines l' ?_
            rw [getline_lines hget]
            exact List.mem_cons_of_mem _ hl'
          have hret : ((l.length : Nat) : Int) ≠ -1 := by omega
          simp only [hget, Option.elim_some, dif_neg hret, Option.getD_some, hsame]
          cases htok : getTokens l o with
          | error f => rfl
          | ok res =>
            by_cases hzero : res.1 = 0
            · simp only [if_pos hzero]
              exact ih _ (hn ▸ hlt) hlines' (by simpa using hp) _ _ rfl
            · simp only [if_neg hzero]
              rfl

/-- **The replacement makes no difference.** With `lib/getline.c` under it a call of `macfile_parse`
does what it does with the library's `getline`, as long as no block of up to twice the longest line
is refused and an `int` can count its bytes: no assertion fails, no store leaves the block, and what
it hands back is the same. -/
theorem macfileParseC_eq {heap : Getstr.Heap} {cap : Nat} (hheap : heap.Ample cap)
    (hcap : 128 ≤ cap) (hmax : cap < 2 ^ 31) (junk : Outs) {fp : File}
    (hlines : ∀ l ∈ lines fp.rest, 2 * (l.length + 1) ≤ cap) :
    macfileParseC heap junk fp = (macfileParse junk fp).mapError .fault := by
  have hnone : ∀ p ∈ (none : Option Bytes), p.length ≤ cap := by simp
  have hloop := macfileLoopC_eq hheap hcap hmax hlines hnone { junk with port := 0 } 0
  unfold macfileParseC macfileParse
  cases hC : macfileLoopC heap fp none { junk with port := 0 } 0 with
  | error e =>
    cases hA : macfileLoop fp { junk with port := 0 } 0 with
    | error f =>
      rw [hC, hA] at hloop
      cases hloop
      rfl
    | ok res =>
      rw [hC, hA] at hloop
      cases hloop
  | ok resC =>
    cases hA : macfileLoop fp { junk with port := 0 } 0 with
    | error f =>
      rw [hC, hA] at hloop
      cases hloop
    | ok res =>
      rw [hC, hA] at hloop
      obtain ⟨e, fp', o', block⟩ := resC
      cases hloop
      cases e with
      | failed => rfl
      | left tokens =>
        by_cases hferr : fp'.ferror = true
        · simp only [withoutBlock, if_pos hferr]
          rfl
        · simp only [withoutBlock, if_neg hferr]
          rfl

theorem macfileParseC_eq_record :
    macfileParseC Getstr.dirtyHeap freshOuts
        (fopened (ascii "# hosts\n00:11:22:33:44:55 lab\n") .eof) =
      (macfileParse freshOuts (fopened (ascii "# hosts\n00:11:22:33:44:55 lab\n") .eof)).mapError
        .fault :=
  macfileParseC_eq (Getstr.dirtyHeap_ample 128) (Nat.le_refl 128) (by decide) freshOuts (by decide)

end WakeOnLan
