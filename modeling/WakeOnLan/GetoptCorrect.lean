import WakeOnLan.CLib.Loop
import WakeOnLan.GetoptScan

/-!
# WakeOnLan.GetoptCorrect

What the calls of `getopt_long` amount to, for every table of options and every argument vector.

* `Position`    — how the vector is laid out: the elements taken so far, the operands skipped so
  far, the elements taken since, and the rest.
* `Pending`     — the invariant of the calls: what is found in the rest.
* `getopt_step` — one call hands out the next of what `scanArgs` finds.
* `getopt_scan` — the calls hand out what `scanArgs` finds, in its order, then `-1`; by then the
  vector is the elements taken and behind them the operands, and `optind` is at the first operand.
-/

namespace WakeOnLan

open CLib

/-! ## The invariant -/

/-- The vector is the program's name, the elements taken before the operands, the operands skipped,
the elements taken behind them, and the rest. -/
structure Position (S : Setting) (taken ops since rest : List Bytes) (d : GetoptData) :
    Prop where
  argv : d.argv = S.prog :: (taken ++ ops ++ since ++ rest)
  first : d.firstNonopt = 1 + taken.length
  last : d.lastNonopt = 1 + taken.length + ops.length
  optind : d.optind = 1 + taken.length + ops.length + since.length
  order : d.ordering = if S.posixlyCorrect then .requireOrder else .permute
  posix : d.posixlyCorrect = S.posixlyCorrect
  initialized : d.initialized = true
  strict : S.posixlyCorrect = true → taken = [] ∧ ops = []

/-- `-1` was returned: `optind` is at the first operand. -/
structure Finished (S : Setting) (taken operands : List Bytes) (d : GetoptData) : Prop where
  argv : d.argv = S.prog :: (taken ++ operands)
  optind : d.optind = 1 + taken.length

section Position

variable {S : Setting} {e : Bytes} {taken ops since rest : List Bytes} {d : GetoptData}

theorem Position.length (h : Position S taken ops since rest d) :
    d.argv.length = d.optind + rest.length := by
  rw [h.argv, h.optind]
  simp only [List.length_cons, List.length_append]
  omega

theorem Position.getElem? (h : Position S taken ops since (e :: rest) d) :
    d.argv[d.optind]? = some e := by
  have hlen : d.optind = (S.prog :: (taken ++ ops ++ since)).length := by
    rw [h.optind]
    simp only [List.length_cons, List.length_append]
    omega
  have hargv : d.argv = (S.prog :: (taken ++ ops ++ since)) ++ e :: rest := by simp [h.argv]
  rw [hargv, hlen]
  simp

theorem Position.consume (h : Position S taken ops since (e :: rest) d)
    (nextchar optarg : Option Bytes) :
    Position S taken ops (since ++ [e]) rest
      { d with optind := d.optind + 1, nextchar := nextchar, optarg := optarg } where
  argv := by simp [h.argv]
  first := h.first
  last := h.last
  optind := by
    simp only [h.optind, List.length_append, List.length_singleton]
    omega
  order := h.order
  posix := h.posix
  initialized := h.initialized
  strict := h.strict

theorem Position.congr (h : Position S taken ops since rest d) (nextchar optarg : Option Bytes) :
    Position S taken ops since rest { d with nextchar := nextchar, optarg := optarg } :=
  ⟨h.argv, h.first, h.last, h.optind, h.order, h.posix, h.initialized, h.strict⟩

theorem Position.clamp (h : Position S taken ops since rest d) : d.clamp = d := by
  have hfirst : min d.firstNonopt d.optind = d.firstNonopt := by
    rw [h.first, h.optind]
    omega
  have hlast : min d.lastNonopt d.optind = d.lastNonopt := by
    rw [h.last, h.optind]
    omega
  rw [GetoptData.clamp, hfirst, hlast]

/-- The exchange moves the operands behind what was taken since. -/
theorem Position.exchange (h : Position S taken ops since rest d) :
    d.exchange = some { d with argv := S.prog :: (taken ++ since ++ ops ++ rest),
                               firstNonopt := 1 + taken.length + since.length,
                               lastNonopt := d.optind } := by
  have hrot := rotate_eq (S.prog :: taken) ops since rest
  have hP : (S.prog :: taken).length = 1 + taken.length := by rw [List.length_cons, Nat.add_comm]
  have hargv : S.prog :: taken ++ ops ++ since ++ rest = d.argv := by simp [h.argv]
  rw [hP, hargv, ← h.optind, ← h.last, ← h.first] at hrot
  have hfirst : d.firstNonopt + (d.optind - d.lastNonopt) = 1 + taken.length + since.length := by
    rw [h.first, h.last, h.optind]
    omega
  rw [GetoptData.exchange, hrot, hfirst]
  simp

theorem skipNonoptions_eq (pre ops : List Bytes) (hops : ∀ e ∈ ops, nonoption e = true)
    (hrest : Stops nonoption rest) :
    skipNonoptions (pre ++ ops ++ rest) pre.length = pre.length + ops.length := by
  induction ops generalizing pre with
  | nil =>
    rw [skipNonoptions]
    cases rest with
    | nil => simp
    | cons e rest => simp [stops_cons.mp hrest]
  | cons e ops ih =>
    have hrec := ih (pre ++ [e]) (fun e' he' => hops e' (List.mem_cons_of_mem _ he'))
    rw [skipNonoptions]
    have hlt : pre.length < (pre ++ e :: ops ++ rest).length := by simp
    have hget : (pre ++ e :: ops ++ rest)[pre.length] = e := by simp
    rw [dif_pos hlt, hget, if_pos (hops e List.mem_cons_self)]
    have hlen : (pre ++ [e]).length = pre.length + 1 := by simp
    have happ : pre ++ e :: ops ++ rest = pre ++ [e] ++ ops ++ rest := by simp
    rw [happ, ← hlen, hrec, hlen, List.length_cons]
    omega

/-- With nothing taken behind the operands, they go on with those that follow. -/
theorem Position.skip (h : Position S taken ops [] rest d) (horder : S.posixlyCorrect = false) :
    Position S taken (ops ++ rest.takeWhile nonoption) [] (rest.dropWhile nonoption)
      { d with optind := skipNonoptions d.argv d.optind,
               lastNonopt := skipNonoptions d.argv d.optind } := by
  have hsplit : rest.takeWhile nonoption ++ rest.dropWhile nonoption = rest :=
    List.takeWhile_append_dropWhile
  have hlen : (S.prog :: (taken ++ ops)).length = d.optind := by
    rw [h.optind]
    simp only [List.length_cons, List.length_append, List.length_nil]
    omega
  have hargv : S.prog :: (taken ++ ops) ++ rest.takeWhile nonoption ++ rest.dropWhile nonoption =
      d.argv := by
    rw [List.append_assoc, hsplit, h.argv]
    simp
  have hend := skipNonoptions_eq (S.prog :: (taken ++ ops)) (rest.takeWhile nonoption)
    (fun e he => List.mem_takeWhile_imp he) (stops_dropWhile rest)
  have hlast : skipNonoptions d.argv d.optind =
      1 + taken.length + (ops ++ rest.takeWhile nonoption).length := by
    rw [← hargv, ← hlen, hend, hlen, h.optind, List.length_append, List.length_nil]
    omega
  exact
    { argv := by
        rw [← hargv]
        simp
      first := h.first
      last := hlast
      optind := hlast
      order := h.order
      posix := h.posix
      initialized := h.initialized
      strict := fun hp => by simp [horder] at hp }

theorem Position.permute (h : Position S taken ops since rest d)
    (horder : S.posixlyCorrect = false) :
    ∃ d', d.permute = some d' ∧ d'.optarg = d.optarg ∧
      Position S (taken ++ since) (ops ++ rest.takeWhile nonoption) []
        (rest.dropWhile nonoption) d' := by
  by_cases hlast : d.lastNonopt = d.optind
  · -- nothing was taken behind the operands
    have hlen : since.length = 0 := by
      have hlast' := h.last
      have hoptind := h.optind
      omega
    obtain rfl : since = [] := List.length_eq_zero_iff.mp hlen
    have hperm : d.permute = some { d with optind := skipNonoptions d.argv d.optind,
                                           lastNonopt := skipNonoptions d.argv d.optind } := by
      simp [GetoptData.permute, hlast]
    rw [List.append_nil]
    exact ⟨_, hperm, rfl, h.skip horder⟩
  · by_cases hfirst : d.firstNonopt = d.lastNonopt
    · -- no operand was skipped
      have hlen : ops.length = 0 := by
        have hfirst' := h.first
        have hlast' := h.last
        omega
      obtain rfl : ops = [] := List.length_eq_zero_iff.mp hlen
      have hmoved : Position S (taken ++ since) [] [] rest
          { d with firstNonopt := d.optind, lastNonopt := d.optind } := by
        have hoptind : d.optind = 1 + (taken ++ since).length := by
          rw [h.optind, List.length_append, List.length_nil]
          omega
        exact ⟨by simp [h.argv], hoptind, hoptind, hoptind, h.order, h.posix, h.initialized,
          fun hp => by simp [horder] at hp⟩
      have hperm : d.permute = some { d with firstNonopt := d.optind,
                                             optind := skipNonoptions d.argv d.optind,
                                             lastNonopt := skipNonoptions d.argv d.optind } := by
        simp [GetoptData.permute, hfirst, hlast]
      exact ⟨_, hperm, rfl, hmoved.skip horder⟩
    · have hmoved : Position S (taken ++ since) ops [] rest
          { d with argv := S.prog :: (taken ++ since ++ ops ++ rest),
                   firstNonopt := 1 + taken.length + since.length, lastNonopt := d.optind } := by
        have hoptind : d.optind = 1 + (taken ++ since).length + ops.length := by
          rw [h.optind, List.length_append]
          omega
        have hfirst' : 1 + taken.length + since.length = 1 + (taken ++ since).length := by
          rw [List.length_append, Nat.add_assoc]
        exact ⟨by simp, hfirst', hoptind, hoptind, h.order, h.posix, h.initialized,
          fun hp => by simp [horder] at hp⟩
      have hperm : d.permute = some
          { d with argv := S.prog :: (taken ++ since ++ ops ++ rest),
                   firstNonopt := 1 + taken.length + since.length,
                   optind := skipNonoptions (S.prog :: (taken ++ since ++ ops ++ rest)) d.optind,
                   lastNonopt :=
                     skipNonoptions (S.prog :: (taken ++ since ++ ops ++ rest)) d.optind } := by
        simp only [GetoptData.permute, if_pos (And.intro hfirst hlast), h.exchange]
      exact ⟨_, hperm, rfl, hmoved.skip horder⟩

/-- All that follows `--` is an operand. -/
theorem Position.endOfOptions (h : Position S taken ops since (dashDash :: rest) d) :
    ∃ d', d.endOfOptions = some d' ∧ d'.optarg = d.optarg ∧
      d'.argv = S.prog :: (taken ++ since ++ [dashDash] ++ (ops ++ rest)) ∧
      d'.firstNonopt = 1 + (taken ++ since ++ [dashDash]).length ∧
      d'.lastNonopt = d'.argv.length ∧ d'.optind = d'.argv.length := by
  have hskip := h.consume d.nextchar d.optarg
  have hlast : d.lastNonopt ≠ d.optind + 1 := by
    rw [h.last, h.optind]
    omega
  have hlen : ∀ x : Bytes, (taken ++ since ++ [x]).length = taken.length + since.length + 1 := by
    intro x
    simp only [List.length_append, List.length_singleton]
  by_cases hfirst : d.firstNonopt = d.lastNonopt
  · -- no operand was skipped
    have hops : ops.length = 0 := by
      have hfirst' := h.first
      have hlast' := h.last
      omega
    obtain rfl : ops = [] := List.length_eq_zero_iff.mp hops
    refine ⟨{ d with firstNonopt := d.optind + 1, lastNonopt := d.argv.length,
                     optind := d.argv.length }, ?_, rfl, by simp [h.argv], ?_, rfl, rfl⟩
    · simp [GetoptData.endOfOptions, hfirst]
    · dsimp only
      rw [hlen, h.optind, List.length_nil]
      omega
  · obtain ⟨argv, hargv⟩ :
        ∃ argv, argv = S.prog :: (taken ++ (since ++ [dashDash]) ++ ops ++ rest) := ⟨_, rfl⟩
    refine ⟨{ d with argv := argv, firstNonopt := 1 + taken.length + (since ++ [dashDash]).length,
                     lastNonopt := argv.length, optind := argv.length },
      ?_, rfl, by simp [hargv], ?_, rfl, rfl⟩
    · simp only [GetoptData.endOfOptions, if_pos (And.intro hfirst hlast)]
      rw [hskip.exchange, ← hargv]
    · dsimp only
      rw [hlen, List.length_append, List.length_singleton]
      omega

/-- Where the scan ends, `optind` goes back over the operands. -/
theorem arrive_end {operands : List Bytes} (hargv : d.argv = S.prog :: (taken ++ operands))
    (hoptind : d.optind = d.argv.length)
    (h : d.firstNonopt = 1 + taken.length ∧ d.lastNonopt = d.argv.length ∨
      d.firstNonopt = d.lastNonopt ∧ operands = []) :
    ∃ d', d.arrive = some (.stop d') ∧ d'.optarg = d.optarg ∧ Finished S taken operands d' := by
  have hlen : d.argv.length = 1 + taken.length + operands.length := by
    rw [hargv, List.length_cons, List.length_append]
    omega
  by_cases hfirst : d.firstNonopt = d.lastNonopt
  · refine ⟨d, by simp [GetoptData.arrive, hoptind, hfirst], rfl, hargv, ?_⟩
    rcases h with ⟨hf, hl⟩ | ⟨_, rfl⟩
    · omega
    · rw [hoptind, hlen, List.length_nil, Nat.add_zero]
  · refine ⟨{ d with optind := d.firstNonopt }, by simp [GetoptData.arrive, hoptind, hfirst], rfl,
      hargv, ?_⟩
    rcases h with ⟨hf, _⟩ | ⟨hf, _⟩
    · exact hf
    · exact absurd hf hfirst

theorem Position.proceed_nil (h : Position S taken ops since [] d)
    (hsince : S.posixlyCorrect = false → since = []) :
    ∃ d', d.proceed = some (.stop d') ∧ d'.optarg = d.optarg ∧
      Finished S (taken ++ since) ops d' := by
  have hoptind : d.optind = d.argv.length := by
    rw [h.length, List.length_nil, Nat.add_zero]
  have hproceed : d.proceed = d.arrive := by rw [GetoptData.proceed, if_pos hoptind]
  rw [hproceed]
  cases hposix : S.posixlyCorrect with
  | false =>
    obtain rfl := hsince hposix
    rw [List.append_nil]
    refine arrive_end (by simp [h.argv]) hoptind (.inl ⟨h.first, ?_⟩)
    rw [h.last, ← hoptind, h.optind, List.length_nil, Nat.add_zero]
  | true =>
    obtain ⟨rfl, rfl⟩ := h.strict hposix
    refine arrive_end (by simp [h.argv]) hoptind (.inr ⟨?_, rfl⟩)
    rw [h.first, h.last, List.length_nil]

theorem Position.proceed_dashDash
    (h : Position S taken ops since (dashDash :: rest) d) :
    ∃ d', d.proceed = some (.stop d') ∧ d'.optarg = d.optarg ∧
      Finished S (taken ++ since ++ [dashDash]) (ops ++ rest) d' := by
  have hoptind : d.optind ≠ d.argv.length := by
    rw [h.length, List.length_cons]
    omega
  obtain ⟨d', hend, hoptarg, hargv, hfirst, hlast, hoptind'⟩ := h.endOfOptions
  obtain ⟨d'', harrive, hoptarg', hfin⟩ := arrive_end hargv hoptind' (.inl ⟨hfirst, hlast⟩)
  refine ⟨d'', ?_, hoptarg'.trans hoptarg, hfin⟩
  rw [GetoptData.proceed, if_neg hoptind, h.getElem?]
  simp only [if_pos, hend, harrive]

theorem Position.proceed_other (h : Position S taken ops since (e :: rest) d)
    (he : e ≠ dashDash) : d.proceed =
      if nonoption e then
        if S.posixlyCorrect then some (.stop d)
        else some (.operand { d with optarg := some e, optind := d.optind + 1 })
      else some (.element (if e[1]? = some 45 then e.drop 2 else e.drop 1) d) := by
  have hoptind : d.optind ≠ d.argv.length := by
    rw [h.length, List.length_cons]
    omega
  have horder : (d.ordering = .requireOrder) = (S.posixlyCorrect = true) := by
    rw [h.order]
    cases S.posixlyCorrect <;> simp
  rw [GetoptData.proceed, if_neg hoptind, h.getElem?]
  simp only [if_neg he]
  rw [GetoptData.arrive, if_neg hoptind, h.getElem?]
  simp only [horder]

end Position

/-! ## One call -/

section Call

variable (S : Setting)

/-- The scan from inside an element, with the characters `cs` of it left. -/
def resume (e cs : Bytes) (rest : List Bytes) : Scanned :=
  let s := scanArgs S (cluster S cs).2 rest
  { s with found := (cluster S cs).1 ++ s.found, taken := e :: s.taken }

/-- The state between two calls. What was taken and skipped makes `T` and `O` with what the scan
finds in the rest. -/
inductive Pending (T O : List Bytes) : List Found → GetoptData → Prop where
  | between {taken ops since rest : List Bytes} {d : GetoptData}
      (hpos : Position S taken ops since rest d)
      (hnext : d.nextchar = none ∨ d.nextchar = some [])
      (hT : taken ++ since ++ (scanArgs S none rest).taken = T)
      (hO : ops ++ (scanArgs S none rest).operands = O) :
      Pending T O (scanArgs S none rest).found d
  | inside {taken ops since rest : List Bytes} {e cs : Bytes} {c : UInt8} {d : GetoptData}
      (hpos : Position S taken ops since (e :: rest) d) (hshort : e[1]? ≠ some 45)
      (hnext : d.nextchar = some (c :: cs))
      (hT : taken ++ since ++ (resume S e (c :: cs) rest).taken = T)
      (hO : ops ++ (resume S e (c :: cs) rest).operands = O) :
      Pending T O (resume S e (c :: cs) rest).found d

variable {S}
variable {e : Bytes} {taken ops since rest : List Bytes} {d : GetoptData}

theorem Position.pending {more : List Bytes} (h : Position S taken ops (since ++ more) rest d)
    (hnext : d.nextchar = none ∨ d.nextchar = some []) :
    Pending S (taken ++ since ++ (more ++ (scanArgs S none rest).taken))
      (ops ++ (scanArgs S none rest).operands) (scanArgs S none rest).found d :=
  .between h hnext (by simp) rfl

theorem Position.argv_zero (h : Position S taken ops since rest d) :
    d.argv[0]? = some S.prog := by
  rw [h.argv]
  rfl

variable (S) in
theorem missing_eq : missing S.optstring = question := by
  have hcolon : ¬ S.optstring.head? = some 58 := fun h => (S.plain 58 h).2.2 rfl
  rw [missing, if_neg hcolon]

variable (S) in
/-- A call hands out the next of what is found, and the rest is pending behind it. -/
inductive Hands (T O : List Bytes) : List Found → Option GetoptCall → Prop where
  | intro {f : Found} {fs : List Found} {d' : GetoptData} (hoptarg : d'.optarg = f.optarg)
      (hpending : Pending S T O fs d') :
      Hands T O (f :: fs) (some ⟨some f.c, f.printed, d'⟩)

/-- Behind one character of an element, with or without more of them. -/
theorem hands_char (h : Position S taken ops since (e :: rest) d) (hshort : e[1]? ≠ some 45)
    (hoptarg : d.optarg = none) (f : Found) (hf : f.optarg = none) (cs : Bytes) :
    Hands S (taken ++ since ++ (resume S e cs rest).taken)
      (ops ++ (resume S e cs rest).operands) (f :: (resume S e cs rest).found)
      (some ⟨some f.c, f.printed,
        { d with nextchar := some cs, optind := if cs = [] then d.optind + 1 else d.optind }⟩) := by
  cases cs with
  | nil =>
    have hpos := h.consume (some []) d.optarg
    exact .intro (hoptarg.trans hf.symm) (hpos.pending (.inr rfl))
  | cons c cs =>
    have hpos := h.congr (some (c :: cs)) d.optarg
    exact .intro (hoptarg.trans hf.symm) (.inside hpos hshort rfl rfl rfl)

/-- Behind an option that ends its element, whose argument is in it or that needs none. -/
theorem hands_end (h : Position S taken ops since (e :: rest) d)
    {nextchar optarg : Option Bytes} (hnext : nextchar = none ∨ nextchar = some []) (f : Found)
    (hoptarg : optarg = f.optarg) :
    Hands S (taken ++ since ++ (e :: (scanArgs S none rest).taken))
      (ops ++ (scanArgs S none rest).operands) (f :: (scanArgs S none rest).found)
      (some ⟨some f.c, f.printed,
        { d with optind := d.optind + 1, nextchar := nextchar, optarg := optarg }⟩) :=
  .intro hoptarg ((h.consume nextchar optarg).pending hnext)

/-- Behind an option that takes the next element for its argument. -/
theorem hands_next {arg : Bytes} (h : Position S taken ops since (e :: arg :: rest) d)
    (nextchar : Option Bytes) (hnext : nextchar = none ∨ nextchar = some []) (val : UInt8) :
    Hands S (taken ++ since ++ (e :: arg :: (scanArgs S none rest).taken))
      (ops ++ (scanArgs S none rest).operands)
      (⟨val, some arg, []⟩ :: (scanArgs S none rest).found)
      (some ⟨some val, [],
        { d with optind := d.optind + 1 + 1, nextchar := nextchar, optarg := some arg }⟩) := by
  have hpos := ((h.consume d.nextchar d.optarg).consume nextchar (some arg))
  rw [List.append_assoc] at hpos
  exact .intro rfl (hpos.pending hnext)

theorem shortOption_eq (hprog : d.argv[0]? = some S.prog) (c : UInt8) (cs : Bytes) :
    shortOption S.optstring true c cs d =
      let d := { d with nextchar := some cs,
                        optind := if cs = [] then d.optind + 1 else d.optind }
      match shortArg S.optstring c with
      | none => some ⟨some question, invalidOption d.posixlyCorrect S.prog c, d⟩
      | some .noArgument => some ⟨some c, [], d⟩
      | some .optionalArgument =>
        if cs ≠ [] then
          some ⟨some c, [], { d with optarg := some cs, optind := d.optind + 1, nextchar := none }⟩
        else some ⟨some c, [], { d with optarg := none, nextchar := none }⟩
      | some .requiredArgument =>
        if cs ≠ [] then
          some ⟨some c, [], { d with optarg := some cs, optind := d.optind + 1, nextchar := none }⟩
        else if d.optind = d.argv.length then
          some ⟨some (missing S.optstring), optionRequiresArgument S.prog c,
            { d with nextchar := none }⟩
        else
          d.argv[d.optind]?.map fun arg =>
            ⟨some c, [],
              { d with optarg := some arg, optind := d.optind + 1, nextchar := none }⟩ := by
  simp only [shortOption, shortArg, hprog, if_true]
  cases strchr S.optstring c with
  | none => rfl
  | some temp =>
    by_cases hcolon : c = 58
    · simp only [if_pos hcolon]
    · by_cases hone : temp[1]? = some 58
      · by_cases htwo : temp[2]? = some 58
        · simp only [if_neg hcolon, if_pos hone, if_pos htwo]
        · simp only [if_neg hcolon, if_pos hone, if_neg htwo]
          cases d.argv[if cs = [] then d.optind + 1 else d.optind]? <;> rfl
      · simp only [if_neg hcolon, if_neg hone]

variable (S) in
theorem resume_cons (e : Bytes) (c : UInt8) (cs : Bytes) (rest : List Bytes) (f : Found)
    (h : cluster S (c :: cs) = (f :: (cluster S cs).1, (cluster S cs).2)) :
    resume S e (c :: cs) rest =
      { resume S e cs rest with found := f :: (resume S e cs rest).found } := by
  simp only [resume, h, List.cons_append]

theorem shortOption_hands (h : Position S taken ops since (e :: rest) d) (hshort : e[1]? ≠ some 45)
    (hoptarg : d.optarg = none) (c : UInt8) (cs : Bytes) :
    Hands S (taken ++ since ++ (resume S e (c :: cs) rest).taken)
      (ops ++ (resume S e (c :: cs) rest).operands) (resume S e (c :: cs) rest).found
      (shortOption S.optstring true c cs d) := by
  rw [shortOption_eq h.argv_zero, missing_eq]
  dsimp only
  cases harg : shortArg S.optstring c with
  | none =>
    have hcluster : cluster S (c :: cs) =
        (⟨question, none, invalidOption d.posixlyCorrect S.prog c⟩ :: (cluster S cs).1,
          (cluster S cs).2) := by simp only [cluster, harg, h.posix]
    rw [resume_cons S e c cs rest _ hcluster]
    exact hands_char h hshort hoptarg ⟨question, none, _⟩ rfl cs
  | some kind =>
    cases kind with
    | noArgument =>
      have hcluster : cluster S (c :: cs) =
          (⟨c, none, []⟩ :: (cluster S cs).1, (cluster S cs).2) := by simp only [cluster, harg]
      rw [resume_cons S e c cs rest _ hcluster]
      exact hands_char h hshort hoptarg ⟨c, none, []⟩ rfl cs
    | optionalArgument =>
      by_cases hcs : cs = []
      · simp only [resume, cluster, harg, hcs, if_true, ne_eq, not_true_eq_false, if_false]
        exact hands_end h (.inl rfl) ⟨c, none, []⟩ rfl
      · simp only [resume, cluster, harg, hcs, if_false, ne_eq, not_false_eq_true, if_true]
        exact hands_end h (.inl rfl) ⟨c, some cs, []⟩ rfl
    | requiredArgument =>
      by_cases hcs : cs = []
      · simp only [resume, cluster, harg, hcs, if_true, ne_eq, not_true_eq_false, if_false]
        cases rest with
        | nil =>
          have hlen : d.optind + 1 = d.argv.length := by rw [h.length]; rfl
          rw [if_pos hlen]
          exact hands_end h (.inl rfl) ⟨question, none, optionRequiresArgument S.prog c⟩ hoptarg
        | cons arg rest =>
          have hlen : d.optind + 1 ≠ d.argv.length := by
            rw [h.length]
            simp
          have hget := (h.consume none none).getElem?
          rw [if_neg hlen, hget]
          exact hands_next h none (.inl rfl) c
      · simp only [resume, cluster, harg, hcs, if_false, ne_eq, not_false_eq_true, if_true]
        exact hands_end h (.inl rfl) ⟨c, some cs, []⟩ rfl

/-- The result of the search decides how a long option goes on. -/
theorem longOption_eq (hprog : d.argv[0]? = some S.prog) (he : d.argv[d.optind]? = some e)
    (nextchar : Bytes) : longOption S.optstring S.longopts true nextchar d =
      let name := nextchar.takeWhile (· != 61)
      let d' := { d with nextchar := some [], optind := d.optind + 1 }
      match resolve S.longopts name with
      | .ambiguous => some ⟨some question, ambiguousOption S.prog e, d'⟩
      | .unknown => some ⟨some question, unrecognizedOption S.prog nextchar, d'⟩
      | .option p =>
        match nextchar.drop name.length with
        | _ :: value =>
          if p.hasArg ≠ .noArgument then some ⟨some p.val, [], { d' with optarg := some value }⟩
          else some ⟨some question, argumentNotAllowed S.prog p.name, d'⟩
        | [] =>
          if p.hasArg = .requiredArgument then
            if d'.optind < d'.argv.length then
              some ⟨some p.val, [],
                { d' with optarg := d'.argv[d'.optind]?, optind := d'.optind + 1 }⟩
            else some ⟨some (missing S.optstring), argumentRequired S.prog e, d'⟩
          else some ⟨some p.val, [], d'⟩ := by
  simp only [longOption, hprog, he, if_true, ← matchLong_resolved, LongMatch.resolved]
  split
  · rfl
  · cases (matchLong (nextchar.takeWhile (· != 61)) S.longopts {}).pfound with
    | none => rfl
    | some p => rfl

theorem longOption_hands (h : Position S taken ops since (e :: rest) d)
    (hoptarg : d.optarg = none) :
    Hands S (taken ++ since ++ (e :: (scanArgs S (longElement S e).2 rest).taken))
      (ops ++ (scanArgs S (longElement S e).2 rest).operands)
      ((longElement S e).1 ++ (scanArgs S (longElement S e).2 rest).found)
      (longOption S.optstring S.longopts true (e.drop 2) d) := by
  rw [longOption_eq h.argv_zero h.getElem?, missing_eq, longElement]
  dsimp only
  cases resolve S.longopts ((e.drop 2).takeWhile (· != 61)) with
  | ambiguous =>
    exact hands_end h (.inr rfl) ⟨question, none, ambiguousOption S.prog e⟩ hoptarg
  | unknown =>
    exact hands_end h (.inr rfl) ⟨question, none, unrecognizedOption S.prog (e.drop 2)⟩ hoptarg
  | option p =>
    dsimp only
    cases (e.drop 2).drop ((e.drop 2).takeWhile (· != 61)).length with
    | cons _ value =>
      by_cases hnone : p.hasArg = .noArgument
      · simp only [hnone, if_true, ne_eq, not_true_eq_false, if_false]
        exact hands_end h (.inr rfl) ⟨question, none, argumentNotAllowed S.prog p.name⟩ hoptarg
      · simp only [hnone, if_false, ne_eq, not_false_eq_true, if_true]
        exact hands_end h (.inr rfl) ⟨p.val, some value, []⟩ rfl
    | nil =>
      by_cases hreq : p.hasArg = .requiredArgument
      · simp only [hreq, if_true]
        cases rest with
        | nil =>
          have hlen : ¬ d.optind + 1 < d.argv.length := by
            rw [h.length]
            simp
          rw [if_neg hlen]
          exact hands_end h (.inr rfl) ⟨question, none, argumentRequired S.prog e⟩ hoptarg
        | cons arg rest =>
          have hlen : d.optind + 1 < d.argv.length := by
            rw [h.length]
            simp
          have hget := (h.consume none none).getElem?
          rw [if_pos hlen, hget]
          exact hands_next h (some []) (.inr rfl) p.val
      · simp only [hreq, if_false]
        exact hands_end h (.inr rfl) ⟨p.val, none, []⟩ hoptarg

/-! ## From call to call -/

theorem scan_skip (horder : S.posixlyCorrect = false) (rest : List Bytes) : scanArgs S none rest =
    { scanArgs S none (rest.dropWhile nonoption) with
      operands := rest.takeWhile nonoption ++
        (scanArgs S none (rest.dropWhile nonoption)).operands } := by
  induction rest with
  | nil => rfl
  | cons e rest ih =>
    cases he : nonoption e with
    | false => simp [he]
    | true =>
      rw [scanArgs, if_pos he, ih]
      simp [he, horder]

theorem scan_element (he : nonoption e = false) (hdash : e ≠ dashDash) :
    scanArgs S none (e :: rest) =
      { scanArgs S (element S e).2 rest with
        found := (element S e).1 ++ (scanArgs S (element S e).2 rest).found
        taken := e :: (scanArgs S (element S e).2 rest).taken } := by
  rw [scanArgs, if_neg (by simp [he]), if_neg hdash]

variable (S) in
/-- What a call does: it hands out the next option, or ends the scan. -/
def Does (T O : List Bytes) (found : List Found) (call : Option GetoptCall) : Prop :=
  Hands S T O found call ∨
    found = [] ∧ ∃ d', call = some ⟨none, [], d'⟩ ∧ Finished S T O d'

/-- At an option the call hands it out. -/
theorem does_option {e : Bytes} (h : Position S taken ops since (e :: rest) d)
    (hoptarg : d.optarg = none) (he : nonoption e = false) (hdash : e ≠ dashDash) :
    Does S (taken ++ since ++ (scanArgs S none (e :: rest)).taken)
      (ops ++ (scanArgs S none (e :: rest)).operands) (scanArgs S none (e :: rest)).found
      (handOut S.optstring S.longopts true
        (some (.element (if e[1]? = some 45 then e.drop 2 else e.drop 1) d))) := by
  obtain ⟨x, xs, rfl⟩ : ∃ x xs, e = 45 :: x :: xs := by
    unfold nonoption at he
    split at he
    · exact ⟨_, _, rfl⟩
    · cases he
  rw [scan_element he hdash, element]
  by_cases hx : x = 45
  · obtain rfl := hx
    have hhands := longOption_hands h hoptarg
    cases xs with
    | nil => exact absurd rfl hdash
    | cons c cs =>
      have hlong : (45 :: 45 :: c :: cs : Bytes)[1]? = some 45 := rfl
      have hdecode : decodeElement S.optstring S.longopts true c cs d =
          longOption S.optstring S.longopts true (c :: cs) d := by
        rw [decodeElement, h.getElem?]
        simp only [if_pos hlong]
      simp only [if_pos hlong, List.drop_succ_cons, List.drop_zero]
      rw [handOut, hdecode]
      exact .inl hhands
  · have hshort : (45 :: x :: xs)[1]? ≠ some 45 := by simpa using hx
    have hhands := shortOption_hands h hshort hoptarg x xs
    have hdecode : decodeElement S.optstring S.longopts true x xs d =
        shortOption S.optstring true x xs d := by
      rw [decodeElement, h.getElem?]
      simp only [if_neg hshort]
    simp only [if_neg hshort, List.drop_succ_cons, List.drop_zero]
    rw [handOut, hdecode]
    exact .inl hhands

theorem does_proceed (h : Position S taken ops since rest d) (hoptarg : d.optarg = none)
    (hsettled : S.posixlyCorrect = false → since = [] ∧ Stops nonoption rest) :
    Does S (taken ++ since ++ (scanArgs S none rest).taken)
      (ops ++ (scanArgs S none rest).operands) (scanArgs S none rest).found
      (handOut S.optstring S.longopts true d.proceed) := by
  cases rest with
  | nil =>
    obtain ⟨d', hproceed, _, hfin⟩ := h.proceed_nil fun hp => (hsettled hp).1
    rw [hproceed]
    exact .inr ⟨rfl, d', rfl, by simpa [scanArgs] using hfin⟩
  | cons e rest =>
    by_cases hdash : e = dashDash
    · obtain rfl := hdash
      obtain ⟨d', hproceed, _, hfin⟩ := h.proceed_dashDash
      rw [hproceed]
      exact .inr ⟨rfl, d', rfl, hfin⟩
    · rw [h.proceed_other hdash]
      cases he : nonoption e with
      | true =>
        cases hposix : S.posixlyCorrect with
        | false => exact absurd (stops_cons.mp (hsettled hposix).2) (by simp [he])
        | true =>
          -- the first operand ends the scan
          obtain ⟨rfl, rfl⟩ := h.strict hposix
          have hscan : scanArgs S none (e :: rest) = ⟨[], [], e :: rest⟩ := by
            rw [scanArgs, if_pos he, if_pos hposix]
          rw [hscan]
          refine .inr ⟨rfl, d, rfl, ⟨by simp [h.argv], ?_⟩⟩
          rw [h.optind]
          simp
      | false =>
        rw [if_neg (by decide)]
        exact does_option h hoptarg he hdash

theorem Position.started (h : Position S taken ops since rest d) :
    ¬ d.argv.length < 1 ∧ ¬ (d.optind = 0 ∨ ¬ d.initialized = true) := by
  rw [h.length, h.optind, h.initialized]
  exact ⟨by omega, by simp⟩

variable (S) in
theorem printErrors_eq : decide (S.optstring.head? ≠ some 58) = true := by
  simpa using fun hcolon => (S.plain 58 hcolon).2.2 rfl

theorem getoptInternalR_inside (h : Position S taken ops since rest d) {c : UInt8} {cs : Bytes}
    (hnext : d.nextchar = some (c :: cs)) :
    getoptInternalR S.posixlyCorrect S.optstring S.longopts d =
      decodeElement S.optstring S.longopts true c cs { d with optarg := none } := by
  simp only [getoptInternalR, if_neg h.started.1, if_neg h.started.2, printErrors_eq, hnext]

theorem getoptInternalR_between (h : Position S taken ops since rest d)
    (hnext : d.nextchar = none ∨ d.nextchar = some []) :
    getoptInternalR S.posixlyCorrect S.optstring S.longopts d =
      handOut S.optstring S.longopts true { d with optarg := none }.advance := by
  rcases hnext with hnext | hnext <;>
    simp only [getoptInternalR, if_neg h.started.1, if_neg h.started.2, printErrors_eq, hnext]

/-- One call hands out the next of what is found; when nothing is left it returns `-1`. -/
theorem getopt_step {T O : List Bytes} {found : List Found}
    (h : Pending S T O found d) :
    Does S T O found
      (getoptInternalR S.posixlyCorrect S.optstring S.longopts d) := by
  cases h with
  | between hpos hnext hT hO =>
    rename_i taken ops since rest
    have hpos' := hpos.congr d.nextchar none
    rw [getoptInternalR_between hpos hnext, GetoptData.advance, hpos'.clamp, ← hT, ← hO]
    cases hposix : S.posixlyCorrect with
    | true =>
      have horder : ¬ d.ordering = .permute := by simp [hpos.order, hposix]
      simp only [if_neg horder]
      exact does_proceed hpos' rfl fun hp => by simp [hposix] at hp
    | false =>
      have horder : d.ordering = .permute := by simp [hpos.order, hposix]
      obtain ⟨d', hperm, hoptarg, hmoved⟩ := hpos'.permute hposix
      simp only [if_pos horder, hperm]
      have hdoes := does_proceed hmoved hoptarg
        fun _ => ⟨rfl, stops_dropWhile rest⟩
      rw [scan_skip hposix rest]
      simpa using hdoes
  | inside hpos hshort hnext hT hO =>
    rename_i taken ops since rest e cs c
    have hpos' := hpos.congr d.nextchar none
    have hdecode : decodeElement S.optstring S.longopts true c cs { d with optarg := none } =
        shortOption S.optstring true c cs { d with optarg := none } := by
      simp only [decodeElement, hpos.getElem?, if_neg hshort]
    rw [getoptInternalR_inside hpos hnext, hdecode, ← hT, ← hO]
    exact .inl (shortOption_hands hpos' hshort rfl c cs)

/-! ## All calls -/

variable (S) in
/-- A call of the loop that asks for options until there are no more. The result of the loop is
`none` if a call went outside the argument vector. -/
def getoptRound (d : GetoptData) : List Found × Round GetoptData (Option GetoptData) :=
  match getoptInternalR S.posixlyCorrect S.optstring S.longopts d with
  | none => ([], .done none)
  | some ⟨none, _, d⟩ => ([], .done (some d))
  | some ⟨some c, printed, d⟩ => ([⟨c, d.optarg, printed⟩], .next d)

theorem getopt_run {T O : List Bytes} {found : List Found}
    (h : Pending S T O found d) :
    ∃ d', Exec (getoptRound S) d found (some d') ∧
      Finished S T O d' := by
  induction found generalizing d with
  | nil =>
    rcases getopt_step h with hhands | ⟨_, d', hcall, hfin⟩
    · cases hhands
    · exact ⟨d', .done (by rw [getoptRound, hcall]), hfin⟩
  | cons f fs ih =>
    rcases getopt_step h with hhands | ⟨hnil, _⟩
    · generalize hcall : getoptInternalR S.posixlyCorrect S.optstring S.longopts d = call at hhands
      cases hhands with
      | intro hoptarg hpending =>
        rename_i d'
        obtain ⟨d'', hexec, hfin⟩ := ih hpending
        have hround : getoptRound S d = ([f], .next d') := by
          rw [getoptRound, hcall]
          simp only [hoptarg]
        exact ⟨d'', .next hround hexec, hfin⟩
    · cases hnil

theorem getoptInitialize_eq (d : GetoptData) :
    getoptInitialize S.posixlyCorrect S.optstring d =
      (S.optstring,
        { d with firstNonopt := d.optind, lastNonopt := d.optind, nextchar := none,
                 posixlyCorrect := S.posixlyCorrect, initialized := true,
                 ordering := if S.posixlyCorrect then .requireOrder else .permute }) := by
  unfold getoptInitialize
  split
  · rename_i rest hopt
    exact absurd rfl (S.plain 45 (by rw [hopt]; rfl)).2.1
  · rename_i rest hopt
    exact absurd rfl (S.plain 43 (by rw [hopt]; rfl)).1
  · rfl

variable (S) in
/-- The state that the first call sets up. -/
def initialState (args : List Bytes) : GetoptData :=
  { argv := S.prog :: args, optind := 1, initialized := true, firstNonopt := 1, lastNonopt := 1,
    posixlyCorrect := S.posixlyCorrect,
    ordering := if S.posixlyCorrect then .requireOrder else .permute }

theorem getoptInternalR_first (args : List Bytes) :
    getoptInternalR S.posixlyCorrect S.optstring S.longopts { argv := S.prog :: args } =
      getoptInternalR S.posixlyCorrect S.optstring S.longopts (initialState S args) := by
  simp [getoptInternalR, getoptInitialize_eq, initialState]

theorem pending_first (args : List Bytes) :
    Pending S (scanArgs S none args).taken (scanArgs S none args).operands
      (scanArgs S none args).found (initialState S args) :=
  have hpos : Position S [] [] [] args (initialState S args) :=
    ⟨rfl, rfl, rfl, rfl, rfl, rfl, rfl, fun _ => ⟨rfl, rfl⟩⟩
  .between hpos (.inl rfl) rfl rfl

/-- A fresh argument vector is scanned as from the initial state. -/
theorem exec_fresh {args : List Bytes} {found : List Found} {r : Option GetoptData}
    (h : Exec (getoptRound S) (initialState S args) found r) :
    Exec (getoptRound S) { argv := S.prog :: args } found r := by
  have hround : getoptRound S (initialState S args) = getoptRound S { argv := S.prog :: args } := by
    rw [getoptRound, getoptRound, getoptInternalR_first]
  exact h.congr hround

variable (S) in
/-- The calls on a fresh argument vector return what one reading of it from left to right finds, and
then `-1`. No call goes outside the vector; the last leaves in it what was taken and behind that the
operands, and `optind` between them. -/
theorem getopt_scan (args : List Bytes) :
    ∃ d, Exec (getoptRound S) { argv := S.prog :: args } (scanArgs S none args).found (some d) ∧
      Finished S (scanArgs S none args).taken (scanArgs S none args).operands d := by
  obtain ⟨d, hexec, hfin⟩ := getopt_run (pending_first (S := S) args)
  exact ⟨d, exec_fresh hexec, hfin⟩

theorem Finished.take {T O : List Bytes} (h : Finished S T O d) :
    (d.argv.take d.optind).drop 1 = T := by
  rw [h.argv, h.optind, Nat.add_comm, List.take_succ_cons, List.take_left]
  rfl

theorem Finished.drop {T O : List Bytes} (h : Finished S T O d) : d.argv.drop d.optind = O := by
  rw [h.argv, h.optind, Nat.add_comm, List.drop_succ_cons, List.drop_left]

variable (S) in
/-- The scan of every argument vector ends. Each option that it hands out has the argument that its
kind calls for, or is a question mark with a diagnostic; the vector is permuted, the elements before
`optind` and those from `optind` on both in their old order. -/
theorem getopt_outcome (args : List Bytes) :
    ∃ found d, Exec (getoptRound S) { argv := S.prog :: args } found (some d) ∧
      (∀ f ∈ found, Legal S f) ∧ d.argv.Perm (S.prog :: args) ∧
      ((d.argv.take d.optind).drop 1).Sublist args ∧ (d.argv.drop d.optind).Sublist args := by
  obtain ⟨d, hexec, hfin⟩ := getopt_run (pending_first (S := S) args)
  refine ⟨_, d, exec_fresh hexec, scanArgs_legal none (by simp) args, ?_, ?_, ?_⟩
  · rw [hfin.argv]
    exact (scanArgs_perm none args).cons _
  · rw [hfin.take]
    exact taken_sublist none args
  · rw [hfin.drop]
    exact operands_sublist none args

end Call

end WakeOnLan
