import WakeOnLan.Argv
import WakeOnLan.Run

/-!
# WakeOnLan.Spelling

The ways to write a command line.

* `Spelling` — options or an operand as they may be written: characters together behind one hyphen,
  an argument attached, behind `=` or in an element of its own, a name or an abbreviation of it.
* `Written`  — a whole argument vector, with or without `--`.

`scanArgs_written`: what is written is what is found. So two vectors that say the same have the same
runs (`mainRuns_written`), and every list of options and operands has a vector
(`commandLine_canonical`).
-/

namespace WakeOnLan

open CLib

section Spelling

variable (S : Setting)

/-- Options without an argument that may share a hyphen; a second hyphen would begin a long one. -/
structure Flags where
  chars : Bytes
  flags : ∀ c ∈ chars, shortArg S.optstring c = some .noArgument
  front : chars.head? ≠ some 45

/-- A name of a long option, in full or abbreviated. -/
structure LongName where
  text : Bytes
  p : LongOption
  nonempty : text ≠ []
  plain : ∀ c ∈ text, (c != 61) = true
  resolves : resolve S.longopts text = .option p

inductive Spelling where
  | operand (a : Bytes) (ha : nonoption a = true) (horder : S.posixlyCorrect = false)
  | flags (f : Flags S) (hne : f.chars ≠ [])
  | attached (f : Flags S) (c : UInt8) (arg : Bytes) (hc : c ≠ 45) (harg : arg ≠ [])
      (hkind : shortArg S.optstring c = some .requiredArgument)
  | separate (f : Flags S) (c : UInt8) (arg : Bytes) (hc : c ≠ 45)
      (hkind : shortArg S.optstring c = some .requiredArgument)
  | name (n : LongName S) (hkind : n.p.hasArg ≠ .requiredArgument)
  | nameValue (n : LongName S) (arg : Bytes) (hkind : n.p.hasArg ≠ .noArgument)
  | nameNext (n : LongName S) (arg : Bytes) (hkind : n.p.hasArg = .requiredArgument)

variable {S}

def Spelling.write : Spelling S → List Bytes
  | .operand a _ _ => [a]
  | .flags f _ => [45 :: f.chars]
  | .attached f c arg _ _ _ => [45 :: (f.chars ++ c :: arg)]
  | .separate f c arg _ _ => [45 :: (f.chars ++ [c]), arg]
  | .name n _ => [45 :: 45 :: n.text]
  | .nameValue n arg _ => [45 :: 45 :: (n.text ++ 61 :: arg)]
  | .nameNext n arg _ => [45 :: 45 :: n.text, arg]

def Flags.found (f : Flags S) : List Found := f.chars.map fun c => ⟨c, none, []⟩

/-- The options it stands for. -/
def Spelling.found : Spelling S → List Found
  | .operand _ _ _ => []
  | .flags f _ => f.found
  | .attached f c arg _ _ _ | .separate f c arg _ _ => f.found ++ [⟨c, some arg, []⟩]
  | .name n _ => [⟨n.p.val, none, []⟩]
  | .nameValue n arg _ | .nameNext n arg _ => [⟨n.p.val, some arg, []⟩]

def Spelling.operands : Spelling S → List Bytes
  | .operand a _ _ => [a]
  | _ => []

/-! ## One spelling -/

theorem cluster_flags (f : Flags S) (cs : Bytes) :
    cluster S (f.chars ++ cs) = (f.found ++ (cluster S cs).1, (cluster S cs).2) := by
  obtain ⟨chars, hflags, hfront⟩ := f
  unfold Flags.found
  dsimp only
  clear hfront
  induction chars with
  | nil => rfl
  | cons c chars ih =>
    have hrest := ih (fun c' hc' => hflags c' (List.mem_cons_of_mem c hc'))
    simp only [List.cons_append, cluster, hflags c List.mem_cons_self, hrest, List.map_cons]

theorem Flags.front_append (f : Flags S) {c : UInt8} (hc : c ≠ 45) (cs : Bytes) :
    f.chars ++ c :: cs ≠ [] ∧ (f.chars ++ c :: cs).head? ≠ some 45 := by
  refine ⟨by simp, ?_⟩
  cases h : f.chars with
  | nil => simpa using hc
  | cons c' chars =>
    have hfront := f.front
    rw [h] at hfront
    exact hfront

theorem scanArgs_short {cs : Bytes} (hne : cs ≠ []) (hfront : cs.head? ≠ some 45)
    (rest : List Bytes) :
    (scanArgs S none ((45 :: cs) :: rest)).found =
        (cluster S cs).1 ++ (scanArgs S (cluster S cs).2 rest).found ∧
      (scanArgs S none ((45 :: cs) :: rest)).operands =
        (scanArgs S (cluster S cs).2 rest).operands := by
  cases cs with
  | nil => exact absurd rfl hne
  | cons c cs =>
    have hc : c ≠ 45 := by simpa using hfront
    have hdash : 45 :: c :: cs ≠ dashDash := by
      rintro ⟨⟩
      exact hc rfl
    have helement : element S (45 :: c :: cs) = cluster S (c :: cs) := by
      rw [element, if_neg (by simpa using hc)]
      rfl
    rw [scan_element rfl hdash, helement]
    exact ⟨rfl, rfl⟩

theorem scanArgs_long (n : LongName S) (tail : Bytes) (rest : List Bytes) :
    (scanArgs S none ((45 :: 45 :: (n.text ++ tail)) :: rest)).found =
        (longElement S (45 :: 45 :: (n.text ++ tail))).1 ++
          (scanArgs S (longElement S (45 :: 45 :: (n.text ++ tail))).2 rest).found ∧
      (scanArgs S none ((45 :: 45 :: (n.text ++ tail)) :: rest)).operands =
        (scanArgs S (longElement S (45 :: 45 :: (n.text ++ tail))).2 rest).operands := by
  have hdash : 45 :: 45 :: (n.text ++ tail) ≠ dashDash := by
    intro h
    have hnil : n.text ++ tail = [] := (List.cons.inj (List.cons.inj h).2).2
    exact n.nonempty (List.append_eq_nil_iff.mp hnil).1
  have hlong : (45 :: 45 :: (n.text ++ tail))[1]? = some 45 := rfl
  have helement : element S (45 :: 45 :: (n.text ++ tail)) =
      longElement S (45 :: 45 :: (n.text ++ tail)) := by rw [element, if_pos hlong]
  rw [scan_element rfl hdash, helement]
  exact ⟨rfl, rfl⟩

theorem longElement_name (n : LongName S) : longElement S (45 :: 45 :: n.text) =
    if n.p.hasArg = .requiredArgument then
      ([], some ⟨n.p.val, argumentRequired S.prog (45 :: 45 :: n.text)⟩)
    else ([⟨n.p.val, none, []⟩], none) := by
  have hname : n.text.takeWhile (· != 61) = n.text := by
    have := takeWhile_munch n.plain (stops_nil (p := (· != 61)))
    rwa [List.append_nil] at this
  simp only [longElement, List.drop_succ_cons, List.drop_zero, hname, n.resolves, List.drop_length]

theorem longElement_value (n : LongName S) (arg : Bytes) (hkind : n.p.hasArg ≠ .noArgument) :
    longElement S (45 :: 45 :: (n.text ++ 61 :: arg)) = ([⟨n.p.val, some arg, []⟩], none) := by
  have hname : (n.text ++ 61 :: arg).takeWhile (· != 61) = n.text :=
    takeWhile_munch n.plain (stops_cons.mpr rfl)
  simp only [longElement, List.drop_succ_cons, List.drop_zero, hname, n.resolves, List.drop_left,
    if_neg hkind]

theorem scanArgs_write (w : Spelling S) (rest : List Bytes) :
    (scanArgs S none (w.write ++ rest)).found = w.found ++ (scanArgs S none rest).found ∧
      (scanArgs S none (w.write ++ rest)).operands =
        w.operands ++ (scanArgs S none rest).operands := by
  cases w with
  | operand a ha horder =>
    simp only [Spelling.write, List.cons_append, List.nil_append, scanArgs, ha, horder]
    exact ⟨rfl, rfl⟩
  | flags f hne =>
    have hcluster := cluster_flags f []
    rw [List.append_nil] at hcluster
    have hscan := scanArgs_short (S := S) hne f.front rest
    rw [hcluster] at hscan
    simpa [cluster, Spelling.write, Spelling.found, Spelling.operands] using hscan
  | attached f c arg hc harg hkind =>
    have hlast : cluster S (c :: arg) = ([⟨c, some arg, []⟩], none) := by
      simp only [cluster, hkind, if_neg harg]
    have hscan := scanArgs_short (S := S) (f.front_append hc arg).1
      (f.front_append hc arg).2 rest
    rw [cluster_flags, hlast] at hscan
    exact hscan
  | separate f c arg hc hkind =>
    have hlast : cluster S [c] = ([], some ⟨c, optionRequiresArgument S.prog c⟩) := by
      simp only [cluster, hkind, if_pos]
    have hscan := scanArgs_short (S := S) (f.front_append hc []).1 (f.front_append hc []).2
      (arg :: rest)
    rw [cluster_flags, hlast] at hscan
    simpa [Spelling.write, Spelling.found, Spelling.operands, scanArgs] using hscan
  | name n hkind =>
    have hscan := scanArgs_long n [] rest
    rw [List.append_nil, longElement_name, if_neg hkind] at hscan
    exact hscan
  | nameValue n arg hkind =>
    have hscan := scanArgs_long n (61 :: arg) rest
    rw [longElement_value n arg hkind] at hscan
    exact hscan
  | nameNext n arg hkind =>
    have hscan := scanArgs_long n [] (arg :: rest)
    rw [List.append_nil, longElement_name, if_pos hkind] at hscan
    exact hscan

theorem Flags.printed (f : Flags S) : ∀ x ∈ f.found, x.printed = [] := by
  intro x hx
  obtain ⟨c, _, rfl⟩ := List.mem_map.mp hx
  rfl

theorem Spelling.printed (w : Spelling S) : ∀ x ∈ w.found, x.printed = [] := by
  intro x hx
  cases w with
  | operand => cases hx
  | flags f _ => exact f.printed x hx
  | attached f | separate f =>
    rcases List.mem_append.mp hx with hx | hx
    · exact f.printed x hx
    · rw [List.mem_singleton.mp hx]
  | name | nameValue | nameNext => rw [List.mem_singleton.mp hx]

/-! ## A whole vector -/

/-- `stop` is what stands behind `--`. -/
structure Written (S : Setting) where
  words : List (Spelling S)
  stop : Option (List Bytes)

def Written.write (w : Written S) : List Bytes :=
  w.words.flatMap Spelling.write ++ (w.stop.map (dashDash :: ·)).getD []

def Written.found (w : Written S) : List Found := w.words.flatMap Spelling.found

def Written.operands (w : Written S) : List Bytes :=
  w.words.flatMap Spelling.operands ++ w.stop.getD []

theorem scanArgs_words (words : List (Spelling S)) (rest : List Bytes) :
    (scanArgs S none (words.flatMap Spelling.write ++ rest)).found =
        words.flatMap Spelling.found ++ (scanArgs S none rest).found ∧
      (scanArgs S none (words.flatMap Spelling.write ++ rest)).operands =
        words.flatMap Spelling.operands ++ (scanArgs S none rest).operands := by
  induction words with
  | nil => exact ⟨rfl, rfl⟩
  | cons w words ih =>
    have hw := scanArgs_write w (words.flatMap Spelling.write ++ rest)
    rw [List.flatMap_cons, List.flatMap_cons, List.flatMap_cons, List.append_assoc]
    exact ⟨by rw [hw.1, ih.1, List.append_assoc], by rw [hw.2, ih.2, List.append_assoc]⟩

/-- What is written is what is found. -/
theorem scanArgs_written (w : Written S) :
    (scanArgs S none w.write).found = w.found ∧
      (scanArgs S none w.write).operands = w.operands := by
  have hwords := scanArgs_words w.words ((w.stop.map (dashDash :: ·)).getD [])
  cases hstop : w.stop with
  | none =>
    rw [hstop] at hwords
    simpa [Written.write, Written.found, Written.operands, hstop, scanArgs] using hwords
  | some ops =>
    have hend : scanArgs S none (dashDash :: ops) = ⟨[], [dashDash], ops⟩ := by
      rw [scanArgs, if_neg (by decide), if_pos rfl]
    rw [hstop] at hwords
    simpa [Written.write, Written.found, Written.operands, hstop, hend] using hwords

theorem Written.printed (w : Written S) : ∀ f ∈ w.found, f.printed = [] := by
  intro f hf
  obtain ⟨x, _, hx⟩ := List.mem_flatMap.mp hf
  exact x.printed f hx

end Spelling

/-! ## The same run -/

section Runs

variable {programName : Bytes}

theorem diagnostics_nil {getpass : Option Bytes} {found : List Found}
    (h : ∀ f ∈ found, f.printed = []) (p : Parse) :
    diagnostics programName getpass found p = [] := by
  induction found generalizing p with
  | nil => rfl
  | cons f fs ih =>
    have hf : diagnostic f.printed = [] := by rw [diagnostic, if_pos (h f List.mem_cons_self)]
    have hfs := ih fun f' hf' => h f' (List.mem_cons_of_mem f hf')
    simp only [diagnostics, hf, List.nil_append]
    split
    · rfl
    · split
      · rfl
      · exact hfs _

/-- A run looks at the number of arguments only to see whether there are any. -/
theorem runs_congr {sys : Sys} {args args' : CommandLine} (hopts : args.opts = args'.opts)
    (hoperands : args.operands = args'.operands) (hargc : args.argc = 1 ↔ args'.argc = 1)
    (events : List Event) (halt : Halt) :
    Runs sys args events halt ↔ Runs sys args' events halt := by
  have hparse : parseArgs sys.programName sys.getpass args =
      parseArgs sys.programName sys.getpass args' := by
    simp only [parseArgs, hopts, hoperands, hargc]
  have hstart : start sys args = start sys args' := by
    simp only [start, hparse, hoperands]
  rw [Runs, Runs, hstart]

theorem mainRuns_of_written {sys : Sys} {posixlyCorrect : Bool}
    (w : Written (wolSetting posixlyCorrect sys.programName)) (events : List Event) (halt : Halt) :
    MainRuns sys posixlyCorrect w.write events halt ↔
      Runs sys ⟨w.write.length + 1, optsOf w.found, w.operands⟩ events halt := by
  obtain ⟨hfound, hoperands⟩ := scanArgs_written w
  have hline : commandLine posixlyCorrect sys.programName w.write =
      ⟨w.write.length + 1, optsOf w.found, w.operands⟩ := by
    rw [commandLine, scanned, hfound, hoperands]
  have hprinted : diagnostics sys.programName sys.getpass
      (scanned posixlyCorrect sys.programName w.write).found ⟨{}, false⟩ = [] := by
    rw [scanned, hfound]
    exact diagnostics_nil w.printed _
  constructor
  · intro h
    obtain ⟨events', hruns, rfl⟩ := h.runs
    rw [hline] at hruns
    rwa [hprinted]
  · intro h
    rw [← hline] at h
    have hmain := mainRuns_of_runs h
    rwa [hprinted] at hmain

/-- Two argument vectors that write the same options in the same order and the same operands in the
same order have the same runs. Spelling, abbreviation, grouping, where the operands stand among the
options, and `POSIXLY_CORRECT` make no difference. -/
theorem mainRuns_written (sys : Sys) {posixlyCorrect posixlyCorrect' : Bool}
    (w : Written (wolSetting posixlyCorrect sys.programName))
    (w' : Written (wolSetting posixlyCorrect' sys.programName))
    (hopts : optsOf w.found = optsOf w'.found) (hoperands : w.operands = w'.operands)
    (hempty : w.write = [] ↔ w'.write = []) :
    ∀ events halt, MainRuns sys posixlyCorrect w.write events halt ↔
      MainRuns sys posixlyCorrect' w'.write events halt := by
  intro events halt
  rw [mainRuns_of_written, mainRuns_of_written]
  refine runs_congr hopts hoperands ?_ events halt
  simpa using hempty

/-- `-vi lab -- 1:2:3:4:5:6` -/
def groupedWords : Written (wolSetting true (ascii "wol")) where
  words := [.separate ⟨ascii "v", by decide +kernel, by decide +kernel⟩ 'i'.toUInt8 (ascii "lab")
    (by decide +kernel) (by decide +kernel)]
  stop := some [ascii "1:2:3:4:5:6"]

/-- `1:2:3:4:5:6 --verb --ho=lab` -/
def abbreviatedWords : Written (wolSetting false (ascii "wol")) where
  words :=
    [.operand (ascii "1:2:3:4:5:6") rfl rfl,
      .name ⟨ascii "verb", ⟨ascii "verbose", .noArgument, 118⟩, by decide +kernel,
        by decide +kernel, by decide +kernel⟩ (by decide +kernel),
      .nameValue ⟨ascii "ho", ⟨ascii "host", .requiredArgument, 104⟩, by decide +kernel,
        by decide +kernel, by decide +kernel⟩ (ascii "lab") (by decide +kernel)]
  stop := none

theorem mainRuns_written_lab :
    groupedWords.write ≠ abbreviatedWords.write ∧
      ∀ events halt, MainRuns exampleSys true groupedWords.write events halt ↔
        MainRuns exampleSys false abbreviatedWords.write events halt :=
  ⟨by decide +kernel, mainRuns_written exampleSys groupedWords abbreviatedWords
    (by decide +kernel) (by decide +kernel) (by decide +kernel)⟩

end Runs

/-! ## A vector for every command line -/

section Canonical

variable {posixlyCorrect : Bool} {programName : Bytes}

theorem resolve_name : ∀ p ∈ longOptions, resolve longOptions p.name = .option p := by
  decide +kernel

/-- The full names of the table are names. -/
def fullName (posixlyCorrect : Bool) (programName : Bytes) (p : LongOption) (hp : p ∈ longOptions) :
    LongName (wolSetting posixlyCorrect programName) where
  text := p.name
  p := p
  nonempty := by
    revert p
    decide
  plain := by
    revert p
    decide +kernel
  resolves := resolve_name p hp

def longName (name : String) : Bytes := dashDash ++ ascii name

def longValue (name : String) (arg : Bytes) : Bytes := longName name ++ 61 :: arg

/-- An option in full; `-?` is an option that `wol` does not have. -/
def writeOpt : Opt → Bytes
  | .help => longName "help"
  | .version => longName "version"
  | .verbose => longName "verbose"
  | .wait arg => longValue "wait" arg
  | .udp => longName "udp"
  | .raw => longName "raw"
  | .proxy arg => longValue "proxy" arg
  | .host arg => longValue "host" arg
  | .port arg => longValue "port" arg
  | .file arg => longValue "file" arg
  | .passwd (some arg) => longValue "passwd" arg
  | .passwd none => longName "passwd"
  | .other => ascii "-?"

theorem scanned_name {o : Opt} {p : LongOption} (hp : p ∈ longOptions)
    (hkind : p.hasArg ≠ .requiredArgument) (ho : optOf p.val none = some o) (rest : List Bytes) :
    optsOf (scanned posixlyCorrect programName ((dashDash ++ p.name) :: rest)).found =
        o :: optsOf (scanned posixlyCorrect programName rest).found ∧
      (scanned posixlyCorrect programName ((dashDash ++ p.name) :: rest)).operands =
        (scanned posixlyCorrect programName rest).operands := by
  obtain ⟨hfound, hoperands⟩ := scanArgs_write
    (.name (fullName posixlyCorrect programName p hp) hkind) rest
  exact ⟨(congrArg optsOf hfound).trans (List.filterMap_cons_some ho), hoperands⟩

theorem scanned_value {o : Opt} {p : LongOption} {arg : Bytes} (hp : p ∈ longOptions)
    (hkind : p.hasArg ≠ .noArgument) (ho : optOf p.val (some arg) = some o) (rest : List Bytes) :
    optsOf (scanned posixlyCorrect programName ((dashDash ++ p.name ++ 61 :: arg) :: rest)).found =
        o :: optsOf (scanned posixlyCorrect programName rest).found ∧
      (scanned posixlyCorrect programName ((dashDash ++ p.name ++ 61 :: arg) :: rest)).operands =
        (scanned posixlyCorrect programName rest).operands := by
  obtain ⟨hfound, hoperands⟩ := scanArgs_write
    (.nameValue (fullName posixlyCorrect programName p hp) arg hkind) rest
  exact ⟨(congrArg optsOf hfound).trans (List.filterMap_cons_some ho), hoperands⟩

variable (posixlyCorrect programName) in
theorem scanned_writeOpt (o : Opt) (rest : List Bytes) :
    optsOf (scanned posixlyCorrect programName (writeOpt o :: rest)).found =
        o :: optsOf (scanned posixlyCorrect programName rest).found ∧
      (scanned posixlyCorrect programName (writeOpt o :: rest)).operands =
        (scanned posixlyCorrect programName rest).operands := by
  cases o with
  | help => exact scanned_name (p := ⟨ascii "help", .noArgument, 72⟩) (by decide) (by decide) rfl _
  | version =>
    exact scanned_name (p := ⟨ascii "version", .noArgument, 86⟩) (by decide) (by decide) rfl _
  | verbose =>
    exact scanned_name (p := ⟨ascii "verbose", .noArgument, 118⟩) (by decide) (by decide) rfl _
  | wait arg =>
    exact scanned_value (p := ⟨ascii "wait", .requiredArgument, 119⟩) (by decide) (by decide) rfl _
  | udp => exact scanned_name (p := ⟨ascii "udp", .noArgument, 117⟩) (by decide) (by decide) rfl _
  | raw => exact scanned_name (p := ⟨ascii "raw", .noArgument, 114⟩) (by decide) (by decide) rfl _
  | proxy arg =>
    exact scanned_value (p := ⟨ascii "proxy", .requiredArgument, 115⟩) (by decide) (by decide) rfl _
  | host arg =>
    exact scanned_value (p := ⟨ascii "host", .requiredArgument, 104⟩) (by decide) (by decide) rfl _
  | port arg =>
    exact scanned_value (p := ⟨ascii "port", .requiredArgument, 112⟩) (by decide) (by decide) rfl _
  | file arg =>
    exact scanned_value (p := ⟨ascii "file", .requiredArgument, 102⟩) (by decide) (by decide) rfl _
  | passwd optarg =>
    cases optarg with
    | none =>
      exact scanned_name (p := ⟨ascii "passwd", .optionalArgument, 80⟩) (by decide) (by decide)
        rfl _
    | some arg =>
      exact scanned_value (p := ⟨ascii "passwd", .optionalArgument, 80⟩) (by decide) (by decide)
        rfl _
  | other =>
    have hne : [question] ≠ [] := by decide
    have hscan := scanArgs_short (S := wolSetting posixlyCorrect programName) hne (by decide) rest
    exact ⟨congrArg optsOf hscan.1, hscan.2⟩

/-- Every list of options and every list of operands, whatever the operands look like, has an
argument vector. -/
theorem commandLine_canonical (posixlyCorrect : Bool) (programName : Bytes) (opts : List Opt)
    (operands : List Bytes) :
    commandLine posixlyCorrect programName (opts.map writeOpt ++ dashDash :: operands) =
      ⟨opts.length + operands.length + 2, opts, operands⟩ := by
  have hscan : optsOf (scanned posixlyCorrect programName
        (opts.map writeOpt ++ dashDash :: operands)).found = opts ∧
      (scanned posixlyCorrect programName
        (opts.map writeOpt ++ dashDash :: operands)).operands = operands := by
    induction opts with
    | nil => exact ⟨rfl, rfl⟩
    | cons o opts ih =>
      obtain ⟨hopts, hoperands⟩ := scanned_writeOpt posixlyCorrect programName o
        (opts.map writeOpt ++ dashDash :: operands)
      exact ⟨hopts.trans (congrArg _ ih.1), hoperands.trans ih.2⟩
  rw [commandLine, hscan.1, hscan.2]
  simp only [List.length_append, List.length_map, List.length_cons, CommandLine.mk.injEq, and_true]
  omega

end Canonical

end WakeOnLan
