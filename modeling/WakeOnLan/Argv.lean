import WakeOnLan.GetoptCorrect
import WakeOnLan.Wol

/-!
# WakeOnLan.Argv

`parse_args` on the argument vector itself.

* `optOf`          — the `switch` on what `getopt_long` returns.
* `parseArgsRound` — one round of the option loop.
* `ParsesArgs`     — the call: what it prints, and how it returns or stops.
* `commandLine`    — the options and the operands that an argument vector stands for.

`parsesArgs_iff`: the loop comes to its end on every argument vector, and what it makes of it is
what `parseArgs` makes of the command line; `mainRuns_iff` is the same for the whole program.
-/

namespace WakeOnLan

open CLib

def options : Bytes := ascii "Vvw:h:i:p:f:s:ru-"

def longOptions : List LongOption :=
  [⟨ascii "help", .noArgument, 'H'.toUInt8⟩,
    ⟨ascii "version", .noArgument, 'V'.toUInt8⟩,
    ⟨ascii "verbose", .noArgument, 'v'.toUInt8⟩,
    ⟨ascii "wait", .requiredArgument, 'w'.toUInt8⟩,
    ⟨ascii "host", .requiredArgument, 'h'.toUInt8⟩,
    ⟨ascii "ipaddr", .requiredArgument, 'i'.toUInt8⟩,
    ⟨ascii "port", .requiredArgument, 'p'.toUInt8⟩,
    ⟨ascii "file", .requiredArgument, 'f'.toUInt8⟩,
    ⟨ascii "passwd", .optionalArgument, 'P'.toUInt8⟩,
    ⟨ascii "proxy", .requiredArgument, 's'.toUInt8⟩,
    ⟨ascii "raw", .noArgument, 'r'.toUInt8⟩,
    ⟨ascii "udp", .noArgument, 'u'.toUInt8⟩]

/-- The case of the `switch`; `none` if it takes a null `optarg` for a string. -/
def optOf (c : UInt8) (optarg : Option Bytes) : Option Opt :=
  if c = 'H'.toUInt8 then some .help
  else if c = 'V'.toUInt8 then some .version
  else if c = 'v'.toUInt8 then some .verbose
  else if c = 'w'.toUInt8 then optarg.map .wait
  else if c = 'u'.toUInt8 then some .udp
  else if c = 'r'.toUInt8 then some .raw
  else if c = 's'.toUInt8 then optarg.map .proxy
  else if c = 'h'.toUInt8 ∨ c = 'i'.toUInt8 then optarg.map .host
  else if c = 'p'.toUInt8 then optarg.map .port
  else if c = 'f'.toUInt8 then optarg.map .file
  else if c = 'P'.toUInt8 then some (.passwd optarg)
  else some .other

structure ArgState where
  d : GetoptData
  p : Parse
  deriving DecidableEq

def diagnostic (printed : Bytes) : List Event := if printed = [] then [] else [.stderr printed]

/-- The result of the loop is `none` if a call went outside the argument vector, or a null `optarg`
was taken for a string. -/
def parseArgsRound (posixlyCorrect : Bool) (programName : Bytes) (getpass : Option Bytes)
    (s : ArgState) : List Event × Round ArgState (Option (Except Stop ArgState)) :=
  match getoptInternalR posixlyCorrect options longOptions s.d with
  | none => ([], .done none)
  | some ⟨none, printed, d⟩ => (diagnostic printed, .done (some (.ok ⟨d, s.p⟩)))
  | some ⟨some c, printed, d⟩ =>
    match optOf c d.optarg with
    | none => (diagnostic printed, .done none)
    | some o =>
      match parseOpt programName getpass s.p o with
      | .error stop => (diagnostic printed, .done (some (.error stop)))
      | .ok p => (diagnostic printed, .next ⟨d, p⟩)

/-- Behind the loop: the global variables, and the operands from `optind` on. -/
def afterOptions (programName : Bytes) (s : ArgState) : Except Stop (Globals × List Bytes) :=
  let operands := s.d.argv.drop s.d.optind
  if s.d.optind = s.d.argv.length ∧ s.p.globals.pathname = none then
    .error (usage programName "You must specify at least one MAC-ADDRESS.")
  else
    .ok ({ s.p.globals with requestStdin := requestsStdin operands s.p.globals.pathname },
      operands)

/-- A call of `parse_args` that comes to an end. -/
inductive ParsesArgs (posixlyCorrect : Bool) (programName : Bytes) (getpass : Option Bytes)
    (args : List Bytes) : List Event → Option (Except Stop (Globals × List Bytes)) → Prop where
  | few (h : args = []) :
      ParsesArgs posixlyCorrect programName getpass args []
        (some (.error (usage programName "Too few arguments.")))
  | wild {events : List Event} (h : args ≠ [])
      (hexec : Exec (parseArgsRound posixlyCorrect programName getpass)
        ⟨{ argv := programName :: args }, ⟨{}, false⟩⟩ events none) :
      ParsesArgs posixlyCorrect programName getpass args events none
  | stop {events : List Event} {stop : Stop} (h : args ≠ [])
      (hexec : Exec (parseArgsRound posixlyCorrect programName getpass)
        ⟨{ argv := programName :: args }, ⟨{}, false⟩⟩ events (some (.error stop))) :
      ParsesArgs posixlyCorrect programName getpass args events (some (.error stop))
  | done {events : List Event} {s : ArgState} (h : args ≠ [])
      (hexec : Exec (parseArgsRound posixlyCorrect programName getpass)
        ⟨{ argv := programName :: args }, ⟨{}, false⟩⟩ events (some (.ok s))) :
      ParsesArgs posixlyCorrect programName getpass args events
        (some (afterOptions programName s))

/-! ## The command line of an argument vector -/

def wolSetting (posixlyCorrect : Bool) (programName : Bytes) : Setting where
  posixlyCorrect := posixlyCorrect
  optstring := options
  longopts := longOptions
  prog := programName
  plain := by
    intro c hc
    obtain rfl : 86 = c := Option.some.inj hc
    decide

def scanned (posixlyCorrect : Bool) (programName : Bytes) (args : List Bytes) : Scanned :=
  scanArgs (wolSetting posixlyCorrect programName) none args

def optsOf (found : List Found) : List Opt := found.filterMap fun f => optOf f.c f.optarg

def commandLine (posixlyCorrect : Bool) (programName : Bytes) (args : List Bytes) :
    CommandLine where
  argc := args.length + 1
  opts := optsOf (scanned posixlyCorrect programName args).found
  operands := (scanned posixlyCorrect programName args).operands

/-- A long option may be cut down to whatever no other long option begins with. -/
theorem longOptions_iff (name : Bytes) (p : LongOption) :
    (matchLong name longOptions {}).resolved = .option p ↔
      p ∈ longOptions ∧ name <+: p.name ∧ ∀ q ∈ longOptions, name <+: q.name → q = p := by
  have hfull : ∀ p ∈ longOptions, ∀ q ∈ longOptions, p.name <+: q.name → q = p := by
    decide +kernel
  rw [matchLong_iff (by decide +kernel) (by decide +kernel)]
  constructor
  · rintro ⟨hp, rfl | ⟨hpre, hunique⟩⟩
    · exact ⟨hp, List.prefix_refl _, hfull p hp⟩
    · exact ⟨hp, hpre, hunique⟩
  · rintro ⟨hp, hpre, hunique⟩
    exact ⟨hp, .inr ⟨hpre, hunique⟩⟩

/-! ## No null argument is taken for a string -/

theorem isSome_ite {p : Prop} [Decidable p] {o o' : Option Opt} (h : o.isSome = true)
    (h' : o'.isSome = true) : (if p then o else o').isSome = true := by
  split
  · exact h
  · exact h'

theorem isSome_optOf_some (c : UInt8) (arg : Bytes) : (optOf c (some arg)).isSome = true := by
  unfold optOf
  repeat refine isSome_ite rfl ?_
  rfl

theorem requires_of_optOf_none (c : UInt8) (h : optOf c none = none) :
    shortArg options c = some .requiredArgument := by
  revert c
  apply forall_byte
  decide +kernel

theorem optOf_longOptions : ∀ p ∈ longOptions, p.hasArg ≠ .requiredArgument →
    (optOf p.val none).isSome = true := by
  decide +kernel

theorem isSome_optOf {posixlyCorrect : Bool} {programName : Bytes} {f : Found}
    (h : Legal (wolSetting posixlyCorrect programName) f) :
    (optOf f.c f.optarg).isSome = true := by
  cases hoptarg : f.optarg with
  | some arg => exact isSome_optOf_some f.c arg
  | none =>
    cases h with
    | short kind hc ha _ =>
      rw [hoptarg] at ha
      by_contra hnone
      have hreq := requires_of_optOf_none f.c (by simpa using hnone)
      obtain rfl : kind = .requiredArgument := Option.some.inj (hc.symm.trans hreq)
      obtain ⟨arg, harg⟩ := ha
      cases harg
    | long p hmem hc ha _ =>
      rw [hoptarg] at ha
      rw [hc]
      refine optOf_longOptions p hmem fun hreq => ?_
      rw [hreq] at ha
      obtain ⟨arg, harg⟩ := ha
      cases harg
    | refused hc _ _ =>
      rw [hc]
      rfl

/-! ## The loop -/

section Loop

variable {posixlyCorrect : Bool} {programName : Bytes} {getpass : Option Bytes}

variable (programName getpass) in
/-- What the loop prints about the options up to the one that stops it. -/
def diagnostics : List Found → Parse → List Event
  | [], _ => []
  | f :: fs, p =>
    diagnostic f.printed ++
      match optOf f.c f.optarg with
      | none => []
      | some o =>
        match parseOpt programName getpass p o with
        | .error _ => []
        | .ok p => diagnostics fs p

/-- How the loop ends when `parseOpts` ends with `r` on the options. -/
def EndsWith (S : Setting) (T O : List Bytes) : Except Stop Parse → Except Stop ArgState → Prop
  | .error stop, r => r = .error stop
  | .ok p, r => ∃ d, r = .ok ⟨d, p⟩ ∧ Finished S T O d

variable (getpass) in
theorem parseArgs_run {T O : List Bytes} {found : List Found} {d : GetoptData} (p : Parse)
    (h : Pending (wolSetting posixlyCorrect programName) T O found d)
    (hlegal : ∀ f ∈ found, Legal (wolSetting posixlyCorrect programName) f) :
    ∃ r, Exec (parseArgsRound posixlyCorrect programName getpass) ⟨d, p⟩
        (diagnostics programName getpass found p) (some r) ∧
      EndsWith (wolSetting posixlyCorrect programName) T O
        (parseOpts programName getpass (optsOf found) p) r := by
  induction found generalizing d p with
  | nil =>
    rcases getopt_step h with hhands | ⟨_, d', hcall, hfin⟩
    · cases hhands
    · refine ⟨.ok ⟨d', p⟩, .done ?_, d', rfl, hfin⟩
      rw [parseArgsRound]
      simp only [show getoptInternalR posixlyCorrect options longOptions d = _ from hcall]
      rfl
  | cons f fs ih =>
    rcases getopt_step h with hhands | ⟨hnil, _⟩
    · generalize hcall : getoptInternalR (wolSetting posixlyCorrect programName).posixlyCorrect
        (wolSetting posixlyCorrect programName).optstring
        (wolSetting posixlyCorrect programName).longopts d = call at hhands
      cases hhands with
      | intro hoptarg hpending =>
        rename_i d'
        have hcall' : getoptInternalR posixlyCorrect options longOptions d =
            some ⟨some f.c, f.printed, d'⟩ := hcall
        obtain ⟨o, ho⟩ := Option.isSome_iff_exists.mp (isSome_optOf (hlegal f List.mem_cons_self))
        have hopts : optsOf (f :: fs) = o :: optsOf fs := List.filterMap_cons_some ho
        rw [hopts, parseOpts]
        simp only [diagnostics, ho]
        cases hp : parseOpt programName getpass p o with
        | error stop =>
          have hround : parseArgsRound posixlyCorrect programName getpass ⟨d, p⟩ =
              (diagnostic f.printed, .done (some (.error stop))) := by
            simp only [parseArgsRound, hcall', hoptarg, ho, hp]
          rw [List.append_nil]
          exact ⟨.error stop, .done hround, rfl⟩
        | ok p' =>
          have hround : parseArgsRound posixlyCorrect programName getpass ⟨d, p⟩ =
              (diagnostic f.printed, .next ⟨d', p'⟩) := by
            simp only [parseArgsRound, hcall', hoptarg, ho, hp]
          obtain ⟨r, hexec, hends⟩ := ih p' hpending fun f' hf' =>
            hlegal f' (List.mem_cons_of_mem f hf')
          exact ⟨r, .next hround hexec, hends⟩
    · cases hnil

variable (posixlyCorrect programName getpass) in
theorem parseArgs_exec (args : List Bytes) :
    ∃ r, Exec (parseArgsRound posixlyCorrect programName getpass)
        ⟨{ argv := programName :: args }, ⟨{}, false⟩⟩
        (diagnostics programName getpass (scanned posixlyCorrect programName args).found
          ⟨{}, false⟩) (some r) ∧
      EndsWith (wolSetting posixlyCorrect programName)
        (scanned posixlyCorrect programName args).taken
        (scanned posixlyCorrect programName args).operands
        (parseOpts programName getpass (commandLine posixlyCorrect programName args).opts
          ⟨{}, false⟩) r := by
  have hpending := pending_first (S := wolSetting posixlyCorrect programName) args
  have hlegal := scanArgs_legal (S := wolSetting posixlyCorrect programName) none (by simp) args
  obtain ⟨r, hexec, hends⟩ := parseArgs_run getpass ⟨{}, false⟩ hpending hlegal
  refine ⟨r, hexec.congr ?_, hends⟩
  have hfirst := getoptInternalR_first (S := wolSetting posixlyCorrect programName) args
  have hfirst' : getoptInternalR posixlyCorrect options longOptions
      { argv := programName :: args } = getoptInternalR posixlyCorrect options longOptions
        (initialState (wolSetting posixlyCorrect programName) args) := hfirst
  simp only [parseArgsRound, hfirst']

theorem afterOptions_finished {d : GetoptData} {p : Parse} {T O : List Bytes}
    (h : Finished (wolSetting posixlyCorrect programName) T O d) :
    afterOptions programName ⟨d, p⟩ =
      if O = [] ∧ p.globals.pathname = none then
        .error (usage programName "You must specify at least one MAC-ADDRESS.")
      else
        .ok ({ p.globals with requestStdin := requestsStdin O p.globals.pathname }, O) := by
  have hend : d.optind = d.argv.length ↔ O = [] := by
    rw [h.argv, h.optind, List.length_cons, List.length_append, ← List.length_eq_zero_iff]
    omega
  simp only [afterOptions, h.drop, hend]

/-- What `parseArgs` says of a command line, with the operands that `main` goes on with. -/
def parsed (programName : Bytes) (getpass : Option Bytes) (args : CommandLine) :
    Except Stop (Globals × List Bytes) :=
  (parseArgs programName getpass args).map fun g => (g, args.operands)

theorem parsed_few : parsed programName getpass (commandLine posixlyCorrect programName []) =
    .error (usage programName "Too few arguments.") := rfl

theorem parsed_of_endsWith {args : List Bytes} (hargs : args ≠ []) {r : Except Stop ArgState}
    (h : EndsWith (wolSetting posixlyCorrect programName)
      (scanned posixlyCorrect programName args).taken
      (scanned posixlyCorrect programName args).operands
      (parseOpts programName getpass (commandLine posixlyCorrect programName args).opts
        ⟨{}, false⟩) r) :
    parsed programName getpass (commandLine posixlyCorrect programName args) =
      r.bind (afterOptions programName) := by
  have hargc : ¬ (commandLine posixlyCorrect programName args).argc = 1 := by
    simpa [commandLine] using hargs
  rw [parsed, parseArgs, if_neg hargc]
  cases hp : parseOpts programName getpass (commandLine posixlyCorrect programName args).opts
      ⟨{}, false⟩ with
  | error stop =>
    rw [hp] at h
    obtain rfl : r = .error stop := h
    rfl
  | ok p =>
    rw [hp] at h
    obtain ⟨d, rfl, hfin⟩ := h
    have hafter := afterOptions_finished (p := p) hfin
    simp only [Except.bind, hafter]
    by_cases hend : (commandLine posixlyCorrect programName args).operands = [] ∧
        p.globals.pathname = none
    · rw [if_pos hend]
      exact (if_pos hend).symm
    · rw [if_neg hend]
      exact (if_neg hend).symm

variable {args : List Bytes} {events : List Event}
  {r : Option (Except Stop (Globals × List Bytes))}

theorem ParsesArgs.eq_parsed (h : ParsesArgs posixlyCorrect programName getpass args events r) :
    events = diagnostics programName getpass (scanned posixlyCorrect programName args).found
      ⟨{}, false⟩ ∧
    r = some (parsed programName getpass (commandLine posixlyCorrect programName args)) := by
  obtain ⟨r', hexec, hends⟩ := parseArgs_exec posixlyCorrect programName getpass args
  cases h with
  | few hargs =>
    obtain rfl := hargs
    exact ⟨rfl, congrArg some parsed_few.symm⟩
  | wild hargs hexec' => cases (hexec.deterministic hexec').2
  | stop hargs hexec' =>
    obtain ⟨rfl, hr⟩ := hexec.deterministic hexec'
    obtain rfl := Option.some.inj hr
    exact ⟨rfl, congrArg some (parsed_of_endsWith hargs hends).symm⟩
  | done hargs hexec' =>
    obtain ⟨rfl, hr⟩ := hexec.deterministic hexec'
    obtain rfl := Option.some.inj hr
    exact ⟨rfl, congrArg some (parsed_of_endsWith hargs hends).symm⟩

variable (posixlyCorrect programName getpass args) in
theorem parsesArgs_parsed :
    ParsesArgs posixlyCorrect programName getpass args
      (diagnostics programName getpass (scanned posixlyCorrect programName args).found ⟨{}, false⟩)
      (some (parsed programName getpass (commandLine posixlyCorrect programName args))) := by
  obtain ⟨r, hexec, hends⟩ := parseArgs_exec posixlyCorrect programName getpass args
  by_cases hargs : args = []
  · obtain rfl := hargs
    rw [parsed_few]
    exact .few rfl
  · rw [parsed_of_endsWith hargs hends]
    cases r with
    | error stop => exact .stop hargs hexec
    | ok s => exact .done hargs hexec

variable (posixlyCorrect programName getpass args events r) in
/-- On every argument vector the loop comes to its end, and neither leaves the vector nor takes a
null pointer for a string. What the call returns, or how it stops, is what `parseArgs` says of the
command line that the vector stands for. -/
theorem parsesArgs_iff :
    ParsesArgs posixlyCorrect programName getpass args events r ↔
      events = diagnostics programName getpass (scanned posixlyCorrect programName args).found
        ⟨{}, false⟩ ∧
      r = some (parsed programName getpass (commandLine posixlyCorrect programName args)) := by
  constructor
  · exact ParsesArgs.eq_parsed
  · rintro ⟨rfl, rfl⟩
    exact parsesArgs_parsed ..

end Loop

/-! ## The whole program -/

/-- `main` behind `parse_args`. -/
def startParsed (sys : Sys) (g : Globals) (operands : List Bytes) : Except Stop State :=
  match openSocket sys g with
  | (none, events) => .error ⟨events, .exit 1⟩
  | (some sock, _) =>
    .ok { phase := .targets (if g.requestStdin then [] else operands), globals := g,
          magic := magicCreate sys.uninit (g.passwd ≠ .none), sock := sock, ret := 0, calls := 0 }

/-- A run of `main` on an argument vector, with what `getopt_long` prints in front. -/
inductive MainRuns (sys : Sys) (posixlyCorrect : Bool) (args : List Bytes) :
    List Event → Halt → Prop where
  | usage {printed : List Event} {stop : Stop}
      (h : ParsesArgs posixlyCorrect sys.programName sys.getpass args printed
        (some (.error stop))) :
      MainRuns sys posixlyCorrect args (printed ++ stop.events) stop.halt
  | socket {printed : List Event} {g : Globals} {operands : List Bytes} {stop : Stop}
      (h : ParsesArgs posixlyCorrect sys.programName sys.getpass args printed
        (some (.ok (g, operands))))
      (hstart : startParsed sys g operands = .error stop) :
      MainRuns sys posixlyCorrect args (printed ++ stop.events) stop.halt
  | run {printed events : List Event} {g : Globals} {operands : List Bytes} {s : State}
      {halt : Halt}
      (h : ParsesArgs posixlyCorrect sys.programName sys.getpass args printed
        (some (.ok (g, operands))))
      (hstart : startParsed sys g operands = .ok s) (hexec : Exec (mainRound sys) s events halt) :
      MainRuns sys posixlyCorrect args (printed ++ events) halt

theorem start_eq (sys : Sys) (args : CommandLine) :
    start sys args = (parsed sys.programName sys.getpass args).bind fun r =>
      startParsed sys r.1 r.2 := by
  rw [start, parsed]
  cases parseArgs sys.programName sys.getpass args with
  | error stop => rfl
  | ok g => rfl

section Main

variable {sys : Sys} {posixlyCorrect : Bool} {args : List Bytes} {events : List Event} {halt : Halt}

theorem MainRuns.runs (h : MainRuns sys posixlyCorrect args events halt) :
    ∃ events', Runs sys (commandLine posixlyCorrect sys.programName args) events' halt ∧
      events = diagnostics sys.programName sys.getpass
        (scanned posixlyCorrect sys.programName args).found ⟨{}, false⟩ ++ events' := by
  cases h with
  | usage h =>
    obtain ⟨rfl, hr⟩ := h.eq_parsed
    refine ⟨_, ?_, rfl⟩
    rw [Runs, start_eq, ← Option.some.inj hr]
    exact ⟨rfl, rfl⟩
  | socket h hstart =>
    obtain ⟨rfl, hr⟩ := h.eq_parsed
    refine ⟨_, ?_, rfl⟩
    rw [Runs, start_eq, ← Option.some.inj hr]
    simp only [Except.bind, hstart, and_self]
  | run h hstart hexec =>
    obtain ⟨rfl, hr⟩ := h.eq_parsed
    refine ⟨_, ?_, rfl⟩
    rw [Runs, start_eq, ← Option.some.inj hr]
    simp only [Except.bind, hstart]
    exact hexec

theorem mainRuns_of_runs
    (h : Runs sys (commandLine posixlyCorrect sys.programName args) events halt) :
    MainRuns sys posixlyCorrect args (diagnostics sys.programName sys.getpass
      (scanned posixlyCorrect sys.programName args).found ⟨{}, false⟩ ++ events) halt := by
  have hparse := parsesArgs_parsed posixlyCorrect sys.programName sys.getpass args
  rw [Runs, start_eq] at h
  cases hp : parsed sys.programName sys.getpass
      (commandLine posixlyCorrect sys.programName args) with
  | error stop =>
    rw [hp] at hparse h
    obtain ⟨rfl, rfl⟩ := h
    exact .usage hparse
  | ok r =>
    rw [hp] at hparse h
    simp only [Except.bind] at h
    cases hs : startParsed sys r.1 r.2 with
    | error stop =>
      rw [hs] at h
      obtain ⟨rfl, rfl⟩ := h
      exact .socket hparse hs
    | ok s =>
      rw [hs] at h
      exact .run hparse hs h

variable (sys posixlyCorrect args events halt) in
/-- The runs on an argument vector are the runs on the command line that it stands for, behind the
diagnostics about its options. -/
theorem mainRuns_iff :
    MainRuns sys posixlyCorrect args events halt ↔
      ∃ events', Runs sys (commandLine posixlyCorrect sys.programName args) events' halt ∧
        events = diagnostics sys.programName sys.getpass
          (scanned posixlyCorrect sys.programName args).found ⟨{}, false⟩ ++ events' := by
  constructor
  · exact MainRuns.runs
  · rintro ⟨events', hruns, rfl⟩
    exact mainRuns_of_runs hruns

end Main

end WakeOnLan
