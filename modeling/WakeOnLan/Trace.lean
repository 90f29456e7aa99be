import WakeOnLan.CLib.Simulation
import WakeOnLan.Argv
import WakeOnLan.Calls

/-!
# WakeOnLan.Trace

Everything that a run in UDP or RAW mode shows to the outside.

* `WakeTarget.attempt` — what one target comes to: a function of its texts, the options and the
  surroundings of its call. Neither the packet buffer nor other targets have a part in it.
* `send_attempt`   — a call of `assemble_and_send` is that attempt.
* `targets_trace`  — the loop over the operands, by induction on them.
* `ReadsAlong`     — the loop over the macfile goes along with the read loop (`record_round`).
* `Feed`           — what the source behind the operands has to give, and how it comes to its end.
* `mainRuns_trace` — the events and the exit status of a run on an argument vector.
-/

namespace WakeOnLan

open CLib

/-! ## What a target comes to -/

/-- Whom to wake, where the packet goes, and the password that goes with it. -/
structure WakeTarget where
  mac : Bytes
  host : Bytes
  port : UInt32
  passwd : Option Bytes
  deriving DecidableEq

structure WakeTrial where
  failed : Bool
  events : List Event
  deriving DecidableEq

def WakeTarget.dest (g : Globals) (env : Env) (t : WakeTarget) : Option SockAddr :=
  if g.packetMode &&& udpMode ≠ 0 then
    (env.gethostbyname t.host).map fun addr => .inet addr t.port.toUInt16
  else some .packet

/-- The diagnostic for a target without a packet. -/
def WakeTarget.refusal (env : Env) (t : WakeTarget) : Bytes :=
  if addressOf env.ethers t.mac = none then cannotAssemble t.mac else invalidPassword t.mac

/-- In RAW mode nothing comes of a `sendto` that fails. -/
def WakeTarget.attempt (g : Globals) (env : Env) (t : WakeTarget) : WakeTrial :=
  match packetOf env.ethers t.mac t.passwd with
  | none => ⟨true, [.error (t.refusal env)]⟩
  | some packet =>
    match t.dest g env with
    | none => ⟨true, [.error invalidIpAddress, .error (cannotSend t.mac t.host t.port)]⟩
    | some dest =>
      if g.packetMode &&& udpMode ≠ 0 ∧ env.sendto dest packet = -1 then
        ⟨true, [.sendto dest packet, .error (cannotSend t.mac t.host t.port)]⟩
      else ⟨false, .sendto dest packet :: report g t.mac t.host t.port⟩

/-- The attempts at some targets, when `n` calls have been made before. -/
def wakeTrials (g : Globals) (call : Nat → Env) (n : Nat) : List WakeTarget → List WakeTrial
  | [] => []
  | t :: ts => t.attempt g (call n) :: wakeTrials g call (n + 1) ts

def shown (as : List WakeTrial) : List Event := as.flatMap WakeTrial.events

def failures (as : List WakeTrial) : Nat := as.countP WakeTrial.failed

section Attempts

variable {g g' : Globals} {call : Nat → Env}

theorem wakeTrials_append (g : Globals) (call : Nat → Env) (n : Nat) (ts ts' : List WakeTarget) :
    wakeTrials g call n (ts ++ ts') =
      wakeTrials g call n ts ++ wakeTrials g call (n + ts.length) ts' := by
  induction ts generalizing n with
  | nil => rfl
  | cons t ts ih =>
    rw [List.cons_append, wakeTrials, wakeTrials, ih (n + 1), List.length_cons, List.cons_append]
    congr 3
    omega

@[simp] theorem shown_append (as as' : List WakeTrial) :
    shown (as ++ as') = shown as ++ shown as' := List.flatMap_append

@[simp] theorem failures_append (as as' : List WakeTrial) :
    failures (as ++ as') = failures as + failures as' := List.countP_append

/-- The global variables that no target changes. -/
structure SameSettings (g g' : Globals) : Prop where
  packetMode : g'.packetMode = g.packetMode
  verbose : g'.verbose = g.verbose
  msecs : g'.msecs = g.msecs

theorem SameSettings.attempt (h : SameSettings g g') (env : Env) (t : WakeTarget) :
    t.attempt g' env = t.attempt g env := by
  simp only [WakeTarget.attempt, WakeTarget.dest, report, h.packetMode, h.verbose, h.msecs]

end Attempts

/-! ## One call -/

section Call

variable {g : Globals} {env : Env} {m : Magic} {sock : List Recv} {mac host : Bytes}
  {portnum : UInt32} {pass : Pass} {pw : Option Bytes}

/-- Without an address the result is `-1`, with one but no password `-2`. -/
theorem magicAssemble_refused {ethers : Bytes → Option Octets}
    (h : packetOf ethers mac pw = none) (uninit : Nat → UInt8) :
    (magicAssemble ethers uninit m (some mac) pw).1 =
      if addressOf ethers mac = none then -1 else -2 := by
  cases ha : addressOf ethers mac with
  | none => simp [magicAssemble, addressOf_none.mp ha]
  | some a =>
    have hmac := addressOf_some ha
    cases pw with
    | none => simp [packetOf, ha] at h
    | some t =>
      cases hp : passwordOf t with
      | none => simp [magicAssemble, hmac, passwordOf_none.mp hp]
      | some o => simp [packetOf, ha, hp] at h

theorem assembleError_refused {ethers : Bytes → Option Octets} :
    assembleError (if addressOf ethers mac = none then -1 else -2) mac =
      some (if addressOf ethers mac = none then cannotAssemble mac else invalidPassword mac) := by
  split
  · rfl
  · rfl

variable (env sock mac host portnum) in
/-- A call of `assemble_and_send` is the attempt at its target. -/
theorem send_attempt (hmode : ¬ InProxyMode g) (hm : m.WF) (hp : pass.read = .ok pw) :
    assembleAndSend g env m sock mac host portnum pass =
      .ok ⟨if ((⟨mac, host, portnum, pw⟩ : WakeTarget).attempt g env).failed then -1 else 0,
        ((⟨mac, host, portnum, pw⟩ : WakeTarget).attempt g env).events,
        assembledBuffer env m mac pw, sock, pass⟩ := by
  by_cases hudp : g.packetMode &&& udpMode = 0
  · have hproxy : g.packetMode &&& proxyMode = 0 := by
      by_contra h
      exact hmode ⟨hudp, h⟩
    rw [assembleAndSend_raw hudp hproxy]
    cases hpk : packetOf env.ethers mac pw with
    | none =>
      have hret := magicAssemble_refused (m := m) hpk env.uninit
      simp only [sendRaw, hp, hret, assembleError_refused, WakeTarget.attempt, hpk,
        WakeTarget.refusal]
      rfl
    | some packet =>
      have ha := magicAssemble_packet hm hpk env.uninit
      simp [sendRaw, hp, ha, assembleError, rawSend, assembledBuffer, WakeTarget.attempt, hpk,
        WakeTarget.dest, hudp]
  · rw [assembleAndSend_udp hudp]
    cases hpk : packetOf env.ethers mac pw with
    | none =>
      have hret := magicAssemble_refused (m := m) hpk env.uninit
      simp only [sendUdp, hp, hret, assembleError_refused, WakeTarget.attempt, hpk,
        WakeTarget.refusal]
      rfl
    | some packet =>
      have ha := magicAssemble_packet hm hpk env.uninit
      cases hh : env.gethostbyname host with
      | none =>
        simp [sendUdp, hp, ha, assembleError, udpSend, netResolv, hh, assembledBuffer,
          WakeTarget.attempt, hpk, WakeTarget.dest, hudp]
      | some addr =>
        by_cases hs : env.sendto (.inet addr portnum.toUInt16) packet = -1
        · simp [sendUdp, hp, ha, assembleError, udpSend, netResolv, hh, assembledBuffer, hs,
            WakeTarget.attempt, hpk, WakeTarget.dest, hudp]
        · simp [sendUdp, hp, ha, assembleError, udpSend, netResolv, hh, assembledBuffer, hs,
            WakeTarget.attempt, hpk, WakeTarget.dest, hudp]

end Call

/-! ## Where a run stands -/

section Run

variable {sys : Sys} {g : Globals} {s s' : State} {ts : List WakeTarget} {pw : Option Bytes}

/-- What has been shown when some targets have been worked off. -/
def traceOf (sys : Sys) (g : Globals) (ts : List WakeTarget) : List Event :=
  shown (wakeTrials g sys.call 0 ts)

def failedOf (sys : Sys) (g : Globals) (ts : List WakeTarget) : Nat :=
  failures (wakeTrials g sys.call 0 ts)

@[simp] theorem traceOf_nil : traceOf sys g [] = [] := rfl

@[simp] theorem failedOf_nil : failedOf sys g [] = 0 := rfl

theorem traceOf_append (ts' : List WakeTarget) :
    traceOf sys g (ts ++ ts') =
      traceOf sys g ts ++ shown (wakeTrials g sys.call ts.length ts') := by
  rw [traceOf, wakeTrials_append, shown_append, Nat.zero_add]
  rfl

theorem traceOf_snoc (t : WakeTarget) :
    traceOf sys g (ts ++ [t]) = traceOf sys g ts ++ (t.attempt g (sys.call ts.length)).events := by
  rw [traceOf_append]
  simp [wakeTrials, shown]

theorem failedOf_snoc (t : WakeTarget) :
    failedOf sys g (ts ++ [t]) =
      failedOf sys g ts + if (t.attempt g (sys.call ts.length)).failed then 1 else 0 := by
  rw [failedOf, wakeTrials_append, failures_append, Nat.zero_add]
  simp [failedOf, wakeTrials, failures, List.countP_cons]

/-- The state of a run that has worked off these targets. -/
structure Standing (sys : Sys) (g : Globals) (ts : List WakeTarget) (s : State) : Prop where
  settings : SameSettings g s.globals
  wf : s.magic.WF
  calls : s.calls = ts.length
  ret : s.ret = (failedOf sys g ts : Int).bmod (2 ^ 32)

/-- The target that the global variables make of an operand. -/
def Globals.target (g : Globals) (pw : Option Bytes) (mac : Bytes) : WakeTarget :=
  { mac := mac, host := g.hostStr, port := g.port, passwd := pw }

/-- One call: it shows what the attempt shows, and the run stands one target further. -/
theorem Standing.send (h : Standing sys g ts s) (hmode : ¬ InProxyMode g)
    (hp : s.globals.passwd.read = .ok pw) (mac : Bytes) :
    ∃ o, s.send sys mac = .ok o ∧ o.pass = s.globals.passwd ∧
      traceOf sys g ts ++ o.events = traceOf sys g (ts ++ [s.globals.target pw mac]) ∧
      ∀ pass phase, Standing sys g (ts ++ [s.globals.target pw mac])
        { s.after { o with pass := pass } with phase := phase } := by
  have hmode' : ¬ InProxyMode s.globals := by
    rwa [InProxyMode, h.settings.packetMode]
  have ha := h.settings.attempt (sys.call s.calls) (s.globals.target pw mac)
  have hcall := send_attempt (sys.call s.calls) s.sock mac s.globals.hostStr s.globals.port
    hmode' h.wf hp
  rw [show (⟨mac, s.globals.hostStr, s.globals.port, pw⟩ : WakeTarget) = s.globals.target pw mac
    from rfl, ha] at hcall
  refine ⟨_, hcall, rfl, ?_, fun pass phase => ?_⟩
  · rw [traceOf_snoc, h.calls]
  · refine ⟨⟨h.settings.packetMode, h.settings.verbose, h.settings.msecs⟩,
      assembledBuffer_wf h.wf .., ?_, ?_⟩
    · show s.calls + 1 = _
      rw [h.calls, List.length_append, List.length_singleton]
    · show Int.bmod (s.ret - _) (2 ^ 32) = _
      rw [failedOf_snoc, h.ret, h.calls, Int.bmod_sub_bmod]
      congr 1
      split
      · push_cast
        omega
      · push_cast
        omega

/-! ## The loop over the operands -/

/-- By induction on the operands that are left: the global variables stay as they are. -/
theorem targets_trace (hmode : ¬ InProxyMode g) {operands : List Bytes}
    (h : Standing sys g ts s) (hphase : s.phase = .targets operands)
    (hp : s.globals.passwd.read = .ok pw) :
    ∃ events s', Steps (mainRound sys) s events s' ∧ s'.phase = .targets [] ∧
      s'.globals = s.globals ∧
      Standing sys g (ts ++ operands.map (s.globals.target pw)) s' ∧
      traceOf sys g ts ++ events = traceOf sys g (ts ++ operands.map (s.globals.target pw)) := by
  induction operands generalizing s ts with
  | nil => exact ⟨[], s, .refl, hphase, rfl, by simpa using h, by simp⟩
  | cons mac rest ih =>
    obtain ⟨o, ho, hpass, htrace, hstand⟩ := h.send hmode hp mac
    have hround : mainRound sys s =
        (o.events, .next { s.after o with phase := .targets rest }) := by
      simp only [mainRound, hphase, ho]
    have hglobals : (s.after o).globals = s.globals := by
      simp only [State.after, hpass]
    obtain ⟨events, s', hsteps, hphase', hglobals', hstand', htrace'⟩ :=
      ih (s := { s.after o with phase := .targets rest }) (hstand o.pass _) rfl
        (by rw [hglobals]; exact hp)
    rw [hglobals] at hglobals' hstand' htrace'
    rw [List.append_assoc] at hstand' htrace'
    refine ⟨o.events ++ events, s', .cons hround hsteps, hphase', hglobals', hstand', ?_⟩
    rw [← List.append_assoc, htrace]
    exact htrace'

/-! ## The loop over the macfile -/

def Record.target (r : Record) : WakeTarget :=
  { mac := r.mac, host := r.host, port := recordPort r.port, passwd := r.passwd }

/-- The end of a run whose records have come to their end, when so many targets have failed. -/
def ended : Except Fault Unit → Nat → Halt
  | .ok (), k => exitStatus ((k : Int).bmod (2 ^ 32))
  | .error f, _ => .fault f

/-- The run beside the read loop, behind the targets `ts`: it stands behind the records that have
been read. -/
structure ReadsAlong (sys : Sys) (g : Globals) (ts : List WakeTarget) (events : List Event)
    (s : State) (rs : List Record) (rd : Reader) : Prop where
  standing : Standing sys g (ts ++ rs.map Record.target) s
  phase : s.phase = .macfile rd.fp
  junk : ∀ n, rd.junk n = sys.junk (s.calls + n)
  events : traceOf sys g ts ++ events = traceOf sys g (ts ++ rs.map Record.target)

structure ReadsOut (sys : Sys) (g : Globals) (ts : List WakeTarget) (events : List Event)
    (halt : Halt) (rs : List Record) (res : Except Fault Unit) : Prop where
  halt : halt = ended res (failedOf sys g (ts ++ rs.map Record.target))
  events : traceOf sys g ts ++ events = traceOf sys g (ts ++ rs.map Record.target)

theorem ReadsOut.unique {events events' : List Event} {halt halt' : Halt} {rs : List Record}
    {res : Except Fault Unit} (h : ReadsOut sys g ts events halt rs res)
    (h' : ReadsOut sys g ts events' halt' rs res) : events = events' ∧ halt = halt' :=
  ⟨List.append_cancel_left (h.events.trans h'.events.symm), h.halt.trans h'.halt.symm⟩

theorem Standing.load (h : Standing sys g ts s) (r : Record) : Standing sys g ts (s.load r) :=
  ⟨⟨h.settings.packetMode, h.settings.verbose, h.settings.msecs⟩, h.wf, h.calls, h.ret⟩

/-- A round over the macfile is a round of the read loop, and the attempt at its record. -/
theorem record_round (hmode : ¬ InProxyMode g) (ts : List WakeTarget) :
    Together (ReadsAlong sys g ts) (ReadsOut sys g ts) (mainRound sys) readRound := by
  intro events s rs rd h
  have hjunk : rd.junk 0 = sys.junk s.calls := h.junk 0
  cases hparse : macfileParse (sys.junk s.calls) rd.fp with
  | error f =>
    refine .inr ⟨[], .fault f, [], .error f, ?_, ?_, ?_⟩
    · simp only [mainRound, h.phase, macfileRound, hparse]
    · simp only [readRound, hjunk, hparse]
    · rw [List.append_nil, List.append_nil]
      exact ⟨rfl, h.events⟩
  | ok call =>
    obtain ⟨r, port, fp⟩ := call
    cases r with
    | none =>
      refine .inr ⟨[], exitStatus s.ret, [], .ok (), ?_, ?_, ?_⟩
      · simp only [mainRound, h.phase, macfileRound, hparse]
      · simp only [readRound, hjunk, hparse]
      · rw [List.append_nil, List.append_nil]
        exact ⟨by rw [h.standing.ret]; rfl, h.events⟩
    | some r =>
      obtain ⟨o, ho, hpass, htrace, hstand⟩ :=
        (h.standing.load r).send hmode (load_read s r) r.mac
      obtain ⟨pass, hfree⟩ := load_xfree s r
      have hmap : ts ++ (rs ++ [r]).map Record.target =
          ts ++ rs.map Record.target ++ [(s.load r).globals.target r.passwd r.mac] := by
        rw [List.map_append, List.append_assoc]
        rfl
      have hround : mainRound sys s = (o.events,
          .next { (s.load r).after { o with pass := pass } with phase := .macfile fp }) := by
        simp only [mainRound, h.phase, macfileRound, hparse, ho, hpass, hfree]
      have hread : readRound rd = ([r], .next ⟨fun n => rd.junk (n + 1), fp⟩) := by
        simp only [readRound, hjunk, hparse]
      refine .inl ⟨_, _, _, _, hround, hread, ?_, rfl, ?_, ?_⟩
      · rw [hmap]
        exact hstand pass _
      · intro n
        show rd.junk (n + 1) = sys.junk (s.calls + 1 + n)
        rw [h.junk, Nat.add_comm n 1, Nat.add_assoc]
      · rw [hmap, ← htrace, ← h.events, List.append_assoc]

/-! ## The source behind the operands -/

/-- What the source has to give when `n` calls have been made: its records, what is shown behind
them, and how the run ends when so many targets have failed. -/
inductive Feed (sys : Sys) (n : Nat) :
    Option Source → List Record → List Event → (Nat → Halt) → Prop where
  | none : Feed sys n none [] [] (ended (.ok ()))
  | unopened {path : Bytes} : sys.fopen path = none →
      Feed sys n (some (.file path)) [] [.error path] fun _ => .exit 1
  | read {src : Source} {fp : File} {rs : List Record} {res : Except Fault Unit} :
      src.opened sys = some fp → Exec readRound ⟨fun k => sys.junk (n + k), fp⟩ rs res →
      Feed sys n (some src) rs [] (ended res)

/-- The step from the operands to the source. -/
theorem source_round (sys : Sys) (hphase : s.phase = .targets []) :
    (s.source = none ∧ mainRound sys s = ([], .done (exitStatus s.ret))) ∨
    (∃ path, s.source = some (.file path) ∧ sys.fopen path = none ∧
      mainRound sys s = ([.error path], .done (.exit 1))) ∨
    ∃ src fp, s.source = some src ∧ src.opened sys = some fp ∧
      mainRound sys s = ([], .next { s with phase := .macfile fp }) := by
  have hround : mainRound sys s = openMacfile sys s := by
    simp only [mainRound, hphase]
  rw [hround]
  cases hstdin : s.globals.requestStdin with
  | true =>
    refine .inr (.inr ⟨.stdin, _, source_stdin hstdin, rfl, ?_⟩)
    simp [openMacfile, hstdin]
  | false =>
    cases hpath : s.globals.pathname with
    | none =>
      refine .inl ⟨by rw [source_pathname hstdin, hpath]; rfl, ?_⟩
      simp [openMacfile, hstdin, hpath]
    | some path =>
      have hsource : s.source = some (.file path) := by
        rw [source_pathname hstdin, hpath]
        rfl
      cases hfopen : sys.fopen path with
      | none =>
        refine .inr (.inl ⟨path, hsource, hfopen, ?_⟩)
        simp [openMacfile, hstdin, hpath, hfopen]
      | some x =>
        refine .inr (.inr ⟨.file path, _, hsource, opened_file hfopen, ?_⟩)
        simp [openMacfile, hstdin, hpath, hfopen]

theorem source_trace_iff (hmode : ¬ InProxyMode g) (h : Standing sys g ts s)
    (hphase : s.phase = .targets []) (events : List Event) (halt : Halt) :
    Exec (mainRound sys) s events halt ↔
      ∃ rs tail stop, Feed sys ts.length s.source rs tail stop ∧
        traceOf sys g ts ++ events = traceOf sys g (ts ++ rs.map Record.target) ++ tail ∧
        halt = stop (failedOf sys g (ts ++ rs.map Record.target)) := by
  rcases source_round sys hphase with
    ⟨hsource, hround⟩ | ⟨path, hsource, hfopen, hround⟩ | ⟨src, fp, hsource, hopen, hround⟩
  · rw [hsource]
    constructor
    · intro he
      obtain ⟨rfl, rfl⟩ := he.deterministic (.done hround)
      exact ⟨[], [], _, .none, by simp, by rw [h.ret]; simp [ended]⟩
    · rintro ⟨rs, tail, stop, hfeed, hevents, rfl⟩
      cases hfeed
      obtain rfl : events = [] := by simpa using hevents
      have he : Exec (mainRound sys) s [] (exitStatus s.ret) := .done hround
      rw [h.ret] at he
      simpa [ended] using he
  · rw [hsource]
    constructor
    · intro he
      obtain ⟨rfl, rfl⟩ := he.deterministic (.done hround)
      exact ⟨[], _, _, .unopened hfopen, by simp, rfl⟩
    · rintro ⟨rs, tail, stop, hfeed, hevents, rfl⟩
      cases hfeed with
      | unopened =>
        obtain rfl : events = [.error path] := by simpa using hevents
        exact .done hround
      | read hopen =>
        rw [unopened_file hfopen] at hopen
        cases hopen
  · have hready : ReadsAlong sys g ts [] { s with phase := .macfile fp } []
        ⟨fun k => sys.junk (ts.length + k), fp⟩ := by
      refine ⟨?_, rfl, fun n => by rw [← h.calls], by simp⟩
      rw [List.map_nil, List.append_nil]
      exact ⟨h.settings, h.wf, h.calls, h.ret⟩
    have hread := (record_round hmode ts).exec_iff
      (fun _ _ _ _ _ _ hout hout' => hout.unique hout') hready
    rw [hsource]
    constructor
    · intro he
      cases he with
      | done hr =>
        rw [hround] at hr
        cases hr
      | next hr he =>
        rw [hround] at hr
        cases hr
        obtain ⟨rs, res, hexec, hout⟩ := (hread _ _).mp he
        exact ⟨rs, [], _, .read hopen hexec, by simpa using hout.events, hout.halt⟩
    · rintro ⟨rs, tail, stop, hfeed, hevents, rfl⟩
      cases hfeed with
      | unopened hfopen =>
        rw [unopened_file hfopen] at hopen
        cases hopen
      | read hopen' hexec =>
        rw [hopen] at hopen'
        cases hopen'
        have he := (hread events _).mpr ⟨_, _, hexec, rfl, by simpa using hevents⟩
        exact .next hround he

/-! ## The run -/

/-- The targets of the operands: none of them, if the records come from standard input. -/
def operandTargets (sys : Sys) (args : CommandLine) (g : Globals) : List WakeTarget :=
  (if g.requestStdin then [] else args.operands).map
    (g.target (intendedPasswd sys.getpass args.opts))

theorem runs_trace {args : CommandLine} {s₀ : State} (hstart : start sys args = .ok s₀)
    (hmode : ¬ InProxyMode s₀.globals) (events : List Event) (halt : Halt) :
    Runs sys args events halt ↔
      ∃ rs tail stop, Feed sys (operandTargets sys args s₀.globals).length s₀.source rs tail stop ∧
        events = traceOf sys s₀.globals
          (operandTargets sys args s₀.globals ++ rs.map Record.target) ++ tail ∧
        halt = stop (failedOf sys s₀.globals
          (operandTargets sys args s₀.globals ++ rs.map Record.target)) := by
  obtain ⟨hparse, hphase, hwf, hret, hcalls⟩ := start_inv hstart
  have hp := (parseArgs_passwd hparse).2
  have hstand : Standing sys s₀.globals [] s₀ :=
    ⟨⟨rfl, rfl, rfl⟩, hwf, hcalls, by rw [hret, failedOf_nil]; decide⟩
  obtain ⟨t, s, hsteps, hphase', hglobals, hstand', htrace⟩ :=
    targets_trace hmode hstand hphase hp
  rw [List.nil_append, traceOf_nil, List.nil_append] at htrace
  rw [List.nil_append] at hstand'
  have hsource : s.source = s₀.source := by
    rw [State.source, State.source, hglobals]
  have hiff := source_trace_iff hmode hstand' hphase'
  rw [hsource] at hiff
  have hruns : Runs sys args events halt ↔ Exec (mainRound sys) s₀ events halt := by
    rw [Runs, hstart]
  rw [hruns]
  constructor
  · intro he
    obtain ⟨t', rfl, he'⟩ := he.split hsteps
    obtain ⟨rs, tail, stop, hfeed, hevents, hhalt⟩ := (hiff _ _).mp he'
    exact ⟨rs, tail, stop, hfeed, by rw [htrace]; exact hevents, hhalt⟩
  · rintro ⟨rs, tail, stop, hfeed, rfl, rfl⟩
    have he := (hiff (shown (wakeTrials s₀.globals sys.call
        (operandTargets sys args s₀.globals).length (rs.map Record.target)) ++ tail) _).mpr
      ⟨rs, tail, stop, hfeed, by rw [← List.append_assoc, traceOf_append]; rfl, rfl⟩
    have hrun := he.of_steps hsteps
    rw [htrace, ← List.append_assoc] at hrun
    rw [traceOf_append]
    exact hrun

/-- In UDP and RAW mode the events of a run are the diagnostics about its options, what the attempts
at its operands and then at the records of its source show, and what is shown if the source cannot
be opened. It ends if and only if its read loop does; and its status tells whether any attempt
failed, up to a multiple of `2 ^ 32` of them. -/
theorem mainRuns_trace {posixlyCorrect : Bool} {args : List Bytes} {s₀ : State}
    (hstart : start sys (commandLine posixlyCorrect sys.programName args) = .ok s₀)
    (hmode : ¬ InProxyMode s₀.globals) (events : List Event) (halt : Halt) :
    MainRuns sys posixlyCorrect args events halt ↔
      ∃ ts rs tail stop,
        ts = operandTargets sys (commandLine posixlyCorrect sys.programName args) s₀.globals ∧
        Feed sys ts.length s₀.source rs tail stop ∧
        events = diagnostics sys.programName sys.getpass
            (scanned posixlyCorrect sys.programName args).found ⟨{}, false⟩ ++
          traceOf sys s₀.globals (ts ++ rs.map Record.target) ++ tail ∧
        halt = stop (failedOf sys s₀.globals (ts ++ rs.map Record.target)) := by
  constructor
  · intro h
    obtain ⟨events', hruns, rfl⟩ := h.runs
    obtain ⟨rs, tail, stop, hfeed, rfl, rfl⟩ := (runs_trace hstart hmode _ _).mp hruns
    exact ⟨_, rs, tail, stop, rfl, hfeed, by rw [List.append_assoc], rfl⟩
  · rintro ⟨_, rs, tail, stop, rfl, hfeed, rfl, rfl⟩
    have hruns := (runs_trace hstart hmode _ _).mpr ⟨rs, tail, stop, hfeed, rfl, rfl⟩
    have hmain := mainRuns_of_runs hruns
    rwa [← List.append_assoc] at hmain

/-- `-r bob 1:2:3:4:5:6` -/
def rawWords : List Bytes := [ascii "-r", ascii "bob", ascii "1:2:3:4:5:6"]

/-- Of two operands one can be assembled: there is one frame, and the status says that not all went
well. -/
theorem mainRuns_trace_lab :
    MainRuns exampleSys false rawWords
      [.error (ascii "Cannot assemble magic packet for 'bob'"),
        .sendto .packet (magicPacket ⟨[1, 2, 3, 4, 5, 6], rfl⟩ none),
        .stdout (ascii "Waking up 1:2:3:4:5:6...\n")] (.exit 1) := by
  have hline : commandLine false exampleSys.programName rawWords =
      ⟨4, [.raw], [ascii "bob", ascii "1:2:3:4:5:6"]⟩ := by decide +kernel
  have hstart : start exampleSys ⟨4, [.raw], [ascii "bob", ascii "1:2:3:4:5:6"]⟩ = .ok _ := rfl
  rw [← hline] at hstart
  refine (mainRuns_trace hstart (fun h => h.2 (by decide)) _ _).mpr
    ⟨_, [], [], _, rfl, .none, ?_, ?_⟩
  · rw [hline]
    decide +kernel
  · rw [hline]
    decide +kernel

end Run

end WakeOnLan
