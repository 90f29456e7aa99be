import WakeOnLan.OptionsCorrect

/-!
# WakeOnLan.Calls

Which targets a run processes.

* `Call`, `callRound` — `main` observed by the calls of `assemble_and_send` that it makes.
* `Source`     — where the records of a run come from.
* `Progress`   — how far a run has come that works off some targets and then the records of a
  source; `progress_run` says that every run does that.
* `start_plan` — what an accepted command line sets out to do.
-/

namespace WakeOnLan

open CLib

/-! ## Calls -/

/-- The arguments of a call. -/
structure Call where
  mac : Bytes
  host : Bytes
  port : UInt32
  pass : Pass
  deriving DecidableEq

/-- A call for `mac` with the global variables of `s`. -/
def State.callOf (s : State) (mac : Bytes) : Call :=
  { mac := mac, host := s.globals.hostStr, port := s.globals.port, pass := s.globals.passwd }

/-- The call that the next round makes, if it makes one. -/
def State.nextCall (sys : Sys) (s : State) : Option Call :=
  match s.phase with
  | .targets (mac :: _) => some (s.callOf mac)
  | .targets [] => none
  | .macfile fp =>
    match macfileParse (sys.junk s.calls) fp with
    | .ok ⟨some r, _, _⟩ => some ((s.load r).callOf r.mac)
    | _ => none

/-- What `assemble_and_send` makes of a call. -/
def Call.send (sys : Sys) (s : State) (c : Call) : Except Stop Outcome :=
  assembleAndSend s.globals (sys.call s.calls) s.magic s.sock c.mac c.host c.port c.pass

def Call.events (sys : Sys) (s : State) (c : Call) : List Event := callEvents (c.send sys s)

def callRound (sys : Sys) (s : State) : List Call × Round State Halt :=
  ((s.nextCall sys).toList, (mainRound sys s).2)

/-! ## Sources -/

inductive Source where
  | stdin
  | file (path : Bytes)
  deriving DecidableEq, Repr

/-- The bytes of a source, and what lies behind them. -/
def Source.stream (sys : Sys) : Source → Option (Bytes × Ending)
  | .stdin => some sys.stdin
  | .file path => sys.fopen path

def Source.opened (sys : Sys) (src : Source) : Option File :=
  (src.stream sys).map fun x => fopened x.1 x.2

/-- The source that `main` turns to behind the operands. -/
def State.source (s : State) : Option Source :=
  if s.globals.requestStdin then some .stdin else s.globals.pathname.map .file

/-- How far a run has come, after some calls: the operands `targets` are worked off in order, and
then the records that `macfile_parse` hands back from `source`. -/
inductive Progress (sys : Sys) (targets : List Bytes) (source : Option Source) :
    List Call → State → Prop where
  | targets {calls : List Call} {rest : List Bytes} {s : State} : s.phase = .targets rest →
      targets = calls.map Call.mac ++ rest → s.source = source → s.calls = calls.length →
      Progress sys targets source calls s
  | records {calls calls' : List Call} {src : Source} {fp : File} {rs : List Record} {rd : Reader}
      {s : State} : targets = calls.map Call.mac → source = some src → src.opened sys = some fp →
      Steps readRound ⟨fun n => sys.junk (targets.length + n), fp⟩ rs rd →
      calls'.map (fun c => (c.mac, c.host)) = rs.map (fun r => (r.mac, r.host)) →
      s.phase = .macfile rd.fp → (∀ n, rd.junk n = sys.junk (s.calls + n)) →
      Progress sys targets source (calls ++ calls') s

/-! ## Every run follows its plan -/

section Plan

variable {sys : Sys} {s s' : State} {targets : List Bytes} {source : Option Source}
  {calls t : List Call}

theorem source_stdin (h : s.globals.requestStdin = true) : s.source = some .stdin := by
  rw [State.source, if_pos h]

theorem source_pathname (h : s.globals.requestStdin = false) :
    s.source = s.globals.pathname.map .file := by
  rw [State.source, h]
  rfl

theorem opened_file {path content : Bytes} {ending : Ending}
    (h : sys.fopen path = some (content, ending)) :
    (Source.file path).opened sys = some (fopened content ending) := by
  rw [Source.opened, Source.stream, h]
  rfl

theorem unopened_file {path : Bytes} (h : sys.fopen path = none) :
    (Source.file path).opened sys = none := by
  rw [Source.opened, Source.stream, h]
  rfl

theorem callRound_next (h : callRound sys s = (t, .next s')) :
    t = (s.nextCall sys).toList ∧ ∃ events, Next sys s events s' := by
  simp only [callRound, Prod.mk.injEq] at h
  obtain ⟨rfl, h⟩ := h
  exact ⟨rfl, _, mainRound_next (Prod.ext rfl h)⟩

theorem nextCall_target {mac : Bytes} {rest : List Bytes}
    (hphase : s.phase = .targets (mac :: rest)) :
    s.nextCall sys = some (s.callOf mac) := by
  simp only [State.nextCall, hphase]

theorem nextCall_none (hphase : s.phase = .targets []) : s.nextCall sys = none := by
  simp only [State.nextCall, hphase]

theorem nextCall_record {fp fp' : File} {r : Record} {port : UInt32}
    (hphase : s.phase = .macfile fp)
    (hparse : macfileParse (sys.junk s.calls) fp = .ok ⟨some r, port, fp'⟩) :
    s.nextCall sys = some ((s.load r).callOf r.mac) := by
  simp only [State.nextCall, hphase, hparse]

/-- A call is made for an operand or for a record. -/
theorem nextCall_inv {c : Call} (h : s.nextCall sys = some c) :
    (∃ mac rest, s.phase = .targets (mac :: rest) ∧ c = s.callOf mac) ∨
      ∃ fp r port fp', s.phase = .macfile fp ∧
        macfileParse (sys.junk s.calls) fp = .ok ⟨some r, port, fp'⟩ ∧
        c = (s.load r).callOf r.mac := by
  simp only [State.nextCall] at h
  split at h
  · rename_i mac rest hphase
    cases h
    exact .inl ⟨mac, rest, hphase, rfl⟩
  · cases h
  · rename_i fp hphase
    split at h
    · rename_i r port fp' hparse
      cases h
      exact .inr ⟨fp, r, port, fp', hphase, hparse, rfl⟩
    · cases h

/-- What a round does to the outside is what its call does. -/
theorem mainRound_events {c : Call} (h : s.nextCall sys = some c) :
    (mainRound sys s).1 = c.events sys s := by
  rcases nextCall_inv h with
    ⟨mac, rest, hphase, rfl⟩ | ⟨fp, r, port, fp', hphase, hparse, rfl⟩
  · have hsend : (s.callOf mac).send sys s = s.send sys mac := rfl
    simp only [mainRound, hphase, Call.events, hsend]
    cases s.send sys mac with
    | error stop => rfl
    | ok o => rfl
  · have hsend : ((s.load r).callOf r.mac).send sys s = (s.load r).send sys r.mac := rfl
    simp only [mainRound, hphase, macfileRound, hparse, Call.events, hsend]
    cases (s.load r).send sys r.mac with
    | error stop => rfl
    | ok o =>
      simp only
      cases o.pass.xfree with
      | error f => rfl
      | ok pass => rfl

/-- No round changes the mode. -/
theorem packetMode_run {s s' : State} (hs : Steps (callRound sys) s calls s') :
    s'.globals.packetMode = s.globals.packetMode := by
  refine hs.invariant (P := fun s' => s'.globals.packetMode = s.globals.packetMode) ?_ rfl
  intro s₁ t s₂ hmode hr
  obtain ⟨-, events, hnext⟩ := callRound_next hr
  cases hnext with
  | target | stdin | file | record => exact hmode

/-- No round spoils the buffer. -/
theorem magic_run {s s' : State} (hm : s.magic.WF) (hs : Steps (callRound sys) s calls s') :
    s'.magic.WF := by
  refine hs.invariant (P := fun s => s.magic.WF) ?_ hm
  intro s₁ t s₂ hm hr
  obtain ⟨-, events, hnext⟩ := callRound_next hr
  cases hnext with
  | target _ ho => exact assembleAndSend_wf hm ho
  | stdin | file => exact hm
  | record _ _ ho _ => exact assembleAndSend_wf hm ho

/-- No round changes where the records come from. -/
theorem source_run {s s' : State} (hs : Steps (callRound sys) s calls s') :
    s'.source = s.source := by
  refine hs.invariant (P := fun s' => s'.source = s.source) ?_ rfl
  intro s₁ t s₂ hsource hr
  obtain ⟨-, events, hnext⟩ := callRound_next hr
  cases hnext with
  | target | stdin | file | record => exact hsource

/-- Before the source is opened, the calls so far and the operands left are the targets. -/
theorem Progress.at_targets (h : Progress sys targets source calls s) {rest : List Bytes}
    (hphase : s.phase = .targets rest) :
    targets = calls.map Call.mac ++ rest ∧ s.source = source ∧ s.calls = calls.length := by
  cases h with
  | targets hphase' htargets hsource hcalls =>
    rw [hphase] at hphase'
    cases hphase'
    exact ⟨htargets, hsource, hcalls⟩
  | records _ _ _ _ _ hphase' _ =>
    rw [hphase] at hphase'
    cases hphase'

/-- Behind the last operand a run turns to its source. -/
theorem Progress.open_source (h : Progress sys targets source calls s)
    (hphase : s.phase = .targets []) {src : Source} {fp : File} (hsource : s.source = some src)
    (hopen : src.opened sys = some fp) :
    Progress sys targets source (calls ++ []) { s with phase := .macfile fp } := by
  obtain ⟨htargets, hsource', hcalls⟩ := h.at_targets hphase
  rw [List.append_nil] at htargets
  refine .records htargets (hsource'.symm.trans hsource) hopen .refl rfl rfl ?_
  intro n
  rw [hcalls, htargets, List.length_map]

/-- One round works off one target, or turns to the source, or works off one record. -/
theorem progress_step (h : Progress sys targets source calls s)
    (hr : callRound sys s = (t, .next s')) : Progress sys targets source (calls ++ t) s' := by
  obtain ⟨rfl, events, hnext⟩ := callRound_next hr
  cases hnext with
  | @target mac rest o hphase ho =>
    obtain ⟨htargets, hsource, hcalls⟩ := h.at_targets hphase
    rw [nextCall_target hphase]
    refine .targets rfl ?_ hsource ?_
    · simp [htargets, State.callOf]
    · simp [State.after, hcalls]
  | stdin hphase hstdin =>
    rw [nextCall_none hphase]
    exact h.open_source hphase (source_stdin hstdin) rfl
  | @file path content ending hphase hstdin hpath hopen =>
    have hsource : s.source = some (.file path) := by rw [source_pathname hstdin, hpath, Option.map]
    rw [nextCall_none hphase]
    exact h.open_source hphase hsource (opened_file hopen)
  | @record fp fp' r port o pass hphase hparse ho hfree =>
    rw [nextCall_record hphase hparse]
    cases h with
    | targets hphase' _ _ _ =>
      rw [hphase] at hphase'
      cases hphase'
    | @records calls calls' src fp₀ rs rd _ htargets hsource hopen hsteps hrecords hphase' hjunk =>
      rw [hphase] at hphase'
      cases hphase'
      have hround : readRound rd = ([r], .next ⟨fun n => rd.junk (n + 1), fp'⟩) := by
        apply readRound_record
        rw [hjunk]
        exact hparse
      rw [List.append_assoc]
      refine .records htargets hsource hopen (hsteps.snoc hround) ?_ rfl ?_
      · rw [Option.toList_some, List.map_append, List.map_append, hrecords]
        rfl
      · intro n
        show rd.junk (n + 1) = sys.junk (s.calls + 1 + n)
        rw [hjunk, Nat.add_comm n 1, Nat.add_assoc]

/-- A run from the first operand works off the operands it has and then the source it has. -/
theorem progress_run {s₀ : State} (hphase : s₀.phase = .targets targets)
    (hsource : s₀.source = source) (hcalls : s₀.calls = 0)
    (hs : Steps (callRound sys) s₀ calls s) : Progress sys targets source calls s := by
  have hstart : Progress sys targets source [] s₀ := .targets hphase rfl hsource hcalls
  exact hs.invariant_log (fun t s t' s' h hr => progress_step h hr) hstart

/-- A run without a source stays at its operands. -/
theorem no_macfile {s₀ : State} (hphase : s₀.phase = .targets targets) (hsource : s₀.source = none)
    (hcalls : s₀.calls = 0) (hs : Steps (callRound sys) s₀ calls s) :
    ∃ rest, s.phase = .targets rest := by
  cases progress_run hphase hsource hcalls hs with
  | targets hphase' _ _ _ => exact ⟨_, hphase'⟩
  | records _ hnone _ _ _ _ _ => cases hnone

end Plan

/-! ## The plan of a command line -/

/-- What a run sets out to do. -/
theorem start_plan {sys : Sys} {args : CommandLine} {s₀ : State} (h : start sys args = .ok s₀) :
    s₀.phase = .targets (if requestsStdin args.operands (lastOf fileOf args.opts) then []
      else args.operands) ∧
    s₀.source = (if requestsStdin args.operands (lastOf fileOf args.opts) then some .stdin
      else (lastOf fileOf args.opts).map .file) ∧ s₀.calls = 0 := by
  obtain ⟨hparse, hphase, -, -, hcalls⟩ := start_inv h
  have hpath : s₀.globals.pathname = lastOf fileOf args.opts := by
    rw [(parseArgs_overrides hparse).1.pathname, Option.or_none]
  have hstdin : s₀.globals.requestStdin =
      requestsStdin args.operands (lastOf fileOf args.opts) := by
    obtain ⟨p, -, hp⟩ := parseArgs_inv hparse
    rw [← hpath]
    rw [hp]
  exact ⟨by rw [hphase, hstdin], by rw [State.source, hstdin, hpath], hcalls⟩

end WakeOnLan
