import WakeOnLan.ReadLoop
import WakeOnLan.SendCorrect
import WakeOnLan.Wol

/-!
# WakeOnLan.Run

Whole runs of `main`.

* `mainRound_next`  — what a round does that goes on.
* `sendUdp_datagrams` / `sendRaw_datagrams` — one call: at most one datagram, a function of its
  arguments alone; `send_udp` for one target in UDP mode.
* `targets_steps` / `macfile_exec` — the two loops, by induction on the operands and on the records.
* `udp_run_datagrams` — the datagrams of a run.
-/

namespace WakeOnLan

open CLib

/-! ## From the command line to the first target -/

theorem parseOpt_keeps {programName : Bytes} {getpass : Option Bytes} {p p' : Parse} {o : Opt}
    (hport : ∀ a, o ≠ .port a) (hpass : ∀ a, o ≠ .passwd a)
    (h : parseOpt programName getpass p o = .ok p') :
    p'.globals.port = p.globals.port ∧ p'.globals.passwd = p.globals.passwd := by
  cases o with
  | help | version => cases h
  | verbose | udp | raw | proxy | host | file | other => cases h; exact ⟨rfl, rfl⟩
  | wait optarg =>
    simp only [parseOpt] at h
    split at h
    · cases h
    · cases h
      exact ⟨rfl, rfl⟩
  | port a => exact absurd rfl (hport a)
  | passwd a => exact absurd rfl (hpass a)

theorem parseOpts_keeps {programName : Bytes} {getpass : Option Bytes} {opts : List Opt}
    {p p' : Parse} (hopts : ∀ o ∈ opts, (∀ a, o ≠ .port a) ∧ ∀ a, o ≠ .passwd a)
    (h : parseOpts programName getpass opts p = .ok p') :
    p'.globals.port = p.globals.port ∧ p'.globals.passwd = p.globals.passwd := by
  induction opts generalizing p with
  | nil => cases h; exact ⟨rfl, rfl⟩
  | cons o os ih =>
    simp only [parseOpts] at h
    split at h
    · cases h
    · rename_i p₁ hp₁
      obtain ⟨hport, hpass⟩ := hopts o (List.mem_cons_self ..)
      obtain ⟨h1, h2⟩ := parseOpt_keeps hport hpass hp₁
      obtain ⟨h3, h4⟩ := ih (fun o ho => hopts o (List.mem_cons_of_mem _ ho)) h
      exact ⟨h3.trans h1, h4.trans h2⟩

/-- What `parse_args` has accepted: the option loop, and the request for standard input. -/
theorem parseArgs_inv {programName : Bytes} {getpass : Option Bytes} {args : CommandLine}
    {g : Globals} (h : parseArgs programName getpass args = .ok g) :
    ∃ p, parseOpts programName getpass args.opts ⟨{}, false⟩ = .ok p ∧
      g = { p.globals with requestStdin := requestsStdin args.operands p.globals.pathname } := by
  simp only [parseArgs] at h
  split at h
  · cases h
  · split at h
    · cases h
    · rename_i p hp
      split at h
      · cases h
      · cases h
        exact ⟨p, hp, rfl⟩

theorem start_inv {sys : Sys} {args : CommandLine} {s : State} (h : start sys args = .ok s) :
    parseArgs sys.programName sys.getpass args = .ok s.globals ∧
      s.phase = .targets (if s.globals.requestStdin then [] else args.operands) ∧
      s.magic.WF ∧ s.ret = 0 ∧ s.calls = 0 := by
  simp only [start] at h
  split at h
  · cases h
  · rename_i g hg
    split at h
    · cases h
    · cases h
      exact ⟨hg, rfl, magicCreate_wf _ _, rfl, rfl⟩

/-- Without a hyphen among the operands, none of them is skipped. -/
theorem operands_of_no_dash {operands : List Bytes} {pathname : Option Bytes}
    (h : dash ∉ operands) :
    (if requestsStdin operands pathname then [] else operands) = operands := by
  by_cases hne : operands = []
  · simp [hne]
  · have : requestsStdin operands pathname = false := by
      simpa [requestsStdin, hne] using h
    rw [this]
    rfl

/-! ## One round -/

/-- What a round does that goes on. -/
inductive Next (sys : Sys) (s : State) : List Event → State → Prop where
  | target {mac : Bytes} {rest : List Bytes} {o : Outcome} :
      s.phase = .targets (mac :: rest) → s.send sys mac = .ok o →
      Next sys s o.events { s.after o with phase := .targets rest }
  | stdin : s.phase = .targets [] → s.globals.requestStdin = true →
      Next sys s [] { s with phase := .macfile (fopened sys.stdin.1 sys.stdin.2) }
  | file {path content : Bytes} {ending : Ending} :
      s.phase = .targets [] → s.globals.requestStdin = false → s.globals.pathname = some path →
      sys.fopen path = some (content, ending) →
      Next sys s [] { s with phase := .macfile (fopened content ending) }
  | record {fp fp' : File} {r : Record} {port : UInt32} {o : Outcome} {pass : Pass} :
      s.phase = .macfile fp → macfileParse (sys.junk s.calls) fp = .ok ⟨some r, port, fp'⟩ →
      (s.load r).send sys r.mac = .ok o → o.pass.xfree = .ok pass →
      Next sys s o.events { (s.load r).after { o with pass := pass } with phase := .macfile fp' }

/-- How a round ends a run. -/
inductive Final (sys : Sys) (s : State) : Halt → Prop where
  | target {mac : Bytes} {rest : List Bytes} {stop : Stop} :
      s.phase = .targets (mac :: rest) → s.send sys mac = .error stop → Final sys s stop.halt
  | noSource : s.phase = .targets [] → s.globals.requestStdin = false →
      s.globals.pathname = none → Final sys s (exitStatus s.ret)
  | unopened {path : Bytes} : s.phase = .targets [] → s.globals.requestStdin = false →
      s.globals.pathname = some path → sys.fopen path = none → Final sys s (.exit 1)
  | parse {fp : File} {f : Fault} : s.phase = .macfile fp →
      macfileParse (sys.junk s.calls) fp = .error f → Final sys s (.fault f)
  | last {fp fp' : File} {port : UInt32} : s.phase = .macfile fp →
      macfileParse (sys.junk s.calls) fp = .ok ⟨none, port, fp'⟩ →
      Final sys s (exitStatus s.ret)
  | record {fp fp' : File} {r : Record} {port : UInt32} {stop : Stop} : s.phase = .macfile fp →
      macfileParse (sys.junk s.calls) fp = .ok ⟨some r, port, fp'⟩ →
      (s.load r).send sys r.mac = .error stop → Final sys s stop.halt
  | free {fp fp' : File} {r : Record} {port : UInt32} {o : Outcome} {f : Fault} :
      s.phase = .macfile fp → macfileParse (sys.junk s.calls) fp = .ok ⟨some r, port, fp'⟩ →
      (s.load r).send sys r.mac = .ok o → o.pass.xfree = .error f → Final sys s (.fault f)

/-- A round goes on or ends the run, in one of these ways. -/
theorem mainRound_cases (sys : Sys) (s : State) :
    (∃ t s', mainRound sys s = (t, .next s') ∧ Next sys s t s') ∨
      ∃ halt, (mainRound sys s).2 = .done halt ∧ Final sys s halt := by
  cases hphase : s.phase with
  | targets rest =>
    cases rest with
    | cons mac rest =>
      cases ho : s.send sys mac with
      | error stop =>
        exact .inr ⟨_, by simp only [mainRound, hphase, ho], .target hphase ho⟩
      | ok o => exact .inl ⟨_, _, by simp only [mainRound, hphase, ho], .target hphase ho⟩
    | nil =>
      cases hstdin : s.globals.requestStdin with
      | true =>
        exact .inl ⟨_, _, by simp [mainRound, openMacfile, hphase, hstdin], .stdin hphase hstdin⟩
      | false =>
        cases hpath : s.globals.pathname with
        | none =>
          exact .inr ⟨_, by simp [mainRound, openMacfile, hphase, hstdin, hpath],
            .noSource hphase hstdin hpath⟩
        | some path =>
          cases hopen : sys.fopen path with
          | none =>
            exact .inr ⟨_, by simp [mainRound, openMacfile, hphase, hstdin, hpath, hopen],
              .unopened hphase hstdin hpath hopen⟩
          | some x =>
            exact .inl ⟨_, _, by simp [mainRound, openMacfile, hphase, hstdin, hpath, hopen],
              .file hphase hstdin hpath hopen⟩
  | macfile fp =>
    cases hparse : macfileParse (sys.junk s.calls) fp with
    | error f =>
      exact .inr ⟨_, by simp only [mainRound, macfileRound, hphase, hparse],
        .parse hphase hparse⟩
    | ok call =>
      obtain ⟨r, port, fp'⟩ := call
      cases r with
      | none =>
        exact .inr ⟨_, by simp only [mainRound, macfileRound, hphase, hparse],
          .last hphase hparse⟩
      | some r =>
        cases ho : (s.load r).send sys r.mac with
        | error stop =>
          exact .inr ⟨_, by simp only [mainRound, macfileRound, hphase, hparse, ho],
            .record hphase hparse ho⟩
        | ok o =>
          cases hfree : o.pass.xfree with
          | error f =>
            exact .inr ⟨_, by simp only [mainRound, macfileRound, hphase, hparse, ho, hfree],
              .free hphase hparse ho hfree⟩
          | ok pass =>
            exact .inl ⟨_, _, by simp only [mainRound, macfileRound, hphase, hparse, ho, hfree],
              .record hphase hparse ho hfree⟩

theorem mainRound_next {sys : Sys} {s s' : State} {t : List Event}
    (h : mainRound sys s = (t, .next s')) : Next sys s t s' := by
  rcases mainRound_cases sys s with ⟨t₁, s₁, hr, hnext⟩ | ⟨halt, hr, _⟩
  · rw [h] at hr
    cases hr
    exact hnext
  · rw [h] at hr
    cases hr

theorem mainRound_final {sys : Sys} {s : State} {halt : Halt}
    (h : (mainRound sys s).2 = .done halt) : Final sys s halt := by
  rcases mainRound_cases sys s with ⟨t, s₁, hr, _⟩ | ⟨halt₁, hr, hfinal⟩
  · rw [hr] at h
    cases h
  · rw [h] at hr
    cases hr
    exact hfinal

/-! ## One call -/

/-- The buffer stays well-formed, whatever the mode. -/
theorem assembleAndSend_wf {g : Globals} {env : Env} {m : Magic} {sock : List Recv}
    {mac host : Bytes} {portnum : UInt32} {pass : Pass} {o : Outcome} (hm : m.WF)
    (h : assembleAndSend g env m sock mac host portnum pass = .ok o) : o.magic.WF := by
  cases returned_of_ok hm h with
  | unassembled | unresolved | refused | udp | raw => exact assembledBuffer_wf hm ..
  | unanswered | answered => exact hm

section Datagram

/-- The datagram of a target: to its host and port, with its packet. -/
def datagramOf (ethers : Bytes → Option Octets) (resolve : Bytes → Option InAddr)
    (mac host : Bytes) (port : Nat) (pw : Option Bytes) : Option (Option (InAddr × Nat) × Bytes) :=
  match packetOf ethers mac pw, resolve host with
  | some packet, some addr => some (some (addr, port), packet)
  | _, _ => none

theorem mem_datagramOf {ethers : Bytes → Option Octets} {resolve : Bytes → Option InAddr}
    {mac host : Bytes} {port : Nat} {pw : Option Bytes} {d : Option (InAddr × Nat) × Bytes}
    (h : d ∈ (datagramOf ethers resolve mac host port pw).toList) :
    ∃ addr, resolve host = some addr ∧ d.1 = some (addr, port) := by
  rw [datagramOf] at h
  split at h
  · rename_i packet addr _ haddr
    obtain rfl : d = (some (addr, port), packet) := by simpa using h
    exact ⟨addr, haddr, rfl⟩
  · cases h

theorem datagrams_append (es es' : List Event) :
    datagrams (es ++ es') = datagrams es ++ datagrams es' := List.filterMap_append

theorem datagrams_report (g : Globals) (mac host : Bytes) (portnum : UInt32) :
    datagrams (report g mac host portnum) = [] := by
  unfold report
  split
  · rfl
  · rfl

variable {g : Globals} {env : Env} {m : Magic} {sock : List Recv} {mac host : Bytes}
  {portnum : UInt32} {pass : Pass} {pw : Option Bytes}

variable (g env sock mac host portnum) in
/-- A call in UDP mode leaves the buffer well-formed and sends its own datagram, if it has one. -/
theorem sendUdp_datagrams (hm : m.WF) (hp : pass.read = .ok pw) :
    ∃ o, sendUdp g env m sock mac host portnum pass = .ok o ∧ o.magic.WF ∧ o.pass = pass ∧
      datagrams o.events =
        (datagramOf env.ethers env.gethostbyname mac host portnum.toUInt16.toNat pw).toList := by
  have hwf := assembledBuffer_wf hm env mac pw
  rcases sendUdp_cases g env sock mac host portnum hm hp with
    ⟨hpk, text, ho⟩ | ⟨packet, hpk, ⟨hh, ho⟩ | ⟨addr, hh, ⟨hs, ho⟩ | ⟨hs, ho⟩⟩⟩
  · exact ⟨_, ho, hwf, rfl, by simp [datagramOf, hpk]; rfl⟩
  · exact ⟨_, ho, hwf, rfl, by simp [datagramOf, hpk, hh]; rfl⟩
  · exact ⟨_, ho, hwf, rfl, by simp [datagramOf, hpk, hh]; rfl⟩
  · refine ⟨_, ho, hwf, rfl, ?_⟩
    rw [← List.singleton_append, datagrams_append, datagrams_report]
    simp [datagramOf, hpk, hh]
    rfl

variable (g env sock mac host portnum) in
/-- A call in RAW mode sends its packet, if it has one. -/
theorem sendRaw_datagrams (hm : m.WF) (hp : pass.read = .ok pw) :
    ∃ o, sendRaw g env m sock mac host portnum pass = .ok o ∧ o.magic.WF ∧ o.pass = pass ∧
      datagrams o.events =
        ((packetOf env.ethers mac pw).map fun packet => (none, packet)).toList := by
  have hwf := assembledBuffer_wf hm env mac pw
  rcases sendRaw_cases g env sock mac host portnum hm hp with ⟨hpk, text, ho⟩ | ⟨packet, hpk, ho⟩
  · exact ⟨_, ho, hwf, rfl, by rw [hpk]; rfl⟩
  · refine ⟨_, ho, hwf, rfl, ?_⟩
    rw [← List.singleton_append, datagrams_append, datagrams_report, hpk]
    rfl

/-- A target leaves the globals as they are and the buffer well-formed, and sends its own
datagram, if it has one. -/
theorem send_udp (sys : Sys) {s : State} {pw : Option Bytes}
    (hmode : s.globals.packetMode &&& udpMode ≠ 0) (hm : s.magic.WF)
    (hp : s.globals.passwd.read = .ok pw) (mac : Bytes) :
    ∃ o, s.send sys mac = .ok o ∧ o.magic.WF ∧ o.pass = s.globals.passwd ∧
      datagrams o.events = (datagramOf (sys.call s.calls).ethers
        (sys.call s.calls).gethostbyname mac s.globals.hostStr s.globals.port.toUInt16.toNat
        pw).toList := by
  have hcall : s.send sys mac = sendUdp s.globals (sys.call s.calls) s.magic s.sock mac
      s.globals.hostStr s.globals.port s.globals.passwd := assembleAndSend_udp hmode _
  rw [hcall]
  exact sendUdp_datagrams s.globals (sys.call s.calls) s.sock mac s.globals.hostStr s.globals.port
    hm hp

end Datagram

/-! ## The two loops in UDP mode -/

section Loops

variable {sys : Sys} {ethers : Bytes → Option Octets} {resolve : Bytes → Option InAddr}

/-- The ethers table and the resolver answer every call alike. -/
def Fixed (sys : Sys) (ethers : Bytes → Option Octets) (resolve : Bytes → Option InAddr) : Prop :=
  ∀ n, (sys.call n).ethers = ethers ∧ (sys.call n).gethostbyname = resolve

theorem filterMap_cons_toList {α β : Type} (f : α → Option β) (a : α) (l : List α) :
    (a :: l).filterMap f = (f a).toList ++ l.filterMap f := by
  cases h : f a with
  | none => simp [h]
  | some b => simp [h]

/-- The datagrams of the operands that are left. -/
def targetDatagrams (ethers : Bytes → Option Octets) (resolve : Bytes → Option InAddr)
    (g : Globals) (targets : List Bytes) : List (Option (InAddr × Nat) × Bytes) :=
  targets.filterMap fun mac =>
    datagramOf ethers resolve mac g.hostStr g.port.toUInt16.toNat none

/-- The loop over the operands, by induction on them: the globals stay as they are. -/
theorem targets_steps (hfix : Fixed sys ethers resolve) {targets : List Bytes} {s : State}
    (hphase : s.phase = .targets targets) (hmode : s.globals.packetMode &&& udpMode ≠ 0)
    (hm : s.magic.WF) (hpass : s.globals.passwd = .none) :
    ∃ t s', Steps (mainRound sys) s t s' ∧ s'.phase = .targets [] ∧ s'.globals = s.globals ∧
      s'.magic.WF ∧ datagrams t = targetDatagrams ethers resolve s.globals targets := by
  induction targets generalizing s with
  | nil => exact ⟨[], s, .refl, hphase, rfl, hm, rfl⟩
  | cons mac rest ih =>
    have hread : s.globals.passwd.read = .ok none := by rw [hpass]; rfl
    obtain ⟨o, ho, hwf, hpass', hdata⟩ := send_udp sys hmode hm hread mac
    have hround : mainRound sys s =
        (o.events, .next { s.after o with phase := .targets rest }) := by
      simp only [mainRound, hphase, ho]
    have hglobals : (s.after o).globals = s.globals := by
      simp only [State.after, hpass']
    obtain ⟨t, s', hsteps, hphase', hglobals', hwf', hdata'⟩ :=
      ih (s := { s.after o with phase := .targets rest }) rfl (by rwa [hglobals]) hwf
        (by rwa [hglobals])
    refine ⟨o.events ++ t, s', .cons hround hsteps, hphase', hglobals'.trans hglobals, hwf', ?_⟩
    rw [datagrams_append, hdata, hdata', (hfix _).1, (hfix _).2, hglobals, targetDatagrams,
      targetDatagrams, filterMap_cons_toList]

/-- The port a record is sent to: its own, if it is one, and else the default. -/
def effectivePort (port : UInt32) : Nat :=
  if 1 ≤ port.toNat ∧ port.toNat ≤ 65535 then port.toNat else 40000

/-- The conversion to `unsigned short` does not change the port of a record. -/
theorem recordPort_toNat (port : UInt32) :
    (recordPort port).toUInt16.toNat = effectivePort port := by
  have hzero : port = 0 ↔ port.toNat = 0 := by
    rw [← UInt32.toNat_inj]
    rfl
  have hbig : port > 65535 ↔ port.toNat > 65535 := Iff.rfl
  simp only [recordPort, effectivePort, hzero, hbig]
  by_cases h : port.toNat = 0 ∨ port.toNat > 65535
  · have hnot : ¬ (1 ≤ port.toNat ∧ port.toNat ≤ 65535) := by omega
    rw [if_pos h, if_neg hnot]
    rfl
  · have hin : 1 ≤ port.toNat ∧ port.toNat ≤ 65535 := by omega
    rw [if_neg h, if_pos hin, UInt32.toNat_toUInt16]
    omega

def recordDatagrams (ethers : Bytes → Option Octets) (resolve : Bytes → Option InAddr)
    (rs : List Record) : List (Option (InAddr × Nat) × Bytes) :=
  rs.filterMap fun r =>
    datagramOf ethers resolve r.mac r.host (effectivePort r.port) r.passwd

theorem load_read (s : State) (r : Record) : (s.load r).globals.passwd.read = .ok r.passwd := by
  simp only [State.load]
  cases r.passwd with
  | none => rfl
  | some t => rfl

/-- The password of a record can be released behind its call. -/
theorem load_xfree (s : State) (r : Record) :
    ∃ pass, (s.load r).globals.passwd.xfree = .ok pass := by
  simp only [State.load]
  cases r.passwd with
  | none => exact ⟨_, rfl⟩
  | some t => exact ⟨_, rfl⟩

/-- The loop over the macfile follows the read loop record by record: whatever the globals hold
before a record is overwritten by it. -/
theorem macfile_exec (hfix : Fixed sys ethers resolve) {rd : Reader} {rs : List Record}
    (he : Exec readRound rd rs (.ok ())) {s : State} (hphase : s.phase = .macfile rd.fp)
    (hjunk : ∀ n, rd.junk n = sys.junk (s.calls + n))
    (hmode : s.globals.packetMode &&& udpMode ≠ 0) (hm : s.magic.WF) :
    ∃ t status, Exec (mainRound sys) s t (.exit status) ∧
      datagrams t = recordDatagrams ethers resolve rs := by
  generalize hres : (Except.ok () : Except Fault Unit) = res at he
  induction he generalizing s with
  | done hr =>
    subst hres
    obtain ⟨rfl, port, fp, hp⟩ := readRound_done_inv hr
    rw [hjunk 0] at hp
    have hround : mainRound sys s = ([], .done (exitStatus s.ret)) := by
      simp only [mainRound, hphase, macfileRound]
      rw [show s.calls = s.calls + 0 from rfl, hp]
    exact ⟨[], _, .done hround, rfl⟩
  | @next rd rd' _ _ _ hr _ ih =>
    obtain ⟨r, port, rfl, hp, hjunk'⟩ := readRound_next_inv hr
    rw [hjunk 0] at hp
    obtain ⟨o, ho, hwf, hpass, hdata⟩ :=
      send_udp sys (s := s.load r) hmode hm (load_read s r) r.mac
    obtain ⟨pass, hfree⟩ := load_xfree s r
    let s' := { (s.load r).after { o with pass := pass } with phase := .macfile rd'.fp }
    have hround : mainRound sys s = (o.events, .next s') := by
      simp only [mainRound, hphase, macfileRound]
      rw [show s.calls = s.calls + 0 from rfl, hp]
      simp only [ho, hpass, hfree]
      rfl
    have hjunk'' : ∀ n, rd'.junk n = sys.junk (s'.calls + n) := by
      intro n
      rw [hjunk', hjunk, Nat.add_comm n 1, ← Nat.add_assoc]
      rfl
    obtain ⟨t, status, he, hdata'⟩ := ih (s := s') rfl hjunk'' hmode hwf hres
    refine ⟨o.events ++ t, status, .next hround he, ?_⟩
    rw [datagrams_append, hdata, hdata', (hfix _).1, (hfix _).2, recordDatagrams, recordDatagrams,
      List.singleton_append, filterMap_cons_toList, ← recordPort_toNat]
    rfl

/-- Where the records of a run come from: nowhere, or a stream of newline-terminated lines that is
read without error and whose hosts fit. -/
inductive Input (sys : Sys) (g : Globals) : Bytes → Prop where
  | none : g.requestStdin = false → g.pathname = none → Input sys g []
  | unopened {path : Bytes} : g.requestStdin = false → g.pathname = some path →
      sys.fopen path = none → Input sys g []
  | stdin {content : Bytes} : g.requestStdin = true → sys.stdin = (content, .eof) →
      Macfile content → Input sys g content
  | file {path content : Bytes} : g.requestStdin = false → g.pathname = some path →
      sys.fopen path = some (content, .eof) → Macfile content → Input sys g content

theorem openMacfile_exec (hfix : Fixed sys ethers resolve) {s : State} {content : Bytes}
    (hin : Input sys s.globals content) (hphase : s.phase = .targets [])
    (hmode : s.globals.packetMode &&& udpMode ≠ 0) (hm : s.magic.WF) :
    ∃ t status, Exec (mainRound sys) s t (.exit status) ∧
      datagrams t = recordDatagrams ethers resolve (records content) := by
  have hround : mainRound sys s = openMacfile sys s := by
    simp only [mainRound, hphase]
  have hopen : Macfile content → openMacfile sys s =
      ([], .next { s with phase := .macfile (fopened content .eof) }) →
      ∃ t status, Exec (mainRound sys) s t (.exit status) ∧
        datagrams t = recordDatagrams ethers resolve (records content) := by
    intro hmac hnext
    have hread := (exec_macfile hmac (fun n => sys.junk (s.calls + n))).mpr ⟨rfl, rfl⟩
    obtain ⟨t, status, he, hdata⟩ := macfile_exec hfix hread
      (s := { s with phase := .macfile (fopened content .eof) }) rfl (fun _ => rfl) hmode hm
    exact ⟨[] ++ t, status, .next (hround.trans hnext) he, hdata⟩
  cases hin with
  | none hstdin hpath =>
    refine ⟨[], _, .done (r := exitStatus s.ret) ?_, rfl⟩
    simp [hround, openMacfile, hstdin, hpath]
  | @unopened path hstdin hpath hfopen =>
    refine ⟨[.error path], 1, .done ?_, rfl⟩
    simp [hround, openMacfile, hstdin, hpath, hfopen]
  | stdin hstdin hcontent hmac => exact hopen hmac (by simp [openMacfile, hstdin, hcontent])
  | file hstdin hpath hfopen hmac =>
    exact hopen hmac (by simp [openMacfile, hstdin, hpath, hfopen])

/-- **Every target gets its own datagram, in order.** A run in UDP mode, started with neither `-p`
nor `--passwd`, ends; its `sendto` calls are those of the operands that assemble and whose host
resolves, to port 40000 of the host of the command line, and then those of the records of the
macfile, each to its own host and port and with its own address and password. -/
theorem udp_run_datagrams {args : CommandLine} {s₀ : State} {content : Bytes}
    (hstart : start sys args = .ok s₀) (hmode : s₀.globals.packetMode &&& udpMode ≠ 0)
    (hopts : ∀ o ∈ args.opts, (∀ a, o ≠ .port a) ∧ ∀ a, o ≠ .passwd a)
    (hdash : dash ∉ args.operands) (hin : Input sys s₀.globals content)
    (hfix : Fixed sys ethers resolve) :
    ∃ events status, Runs sys args events (.exit status) ∧
      datagrams events =
        (args.operands.filterMap fun mac =>
          datagramOf ethers resolve mac s₀.globals.hostStr 40000 none) ++
        ((lines content).filterMap lineRecord).filterMap (fun r =>
          datagramOf ethers resolve r.mac r.host (effectivePort r.port) r.passwd) ∧
      ∀ events' halt, Runs sys args events' halt → events' = events ∧ halt = .exit status := by
  obtain ⟨hparse, hphase, hwf, -, -⟩ := start_inv hstart
  obtain ⟨p, hp, hglobals⟩ := parseArgs_inv hparse
  obtain ⟨hport, hpass⟩ := parseOpts_keeps hopts hp
  have hport' : s₀.globals.port = defaultPort := by rw [hglobals]; exact hport
  have hpass' : s₀.globals.passwd = .none := by rw [hglobals]; exact hpass
  have hphase' : s₀.phase = .targets args.operands := by
    rw [hphase, hglobals]
    exact congrArg Phase.targets (operands_of_no_dash hdash)
  obtain ⟨t, s, hsteps, hphase'', hg, hwf', hdata⟩ :=
    targets_steps hfix hphase' hmode hwf hpass'
  obtain ⟨t', status, he, hdata'⟩ :=
    openMacfile_exec hfix (by rwa [hg]) hphase'' (by rwa [hg]) hwf'
  have hexec := he.of_steps hsteps
  refine ⟨t ++ t', status, ?_, ?_, ?_⟩
  · simpa only [Runs, hstart] using hexec
  · rw [datagrams_append, hdata, hdata', targetDatagrams, hport']
    rfl
  · intro events' halt hrun
    simp only [Runs, hstart] at hrun
    exact hrun.deterministic hexec

end Loops

/-- A system with one host and one macfile. -/
def exampleSys : Sys :=
  { programName := ascii "wol", getpass := none, uninit := fun _ => 0, socket := .ok,
    setsockopt := true, gethostbyname := fun _ => none, connect := fun _ _ => none,
    fopen := fun _ => some (ascii "00:22 bad\n0:0:0:0:0:9 lab:99 1-2-3-4-5-6\n", .eof),
    stdin := ([], .eof), junk := fun _ => freshOuts,
    call := fun _ => { exampleCall with
      gethostbyname := fun host => if host = ascii "lab" then some 7 else none } }

def exampleArgs : CommandLine :=
  { argc := 5, opts := [.file (ascii "macs"), .host (ascii "lab")],
    operands := [ascii "bob", ascii "1:2:3:4:5:6"] }

/-- Of two operands and two records, one operand and one record can be assembled. -/
theorem udp_run_datagrams_lab :
    ∃ events status, Runs exampleSys exampleArgs events (.exit status) ∧
      datagrams events =
        [(some (7, 40000), magicPacket ⟨[1, 2, 3, 4, 5, 6], rfl⟩ none),
         (some (7, 99),
          magicPacket ⟨[0, 0, 0, 0, 0, 9], rfl⟩ (some ⟨[1, 2, 3, 4, 5, 6], rfl⟩))] := by
  have hmac : Macfile (ascii "00:22 bad\n0:0:0:0:0:9 lab:99 1-2-3-4-5-6\n") :=
    ⟨by decide, by decide +kernel⟩
  have hfix : Fixed exampleSys (fun _ => none)
      (fun host => if host = ascii "lab" then some 7 else none) :=
    fun _ => ⟨rfl, rfl⟩
  obtain ⟨events, status, hrun, hdata, -⟩ :=
    udp_run_datagrams (show start exampleSys exampleArgs = .ok _ from rfl) (by decide)
      (by simp [exampleArgs]) (by decide) (.file rfl rfl rfl hmac) hfix
  exact ⟨events, status, hrun, hdata.trans (by decide +kernel)⟩

end WakeOnLan
