import WakeOnLan.Delivery

/-!
# WakeOnLan.Endless

Runs in UDP or RAW mode that need not come to an end.

* `Underway`      — how far a run has come: some of its operands, or all of them and the records
  that have been read.
* `steps_trace`   — at every moment a run has shown the attempts at these targets, and the datagrams
  among them are magic packets.
* `exec_overflow`, `not_exec_unterminated` — the read loop on a stream that it cannot finish.
* `mainRuns_halts` — which runs exit, and which stop at a fault; the others never end. With a
  stream a run ends as the read loop does (`halts_stream`), without one it exits (`halts_unread`).
-/

namespace WakeOnLan

open CLib

/-! ## At every moment -/

section Steps

variable {sys : Sys} {args : CommandLine} {g : Globals} {s s₀ : State} {ts ops : List WakeTarget}
  {source : Option Source} {pw : Option Bytes}

/-- The targets that a run can have worked off: the first of the operands, or all of them and the
records that the read loop has come to. -/
inductive Underway (sys : Sys) (source : Option Source) (ops ts : List WakeTarget) : Prop where
  | operands {rest : List WakeTarget} : ops = ts ++ rest → Underway sys source ops ts
  | records {src : Source} {fp : File} {rs : List Record} {rd : Reader} : source = some src →
      src.opened sys = some fp → Steps readRound ⟨fun k => sys.junk (ops.length + k), fp⟩ rs rd →
      ts = ops ++ rs.map Record.target → Underway sys source ops ts

/-- The invariant: where the run is, and what it has shown. -/
inductive Moment (sys : Sys) (g : Globals) (pw : Option Bytes) (source : Option Source)
    (ops : List WakeTarget) : List Event → State → Prop where
  | operands {ts : List WakeTarget} {rest : List Bytes} {s : State} : s.phase = .targets rest →
      ops = ts ++ rest.map (g.target pw) → Standing sys g ts s → s.globals = g →
      s.source = source → Moment sys g pw source ops (traceOf sys g ts) s
  | records {events : List Event} {src : Source} {fp : File} {rs : List Record} {rd : Reader}
      {s : State} : source = some src → src.opened sys = some fp →
      Steps readRound ⟨fun k => sys.junk (ops.length + k), fp⟩ rs rd →
      ReadsAlong sys g ops events s rs rd →
      Moment sys g pw source ops (traceOf sys g ops ++ events) s

theorem Moment.shown {events : List Event} (h : Moment sys g pw source ops events s) :
    ∃ ts, events = traceOf sys g ts ∧ Underway sys source ops ts := by
  cases h with
  | operands _ hops => exact ⟨_, rfl, .operands hops⟩
  | records hsource hopen hsteps halong =>
    exact ⟨_, halong.events, .records hsource hopen hsteps rfl⟩

/-- A round that goes on: one operand, or the step to the source, or one record. -/
theorem Moment.round (hmode : ¬ InProxyMode g) (hp : g.passwd.read = .ok pw)
    {events t : List Event} {s' : State} (h : Moment sys g pw source ops events s)
    (hr : mainRound sys s = (t, .next s')) :
    Moment sys g pw source ops (events ++ t) s' := by
  cases h with
  | @operands ts rest _ hphase hops hstand hglobals hsource =>
    cases rest with
    | cons mac rest =>
      obtain ⟨o, ho, hpass, htrace, hnext⟩ := hstand.send hmode (by rw [hglobals]; exact hp) mac
      have hround : mainRound sys s =
          (o.events, .next { s.after o with phase := .targets rest }) := by
        simp only [mainRound, hphase, ho]
      rw [hround] at hr
      cases hr
      have hglobals' : (s.after o).globals = g := by
        simp only [State.after, hpass, hglobals]
      rw [hglobals] at htrace hnext
      rw [htrace]
      refine .operands rfl ?_ (hnext o.pass _) hglobals' ?_
      · rw [hops, List.map_cons, List.append_assoc]
        rfl
      · rw [← hsource, State.source, State.source, hglobals']
        rw [hglobals]
    | nil =>
      obtain rfl : ops = ts := by simpa using hops
      rcases source_round sys hphase with
        ⟨-, hround⟩ | ⟨_, -, -, hround⟩ | ⟨src, fp, hs, hopen, hround⟩
      · rw [hround] at hr
        cases hr
      · rw [hround] at hr
        cases hr
      · rw [hround] at hr
        cases hr
        refine .records (hsource.symm.trans hs) hopen .refl ⟨?_, rfl, fun n => by rw [hstand.calls],
          by simp⟩
        rw [List.map_nil, List.append_nil]
        exact ⟨hstand.settings, hstand.wf, hstand.calls, hstand.ret⟩
  | records hsource hopen hsteps halong =>
    rcases record_round hmode ops _ _ _ _ halong with
      ⟨t', s₁, u, rd', hround, hread, halong'⟩ | ⟨t', r, u, q, hround, -, -⟩
    · rw [hround] at hr
      cases hr
      rw [List.append_assoc]
      exact .records hsource hopen (hsteps.snoc hread) halong'
    · rw [hround] at hr
      cases hr

/-- The datagram of a target is the packet for its address and its password. -/
theorem datagram_packet {env : Env} {t : WakeTarget} {d : Option (InAddr × Nat) × Bytes}
    (h : t.datagram g env = some d) :
    ∃ a, addressOf env.ethers t.mac = some a ∧ d.2 = magicPacket a (t.passwd.bind passwordOf) := by
  simp only [WakeTarget.datagram] at h
  split at h
  · rename_i packet dest hpk _
    cases h
    obtain ⟨mac, host, port, passwd⟩ := t
    cases passwd with
    | none =>
      obtain ⟨a, ha, rfl⟩ := Option.map_eq_some_iff.mp hpk
      exact ⟨a, ha, rfl⟩
    | some text =>
      simp only [packetOf] at hpk
      split at hpk
      · rename_i a o ha ho
        cases hpk
        refine ⟨a, ha, ?_⟩
        rw [Option.bind_some, ho]
      · cases hpk
  · cases h

/-- At every moment of a run, whether it will come to an end or not, what it has shown are the
attempts at the targets so far, in their order. What has been sent are magic packets, each for the
address and the password that one of these targets names. -/
theorem steps_trace (hstart : start sys args = .ok s₀) (hmode : ¬ InProxyMode s₀.globals)
    {events : List Event} (h : Steps (mainRound sys) s₀ events s) :
    ∃ ts, Underway sys s₀.source (operandTargets sys args s₀.globals) ts ∧
      events = traceOf sys s₀.globals ts ∧
      ∀ d ∈ datagrams events, ∃ t n a, (t, n) ∈ ts.zipIdx ∧
        addressOf (sys.call n).ethers t.mac = some a ∧
        d.2 = magicPacket a (t.passwd.bind passwordOf) := by
  obtain ⟨hparse, hphase, hwf, hret, hcalls⟩ := start_inv hstart
  have hp := (parseArgs_passwd hparse).2
  have hstand : Standing sys s₀.globals [] s₀ :=
    ⟨⟨rfl, rfl, rfl⟩, hwf, hcalls, by rw [hret, failedOf_nil]; decide⟩
  have hfirst : Moment sys s₀.globals (intendedPasswd sys.getpass args.opts) s₀.source
      (operandTargets sys args s₀.globals) [] s₀ := .operands hphase rfl hstand rfl rfl
  have hmoment := h.invariant_log (fun _ _ _ _ hm hr => hm.round hmode hp hr) hfirst
  obtain ⟨ts, hevents, hunder⟩ := hmoment.shown
  rw [List.nil_append] at hevents
  refine ⟨ts, hunder, hevents, fun d hd => ?_⟩
  rw [hevents, datagrams_trace] at hd
  obtain ⟨⟨t, n⟩, hx, hd⟩ := List.mem_filterMap.mp hd
  obtain ⟨a, ha, hpacket⟩ := datagram_packet hd
  exact ⟨t, n, a, hx, ha, hpacket⟩

/-- A system whose macfile lacks its last newline. -/
def unterminatedSys : Sys :=
  { exampleSys with fopen := fun _ => some (ascii "00:11:22:33:44:55 lab", .eof) }

/-- `-r -f macs 1:2:3:4:5:6` -/
def unterminatedArgs : CommandLine :=
  { argc := 5, opts := [.raw, .file (ascii "macs")], operands := [ascii "1:2:3:4:5:6"] }

/-- A run without an end has sent something, and that is a magic packet. -/
theorem steps_trace_unterminated :
    ∃ s₀ events s, start unterminatedSys unterminatedArgs = .ok s₀ ∧
      Steps (mainRound unterminatedSys) s₀ events s ∧ datagrams events ≠ [] ∧
      ∀ d ∈ datagrams events, ∃ a o, d.2 = magicPacket a o := by
  obtain ⟨s₀, hstart, hmode, events, s, hsteps, hne⟩ : ∃ s₀,
      start unterminatedSys unterminatedArgs = .ok s₀ ∧ ¬ InProxyMode s₀.globals ∧
      ∃ events s, Steps (mainRound unterminatedSys) s₀ events s ∧ datagrams events ≠ [] :=
    ⟨_, rfl, fun h => h.2 (by decide), _, _, .cons rfl .refl, by decide +kernel⟩
  refine ⟨s₀, events, s, hstart, hsteps, hne, fun d hd => ?_⟩
  obtain ⟨ts, -, -, hall⟩ := steps_trace hstart hmode hsteps
  obtain ⟨t, n, a, -, -, hpacket⟩ := hall d hd
  exact ⟨a, _, hpacket⟩

end Steps

/-! ## Streams that are not read to their end -/

section Stream

variable {s : Bytes} {ending : Ending} {junk : Nat → Outs}

/-- A line without tokens makes no round of its own. -/
theorem readRound_skip {l : Bytes} (hl : 10 ∉ l) (hf : fields (cstr (l ++ [10])) = none)
    (ending : Ending) (junk : Nat → Outs) :
    ∃ junk', readRound (reader junk (l ++ 10 :: s) ending) = readRound (reader junk' s ending) := by
  obtain ⟨junk₀, hskip⟩ : ∃ junk₀, macfileParse (junk 0) (fopened (l ++ 10 :: s) ending) =
      macfileParse junk₀ (fopened s ending) := macfileParse_skip hl hf (junk 0)
  refine ⟨fun n => if n = 0 then junk₀ else junk n, ?_⟩
  simp [readRound, reader, hskip]

/-- A host that does not fit stops the loop at the latest, by induction on the lines. -/
theorem exec_overflow (h : ∃ line ∈ lines s, ¬ HostFits line) :
    ∃ rs, Exec readRound (reader junk s ending) rs (.error .overflow) := by
  induction s using byLines generalizing junk with
  | nil =>
    obtain ⟨line, hline, -⟩ := h
    cases hline
  | tail t ht hne =>
    obtain ⟨line, hline, hlong⟩ := h
    rw [lines_tail ht hne, List.mem_singleton] at hline
    subst hline
    simp only [HostFits, not_forall] at hlong
    obtain ⟨f, hf, hlong⟩ := hlong
    have herr : macfileParse (junk 0) (fopened line ending) = .error .overflow :=
      macfileParse_tail_overflow ht hne hf (by omega) (junk 0)
    exact ⟨[], .done (by simp [readRound, reader, herr])⟩
  | line l s hl ih =>
    rw [lines_line hl] at h
    cases hf : fields (cstr (l ++ [10])) with
    | none =>
      have hrest : ∃ line ∈ lines s, ¬ HostFits line := by
        obtain ⟨line, hline, hlong⟩ := h
        rcases List.mem_cons.mp hline with rfl | hline
        · refine absurd (fun f hf' => ?_) hlong
          cases hf.symm.trans hf'
        · exact ⟨line, hline, hlong⟩
      obtain ⟨junk', hround⟩ := readRound_skip (s := s) hl hf ending junk
      obtain ⟨rs, he⟩ := @ih junk' hrest
      exact ⟨rs, he.congr hround.symm⟩
    | some f =>
      by_cases hfit : f.host.length < 255
      · have hrest : ∃ line ∈ lines s, ¬ HostFits line := by
          obtain ⟨line, hline, hlong⟩ := h
          rcases List.mem_cons.mp hline with rfl | hline
          · refine absurd (fun f' hf' => ?_) hlong
            cases hf.symm.trans hf'
            omega
          · exact ⟨line, hline, hlong⟩
        have hrecord : macfileParse (junk 0) (fopened (l ++ 10 :: s) ending) =
            .ok ⟨some f.record, f.record.port, fopened s ending⟩ :=
          macfileParse_record hl hf hfit (junk 0)
        obtain ⟨rs, he⟩ := @ih (fun n => junk (n + 1)) hrest
        exact ⟨_, .next (readRound_record hrecord) he⟩
      · have herr : macfileParse (junk 0) (fopened (l ++ 10 :: s) ending) = .error .overflow :=
          macfileParse_overflow hl hf hfit (junk 0)
        exact ⟨[], .done (by simp [readRound, reader, herr])⟩

/-- At an unterminated last line the loop stays, by induction on the lines. -/
theorem not_exec_unterminated (hfits : ∀ line ∈ lines s, HostFits line)
    (hterm : ¬ NewlineTerminated s) {rs : List Record} {res : Except Fault Unit} :
    ¬ Exec readRound (reader junk s .eof) rs res := by
  induction s using byLines generalizing junk rs with
  | nil => exact absurd (.inl rfl) hterm
  | tail t ht hne =>
    intro he
    obtain ⟨r, hr⟩ := macfileParse_tail_eof ht hne (hfits t (by simp [lines_tail ht hne])) (junk 0)
    obtain ⟨rs', he'⟩ := exec_next hr he
    exact absurd he' (not_exec_stuck ⟨rfl, rfl⟩)
  | line l s hl ih =>
    intro he
    rw [lines_line hl] at hfits
    have hrest : ∀ line ∈ lines s, HostFits line :=
      fun line hline => hfits line (List.mem_cons_of_mem _ hline)
    have hterm' : ¬ NewlineTerminated s := fun h => hterm (newlineTerminated_line.mpr h)
    cases hf : fields (cstr (l ++ [10])) with
    | none =>
      obtain ⟨junk', hround⟩ := readRound_skip (s := s) hl hf .eof junk
      exact ih hrest hterm' (he.congr hround)
    | some f =>
      have hfit : f.host.length < 255 :=
        Nat.lt_succ_of_le (hfits (l ++ [10]) List.mem_cons_self f hf)
      obtain ⟨rs', he'⟩ := exec_next (macfileParse_record hl hf hfit (junk 0)) he
      exact ih hrest hterm' he'

/-- Only a host that does not fit stops the loop. -/
theorem exec_error_iff :
    (∃ rs e, Exec readRound (reader junk s ending) rs (.error e)) ↔
      ∃ line ∈ lines s, ¬ HostFits line := by
  constructor
  · rintro ⟨rs, e, he⟩
    by_contra hall
    have hfits : ∀ line ∈ lines s, HostFits line := by
      intro line hline
      by_contra hlong
      exact hall ⟨line, hline, hlong⟩
    by_cases hends : NewlineTerminated s ∨ ending = .error
    · cases (he.deterministic (exec_good ⟨hfits, hends⟩ junk)).2
    · obtain ⟨hterm, hne⟩ := not_or.mp hends
      cases ending with
      | error => exact hne rfl
      | eof => exact not_exec_unterminated hfits hterm he
  · intro h
    obtain ⟨rs, he⟩ := @exec_overflow s ending junk h
    exact ⟨rs, _, he⟩

end Stream

/-! ## How a run comes to its end -/

section Run

variable {sys : Sys} {posixlyCorrect : Bool} {args : List Bytes} {s₀ : State}

theorem Source.exists_fopened {src : Source} {fp : File} (h : src.opened sys = some fp) :
    ∃ content ending, fp = fopened content ending := by
  obtain ⟨x, -, rfl⟩ := Option.map_eq_some_iff.mp h
  exact ⟨_, _, rfl⟩

/-- A run comes to its end where its source does, and with it. -/
theorem exists_feed
    (hstart : start sys (commandLine posixlyCorrect sys.programName args) = .ok s₀)
    (hmode : ¬ InProxyMode s₀.globals) :
    ∃ n, (∀ events halt, MainRuns sys posixlyCorrect args events halt →
        ∃ rs tail stop k, Feed sys n s₀.source rs tail stop ∧ halt = stop k) ∧
      ∀ rs tail stop, Feed sys n s₀.source rs tail stop →
        ∃ events k, MainRuns sys posixlyCorrect args events (stop k) := by
  refine ⟨(operandTargets sys (commandLine posixlyCorrect sys.programName args)
    s₀.globals).length, fun events halt h => ?_, fun rs tail stop hfeed => ?_⟩
  · obtain ⟨events', hrun, -⟩ := h.runs
    obtain ⟨rs, tail, stop, hfeed, -, hhalt⟩ := (runs_trace hstart hmode _ _).mp hrun
    exact ⟨rs, tail, stop, _, hfeed, hhalt⟩
  · exact ⟨_, _, mainRuns_of_runs ((runs_trace hstart hmode _ _).mpr
      ⟨rs, tail, stop, hfeed, rfl, rfl⟩)⟩

/-- Without a stream the source gives an exit. -/
theorem Feed.unread {n : Nat} {source : Option Source}
    (hnone : ∀ src fp, source = some src → src.opened sys ≠ some fp) :
    (∃ rs tail stop, Feed sys n source rs tail stop) ∧
      ∀ rs tail stop, Feed sys n source rs tail stop → ∀ k, ∃ status, stop k = .exit status := by
  constructor
  · cases source with
    | none => exact ⟨_, _, _, .none⟩
    | some src =>
      cases src with
      | stdin => exact absurd rfl (hnone .stdin _ rfl)
      | file path =>
        cases hopen : sys.fopen path with
        | none => exact ⟨_, _, _, .unopened hopen⟩
        | some x => exact absurd (opened_file hopen) (hnone _ _ rfl)
  · intro rs tail stop hfeed k
    cases hfeed with
    | none => exact ⟨_, rfl⟩
    | unopened => exact ⟨_, rfl⟩
    | read hopen => exact absurd hopen (hnone _ _ rfl)

/-- On a stream the source gives what the read loop does. -/
theorem Feed.stream {n : Nat} {src : Source} {fp : File} (hopen : src.opened sys = some fp)
    {rs : List Record} {tail : List Event} {stop : Nat → Halt}
    (h : Feed sys n (some src) rs tail stop) :
    ∃ res, Exec readRound ⟨fun k => sys.junk (n + k), fp⟩ rs res ∧ stop = ended res := by
  cases h with
  | unopened hfopen =>
    rw [unopened_file hfopen] at hopen
    cases hopen
  | read hopen' hexec =>
    obtain rfl := Option.some.inj (hopen'.symm.trans hopen)
    exact ⟨_, hexec, rfl⟩

/-- Without a stream a run exits. -/
theorem halts_unread
    (hstart : start sys (commandLine posixlyCorrect sys.programName args) = .ok s₀)
    (hmode : ¬ InProxyMode s₀.globals)
    (hnone : ∀ src fp, s₀.source = some src → src.opened sys ≠ some fp) :
    (∃ events status, MainRuns sys posixlyCorrect args events (.exit status)) ∧
      ¬ ∃ events f, MainRuns sys posixlyCorrect args events (.fault f) := by
  obtain ⟨n, hsound, hcomplete⟩ := exists_feed hstart hmode
  obtain ⟨⟨rs, tail, stop, hfeed⟩, hexits⟩ := @Feed.unread sys n _ hnone
  constructor
  · obtain ⟨events, k, hrun⟩ := hcomplete rs tail stop hfeed
    obtain ⟨status, hstop⟩ := hexits rs tail stop hfeed k
    rw [hstop] at hrun
    exact ⟨events, status, hrun⟩
  · rintro ⟨events, f, hrun⟩
    obtain ⟨rs', tail', stop', k, hfeed', hhalt⟩ := hsound events _ hrun
    obtain ⟨status, hstop⟩ := hexits rs' tail' stop' hfeed' k
    cases hhalt.trans hstop

/-- On a stream it ends as the read loop does. -/
theorem halts_stream
    (hstart : start sys (commandLine posixlyCorrect sys.programName args) = .ok s₀)
    (hmode : ¬ InProxyMode s₀.globals) {src : Source} {content : Bytes} {ending : Ending}
    (hsource : s₀.source = some src) (hopen : src.opened sys = some (fopened content ending)) :
    ((∃ events status, MainRuns sys posixlyCorrect args events (.exit status)) ↔
      Good content ending) ∧
    ((∃ events f, MainRuns sys posixlyCorrect args events (.fault f)) ↔
      ∃ line ∈ lines content, ¬ HostFits line) := by
  obtain ⟨n, hsound, hcomplete⟩ := exists_feed hstart hmode
  rw [hsource] at hsound hcomplete
  refine ⟨⟨?_, fun hgood => ?_⟩, ⟨?_, fun hlong => ?_⟩⟩
  · rintro ⟨events, status, hrun⟩
    obtain ⟨rs, tail, stop, k, hfeed, hhalt⟩ := hsound _ _ hrun
    obtain ⟨res, hexec, rfl⟩ := hfeed.stream hopen
    cases res with
    | error f => cases hhalt
    | ok u => exact good_of_exec hexec
  · have hexec := exec_good hgood fun k => sys.junk (n + k)
    obtain ⟨events, k, hrun⟩ := hcomplete _ _ _ (.read hopen hexec)
    exact ⟨events, _, hrun⟩
  · rintro ⟨events, f, hrun⟩
    obtain ⟨rs, tail, stop, k, hfeed, hhalt⟩ := hsound _ _ hrun
    obtain ⟨res, hexec, rfl⟩ := hfeed.stream hopen
    cases res with
    | ok u => cases hhalt
    | error e => exact exec_error_iff.mp ⟨rs, e, hexec⟩
  · obtain ⟨rs, hexec⟩ := @exec_overflow content ending (fun k => sys.junk (n + k)) hlong
    obtain ⟨events, k, hrun⟩ := hcomplete _ _ _ (.read hopen hexec)
    exact ⟨events, _, hrun⟩

/-- Whether a run in UDP or RAW mode comes to its end depends on the source of its records alone. It
exits if there is none, if it cannot be opened, or if it is read to its end; it stops at a fault if
a host does not fit; and otherwise, behind a last line without a newline, it never ends. -/
theorem mainRuns_halts
    (hstart : start sys (commandLine posixlyCorrect sys.programName args) = .ok s₀)
    (hmode : ¬ InProxyMode s₀.globals) :
    ((∃ events status, MainRuns sys posixlyCorrect args events (.exit status)) ↔
      ∀ src fp, s₀.source = some src → src.opened sys = some fp →
        (NewlineTerminated fp.rest ∨ fp.ending = .error) ∧ ∀ line ∈ lines fp.rest, HostFits line) ∧
    ((∃ events f, MainRuns sys posixlyCorrect args events (.fault f)) ↔
      ∃ src fp, s₀.source = some src ∧ src.opened sys = some fp ∧
        ∃ line ∈ lines fp.rest, ¬ HostFits line) := by
  by_cases hstream : ∃ src fp, s₀.source = some src ∧ src.opened sys = some fp
  · obtain ⟨src, fp, hsource, hopen⟩ := hstream
    obtain ⟨content, ending, rfl⟩ := Source.exists_fopened hopen
    have hone : ∀ src' fp, s₀.source = some src' → src'.opened sys = some fp →
        fp = fopened content ending := by
      intro src' fp hsource' hopen'
      obtain rfl := Option.some.inj (hsource'.symm.trans hsource)
      exact Option.some.inj (hopen'.symm.trans hopen)
    obtain ⟨hexit, hfault⟩ := halts_stream hstart hmode hsource hopen
    rw [hexit, hfault]
    refine ⟨⟨fun hgood src' fp hsource' hopen' => ?_, fun h => ?_⟩,
      ⟨fun hlong => ⟨src, _, hsource, hopen, hlong⟩, ?_⟩⟩
    · obtain rfl := hone src' fp hsource' hopen'
      exact ⟨hgood.ends, hgood.fits⟩
    · obtain ⟨hends, hfits⟩ := h src _ hsource hopen
      exact ⟨hfits, hends⟩
    · rintro ⟨src', fp, hsource', hopen', hlong⟩
      obtain rfl := hone src' fp hsource' hopen'
      exact hlong
  · have hnone : ∀ src fp, s₀.source = some src → src.opened sys ≠ some fp :=
      fun src fp hsource hopen => hstream ⟨src, fp, hsource, hopen⟩
    obtain ⟨hexit, hfault⟩ := halts_unread hstart hmode hnone
    refine ⟨⟨fun _ src fp hsource hopen => absurd hopen (hnone src fp hsource), fun _ => hexit⟩,
      ⟨fun h => absurd h hfault, ?_⟩⟩
    rintro ⟨src, fp, hsource, hopen, -⟩
    exact absurd hopen (hnone src fp hsource)

/-- With that macfile `wol` neither exits nor stops. -/
theorem mainRuns_halts_unterminated :
    ¬ ∃ events halt, MainRuns unterminatedSys false
      (["-r", "-f", "macs", "1:2:3:4:5:6"].map ascii) events halt := by
  have hline : commandLine false unterminatedSys.programName
      (["-r", "-f", "macs", "1:2:3:4:5:6"].map ascii) = unterminatedArgs := by decide +kernel
  have hstart : start unterminatedSys unterminatedArgs = .ok _ := rfl
  rw [← hline] at hstart
  obtain ⟨hexit, hfault⟩ := mainRuns_halts hstart (fun h => h.2 (by decide))
  rintro ⟨events, halt, h⟩
  cases halt with
  | exit status =>
    obtain ⟨hends, -⟩ := hexit.mp ⟨events, status, h⟩ _ _ rfl rfl
    revert hends
    decide
  | fault f =>
    obtain ⟨src, fp, hsrc, hopen, hlong⟩ := hfault.mp ⟨events, f, h⟩
    obtain rfl := Option.some.inj hsrc
    obtain rfl := Option.some.inj hopen
    revert hlong
    decide +kernel

end Run

end WakeOnLan
