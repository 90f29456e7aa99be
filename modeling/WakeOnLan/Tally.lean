import WakeOnLan.ExitStatus
import WakeOnLan.Passwords

/-!
# WakeOnLan.Tally

A run observed by whether the targets it has called for were taken.

* `Call.taken`, `tallyRound` — the call returns `0`; the observation.
* `goes_on_iff`, `next_call` — a round with a call: when it goes on, and what it leaves behind.
* `Tallied`, `tallied_run`   — what a run keeps: `ret` is the number of the targets that were not
  taken, as an `int`.
* `final_zero`               — how a run that has a stream ends with status `0`.
-/

namespace WakeOnLan

open CLib

/-! ## The tally of a run -/

/-- The call returns `0`: its packet was assembled and, in UDP mode, its host resolved and `sendto`
did not fail; in PROXY mode, `send` took nothing of the reply to a challenge. -/
def Call.taken (sys : Sys) (s : State) (c : Call) : Bool :=
  let env := sys.call s.calls
  let packet := match c.pass.read with
    | .error _ => none
    | .ok pw => packetOf env.ethers c.mac pw
  if s.globals.packetMode &&& udpMode ≠ 0 then
    match packet, env.gethostbyname c.host with
    | some packet, some addr => env.sendto (.inet addr c.port.toUInt16) packet ≠ -1
    | _, _ => false
  else if s.globals.packetMode &&& proxyMode ≠ 0 then
    ¬ sizeT (tcpRecv s.sock hexChallenge).1 < hexChallenge && env.proxy.send = 0
  else packet.isSome

/-- `main` observed by whether its calls are taken. -/
def tallyRound (sys : Sys) (s : State) : List Bool × Round State Halt :=
  ((s.nextCall sys).toList.map fun c => c.taken sys s, (mainRound sys s).2)

/-- The transport takes the whole message of the call. -/
def Call.Accepted (sys : Sys) (s : State) (c : Call) : Prop :=
  WakeOnLan.Accepted s.globals (sys.call s.calls) s.sock c.mac c.host c.port c.pass

/-- In PROXY mode: there is a password that the call may release, and `main`, which releases the
password of a record once more, has none to release. -/
def Call.ComesBack (sys : Sys) (s : State) (c : Call) : Prop :=
  (∃ pw, ProxyPass (sys.call s.calls) c.pass pw) ∧ ∀ fp, s.phase = .macfile fp → c.pass = .none

section Tally

variable {sys : Sys} {s s' s₀ : State} {c : Call} {o : Outcome} {events : List Event}
  {calls : List Call}

/-! ## One call -/

/-- A call returns `0` if it is taken, and else `-1`. -/
theorem send_ret (hm : s.magic.WF) (h : c.send sys s = .ok o) :
    o.ret = if c.taken sys s then 0 else -1 := by
  cases returned_of_ok hm h with
  | unassembled hmode hp hpk =>
    rcases hmode with hudp | hproxy
    · simp [Call.taken, hudp, hp, hpk]
    · simp [Call.taken, hproxy, hp, hpk]
  | unresolved hudp hp hpk hh => simp [Call.taken, hudp, hp, hpk, hh]
  | refused hudp hp hpk hh hs => simp [Call.taken, hudp, hp, hpk, hh, hs]
  | udp hudp hp hpk hh hs => simp [Call.taken, hudp, hp, hpk, hh, hs]
  | raw hudp hproxy hp hpk => simp [Call.taken, hudp, hproxy, hp, hpk]
  | unanswered hudp hproxy _ hret =>
    rw [proxySend_ret] at hret
    by_cases hshort : sizeT (tcpRecv s.sock hexChallenge).1 < hexChallenge
    · simp [Call.taken, hudp, hproxy, hshort]
    · rw [if_neg hshort] at hret
      simp [Call.taken, hudp, hproxy, hret]
  | answered hudp hproxy _ hret =>
    rw [proxySend_ret] at hret
    by_cases hshort : sizeT (tcpRecv s.sock hexChallenge).1 < hexChallenge
    · rw [if_pos hshort] at hret
      cases hret
    · rw [if_neg hshort] at hret
      simp [Call.taken, hudp, hproxy, hshort, hret]

/-- A target that is accepted outside PROXY mode is taken, and its password stays. -/
theorem Call.Accepted.sent (hm : s.magic.WF) (hmode : ¬ InProxyMode s.globals)
    (h : c.Accepted sys s) :
    c.taken sys s = true ∧ ∃ o, c.send sys s = .ok o ∧ o.pass = c.pass := by
  have hok : ∃ o, c.send sys s = .ok o ∧ o.ret = 0 ∧ o.pass = c.pass := by
    cases h with
    | udp hudp hp hpk hh hs =>
      rw [Call.send, assembleAndSend_udp hudp]
      rcases sendUdp_cases s.globals (sys.call s.calls) s.sock c.mac c.host c.port hm hp with
        ⟨hno, -⟩ | ⟨_, hpk', ⟨hno, -⟩ | ⟨_, hh', ⟨hno, -⟩ | ⟨-, ho⟩⟩⟩
      · rw [hpk] at hno
        cases hno
      · rw [hh] at hno
        cases hno
      · rw [hpk] at hpk'
        rw [hh] at hh'
        cases hpk'
        cases hh'
        exact absurd hs (Transport.failed hno)
      · exact ⟨_, ho, rfl, rfl⟩
    | proxy hudp hproxy _ _ => exact absurd ⟨hudp, hproxy⟩ hmode
    | raw hudp hproxy hp hpk hs =>
      rw [Call.send, assembleAndSend_raw hudp hproxy]
      rcases sendRaw_cases s.globals (sys.call s.calls) s.sock c.mac c.host c.port hm hp with
        ⟨hno, -⟩ | ⟨_, -, ho⟩
      · rw [hpk] at hno
        cases hno
      · exact ⟨_, ho, rfl, rfl⟩
  obtain ⟨o, ho, hret, hpass⟩ := hok
  refine ⟨?_, o, ho, hpass⟩
  by_contra hno
  have hret' := send_ret hm ho
  rw [hret, if_neg hno] at hret'
  cases hret'

/-- In PROXY mode the code takes the number of bytes sent for a failure. -/
theorem Call.Accepted.not_taken (hmode : InProxyMode s.globals) (h : c.Accepted sys s) :
    c.taken sys s = false := by
  obtain ⟨hudp, hproxy⟩ := hmode
  obtain ⟨-, hs⟩ := (accepted_proxy_iff hudp hproxy).mp h
  have h33 : hexChallenge ≠ 0 := by decide
  simp [Call.taken, hudp, hproxy, hs, h33]

/-! ## One round -/

/-- A round with a call goes on if the call returns and a record's password can be released. -/
theorem goes_on_iff (hc : s.nextCall sys = some c) :
    (∃ events s', mainRound sys s = (events, .next s')) ↔
      ∃ o, c.send sys s = .ok o ∧
        ∀ fp, s.phase = .macfile fp → ∃ pass, o.pass.xfree = .ok pass := by
  rcases nextCall_inv hc with
    ⟨mac, rest, hphase, rfl⟩ | ⟨fp, r, port, fp', hphase, hparse, rfl⟩
  · have hsend : (s.callOf mac).send sys s = s.send sys mac := rfl
    rw [hsend]
    cases ho : s.send sys mac with
    | error stop => simp [mainRound, hphase, ho]
    | ok o => simp [mainRound, hphase, ho]
  · have hsend : ((s.load r).callOf r.mac).send sys s = (s.load r).send sys r.mac := rfl
    rw [hsend]
    cases ho : (s.load r).send sys r.mac with
    | error stop => simp [mainRound, macfileRound, hphase, hparse, ho]
    | ok o =>
      cases hfree : o.pass.xfree with
      | error f => simp [mainRound, macfileRound, hphase, hparse, ho, hfree]
      | ok pass => simp [mainRound, macfileRound, hphase, hparse, ho, hfree]

/-- What a round with a call leaves behind. -/
theorem next_call (h : Next sys s events s') (hc : s.nextCall sys = some c) :
    ∃ o, c.send sys s = .ok o ∧ s'.magic = o.magic ∧
      s'.ret = (s.ret - o.ret).bmod (2 ^ 32) ∧ s'.calls = s.calls + 1 := by
  cases h with
  | target hphase ho =>
    rw [nextCall_target hphase] at hc
    cases hc
    exact ⟨_, ho, rfl, rfl, rfl⟩
  | stdin hphase _ | file hphase _ _ _ =>
    rw [nextCall_none hphase] at hc
    cases hc
  | record hphase hparse ho _ =>
    rw [nextCall_record hphase hparse] at hc
    cases hc
    exact ⟨_, ho, rfl, rfl, rfl⟩

theorem next_no_call (h : Next sys s events s') (hc : s.nextCall sys = none) :
    s'.magic = s.magic ∧ s'.ret = s.ret ∧ s'.calls = s.calls := by
  cases h with
  | target hphase _ =>
    rw [nextCall_target hphase] at hc
    cases hc
  | stdin | file => exact ⟨rfl, rfl, rfl⟩
  | record hphase hparse _ _ =>
    rw [nextCall_record hphase hparse] at hc
    cases hc

/-- In PROXY mode a round goes on if its call comes back. -/
theorem comesBack_iff (hmode : InProxyMode s.globals) (hc : s.nextCall sys = some c) :
    (∃ events s', mainRound sys s = (events, .next s')) ↔ c.ComesBack sys s := by
  have hcall : c.send sys s = sendProxy s.globals (sys.call s.calls) s.magic s.sock c.mac c.host
      c.port c.pass := assembleAndSend_proxy hmode c.pass
  have hfree : (∃ pass, (afterProxy c.pass).xfree = .ok pass) ↔ c.pass = .none := by
    cases hp : c.pass with
    | none => simp [afterProxy, Pass.xfree]
    | arg | main | prompt | released => simp [afterProxy, Pass.xfree]
  rw [goes_on_iff hc, hcall, Call.ComesBack]
  constructor
  · rintro ⟨o, ho, hrecord⟩
    refine ⟨?_, fun fp hphase => ?_⟩
    · by_contra hno
      obtain ⟨stop, hstop⟩ := sendProxy_stop s.globals (sys.call s.calls) (m := s.magic) s.sock
        c.mac c.host c.port (not_exists.mp hno)
      rw [ho] at hstop
      cases hstop
    · rw [← hfree, ← sendProxy_pass ho]
      exact hrecord fp hphase
  · rintro ⟨⟨pw, hp⟩, hrecord⟩
    obtain ⟨o, ho, -⟩ := sendProxy_outcome s.globals s.magic s.sock c.mac c.host c.port hp
    refine ⟨o, ho, fun fp hphase => ?_⟩
    rw [sendProxy_pass ho, hfree]
    exact hrecord fp hphase

/-- Outside PROXY mode a round with an accepted call goes on. -/
theorem goes_on_of_accepted (hm : s.magic.WF) (hmode : ¬ InProxyMode s.globals)
    (hc : s.nextCall sys = some c) (hacc : c.Accepted sys s) :
    ∃ events s', mainRound sys s = (events, .next s') := by
  obtain ⟨-, o, ho, hpass⟩ := hacc.sent hm hmode
  refine (goes_on_iff hc).mpr ⟨o, ho, fun fp hphase => ?_⟩
  rcases nextCall_inv hc with ⟨_, _, hphase', -⟩ | ⟨_, r, _, _, _, _, rfl⟩
  · rw [hphase] at hphase'
    cases hphase'
  · rw [hpass]
    exact load_xfree s r

theorem inProxyMode_run (hs : Steps (callRound sys) s₀ calls s) :
    InProxyMode s.globals ↔ InProxyMode s₀.globals := by
  rw [InProxyMode, InProxyMode, packetMode_run hs]

/-! ## The stream of a run -/

theorem macfileLoop_ending {fp fp' : File} {o o' : Outs} {k : UInt32} {x : LoopExit}
    (h : macfileLoop fp o k = .ok (x, fp', o')) :
    fp'.ending = fp.ending ∧ (x = .failed → fp.ending = .error → fp'.ferror = true) := by
  fun_induction macfileLoop fp o k with
  | case1 =>
    cases h
    exact ⟨rfl, fun hx => by cases hx⟩
  | case2 fp o k _ fp₁ hline =>
    cases h
    refine ⟨getline_ending hline, fun _ hend => ?_⟩
    rw [getline_none hline]
    exact File.hitEnd_ferror hend
  | case3 => cases h
  | case4 _ _ _ _ _ _ hline _ _ ih =>
    rw [← getline_ending hline]
    exact ih h
  | case5 _ _ _ _ _ _ hline =>
    cases h
    exact ⟨getline_ending hline, fun hx => by cases hx⟩

/-- On a stream that ends in a read error `-1` means that the error was met. -/
theorem macfileParse_ending {junk : Outs} {fp fp' : File} {r : Option Record} {port : UInt32}
    (h : macfileParse junk fp = .ok ⟨r, port, fp'⟩) :
    fp'.ending = fp.ending ∧ (r = none → fp.ending = .error → fp'.ferror = true) := by
  simp only [macfileParse] at h
  split at h
  · cases h
  · rename_i hloop
    cases h
    obtain ⟨hend, herr⟩ := macfileLoop_ending hloop
    exact ⟨hend, fun _ => herr rfl⟩
  · rename_i hloop
    split at h
    · rename_i hferr
      cases h
      exact ⟨(macfileLoop_ending hloop).1, fun _ _ => hferr⟩
    · cases h
      exact ⟨(macfileLoop_ending hloop).1, fun hr => by cases hr⟩

/-! ## What a run keeps -/

/-- After some targets, taken or not: `ret` counts those that were not, as an `int`. -/
structure Tallied (src : Source) (ending : Ending) (tally : List Bool) (s : State) : Prop where
  magic : s.magic.WF
  source : s.source = some src
  stream : ∀ fp, s.phase = .macfile fp → fp.ending = ending
  ret : s.ret = (tally.count false : Int).bmod (2 ^ 32)
  calls : s.calls = tally.length

variable {src : Source} {content : Bytes} {ending : Ending} {tally t : List Bool}

/-- No round changes where the records come from, nor what lies behind them. -/
theorem next_stream (hopen : src.opened sys = some (fopened content ending))
    (h : Next sys s events s') (hsource : s.source = some src)
    (hstream : ∀ fp, s.phase = .macfile fp → fp.ending = ending) :
    s'.source = some src ∧ ∀ fp, s'.phase = .macfile fp → fp.ending = ending := by
  cases h with
  | target => exact ⟨hsource, nofun⟩
  | stdin hphase hstdin =>
    have hsrc := source_stdin hstdin
    rw [hsource] at hsrc
    cases hsrc
    cases hopen
    exact ⟨hsource, fun fp hfp => by cases hfp; rfl⟩
  | @file path _ _ hphase hstdin hpath hfopen =>
    have hsrc := source_pathname hstdin
    rw [hsource, hpath] at hsrc
    cases hsrc
    rw [opened_file hfopen] at hopen
    cases hopen
    exact ⟨hsource, fun fp hfp => by cases hfp; rfl⟩
  | record hphase hparse _ _ =>
    refine ⟨hsource, fun fp hfp => ?_⟩
    cases hfp
    exact (macfileParse_ending hparse).1.trans (hstream _ hphase)

theorem tallied_step (hopen : src.opened sys = some (fopened content ending))
    (h : Tallied src ending tally s) (hr : tallyRound sys s = (t, .next s')) :
    Tallied src ending (tally ++ t) s' := by
  simp only [tallyRound, Prod.mk.injEq] at hr
  obtain ⟨rfl, hr⟩ := hr
  have hnext := mainRound_next (Prod.ext rfl hr)
  obtain ⟨hsource, hstream⟩ := next_stream hopen hnext h.source h.stream
  cases hc : s.nextCall sys with
  | none =>
    obtain ⟨hmagic, hret, hcalls⟩ := next_no_call hnext hc
    refine ⟨hmagic ▸ h.magic, hsource, hstream, ?_, ?_⟩
    · simpa [hret] using h.ret
    · simpa [hcalls] using h.calls
  | some c =>
    obtain ⟨o, ho, hmagic, hret, hcalls⟩ := next_call hnext hc
    refine ⟨hmagic ▸ assembleAndSend_wf h.magic ho, hsource, hstream, ?_, ?_⟩
    · rw [hret, h.ret, send_ret h.magic ho, Int.bmod_sub_bmod]
      cases htaken : c.taken sys s with
      | true => simp [htaken]
      | false => simp [htaken]
    · simp [hcalls, h.calls]

theorem start_tallied {args : CommandLine} (h : start sys args = .ok s₀)
    (hsource : s₀.source = some src) : Tallied src ending [] s₀ := by
  obtain ⟨-, hphase, hm, hret, hcalls⟩ := start_inv h
  refine ⟨hm, hsource, fun fp hfp => ?_, hret, hcalls⟩
  rw [hphase] at hfp
  cases hfp

theorem tallied_run (hopen : src.opened sys = some (fopened content ending))
    (h₀ : Tallied src ending [] s₀) (hs : Steps (tallyRound sys) s₀ tally s) :
    Tallied src ending tally s :=
  hs.invariant_log (fun _ _ _ _ h hr => tallied_step hopen h hr) h₀

theorem Tallied.ret_eq_zero_iff (h : Tallied src ending tally s) :
    s.ret = 0 ↔ 2 ^ 32 ∣ tally.count false := by
  rw [h.ret, ← Int.dvd_iff_bmod_eq_zero, Int.natCast_dvd_natCast]

/-! ## The end of a run -/

/-- A program that stops in a call does not report success. -/
theorem send_stop {stop : Stop} (h : c.send sys s = .error stop) : stop.halt ≠ .exit 0 := by
  simp only [Call.send, assembleAndSend] at h
  split at h
  · simp only [sendUdp] at h
    split at h
    · cases h
      intro hhalt
      cases hhalt
    · split at h
      · cases h
      · split at h
        · cases h
        · cases h
  · split at h
    · simp only [sendProxy] at h
      split at h
      · cases h
        intro hhalt
        cases hhalt
      · split at h
        · cases h
          intro hhalt
          cases hhalt
        · split at h
          · cases h
            intro hhalt
            cases hhalt
          · split at h
            · cases h
            · cases h
    · simp only [sendRaw] at h
      split at h
      · cases h
        intro hhalt
        cases hhalt
      · split at h
        · cases h
        · cases h

/-- A run that has a stream ends with status `0` only there, with `ret` being `0`. -/
theorem final_zero (hsource : s.source = some src) (h : (mainRound sys s).2 = .done (.exit 0)) :
    (∃ fp port fp', s.phase = .macfile fp ∧
      macfileParse (sys.junk s.calls) fp = .ok ⟨none, port, fp'⟩) ∧ s.ret = 0 := by
  have hfinal := mainRound_final h
  generalize hhalt : Halt.exit 0 = halt at hfinal
  cases hfinal with
  | @target mac _ stop _ hstop =>
    have hne := send_stop (c := s.callOf mac) hstop
    exact absurd hhalt.symm hne
  | noSource _ hstdin hpath =>
    rw [source_pathname hstdin, hpath] at hsource
    cases hsource
  | unopened => cases hhalt
  | parse => cases hhalt
  | last hphase hparse =>
    refine ⟨⟨_, _, _, hphase, hparse⟩, ?_⟩
    by_contra hret
    rw [exitStatus, if_pos hret] at hhalt
    cases hhalt
  | @record _ _ r _ stop _ _ hstop =>
    have hne := send_stop (c := (s.load r).callOf r.mac) hstop
    exact absurd hhalt.symm hne
  | free => cases hhalt

/-- It goes on behind each of its calls. -/
theorem exec_goes_on (he : Exec (mainRound sys) s events (.exit 0)) (hsource : s.source = some src)
    (hc : s.nextCall sys = some c) : ∃ events' s', mainRound sys s = (events', .next s') := by
  cases he with
  | done hr =>
    obtain ⟨⟨fp, port, fp', hphase, hparse⟩, -⟩ := final_zero hsource (by rw [hr])
    simp only [State.nextCall, hphase, hparse] at hc
    cases hc
  | next hr _ => exact ⟨_, _, hr⟩

/-- And it ends so, when it gets there. -/
theorem mainRound_last {fp fp' : File} {port : UInt32} (hphase : s.phase = .macfile fp)
    (hparse : macfileParse (sys.junk s.calls) fp = .ok ⟨none, port, fp'⟩) (hret : s.ret = 0) :
    (mainRound sys s).2 = .done (.exit 0) := by
  simp [mainRound, macfileRound, hphase, hparse, exitStatus, hret]

/-- Calls that are all taken, or all not, give a tally of one value. -/
theorem tally_const {b : Bool} (hs : Steps (tallyRound sys) s₀ tally s)
    (h : ∀ t s c, Steps (tallyRound sys) s₀ t s → s.nextCall sys = some c →
      c.taken sys s = b) : ∀ x ∈ tally, x = b := by
  induction hs with
  | refl => nofun
  | @cons s s' _ t t' hr _ ih =>
    intro x hx
    rcases List.mem_append.mp hx with hx | hx
    · simp only [tallyRound, Prod.mk.injEq] at hr
      obtain ⟨rfl, -⟩ := hr
      cases hc : s.nextCall sys with
      | none =>
        rw [hc] at hx
        cases hx
      | some c =>
        rw [hc] at hx
        rw [List.mem_singleton.mp hx]
        exact h [] s c .refl hc
    · exact ih (fun t'' s'' c hs hc => h _ s'' c (.cons hr hs) hc) x hx

end Tally

end WakeOnLan
