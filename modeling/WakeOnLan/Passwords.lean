import WakeOnLan.Calls

/-!
# WakeOnLan.Passwords

Who releases the passwords of a proxy-mode run.

* `targetPasswd` — the password that is meant for a target: that of its record, of `--passwd`, or
  the one that is typed for it.
* `SafeRun`     — nothing but a live string of its own is released, no released string is read,
  every target is authenticated with its password, and a password of `main` is still there after the
  call.
* `safeRun_iff` — when that is so: no target brings a password along, and the line that is typed for
  it is the password. Every call releases the password it has used, `main` uses it again or releases
  it itself, and the newline of the line is hashed with it.
-/

namespace WakeOnLan

open CLib

/-- The password that is typed with a line of the terminal: the line without its newline. -/
def typedText (line : Bytes) : Bytes :=
  if line.getLast? = some 10 then line.dropLast else line

/-- The password of `--passwd`, for all targets that have none of their own. -/
def sharedPasswd (sys : Sys) (args : CommandLine) : Option Bytes :=
  intendedPasswd (sys.getpass.map typedText) args.opts

/-- The password that the next target brings along, if it is a record. -/
def recordPasswd (sys : Sys) (s : State) : Option Bytes :=
  match s.phase with
  | .targets _ => none
  | .macfile fp =>
    match macfileParse (sys.junk s.calls) fp with
    | .ok ⟨some r, _, _⟩ => r.passwd
    | _ => none

/-- The password that is meant for the next target; without any it is asked for. -/
def targetPasswd (sys : Sys) (args : CommandLine) (s : State) : Option Bytes :=
  ((recordPasswd sys s).or (sharedPasswd sys args)).or ((sys.call s.calls).getpass.map typedText)

structure SafeRun (sys : Sys) (args : CommandLine) (s₀ : State) : Prop where
  noError : ∀ calls s f, Steps (callRound sys) s₀ calls s →
    (mainRound sys s).2 = .done (.fault f) → f ≠ .badFree ∧ f ≠ .useAfterFree
  authenticated : ∀ calls s c, Steps (callRound sys) s₀ calls s → s.nextCall sys = some c →
    ∃ pw o, targetPasswd sys args s = some pw ∧ c.send sys s = .ok o ∧
      hashed o.events = hashed (proxySend (sys.call s.calls).proxy s.sock c.mac pw).2.1
  kept : ∀ calls s c o pw, Steps (callRound sys) s₀ calls s → s.nextCall sys = some c →
    c.send sys s = .ok o → c.pass.read = .ok (some pw) → o.pass.read = .ok (some pw)

/-- No call of the run is made with a password: no operand is processed or `--passwd` is not given,
and no record that is read has a password. -/
structure NoneGiven (sys : Sys) (args : CommandLine) (s₀ : State) : Prop where
  operands : args.operands = [] ∨ dash ∈ args.operands ∨ sharedPasswd sys args = none
  records : ∀ calls s fp r port fp', Steps (callRound sys) s₀ calls s → s.phase = .macfile fp →
    macfileParse (sys.junk s.calls) fp = .ok ⟨some r, port, fp'⟩ → r.passwd = none

/-- Every target is asked for its password, the prompt is answered, and where a challenge has come
the line is, up to a NUL, the password that is meant. -/
structure AllAsked (sys : Sys) (args : CommandLine) (s₀ : State) : Prop
    extends NoneGiven sys args s₀ where
  typed : ∀ calls s c, Steps (callRound sys) s₀ calls s → s.nextCall sys = some c →
    ∃ line pw, (sys.call s.calls).getpass = some line ∧ targetPasswd sys args s = some pw ∧
      (sizeT (tcpRecv s.sock hexChallenge).1 < hexChallenge ∨ cstr line = cstr pw)

section Call

variable {sys : Sys} {s : State} {g : Globals} {env : Env} {m : Magic} {sock : List Recv}
  {mac host : Bytes} {portnum : UInt32} {pass : Pass} {o : Outcome} {c : Call}

/-! ## One call in proxy mode -/

theorem sendProxy_pass (h : sendProxy g env m sock mac host portnum pass = .ok o) :
    o.pass = afterProxy pass := by
  by_cases hp : ∃ s, ProxyPass env pass s
  · obtain ⟨s, hp⟩ := hp
    rw [sendProxy_eq g env sock mac host portnum hp] at h
    dsimp only at h
    split at h
    · cases h
      rfl
    · cases h
      rfl
  · obtain ⟨stop, hstop⟩ :=
      sendProxy_stop g env (m := m) sock mac host portnum (not_exists.mp hp)
    rw [h] at hstop
    cases hstop

/-- A call without a password asks for one, and uses it. -/
theorem sendProxy_asked {pw : Bytes} (hpw : env.getpass = some pw) :
    ∃ o, sendProxy g env m sock mac host portnum .none = .ok o ∧
      hashed o.events = hashed (proxySend env.proxy sock mac pw).2.1 := by
  rw [sendProxy_eq g env sock mac host portnum (.typed hpw)]
  dsimp only
  split
  · refine ⟨_, rfl, ?_⟩
    rw [hashed_append]
    exact List.append_nil _
  · refine ⟨_, rfl, ?_⟩
    rw [hashed_append, hashed_report, List.append_nil]

/-- Two passwords are hashed alike if there is nothing to answer, or they are the same string. -/
theorem hashed_same_iff (penv : ProxyEnv) (pw pw' : Bytes) :
    hashed (proxySend penv sock mac pw).2.1 = hashed (proxySend penv sock mac pw').2.1 ↔
      sizeT (tcpRecv sock hexChallenge).1 < hexChallenge ∨ cstr pw = cstr pw' := by
  by_cases hshort : sizeT (tcpRecv sock hexChallenge).1 < hexChallenge
  · rw [proxySend_short penv mac pw hshort, proxySend_short penv mac pw' hshort]
    simp [hshort]
  · rw [(proxySend_answer penv mac pw hshort).2.1, (proxySend_answer penv mac pw' hshort).2.1]
    simp [hshort, hashedMessage, message]

theorem sendProxy_none_stop {stop : Stop}
    (h : sendProxy g env m sock mac host portnum .none = .error stop) : stop.halt = .exit 1 := by
  cases hpw : env.getpass with
  | none =>
    simp only [sendProxy, hpw, if_true, Option.map_none] at h
    cases h
    rfl
  | some pw =>
    obtain ⟨o, ho, -⟩ := @sendProxy_asked g env m sock mac host portnum pw hpw
    rw [h] at ho
    cases ho

theorem send_proxy (hmode : s.globals.packetMode = proxyMode) (c : Call) :
    c.send sys s = sendProxy s.globals (sys.call s.calls) s.magic s.sock c.mac c.host c.port
      c.pass := by
  simp only [Call.send, assembleAndSend, hmode]
  rfl

/-- A password of the caller is gone behind the call. -/
theorem send_not_kept (hmode : s.globals.packetMode = proxyMode) {pw : Bytes}
    (hpw : c.pass.read = .ok (some pw)) (h : c.send sys s = .ok o) :
    o.pass.read ≠ .ok (some pw) := by
  rw [send_proxy hmode] at h
  have hne : c.pass ≠ .none := by
    intro hnone
    rw [hnone] at hpw
    cases hpw
  rw [sendProxy_pass h, afterProxy, if_neg hne]
  intro hread
  cases hread

end Call

/-! ## Runs -/

section Run

variable {sys : Sys} {args : CommandLine} {s₀ s s' : State} {calls : List Call} {c : Call}
  {mac : Bytes} {rest : List Bytes} {fp fp' : File} {r : Record} {port : UInt32} {f : Fault}

/-- There is a password for all if `parse_args` has one. -/
theorem sharedPasswd_none_iff :
    sharedPasswd sys args = none ↔ intendedPasswd sys.getpass args.opts = none := by
  rw [sharedPasswd, intendedPasswd, intendedPasswd]
  cases lastOf passwdOf args.opts with
  | some optarg => rfl
  | none => by_cases hmem : Opt.passwd none ∈ args.opts <;> simp [hmem]

/-- A safe run makes no call with a password: the call would release it. -/
theorem SafeRun.no_pass (h : SafeRun sys args s₀) (hs : Steps (callRound sys) s₀ calls s)
    (hmode : s.globals.packetMode = proxyMode) (hc : s.nextCall sys = some c) (line : Bytes) :
    c.pass.read ≠ .ok (some line) := by
  intro hread
  obtain ⟨_, o, -, ho, -⟩ := h.authenticated calls s c hs hc
  exact send_not_kept hmode hread ho (h.kept calls s c o line hs hc ho hread)

/-- The operands that a run processes. -/
theorem start_targets (h : start sys args = .ok s₀) : s₀.phase =
    .targets (if args.operands = [] ∨ dash ∈ args.operands then [] else args.operands) := by
  rw [(start_plan h).1]
  by_cases hnil : args.operands = []
  · simp [hnil]
  · by_cases hdash : dash ∈ args.operands
    · simp [requestsStdin, hnil, hdash]
    · simp [requestsStdin, hnil, hdash]

theorem SafeRun.noneGiven (hstart : start sys args = .ok s₀)
    (hmode : s₀.globals.packetMode = proxyMode) (h : SafeRun sys args s₀) :
    NoneGiven sys args s₀ := by
  obtain ⟨hparse, -, -, -, -⟩ := start_inv hstart
  refine ⟨?_, ?_⟩
  · by_contra hcon
    obtain ⟨hne, hcon⟩ := not_or.mp hcon
    obtain ⟨hdash, hpass⟩ := not_or.mp hcon
    obtain ⟨line, hline⟩ := Option.ne_none_iff_exists'.mp (sharedPasswd_none_iff.not.mp hpass)
    obtain ⟨mac, rest, hops⟩ := List.exists_cons_of_ne_nil hne
    have hphase := start_targets hstart
    rw [if_neg (not_or.mpr ⟨hne, hdash⟩), hops] at hphase
    have hread := (parseArgs_passwd hparse).2
    rw [hline] at hread
    exact h.no_pass .refl hmode (nextCall_target hphase) line hread
  · intro calls s fp r port fp' hs hphase hparse
    have hcall := nextCall_record hphase hparse
    cases hr : r.passwd with
    | none => rfl
    | some pw =>
      have hmode' := (packetMode_run hs).trans hmode
      refine absurd (load_read s r) ?_
      rw [hr]
      exact h.no_pass hs hmode' hcall pw

theorem read_eq_none {pass : Pass} (h : pass.read = .ok none) : pass = .none := by
  cases pass with
  | none => rfl
  | arg | main | prompt | released => cases h

/-- A state of such a run: at an operand, `passwd` holds nothing. -/
structure Asking (s : State) : Prop where
  mode : s.globals.packetMode = proxyMode
  operand : ∀ mac rest, s.phase = .targets (mac :: rest) → s.globals.passwd = .none

theorem NoneGiven.asking_start (hstart : start sys args = .ok s₀)
    (hmode : s₀.globals.packetMode = proxyMode) (h : NoneGiven sys args s₀) : Asking s₀ := by
  refine ⟨hmode, ?_⟩
  intro mac rest hphase
  rw [start_targets hstart] at hphase
  split at hphase
  · cases hphase
  · rename_i hops
    obtain ⟨hnil, hdash⟩ := not_or.mp hops
    have hnone := (h.operands.resolve_left hnil).resolve_left hdash
    have hread := (parseArgs_passwd (start_inv hstart).1).2
    rw [sharedPasswd_none_iff.mp hnone] at hread
    exact read_eq_none hread

/-- A call leaves the caller's pointer as it was when it held nothing. -/
theorem Asking.step (h : Asking s) (hr : callRound sys s = (calls, .next s')) : Asking s' := by
  obtain ⟨-, events, hnext⟩ := callRound_next hr
  cases hnext with
  | @target mac rest o hphase ho =>
    refine ⟨h.mode, fun _ _ _ => ?_⟩
    have hpass := h.operand mac rest hphase
    have hsend : (s.callOf mac).send sys s = .ok o := ho
    rw [send_proxy h.mode] at hsend
    have hafter := sendProxy_pass hsend
    show o.pass = .none
    rw [hafter, State.callOf, hpass]
    rfl
  | stdin | file | record => exact ⟨h.mode, fun _ _ h => by cases h⟩

/-- Every call of such a run is made without a password. -/
theorem NoneGiven.call (hstart : start sys args = .ok s₀)
    (hmode : s₀.globals.packetMode = proxyMode) (h : NoneGiven sys args s₀)
    (hs : Steps (callRound sys) s₀ calls s) (hc : s.nextCall sys = some c) : c.pass = .none := by
  have hask : Asking s :=
    hs.invariant (fun _ _ _ hask hr => hask.step hr) (h.asking_start hstart hmode)
  rcases nextCall_inv hc with
    ⟨mac, rest, hphase, rfl⟩ | ⟨fp, r, port, fp', hphase, hparse, rfl⟩
  · exact hask.operand mac rest hphase
  · have hnone := h.records _ _ _ _ _ _ hs hphase hparse
    show (r.passwd.map Pass.main).getD .none = .none
    rw [hnone]
    rfl

/-- A call without a password does not stop with a fault. -/
theorem send_none_no_fault (hmode : s.globals.packetMode = proxyMode) (hpass : c.pass = .none)
    (f : Fault) : ∀ stop, c.send sys s = .error stop → stop.halt ≠ .fault f := by
  intro stop hstop
  rw [send_proxy hmode, hpass] at hstop
  rw [sendProxy_none_stop hstop]
  simp

/-- A run in which every target is asked for its password stops with no fault but those of
`macfile_parse`. -/
theorem NoneGiven.noError (hstart : start sys args = .ok s₀)
    (hmode : s₀.globals.packetMode = proxyMode) (h : NoneGiven sys args s₀)
    (hs : Steps (callRound sys) s₀ calls s) (hfinal : Final sys s (.fault f)) :
    f ≠ .badFree ∧ f ≠ .useAfterFree := by
  have hmode' := (packetMode_run hs).trans hmode
  generalize hhalt : Halt.fault f = halt at hfinal
  cases hfinal with
  | target hphase hstop =>
    have hpass := h.call hstart hmode hs (nextCall_target hphase)
    exact absurd hhalt.symm (send_none_no_fault hmode' hpass f _ hstop)
  | noSource | unopened | last => cases hhalt
  | parse hphase hparse =>
    cases hhalt
    rw [macfileParse_error hparse]
    exact ⟨by simp, by simp⟩
  | record hphase hparse hstop =>
    have hpass := h.call hstart hmode hs (nextCall_record hphase hparse)
    exact absurd hhalt.symm (send_none_no_fault hmode' hpass f _ hstop)
  | @free fp fp' r port o f' hphase hparse ho hfree =>
    have hpass := h.call hstart hmode hs (nextCall_record hphase hparse)
    have hsend : ((s.load r).callOf r.mac).send sys s = .ok o := ho
    rw [send_proxy hmode', hpass] at hsend
    rw [sendProxy_pass hsend] at hfree
    cases hfree

/-- The call of a target that is asked for its password hashes the line. -/
theorem NoneGiven.authenticated_iff (hstart : start sys args = .ok s₀)
    (hmode : s₀.globals.packetMode = proxyMode) (h : NoneGiven sys args s₀)
    (hs : Steps (callRound sys) s₀ calls s) (hc : s.nextCall sys = some c) (pw : Bytes) :
    (∃ o, c.send sys s = .ok o ∧
        hashed o.events = hashed (proxySend (sys.call s.calls).proxy s.sock c.mac pw).2.1) ↔
      ∃ line, (sys.call s.calls).getpass = some line ∧
        (sizeT (tcpRecv s.sock hexChallenge).1 < hexChallenge ∨ cstr line = cstr pw) := by
  rw [send_proxy ((packetMode_run hs).trans hmode), h.call hstart hmode hs hc]
  cases hline : (sys.call s.calls).getpass with
  | none => simp [sendProxy, hline]
  | some line =>
    obtain ⟨o, ho, hhash⟩ := @sendProxy_asked s.globals (sys.call s.calls) s.magic s.sock c.mac
      c.host c.port line hline
    rw [ho]
    simp [hhash, hashed_same_iff]

theorem SafeRun.allAsked (hstart : start sys args = .ok s₀)
    (hmode : s₀.globals.packetMode = proxyMode) (h : SafeRun sys args s₀) :
    AllAsked sys args s₀ where
  toNoneGiven := h.noneGiven hstart hmode
  typed := by
    intro calls s c hs hc
    obtain ⟨pw, o, htarget, hcall⟩ := h.authenticated calls s c hs hc
    have hiff := (h.noneGiven hstart hmode).authenticated_iff hstart hmode hs hc pw
    obtain ⟨line, hline, hsame⟩ := hiff.mp ⟨o, hcall⟩
    exact ⟨line, pw, hline, htarget, hsame⟩

theorem AllAsked.safeRun (hstart : start sys args = .ok s₀)
    (hmode : s₀.globals.packetMode = proxyMode) (h : AllAsked sys args s₀) :
    SafeRun sys args s₀ where
  noError := fun calls s f hs hdone =>
    h.toNoneGiven.noError hstart hmode hs (mainRound_final hdone)
  authenticated := by
    intro calls s c hs hc
    obtain ⟨line, pw, hline, htarget, hsame⟩ := h.typed calls s c hs hc
    have hiff := h.toNoneGiven.authenticated_iff hstart hmode hs hc pw
    obtain ⟨o, hcall⟩ := hiff.mpr ⟨line, hline, hsame⟩
    exact ⟨pw, o, htarget, hcall⟩
  kept := by
    intro calls s c o pw hs hc _ hread
    rw [h.toNoneGiven.call hstart hmode hs hc] at hread
    cases hread

end Run

/-- **The passwords of proxy mode.** In a proxy-mode run no password is released or read wrongly,
every target is authenticated with the password that is meant for it, and passwords of `main`
outlive the calls, if and only if no target brings a password along, and a line is typed for it that
is the password. -/
theorem safeRun_iff {sys : Sys} {args : CommandLine} {s₀ : State} (h : start sys args = .ok s₀)
    (hmode : s₀.globals.packetMode = proxyMode) :
    SafeRun sys args s₀ ↔ AllAsked sys args s₀ :=
  ⟨fun hsafe => hsafe.allAsked h hmode, fun hall => hall.safeRun h hmode⟩

/-- A proxy with two challenges, and a user who types a NUL behind `pw`. -/
def proxySys : Sys :=
  { exampleSys with gethostbyname := fun _ => some 7,
                    connect := fun _ _ => some (exampleChallenge ++ exampleChallenge),
                    call := fun _ => { exampleCall with getpass := some (ascii "pw" ++ [0, 10]) } }

/-- `wol -s P 1:2:3:4:5:6 bob` -/
def askedArgs : CommandLine :=
  { argc := 5, opts := [.proxy (ascii "P")], operands := [ascii "1:2:3:4:5:6", ascii "bob"] }

/-- The answer to the first challenge is computed from `pw`. -/
theorem safeRun_asked : ∃ s₀, start proxySys askedArgs = .ok s₀ ∧
    s₀.phase = .targets [ascii "1:2:3:4:5:6", ascii "bob"] ∧
    (hashed (mainRound proxySys s₀).1).map (·.drop 22) = [ascii "pw"] ∧
    SafeRun proxySys askedArgs s₀ := by
  have h : start proxySys askedArgs = .ok _ := rfl
  refine ⟨_, h, rfl, by decide +kernel, (safeRun_iff h rfl).mpr ⟨⟨.inr (.inr rfl), ?_⟩, ?_⟩⟩
  · intro calls s fp r port fp' hs hphase _
    obtain ⟨rest, hrest⟩ := no_macfile (start_targets h) rfl rfl hs
    rw [hphase] at hrest
    cases hrest
  · intro calls s c hs _
    obtain ⟨rest, hrest⟩ := no_macfile (start_targets h) rfl rfl hs
    have hpw : targetPasswd proxySys askedArgs s = some (ascii "pw" ++ [0]) := by
      simp only [targetPasswd, recordPasswd, hrest]
      rfl
    exact ⟨_, _, rfl, hpw, .inr (by decide +kernel)⟩

/-- `wol --passwd=pw -s P 1:2:3:4:5:6` -/
def givenArgs : CommandLine :=
  { argc := 5, opts := [.passwd (some (ascii "pw")), .proxy (ascii "P")],
    operands := [ascii "1:2:3:4:5:6"] }

/-- The call for the first target releases a part of the argument vector. -/
theorem not_safeRun_given : ∃ s₀, start proxySys givenArgs = .ok s₀ ∧
    (mainRound proxySys s₀).2 = .done (.fault .badFree) ∧ ¬ SafeRun proxySys givenArgs s₀ := by
  refine ⟨_, rfl, rfl, fun h => ?_⟩
  exact (h.noError [] _ .badFree .refl rfl).1 rfl

end WakeOnLan
