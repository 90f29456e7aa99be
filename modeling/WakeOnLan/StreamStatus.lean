import WakeOnLan.Targets

/-!
# WakeOnLan.StreamStatus

What the exit status says about the stream that the records come from.

* `AtReadError`  — `macfile_parse` runs into a read error.
* `AllSent`      — every operand and every record of the stream was reached and accepted.
* `HonestStatus` — a read error gives no status `0`, and a stream that was all sent does.
* `honestStatus_iff` — when the status is honest.
-/

namespace WakeOnLan

open CLib

/-! ## Honest exit statuses -/

/-- `macfile_parse` returns because of a read error. -/
def AtReadError (sys : Sys) (s : State) : Prop :=
  ∃ fp port fp', s.phase = .macfile fp ∧
    macfileParse (sys.junk s.calls) fp = .ok ⟨none, port, fp'⟩ ∧ fp'.ferror = true

/-- The operands that are left. -/
def State.operands (s : State) : List Bytes :=
  match s.phase with
  | .targets rest => rest
  | .macfile _ => []

/-- The number of the targets of a run. -/
def targetCount (s₀ : State) (content : Bytes) : Nat :=
  s₀.operands.length + (records content).length

/-- Every target gets its turn and is accepted. -/
structure AllSent (sys : Sys) (s₀ : State) (content : Bytes) : Prop where
  fits : ∀ line ∈ lines content, HostFits line
  accepted : ∀ i < targetCount s₀ content, ∃ calls s c, Steps (callRound sys) s₀ calls s ∧
    s.calls = i ∧ s.nextCall sys = some c ∧ c.Accepted sys s

/-- A read error is not taken for the end of the targets, and with all of them sent the status
is `0`. -/
structure HonestStatus (sys : Sys) (args : CommandLine) (s₀ : State) (content : Bytes)
    (ending : Ending) : Prop where
  error : ending = .error → ∀ events, ¬ Runs sys args events (.exit 0)
  eof : ending = .eof → AllSent sys s₀ content → ∃ events, Runs sys args events (.exit 0)

section StreamStatus

variable {sys : Sys} {s s' s₀ : State} {c : Call} {events : List Event}
  {calls : List Call} {targets : List Bytes} {src : Source} {content : Bytes} {ending : Ending}
  {tally : List Bool}

/-! ## Read errors -/

/-- A stream with a read error ends with status `0` exactly where the error is met while `ret` is
`0`. -/
theorem error_zero_iff (hopen : src.opened sys = some (fopened content .error))
    (h₀ : Tallied src .error [] s₀) :
    (∃ events, Exec (mainRound sys) s₀ events (.exit 0)) ↔ ∃ tally s,
      Steps (tallyRound sys) s₀ tally s ∧ AtReadError sys s ∧ 2 ^ 32 ∣ tally.count false := by
  constructor
  · rintro ⟨events, he⟩
    obtain ⟨_, s, hs, hdone⟩ := he.final
    obtain ⟨tally, ht⟩ := hs.observe (tallyRound sys) fun _ => rfl
    have h := tallied_run hopen h₀ ht
    obtain ⟨⟨fp, port, fp', hphase, hparse⟩, hret⟩ := final_zero h.source hdone
    have hferr := (macfileParse_ending hparse).2 rfl (h.stream fp hphase)
    exact ⟨tally, s, ht, ⟨fp, port, fp', hphase, hparse, hferr⟩, h.ret_eq_zero_iff.mp hret⟩
  · rintro ⟨tally, s, ht, ⟨fp, port, fp', hphase, hparse, -⟩, hdvd⟩
    obtain ⟨_, hs⟩ := ht.observe (mainRound sys) fun _ => rfl
    have hret := (tallied_run hopen h₀ ht).ret_eq_zero_iff.mpr hdvd
    exact Exec.of_final hs (mainRound_last hphase hparse hret)

/-! ## Where a run is in its stream -/

theorem calls_run (hs : Steps (callRound sys) s calls s') : s'.calls = s.calls + calls.length := by
  have hstep : ∀ calls s₁ t s₂, s₁.calls = s.calls + calls.length →
      callRound sys s₁ = (t, .next s₂) → s₂.calls = s.calls + (calls ++ t).length := by
    intro calls s₁ t s₂ h hr
    obtain ⟨rfl, events, hnext⟩ := callRound_next hr
    cases hc : s₁.nextCall sys with
    | none => simpa [(next_no_call hnext hc).2.2] using h
    | some c =>
      obtain ⟨_, -, -, -, hcalls⟩ := next_call hnext hc
      simp [hcalls, h, Nat.add_assoc]
  have h₀ : s.calls = s.calls + ([] : List Call).length := rfl
  exact hs.invariant_log hstep h₀

/-- Two states before a call, after as many calls, are the same. -/
theorem same_state {calls' : List Call} {c' : Call} (hs : Steps (callRound sys) s₀ calls s)
    (hs' : Steps (callRound sys) s₀ calls' s') (hc : s.nextCall sys = some c)
    (hc' : s'.nextCall sys = some c') (hcalls : s.calls = s'.calls) : s = s' := by
  have hone : ∀ {s s' : State} {c : Call} {t : List Call}, s.nextCall sys = some c →
      s.calls = s'.calls → Steps (callRound sys) s t s' → s = s' := by
    intro s s' c t hc hcalls hs
    have hrun := calls_run hs
    cases hs with
    | refl => rfl
    | cons hr _ =>
      obtain ⟨rfl, -⟩ := callRound_next hr
      rw [hc] at hrun
      simp only [Option.toList_some, List.length_append, List.length_singleton] at hrun
      omega
  rcases hs.linear hs' with ⟨t, h⟩ | ⟨t, h⟩
  · exact hone hc hcalls h
  · exact (hone hc' hcalls.symm h).symm

/-- Before a call, fewer calls have been made than there are targets. -/
theorem progress_call (h : Progress sys targets (some src) calls s)
    (hopen : src.opened sys = some (fopened content .eof)) (hmac : Macfile content)
    (hc : s.nextCall sys = some c) : calls.length < targets.length + (records content).length := by
  cases h with
  | @targets _ rest _ hphase htargets _ _ =>
    rcases nextCall_inv hc with ⟨mac, rest', hphase', -⟩ | ⟨fp, _, _, _, hphase', -, -⟩
    · rw [hphase] at hphase'
      cases hphase'
      simp only [htargets, List.length_append, List.length_map, List.length_cons]
      omega
    · rw [hphase] at hphase'
      cases hphase'
  | @records calls calls' src' fp rs rd _ htargets hsource hopen' hsteps hrecords hphase hjunk =>
    cases hsource
    rw [hopen] at hopen'
    cases hopen'
    rcases nextCall_inv hc with ⟨mac, rest', hphase', -⟩ | ⟨fp, r, port, fp', hphase', hparse, -⟩
    · rw [hphase] at hphase'
      cases hphase'
    · rw [hphase] at hphase'
      cases hphase'
      have hround : readRound rd = ([r], .next ⟨fun n => rd.junk (n + 1), fp'⟩) := by
        apply readRound_record
        rw [hjunk]
        exact hparse
      have hread := (exec_macfile hmac (fun n => sys.junk (targets.length + n))).mpr ⟨rfl, rfl⟩
      obtain ⟨rs', hrs, -⟩ := hread.split (hsteps.snoc hround)
      have hlen := congrArg List.length hrecords
      simp only [List.length_map] at hlen
      simp only [hrs, htargets, List.length_append, List.length_map, List.length_singleton, hlen]
      omega

/-! ## All targets sent -/

/-- Every call of a run whose targets were all sent is accepted. -/
theorem AllSent.call (hall : AllSent sys s₀ content) (hterm : NewlineTerminated content)
    (hphase : s₀.phase = .targets s₀.operands) (hsource : s₀.source = some src)
    (hopen : src.opened sys = some (fopened content .eof)) (hcalls : s₀.calls = 0)
    (hs : Steps (callRound sys) s₀ calls s) (hc : s.nextCall sys = some c) :
    c.Accepted sys s := by
  have hlt := progress_call (progress_run hphase hsource hcalls hs) hopen ⟨hterm, hall.fits⟩ hc
  have hlen : s.calls = calls.length := by
    rw [calls_run hs, hcalls, Nat.zero_add]
  obtain ⟨calls', s', c', hs', hcalls', hc', hacc⟩ := hall.accepted s.calls (hlen ▸ hlt)
  obtain rfl := same_state hs hs' hc hc' hcalls'.symm
  rw [hc] at hc'
  cases hc'
  exact hacc

/-- A run from its first operand, with an error-free stream behind the last. -/
structure FromStream (sys : Sys) (src : Source) (content : Bytes) (s₀ : State) : Prop where
  opened : src.opened sys = some (fopened content .eof)
  tallied : Tallied src .eof [] s₀
  phase : s₀.phase = .targets s₀.operands

theorem FromStream.no_calls (h : FromStream sys src content s₀) : s₀.calls = 0 := h.tallied.calls

theorem FromStream.progress (h : FromStream sys src content s₀)
    (hs : Steps (callRound sys) s₀ calls s) : Progress sys s₀.operands (some src) calls s :=
  progress_run h.phase h.tallied.source h.no_calls hs

theorem FromStream.call (h : FromStream sys src content s₀) (hall : AllSent sys s₀ content)
    (hterm : NewlineTerminated content) (hs : Steps (callRound sys) s₀ calls s)
    (hc : s.nextCall sys = some c) : c.Accepted sys s :=
  hall.call hterm h.phase h.tallied.source h.opened h.no_calls hs hc

/-- The targets that were not taken, when all were sent: in PROXY mode all, and else none. -/
theorem FromStream.count_false (h : FromStream sys src content s₀)
    (hall : AllSent sys s₀ content) (hterm : NewlineTerminated content)
    (hs : Steps (tallyRound sys) s₀ tally s) :
    (InProxyMode s₀.globals → tally.count false = tally.length) ∧
      (¬ InProxyMode s₀.globals → tally.count false = 0) := by
  have hacc : ∀ t s c, Steps (tallyRound sys) s₀ t s → s.nextCall sys = some c →
      s.magic.WF ∧ (InProxyMode s.globals ↔ InProxyMode s₀.globals) ∧ c.Accepted sys s := by
    intro t s c ht hc
    obtain ⟨calls, hs⟩ := ht.observe (callRound sys) fun _ => rfl
    exact ⟨(tallied_run h.opened h.tallied ht).magic, inProxyMode_run hs, h.call hall hterm hs hc⟩
  constructor
  · intro hmode
    rw [List.count_eq_length]
    intro x hx
    refine (tally_const hs (fun t s c ht hc => ?_) x hx).symm
    obtain ⟨-, hiff, hacc⟩ := hacc t s c ht hc
    exact hacc.not_taken (hiff.mpr hmode)
  · intro hmode
    rw [List.count_eq_zero]
    intro hx
    have htrue : false = true := tally_const hs (fun t s c ht hc => ?_) false hx
    · cases htrue
    · obtain ⟨hm, hiff, hacc⟩ := hacc t s c ht hc
      exact (hacc.sent hm (hiff.not.mpr hmode)).1

/-- At the end of its stream a run has made a call for every target. -/
theorem FromStream.count_calls (h : FromStream sys src content s₀) (hmac : Macfile content)
    (hs : Steps (callRound sys) s₀ calls s) {fp fp' : File} {port : UInt32}
    (hphase : s.phase = .macfile fp)
    (hparse : macfileParse (sys.junk s.calls) fp = .ok ⟨none, port, fp'⟩) :
    s.calls = targetCount s₀ content := by
  obtain ⟨-, cs, cs', rfl, htargets, hrecords⟩ := (h.progress hs).at_end h.opened hphase hparse
  have hlen := congrArg List.length hrecords
  simp only [List.length_map] at hlen
  rw [calls_run hs, h.no_calls, Nat.zero_add, targetCount, htargets, records,
    ← wholeLines_eq hmac.terminated, List.length_append, List.length_map, hlen]

/-- When all targets were sent no call stops the run, if in PROXY mode they all come back. -/
theorem FromStream.unstopped (h : FromStream sys src content s₀) (hall : AllSent sys s₀ content)
    (hterm : NewlineTerminated content)
    (hproxy : InProxyMode s₀.globals → ∀ calls s c, Steps (callRound sys) s₀ calls s →
      s.nextCall sys = some c → c.ComesBack sys s) : Unstopped sys s₀ := by
  intro calls s c hs hc
  by_cases hmode : InProxyMode s.globals
  · rw [comesBack_iff hmode hc]
    exact hproxy ((inProxyMode_run hs).mp hmode) calls s c hs hc
  · exact goes_on_of_accepted (magic_run h.tallied.magic hs) hmode hc (h.call hall hterm hs hc)

/-- When all targets of an error-free stream were sent, the run ends with status `0` if and only if
its last line is terminated, and in PROXY mode moreover all calls come back and the failures
that are counted wrap around to `0`. -/
theorem FromStream.zero_iff (h : FromStream sys src content s₀) (hall : AllSent sys s₀ content) :
    (∃ events, Exec (mainRound sys) s₀ events (.exit 0)) ↔
      NewlineTerminated content ∧ (InProxyMode s₀.globals → 2 ^ 32 ∣ targetCount s₀ content ∧
        ∀ calls s c, Steps (callRound sys) s₀ calls s → s.nextCall sys = some c →
          c.ComesBack sys s) := by
  constructor
  · rintro ⟨events, he⟩
    obtain ⟨_, s, hs, hdone⟩ := he.final
    obtain ⟨calls, hcalls⟩ := hs.observe (callRound sys) fun _ => rfl
    obtain ⟨tally, htally⟩ := hs.observe (tallyRound sys) fun _ => rfl
    have ht := tallied_run h.opened h.tallied htally
    obtain ⟨⟨fp, port, fp', hphase, hparse⟩, hret⟩ := final_zero ht.source hdone
    obtain ⟨hgood, -⟩ := (h.progress hcalls).at_end h.opened hphase hparse
    have hterm : NewlineTerminated content := hgood.ends.resolve_right nofun
    refine ⟨hterm, fun hmode => ⟨?_, ?_⟩⟩
    · have hdvd := ht.ret_eq_zero_iff.mp hret
      rwa [(h.count_false hall hterm htally).1 hmode, ← ht.calls,
        h.count_calls ⟨hterm, hall.fits⟩ hcalls hphase hparse] at hdvd
    · intro calls' s' c hs' hc
      rw [← comesBack_iff ((inProxyMode_run hs').mpr hmode) hc]
      obtain ⟨_, hmain⟩ := hs'.observe (mainRound sys) fun _ => rfl
      obtain ⟨tally', htally'⟩ := hs'.observe (tallyRound sys) fun _ => rfl
      obtain ⟨_, -, he'⟩ := he.split hmain
      exact exec_goes_on he' (tallied_run h.opened h.tallied htally').source hc
  · rintro ⟨hterm, hproxy⟩
    have hgoes := h.unstopped hall hterm fun hmode => (hproxy hmode).2
    have hmac : Macfile content := ⟨hterm, hall.fits⟩
    obtain ⟨calls, s, fp, fp', port, hs, hphase, hparse⟩ :=
      run_end h.tallied.source h.opened h.phase hmac.good hgoes
    obtain ⟨tally, htally⟩ := hs.observe (tallyRound sys) fun _ => rfl
    obtain ⟨_, hmain⟩ := hs.observe (mainRound sys) fun _ => rfl
    have ht := tallied_run h.opened h.tallied htally
    have hcount := h.count_false hall hterm htally
    have hdvd : 2 ^ 32 ∣ tally.count false := by
      by_cases hmode : InProxyMode s₀.globals
      · rw [hcount.1 hmode, ← ht.calls, h.count_calls hmac hs hphase hparse]
        exact (hproxy hmode).1
      · rw [hcount.2 hmode]
        exact Nat.dvd_zero _
    exact Exec.of_final hmain (mainRound_last hphase hparse (ht.ret_eq_zero_iff.mpr hdvd))

/-- **What the exit status says of the stream.** A run that reads its records from a stream does not
end with status `0` behind a read error, and does so when an error-free stream was all sent, if and
only if: wherever it meets a read error, the number of targets before it that were not taken
is not a multiple of `2 ^ 32`; and an error-free stream that was all sent ends in a newline, and in
PROXY mode, moreover, the number of its targets is such a multiple and every call comes back. -/
theorem honestStatus_iff {args : CommandLine} (h : start sys args = .ok s₀)
    (hsource : s₀.source = some src) (hopen : src.opened sys = some (fopened content ending)) :
    HonestStatus sys args s₀ content ending ↔
      (ending = .error → ∀ tally s, Steps (tallyRound sys) s₀ tally s → AtReadError sys s →
        ¬ 2 ^ 32 ∣ tally.count false) ∧
      (ending = .eof → AllSent sys s₀ content → NewlineTerminated content ∧
        (InProxyMode s₀.globals → 2 ^ 32 ∣ targetCount s₀ content ∧
          ∀ calls s c, Steps (callRound sys) s₀ calls s → s.nextCall sys = some c →
            c.ComesBack sys s)) := by
  have hruns : ∀ events, Runs sys args events (.exit 0) ↔
      Exec (mainRound sys) s₀ events (.exit 0) := by
    intro events
    simp only [Runs, h]
  have htallied : Tallied src ending [] s₀ := start_tallied h hsource
  have hphase : s₀.phase = .targets s₀.operands := by
    rw [State.operands, (start_inv h).2.1]
  have herror : ending = .error → ((∀ events, ¬ Runs sys args events (.exit 0)) ↔
      ∀ tally s, Steps (tallyRound sys) s₀ tally s → AtReadError sys s →
        ¬ 2 ^ 32 ∣ tally.count false) := by
    rintro rfl
    have hiff := (error_zero_iff hopen htallied).not
    simp only [not_exists, not_and] at hiff
    simpa only [hruns] using hiff
  have heof : ending = .eof → AllSent sys s₀ content →
      ((∃ events, Runs sys args events (.exit 0)) ↔ NewlineTerminated content ∧
        (InProxyMode s₀.globals → 2 ^ 32 ∣ targetCount s₀ content ∧
          ∀ calls s c, Steps (callRound sys) s₀ calls s → s.nextCall sys = some c →
            c.ComesBack sys s)) := by
    rintro rfl hall
    simp only [hruns]
    exact FromStream.zero_iff ⟨hopen, htallied, hphase⟩ hall
  constructor
  · intro hhonest
    exact ⟨fun hend => (herror hend).mp (hhonest.error hend),
      fun hend hall => (heof hend hall).mp (hhonest.eof hend hall)⟩
  · rintro ⟨hread, hsent⟩
    exact ⟨fun hend => (herror hend).mpr (hread hend),
      fun hend hall => (heof hend hall).mpr (hsent hend hall)⟩

end StreamStatus

/-- `wol -` -/
def stdinArgs : CommandLine := { argc := 2, opts := [], operands := [dash] }

def stdinSys (content : Bytes) (ending : Ending) : Sys :=
  { acceptingSys with stdin := (content, ending) }

/-- The state before the first target of `wol -`. -/
def stdinStart : State :=
  { phase := .targets [], globals := { requestStdin := true },
    magic := magicCreate (fun _ => 0) false, sock := [], ret := 0, calls := 0 }

theorem honestStatus_one_line :
    HonestStatus (stdinSys (ascii "0:0:0:0:0:9 lab\n") .eof) stdinArgs stdinStart
      (ascii "0:0:0:0:0:9 lab\n") .eof :=
  (honestStatus_iff rfl (show stdinStart.source = some .stdin from rfl) rfl).mpr
    ⟨nofun, fun _ _ => ⟨by decide, fun hmode => absurd hmode.1 (by decide)⟩⟩

/-- The state before the first record of `wol -`. -/
def stdinOpened (content : Bytes) (ending : Ending) : State :=
  { stdinStart with phase := .macfile (fopened content ending) }

theorem steps_stdinOpened (content : Bytes) (ending : Ending) :
    Steps (callRound (stdinSys content ending)) stdinStart [] (stdinOpened content ending) := by
  have hround : mainRound (stdinSys content ending) stdinStart =
      ([], .next (stdinOpened content ending)) := mainRound_open rfl rfl rfl
  exact .cons (callRound_of_next hround) .refl

/-- A read error inside the only line: its target is not sent, and the status is `0`. And the only
line is sent, but has no newline: the run does not end. -/
theorem not_honestStatus_lab :
    (¬ HonestStatus (stdinSys (ascii "0:0:0:0:0:9 lab") .error) stdinArgs stdinStart
      (ascii "0:0:0:0:0:9 lab") .error) ∧
    ¬ HonestStatus (stdinSys (ascii "0:0:0:0:0:9 lab") .eof) stdinArgs stdinStart
      (ascii "0:0:0:0:0:9 lab") .eof := by
  constructor
  · intro h
    have hparse : macfileParse freshOuts (fopened (ascii "0:0:0:0:0:9 lab") .error) =
        .ok ⟨none, 0, (fopened (ascii "0:0:0:0:0:9 lab") .error).hitEnd⟩ := by
      simp only [macfileParse, macfileLoop_tail (show 10 ∉ ascii "0:0:0:0:0:9 lab" by decide)
        (by decide)]
      decide +kernel
    obtain ⟨_, hs⟩ := (steps_stdinOpened (ascii "0:0:0:0:0:9 lab") .error).observe
      (mainRound _) fun _ => rfl
    obtain ⟨events, he⟩ := Exec.of_final hs (mainRound_last rfl hparse rfl)
    exact h.error rfl events he
  · intro h
    have hparse : macfileParse freshOuts (fopened (ascii "0:0:0:0:0:9 lab") .eof) =
        .ok ⟨some ⟨ascii "0:0:0:0:0:9", ascii "lab", 0, none⟩, 0,
          (fopened (ascii "0:0:0:0:0:9 lab") .eof).hitEnd⟩ := by
      simp only [macfileParse, macfileLoop_tail (show 10 ∉ ascii "0:0:0:0:0:9 lab" by decide)
        (by decide)]
      decide +kernel
    have hpacket : packetOf (fun _ => none) (ascii "0:0:0:0:0:9") none =
        some (magicPacket ⟨[0, 0, 0, 0, 0, 9], rfl⟩ none) := by decide +kernel
    have hall : AllSent (stdinSys (ascii "0:0:0:0:0:9 lab") .eof) stdinStart
        (ascii "0:0:0:0:0:9 lab") := by
      refine ⟨by decide +kernel, fun i hi => ?_⟩
      have hcount : targetCount stdinStart (ascii "0:0:0:0:0:9 lab") = 1 := by decide +kernel
      obtain rfl : i = 0 := by omega
      refine ⟨_, _, _, steps_stdinOpened _ _, rfl, nextCall_record rfl hparse, ?_⟩
      exact .udp (by decide) rfl hpacket rfl rfl
    have hstart : start (stdinSys (ascii "0:0:0:0:0:9 lab") .eof) stdinArgs = .ok stdinStart := rfl
    have hfrom : FromStream (stdinSys (ascii "0:0:0:0:0:9 lab") .eof) .stdin
        (ascii "0:0:0:0:0:9 lab") stdinStart := ⟨rfl, start_tallied hstart rfl, rfl⟩
    have hterm := (hfrom.zero_iff hall).mp (h.eof rfl hall)
    exact absurd hterm.1 (by decide)

end WakeOnLan
