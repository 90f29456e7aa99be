import WakeOnLan.CLib.Tokens
import WakeOnLan.Tally

/-!
# WakeOnLan.Wait

The delay between packets, from the text of `-w` to the system.

* `usleepTimeout`    — `usleep.c`: the time limit that the replacement passes to `select`.
* `WaitsExactly`     — the variable holds the number in microseconds, every call of a run whose
  packet is accepted asks for it, and the system is asked for no other time.
* `parseArgs_msecs`  — the variable behind the options: scanned as unsigned, scaled in 32 bits.
* `sleeps_success`   — a call that returns `0` asks for the delay once, or not at all if it is zero.
* `sleeps_proxy`     — in PROXY mode, a call whose reply is accepted asks for none.
* `waitsExactly_iff` — the numbers and the runs for which this is the delay that is meant.
-/

namespace WakeOnLan

open CLib

/-! ## `usleep` -/

/-- `struct timeval` -/
structure Timeval where
  tvSec : Int64
  tvUsec : Int64
  deriving DecidableEq

def usleepTimeout (usec : UInt64) : Timeval := { tvSec := 0, tvUsec := usec.toInt64 }

/-- The conversion of the `int` to the `unsigned long` of the replacement. -/
def toULong (msecs : UInt32) : UInt64 := msecs.toInt32.toInt64.toUInt64

/-- The duration in microseconds, with the microseconds in their range. -/
structure Timeval.Denotes (t : Timeval) (usec : Nat) : Prop where
  nonneg : 0 ≤ t.tvUsec.toInt
  lt : t.tvUsec.toInt ≤ 999999
  total : t.tvSec.toInt * 1000000 + t.tvUsec.toInt = usec

/-- The time that the system is asked for: by `usleep` itself, whose argument is a `useconds_t` of
32 bits, or by its replacement. -/
def Requests (haveUsleep : Bool) (msecs : UInt32) (usec : Nat) : Prop :=
  if haveUsleep then msecs.toNat = usec else (usleepTimeout (toULong msecs)).Denotes usec

def sleeps (events : List Event) : List UInt32 :=
  events.filterMap fun | .usleep usec => some usec | _ => none

def waitText : Opt → Option Bytes
  | .wait optarg => some optarg
  | _ => none

/-- What is asked of a command line with the last `-w num` and of its runs. -/
structure WaitsExactly (haveUsleep : Bool) (sys : Sys) (args : CommandLine) (g : Globals)
    (num : Nat) : Prop where
  stored : g.msecs.toInt32.toInt = 1000 * num
  delays : ∀ s₀ calls s c, start sys args = .ok s₀ → Steps (callRound sys) s₀ calls s →
    s.nextCall sys = some c → c.Accepted sys s →
    sleeps (c.events sys s) = if num = 0 then [] else [g.msecs]
  returned : ∀ s₀ calls s c o, start sys args = .ok s₀ → Steps (callRound sys) s₀ calls s →
    s.nextCall sys = some c → c.send sys s = .ok o → o.ret = 0 →
    sleeps o.events = if num = 0 then [] else [g.msecs]
  requested : Requests haveUsleep g.msecs (1000 * num)

/-! ## The variable -/

section Scan

variable {ds : Bytes} (hne : ds ≠ []) (hd : ∀ c ∈ ds, isDigit c = true)

include hne hd

theorem scanUnsigned_decimal : scanUnsigned ds none = some (strtoul false (digitsVal 10 ds)) := by
  have hc : cstr ds = ds := by
    apply cstr_eq_self
    rintro c hc rfl
    cases hd 0 hc
  have hscan := scan_unsigned hne hd stops_nil
  rw [List.append_nil] at hscan
  simp only [scanUnsigned, sscanf, hc, scan_cons_ok hscan]
  rfl

theorem parseArgs_msecs {sys : Sys} {args : CommandLine} {g : Globals}
    (h : parseArgs sys.programName sys.getpass args = .ok g)
    (hw : lastOf waitText args.opts = some ds) :
    g.msecs = strtoul false (digitsVal 10 ds) * 1000 := by
  have hof : ∀ o, waitOf o =
      (waitText o).bind fun text => (scanUnsigned text none).map (· * 1000) := by
    intro o
    cases o <;> rfl
  have hlast := lastOf_bind hof hw
    (show _ = some (strtoul false (digitsVal 10 ds) * 1000) by
      rw [scanUnsigned_decimal hne hd]
      rfl)
  rw [(parseArgs_overrides h).1.msecs, hlast]
  rfl

end Scan

theorem toInt_eq_toNat {v : UInt32} (h : v.toNat < 2 ^ 31) : v.toInt32.toInt = v.toNat := by
  show v.toBitVec.toInt = v.toBitVec.toNat
  exact BitVec.toInt_eq_toNat_of_lt (show 2 * v.toNat < 2 ^ 32 by omega)

theorem toInt_lt (v : UInt32) : v.toInt32.toInt < 2 ^ 31 := Int32.toInt_lt _

/-- The scaled number, when it is an `int`. -/
theorem toNat_scaled {num : Nat} (h : num ≤ 2147483) :
    (strtoul false num * 1000).toNat = 1000 * num := by
  rw [strtoul_of_lt (by omega), UInt32.toNat_mul, UInt32.toNat_ofNat']
  show num % 2 ^ 32 * 1000 % 2 ^ 32 = 1000 * num
  omega

/-- Neither the conversion nor the multiplication wraps exactly up to this bound. -/
theorem stored_iff (num : Nat) :
    (strtoul false num * 1000).toInt32.toInt = 1000 * num ↔ num ≤ 2147483 := by
  constructor
  · intro h
    have hlt := toInt_lt (strtoul false num * 1000)
    omega
  · intro h
    have hnat := toNat_scaled h
    rw [toInt_eq_toNat (by omega), hnat]
    rfl

/-! ## The calls -/

theorem sleeps_append (es es' : List Event) : sleeps (es ++ es') = sleeps es ++ sleeps es' :=
  List.filterMap_append

theorem sleeps_report (g : Globals) (mac host : Bytes) (portnum : UInt32) :
    sleeps (report g mac host portnum) = if g.msecs = 0 then [] else [g.msecs] := by
  by_cases h : g.msecs = 0
  · simp [report, sleeps, h]
  · simp [report, sleeps, h]

theorem sleeps_proxySend (env : ProxyEnv) (sock : List Recv) (mac passwd : Bytes) :
    sleeps (proxySend env sock mac passwd).2.1 = [] := by
  by_cases h : sizeT (tcpRecv sock hexChallenge).1 < hexChallenge
  · rw [proxySend_short env mac passwd h]
    rfl
  · simp only [proxySend, if_neg h]
    rfl

/-- A call that returns `0` has reported its packet, and waits behind the report. -/
theorem sleeps_success {g : Globals} {env : Env} {m : Magic} {sock : List Recv} {mac host : Bytes}
    {portnum : UInt32} {pass : Pass} {o : Outcome} (hm : m.WF)
    (h : assembleAndSend g env m sock mac host portnum pass = .ok o) (hret : o.ret = 0) :
    sleeps o.events = if g.msecs = 0 then [] else [g.msecs] := by
  cases returned_of_ok hm h with
  | unassembled | unresolved | refused | unanswered => cases hret
  | udp | raw => exact sleeps_report g mac host portnum
  | answered => rw [sleeps_append, sleeps_proxySend, sleeps_report, List.nil_append]

/-- In PROXY mode a reply that is accepted is reported as a failure, without the delay. -/
theorem sleeps_proxy {sys : Sys} {s : State} {c : Call} (hmode : InProxyMode s.globals)
    (h : c.Accepted sys s) : sleeps (c.events sys s) = [] := by
  obtain ⟨-, hsend⟩ := (accepted_proxy_iff hmode.1 hmode.2).mp h
  have hcall : c.send sys s = sendProxy s.globals (sys.call s.calls) s.magic s.sock c.mac c.host
      c.port c.pass := assembleAndSend_proxy hmode c.pass
  have herr : ∀ pw, (proxySend (sys.call s.calls).proxy s.sock c.mac pw).1 ≠ 0 := by
    intro pw
    rw [proxySend_ret, hsend]
    split <;> decide
  rw [Call.events, hcall]
  cases c.pass with
  | none =>
    cases hline : (sys.call s.calls).getpass with
    | none => simp [sendProxy, hline, callEvents, sleeps]
    | some line =>
      simp only [sendProxy, hline, if_true, Option.map_some, Pass.read, Pass.xfree,
        if_pos (herr _), callEvents, sleeps_append, sleeps_proxySend]
      rfl
  | arg p => exact sleeps_proxySend ..
  | main p | prompt p =>
    simp only [sendProxy, reduceCtorEq, if_false, Pass.read, Pass.xfree, if_pos (herr _),
      callEvents, sleeps_append, sleeps_proxySend]
    rfl
  | released => rfl

/-- No round changes the delay. -/
theorem msecs_run {sys : Sys} {s s' : State} {calls : List Call}
    (hs : Steps (callRound sys) s calls s') : s'.globals.msecs = s.globals.msecs := by
  refine hs.invariant (P := fun s' => s'.globals.msecs = s.globals.msecs) ?_ rfl
  intro s₁ t s₂ hmsecs hr
  obtain ⟨-, events, hnext⟩ := callRound_next hr
  cases hnext with
  | target | stdin | file | record => exact hmsecs

section Run

variable {sys : Sys} {args : CommandLine} {g : Globals}
  (h : parseArgs sys.programName sys.getpass args = .ok g) {s₀ s : State} {calls : List Call}
  {c : Call} {o : Outcome} (hstart : start sys args = .ok s₀)
  (hs : Steps (callRound sys) s₀ calls s)

include h hstart

theorem start_globals : s₀.globals = g := by
  have := (start_inv hstart).1
  rw [h] at this
  exact (Except.ok.inj this).symm

include hs

theorem sleeps_of_run (ho : c.send sys s = .ok o) (hret : o.ret = 0) :
    sleeps o.events = if g.msecs = 0 then [] else [g.msecs] := by
  have hmsecs : s.globals.msecs = g.msecs := by rw [msecs_run hs, start_globals h hstart]
  have hm := magic_run (start_inv hstart).2.2.1 hs
  rw [← hmsecs]
  exact sleeps_success hm ho hret

theorem sleeps_accepted (hacc : c.Accepted sys s) :
    sleeps (c.events sys s) =
      if InProxyMode g then [] else if g.msecs = 0 then [] else [g.msecs] := by
  have hmode : InProxyMode s.globals ↔ InProxyMode g := by
    rw [inProxyMode_run hs, start_globals h hstart]
  have hm := magic_run (start_inv hstart).2.2.1 hs
  split
  · rename_i hproxy
    exact sleeps_proxy (hmode.mpr hproxy) hacc
  · rename_i hproxy
    obtain ⟨htaken, o, ho, -⟩ := hacc.sent hm (hmode.not.mpr hproxy)
    have hret := send_ret hm ho
    rw [if_pos htaken] at hret
    rw [Call.events, ho]
    exact sleeps_of_run h hstart hs ho hret

end Run

/-! ## The bounds -/

theorem usec_toULong (v : UInt32) : (usleepTimeout (toULong v)).tvUsec.toInt = v.toInt32.toInt := by
  simp [usleepTimeout, toULong]

/-- The replacement puts all of the delay into the microseconds. -/
theorem denotes_iff {v : UInt32} {usec : Nat} (h : v.toInt32.toInt = usec) :
    (usleepTimeout (toULong v)).Denotes usec ↔ usec ≤ 999999 := by
  have husec := usec_toULong v
  have hsec : (usleepTimeout (toULong v)).tvSec.toInt = 0 := by
    simp [usleepTimeout]
  constructor
  · intro hden
    have := hden.lt
    omega
  · intro hle
    refine ⟨by omega, by omega, ?_⟩
    rw [hsec]
    omega

/-- **A wait is what it says up to 2147483 milliseconds**, and where the replacement of `usleep` is
compiled in, below one second; and in PROXY mode if it is none, or no reply of the run is
accepted. -/
theorem waitsExactly_iff (haveUsleep : Bool) {sys : Sys} {args : CommandLine} {g : Globals}
    (h : parseArgs sys.programName sys.getpass args = .ok g) {ds : Bytes}
    (hw : lastOf waitText args.opts = some ds) (hne : ds ≠ [])
    (hd : ∀ c ∈ ds, isDigit c = true) :
    WaitsExactly haveUsleep sys args g (digitsVal 10 ds) ↔
      digitsVal 10 ds ≤ 2147483 ∧ (haveUsleep = false → digitsVal 10 ds ≤ 999) ∧
        (InProxyMode g → digitsVal 10 ds = 0 ∨ ∀ s₀ calls s c, start sys args = .ok s₀ →
          Steps (callRound sys) s₀ calls s → s.nextCall sys = some c → ¬ c.Accepted sys s) := by
  have hmsecs := parseArgs_msecs hne hd h hw
  generalize digitsVal 10 ds = num at hmsecs ⊢
  have hstored : g.msecs.toInt32.toInt = 1000 * num ↔ num ≤ 2147483 := by
    rw [hmsecs]
    exact stored_iff num
  constructor
  · intro hexact
    refine ⟨hstored.mp hexact.stored, ?_, ?_⟩
    · rintro rfl
      have hint : g.msecs.toInt32.toInt = (1000 * num : Nat) := by exact_mod_cast hexact.stored
      have hlt := (denotes_iff hint).mp hexact.requested
      omega
    · intro hproxy
      by_contra hcon
      obtain ⟨hnum, hcalls⟩ := not_or.mp hcon
      apply hcalls
      intro s₀ calls s c hstart hs hc hacc
      have hsleeps := hexact.delays s₀ calls s c hstart hs hc hacc
      rw [sleeps_accepted h hstart hs hacc, if_pos hproxy, if_neg hnum] at hsleeps
      cases hsleeps
  · rintro ⟨hmax, hsecond, hproxy⟩
    have hint := hstored.mpr hmax
    have hnat : g.msecs.toNat = 1000 * num := by
      rw [hmsecs]
      exact toNat_scaled hmax
    have hzero : g.msecs = 0 ↔ num = 0 := by
      rw [← UInt32.toNat_inj, hnat]
      show 1000 * num = 0 ↔ num = 0
      omega
    refine ⟨hint, ?_, ?_, ?_⟩
    · intro s₀ calls s c hstart hs hc hacc
      rw [sleeps_accepted h hstart hs hacc]
      by_cases hmode : InProxyMode g
      · rw [if_pos hmode]
        rcases hproxy hmode with hnum | hnone
        · rw [if_pos hnum]
        · exact absurd hacc (hnone s₀ calls s c hstart hs hc)
      · rw [if_neg hmode]
        simp only [hzero]
    · intro s₀ calls s c o hstart hs _ ho hret
      rw [sleeps_of_run h hstart hs ho hret]
      simp only [hzero]
    · cases haveUsleep with
      | true => exact hnat
      | false =>
        have hlt := hsecond rfl
        have hint' : g.msecs.toInt32.toInt = (1000 * num : Nat) := by exact_mod_cast hint
        exact (denotes_iff hint').mpr (by omega)

/-- `wol -w NUM bob` -/
def waitArgs (num : String) : CommandLine :=
  { argc := 4, opts := [.wait (ascii num)], operands := [ascii "bob"] }

theorem waitsExactly_250 :
    ∃ g, parseArgs exampleSys.programName exampleSys.getpass (waitArgs "250") = .ok g ∧
      WaitsExactly false exampleSys (waitArgs "250") g (digitsVal 10 (ascii "250")) := by
  refine ⟨{ msecs := 250000 }, by decide +kernel, ?_⟩
  exact (waitsExactly_iff false (by decide +kernel) (show _ = some (ascii "250") from rfl)
    (by decide) (List.all_eq_true.mp rfl)).mpr
      ⟨by decide, by decide, fun hmode => absurd hmode.1 (by decide)⟩

/-- `wol -w 250 -s P 1:2:3:4:5:6` -/
def waitProxyArgs : CommandLine :=
  { argc := 6, opts := [.wait (ascii "250"), .proxy (ascii "P")],
    operands := [ascii "1:2:3:4:5:6"] }

/-- `-w 4294968` waits 704 microseconds, `-w 1000` in the replacement asks for a million
microseconds behind no seconds, and in PROXY mode there is no delay behind an accepted reply. -/
theorem not_waitsExactly_4294968 :
    (∃ g, parseArgs exampleSys.programName exampleSys.getpass (waitArgs "4294968") = .ok g ∧
      g.msecs = 704 ∧
      ¬ WaitsExactly true exampleSys (waitArgs "4294968") g (digitsVal 10 (ascii "4294968"))) ∧
    (∃ g, parseArgs exampleSys.programName exampleSys.getpass (waitArgs "1000") = .ok g ∧
      usleepTimeout (toULong g.msecs) = ⟨0, 1000000⟩ ∧
      ¬ WaitsExactly false exampleSys (waitArgs "1000") g (digitsVal 10 (ascii "1000"))) ∧
    ∃ g, parseArgs proxySys.programName proxySys.getpass waitProxyArgs = .ok g ∧
      ¬ WaitsExactly true proxySys waitProxyArgs g (digitsVal 10 (ascii "250")) := by
  refine ⟨⟨{ msecs := 704 }, by decide +kernel, rfl, ?_⟩,
    ⟨{ msecs := 1000000 }, by decide +kernel, by decide, ?_⟩,
    ⟨{ msecs := 250000, packetMode := proxyMode, hostStr := ascii "P" }, by decide +kernel, ?_⟩⟩
  · intro h
    exact absurd h.stored (by decide)
  · intro h
    exact absurd h.requested.lt (by decide)
  · intro h
    let s₀ : State :=
      { phase := .targets [ascii "1:2:3:4:5:6"],
        globals := { msecs := 250000, packetMode := proxyMode, hostStr := ascii "P" },
        magic := magicCreate (fun _ => 0) false, sock := exampleChallenge ++ exampleChallenge,
        ret := 0, calls := 0 }
    have hproxy : InProxyMode s₀.globals := by decide
    have hacc : (s₀.callOf (ascii "1:2:3:4:5:6")).Accepted proxySys s₀ :=
      (accepted_proxy_iff hproxy.1 hproxy.2).mpr ⟨by decide +kernel, rfl⟩
    have hsleeps := h.delays s₀ [] s₀ _ rfl .refl rfl hacc
    rw [sleeps_proxy hproxy hacc] at hsleeps
    exact absurd hsleeps (by decide)

end WakeOnLan
