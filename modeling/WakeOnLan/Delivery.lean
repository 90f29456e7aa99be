import WakeOnLan.MagicSyntax
import WakeOnLan.NicFake
import WakeOnLan.Trace

/-!
# WakeOnLan.Delivery

From the command line to the cards.

* `datagrams_trace` — the datagrams of a run, target by target.
* `WakeTarget.Means`    — the target names the card.
* `mainRuns_wakes`  — what a card lets pass of a run.
* `nicFake_run`     — the run that `check/nic-fake.py` starts, and what its card makes of it.
-/

namespace WakeOnLan

open CLib NicFake

/-! ## The datagrams of the targets -/

/-- A destination as it is seen in `datagrams`. -/
def SockAddr.seen : SockAddr → Option (InAddr × Nat)
  | .inet addr port => some (addr, port.toNat)
  | .packet => none

def WakeTarget.datagram (g : Globals) (env : Env) (t : WakeTarget) :
    Option (Option (InAddr × Nat) × Bytes) :=
  match packetOf env.ethers t.mac t.passwd, t.dest g env with
  | some packet, some dest => some (dest.seen, packet)
  | _, _ => none

section Datagrams

variable {sys : Sys} {g : Globals} {env : Env} {t : WakeTarget}

theorem datagrams_sendto (dest : SockAddr) (packet : Bytes) (es : List Event) :
    datagrams (.sendto dest packet :: es) = (dest.seen, packet) :: datagrams es := by
  cases dest with
  | inet addr port => rfl
  | packet => rfl

theorem datagrams_attempt :
    datagrams (t.attempt g env).events = (t.datagram g env).toList := by
  cases hpk : packetOf env.ethers t.mac t.passwd with
  | none =>
    simp only [WakeTarget.attempt, WakeTarget.datagram, hpk]
    rfl
  | some packet =>
    cases hdest : t.dest g env with
    | none =>
      simp only [WakeTarget.attempt, WakeTarget.datagram, hpk, hdest]
      rfl
    | some dest =>
      simp only [WakeTarget.attempt, WakeTarget.datagram, hpk, hdest]
      split
      · rw [datagrams_sendto]
        rfl
      · rw [datagrams_sendto, datagrams_report]
        rfl

theorem wakeTrials_eq_map (g : Globals) (call : Nat → Env) (n : Nat) (ts : List WakeTarget) :
    wakeTrials g call n ts = (ts.zipIdx n).map fun x => x.1.attempt g (call x.2) := by
  induction ts generalizing n with
  | nil => rfl
  | cons t ts ih => rw [wakeTrials, ih, List.zipIdx_cons, List.map_cons]

/-- One datagram for each target that has a packet and a destination, in their order. -/
theorem datagrams_trace (sys : Sys) (g : Globals) (ts : List WakeTarget) :
    datagrams (traceOf sys g ts) =
      ts.zipIdx.filterMap fun x => x.1.datagram g (sys.call x.2) := by
  rw [traceOf, wakeTrials_eq_map, shown]
  induction ts.zipIdx with
  | nil => rfl
  | cons x xs ih =>
    rw [List.map_cons, List.flatMap_cons, datagrams_append, ih, datagrams_attempt,
      filterMap_cons_toList]

theorem datagrams_diagnostics {programName : Bytes} {getpass : Option Bytes}
    (found : List Found) (p : Parse) :
    datagrams (diagnostics programName getpass found p) = [] := by
  induction found generalizing p with
  | nil => rfl
  | cons f fs ih =>
    have hprinted : datagrams (diagnostic f.printed) = [] := by
      rw [diagnostic]
      split
      · rfl
      · rfl
    rw [diagnostics, datagrams_append, hprinted, List.nil_append]
    split
    · rfl
    · split
      · rfl
      · exact ih _

theorem Feed.no_datagrams {n : Nat} {source : Option Source} {rs : List Record}
    {tail : List Event} {stop : Nat → Halt} (h : Feed sys n source rs tail stop) :
    datagrams tail = [] := by
  cases h with
  | none => rfl
  | unopened => rfl
  | read => rfl

end Datagrams

/-! ## What a card lets pass -/

/-- The target names the card with the address `b` and the password `q`. -/
def WakeTarget.Means (env : Env) (t : WakeTarget) (b q : Octets) : Prop :=
  addressOf env.ethers t.mac = some b ∧ ∀ text ∈ t.passwd, passwordOf text = some q

instance (env : Env) (t : WakeTarget) (b q : Octets) : Decidable (t.Means env b q) :=
  inferInstanceAs (Decidable (_ ∧ _))

/-- The card lets the datagram pass. -/
def wakes (b q : Octets) (datagram : Bytes) : Bool :=
  (waitForPacket (ints b) (ints q) datagram).exit == none

theorem wakes_iff {env : Env} {t : WakeTarget} {packet : Bytes} (b q : Octets)
    (h : packetOf env.ethers t.mac t.passwd = some packet) :
    wakes b q packet = true ↔ t.Means env b q := by
  rw [wakes, beq_iff_eq]
  obtain ⟨mac, host, port, passwd⟩ := t
  cases passwd with
  | none =>
    obtain ⟨a, ha, rfl⟩ := Option.map_eq_some_iff.mp h
    rw [magicPacket_iff]
    simp [WakeTarget.Means, ha]
  | some text =>
    simp only [packetOf] at h
    split at h
    · rename_i a o ha ho
      cases h
      rw [magicPacket_iff]
      simp [WakeTarget.Means, ha, ho]
    · cases h

/-- Of the datagrams of a run in UDP or RAW mode a card lets pass those of the targets that name it,
each once and in their order. -/
theorem mainRuns_wakes {sys : Sys} {posixlyCorrect : Bool} {args : List Bytes} {s₀ : State}
    (hstart : start sys (commandLine posixlyCorrect sys.programName args) = .ok s₀)
    (hmode : ¬ InProxyMode s₀.globals) {events : List Event} {halt : Halt}
    (h : MainRuns sys posixlyCorrect args events halt) :
    ∃ ts rs tail stop,
      ts = operandTargets sys (commandLine posixlyCorrect sys.programName args) s₀.globals ∧
      Feed sys ts.length s₀.source rs tail stop ∧
      ∀ b q, (datagrams events).filter (fun d => wakes b q d.2) =
        ((ts ++ rs.map Record.target).zipIdx.filter fun x =>
          x.1.Means (sys.call x.2) b q).filterMap fun x =>
            x.1.datagram s₀.globals (sys.call x.2) := by
  obtain ⟨events', hruns, rfl⟩ := h.runs
  obtain ⟨rs, tail, stop, hfeed, rfl, -⟩ := (runs_trace hstart hmode _ _).mp hruns
  refine ⟨_, rs, tail, stop, rfl, hfeed, fun b q => ?_⟩
  rw [datagrams_append, datagrams_append, datagrams_diagnostics, hfeed.no_datagrams,
    List.nil_append, List.append_nil, datagrams_trace, List.filter_filterMap,
    List.filterMap_filter]
  refine List.filterMap_congr fun x _ => ?_
  cases hd : x.1.datagram s₀.globals (sys.call x.2) with
  | none => simp
  | some d =>
    simp only [WakeTarget.datagram] at hd
    split at hd
    · rename_i packet dest hpk hdest
      cases hd
      have hiff := wakes_iff b q hpk
      by_cases hm : x.1.Means (sys.call x.2) b q
      · simp [Option.filter, hiff.mpr hm, hm]
      · simp [Option.filter, hm, mt hiff.mp hm]
    · cases hd

/-- Of `-r bob 1:2:3:4:5:6` the card with this address gets one frame. -/
theorem mainRuns_wakes_lab : ∃ events halt, MainRuns exampleSys false rawWords events halt ∧
    (datagrams events).filter (fun d =>
      wakes ⟨[1, 2, 3, 4, 5, 6], rfl⟩ ⟨[6, 5, 4, 3, 2, 1], rfl⟩ d.2) =
        [(none, magicPacket ⟨[1, 2, 3, 4, 5, 6], rfl⟩ none)] := by
  have hline : commandLine false exampleSys.programName rawWords =
      ⟨4, [.raw], [ascii "bob", ascii "1:2:3:4:5:6"]⟩ := by decide +kernel
  have hstart : start exampleSys ⟨4, [.raw], [ascii "bob", ascii "1:2:3:4:5:6"]⟩ = .ok _ := rfl
  rw [← hline] at hstart
  have hrun := (runs_trace hstart (fun h => h.2 (by decide)) _ _).mpr
    ⟨[], [], _, .none, rfl, rfl⟩
  refine ⟨_, _, mainRuns_of_runs hrun, ?_⟩
  obtain ⟨ts, rs, tail, stop, rfl, hfeed, hall⟩ :=
    mainRuns_wakes hstart (fun h => h.2 (by decide)) (mainRuns_of_runs hrun)
  obtain rfl : rs = [] := by
    cases hfeed
    rfl
  rw [hall, hline]
  decide +kernel

/-! ## The run of the test -/

section Test

/-- `"%x:%x:%x:%x:%x:%x"` -/
def macstr (mac : Octets) : Bytes := [58].intercalate (mac.bytes.map fun b => fmtHex 0 b.toNat)

/-- `"%x-%x-%x-%x-%x-%x"` -/
def secstr (sec : Octets) : Bytes := [45].intercalate (sec.bytes.map fun b => fmtHex 0 b.toNat)

/-- `-i 127.0.0.1 MAC -P SEC` -/
def wolWords (mac sec : Octets) : List Bytes :=
  [ascii "-i", ascii "127.0.0.1", macstr mac, ascii "-P", secstr sec]

variable {sep : UInt8} {o : Octets}

theorem hexFields_rendered (sep : UInt8) (bs : Bytes) :
    HexFields sep bs ([sep].intercalate (bs.map fun b => fmtHex 0 b.toNat)) := by
  have hoctet : ∀ b : UInt8, HexOctet (fmtHex 0 b.toNat) b := by
    apply forall_byte
    decide +kernel
  refine hexFields_intercalate sep _ (List.length_map _) fun x hx => ?_
  obtain ⟨i, hi, rfl⟩ := List.mem_iff_getElem.mp hx
  rw [List.getElem_zip, List.getElem_map]
  exact hoctet _

/-- A rendering begins with a digit. -/
theorem hexFields_head {b : UInt8} {bs t : Bytes} (h : HexFields sep (b :: bs) t) :
    ∃ d r, t = d :: r ∧ isXDigit d = true := by
  obtain ⟨u, r, hu, rfl⟩ : ∃ u r, HexOctet u b ∧ t = u ++ r := by
    cases bs with
    | nil => exact ⟨t, [], h, (List.append_nil t).symm⟩
    | cons b' bs =>
      obtain ⟨u, v, hu, _, rfl⟩ := h
      exact ⟨u, _, hu, rfl⟩
  rcases hu with ⟨d, hd, rfl, _⟩ | ⟨d, e, hd, _, rfl, _⟩
  · exact ⟨d, r, rfl, hd⟩
  · exact ⟨d, e :: r, rfl, hd⟩

/-- It is no option, and no hyphen either. -/
theorem hexFields_operand {t : Bytes} (h : HexFields sep o.bytes t) :
    nonoption t = true ∧ t ≠ dash := by
  obtain ⟨b, bs, hb⟩ := List.exists_cons_of_length_eq_add_one o.len
  rw [hb] at h
  obtain ⟨d, r, rfl, hd⟩ := hexFields_head h
  have hne : d ≠ 45 := by
    rintro rfl
    cases hd
  refine ⟨?_, ?_⟩
  · unfold nonoption
    split
    · rename_i heq
      cases heq
      exact absurd rfl hne
    · rfl
  · intro heq
    exact hne (List.cons.inj heq).1

variable (mac sec : Octets) (programName : Bytes)

theorem scanned_wolWords : scanned false programName (wolWords mac sec) =
    ⟨[⟨'i'.toUInt8, some (ascii "127.0.0.1"), []⟩,
        ⟨question, none, invalidOption false programName 'P'.toUInt8⟩],
      [ascii "-i", ascii "127.0.0.1", ascii "-P"], [macstr mac, secstr sec]⟩ := by
  have hmac := (hexFields_operand (hexFields_rendered 58 mac.bytes)).1
  have hsec := (hexFields_operand (hexFields_rendered 45 sec.bytes)).1
  have hi : element (wolSetting false programName) (ascii "-i") =
      ([], some ⟨'i'.toUInt8, optionRequiresArgument programName 'i'.toUInt8⟩) := rfl
  have hP : element (wolSetting false programName) (ascii "-P") =
      ([⟨question, none, invalidOption false programName 'P'.toUInt8⟩], none) := rfl
  have hoption : nonoption (ascii "-i") = false ∧ nonoption (ascii "-P") = false := ⟨rfl, rfl⟩
  have hdash : ascii "-i" ≠ dashDash ∧ ascii "-P" ≠ dashDash := by decide
  have hposix : (wolSetting false programName).posixlyCorrect = false := rfl
  rw [scanned, wolWords]
  simp only [scanArgs, hi, hP, hoption.1, hoption.2, hdash.1, hdash.2, macstr, secstr, hmac, hsec,
    hposix, if_true, if_false, Bool.false_eq_true, List.nil_append, List.singleton_append]

theorem commandLine_wolWords : commandLine false programName (wolWords mac sec) =
    ⟨6, [.host (ascii "127.0.0.1"), .other], [macstr mac, secstr sec]⟩ := by
  rw [commandLine, scanned_wolWords]
  rfl

/-- The global variables behind the command line: `-P` has set nothing. -/
def testGlobals : Globals := { hostStr := ascii "127.0.0.1" }

theorem start_wolWords {sys : Sys} (hsocket : sys.socket = .ok) (hopt : sys.setsockopt = true) :
    start sys ⟨6, [.host (ascii "127.0.0.1"), .other], [macstr mac, secstr sec]⟩ =
      .ok { phase := .targets [macstr mac, secstr sec], globals := testGlobals,
            magic := magicCreate sys.uninit false, sock := [], ret := 0, calls := 0 } := by
  have hmac := (hexFields_operand (hexFields_rendered 58 mac.bytes)).2
  have hsec := (hexFields_operand (hexFields_rendered 45 sec.bytes)).2
  have hstdin : requestsStdin [macstr mac, secstr sec] none = false := by
    simp [requestsStdin, macstr, secstr, Ne.symm hmac, Ne.symm hsec]
  have hparse : parseArgs sys.programName sys.getpass
      ⟨6, [.host (ascii "127.0.0.1"), .other], [macstr mac, secstr sec]⟩ = .ok testGlobals := by
    simp [parseArgs, parseOpts, parseOpt, hstdin, testGlobals]
  have hopen : openSocket sys testGlobals = (some [], []) := by
    have hudp : testGlobals.packetMode &&& udpMode ≠ 0 := by decide
    simp [openSocket, hudp, udpOpen, hsocket, hopt]
  simp only [start, hparse, hopen]
  rfl

theorem addressOf_eq {ethers : Bytes → Option Octets} {t : Bytes} {a : Octets}
    (h : macOctets ethers t = some a.bytes) : addressOf ethers t = some a := by
  cases haddr : addressOf ethers t with
  | none =>
    rw [addressOf_none.mp haddr] at h
    cases h
  | some b =>
    rw [addressOf_some haddr] at h
    rw [octets_eq (Option.some.inj h)]

theorem cut_mem {n : Nat} {s r : Bytes} {fs : List (Bytes × Bytes)} (h : Cut sep (n + 2) s fs r) :
    sep ∈ s := by
  cases h with
  | field _ _ _ => simp

/-- A password is no address. -/
theorem addressOf_secstr {ethers : Bytes → Option Octets} (h : ethers (secstr sec) = none) :
    addressOf ethers (secstr sec) = none := by
  have hfields : HexFields 45 sec.bytes (secstr sec) := hexFields_rendered 45 sec.bytes
  rw [addressOf_none, macOctets_of_no_cut, h]
  · rfl
  · rintro ⟨fs, r, hcut⟩
    rw [hfields.cstr_eq (by decide)] at hcut
    have hcolon : (58 : UInt8) ∈ secstr sec := cut_mem hcut
    rcases hfields.mem hcolon with h | h
    · cases h
    · cases h

theorem testGlobals_udp : testGlobals.packetMode &&& udpMode ≠ 0 := by decide

theorem attempt_macstr {env : Env} {addr : InAddr}
    (hhost : env.gethostbyname (ascii "127.0.0.1") = some addr)
    (hsend : env.sendto (.inet addr 40000) (magicPacket mac none) ≠ -1) :
    (testGlobals.target none (macstr mac)).attempt testGlobals env =
      ⟨false, [.sendto (.inet addr 40000) (magicPacket mac none),
        .stdout (wakingUp false (macstr mac) (ascii "127.0.0.1") 40000)]⟩ := by
  have haddr : addressOf env.ethers (macstr mac) = some mac :=
    addressOf_eq (macOctets_hexFields (hexFields_rendered 58 mac.bytes) _)
  have hpacket : packetOf env.ethers (testGlobals.target none (macstr mac)).mac
      (testGlobals.target none (macstr mac)).passwd = some (magicPacket mac none) := by
    simp [Globals.target, packetOf, haddr]
  have hdest : (testGlobals.target none (macstr mac)).dest testGlobals env =
      some (.inet addr 40000) := by
    rw [WakeTarget.dest, if_pos testGlobals_udp]
    show (env.gethostbyname (ascii "127.0.0.1")).map _ = _
    rw [hhost]
    rfl
  simp only [WakeTarget.attempt, hpacket, hdest, hsend, and_false, if_false]
  rfl

theorem attempt_secstr {env : Env} (hethers : env.ethers (secstr sec) = none) :
    (testGlobals.target none (secstr sec)).attempt testGlobals env =
      ⟨true, [.error (cannotAssemble (secstr sec))]⟩ := by
  have haddr := addressOf_secstr sec hethers
  simp [WakeTarget.attempt, WakeTarget.refusal, Globals.target, packetOf, haddr]

section Run

variable {sys : Sys} {addr : InAddr}

theorem diagnostics_wolWords : diagnostics sys.programName sys.getpass
    (scanned false sys.programName (wolWords mac sec)).found ⟨{}, false⟩ =
      [.stderr (invalidOption false sys.programName 'P'.toUInt8)] := by
  have hprinted : invalidOption false sys.programName 'P'.toUInt8 ≠ [] := by
    simp [invalidOption]
  rw [scanned_wolWords]
  show diagnostic [] ++ (diagnostic (invalidOption false sys.programName 'P'.toUInt8) ++ []) = _
  rw [diagnostic, diagnostic, if_pos rfl, if_neg hprinted]
  rfl

theorem runs_wolWords (hsocket : sys.socket = .ok) (hopt : sys.setsockopt = true)
    (hhost : (sys.call 0).gethostbyname (ascii "127.0.0.1") = some addr)
    (hsend : (sys.call 0).sendto (.inet addr 40000) (magicPacket mac none) ≠ -1)
    (hethers : (sys.call 1).ethers (secstr sec) = none) (events : List Event) (halt : Halt) :
    Runs sys ⟨6, [.host (ascii "127.0.0.1"), .other], [macstr mac, secstr sec]⟩ events halt ↔
      events = [.sendto (.inet addr 40000) (magicPacket mac none),
        .stdout (wakingUp false (macstr mac) (ascii "127.0.0.1") 40000),
        .error (cannotAssemble (secstr sec))] ∧ halt = .exit 1 := by
  have htargets : operandTargets sys
      ⟨6, [.host (ascii "127.0.0.1"), .other], [macstr mac, secstr sec]⟩ testGlobals =
        [testGlobals.target none (macstr mac), testGlobals.target none (secstr sec)] := rfl
  have htrials : wakeTrials testGlobals sys.call 0
      [testGlobals.target none (macstr mac), testGlobals.target none (secstr sec)] =
        [⟨false, [.sendto (.inet addr 40000) (magicPacket mac none),
            .stdout (wakingUp false (macstr mac) (ascii "127.0.0.1") 40000)]⟩,
          ⟨true, [.error (cannotAssemble (secstr sec))]⟩] := by
    rw [wakeTrials, wakeTrials, wakeTrials, attempt_macstr mac hhost hsend,
      attempt_secstr sec hethers]
  have htrace : traceOf sys testGlobals
      [testGlobals.target none (macstr mac), testGlobals.target none (secstr sec)] =
        [.sendto (.inet addr 40000) (magicPacket mac none),
          .stdout (wakingUp false (macstr mac) (ascii "127.0.0.1") 40000),
          .error (cannotAssemble (secstr sec))] := by
    rw [traceOf, htrials]
    rfl
  have hfailed : failedOf sys testGlobals
      [testGlobals.target none (macstr mac), testGlobals.target none (secstr sec)] = 1 := by
    rw [failedOf, htrials]
    rfl
  have hend : ended (.ok ()) 1 = .exit 1 := by decide +kernel
  rw [runs_trace (start_wolWords mac sec hsocket hopt) fun h => testGlobals_udp h.1, htargets]
  constructor
  · rintro ⟨rs, tail, stop, hfeed, rfl, rfl⟩
    cases hfeed
    exact ⟨(List.append_nil _).trans htrace, (congrArg (ended (.ok ())) hfailed).trans hend⟩
  · rintro ⟨rfl, rfl⟩
    exact ⟨[], [], _, .none, ((List.append_nil _).trans htrace).symm,
      ((congrArg (ended (.ok ())) hfailed).trans hend).symm⟩

/-- The run that `check/nic-fake.py` starts, whatever address and password it has been given. There
is no option `-P`: the packet goes out without the password, the password is taken for a second
target that cannot be assembled, and `wol` ends with status `1`. The card lets the packet pass. -/
theorem nicFake_run (hsocket : sys.socket = .ok) (hopt : sys.setsockopt = true)
    (hhost : (sys.call 0).gethostbyname (ascii "127.0.0.1") = some addr)
    (hsend : (sys.call 0).sendto (.inet addr 40000) (magicPacket mac none) ≠ -1)
    (hethers : (sys.call 1).ethers (secstr sec) = none) (events : List Event) (halt : Halt) :
    (MainRuns sys false (wolWords mac sec) events halt ↔
      events = [.stderr (invalidOption false sys.programName 'P'.toUInt8),
        .sendto (.inet addr 40000) (magicPacket mac none),
        .stdout (wakingUp false (macstr mac) (ascii "127.0.0.1") 40000),
        .error (cannotAssemble (secstr sec))] ∧ halt = .exit 1) ∧
    waitForPacket (ints mac) (ints sec) (magicPacket mac none) = passed 102 := by
  have hruns := runs_wolWords mac sec hsocket hopt hhost hsend hethers
  rw [← commandLine_wolWords mac sec sys.programName] at hruns
  refine ⟨⟨?_, ?_⟩, ?_⟩
  · intro h
    obtain ⟨events', hrun, rfl⟩ := h.runs
    obtain ⟨rfl, rfl⟩ := (hruns _ _).mp hrun
    rw [diagnostics_wolWords]
    exact ⟨rfl, rfl⟩
  · rintro ⟨rfl, rfl⟩
    have hmain := mainRuns_of_runs ((hruns _ _).mpr ⟨rfl, rfl⟩)
    rwa [diagnostics_wolWords] at hmain
  · have hexit : (waitForPacket (ints mac) (ints sec) (magicPacket mac none)).exit = none :=
      (magicPacket_iff mac sec).mpr ⟨rfl, .inl rfl⟩
    rw [waitForPacket_passed magicPacket_received hexit, length_magicPacket]
    rfl

/-- A system that takes every host for itself, and every datagram. -/
def localSys : Sys :=
  { exampleSys with call := fun _ =>
      { exampleCall with gethostbyname := fun _ => some 0x7f000001,
                         sendto := fun _ buf => buf.length } }

/-- `check/test1.sh` -/
theorem nicFake_run_test1 :
    MainRuns localSys false
      (["-i", "127.0.0.1", "10:11:22:33:44:55", "-P", "55-44-33-22-11-0"].map ascii)
      [.stderr (ascii "wol: invalid option -- P\n"),
        .sendto (.inet 0x7f000001 40000)
          (magicPacket ⟨[0x10, 0x11, 0x22, 0x33, 0x44, 0x55], rfl⟩ none),
        .stdout (ascii "Waking up 10:11:22:33:44:55...\n"),
        .error (ascii "Cannot assemble magic packet for '55-44-33-22-11-0'")] (.exit 1) := by
  have hwords : ["-i", "127.0.0.1", "10:11:22:33:44:55", "-P", "55-44-33-22-11-0"].map ascii =
      wolWords ⟨[0x10, 0x11, 0x22, 0x33, 0x44, 0x55], rfl⟩
        ⟨[0x55, 0x44, 0x33, 0x22, 0x11, 0x00], rfl⟩ := by decide +kernel
  rw [hwords]
  have hhost : (localSys.call 0).gethostbyname (ascii "127.0.0.1") = some 0x7f000001 := rfl
  have hrun := nicFake_run ⟨[0x10, 0x11, 0x22, 0x33, 0x44, 0x55], rfl⟩
    ⟨[0x55, 0x44, 0x33, 0x22, 0x11, 0x00], rfl⟩ (show localSys.socket = .ok from rfl) rfl hhost
    (by decide +kernel) rfl
  refine (hrun _ _).1.mpr ⟨?_, rfl⟩
  decide +kernel

end Run

end Test

end WakeOnLan
