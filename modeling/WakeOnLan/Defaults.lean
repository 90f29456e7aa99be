import WakeOnLan.Calls

/-!
# WakeOnLan.Defaults

What the command line gives to the records of a macfile.

* `RecordLine`  — the line at which a call of `macfile_parse` stops, on any stream.
* `AtRecord`    — a run is about to process a record with these fields.
* `AppliesDefaults` — the call for it takes the port and the password that the record lacks from
  the command line, and sends its datagram with them.
* `defaults_iff` — the runs in which every record is processed so.
-/

namespace WakeOnLan

open CLib

/-- The call skips the lines without tokens; `line` is the first with tokens. -/
inductive RecordLine : File → Bytes → File → Prop where
  | here {fp fp' : File} {line : Bytes} : fp.feof = false → fp.ferror = false →
      getline fp = (some line, fp') → fields (cstr line) ≠ none → RecordLine fp line fp'
  | skip {fp fp₁ fp' : File} {l line : Bytes} : fp.feof = false → fp.ferror = false →
      getline fp = (some l, fp₁) → fields (cstr l) = none → RecordLine fp₁ line fp' →
      RecordLine fp line fp'

/-- The next line with tokens has the fields `f`; its host fits, and there is no read error. -/
def AtRecord (s : State) (f : Fields) : Prop :=
  ∃ fp line fp', s.phase = .macfile fp ∧ RecordLine fp line fp' ∧
    fields (cstr line) = some f ∧ f.host.length ≤ 254 ∧ fp'.ferror = false

/-- The call `c` is the one for the record `f`: what that lacks comes from the command line, the
port of the datagram and the password that its packet is assembled with. -/
structure Call.AppliesDefaults (sys : Sys) (args : CommandLine) (s : State) (f : Fields)
    (c : Call) : Prop where
  events : (mainRound sys s).1 = c.events sys s
  mac : c.mac = f.mac
  host : c.host = f.host
  port : s.globals.packetMode = udpMode → f.port = none → c.port = intendedPort args.opts
  passwd : s.globals.packetMode ≠ proxyMode → f.passwd = none →
    c.pass.read = .ok (intendedPasswd sys.getpass args.opts)
  udp : s.globals.packetMode = udpMode → ∃ pw, c.pass.read = .ok pw ∧
    datagrams (mainRound sys s).1 = (datagramOf (sys.call s.calls).ethers
      (sys.call s.calls).gethostbyname f.mac f.host c.port.toUInt16.toNat pw).toList
  raw : s.globals.packetMode = rawMode → ∃ pw, c.pass.read = .ok pw ∧
    datagrams (mainRound sys s).1 =
      ((packetOf (sys.call s.calls).ethers f.mac pw).map fun packet => (none, packet)).toList

def AppliesDefaults (sys : Sys) (args : CommandLine) (s : State) (f : Fields) : Prop :=
  ∃ c, s.nextCall sys = some c ∧ c.AppliesDefaults sys args s f

/-- The record leaves nothing to the command line, or what it leaves is not given there: in UDP
mode it gives a port, or `-p` the default one; in UDP and RAW mode it gives a password, or
`--passwd` none. -/
structure NeedsNoDefault (sys : Sys) (args : CommandLine) (f : Fields) : Prop where
  port : lastMode args.opts = udpMode → f.port = none → intendedPort args.opts = defaultPort
  passwd : lastMode args.opts ≠ proxyMode → f.passwd = none →
    intendedPasswd sys.getpass args.opts = none

section Record

variable {sys : Sys} {s : State} {f : Fields} {fp fp' : File} {line : Bytes}

/-- The loop of a call up to its record, by induction on the lines skipped. -/
theorem macfileLoop_record (h : RecordLine fp line fp') (hf : fields (cstr line) = some f)
    (hfit : f.host.length ≤ 254) {o : Outs} (ho : o.port = 0) (k : UInt32) :
    ∃ o', macfileLoop fp o k = .ok (.left f.mask, fp', o') ∧ record f.mask o' = f.record := by
  induction h generalizing o k with
  | here hfeof hferr hget _ =>
    obtain ⟨o', hok, hrec⟩ := getTokens_some hf (Nat.lt_succ_of_le hfit) ho
    refine ⟨o', ?_, hrec⟩
    rw [macfileLoop_unfold, if_neg (by simp [hfeof, hferr]), hget]
    simp only [hok, if_neg f.mask_ne_zero]
  | skip hfeof hferr hget hnone _ ih =>
    obtain ⟨o₁, hok, hport⟩ := getTokens_none hnone o
    obtain ⟨o', hloop, hrec⟩ := ih hf (hport.trans ho) 0
    refine ⟨o', ?_, hrec⟩
    rw [macfileLoop_unfold, if_neg (by simp [hfeof, hferr]), hget]
    simp only [hok, if_true, hloop]

theorem macfileParse_recordLine (h : RecordLine fp line fp') (hf : fields (cstr line) = some f)
    (hfit : f.host.length ≤ 254) (hferr : fp'.ferror = false) (junk : Outs) :
    ∃ port, macfileParse junk fp = .ok ⟨some f.record, port, fp'⟩ := by
  obtain ⟨o', hloop, hrec⟩ := macfileLoop_record h hf hfit (o := { junk with port := 0 }) rfl 0
  refine ⟨o'.port, ?_⟩
  simp only [macfileParse, hloop, hferr, Bool.false_eq_true, if_false, hrec]

/-- The call for a record: its own port and password, and where it has none the default port and no
password. -/
theorem nextCall_atRecord (h : AtRecord s f) (sys : Sys) :
    s.nextCall sys = some ⟨f.mac, f.host, recordPort (f.port.getD 0),
      (f.passwd.map Pass.main).getD .none⟩ := by
  obtain ⟨fp, line, fp', hphase, hline, hf, hfit, hferr⟩ := h
  obtain ⟨port, hparse⟩ := macfileParse_recordLine hline hf hfit hferr (sys.junk s.calls)
  rw [nextCall_record hphase hparse]
  rfl

/-- The datagram of a call, by the mode. -/
theorem events_datagrams {c : Call} {pw : Option Bytes} (hm : s.magic.WF)
    (hp : c.pass.read = .ok pw) (sys : Sys) :
    (s.globals.packetMode = udpMode → datagrams (c.events sys s) =
      (datagramOf (sys.call s.calls).ethers (sys.call s.calls).gethostbyname c.mac c.host
        c.port.toUInt16.toNat pw).toList) ∧
    (s.globals.packetMode = rawMode → datagrams (c.events sys s) =
      ((packetOf (sys.call s.calls).ethers c.mac pw).map fun packet => (none, packet)).toList) := by
  constructor
  · intro hmode
    have hudp : s.globals.packetMode &&& udpMode ≠ 0 := by rw [hmode]; decide
    obtain ⟨o, ho, -, -, hdata⟩ := sendUdp_datagrams s.globals (sys.call s.calls) s.sock c.mac
      c.host c.port hm hp
    rw [Call.events, Call.send, assembleAndSend_udp hudp, ho]
    exact hdata
  · intro hmode
    have hudp : s.globals.packetMode &&& udpMode = 0 := by rw [hmode]; decide
    have hproxy : s.globals.packetMode &&& proxyMode = 0 := by rw [hmode]; decide
    obtain ⟨o, ho, -, -, hdata⟩ := sendRaw_datagrams s.globals (sys.call s.calls) s.sock c.mac
      c.host c.port hm hp
    rw [Call.events, Call.send, assembleAndSend_raw hudp hproxy, ho]
    exact hdata

theorem appliesDefaults_iff {args : CommandLine} (h : AtRecord s f) (hm : s.magic.WF)
    (hmode : s.globals.packetMode = lastMode args.opts) (sys : Sys) :
    AppliesDefaults sys args s f ↔ NeedsNoDefault sys args f := by
  have hcall := nextCall_atRecord h sys
  constructor
  · rintro ⟨c, hc, happly⟩
    rw [hcall] at hc
    cases hc
    refine ⟨?_, ?_⟩
    · intro hudp hnone
      have := happly.port (hmode.trans hudp) hnone
      rw [hnone] at this
      exact this.symm
    · intro hproxy hnone
      have := happly.passwd (hmode ▸ hproxy) hnone
      rw [hnone] at this
      exact (Except.ok.inj this).symm
  · rintro ⟨hport, hpass⟩
    have hread : ((f.passwd.map Pass.main).getD .none).read = .ok f.passwd :=
      load_read s f.record
    have hevents := mainRound_events hcall
    obtain ⟨hudp, hraw⟩ := events_datagrams (c := ⟨f.mac, f.host, recordPort (f.port.getD 0),
      (f.passwd.map Pass.main).getD .none⟩) hm hread sys
    refine ⟨_, hcall, hevents, rfl, rfl, ?_, ?_, ?_, ?_⟩
    · intro hudp hnone
      rw [hport (hmode ▸ hudp) hnone, hnone]
      rfl
    · intro hproxy hnone
      rw [hpass (hmode ▸ hproxy) hnone, hnone]
      rfl
    · exact fun hone => ⟨_, hread, hevents ▸ hudp hone⟩
    · exact fun hone => ⟨_, hread, hevents ▸ hraw hone⟩

end Record

theorem start_packetMode {sys : Sys} {args : CommandLine} {s₀ : State}
    (h : start sys args = .ok s₀) : s₀.globals.packetMode = lastMode args.opts :=
  (parseArgs_overrides (start_inv h).1).1.packetMode

/-- **The command line as default.** In a run every record takes the port (in UDP mode) and the
password (in UDP and RAW mode) that it lacks from the command line, whatever came before it, if and
only if no record needs to: the command line gives nothing that a record lacks. -/
theorem defaults_iff {sys : Sys} {args : CommandLine} {s₀ : State}
    (h : start sys args = .ok s₀) :
    (∀ calls s f, Steps (callRound sys) s₀ calls s → AtRecord s f →
      AppliesDefaults sys args s f) ↔
    ∀ calls s f, Steps (callRound sys) s₀ calls s → AtRecord s f → NeedsNoDefault sys args f := by
  have hiff : ∀ calls s f, Steps (callRound sys) s₀ calls s → AtRecord s f →
      (AppliesDefaults sys args s f ↔ NeedsNoDefault sys args f) :=
    fun calls s f hs hat =>
      appliesDefaults_iff hat (magic_run (start_inv h).2.2.1 hs)
        ((packetMode_run hs).trans (start_packetMode h)) sys
  constructor
  · exact fun hall calls s f hs hat => (hiff calls s f hs hat).mp (hall calls s f hs hat)
  · exact fun hall calls s f hs hat => (hiff calls s f hs hat).mpr (hall calls s f hs hat)

/-- `wol -p 40000 -f macs` -/
def plainArgs : CommandLine :=
  { argc := 5, opts := [.port (ascii "40000"), .file (ascii "macs")], operands := [] }

theorem defaults_plain : ∃ s₀, start exampleSys plainArgs = .ok s₀ ∧
    lastOf portOf plainArgs.opts = some 40000 ∧
    ∀ calls s f, Steps (callRound exampleSys) s₀ calls s → AtRecord s f →
      AppliesDefaults exampleSys plainArgs s f := by
  have h : start exampleSys plainArgs = .ok _ := rfl
  have hport : lastOf portOf plainArgs.opts = some 40000 := by decide +kernel
  refine ⟨_, h, hport, (defaults_iff h).mpr ?_⟩
  intro calls s f _ _
  refine ⟨fun _ _ => ?_, fun _ _ => rfl⟩
  rw [intendedPort, hport]
  rfl

/-- `wol -p 9 --passwd=1-2-3-4-5-6 -f macs` -/
def portArgs : CommandLine :=
  { argc := 6, opts := [.port (ascii "9"), .passwd (some (ascii "1-2-3-4-5-6")),
      .file (ascii "macs")],
    operands := [] }

/-- The record `00:22 bad` is sent to the port 40000 and without a password. -/
theorem not_defaults_port : ∃ s₀ s f, start exampleSys portArgs = .ok s₀ ∧
    Steps (callRound exampleSys) s₀ [] s ∧ AtRecord s f ∧ f.port = none ∧ f.passwd = none ∧
    intendedPort portArgs.opts = 9 ∧
    s.nextCall exampleSys = some ⟨ascii "00:22", ascii "bad", 40000, .none⟩ ∧
    ¬ AppliesDefaults exampleSys portArgs s f := by
  let fp := fopened (ascii "00:22 bad\n0:0:0:0:0:9 lab:99 1-2-3-4-5-6\n") .eof
  let fp' := fopened (ascii "0:0:0:0:0:9 lab:99 1-2-3-4-5-6\n") .eof
  let s₀ : State :=
    { phase := .targets [],
      globals := { port := 9, passwd := .arg (ascii "1-2-3-4-5-6"),
                   pathname := some (ascii "macs") },
      magic := magicCreate (fun _ => 0) true, sock := [], ret := 0, calls := 0 }
  let s : State := { s₀ with phase := .macfile fp }
  let f : Fields := ⟨ascii "00:22", ascii "bad", none, none⟩
  have hstart : start exampleSys portArgs = .ok s₀ := rfl
  have hround : callRound exampleSys s₀ = ([], .next s) := rfl
  have hline : RecordLine fp (ascii "00:22 bad\n") fp' :=
    .here rfl rfl (by decide +kernel) (by decide +kernel)
  have hat : AtRecord s f :=
    ⟨fp, _, fp', rfl, hline, by decide +kernel, by decide, rfl⟩
  have hcall := nextCall_atRecord hat exampleSys
  refine ⟨s₀, s, f, hstart, .cons hround .refl, hat, rfl, rfl, by decide +kernel, hcall, ?_⟩
  rintro ⟨c, hc, happly⟩
  rw [hcall] at hc
  cases hc
  exact absurd (happly.port rfl rfl) (by decide +kernel)

end WakeOnLan
