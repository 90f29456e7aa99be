import WakeOnLan.CLib.LastWins
import WakeOnLan.Run

/-!
# WakeOnLan.OptionsCorrect

What a list of options amounts to.

* `Overrides`   — every variable of the option loop holds the value of the last option that assigns
  it (`parseOpts_overrides`); `-s`, `-h` and `-i` assign one variable.
* `Effective`   — mode, host contacted, port, wait time and file: of the variables, and as the
  options mean them (`intended`), each the last of its kind.
* `Globals.Contacts` — the host contacted is where `tcp_open` connects to, and where the datagrams
  of the operands go.
* `lastWins_iff` — when the two agree, and when two neighbours of different kinds may change places.
-/

namespace WakeOnLan

open CLib

inductive Kind where
  | info
  | verbose
  | wait
  | mode
  | host
  | port
  | file
  | passwd
  | other
  deriving DecidableEq, Repr

def Opt.kind : Opt → Kind
  | .help | .version => .info
  | .verbose => .verbose
  | .wait _ => .wait
  | .udp | .raw | .proxy _ => .mode
  | .host _ => .host
  | .port _ => .port
  | .file _ => .file
  | .passwd _ => .passwd
  | .other => .other

def modeOf : Opt → Option UInt32
  | .udp => some udpMode
  | .raw => some rawMode
  | .proxy _ => some proxyMode
  | _ => none

def proxyOf : Opt → Option Bytes
  | .proxy optarg => some optarg
  | _ => none

def hostOf : Opt → Option Bytes
  | .host optarg => some optarg
  | _ => none

/-- What is assigned to `host_str`. -/
def hostStrOf : Opt → Option Bytes
  | .proxy optarg | .host optarg => some optarg
  | _ => none

def portOf : Opt → Option UInt32
  | .port optarg => scanUnsigned optarg (some 5)
  | _ => none

def waitOf : Opt → Option UInt32
  | .wait optarg => (scanUnsigned optarg none).map (· * 1000)
  | _ => none

def fileOf : Opt → Option Bytes
  | .file optarg => some optarg
  | _ => none

def passwdOf : Opt → Option Bytes
  | .passwd optarg => optarg
  | _ => none

/-- The configuration that `main` works with. -/
structure Effective where
  mode : UInt32
  contacted : Option Bytes
  port : UInt32
  msecs : UInt32
  pathname : Option Bytes
  deriving DecidableEq

/-- The host that `tcp_open` connects to, or that `udp_send` sends to; raw frames have none. -/
def Globals.contacted (g : Globals) : Option Bytes :=
  if g.packetMode &&& (udpMode ||| proxyMode) ≠ 0 then some g.hostStr else none

/-- In proxy mode the connection goes to the host contacted, and in UDP mode the datagrams of the
operands. -/
structure Globals.Contacts (g : Globals) : Prop where
  connects : g.packetMode = proxyMode → ∀ sys : Sys,
    openSocket sys g = tcpOpen sys.gethostbyname sys.socket sys.connect g.contacted g.port
  sends : g.packetMode = udpMode → ∀ (sys : Sys) (s : State) mac pw, s.globals = g →
    s.magic.WF → g.passwd.read = .ok pw →
    ∃ o, s.send sys mac = .ok o ∧ ∀ d ∈ datagrams o.events, ∃ host addr,
      g.contacted = some host ∧ (sys.call s.calls).gethostbyname host = some addr ∧
        d.1 = some (addr, g.port.toUInt16.toNat)

def Globals.effective (g : Globals) : Effective :=
  { mode := g.packetMode, contacted := g.contacted, port := g.port, msecs := g.msecs,
    pathname := g.pathname }

def lastMode (opts : List Opt) : UInt32 := (lastOf modeOf opts).getD udpMode

/-- The host that the options mean: in proxy mode that of the last `-s`, in UDP mode that of the
last `-h` or `-i`. -/
def intendedHost (opts : List Opt) : Option Bytes :=
  if lastMode opts = proxyMode then lastOf proxyOf opts
  else if lastMode opts = udpMode then some ((lastOf hostOf opts).getD defaultIpaddr)
  else none

/-- The port of the last `-p`. -/
def intendedPort (opts : List Opt) : UInt32 := (lastOf portOf opts).getD defaultPort

def intended (opts : List Opt) : Effective :=
  { mode := lastMode opts, contacted := intendedHost opts, port := intendedPort opts,
    msecs := (lastOf waitOf opts).getD 0, pathname := lastOf fileOf opts }

/-- The password that `--passwd` gives: the last that is written, or else the one that is typed at
its prompt. -/
def intendedPasswd (getpass : Option Bytes) (opts : List Opt) : Option Bytes :=
  match lastOf passwdOf opts with
  | some optarg => some optarg
  | none => if .passwd none ∈ opts then getpass else none

def OneMode (mode : UInt32) : Prop := mode = udpMode ∨ mode = rawMode ∨ mode = proxyMode

/-- Every kind of setting by itself, and the last of each. -/
structure LastWins (opts : List Opt) (g : Globals) : Prop where
  oneMode : OneMode g.packetMode
  effective : g.effective = intended opts

/-- The last host given by any of `-s`, `-h` and `-i` is the one that the mode asks for. -/
def HostsAgree (opts : List Opt) : Prop :=
  (lastMode opts = proxyMode → lastOf hostStrOf opts = lastOf proxyOf opts) ∧
  (lastMode opts = udpMode →
    (lastOf hostStrOf opts).getD defaultIpaddr = (lastOf hostOf opts).getD defaultIpaddr)

instance (opts : List Opt) : Decidable (HostsAgree opts) := by
  unfold HostsAgree
  exact inferInstance

/-- The neighbours are not a `-s` and a `-h` with another host, or the options behind them give a
host of their own or end in RAW mode. -/
def SwapAgrees (a b : Opt) (post : List Opt) : Prop :=
  ∀ P H, a = .proxy P ∧ b = .host H ∨ a = .host H ∧ b = .proxy P →
    P = H ∨ lastOf hostStrOf post ≠ none ∨ lastOf modeOf post = some rawMode

/-! ## The option loop -/

structure Overrides (opts : List Opt) (g g' : Globals) : Prop where
  packetMode : g'.packetMode = (lastOf modeOf opts).getD g.packetMode
  hostStr : g'.hostStr = (lastOf hostStrOf opts).getD g.hostStr
  port : g'.port = (lastOf portOf opts).getD g.port
  msecs : g'.msecs = (lastOf waitOf opts).getD g.msecs
  pathname : g'.pathname = (lastOf fileOf opts).or g.pathname

section Loop

variable {programName : Bytes} {getpass : Option Bytes} {o : Opt} {opts : List Opt}
  {p p' q : Parse} {g g' g'' : Globals}

theorem Overrides.nil (g : Globals) : Overrides [] g g := ⟨rfl, rfl, rfl, rfl, rfl⟩

theorem Overrides.cons (h : Overrides [o] g g') (h' : Overrides opts g' g'') :
    Overrides (o :: opts) g g'' := by
  refine ⟨?_, ?_, ?_, ?_, ?_⟩
  · rw [h'.packetMode, h.packetMode, lastOf_cons_getD, lastOf_cons_getD]
    rfl
  · rw [h'.hostStr, h.hostStr, lastOf_cons_getD, lastOf_cons_getD]
    rfl
  · rw [h'.port, h.port, lastOf_cons_getD, lastOf_cons_getD]
    rfl
  · rw [h'.msecs, h.msecs, lastOf_cons_getD, lastOf_cons_getD]
    rfl
  · rw [h'.pathname, h.pathname, lastOf_cons, lastOf_cons, Option.or_assoc, Option.or_assoc]
    rfl

theorem oneMode_of_modeOf {m : UInt32} (h : modeOf o = some m) : OneMode m := by
  cases o with
  | udp => cases h; exact .inl rfl
  | raw => cases h; exact .inr (.inl rfl)
  | proxy => cases h; exact .inr (.inr rfl)
  | _ => cases h

/-- One option assigns the variables of its own setting, and no other. -/
theorem parseOpt_overrides (hmode : OneMode p.globals.packetMode)
    (h : parseOpt programName getpass p o = .ok p') : Overrides [o] p.globals p'.globals := by
  cases o with
  | help | version => cases h
  | verbose | other | host | file => cases h; exact ⟨rfl, rfl, rfl, rfl, rfl⟩
  | wait optarg =>
    simp only [parseOpt] at h
    split at h
    · cases h
    · rename_i v hv
      cases h
      exact ⟨rfl, rfl, rfl, by simp [lastOf, waitOf, hv], rfl⟩
  | udp | raw | proxy =>
    cases h
    refine ⟨?_, rfl, rfl, rfl, rfl⟩
    rcases hmode with hm | hm | hm
    all_goals
      simp only [hm]
      rfl
  | port optarg =>
    simp only [parseOpt] at h
    split at h
    · cases h
    · rename_i v hv
      split at h
      · cases h
      · cases h
        exact ⟨rfl, rfl, by simp [lastOf, portOf, hv], rfl, rfl⟩
  | passwd optarg =>
    cases optarg with
    | some optarg => cases h; exact ⟨rfl, rfl, rfl, rfl, rfl⟩
    | none =>
      simp only [parseOpt] at h
      split at h
      · cases h
        exact ⟨rfl, rfl, rfl, rfl, rfl⟩
      · split at h
        · cases h
        · split at h
          · cases h
            exact ⟨rfl, rfl, rfl, rfl, rfl⟩
          · cases h

theorem Overrides.oneMode (h : Overrides [o] g g') (hmode : OneMode g.packetMode) :
    OneMode g'.packetMode := by
  rw [h.packetMode, lastOf_cons_getD]
  cases hm : modeOf o with
  | none => exact hmode
  | some m => exact oneMode_of_modeOf hm

/-- The whole list, by induction on it. -/
theorem parseOpts_overrides (hmode : OneMode p.globals.packetMode)
    (h : parseOpts programName getpass opts p = .ok p') :
    Overrides opts p.globals p'.globals ∧ OneMode p'.globals.packetMode := by
  induction opts generalizing p with
  | nil =>
    cases h
    exact ⟨.nil _, hmode⟩
  | cons o os ih =>
    simp only [parseOpts] at h
    split at h
    · cases h
    · rename_i p₁ hp₁
      have hone := parseOpt_overrides hmode hp₁
      obtain ⟨hrest, hmode'⟩ := ih (hone.oneMode hmode) h
      exact ⟨hone.cons hrest, hmode'⟩

/-! ## The settings of a command line -/

theorem parseArgs_overrides {args : CommandLine}
    (h : parseArgs programName getpass args = .ok g) :
    Overrides args.opts {} g ∧ OneMode g.packetMode := by
  obtain ⟨p, hp, rfl⟩ := parseArgs_inv h
  obtain ⟨⟨hm, hh, hport, hw, hf⟩, hone⟩ := parseOpts_overrides (.inl rfl) hp
  exact ⟨⟨hm, hh, hport, hw, hf⟩, hone⟩

theorem Overrides.effective (h : Overrides opts {} g) :
    g.effective = { intended opts with contacted := g.contacted } := by
  have hfile : g.pathname = lastOf fileOf opts := by rw [h.pathname, Option.or_none]
  simp only [Globals.effective, intended, intendedPort, h.packetMode, h.port, h.msecs, hfile]
  rfl

theorem Overrides.effective_iff (h : Overrides opts {} g) :
    g.effective = intended opts ↔ g.contacted = intendedHost opts := by
  rw [h.effective]
  simp [intended]

/-- The last `-s` of a list in proxy mode. -/
theorem proxyOf_ne_none (h : lastMode opts = proxyMode) :
    lastOf proxyOf opts ≠ none ∧ lastOf hostStrOf opts ≠ none := by
  cases hm : lastOf modeOf opts with
  | none =>
    rw [lastMode, hm] at h
    cases h
  | some m =>
    obtain rfl : m = proxyMode := by rwa [lastMode, hm] at h
    obtain ⟨o, ho, hmo⟩ := exists_of_lastOf hm
    have hP : ∃ P, o = .proxy P := by
      cases o with
      | proxy P => exact ⟨P, rfl⟩
      | _ => cases hmo
    obtain ⟨P, rfl⟩ := hP
    constructor
    · intro hnone
      cases lastOf_eq_none_iff.mp hnone _ ho
    · intro hnone
      cases lastOf_eq_none_iff.mp hnone _ ho

theorem contacted_eq (hone : OneMode g.packetMode) :
    g.contacted = if g.packetMode = rawMode then none else some g.hostStr := by
  rcases hone with hm | hm | hm
  all_goals
    rw [Globals.contacted, hm]
    rfl

theorem contacts (g : Globals) : g.Contacts := by
  constructor
  · intro hmode sys
    rw [contacted_eq (.inr (.inr hmode)), hmode, openSocket, hmode]
    rfl
  · intro hmode sys s mac pw hs hm hp
    subst hs
    have hudp : s.globals.packetMode &&& udpMode ≠ 0 := by rw [hmode]; decide
    obtain ⟨o, ho, -, -, hdata⟩ := send_udp sys hudp hm hp mac
    have hc : s.globals.contacted = some s.globals.hostStr := by
      rw [contacted_eq (.inl hmode), hmode]
      rfl
    refine ⟨o, ho, ?_⟩
    intro d hd
    obtain ⟨addr, haddr, hdest⟩ := mem_datagramOf (hdata ▸ hd)
    exact ⟨_, addr, hc, haddr, hdest⟩

theorem contacted_iff (h : Overrides opts {} g) (hone : OneMode g.packetMode) :
    g.contacted = intendedHost opts ↔ HostsAgree opts := by
  have hmode : g.packetMode = lastMode opts := h.packetMode
  have hhost : g.hostStr = (lastOf hostStrOf opts).getD defaultIpaddr := h.hostStr
  rw [contacted_eq hone, hhost, hmode]
  rw [hmode] at hone
  rcases hone with hm | hm | hm
  · simp [intendedHost, HostsAgree, hm, udpMode, proxyMode, rawMode]
  · simp [intendedHost, HostsAgree, hm, udpMode, proxyMode, rawMode]
  · obtain ⟨-, hne⟩ := proxyOf_ne_none hm
    obtain ⟨H, hH⟩ := Option.ne_none_iff_exists'.mp hne
    simp [intendedHost, HostsAgree, hm, udpMode, proxyMode, rawMode, hH]

/-! ## Neighbours that change places -/

theorem parseOpts_append (pre post : List Opt) :
    parseOpts programName getpass (pre ++ post) p =
      match parseOpts programName getpass pre p with
      | .error stop => .error stop
      | .ok p => parseOpts programName getpass post p := by
  induction pre generalizing p with
  | nil => rfl
  | cons o os ih =>
    simp only [List.cons_append, parseOpts]
    cases parseOpt programName getpass p o with
    | error stop => rfl
    | ok p₁ => exact ih

/-- An option other than `--passwd` is accepted in every state or in none, and leaves the password
alone. -/
theorem parseOpt_accepts (hpass : o.kind ≠ .passwd)
    (h : parseOpt programName getpass p o = .ok p') (q : Parse) :
    ∃ q', parseOpt programName getpass q o = .ok q' ∧
      q'.globals.passwd = q.globals.passwd ∧ q'.passwordSet = q.passwordSet := by
  cases o with
  | help | version => cases h
  | verbose | other | host | file | udp | raw | proxy => exact ⟨_, rfl, rfl, rfl⟩
  | wait optarg =>
    simp only [parseOpt] at h ⊢
    split at h
    · cases h
    · exact ⟨_, rfl, rfl, rfl⟩
  | port optarg =>
    simp only [parseOpt] at h ⊢
    split at h
    · cases h
    · rename_i v hv
      split at h
      · cases h
      · rename_i hok
        rw [if_neg hok]
        exact ⟨_, rfl, rfl, rfl⟩
  | passwd optarg => exact absurd rfl hpass

/-- Two states agree on the password. -/
def SamePass (p q : Parse) : Prop :=
  q.globals.passwd = p.globals.passwd ∧ q.passwordSet = p.passwordSet

theorem parseOpt_samePass (hs : SamePass p q) (h : parseOpt programName getpass p o = .ok p') :
    ∃ q', parseOpt programName getpass q o = .ok q' ∧ SamePass p' q' := by
  by_cases hpass : o.kind = .passwd
  · cases o with
    | passwd optarg =>
      cases optarg with
      | some optarg =>
        cases h
        exact ⟨_, rfl, rfl, hs.2⟩
      | none =>
        simp only [parseOpt, hs.1, hs.2] at h ⊢
        split at h
        · rename_i hset
          cases h
          exact ⟨q, by rw [if_pos hset], hs⟩
        · rename_i hset
          rw [if_neg hset]
          split at h
          · cases h
          · split at h
            · cases h
              exact ⟨_, rfl, rfl, rfl⟩
            · cases h
    | _ => cases hpass
  · obtain ⟨p₁, hp₁, hp₂⟩ := parseOpt_accepts hpass h p
    rw [h] at hp₁
    cases hp₁
    obtain ⟨q', hq', hq₁, hq₂⟩ := parseOpt_accepts hpass h q
    exact ⟨q', hq', by rw [hq₁, hs.1, hp₂.1], by rw [hq₂, hs.2, hp₂.2]⟩

theorem parseOpts_samePass (hs : SamePass p q) (h : parseOpts programName getpass opts p = .ok p') :
    ∃ q', parseOpts programName getpass opts q = .ok q' := by
  induction opts generalizing p q with
  | nil => exact ⟨q, rfl⟩
  | cons o os ih =>
    simp only [parseOpts] at h ⊢
    split at h
    · cases h
    · rename_i p₁ hp₁
      obtain ⟨q₁, hq₁, hs₁⟩ := parseOpt_samePass hs hp₁
      rw [hq₁]
      exact ih hs₁ h

/-- Two options of different kinds are accepted in either order. -/
theorem parseOpt_swap {a b : Opt} (hkind : a.kind ≠ b.kind) {p₁ p₂ : Parse}
    (ha : parseOpt programName getpass p a = .ok p₁)
    (hb : parseOpt programName getpass p₁ b = .ok p₂) :
    ∃ q₁ q₂, parseOpt programName getpass p b = .ok q₁ ∧
      parseOpt programName getpass q₁ a = .ok q₂ ∧ SamePass p₂ q₂ := by
  by_cases hpass : a.kind = .passwd
  · obtain ⟨q₁, hq₁, hsame⟩ := parseOpt_accepts (hpass ▸ hkind.symm) hb p
    obtain ⟨q₂, hq₂, hs₂⟩ := parseOpt_samePass hsame ha
    obtain ⟨p₂', hp₂', hsame'⟩ := parseOpt_accepts (hpass ▸ hkind.symm) hb p₁
    rw [hb] at hp₂'
    cases hp₂'
    exact ⟨q₁, q₂, hq₁, hq₂, hs₂.1.trans hsame'.1.symm, hs₂.2.trans hsame'.2.symm⟩
  · obtain ⟨p₁', hp₁', hsame⟩ := parseOpt_accepts hpass ha p
    rw [ha] at hp₁'
    cases hp₁'
    have hback : SamePass p₁ p := ⟨hsame.1.symm, hsame.2.symm⟩
    obtain ⟨q₁, hq₁, hs₁⟩ := parseOpt_samePass hback hb
    obtain ⟨q₂, hq₂, hsame₂⟩ := parseOpt_accepts hpass ha q₁
    exact ⟨q₁, q₂, hq₁, hq₂, hsame₂.1.trans hs₁.1, hsame₂.2.trans hs₁.2⟩

theorem parseOpts_swap {pre post : List Opt} {a b : Opt} (hkind : a.kind ≠ b.kind)
    (h : parseOpts programName getpass (pre ++ a :: b :: post) p = .ok p') :
    ∃ q', parseOpts programName getpass (pre ++ b :: a :: post) p = .ok q' := by
  rw [parseOpts_append] at h ⊢
  split at h
  · cases h
  · rename_i p₀ hp₀
    simp only [parseOpts] at h ⊢
    split at h
    · cases h
    · rename_i p₁ ha
      split at h
      · cases h
      · rename_i p₂ hb
        obtain ⟨q₁, q₂, hq₁, hq₂, hs⟩ := parseOpt_swap hkind ha hb
        obtain ⟨q', hq'⟩ := parseOpts_samePass hs h
        exact ⟨q', by simp only [hq₁, hq₂, hq']⟩

/-- A setting with options of one kind only. -/
theorem lastOf_swap_kind {β : Type} {f : Opt → Option β} {k : Kind}
    (hf : ∀ o, o.kind ≠ k → f o = none) {a b : Opt} (hkind : a.kind ≠ b.kind)
    (pre post : List Opt) :
    lastOf f (pre ++ b :: a :: post) = lastOf f (pre ++ a :: b :: post) := by
  apply lastOf_swap
  by_cases ha : a.kind = k
  · exact .inr (hf b (ha ▸ hkind.symm))
  · exact .inl (hf a ha)

/-- Each setting is made by options of its own kind. -/
theorem Opt.settings (o : Opt) :
    (o.kind ≠ .mode → modeOf o = none ∧ proxyOf o = none) ∧
    (o.kind ≠ .host → hostOf o = none) ∧ (o.kind ≠ .port → portOf o = none) ∧
    (o.kind ≠ .wait → waitOf o = none) ∧ (o.kind ≠ .file → fileOf o = none) := by
  cases o <;> simp [modeOf, proxyOf, hostOf, portOf, waitOf, fileOf, Opt.kind]

theorem intended_swap {a b : Opt} (hkind : a.kind ≠ b.kind) (pre post : List Opt) :
    intended (pre ++ b :: a :: post) = intended (pre ++ a :: b :: post) := by
  have hmode := lastOf_swap_kind (fun o ho => (o.settings.1 ho).1) hkind pre post
  have hproxy := lastOf_swap_kind (fun o ho => (o.settings.1 ho).2) hkind pre post
  have hhost := lastOf_swap_kind (fun o => o.settings.2.1) hkind pre post
  have hport := lastOf_swap_kind (fun o => o.settings.2.2.1) hkind pre post
  have hwait := lastOf_swap_kind (fun o => o.settings.2.2.2.1) hkind pre post
  have hfile := lastOf_swap_kind (fun o => o.settings.2.2.2.2) hkind pre post
  rw [intended, intended, intendedHost, intendedHost, intendedPort, intendedPort, lastMode,
    lastMode, hmode, hproxy, hhost, hport, hwait, hfile]

/-- Only a `-s` and a `-h` compete for one variable. -/
theorem hostStr_swap {a b : Opt} (hkind : a.kind ≠ b.kind)
    (hpair : ¬ ∃ P H, a = .proxy P ∧ b = .host H ∨ a = .host H ∧ b = .proxy P)
    (pre post : List Opt) :
    lastOf hostStrOf (pre ++ b :: a :: post) = lastOf hostStrOf (pre ++ a :: b :: post) := by
  apply lastOf_swap
  by_contra hboth
  obtain ⟨ha, hb⟩ := not_or.mp hboth
  cases a with
  | proxy P =>
    cases b with
    | proxy _ => exact hkind rfl
    | host H => exact hpair ⟨P, H, .inl ⟨rfl, rfl⟩⟩
    | _ => exact hb rfl
  | host H =>
    cases b with
    | proxy P => exact hpair ⟨P, H, .inr ⟨rfl, rfl⟩⟩
    | host _ => exact hkind rfl
    | _ => exact hb rfl
  | _ => exact ha rfl

/-- The host contacted behind a `-s` and a `-h`, by what the options behind them set. -/
theorem contacted_pair_iff {host : Option Bytes} {mode : Option UInt32} {P H : Bytes} :
    (if mode.getD proxyMode = rawMode then none else some (host.getD P)) =
        (if mode.getD proxyMode = rawMode then none else some (host.getD H)) ↔
      P = H ∨ host ≠ none ∨ mode = some rawMode := by
  cases host with
  | some X => simp
  | none =>
    cases mode with
    | none => simp [proxyMode, rawMode]
    | some m =>
      by_cases hm : m = rawMode
      · simp [hm]
      · simp [hm]

theorem effective_swap {pre post : List Opt} {a b : Opt} (hkind : a.kind ≠ b.kind)
    (h : Overrides (pre ++ a :: b :: post) {} g) (hone : OneMode g.packetMode)
    (h' : Overrides (pre ++ b :: a :: post) {} g') (hone' : OneMode g'.packetMode) :
    g'.effective = g.effective ↔ SwapAgrees a b post := by
  have hmode : g'.packetMode = g.packetMode := by
    rw [h'.packetMode, h.packetMode]
    exact congrArg Effective.mode (intended_swap hkind pre post)
  have heff : g'.effective = g.effective ↔ g'.contacted = g.contacted := by
    rw [h'.effective, h.effective, intended_swap hkind]
    simp
  rw [heff, contacted_eq hone', contacted_eq hone, hmode]
  have hm := h.packetMode
  have hs := h.hostStr
  have hs' := h'.hostStr
  rw [lastOf_pair] at hm hs hs'
  by_cases hpair : ∃ P H, a = .proxy P ∧ b = .host H ∨ a = .host H ∧ b = .proxy P
  · obtain ⟨P, H, ⟨rfl, rfl⟩ | ⟨rfl, rfl⟩⟩ := hpair
    · simp only [hostStrOf, modeOf, Option.some_or, Option.or_some, Option.getD_some,
        Option.getD_none] at hm hs hs'
      rw [hm, hs, hs', contacted_pair_iff]
      simp [SwapAgrees]
    · simp only [hostStrOf, modeOf, Option.some_or, Option.or_some,
        Option.getD_some] at hm hs hs'
      rw [hm, hs, hs', contacted_pair_iff]
      simp [SwapAgrees, eq_comm]
  · have hhost : g'.hostStr = g.hostStr := by
      rw [h'.hostStr, h.hostStr, hostStr_swap hkind hpair]
    rw [hhost]
    simp only [true_iff]
    intro P H hab
    exact absurd ⟨P, H, hab⟩ hpair

theorem lastWins_iff_hostsAgree {args : CommandLine}
    (h : parseArgs programName getpass args = .ok g) :
    LastWins args.opts g ↔ HostsAgree args.opts := by
  obtain ⟨hover, hone⟩ := parseArgs_overrides h
  rw [← contacted_iff hover hone, ← hover.effective_iff]
  exact ⟨LastWins.effective, fun heff => ⟨hone, heff⟩⟩

theorem parseArgs_swap {args : CommandLine} {pre post : List Opt} {a b : Opt}
    (h : parseArgs programName getpass args = .ok g) (hopts : args.opts = pre ++ a :: b :: post)
    (hkind : a.kind ≠ b.kind) :
    ∃ g', parseArgs programName getpass { args with opts := pre ++ b :: a :: post } = .ok g' := by
  have hfile : lastOf fileOf (pre ++ b :: a :: post) = lastOf fileOf args.opts := by
    rw [hopts]
    exact congrArg Effective.pathname (intended_swap hkind pre post)
  simp only [parseArgs] at h ⊢
  split at h
  · cases h
  · rename_i hargc
    rw [if_neg hargc]
    split at h
    · cases h
    · rename_i p hp
      split at h
      · cases h
      · rename_i hmust
        have hover := (parseOpts_overrides (.inl rfl) hp).1
        rw [hopts] at hp
        obtain ⟨q, hq⟩ := parseOpts_swap hkind hp
        have hpath : q.globals.pathname = p.globals.pathname := by
          rw [(parseOpts_overrides (.inl rfl) hq).1.pathname, hover.pathname, hfile]
        simp only [hq, hpath, if_neg hmust]
        exact ⟨_, rfl⟩

/-! ## The password -/

/-- `passwd` behind the options. -/
def passOf (getpass : Option Bytes) (p : Parse) (opts : List Opt) : Pass :=
  match lastOf passwdOf opts with
  | some optarg => .arg optarg
  | none =>
    if .passwd none ∈ opts ∧ p.passwordSet = false then (getpass.map Pass.main).getD .none
    else p.globals.passwd

theorem passOf_cons {o : Opt} (ho : o.kind ≠ .passwd) {q : Parse} (hs : SamePass p q)
    (opts : List Opt) : passOf getpass p (o :: opts) = passOf getpass q opts := by
  have hnone : passwdOf o = none := by
    cases o with
    | passwd optarg => exact absurd rfl ho
    | _ => rfl
  have hmem : Opt.passwd none ∈ o :: opts ↔ Opt.passwd none ∈ opts := by
    constructor
    · intro h
      rcases List.mem_cons.mp h with rfl | h
      · exact absurd rfl ho
      · exact h
    · exact List.mem_cons_of_mem _
  simp only [passOf, lastOf_cons, hnone, Option.or_none, hmem, hs.1, hs.2]

theorem parseOpt_text {optarg : Bytes}
    (h : parseOpt programName getpass p (.passwd (some optarg)) = .ok p') :
    p'.globals.passwd = .arg optarg ∧ p'.passwordSet = p.passwordSet := by
  cases h
  exact ⟨rfl, rfl⟩

/-- A first prompt is answered. -/
theorem parseOpt_prompt (hset : p.passwordSet = false)
    (h : parseOpt programName getpass p (.passwd none) = .ok p') :
    ∃ line, getpass = some line ∧ p'.globals.passwd = .main line ∧ p'.passwordSet = true := by
  simp only [parseOpt, hset, Bool.false_eq_true, if_false] at h
  split at h
  · cases h
  · rename_i line
    split at h
    · cases h
      exact ⟨line, rfl, rfl, rfl⟩
    · cases h

/-- A prompt behind a written password is no accepted option. -/
theorem no_prompt_behind_text {optarg : Bytes} (hpass : p.globals.passwd = .arg optarg)
    (hset : p.passwordSet = false) (h : parseOpts programName getpass opts p = .ok p') :
    .passwd none ∉ opts := by
  induction opts generalizing p optarg with
  | nil => exact List.not_mem_nil
  | cons o os ih =>
    simp only [parseOpts] at h
    split at h
    · cases h
    · rename_i p₁ hp₁
      rw [List.mem_cons, not_or]
      by_cases ho : o.kind = .passwd
      · cases o with
        | passwd given =>
          cases given with
          | some given =>
            obtain ⟨hpass₁, hset₁⟩ := parseOpt_text hp₁
            exact ⟨by simp, ih hpass₁ (hset₁.trans hset) h⟩
          | none =>
            obtain ⟨line, rfl, -, -⟩ := parseOpt_prompt hset hp₁
            simp [parseOpt, hset, hpass] at hp₁
        | _ => cases ho
      · obtain ⟨p₁', hp₁', hsame⟩ := parseOpt_accepts ho hp₁ p
        rw [hp₁] at hp₁'
        cases hp₁'
        refine ⟨?_, ih (hsame.1.trans hpass) (hsame.2.trans hset) h⟩
        rintro rfl
        exact ho rfl

/-- The password behind the options, by induction on them. -/
theorem parseOpts_passwd (h : parseOpts programName getpass opts p = .ok p') :
    p'.globals.passwd = passOf getpass p opts := by
  induction opts generalizing p with
  | nil =>
    cases h
    simp [passOf, lastOf]
  | cons o os ih =>
    simp only [parseOpts] at h
    split at h
    · cases h
    · rename_i p₁ hp₁
      have hrest := ih h
      by_cases ho : o.kind = .passwd
      · cases o with
        | passwd given =>
          cases given with
          | some given =>
            obtain ⟨hpass₁, hset₁⟩ := parseOpt_text hp₁
            have hno : ¬ (Opt.passwd none ∈ os ∧ p₁.passwordSet = false) := by
              rintro ⟨hmem, hset⟩
              exact no_prompt_behind_text hpass₁ hset h hmem
            rw [hrest, passOf, passOf, lastOf_cons]
            cases lastOf passwdOf os with
            | some optarg => rfl
            | none =>
              simp only [if_neg hno, hpass₁]
              rfl
          | none =>
            rw [hrest, passOf, passOf, lastOf_cons]
            cases hset : p.passwordSet with
            | true =>
              simp only [parseOpt, hset, if_true] at hp₁
              cases hp₁
              simp [hset, passwdOf]
            | false =>
              obtain ⟨line, rfl, hpass₁, hset₁⟩ := parseOpt_prompt hset hp₁
              simp [hset₁, hpass₁, passwdOf]
        | _ => cases ho
      · obtain ⟨p₁', hp₁', hsame⟩ := parseOpt_accepts ho hp₁ p
        rw [hp₁] at hp₁'
        cases hp₁'
        rw [hrest, passOf_cons ho ⟨hsame.1, hsame.2⟩]

/-- What `--passwd` gives is what `passwd` holds behind `parse_args`. -/
theorem parseArgs_passwd {args : CommandLine} (h : parseArgs programName getpass args = .ok g) :
    g.passwd = passOf getpass ⟨{}, false⟩ args.opts ∧
      g.passwd.read = .ok (intendedPasswd getpass args.opts) := by
  obtain ⟨q, hq, rfl⟩ := parseArgs_inv h
  have hpass := parseOpts_passwd hq
  refine ⟨hpass, ?_⟩
  show q.globals.passwd.read = _
  rw [hpass, passOf, intendedPasswd]
  cases lastOf passwdOf args.opts with
  | some optarg => rfl
  | none =>
    by_cases hmem : Opt.passwd none ∈ args.opts
    · cases getpass with
      | none => simp [hmem, Pass.read]
      | some line => simp [hmem, Pass.read]
    · simp [hmem, Pass.read]

end Loop

/-- **The last of each kind wins.** The host contacted is where connections and datagrams go. The
configuration is that of the last option of each kind exactly when the last of `-s`, `-h` and `-i`
names the host that the mode asks for; and neighbours of different kinds may change places exactly
when they are not a `-s` and a `-h` that compete for the host. -/
theorem lastWins_iff {programName : Bytes} {getpass : Option Bytes} {args : CommandLine}
    {g : Globals} (h : parseArgs programName getpass args = .ok g) :
    g.Contacts ∧ (LastWins args.opts g ↔ HostsAgree args.opts) ∧
    ∀ pre a b post, args.opts = pre ++ a :: b :: post → a.kind ≠ b.kind →
      ∃ g', parseArgs programName getpass { args with opts := pre ++ b :: a :: post } = .ok g' ∧
        g'.Contacts ∧ (g'.effective = g.effective ↔ SwapAgrees a b post) := by
  refine ⟨contacts g, lastWins_iff_hostsAgree h, ?_⟩
  intro pre a b post hopts hkind
  obtain ⟨g', hg'⟩ := parseArgs_swap h hopts hkind
  obtain ⟨hover, hone⟩ := parseArgs_overrides h
  obtain ⟨hover', hone'⟩ := parseArgs_overrides hg'
  rw [hopts] at hover
  exact ⟨g', hg', contacts g', effective_swap hkind hover hone hover' hone'⟩

/-- `wol -h H -s P -p 9 0:1:2:3:4:5` -/
def proxyLine : CommandLine :=
  { argc := 8, opts := [.host (ascii "H"), .proxy (ascii "P"), .port (ascii "9")],
    operands := [ascii "0:1:2:3:4:5"] }

theorem lastWins_proxyLine :
    ∃ g, parseArgs [] none proxyLine = .ok g ∧ LastWins proxyLine.opts g ∧
      ∃ g', parseArgs [] none { proxyLine with opts := [.host (ascii "H"), .port (ascii "9"),
          .proxy (ascii "P")] } = .ok g' ∧ g'.effective = g.effective := by
  have h : parseArgs [] none proxyLine =
      .ok { hostStr := ascii "P", packetMode := proxyMode, port := 9 } := by decide +kernel
  obtain ⟨-, hlast, hswap⟩ := lastWins_iff h
  refine ⟨_, h, hlast.mpr (by decide), ?_⟩
  obtain ⟨g', hg', -, heff⟩ := hswap [.host (ascii "H")] _ _ [] rfl (by decide)
  exact ⟨g', hg', heff.mpr (by simp [SwapAgrees])⟩

/-- `wol -s P -h H 0:1:2:3:4:5` -/
def shadowedLine : CommandLine :=
  { argc := 6, opts := [.proxy (ascii "P"), .host (ascii "H")],
    operands := [ascii "0:1:2:3:4:5"] }

/-- Behind `-s P -h H` the connection goes to `H`, and to `P` when they change places. -/
theorem not_lastWins_shadowed :
    ∃ g g', parseArgs [] none shadowedLine = .ok g ∧ ¬ LastWins shadowedLine.opts g ∧
      parseArgs [] none { shadowedLine with opts := [.host (ascii "H"), .proxy (ascii "P")] } =
        .ok g' ∧
      g.contacted = some (ascii "H") ∧ g'.contacted = some (ascii "P") := by
  refine ⟨{ hostStr := ascii "H", packetMode := proxyMode },
    { hostStr := ascii "P", packetMode := proxyMode }, by decide +kernel, ?_, by decide +kernel,
    rfl, rfl⟩
  intro h
  exact absurd h.effective (by decide)

end WakeOnLan
