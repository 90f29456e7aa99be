import WakeOnLan.Argv
import WakeOnLan.Passwords

/-!
# WakeOnLan.Conversation

The connection to the proxy over a whole run.

* `Turn`             — what one call of `assemble_and_send` does with the connection: the bytes that
  it takes from it, and the reply, if these are a whole challenge.
* `call_turn`        — every call has its turn, in the modes without a connection an empty one.
* `Conversed`        — the turns so far: they take the bytes of the connection in order, and the
  replies are theirs (`Conversed.round`, and `conversed_run` by induction).
* `mainRuns_replies` — the replies of a run.
-/

namespace WakeOnLan

open CLib

/-! ## Turns -/

structure Turn where
  call : Call
  got : Bytes
  passwd : Bytes
  deriving DecidableEq

/-- The password that a call works with: the caller's, or one that is typed in. -/
def Call.passwd (env : Env) (c : Call) : Option Bytes :=
  if c.pass = .none then env.getpass else c.pass.read.toOption.join

/-- A `recv` gives no more than it is asked for, and comes behind the password. -/
structure Turn.Fair (env : Env) (x : Turn) : Prop where
  short : x.got.length ≤ hexChallenge
  passwd : x.got ≠ [] → x.call.passwd env = some x.passwd

/-- A reply is given to 33 bytes only. -/
def Turn.reply (env : ProxyEnv) (x : Turn) : Option Bytes :=
  if x.got.length = hexChallenge then
    some (sentReply env x.call.mac x.passwd (writeAt env.frame.rsbuf 0 x.got))
  else none

/-- The replies of some turns, each in the surroundings of its own call. -/
def replies (sys : Sys) (turns : List Turn) : List Bytes :=
  turns.zipIdx.filterMap fun x => x.1.reply (sys.call x.2).proxy

theorem replies_snoc (sys : Sys) (turns : List Turn) (x : Turn) :
    replies sys (turns ++ [x]) =
      replies sys turns ++ (x.reply (sys.call turns.length).proxy).toList := by
  rw [replies, List.zipIdx_append, List.filterMap_append, replies]
  congr 1
  cases h : x.reply (sys.call turns.length).proxy with
  | none => simp [h]
  | some r => simp [h]

/-- Every reply has taken a challenge of its own. -/
theorem length_replies (sys : Sys) (turns : List Turn) :
    hexChallenge * (replies sys turns).length ≤ (turns.map Turn.got).flatten.length := by
  induction turns using List.reverseRecOn with
  | nil => exact Nat.le_refl _
  | append_singleton turns x ih =>
    rw [replies_snoc, List.length_append, List.map_append, List.flatten_append,
      List.length_append]
    have hx : hexChallenge * (x.reply (sys.call turns.length).proxy).toList.length ≤
        ([x].map Turn.got).flatten.length := by
      by_cases h : x.got.length = hexChallenge
      · simp [Turn.reply, h]
      · simp [Turn.reply, h]
    rw [Nat.mul_add]
    exact Nat.add_le_add ih hx

/-! ## The stream -/

/-- On a stream without errors a `recv` takes what it delivers. -/
theorem tcpRecv_delivered {sock : List Recv} (hok : .error ∉ sock) (len : Nat) :
    delivered sock = (tcpRecv sock len).2.1 ++ delivered (tcpRecv sock len).2.2 ∧
      (tcpRecv sock len).2.1.length ≤ len ∧
      (tcpRecv sock len).1 = (tcpRecv sock len).2.1.length ∧
      .error ∉ (tcpRecv sock len).2.2 := by
  cases sock with
  | nil => exact ⟨rfl, Nat.zero_le _, rfl, hok⟩
  | cons r s =>
    have hs : .error ∉ s := fun h => hok (List.mem_cons_of_mem r h)
    cases r with
    | error => exact absurd List.mem_cons_self hok
    | closed => exact ⟨rfl, Nat.zero_le _, rfl, hok⟩
    | data b bs =>
      have hsplit := List.take_append_drop len (b :: bs)
      refine ⟨?_, List.length_take_le .., rfl, ?_⟩
      · simp only [tcpRecv]
        cases hdrop : (b :: bs).drop len with
        | nil =>
          rw [hdrop, List.append_nil] at hsplit
          rw [hsplit]
          rfl
        | cons b' bs' =>
          rw [hdrop] at hsplit
          simp only [delivered]
          rw [← List.append_assoc, hsplit]
      · simp only [tcpRecv]
        cases (b :: bs).drop len with
        | nil => exact hs
        | cons b' bs' =>
          intro h
          rcases List.mem_cons.mp h with h | h
          · cases h
          · exact hs h

/-! ## One call -/

section Call

variable {g : Globals} {env : Env} {m : Magic} {sock : List Recv} {mac host : Bytes}
  {portnum : UInt32} {pass : Pass}

/-- The events of a call, whether it returns or stops the program. -/
def eventsOf : Except Stop Outcome → List Event
  | .error stop => stop.events
  | .ok o => o.events

theorem sent_append (es es' : List Event) : sent (es ++ es') = sent es ++ sent es' :=
  List.filterMap_append

theorem sent_report (g : Globals) (mac host : Bytes) (portnum : UInt32) :
    sent (report g mac host portnum) = [] := by
  unfold report
  split
  · rfl
  · rfl

/-- The calls that have nothing to do with the connection. -/
structure Quiet (sock : List Recv) (r : Except Stop Outcome) : Prop where
  sent : sent (eventsOf r) = []
  sock : ∀ o, r = .ok o → o.sock = sock

theorem sendUdp_quiet : Quiet sock (sendUdp g env m sock mac host portnum pass) := by
  simp only [sendUdp]
  split
  · exact ⟨rfl, fun _ h => by cases h⟩
  · split
    · exact ⟨rfl, fun _ h => by cases h; rfl⟩
    · have hudp : ∀ buf, WakeOnLan.sent (udpSend env.gethostbyname env.sendto (some host)
          portnum.toUInt16 buf).2 = [] := by
        intro buf
        simp only [udpSend]
        split
        · rfl
        · rfl
      split
      · refine ⟨?_, fun _ h => by cases h; rfl⟩
        simp only [eventsOf]
        rw [sent_append, hudp]
        rfl
      · refine ⟨?_, fun _ h => by cases h; rfl⟩
        simp only [eventsOf]
        rw [sent_append, hudp, sent_report]
        rfl

theorem sendRaw_quiet : Quiet sock (sendRaw g env m sock mac host portnum pass) := by
  simp only [sendRaw]
  split
  · exact ⟨rfl, fun _ h => by cases h⟩
  · split
    · exact ⟨rfl, fun _ h => by cases h; rfl⟩
    · refine ⟨?_, fun _ h => by cases h; rfl⟩
      simp only [eventsOf]
      rw [sent_append, sent_report]
      rfl

/-- What a call does with the connection. -/
structure TakesTurn (env : Env) (sock : List Recv) (c : Call) (r : Except Stop Outcome)
    (x : Turn) : Prop where
  call : x.call = c
  fair : x.Fair env
  sent : sent (eventsOf r) = (x.reply env.proxy).toList
  taken : x.got <+: delivered sock
  left : ∀ o, r = .ok o → delivered sock = x.got ++ delivered o.sock ∧ .error ∉ o.sock

theorem Quiet.takesTurn (hok : .error ∉ sock) {r : Except Stop Outcome} (h : Quiet sock r)
    (c : Call) : TakesTurn env sock c r ⟨c, [], []⟩ where
  call := rfl
  fair := ⟨Nat.zero_le _, fun hne => absurd rfl hne⟩
  sent := h.sent
  taken := List.nil_prefix
  left := by
    intro o ho
    rw [h.sock o ho]
    exact ⟨rfl, hok⟩

/-- The reply of a call, by what it takes. -/
theorem proxySend_turn (hok : .error ∉ sock) (env : ProxyEnv) (c : Call) (passwd : Bytes) :
    sent (proxySend env sock c.mac passwd).2.1 =
        ((⟨c, (tcpRecv sock hexChallenge).2.1, passwd⟩ : Turn).reply env).toList ∧
      (proxySend env sock c.mac passwd).2.2 = (tcpRecv sock hexChallenge).2.2 := by
  obtain ⟨-, hshort, hret, -⟩ := tcpRecv_delivered hok hexChallenge
  have hsize : sizeT (tcpRecv sock hexChallenge).1 = (tcpRecv sock hexChallenge).2.1.length := by
    rw [hret, sizeT_ofNat (Nat.lt_of_le_of_lt hshort hexChallenge_lt)]
  by_cases hlt : (tcpRecv sock hexChallenge).2.1.length < hexChallenge
  · rw [proxySend_short env c.mac passwd (by rwa [hsize]), Turn.reply,
      if_neg (Nat.ne_of_lt hlt)]
    exact ⟨rfl, rfl⟩
  · have hfull : ¬ sizeT (tcpRecv sock hexChallenge).1 < hexChallenge := by rwa [hsize]
    refine ⟨?_, ?_⟩
    · rw [(proxySend_answer env c.mac passwd hfull).2.2, Turn.reply,
        if_pos (Nat.le_antisymm hshort (Nat.le_of_not_lt hlt))]
      rfl
    · simp only [proxySend, if_neg hfull]

/-- The pointer that a proxy call reads is not null. -/
theorem passwd_of_read {c : Call} {proxyPass : Pass} {pw : Option Bytes}
    (hpass : (if c.pass = .none then env.getpass.map Pass.prompt else some c.pass) =
      some proxyPass) (hread : proxyPass.read = .ok pw) :
    c.passwd env = some (pw.getD []) := by
  by_cases hnone : c.pass = .none
  · rw [if_pos hnone] at hpass
    obtain ⟨typed, htyped, rfl⟩ := Option.map_eq_some_iff.mp hpass
    cases hread
    rw [Call.passwd, if_pos hnone, htyped]
    rfl
  · rw [if_neg hnone] at hpass
    cases hpass
    rw [Call.passwd, if_neg hnone, hread]
    cases pw with
    | none => exact absurd (read_eq_none hread) hnone
    | some typed => rfl

theorem sendProxy_turn (hok : .error ∉ sock) (c : Call) :
    ∃ x, TakesTurn env sock c (sendProxy g env m sock c.mac host portnum c.pass) x := by
  obtain ⟨hdelivered, hshort, -, hok'⟩ := tcpRecv_delivered hok hexChallenge
  simp only [sendProxy]
  split
  · exact ⟨_, Quiet.takesTurn hok ⟨rfl, fun _ h => by cases h⟩ c⟩
  · rename_i hpass
    split
    · exact ⟨_, Quiet.takesTurn hok ⟨rfl, fun _ h => by cases h⟩ c⟩
    · rename_i pw hread
      obtain ⟨hsent, hsock⟩ := proxySend_turn hok env.proxy c (pw.getD [])
      have hfair : (⟨c, (tcpRecv sock hexChallenge).2.1, pw.getD []⟩ : Turn).Fair env :=
        ⟨hshort, fun _ => passwd_of_read hpass hread⟩
      have htaken : (tcpRecv sock hexChallenge).2.1 <+: delivered sock := by
        rw [hdelivered]
        exact List.prefix_append ..
      have hleft : delivered sock = (tcpRecv sock hexChallenge).2.1 ++
          delivered (proxySend env.proxy sock c.mac (pw.getD [])).2.2 ∧
          .error ∉ (proxySend env.proxy sock c.mac (pw.getD [])).2.2 := by
        rw [hsock]
        exact ⟨hdelivered, hok'⟩
      refine ⟨⟨c, (tcpRecv sock hexChallenge).2.1, pw.getD []⟩, ?_⟩
      split
      · exact ⟨rfl, hfair, hsent, htaken, fun _ h => by cases h⟩
      · split
        · refine ⟨rfl, hfair, ?_, htaken, fun _ h => by cases h; exact hleft⟩
          simp only [eventsOf]
          rw [sent_append, hsent]
          exact List.append_nil _
        · refine ⟨rfl, hfair, ?_, htaken, fun _ h => by cases h; exact hleft⟩
          simp only [eventsOf]
          rw [sent_append, hsent, sent_report, List.append_nil]

theorem call_turn {sys : Sys} {s : State} (hok : .error ∉ s.sock) (c : Call) :
    ∃ x, TakesTurn (sys.call s.calls) s.sock c (c.send sys s) x := by
  simp only [Call.send, assembleAndSend]
  split
  · exact ⟨_, sendUdp_quiet.takesTurn hok c⟩
  · split
    · exact sendProxy_turn hok c
    · exact ⟨_, sendRaw_quiet.takesTurn hok c⟩

end Call

/-! ## A run -/

section Run

variable {sys : Sys} {s s' : State} {events : List Event} {turns : List Turn} {calls : List Call}
  {stream : Bytes} {c : Call}

theorem next_sock (h : Next sys s events s') (hc : s.nextCall sys = some c) :
    ∃ o, c.send sys s = .ok o ∧ s'.sock = o.sock ∧ s'.calls = s.calls + 1 := by
  cases h with
  | target hphase ho =>
    rw [nextCall_target hphase] at hc
    cases hc
    exact ⟨_, ho, rfl, rfl⟩
  | stdin hphase _ | file hphase _ _ _ =>
    rw [nextCall_none hphase] at hc
    cases hc
  | record hphase hparse ho _ =>
    rw [nextCall_record hphase hparse] at hc
    cases hc
    exact ⟨_, ho, rfl, rfl⟩

theorem next_same_sock (h : Next sys s events s') (hc : s.nextCall sys = none) :
    s'.sock = s.sock ∧ s'.calls = s.calls := by
  cases h with
  | target hphase _ =>
    rw [nextCall_target hphase] at hc
    cases hc
  | stdin | file => exact ⟨rfl, rfl⟩
  | record hphase hparse _ _ =>
    rw [nextCall_record hphase hparse] at hc
    cases hc

/-- A round without a call sends nothing. -/
theorem sent_no_call (hc : s.nextCall sys = none) : sent (mainRound sys s).1 = [] := by
  cases hphase : s.phase with
  | targets rest =>
    cases rest with
    | cons mac rest =>
      rw [nextCall_target hphase] at hc
      cases hc
    | nil =>
      simp only [mainRound, hphase, openMacfile]
      split
      · rfl
      · split
        · rfl
        · split
          · rfl
          · rfl
  | macfile fp =>
    cases hparse : macfileParse (sys.junk s.calls) fp with
    | error f => simp only [mainRound, hphase, macfileRound, hparse]; rfl
    | ok call =>
      obtain ⟨r, port, fp'⟩ := call
      cases r with
      | none => simp only [mainRound, hphase, macfileRound, hparse]; rfl
      | some r =>
        rw [nextCall_record hphase hparse] at hc
        cases hc

theorem events_eq (c : Call) : c.events sys s = eventsOf (c.send sys s) := by
  rw [Call.events]
  cases c.send sys s with
  | error stop => rfl
  | ok o => rfl

/-- The turns account for the calls, for the replies and for the beginning of the stream. -/
structure Accounted (sys : Sys) (stream : Bytes) (turns : List Turn) (calls : List Call)
    (events : List Event) : Prop where
  calls : turns.map Turn.call = calls
  fair : ∀ x ∈ turns.zipIdx, x.1.Fair (sys.call x.2)
  sent : sent events = replies sys turns
  taken : (turns.map Turn.got).flatten <+: stream

/-- The turns so far, of a run that is in the state `s`; `stream` is what the connection delivered
from the start on. -/
structure Conversed (sys : Sys) (stream : Bytes) (turns : List Turn) (calls : List Call)
    (events : List Event) (s : State) : Prop where
  accounted : Accounted sys stream turns calls events
  count : s.calls = turns.length
  left : stream = (turns.map Turn.got).flatten ++ delivered s.sock
  ok : .error ∉ s.sock

/-- One round: a turn more, if it makes a call. -/
theorem Conversed.round (h : Conversed sys stream turns calls events s) :
    ∃ turns', Accounted sys stream turns' (calls ++ (callRound sys s).1)
        (events ++ (mainRound sys s).1) ∧
      ∀ s', (mainRound sys s).2 = .next s' →
        Conversed sys stream turns' (calls ++ (callRound sys s).1)
          (events ++ (mainRound sys s).1) s' := by
  cases hc : s.nextCall sys with
  | none =>
    have hcalls : (callRound sys s).1 = [] := by rw [callRound, hc]; rfl
    have hacc : Accounted sys stream turns (calls ++ (callRound sys s).1)
        (events ++ (mainRound sys s).1) := by
      refine ⟨?_, h.accounted.fair, ?_, h.accounted.taken⟩
      · rw [hcalls, List.append_nil, h.accounted.calls]
      · rw [sent_append, sent_no_call hc, List.append_nil, h.accounted.sent]
    refine ⟨turns, hacc, fun s' hs' => ?_⟩
    obtain ⟨hsock, hcount⟩ := next_same_sock (mainRound_next (Prod.ext rfl hs')) hc
    exact ⟨hacc, hcount.trans h.count, by rw [hsock]; exact h.left, by rw [hsock]; exact h.ok⟩
  | some c =>
    have hcalls : (callRound sys s).1 = [c] := by rw [callRound, hc]; rfl
    obtain ⟨x, hx⟩ := call_turn h.ok c
    have hacc : Accounted sys stream (turns ++ [x]) (calls ++ (callRound sys s).1)
        (events ++ (mainRound sys s).1) := by
      refine ⟨?_, ?_, ?_, ?_⟩
      · rw [hcalls, List.map_append, h.accounted.calls, List.map_singleton, hx.call]
      · intro y hy
        rw [List.zipIdx_append, List.mem_append] at hy
        rcases hy with hy | hy
        · exact h.accounted.fair y hy
        · obtain rfl : y = (x, turns.length) := by simpa using hy
          rw [← h.count]
          exact hx.fair
      · rw [sent_append, mainRound_events hc, events_eq, hx.sent, h.accounted.sent, replies_snoc,
          h.count]
      · rw [h.left, List.map_append, List.flatten_append, List.prefix_append_right_inj]
        simpa using hx.taken
    refine ⟨turns ++ [x], hacc, fun s' hs' => ?_⟩
    obtain ⟨o, ho, hsock, hcount⟩ := next_sock (mainRound_next (Prod.ext rfl hs')) hc
    obtain ⟨hleft, hok⟩ := hx.left o ho
    refine ⟨hacc, ?_, ?_, by rw [hsock]; exact hok⟩
    · rw [hcount, h.count, List.length_append, List.length_singleton]
    · rw [hsock, h.left, hleft, List.map_append, List.flatten_append, List.append_assoc]
      simp

/-- The whole run, by induction on its rounds. -/
theorem conversed_run {halt : Halt} {t : List Event} (he : Exec (mainRound sys) s t halt)
    (h : Conversed sys stream turns calls events s) :
    ∃ calls' turns', Exec (callRound sys) s calls' halt ∧
      Accounted sys stream turns' (calls ++ calls') (events ++ t) := by
  induction he generalizing turns calls events with
  | done hr =>
    obtain ⟨turns', hacc, -⟩ := h.round
    rw [hr] at hacc
    exact ⟨_, turns', .done (Prod.ext rfl (by rw [callRound, hr])), hacc⟩
  | next hr _ ih =>
    obtain ⟨turns', -, hnext⟩ := h.round
    rw [hr] at hnext
    obtain ⟨calls', turns'', hexec, hacc⟩ := ih (hnext _ rfl)
    rw [List.append_assoc, List.append_assoc] at hacc
    exact ⟨_, turns'', .next (Prod.ext rfl (by rw [callRound, hr])) hexec, hacc⟩

theorem sent_diagnostics {programName : Bytes} {getpass : Option Bytes} (found : List Found)
    (p : Parse) : sent (diagnostics programName getpass found p) = [] := by
  induction found generalizing p with
  | nil => rfl
  | cons f fs ih =>
    have hprinted : sent (diagnostic f.printed) = [] := by
      rw [diagnostic]
      split
      · rfl
      · rfl
    rw [diagnostics, sent_append, hprinted, List.nil_append]
    split
    · rfl
    · split
      · rfl
      · exact ih _

/-- **No challenge is answered twice.** On a connection without errors the replies of a run are
those of its calls that take 33 bytes, each with its own target and password; the calls take the
bytes of the connection in their order, so that every reply has a challenge of its own. -/
theorem mainRuns_replies {posixlyCorrect : Bool} {args : List Bytes} {s₀ : State}
    (hstart : start sys (commandLine posixlyCorrect sys.programName args) = .ok s₀)
    (hok : .error ∉ s₀.sock) {halt : Halt} (h : MainRuns sys posixlyCorrect args events halt) :
    (∃ turns, Exec (callRound sys) s₀ (turns.map Turn.call) halt ∧
      (∀ x ∈ turns.zipIdx, x.1.Fair (sys.call x.2)) ∧ sent events = replies sys turns ∧
      (turns.map Turn.got).flatten <+: delivered s₀.sock) ∧
    hexChallenge * (sent events).length ≤ (delivered s₀.sock).length := by
  obtain ⟨events', hruns, rfl⟩ := h.runs
  rw [Runs, hstart] at hruns
  obtain ⟨-, -, -, -, hcount⟩ := start_inv hstart
  have hempty : Accounted sys (delivered s₀.sock) [] [] [] :=
    ⟨rfl, fun _ hx => absurd hx List.not_mem_nil, rfl, List.nil_prefix⟩
  obtain ⟨calls, turns, hexec, hacc⟩ := conversed_run hruns ⟨hempty, hcount, rfl, hok⟩
  rw [List.nil_append, List.nil_append] at hacc
  rw [sent_append, sent_diagnostics, List.nil_append]
  refine ⟨⟨turns, by rw [hacc.calls]; exact hexec, hacc.fair, hacc.sent, hacc.taken⟩, ?_⟩
  rw [hacc.sent]
  exact Nat.le_trans (length_replies sys turns) hacc.taken.length_le

theorem runs_of_exec {args : CommandLine} {s₀ : State} {halt : Halt}
    (hstart : start sys args = .ok s₀) (he : Exec (mainRound sys) s₀ events halt) :
    Runs sys args events halt := by
  rw [Runs, hstart]
  exact he

/-- A proxy that asks once. -/
def onceSys : Sys := { proxySys with connect := fun _ _ => some exampleChallenge }

/-- With two targets and one challenge there is at most one reply. -/
theorem mainRuns_replies_once : ∃ events halt,
    MainRuns onceSys false (["-s", "P", "1:2:3:4:5:6", "bob"].map ascii) events halt ∧
      (sent events).length ≤ 1 := by
  have hline : commandLine false onceSys.programName
      (["-s", "P", "1:2:3:4:5:6", "bob"].map ascii) = askedArgs := by decide +kernel
  have hstart : start onceSys askedArgs = .ok _ := rfl
  obtain ⟨events, halt, hruns⟩ : ∃ events halt, Runs onceSys askedArgs events halt :=
    ⟨_, _, runs_of_exec hstart (.next rfl (.next rfl (.done rfl)))⟩
  rw [← hline] at hstart hruns
  have hmain := mainRuns_of_runs hruns
  refine ⟨_, _, hmain, ?_⟩
  have hle := (mainRuns_replies hstart (show .error ∉ exampleChallenge by decide) hmain).2
  have hdelivered : (delivered exampleChallenge).length = hexChallenge := by decide
  exact Nat.le_of_mul_le_mul_left (Nat.le_trans hle (Nat.le_of_eq hdelivered)) (by decide)

end Run

end WakeOnLan
