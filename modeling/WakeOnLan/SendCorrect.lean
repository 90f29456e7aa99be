import WakeOnLan.MagicCorrect
import WakeOnLan.ProxyCorrect
import WakeOnLan.Send

/-!
# WakeOnLan.SendCorrect

One call of `assemble_and_send`.

* `sendUdp_cases` / `sendRaw_cases` / `sendProxy_eq` — the outcomes of a call in each mode.
* `Returned`     — the same of a call that is known to return, whatever its mode.
* `Accepted`     — the target was assembled and the transport took the whole message.
* `Truthful`     — the call says so if and only if that is the case.
* `TruthfulWhen` — the condition under which it does (`truthful_iff`).
* `Identifies`   — the hashed message tells two targets apart: it has six characters of their texts.
-/

namespace WakeOnLan

open CLib

/-! ## The mode of a call -/

def InProxyMode (g : Globals) : Prop :=
  g.packetMode &&& udpMode = 0 ∧ g.packetMode &&& proxyMode ≠ 0

instance (g : Globals) : Decidable (InProxyMode g) := inferInstanceAs (Decidable (_ ∧ _))

section Mode

variable {g : Globals} {env : Env} {m : Magic} {sock : List Recv} {mac host : Bytes}
  {portnum : UInt32}

theorem assembleAndSend_udp (hudp : g.packetMode &&& udpMode ≠ 0) (pass : Pass) :
    assembleAndSend g env m sock mac host portnum pass =
      sendUdp g env m sock mac host portnum pass := if_pos hudp

theorem assembleAndSend_proxy (hmode : InProxyMode g) (pass : Pass) :
    assembleAndSend g env m sock mac host portnum pass =
      sendProxy g env m sock mac host portnum pass := by
  simp [assembleAndSend, hmode.1, hmode.2]

theorem assembleAndSend_raw (hudp : g.packetMode &&& udpMode = 0)
    (hproxy : g.packetMode &&& proxyMode = 0) (pass : Pass) :
    assembleAndSend g env m sock mac host portnum pass =
      sendRaw g env m sock mac host portnum pass := by
  simp [assembleAndSend, hudp, hproxy]

end Mode

/-! ## Outcomes -/

section Outcomes

variable (g : Globals) (env : Env) {m : Magic} (sock : List Recv) (mac host : Bytes)
  (portnum : UInt32) {pass : Pass} {pw : Option Bytes}

/-- The buffer behind the `magic_assemble` of a call. -/
def assembledBuffer (env : Env) (m : Magic) (mac : Bytes) (pw : Option Bytes) : Magic :=
  (magicAssemble env.ethers env.uninit m (some mac) pw).2

theorem assembledBuffer_wf (hm : m.WF) (env : Env) (mac : Bytes) (pw : Option Bytes) :
    (assembledBuffer env m mac pw).WF := magicAssemble_wf hm ..

theorem assembleError_some {ret : Int} (h : ret = -1 ∨ ret = -2) (mac : Bytes) :
    ∃ text, assembleError ret mac = some text := by
  rcases h with rfl | rfl
  · exact ⟨_, rfl⟩
  · exact ⟨_, rfl⟩

theorem sendUdp_cases (hm : m.WF) (hp : pass.read = .ok pw) :
    (packetOf env.ethers mac pw = none ∧ ∃ text,
      sendUdp g env m sock mac host portnum pass =
        .ok ⟨-1, [.error text], assembledBuffer env m mac pw, sock, pass⟩) ∨
    ∃ packet, packetOf env.ethers mac pw = some packet ∧
      ((env.gethostbyname host = none ∧ sendUdp g env m sock mac host portnum pass =
          .ok ⟨-1, [.error invalidIpAddress, .error (cannotSend mac host portnum)],
            assembledBuffer env m mac pw, sock, pass⟩) ∨
       ∃ addr, env.gethostbyname host = some addr ∧
        ((env.sendto (.inet addr portnum.toUInt16) packet = -1 ∧
          sendUdp g env m sock mac host portnum pass =
            .ok ⟨-1, [.sendto (.inet addr portnum.toUInt16) packet,
                .error (cannotSend mac host portnum)],
              assembledBuffer env m mac pw, sock, pass⟩) ∨
         (env.sendto (.inet addr portnum.toUInt16) packet ≠ -1 ∧
          sendUdp g env m sock mac host portnum pass =
            .ok ⟨0, .sendto (.inet addr portnum.toUInt16) packet :: report g mac host portnum,
              assembledBuffer env m mac pw, sock, pass⟩))) := by
  cases hpk : packetOf env.ethers mac pw with
  | none =>
    obtain ⟨text, ht⟩ := assembleError_some (magicAssemble_no_packet hpk (m := m) env.uninit) mac
    refine .inl ⟨rfl, text, ?_⟩
    simp only [sendUdp, hp, ht]
    rfl
  | some packet =>
    have ha := magicAssemble_packet hm hpk env.uninit
    refine .inr ⟨packet, rfl, ?_⟩
    cases hh : env.gethostbyname host with
    | none =>
      refine .inl ⟨rfl, ?_⟩
      simp [sendUdp, hp, ha, assembleError, udpSend, netResolv, hh, assembledBuffer]
    | some addr =>
      refine .inr ⟨addr, rfl, ?_⟩
      by_cases hs : env.sendto (.inet addr portnum.toUInt16) packet = -1
      · refine .inl ⟨hs, ?_⟩
        simp [sendUdp, hp, ha, assembleError, udpSend, netResolv, hh, assembledBuffer, hs]
      · refine .inr ⟨hs, ?_⟩
        simp [sendUdp, hp, ha, assembleError, udpSend, netResolv, hh, assembledBuffer, hs]

theorem sendRaw_cases (hm : m.WF) (hp : pass.read = .ok pw) :
    (packetOf env.ethers mac pw = none ∧ ∃ text,
      sendRaw g env m sock mac host portnum pass =
        .ok ⟨-1, [.error text], assembledBuffer env m mac pw, sock, pass⟩) ∨
    ∃ packet, packetOf env.ethers mac pw = some packet ∧
      sendRaw g env m sock mac host portnum pass =
        .ok ⟨0, .sendto .packet packet :: report g mac host portnum,
          assembledBuffer env m mac pw, sock, pass⟩ := by
  cases hpk : packetOf env.ethers mac pw with
  | none =>
    obtain ⟨text, ht⟩ := assembleError_some (magicAssemble_no_packet hpk (m := m) env.uninit) mac
    refine .inl ⟨rfl, text, ?_⟩
    simp only [sendRaw, hp, ht]
    rfl
  | some packet =>
    have ha := magicAssemble_packet hm hpk env.uninit
    refine .inr ⟨packet, rfl, ?_⟩
    simp [sendRaw, hp, ha, assembleError, rawSend, assembledBuffer]

/-- The password a proxy call works with: the caller's, or the one that is typed in. -/
inductive ProxyPass (env : Env) : Pass → Bytes → Prop where
  | main (s : Bytes) : ProxyPass env (.main s) s
  | prompt (s : Bytes) : ProxyPass env (.prompt s) s
  | typed {s : Bytes} : env.getpass = some s → ProxyPass env .none s

/-- The caller's pointer after a proxy call. -/
def afterProxy (pass : Pass) : Pass := if pass = .none then .none else .released

theorem sendProxy_eq {s : Bytes} (hp : ProxyPass env pass s) :
    sendProxy g env m sock mac host portnum pass =
      let r := proxySend env.proxy sock mac s
      if r.1 ≠ 0 then
        .ok ⟨-1, r.2.1 ++ [.error (cannotSend mac host portnum)], m, r.2.2, afterProxy pass⟩
      else .ok ⟨0, r.2.1 ++ report g mac host portnum, m, r.2.2, afterProxy pass⟩ := by
  cases hp with
  | main s => rfl
  | prompt s => rfl
  | typed h => simp [sendProxy, h, Pass.read, Pass.xfree, afterProxy]

/-- Without such a password the program stops in the call. -/
theorem sendProxy_stop (hp : ∀ s, ¬ ProxyPass env pass s) :
    ∃ stop, sendProxy g env m sock mac host portnum pass = .error stop := by
  cases pass with
  | none =>
    cases hg : env.getpass with
    | none =>
      refine ⟨⟨[.error getpassFailed], .exit 1⟩, ?_⟩
      simp [sendProxy, hg]
    | some s => exact absurd (.typed hg) (hp s)
  | arg s => exact ⟨_, rfl⟩
  | main s => exact absurd (.main s) (hp s)
  | prompt s => exact absurd (.prompt s) (hp s)
  | released => exact ⟨_, rfl⟩

/-- What a call has done that returns. -/
inductive Returned (m : Magic) (pass : Pass) : Outcome → Prop where
  | unassembled {pw : Option Bytes} {text : Bytes} :
      g.packetMode &&& udpMode ≠ 0 ∨ g.packetMode &&& proxyMode = 0 → pass.read = .ok pw →
      packetOf env.ethers mac pw = none →
      Returned m pass ⟨-1, [.error text], assembledBuffer env m mac pw, sock, pass⟩
  | unresolved {pw : Option Bytes} {packet : Bytes} : g.packetMode &&& udpMode ≠ 0 →
      pass.read = .ok pw → packetOf env.ethers mac pw = some packet →
      env.gethostbyname host = none →
      Returned m pass ⟨-1, [.error invalidIpAddress, .error (cannotSend mac host portnum)],
        assembledBuffer env m mac pw, sock, pass⟩
  | refused {pw : Option Bytes} {packet : Bytes} {addr : InAddr} :
      g.packetMode &&& udpMode ≠ 0 → pass.read = .ok pw →
      packetOf env.ethers mac pw = some packet → env.gethostbyname host = some addr →
      env.sendto (.inet addr portnum.toUInt16) packet = -1 →
      Returned m pass ⟨-1, [.sendto (.inet addr portnum.toUInt16) packet,
        .error (cannotSend mac host portnum)], assembledBuffer env m mac pw, sock, pass⟩
  | udp {pw : Option Bytes} {packet : Bytes} {addr : InAddr} :
      g.packetMode &&& udpMode ≠ 0 → pass.read = .ok pw →
      packetOf env.ethers mac pw = some packet → env.gethostbyname host = some addr →
      env.sendto (.inet addr portnum.toUInt16) packet ≠ -1 →
      Returned m pass ⟨0, .sendto (.inet addr portnum.toUInt16) packet ::
        report g mac host portnum, assembledBuffer env m mac pw, sock, pass⟩
  | raw {pw : Option Bytes} {packet : Bytes} : g.packetMode &&& udpMode = 0 →
      g.packetMode &&& proxyMode = 0 → pass.read = .ok pw →
      packetOf env.ethers mac pw = some packet →
      Returned m pass ⟨0, .sendto .packet packet :: report g mac host portnum,
        assembledBuffer env m mac pw, sock, pass⟩
  | unanswered {pw : Bytes} : g.packetMode &&& udpMode = 0 → g.packetMode &&& proxyMode ≠ 0 →
      ProxyPass env pass pw → (proxySend env.proxy sock mac pw).1 ≠ 0 →
      Returned m pass ⟨-1, (proxySend env.proxy sock mac pw).2.1 ++
        [.error (cannotSend mac host portnum)], m, (proxySend env.proxy sock mac pw).2.2,
        afterProxy pass⟩
  | answered {pw : Bytes} : g.packetMode &&& udpMode = 0 → g.packetMode &&& proxyMode ≠ 0 →
      ProxyPass env pass pw → (proxySend env.proxy sock mac pw).1 = 0 →
      Returned m pass ⟨0, (proxySend env.proxy sock mac pw).2.1 ++ report g mac host portnum, m,
        (proxySend env.proxy sock mac pw).2.2, afterProxy pass⟩

variable {g env sock mac host portnum}

theorem returned_udp (hm : m.WF) (hudp : g.packetMode &&& udpMode ≠ 0) {o : Outcome}
    (h : sendUdp g env m sock mac host portnum pass = .ok o) :
    Returned g env sock mac host portnum m pass o := by
  cases hp : pass.read with
  | error f =>
    simp only [sendUdp, hp] at h
    cases h
  | ok pw =>
    rcases sendUdp_cases g env sock mac host portnum hm hp with
      ⟨hpk, _, ho⟩ | ⟨_, hpk, ⟨hh, ho⟩ | ⟨_, hh, ⟨hs, ho⟩ | ⟨hs, ho⟩⟩⟩
    all_goals
      rw [h] at ho
      cases ho
    · exact .unassembled (.inl hudp) hp hpk
    · exact .unresolved hudp hp hpk hh
    · exact .refused hudp hp hpk hh hs
    · exact .udp hudp hp hpk hh hs

theorem returned_raw (hm : m.WF) (hudp : g.packetMode &&& udpMode = 0)
    (hproxy : g.packetMode &&& proxyMode = 0) {o : Outcome}
    (h : sendRaw g env m sock mac host portnum pass = .ok o) :
    Returned g env sock mac host portnum m pass o := by
  cases hp : pass.read with
  | error f =>
    simp only [sendRaw, hp] at h
    cases h
  | ok pw =>
    rcases sendRaw_cases g env sock mac host portnum hm hp with ⟨hpk, _, ho⟩ | ⟨_, hpk, ho⟩
    all_goals
      rw [h] at ho
      cases ho
    · exact .unassembled (.inr hproxy) hp hpk
    · exact .raw hudp hproxy hp hpk

theorem returned_proxy (hudp : g.packetMode &&& udpMode = 0)
    (hproxy : g.packetMode &&& proxyMode ≠ 0) {o : Outcome}
    (h : sendProxy g env m sock mac host portnum pass = .ok o) :
    Returned g env sock mac host portnum m pass o := by
  by_cases hp : ∃ pw, ProxyPass env pass pw
  · obtain ⟨pw, hp⟩ := hp
    rw [sendProxy_eq g env sock mac host portnum hp] at h
    by_cases hzero : (proxySend env.proxy sock mac pw).1 = 0
    · rw [if_neg (not_not.mpr hzero)] at h
      cases h
      exact .answered hudp hproxy hp hzero
    · rw [if_pos hzero] at h
      cases h
      exact .unanswered hudp hproxy hp hzero
  · obtain ⟨stop, hstop⟩ := sendProxy_stop g env (m := m) sock mac host portnum
      (not_exists.mp hp)
    rw [h] at hstop
    cases hstop

/-- A call that returns has returned in one of these ways. -/
theorem returned_of_ok (hm : m.WF) {o : Outcome}
    (h : assembleAndSend g env m sock mac host portnum pass = .ok o) :
    Returned g env sock mac host portnum m pass o := by
  simp only [assembleAndSend] at h
  split at h
  · rename_i hudp
    exact returned_udp hm hudp h
  · rename_i hudp
    split at h
    · rename_i hproxy
      exact returned_proxy (not_not.mp hudp) hproxy h
    · rename_i hproxy
      exact returned_raw hm (not_not.mp hudp) (not_not.mp hproxy) h

end Outcomes

/-! ## Success and its report -/

/-- The transport calls answer `-1` or take all of a datagram, and `send` takes any part of a
reply. -/
structure Transport (env : Env) : Prop where
  sendto : ∀ dest buf, env.sendto dest buf = -1 ∨ env.sendto dest buf = buf.length
  send : env.proxy.send = -1 ∨ (0 ≤ env.proxy.send ∧ env.proxy.send ≤ hexChallenge)

section Truthful

variable (g : Globals) (env : Env) (m : Magic) (sock : List Recv) (mac host : Bytes)
  (portnum : UInt32) (pass : Pass)

/-- The message of the target was assembled and the transport took the whole of it. In proxy mode
the message is the reply to a challenge that was received. -/
inductive Accepted : Prop where
  | udp {pw : Option Bytes} {packet : Bytes} {addr : InAddr} : g.packetMode &&& udpMode ≠ 0 →
      pass.read = .ok pw → packetOf env.ethers mac pw = some packet →
      env.gethostbyname host = some addr →
      env.sendto (.inet addr portnum.toUInt16) packet = packet.length → Accepted
  | proxy : g.packetMode &&& udpMode = 0 → g.packetMode &&& proxyMode ≠ 0 →
      (tcpRecv sock hexChallenge).1 = hexChallenge → env.proxy.send = hexChallenge → Accepted
  | raw {pw : Option Bytes} {packet : Bytes} : g.packetMode &&& udpMode = 0 →
      g.packetMode &&& proxyMode = 0 → pass.read = .ok pw →
      packetOf env.ethers mac pw = some packet →
      env.sendto .packet packet = packet.length → Accepted

/-- The call returns, with `0` and the report if the target was accepted, and else with `-1` and
without it. -/
def Truthful : Prop :=
  ∃ o, assembleAndSend g env m sock mac host portnum pass = .ok o ∧
    (Accepted g env sock mac host portnum pass →
      o.ret = 0 ∧ .stdout (wakingUp g.verbose mac host portnum) ∈ o.events) ∧
    (¬ Accepted g env sock mac host portnum pass →
      o.ret = -1 ∧ .stdout (wakingUp g.verbose mac host portnum) ∉ o.events)

/-- UDP mode: the password is not freed memory. RAW mode: moreover `sendto` does not fail on the
packet. PROXY mode: the password is on the heap or is typed in; and the challenge comes short, or
it is complete and `send` takes neither all nor nothing, or `recv` fails and `send` does not take
nothing. -/
def TruthfulWhen : Prop :=
  if g.packetMode &&& udpMode ≠ 0 then pass ≠ .released
  else if g.packetMode &&& proxyMode ≠ 0 then
    (∃ s, ProxyPass env pass s) ∧
      ((0 ≤ (tcpRecv sock hexChallenge).1 ∧ (tcpRecv sock hexChallenge).1 < hexChallenge) ∨
       ((tcpRecv sock hexChallenge).1 = hexChallenge ∧
          env.proxy.send ≠ hexChallenge ∧ env.proxy.send ≠ 0) ∨
       ((tcpRecv sock hexChallenge).1 = -1 ∧ env.proxy.send ≠ 0))
  else pass ≠ .released ∧ ∀ pw packet, pass.read = .ok pw →
    packetOf env.ethers mac pw = some packet → env.sendto .packet packet ≠ -1

variable {g env m sock mac host portnum pass}

theorem read_of_not_released (h : pass ≠ .released) : ∃ pw, pass.read = .ok pw := by
  cases pass with
  | none | arg s | main s | prompt s => exact ⟨_, rfl⟩
  | released => exact absurd rfl h

theorem report_mem : .stdout (wakingUp g.verbose mac host portnum) ∈ report g mac host portnum :=
  List.mem_cons_self ..

theorem head?_wakingUp (verbose : Bool) : (wakingUp verbose mac host portnum).head? = some 87 := rfl

/-- The other lines that a proxy call prints are no reports. -/
theorem wakingUp_not_mem_proxySend (penv : ProxyEnv) (sock : List Recv) (mac host : Bytes)
    (portnum : UInt32) (verbose : Bool) (passwd : Bytes) :
    .stdout (wakingUp verbose mac host portnum) ∉ (proxySend penv sock mac passwd).2.1 := by
  have hline : ∀ (b : UInt8) (text : Bytes), b ≠ 87 → text.head? = some b →
      Event.stdout (wakingUp verbose mac host portnum) ≠ .stdout text := by
    intro b text hb htext heq
    cases heq
    rw [head?_wakingUp] at htext
    exact hb (Option.some.inj htext).symm
  by_cases h : sizeT (tcpRecv sock hexChallenge).1 < hexChallenge
  · rw [proxySend_short penv mac passwd h]
    exact List.not_mem_nil
  · simp only [proxySend, if_neg h, List.mem_cons, List.not_mem_nil, or_false, not_or]
    exact ⟨hline 114 _ (by decide) rfl, by simp, hline 115 _ (by decide) rfl,
      hline 114 _ (by decide) rfl, by simp⟩

theorem Transport.take_all (ht : Transport env) {dest : SockAddr} {buf : Bytes}
    (h : env.sendto dest buf ≠ -1) : env.sendto dest buf = buf.length :=
  (ht.sendto dest buf).resolve_left h

theorem Transport.failed {dest : SockAddr} {buf : Bytes} (h : env.sendto dest buf = -1) :
    env.sendto dest buf ≠ buf.length := by
  rw [h]
  omega

/-- Acceptance, mode by mode. -/
theorem accepted_udp_iff {pw : Option Bytes} (hmode : g.packetMode &&& udpMode ≠ 0)
    (hp : pass.read = .ok pw) :
    Accepted g env sock mac host portnum pass ↔ ∃ packet addr,
      packetOf env.ethers mac pw = some packet ∧ env.gethostbyname host = some addr ∧
        env.sendto (.inet addr portnum.toUInt16) packet = packet.length := by
  constructor
  · intro h
    cases h with
    | udp _ hp' hpk hh hs =>
      rw [hp] at hp'
      cases hp'
      exact ⟨_, _, hpk, hh, hs⟩
    | proxy h0 => exact absurd h0 hmode
    | raw h0 => exact absurd h0 hmode
  · rintro ⟨packet, addr, hpk, hh, hs⟩
    exact .udp hmode hp hpk hh hs

theorem accepted_raw_iff {pw : Option Bytes} (hudp : g.packetMode &&& udpMode = 0)
    (hproxy : g.packetMode &&& proxyMode = 0) (hp : pass.read = .ok pw) :
    Accepted g env sock mac host portnum pass ↔ ∃ packet,
      packetOf env.ethers mac pw = some packet ∧ env.sendto .packet packet = packet.length := by
  constructor
  · intro h
    cases h with
    | udp h0 => exact absurd hudp h0
    | proxy _ h0 => exact absurd hproxy h0
    | raw _ _ hp' hpk hs =>
      rw [hp] at hp'
      cases hp'
      exact ⟨_, hpk, hs⟩
  · rintro ⟨packet, hpk, hs⟩
    exact .raw hudp hproxy hp hpk hs

theorem accepted_proxy_iff (hudp : g.packetMode &&& udpMode = 0)
    (hproxy : g.packetMode &&& proxyMode ≠ 0) :
    Accepted g env sock mac host portnum pass ↔
      (tcpRecv sock hexChallenge).1 = hexChallenge ∧ env.proxy.send = hexChallenge := by
  constructor
  · intro h
    cases h with
    | udp h0 => exact absurd hudp h0
    | proxy _ _ hr hs => exact ⟨hr, hs⟩
    | raw _ h0 => exact absurd h0 hproxy
  · rintro ⟨hr, hs⟩
    exact .proxy hudp hproxy hr hs

/-- A call that reports success under `P`, and failure otherwise, is truthful when `P` is
acceptance. -/
theorem truthful_of_outcome {o : Outcome} {P : Prop}
    (ho : assembleAndSend g env m sock mac host portnum pass = .ok o)
    (hout : (P ∧ o.ret = 0 ∧ .stdout (wakingUp g.verbose mac host portnum) ∈ o.events) ∨
      (¬ P ∧ o.ret = -1 ∧ .stdout (wakingUp g.verbose mac host portnum) ∉ o.events)) :
    Truthful g env m sock mac host portnum pass ↔
      (Accepted g env sock mac host portnum pass ↔ P) := by
  rcases hout with ⟨hP, hret, hrep⟩ | ⟨hP, hret, hrep⟩
  · constructor
    · rintro ⟨o', ho', -, hno⟩
      rw [ho] at ho'
      cases ho'
      refine ⟨fun _ => hP, fun _ => ?_⟩
      by_contra hnot
      have hret' := (hno hnot).1
      omega
    · intro h
      exact ⟨o, ho, fun _ => ⟨hret, hrep⟩, fun hnot => absurd (h.mpr hP) hnot⟩
  · constructor
    · rintro ⟨o', ho', hyes, -⟩
      rw [ho] at ho'
      cases ho'
      refine ⟨fun hacc => ?_, fun hP' => absurd hP' hP⟩
      have hret' := (hyes hacc).1
      omega
    · intro h
      exact ⟨o, ho, fun hacc => absurd (h.mp hacc) hP, fun _ => ⟨hret, hrep⟩⟩

theorem truthful_udp (hm : m.WF) (ht : Transport env) (hmode : g.packetMode &&& udpMode ≠ 0) :
    Truthful g env m sock mac host portnum pass ↔ pass ≠ .released := by
  have hcall : assembleAndSend g env m sock mac host portnum pass =
      sendUdp g env m sock mac host portnum pass := assembleAndSend_udp hmode pass
  constructor
  · rintro ⟨o, ho, -, -⟩ rfl
    rw [hcall] at ho
    cases ho
  · intro hpass
    obtain ⟨pw, hp⟩ := read_of_not_released hpass
    have hacc : Accepted g env sock mac host portnum pass ↔ _ := accepted_udp_iff hmode hp
    rcases sendUdp_cases g env sock mac host portnum hm hp with
      ⟨hpk, text, ho⟩ | ⟨packet, hpk, ⟨hh, ho⟩ | ⟨addr, hh, ⟨hs, ho⟩ | ⟨hs, ho⟩⟩⟩
    · rw [truthful_of_outcome (P := False) (hcall.trans ho) (.inr ⟨id, rfl, by simp⟩), hacc]
      simp [hpk]
    · rw [truthful_of_outcome (P := False) (hcall.trans ho) (.inr ⟨id, rfl, by simp⟩), hacc]
      simp [hh]
    · have hfail := Transport.failed hs
      rw [truthful_of_outcome (P := False) (hcall.trans ho) (.inr ⟨id, rfl, by simp⟩), hacc]
      simp [hpk, hh, hfail]
    · have hall := ht.take_all hs
      rw [truthful_of_outcome (P := True) (hcall.trans ho)
        (.inl ⟨trivial, rfl, List.mem_cons_of_mem _ report_mem⟩), hacc]
      simp [hpk, hh, hall]

theorem truthful_raw (hm : m.WF) (ht : Transport env) (hudp : g.packetMode &&& udpMode = 0)
    (hproxy : g.packetMode &&& proxyMode = 0) :
    Truthful g env m sock mac host portnum pass ↔
      pass ≠ .released ∧ ∀ pw packet, pass.read = .ok pw →
        packetOf env.ethers mac pw = some packet → env.sendto .packet packet ≠ -1 := by
  have hcall : assembleAndSend g env m sock mac host portnum pass =
      sendRaw g env m sock mac host portnum pass := assembleAndSend_raw hudp hproxy pass
  by_cases hpass : pass = .released
  · subst hpass
    constructor
    · rintro ⟨o, ho, -, -⟩
      rw [hcall] at ho
      cases ho
    · intro h
      exact absurd rfl h.1
  · obtain ⟨pw, hp⟩ := read_of_not_released hpass
    have hacc : Accepted g env sock mac host portnum pass ↔ _ := accepted_raw_iff hudp hproxy hp
    have hcond : (∀ pw' packet, pass.read = .ok pw' → packetOf env.ethers mac pw' = some packet →
        env.sendto .packet packet ≠ -1) ↔
        ∀ packet, packetOf env.ethers mac pw = some packet → env.sendto .packet packet ≠ -1 := by
      constructor
      · exact fun h packet => h pw packet hp
      · intro h pw' packet hp'
        rw [hp] at hp'
        cases hp'
        exact h packet
    rw [hcond]
    rcases sendRaw_cases g env sock mac host portnum hm hp with ⟨hpk, text, ho⟩ | ⟨packet, hpk, ho⟩
    · rw [truthful_of_outcome (P := False) (hcall.trans ho) (.inr ⟨id, rfl, by simp⟩), hacc]
      simp [hpk, hpass]
    · have hall : env.sendto .packet packet = packet.length ↔ env.sendto .packet packet ≠ -1 :=
        ⟨fun h hs => Transport.failed hs h, ht.take_all⟩
      rw [truthful_of_outcome (P := True) (hcall.trans ho)
        (.inl ⟨trivial, rfl, List.mem_cons_of_mem _ report_mem⟩), hacc]
      simp [hpk, hpass, hall]

/-- The value `proxy_send` returns: `-1` on a short challenge, else the result of `send`. -/
theorem proxySend_ret (penv : ProxyEnv) (passwd : Bytes) :
    (proxySend penv sock mac passwd).1 =
      if sizeT (tcpRecv sock hexChallenge).1 < hexChallenge then -1 else penv.send := by
  by_cases h : sizeT (tcpRecv sock hexChallenge).1 < hexChallenge
  · rw [if_pos h, proxySend_short penv mac passwd h]
  · rw [if_neg h, (proxySend_answer penv mac passwd h).1]

/-- Zero is taken for success, any other value for failure. -/
theorem sendProxy_outcome (g : Globals) (m : Magic) (sock : List Recv) (mac host : Bytes)
    (portnum : UInt32) {s : Bytes} (hp : ProxyPass env pass s) :
    ∃ o, sendProxy g env m sock mac host portnum pass = .ok o ∧
      (((proxySend env.proxy sock mac s).1 = 0 ∧ o.ret = 0 ∧
          .stdout (wakingUp g.verbose mac host portnum) ∈ o.events) ∨
       ((proxySend env.proxy sock mac s).1 ≠ 0 ∧ o.ret = -1 ∧
          .stdout (wakingUp g.verbose mac host portnum) ∉ o.events)) := by
  have hno := wakingUp_not_mem_proxySend env.proxy sock mac host portnum g.verbose s
  rw [sendProxy_eq g env sock mac host portnum hp]
  by_cases h : (proxySend env.proxy sock mac s).1 = 0
  · refine ⟨_, if_neg (not_not.mpr h), .inl ⟨h, rfl, ?_⟩⟩
    exact List.mem_append_right _ report_mem
  · refine ⟨_, if_pos h, .inr ⟨h, rfl, ?_⟩⟩
    simp [hno]

/-- A call in proxy mode is truthful when acceptance and the value zero coincide. -/
theorem truthful_proxy_iff (m : Magic) (sock : List Recv) (mac host : Bytes) (portnum : UInt32)
    (hudp : g.packetMode &&& udpMode = 0) (hproxy : g.packetMode &&& proxyMode ≠ 0) {s : Bytes}
    (hp : ProxyPass env pass s) :
    Truthful g env m sock mac host portnum pass ↔
      (Accepted g env sock mac host portnum pass ↔
        (proxySend env.proxy sock mac s).1 = 0) := by
  have hcall : assembleAndSend g env m sock mac host portnum pass =
      sendProxy g env m sock mac host portnum pass := assembleAndSend_proxy ⟨hudp, hproxy⟩ pass
  obtain ⟨o, ho, hout⟩ := sendProxy_outcome g m sock mac host portnum hp
  exact truthful_of_outcome (hcall.trans ho) hout

theorem truthful_proxy (hudp : g.packetMode &&& udpMode = 0)
    (hproxy : g.packetMode &&& proxyMode ≠ 0) :
    Truthful g env m sock mac host portnum pass ↔
      (∃ s, ProxyPass env pass s) ∧
        ((0 ≤ (tcpRecv sock hexChallenge).1 ∧ (tcpRecv sock hexChallenge).1 < hexChallenge) ∨
         ((tcpRecv sock hexChallenge).1 = hexChallenge ∧
            env.proxy.send ≠ hexChallenge ∧ env.proxy.send ≠ 0) ∨
         ((tcpRecv sock hexChallenge).1 = -1 ∧ env.proxy.send ≠ 0)) := by
  have hcall : assembleAndSend g env m sock mac host portnum pass =
      sendProxy g env m sock mac host portnum pass := assembleAndSend_proxy ⟨hudp, hproxy⟩ pass
  by_cases hp : ∃ s, ProxyPass env pass s
  · obtain ⟨s, hs⟩ := hp
    have htruthful := truthful_proxy_iff m sock mac host portnum hudp hproxy hs
    rw [accepted_proxy_iff hudp hproxy, proxySend_ret] at htruthful
    rw [htruthful, and_iff_right (show ∃ s, ProxyPass env pass s from ⟨s, hs⟩)]
    rcases recv_cases sock with ⟨_, hr, _⟩ | ⟨hlt, _, hr⟩ | ⟨_, hr, _⟩
    · rw [hr, sizeT_neg_one, if_neg (by decide)]
      have : (-1 : Int) ≠ hexChallenge := by decide
      simp [this]
    · have hsize : sizeT (firstPiece sock).length < hexChallenge := by
        rwa [sizeT_ofNat (Nat.lt_trans hlt hexChallenge_lt)]
      rw [hr, if_pos hsize]
      omega
    · have hsize : ¬ sizeT (hexChallenge : Int) < hexChallenge := by
        rw [sizeT_hexChallenge]
        exact Nat.lt_irrefl _
      have h33 : (hexChallenge : Int) = 33 := rfl
      rw [hr, if_neg hsize, h33]
      by_cases h0 : env.proxy.send = 0
      · simp [h0]
      · simp [h0]
  · constructor
    · rintro ⟨o, ho, -⟩
      obtain ⟨stop, hstop⟩ := sendProxy_stop g env (m := m) sock mac host portnum
        (not_exists.mp hp)
      rw [hcall, hstop] at ho
      cases ho
    · intro h
      exact absurd h.1 hp

/-- A call is truthful under the condition, and under no other. -/
theorem truthful_iff (hm : m.WF) (ht : Transport env) :
    Truthful g env m sock mac host portnum pass ↔ TruthfulWhen g env sock mac pass := by
  unfold TruthfulWhen
  by_cases hudp : g.packetMode &&& udpMode = 0
  · rw [if_neg (not_not.mpr hudp)]
    by_cases hproxy : g.packetMode &&& proxyMode = 0
    · rw [if_neg (not_not.mpr hproxy)]
      exact truthful_raw hm ht hudp hproxy
    · rw [if_pos hproxy]
      exact truthful_proxy hudp hproxy
  · rw [if_pos hudp]
    exact truthful_udp hm ht hudp

end Truthful

/-! ## What identifies a target to the proxy -/

section Message

variable {g : Globals} {env : Env} {m : Magic} {sock : List Recv} {host : Bytes}
  {portnum : UInt32} {pass : Pass}

theorem hashed_append (es es' : List Event) : hashed (es ++ es') = hashed es ++ hashed es' :=
  List.filterMap_append

theorem hashed_report (mac : Bytes) : hashed (report g mac host portnum) = [] := by
  unfold report
  split
  · rfl
  · rfl

/-- What a call does to the outside, whether it returns or not. -/
def callEvents : Except Stop Outcome → List Event
  | .error stop => stop.events
  | .ok o => o.events

/-- The password that a proxy call hashes. With one from the command line it comes to a bad free,
but behind `proxy_send`. -/
inductive HashedPass (env : Env) : Pass → Bytes → Prop where
  | freed {pass : Pass} {s : Bytes} : ProxyPass env pass s → HashedPass env pass s
  | arg (s : Bytes) : HashedPass env (.arg s) s

/-- A call in proxy mode that gets its challenge hashes one message, with six bytes of the text of
its target in the middle. -/
theorem hashed_call (m : Magic) (host : Bytes) (portnum : UInt32) (mac : Bytes)
    (hudp : g.packetMode &&& udpMode = 0)
    (hproxy : g.packetMode &&& proxyMode ≠ 0) {s : Bytes} (hp : HashedPass env pass s)
    (hsock : hexChallenge ≤ (firstPiece sock).length) :
    hashed (callEvents (assembleAndSend g env m sock mac host portnum pass)) =
      [(decode env.proxy.endian (received env.proxy sock)
        env.proxy.frame.challenge).take challengeLength ++
          (mac ++ 0 :: env.proxy.behind).take macLen ++ cstr s] := by
  have hfull : ¬ sizeT (tcpRecv sock hexChallenge).1 < hexChallenge := by
    rw [(tcpRecv_whole hsock).1, sizeT_hexChallenge]
    exact Nat.lt_irrefl _
  obtain ⟨-, hmsg, -⟩ := proxySend_answer env.proxy mac s hfull
  rw [assembleAndSend_proxy ⟨hudp, hproxy⟩ pass]
  cases hp with
  | arg s => exact hmsg
  | freed hp =>
    rw [sendProxy_eq g env sock mac host portnum hp]
    by_cases h : (proxySend env.proxy sock mac s).1 = 0
    · simp only [h, ne_eq, not_true_eq_false, if_false, callEvents]
      rw [hashed_append, hashed_report, hmsg]
      rfl
    · simp only [h, ne_eq, not_false_eq_true, if_true, callEvents]
      rw [hashed_append, hmsg]
      rfl

/-- The messages hashed for two targets, all else being equal, are the same if and only if the
targets have the same address. -/
structure Identifies (g : Globals) (env : Env) (m : Magic) (sock : List Recv) (host : Bytes)
    (portnum : UInt32) (pass : Pass) (t₁ t₂ : Bytes) (a₁ a₂ : Octets) : Prop where
  returned : (∀ p, pass ≠ .arg p) → ∀ t ∈ [t₁, t₂],
    ∃ o, assembleAndSend g env m sock t host portnum pass = .ok o
  messages : ∃ msg₁ msg₂,
    hashed (callEvents (assembleAndSend g env m sock t₁ host portnum pass)) = [msg₁] ∧
    hashed (callEvents (assembleAndSend g env m sock t₂ host portnum pass)) = [msg₂] ∧
    (msg₁ = msg₂ ↔ a₁ = a₂)

theorem identifies_iff_take (hudp : g.packetMode &&& udpMode = 0)
    (hproxy : g.packetMode &&& proxyMode ≠ 0) {s : Bytes} (hp : HashedPass env pass s)
    (hsock : hexChallenge ≤ (firstPiece sock).length) (t₁ t₂ : Bytes) (a₁ a₂ : Octets) :
    Identifies g env m sock host portnum pass t₁ t₂ a₁ a₂ ↔
      ((t₁ ++ 0 :: env.proxy.behind).take macLen = (t₂ ++ 0 :: env.proxy.behind).take macLen ↔
        a₁ = a₂) := by
  have hmsg₁ := hashed_call m host portnum t₁ hudp hproxy hp hsock
  have hmsg₂ := hashed_call m host portnum t₂ hudp hproxy hp hsock
  constructor
  · rintro ⟨-, msg₁, msg₂, hm₁, hm₂, hiff⟩
    rw [hmsg₁] at hm₁
    rw [hmsg₂] at hm₂
    cases hm₁
    cases hm₂
    rwa [List.append_left_inj, List.append_right_inj] at hiff
  · intro hiff
    refine ⟨?_, _, _, hmsg₁, hmsg₂, ?_⟩
    · intro harg t _
      cases hp with
      | arg s => exact absurd rfl (harg s)
      | freed hp =>
        obtain ⟨o, ho, -⟩ := sendProxy_outcome g m sock t host portnum hp
        exact ⟨o, (assembleAndSend_proxy ⟨hudp, hproxy⟩ pass).trans ho⟩
    · rwa [List.append_left_inj, List.append_right_inj]

/-- **Six characters identify a target.** In proxy mode the hashed message tells two renderings of
addresses apart as the addresses do exactly if their first six characters do. -/
theorem identifies_iff (hudp : g.packetMode &&& udpMode = 0)
    (hproxy : g.packetMode &&& proxyMode ≠ 0) {s : Bytes} (hp : HashedPass env pass s)
    (hsock : hexChallenge ≤ (firstPiece sock).length) {t₁ t₂ : Bytes} {a₁ a₂ : Octets}
    (h₁ : HexFields 58 a₁.bytes t₁) (h₂ : HexFields 58 a₂.bytes t₂) :
    Identifies g env m sock host portnum pass t₁ t₂ a₁ a₂ ↔
      (t₁.take 6 = t₂.take 6 ↔ a₁ = a₂) := by
  have hmac : ∀ {t : Bytes} {a : Octets}, HexFields 58 a.bytes t →
      (t ++ 0 :: env.proxy.behind).take macLen = t.take 6 := by
    intro t a h
    have hlen := h.length_le
    rw [a.len] at hlen
    exact List.take_append_of_le_length (by simp only [macLen] at hlen ⊢; omega)
  rw [identifies_iff_take hudp hproxy hp hsock, hmac h₁, hmac h₂]

end Message

def exampleCall : Env :=
  { ethers := fun _ => none, gethostbyname := fun _ => none, sendto := fun _ _ => -1,
    getpass := none, uninit := fun _ => 0, proxy := exampleEnv }

def proxyGlobals : Globals := { packetMode := proxyMode }

/-- Two addresses that differ in their second octet are told apart. -/
theorem identifies_second_octet :
    Identifies proxyGlobals exampleCall (magicCreate (fun _ => 0) false) exampleChallenge []
      defaultPort (.main (ascii "pw")) (ascii "00:11:22:33:44:55") (ascii "00:1a:22:33:44:55")
      ⟨[0x00, 0x11, 0x22, 0x33, 0x44, 0x55], rfl⟩ ⟨[0x00, 0x1a, 0x22, 0x33, 0x44, 0x55], rfl⟩ := by
  refine (identifies_iff (by decide) (by decide) (.freed (.main (ascii "pw"))) (by decide)
    ?_ ?_).mpr (by decide)
  · exact hexFields_intercalate 58 (["00", "11", "22", "33", "44", "55"].map ascii) rfl
      (by decide +kernel)
  · exact hexFields_intercalate 58 (["00", "1a", "22", "33", "44", "55"].map ascii) rfl
      (by decide +kernel)

/-- Two addresses that differ in their third octet are not. -/
theorem not_identifies_third_octet :
    ¬ Identifies proxyGlobals exampleCall (magicCreate (fun _ => 0) false) exampleChallenge []
      defaultPort (.main (ascii "pw")) (ascii "00:11:22:33:44:55") (ascii "00:11:99:33:44:55")
      ⟨[0x00, 0x11, 0x22, 0x33, 0x44, 0x55], rfl⟩ ⟨[0x00, 0x11, 0x99, 0x33, 0x44, 0x55], rfl⟩ := by
  rw [identifies_iff_take (by decide) (by decide) (.freed (.main (ascii "pw"))) (by decide)]
  decide

end WakeOnLan
