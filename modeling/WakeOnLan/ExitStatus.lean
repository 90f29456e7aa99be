import WakeOnLan.Run

/-!
# WakeOnLan.ExitStatus

What the exit status says about the operands.

* `AcceptedAt` / `TruthfulWhenAt` — the notions of `WakeOnLan.SendCorrect` at a state of a run.
* `AllAccepted`  — every operand is reached and accepted.
* `targets_exit` — the loop over the operands: `ret` counts the failures.
* `exit_status`  — a call is truthful exactly under its condition, and so is the exit status of a
  run whose calls all meet it.
-/

namespace WakeOnLan

open CLib

section ExitStatus

variable {sys : Sys} {s : State} {mac : Bytes} {targets : List Bytes}

/-- The operand `mac` is accepted in the call that the run makes in the state `s`. -/
def AcceptedAt (sys : Sys) (s : State) (mac : Bytes) : Prop :=
  Accepted s.globals (sys.call s.calls) s.sock mac s.globals.hostStr s.globals.port
    s.globals.passwd

def TruthfulWhenAt (sys : Sys) (s : State) (mac : Bytes) : Prop :=
  TruthfulWhen s.globals (sys.call s.calls) s.sock mac s.globals.passwd

/-- Every operand that is left is reached, and accepted there. -/
def AllAccepted (sys : Sys) (s : State) (targets : List Bytes) : Prop :=
  ∀ mac rest, (mac :: rest) <:+ targets → ∃ t s', Steps (mainRound sys) s t s' ∧
    s'.phase = .targets (mac :: rest) ∧ AcceptedAt sys s' mac

/-- Every call that the run makes for an operand meets the condition. -/
def AllTruthfulWhen (sys : Sys) (s : State) : Prop :=
  ∀ t s' mac rest, Steps (mainRound sys) s t s' → s'.phase = .targets (mac :: rest) →
    TruthfulWhenAt sys s' mac

/-! ## The loop over the operands -/

/-- No operand comes back. -/
theorem targets_shrink {s s' : State} {t : List Event} (hs : Steps (mainRound sys) s t s')
    (hphase : s.phase = .targets targets) {left : List Bytes} (hleft : s'.phase = .targets left) :
    left.length ≤ targets.length := by
  have hinv := hs.invariant (P := fun s => ∀ left, s.phase = .targets left →
    left.length ≤ targets.length) ?_ ?_
  · exact hinv left hleft
  · intro s t s' hP hr left hleft
    cases mainRound_next hr with
    | target hphase _ =>
      cases hleft
      exact Nat.le_of_succ_le (hP _ hphase)
    | stdin | file | record => cases hleft
  · intro left h
    rw [hphase] at h
    cases h
    exact Nat.le_refl _

theorem allAccepted_cons {s s' : State} {t : List Event}
    (hphase : s.phase = .targets (mac :: targets)) (hround : mainRound sys s = (t, .next s'))
    (hphase' : s'.phase = .targets targets) :
    AllAccepted sys s (mac :: targets) ↔ AcceptedAt sys s mac ∧ AllAccepted sys s' targets := by
  constructor
  · intro h
    constructor
    · obtain ⟨_, s'', hs, hp, hacc⟩ := h mac targets (List.suffix_refl _)
      cases hs with
      | refl => exact hacc
      | cons hr hs =>
        rw [hround] at hr
        cases hr
        have := targets_shrink hs hphase' hp
        simp only [List.length_cons] at this
        omega
    · intro mac' rest hsuf
      obtain ⟨_, s'', hs, hp, hacc⟩ := h mac' rest (hsuf.trans (List.suffix_cons ..))
      cases hs with
      | refl =>
        rw [hphase] at hp
        cases hp
        have := hsuf.length_le
        simp only [List.length_cons] at this
        omega
      | cons hr hs =>
        rw [hround] at hr
        cases hr
        exact ⟨_, s'', hs, hp, hacc⟩
  · rintro ⟨hacc, h⟩ mac' rest hsuf
    rcases List.suffix_cons_iff.mp hsuf with heq | hsuf
    · cases heq
      exact ⟨_, s, .refl, hphase, hacc⟩
    · obtain ⟨_, s'', hs, hp, hacc'⟩ := h mac' rest hsuf
      exact ⟨_, s'', .cons hround hs, hp, hacc'⟩

/-- The counter behind a call: one more, if the operand was not accepted. -/
theorem after_ret {o : Outcome} (hlo : 0 ≤ s.ret) (hhi : s.ret + 1 < 2 ^ 31) :
    (o.ret = 0 → (s.after o).ret = s.ret) ∧ (o.ret = -1 → (s.after o).ret = s.ret + 1) := by
  constructor
  · intro h
    simp only [State.after, h]
    rw [Int.bmod_eq_of_le] <;> omega
  · intro h
    simp only [State.after, h]
    rw [Int.bmod_eq_of_le] <;> omega

/-- The loop over the operands, by induction on them: if every call meets its condition, the run
ends, with status `0` if and only if nothing failed before and every operand is accepted. -/
theorem targets_exit (ht : ∀ n, Transport (sys.call n)) (hphase : s.phase = .targets targets)
    (hpath : s.globals.pathname = none) (hstdin : s.globals.requestStdin = false)
    (hm : s.magic.WF) (hlo : 0 ≤ s.ret) (hhi : s.ret + targets.length < 2 ^ 31)
    (hwhen : AllTruthfulWhen sys s) :
    ∃ t status, Exec (mainRound sys) s t (.exit status) ∧
      (status = 0 ↔ s.ret = 0 ∧ AllAccepted sys s targets) := by
  induction targets generalizing s with
  | nil =>
    refine ⟨[], if s.ret ≠ 0 then 1 else 0, .done ?_, ?_⟩
    · simp [mainRound, hphase, openMacfile, hstdin, hpath, exitStatus]
    · have hnone : AllAccepted sys s [] := by
        intro mac rest hsuf
        cases List.suffix_nil.mp hsuf
      by_cases h : s.ret = 0
      · simp [h, hnone]
      · simp [h]
  | cons mac rest ih =>
    obtain ⟨o, ho, hyes, hno⟩ := (truthful_iff hm (ht s.calls)).mpr
      (hwhen [] s mac rest .refl hphase)
    have hround : mainRound sys s =
        (o.events, .next { s.after o with phase := .targets rest }) := by
      simp only [mainRound, hphase]
      rw [show s.send sys mac = .ok o from ho]
    simp only [List.length_cons] at hhi
    obtain ⟨hret0, hret1⟩ := after_ret (s := s) (o := o) hlo (by omega)
    have hcons := allAccepted_cons hphase hround rfl
    have hbound : 0 ≤ (s.after o).ret ∧ (s.after o).ret ≤ s.ret + 1 := by
      by_cases hacc : AcceptedAt sys s mac
      · rw [hret0 (hyes hacc).1]
        omega
      · rw [hret1 (hno hacc).1]
        omega
    obtain ⟨t, status, he, hstatus⟩ := ih (s := { s.after o with phase := .targets rest }) rfl hpath
      hstdin (assembleAndSend_wf hm ho) hbound.1
        (Int.lt_of_le_of_lt (Int.add_le_add_right hbound.2 _) (by omega))
      (fun t' s' mac' rest' hs => hwhen (o.events ++ t') s' mac' rest' (.cons hround hs))
    refine ⟨o.events ++ t, status, .next hround he, ?_⟩
    rw [hstatus, hcons]
    show (s.after o).ret = 0 ∧ _ ↔ _
    by_cases hacc : AcceptedAt sys s mac
    · rw [hret0 (hyes hacc).1]
      simp [hacc]
    · rw [hret1 (hno hacc).1]
      simp only [hacc, false_and, and_false, iff_false, not_and]
      omega

/-- **What a call reports.** A call returns `0` and reports a wake-up exactly for accepted targets,
and else returns `-1`, if and only if it meets the condition of its mode; and a run over fewer than
`2 ^ 31` operands whose calls all meet it ends with status `0` if and only if every operand was
accepted. -/
theorem exit_status (sys : Sys) (ht : ∀ n, Transport (sys.call n)) :
    (∀ (n : Nat) (g : Globals) (m : Magic) (sock : List Recv) (mac host : Bytes)
      (portnum : UInt32) (pass : Pass), Reachable m →
      (Truthful g (sys.call n) m sock mac host portnum pass ↔
        TruthfulWhen g (sys.call n) sock mac pass)) ∧
    (∀ (args : CommandLine) (s₀ : State), start sys args = .ok s₀ →
      s₀.globals.pathname = none → s₀.globals.requestStdin = false →
      args.operands.length < 2 ^ 31 → AllTruthfulWhen sys s₀ →
      ∃ events status, Runs sys args events (.exit status) ∧
        (status = 0 ↔ AllAccepted sys s₀ args.operands)) := by
  refine ⟨fun n g m sock mac host portnum pass hm => truthful_iff hm.wf (ht n), ?_⟩
  intro args s₀ hstart hpath hstdin hlen hwhen
  obtain ⟨-, hphase, hwf, hret, -⟩ := start_inv hstart
  have hphase' : s₀.phase = .targets args.operands := by
    rw [hphase, hstdin]
    rfl
  obtain ⟨t, status, he, hstatus⟩ := targets_exit ht hphase' hpath hstdin hwf (by omega)
    (by omega) hwhen
  refine ⟨t, status, ?_, ?_⟩
  · simpa only [Runs, hstart] using he
  · rw [hstatus, hret]
    simp

/-! ## Runs in UDP mode -/

theorem sendUdp_pass {g : Globals} {env : Env} {m : Magic} {sock : List Recv} {mac host : Bytes}
    {portnum : UInt32} {pass : Pass} {o : Outcome}
    (h : sendUdp g env m sock mac host portnum pass = .ok o) : o.pass = pass := by
  simp only [sendUdp] at h
  split at h
  · cases h
  · split at h
    · cases h
      rfl
    · split at h
      · cases h
        rfl
      · cases h
        rfl

/-- In UDP mode no call releases the password, so every call is truthful. -/
theorem allTruthfulWhen_udp (hmode : s.globals.packetMode &&& udpMode ≠ 0)
    (hpass : s.globals.passwd ≠ .released) : AllTruthfulWhen sys s := by
  intro t s' mac rest hs hphase
  have hinv := hs.invariant (P := fun s => s.globals.packetMode &&& udpMode ≠ 0 ∧
    ∀ left, s.phase = .targets left → s.globals.passwd ≠ .released) ?_ ⟨hmode, fun _ _ => hpass⟩
  · rw [TruthfulWhenAt, TruthfulWhen, if_pos hinv.1]
    exact hinv.2 _ hphase
  · rintro s t s' ⟨hmode, hpass⟩ hr
    cases mainRound_next hr with
    | @target mac rest o hphase ho =>
      have hcall : sendUdp s.globals (sys.call s.calls) s.magic s.sock mac s.globals.hostStr
          s.globals.port s.globals.passwd = .ok o := (assembleAndSend_udp hmode _).symm.trans ho
      refine ⟨hmode, fun _ _ => ?_⟩
      show o.pass ≠ .released
      rw [sendUdp_pass hcall]
      exact hpass _ hphase
    | stdin | file | record => exact ⟨hmode, fun _ h => by cases h⟩

end ExitStatus

/-- A network that takes every datagram. -/
def acceptingSys : Sys :=
  { exampleSys with call := fun _ => { exampleCall with
      gethostbyname := fun _ => some 7, sendto := fun _ buf => buf.length } }

theorem exit_status_one_operand :
    ∃ events status, Runs acceptingSys { argc := 2, opts := [], operands := [ascii "1:2:3:4:5:6"] }
      events (.exit status) ∧
      (status = 0 ↔ AllAccepted acceptingSys
        { phase := .targets [ascii "1:2:3:4:5:6"], globals := {},
          magic := magicCreate (fun _ => 0) false, sock := [], ret := 0, calls := 0 }
        [ascii "1:2:3:4:5:6"]) :=
  have ht : ∀ n, Transport (acceptingSys.call n) := by
    intro n
    exact ⟨fun _ _ => .inr rfl, .inr (show (0 : Int) ≤ 33 ∧ (33 : Int) ≤ 33 by decide)⟩
  (exit_status acceptingSys ht).2 _ _ rfl rfl rfl (by decide)
    (allTruthfulWhen_udp (by decide) (by decide))

/-- In RAW mode a target is reported as woken up although `sendto` failed on its packet. -/
theorem not_truthful_raw :
    Transport exampleCall ∧
      ¬ Truthful { packetMode := rawMode } exampleCall (magicCreate (fun _ => 0) false) []
        (ascii "1:2:3:4:5:6") defaultIpaddr defaultPort .none := by
  have ht : Transport exampleCall := ⟨fun _ _ => .inl rfl, .inr (by decide)⟩
  refine ⟨ht, ?_⟩
  rw [truthful_raw (magicCreate_wf _ _) ht (by decide) (by decide)]
  rintro ⟨-, h⟩
  have hpk : packetOf exampleCall.ethers (ascii "1:2:3:4:5:6") none =
      some (magicPacket ⟨[1, 2, 3, 4, 5, 6], rfl⟩ none) := by decide +kernel
  exact h none _ rfl hpk rfl

end WakeOnLan
