import WakeOnLan.CLib.HexFields
import WakeOnLan.CLib.Stdio
import WakeOnLan.Options
import WakeOnLan.SendCorrect

/-!
# WakeOnLan.Prompt

Passwords that are typed and passwords that are written in the command line.

* `getpass4`   — `getpass4.c`: one line of the terminal, with its newline.
* `SameAsText` — a call of `assemble_and_send` with the line that was typed comes to the same as one
  with the text.
* `sameAsText_iff` — it does in UDP and RAW mode, where `sscanf` does not get to the newline, with
  one `--passwd`; in proxy mode the newline is hashed (`message_typed`), and the call releases the
  text.
-/

namespace WakeOnLan

open CLib

/-- `tcgetattr` and `tcsetattr` succeed or not; what the prompt prints is left out. -/
def getpass4 (tcgetattr tcsetattr : Bool) (stream : File) : Option Bytes × File :=
  if ¬ tcgetattr then (none, stream)
  else if ¬ tcsetattr then (none, stream)
  else getline stream

/-- What a call comes to: its value or how it stops, and what it gives to the transport. -/
structure Seen where
  result : Except Halt Int
  datagrams : List (Option (InAddr × Nat) × Bytes)
  replies : List Bytes

def seen : Except Stop Outcome → Seen
  | .error stop => ⟨.error stop.halt, datagrams stop.events, sent stop.events⟩
  | .ok o => ⟨.ok o.ret, datagrams o.events, sent o.events⟩

/-- The call for a password that the option `o` of `parse_args` reads in the state `q`, with what
the prompt of the option gives. -/
def callWith (g : Globals) (env : Env) (m : Magic) (sock : List Recv) (mac host : Bytes)
    (portnum : UInt32) (programName : Bytes) (getpass : Option Bytes) (q : Parse) (o : Opt) :
    Except Stop Outcome :=
  match parseOpt programName getpass q o with
  | .error stop => .error stop
  | .ok q' => assembleAndSend g env m sock mac host portnum q'.globals.passwd

/-- The calls for a line of the terminal, which `--passwd` or, in proxy mode, the call itself asks
for, against the call for the text `p` of `--passwd=p`. -/
structure SameAsText (g : Globals) (env : Env) (m : Magic) (sock : List Recv) (mac host : Bytes)
    (portnum : UInt32) (programName : Bytes) (q : Parse) (stream : File) (p : Bytes) : Prop where
  prompted :
    seen (callWith g env m sock mac host portnum programName (getpass4 true true stream).1 q
        (.passwd none)) =
      seen (callWith g env m sock mac host portnum programName none q (.passwd (some p)))
  asked : InProxyMode g →
    seen (assembleAndSend g { env with getpass := (getpass4 true true stream).1 } m sock mac host
        portnum .none) =
      seen (callWith g env m sock mac host portnum programName none q (.passwd (some p)))

section Typed

variable {p r : Bytes} {stream : File}

theorem getpass4_typed (hp : 10 ∉ p) (hrest : stream.rest = p ++ 10 :: r) :
    getpass4 true true stream = (some (p ++ [10]), { stream with rest := r }) := by
  simp [getpass4, getline_line hp hrest]

theorem cstr_newline (hp : ∀ c ∈ p, c ≠ 0) : cstr (p ++ [10]) = cstr p ++ [10] := by
  rw [cstr_append hp, cstr_eq_self hp]
  rfl

/-- A NUL hides the newline. -/
theorem cstr_nul_newline (hp : ¬ ∀ c ∈ p, c ≠ 0) : cstr (p ++ [10]) = cstr p := by
  have hlen : (p.takeWhile (· != 0)).length ≠ p.length := by
    intro hlen
    have hself := (List.takeWhile_prefix (· != 0)).eq_of_length hlen
    apply hp
    intro c hc
    rw [← hself] at hc
    simpa using List.all_eq_true.mp List.all_takeWhile c hc
  rw [cstr, cstr, List.takeWhile_append, if_neg hlen]

/-! ## UDP and RAW mode -/

theorem sscanf_typed (p : Bytes) :
    (sscanf (p ++ [10]) secureonFmt).values = (sscanf p secureonFmt).values := by
  have hfmt : secureonFmt = hexFields 45 6 := rfl
  rw [sscanf, sscanf, hfmt]
  by_cases hp : ∀ c ∈ p, c ≠ 0
  · rw [cstr_newline hp]
    exact scan_hexFields_append rfl (by simp [isSpace]) 6 (cstr p)
  · rw [cstr_nul_newline hp]

/-- `sscanf` reads six fields and looks at nothing behind them. -/
theorem passwdOctets_typed (p : Bytes) : passwdOctets (p ++ [10]) = passwdOctets p := by
  have hret : (sscanf (p ++ [10]) secureonFmt).ret = magicSecureon ↔
      (sscanf p secureonFmt).ret = magicSecureon := by
    rw [sscanf_ret_eq (by decide), sscanf_ret_eq (by decide), sscanf_typed]
  simp only [passwdOctets, sscanf_typed, ne_eq, hret]

theorem magicAssemble_typed (ethers : Bytes → Option Octets) (uninit : Nat → UInt8) (m : Magic)
    (mac : Option Bytes) (p : Bytes) :
    magicAssemble ethers uninit m mac (some (p ++ [10])) =
      magicAssemble ethers uninit m mac (some p) := by
  simp only [magicAssemble, passwdOctets_typed, Option.isSome_some]

variable (g : Globals) (env : Env) (m : Magic) (sock : List Recv) (mac host : Bytes)
  (portnum : UInt32)

theorem sendUdp_typed (p : Bytes) :
    seen (sendUdp g env m sock mac host portnum (.main (p ++ [10]))) =
      seen (sendUdp g env m sock mac host portnum (.arg p)) := by
  simp only [sendUdp, Pass.read, magicAssemble_typed]
  generalize magicAssemble env.ethers env.uninit m (some mac) (some p) = x
  obtain ⟨ret, m'⟩ := x
  dsimp only
  split
  · rfl
  · split
    · rfl
    · rfl

theorem sendRaw_typed (p : Bytes) :
    seen (sendRaw g env m sock mac host portnum (.main (p ++ [10]))) =
      seen (sendRaw g env m sock mac host portnum (.arg p)) := by
  simp only [sendRaw, Pass.read, magicAssemble_typed]
  generalize magicAssemble env.ethers env.uninit m (some mac) (some p) = x
  obtain ⟨ret, m'⟩ := x
  dsimp only
  split
  · rfl
  · rfl

/-! ## Proxy mode -/

/-- `proxy_send` hashes the newline. -/
theorem message_typed (hp : ∀ c ∈ p, c ≠ 0) (challenge macbuf behind : Bytes) :
    message challenge macbuf behind (p ++ [10]) = message challenge macbuf behind p ++ [10] := by
  simp only [message, cstr_newline hp, List.append_assoc]

/-- A call that has asked for its password returns. -/
theorem sendProxy_asked_returns {line : Bytes} (hline : env.getpass = some line) :
    ∃ ret, (seen (sendProxy g env m sock mac host portnum .none)).result = .ok ret := by
  rw [sendProxy_eq g env sock mac host portnum (.typed hline)]
  dsimp only
  split
  · exact ⟨_, rfl⟩
  · exact ⟨_, rfl⟩

/-- A call with a part of the argument vector does not. -/
theorem sendProxy_arg_result (p : Bytes) :
    (seen (sendProxy g env m sock mac host portnum (.arg p))).result = .error (.fault .badFree) :=
  rfl

/-! ## The two ways -/

variable {programName : Bytes} {q : Parse}

theorem callWith_text (getpass : Option Bytes) (p : Bytes) :
    callWith g env m sock mac host portnum programName getpass q (.passwd (some p)) =
      assembleAndSend g env m sock mac host portnum (.arg p) := rfl

theorem callWith_prompt (hset : q.passwordSet = false) (hpass : q.globals.passwd = .none)
    (line : Bytes) :
    callWith g env m sock mac host portnum programName (some line) q (.passwd none) =
      assembleAndSend g env m sock mac host portnum (.main line) := by
  simp [callWith, parseOpt, hset, hpass]

/-- Behind a written password, `getline` is given a part of the argument vector. -/
theorem callWith_prompt_fault (hset : q.passwordSet = false) (hpass : q.globals.passwd ≠ .none)
    (line : Bytes) :
    callWith g env m sock mac host portnum programName (some line) q (.passwd none) =
      .error ⟨[], .fault .badFree⟩ := by
  cases hq : q.globals.passwd with
  | none => exact absurd hq hpass
  | arg | main | prompt | released => simp [callWith, parseOpt, hset, hq]

theorem assembleAndSend_typed (hmode : ¬ InProxyMode g) (p : Bytes) :
    seen (assembleAndSend g env m sock mac host portnum (.main (p ++ [10]))) =
      seen (assembleAndSend g env m sock mac host portnum (.arg p)) := by
  simp only [assembleAndSend]
  split
  · exact sendUdp_typed ..
  · rename_i hudp
    split
    · rename_i hproxy
      exact absurd ⟨not_not.mp hudp, hproxy⟩ hmode
    · exact sendRaw_typed ..

/-- In the other two modes a call with a written password returns. -/
theorem assembleAndSend_arg_returns (hmode : ¬ InProxyMode g) (p : Bytes) :
    ∃ ret, (seen (assembleAndSend g env m sock mac host portnum (.arg p))).result = .ok ret := by
  simp only [assembleAndSend]
  split
  · simp only [sendUdp, Pass.read]
    split
    · exact ⟨_, rfl⟩
    · split
      · exact ⟨_, rfl⟩
      · exact ⟨_, rfl⟩
  · rename_i hudp
    split
    · rename_i hproxy
      exact absurd ⟨not_not.mp hudp, hproxy⟩ hmode
    · simp only [sendRaw, Pass.read]
      split
      · exact ⟨_, rfl⟩
      · exact ⟨_, rfl⟩

end Typed

/-- **Typed and written passwords.** For a line that is typed at a prompt a call does what it does
for the same text in the command line if and only if it is not made in proxy mode and no written
password stands before the prompt. -/
theorem sameAsText_iff {p r : Bytes} {stream : File} {q : Parse} (hp : 10 ∉ p)
    (hrest : stream.rest = p ++ 10 :: r) (hset : q.passwordSet = false) (g : Globals) (env : Env)
    (m : Magic) (sock : List Recv) (mac host : Bytes) (portnum : UInt32) (programName : Bytes) :
    SameAsText g env m sock mac host portnum programName q stream p ↔
      ¬ InProxyMode g ∧ q.globals.passwd = .none := by
  have htyped := getpass4_typed hp hrest
  constructor
  · rintro ⟨hprompted, hasked⟩
    rw [htyped, callWith_text] at hasked hprompted
    have hmode : ¬ InProxyMode g := by
      intro hmode
      have hsame := hasked hmode
      rw [assembleAndSend_proxy hmode, assembleAndSend_proxy hmode]
        at hsame
      obtain ⟨ret, hret⟩ := sendProxy_asked_returns g { env with getpass := some (p ++ [10]) } m
        sock mac host portnum rfl
      rw [hsame, sendProxy_arg_result] at hret
      cases hret
    refine ⟨hmode, ?_⟩
    by_contra hpass
    obtain ⟨ret, hret⟩ := assembleAndSend_arg_returns g env m sock mac host portnum hmode p
    rw [callWith_prompt_fault _ _ _ _ _ _ _ hset hpass] at hprompted
    rw [← hprompted] at hret
    cases hret
  · rintro ⟨hmode, hpass⟩
    refine ⟨?_, fun hproxy => absurd hproxy hmode⟩
    rw [htyped, callWith_prompt _ _ _ _ _ _ _ hset hpass, callWith_text]
    exact assembleAndSend_typed g env m sock mac host portnum hmode p

/-- In UDP mode the six fields of a typed password are read as those of a written one. -/
theorem sameAsText_udp :
    SameAsText {} { exampleCall with gethostbyname := fun _ => some 7 }
      (magicCreate (fun _ => 0) false) [] (ascii "1:2:3:4:5:6") defaultIpaddr defaultPort
      (ascii "wol") ⟨{}, false⟩ (fopened (ascii "1-2-3-4-5-6\n") .eof) (ascii "1-2-3-4-5-6") :=
  (sameAsText_iff (r := []) (by decide +kernel) (by decide +kernel) rfl _ _ _ _ _ _ _ _).mpr
    ⟨fun h => absurd h.1 (by decide), rfl⟩

/-- A proxy whose digest of a message depends on its length. -/
def lengthCall : Env :=
  { exampleCall with proxy :=
      { exampleEnv with md5 := fun msg => constDigest (UInt8.ofNat (16 * msg.length)) } }

/-- In proxy mode `pw` is released as it is no heap memory; and the reply that is sent for it is not
the one for the line that is typed. -/
theorem not_sameAsText_pw :
    ¬ SameAsText proxyGlobals lengthCall (magicCreate (fun _ => 0) false) exampleChallenge
        (ascii "0:1:2:3:4:5") [] defaultPort (ascii "wol") ⟨{}, false⟩
        (fopened (ascii "pw\n") .eof) (ascii "pw") ∧
      hashed (proxySend exampleEnv exampleChallenge (ascii "0:1:2:3:4:5") (ascii "pw\n")).2.1 ≠
        hashed (proxySend exampleEnv exampleChallenge (ascii "0:1:2:3:4:5") (ascii "pw")).2.1 := by
  refine ⟨?_, by decide +kernel⟩
  intro h
  have hreplies := congrArg Seen.replies h.prompted
  revert hreplies
  decide +kernel

end WakeOnLan
