import WakeOnLan.Md5Correct
import WakeOnLan.ProxyChallenge

/-!
# WakeOnLan.ProxyDigest

`proxy_send` with the `md5_buffer` of `lib/md5.c`.

* `link`             — the surroundings of a call on a given host, with that function in them.
* `seenChallenge`    — the sixteen bytes of a challenge as the host decodes them.
* `proxySend_digest` — what is sent for a challenge, target and password, no function left open.
-/

namespace WakeOnLan

open CLib

/-- `md5_buffer` as a function of the message alone. -/
def md5Of (arch : Arch) (ctx : Md5Ctx) (addr : Nat) (m : Bytes) : Digest :=
  match md5Buffer arch ctx addr m with
  | .ok d => d
  | .error _ => constDigest 0

theorem md5Of_bytes (arch : Arch) (ctx : Md5Ctx) (addr : Nat) {m : Bytes}
    (h : m.length < 2 ^ 33) : (md5Of arch ctx addr m).bytes = Rfc1321.digest m := by
  obtain ⟨d, hd, hbytes⟩ := md5Buffer_eq arch ctx addr h
  rw [md5Of, hd]
  exact hbytes

def link (arch : Arch) (ctx : Md5Ctx) (addr : Nat) (env : ProxyEnv) : ProxyEnv :=
  { env with endian := arch.endian, md5 := md5Of arch ctx addr }

def seenChallenge (c : Challenge) : Endian → Bytes
  | .little => c.bytes
  | .big => List.replicate challengeLength 0

theorem Receives.decoded {sock : List Recv} {c : Challenge} (h : Receives sock c)
    (env : ProxyEnv) :
    (decode env.endian (received env sock) env.frame.challenge).take challengeLength =
      seenChallenge c env.endian := by
  cases hend : env.endian with
  | little =>
    have hlittle := h.decoded_little hend
    rwa [hend] at hlittle
  | big =>
    have hbig := h.decoded_big hend
    rwa [hend] at hbig

/-- The byte that is sent behind the digest is the last one received. -/
theorem Receives.received_last {sock : List Recv} {c : Challenge} (h : Receives sock c)
    (env : ProxyEnv) :
    ((received env sock).drop 32).take 1 =
      ((tcpRecv sock hexChallenge).2.1.drop 32).take 1 := by
  have hlen := h.length_received
  have hfits := env.frame.rsbufLen
  rw [received, writeAt_eq (by omega), hlen, List.take_zero, List.nil_append,
    List.drop_append_of_le_length (by rw [hlen]; decide), List.take_append_of_le_length]
  rw [List.length_drop, hlen]
  decide

theorem length_message {challenge macbuf behind passwd : Bytes}
    (h : challengeLength ≤ challenge.length) :
    (message challenge macbuf behind passwd).length ≤ 33 + (cstr passwd).length := by
  simp only [message, List.length_append, List.length_take, challengeLength, macLen] at h ⊢
  omega

/-- **What a call sends.** For a challenge it receives, on any host, a call sends the digest of RFC
1321 of the challenge as it sees it, the text of the target and the password: of each byte the first
of its two characters and a NUL, and behind them the last byte that was received. -/
theorem proxySend_digest (arch : Arch) (ctx : Md5Ctx) (addr : Nat) (env : ProxyEnv)
    {sock : List Recv} {c : Challenge} (h : Receives sock c) (macbuf : Bytes) {passwd : Bytes}
    (hpasswd : 33 + (cstr passwd).length < 2 ^ 33) :
    sent (proxySend (link arch ctx addr env) sock macbuf passwd).2.1 =
      [digestChunks (Rfc1321.digest
          (seenChallenge c arch.endian ++ (macbuf ++ 0 :: env.behind).take macLen ++
            cstr passwd)) ++
        ((tcpRecv sock hexChallenge).2.1.drop 32).take 1] := by
  have hmsg : hashedMessage (link arch ctx addr env) macbuf passwd
      (received (link arch ctx addr env) sock) =
      seenChallenge c arch.endian ++ (macbuf ++ 0 :: env.behind).take macLen ++ cstr passwd := by
    rw [hashedMessage, message, h.decoded (link arch ctx addr env)]
    rfl
  have hlen : (hashedMessage (link arch ctx addr env) macbuf passwd
      (received (link arch ctx addr env) sock)).length < 2 ^ 33 := by
    refine Nat.lt_of_le_of_lt (length_message ?_) hpasswd
    rw [decode, length_decodeSteps]
    exact Nat.le_trans (by decide) (link arch ctx addr env).frame.challengeLen
  have hne : (tcpRecv sock hexChallenge).2.1 ≠ [] := by
    rw [← List.length_pos_iff, h.length_received]
    exact Nat.succ_pos _
  have hfull : ¬ sizeT (tcpRecv sock hexChallenge).1 < hexChallenge := by
    rw [tcpRecv_ret hne, h.length_received, sizeT_hexChallenge]
    exact Nat.lt_irrefl _
  rw [(proxySend_answer (link arch ctx addr env) macbuf passwd hfull).2.2,
    sentReply_eq length_received, h.received_last]
  have hmd5 : (link arch ctx addr env).md5 = md5Of arch ctx addr := rfl
  rw [hmd5, md5Of_bytes arch ctx addr hlen, hmsg]

theorem proxySend_digest_example :
    sent (proxySend (link ⟨.little, false, 4⟩ blankCtx 0 exampleEnv) exampleChallenge
        (ascii "0:1:2:3:4:5") (ascii "pw")).2.1 =
      [digestChunks (Rfc1321.digest
          (seenChallenge exampleValue .little ++
            (ascii "0:1:2:3:4:5" ++ 0 :: exampleEnv.behind).take macLen ++ cstr (ascii "pw"))) ++
        ((tcpRecv exampleChallenge hexChallenge).2.1.drop 32).take 1] :=
  proxySend_digest ⟨.little, false, 4⟩ blankCtx 0 exampleEnv receives_example (ascii "0:1:2:3:4:5")
    (by decide)

end WakeOnLan
