import WakeOnLan.ProxyCorrect

/-!
# WakeOnLan.ProxyChallenge

The challenge as it enters the hashed message, on a host of either byte order.

* `Receives`             — the socket delivers the hex text of a value, in either case.
* `decode_little`        — on a little-endian host the sixteen bytes are the value.
* `decode_big`           — on a big-endian host each store puts the zero byte of its word first, and
  the sixteen bytes are zeros.
* `proxySend_challenge`  — the message depends on the challenge exactly on little-endian hosts.
-/

namespace WakeOnLan

open CLib

/-- The value of a challenge. -/
structure Challenge where
  bytes : Bytes
  len : bytes.length = challengeLength

theorem headD_wordBytes_little (b : UInt8) : (wordBytes b.toUInt32 .little).headD 0 = b := by
  simp [wordBytes]

theorem headD_wordBytes_big (b : UInt8) : (wordBytes b.toUInt32 .big).headD 0 = 0 := by
  revert b
  apply forall_byte
  decide +kernel

theorem map_getD_range (c : Bytes) : (List.range c.length).map (fun j => c.getD j 0) = c := by
  apply List.ext_getElem
  · simp
  · intro j h1 h2
    simp [h2]

/-- Every pair of digits is read as its octet, whatever lies behind the text. -/
theorem pairWord_hexPairs {c text : Bytes} (h : HexPairs c text) (rest : Bytes) {j : Nat}
    (hj : j < c.length) : pairWord (text ++ rest) j = some (c.getD j 0).toUInt32 := by
  obtain ⟨d, e, u, hu, hd, he, hb⟩ := h.drop hj
  have hlen := h.length
  have hdrop : (text ++ rest).drop (2 * j) = d :: e :: (u ++ rest) := by
    rw [List.drop_append_of_le_length (by omega), hu]
    rfl
  have hbyte : UInt8.ofNat (digitVal d * 16 + digitVal e) = c.getD j 0 := by
    rw [← hb, UInt8.ofNat_toNat]
  rw [pairWord_digits hdrop hd he, hbyte]

section Decode

variable {text rest : Bytes} {c : Challenge} (h : HexPairs c.bytes text)

include h

/-- The first byte of each word stays; which byte of the octet's word that is depends on the
host. -/
theorem decode_pairs (endian : Endian) (f : Frame) :
    (decode endian (text ++ rest) f.challenge).take challengeLength =
      (List.range challengeLength).map
        fun j => (wordBytes (c.bytes.getD j 0).toUInt32 endian).headD 0 := by
  apply decode_take
  intro j hj
  exact pairWord_hexPairs h rest (by rw [c.len]; exact hj)

theorem decode_little (f : Frame) :
    (decode .little (text ++ rest) f.challenge).take challengeLength = c.bytes := by
  rw [decode_pairs h]
  simp only [headD_wordBytes_little]
  rw [← c.len, map_getD_range]

theorem decode_big (f : Frame) :
    (decode .big (text ++ rest) f.challenge).take challengeLength =
      List.replicate challengeLength 0 := by
  rw [decode_pairs h]
  simp only [headD_wordBytes_big, List.map_const', List.length_range]

end Decode

/-! ## The hashed message -/

/-- The `recv` of a call gets the text of `c` and one more byte, the newline of the proxy. -/
def Receives (sock : List Recv) (c : Challenge) : Prop :=
  ∃ text last, HexPairs c.bytes text ∧ (tcpRecv sock hexChallenge).2.1 = text ++ [last]

/-- What is asked of a call that receives the challenge `c`: its sixteen bytes are decoded and begin
the hashed message, and a call on the same host that receives another challenge for the same target
and password hashes another message. -/
structure ChallengeKept (env : ProxyEnv) (sock : List Recv) (c : Challenge)
    (macbuf passwd : Bytes) : Prop where
  decoded : (decode env.endian (received env sock) env.frame.challenge).take challengeLength =
    c.bytes
  copied : ∃ msg, hashed (proxySend env sock macbuf passwd).2.1 = [msg] ∧
    msg.take challengeLength = c.bytes
  distinct : ∀ (env' : ProxyEnv) (sock' : List Recv) (c' : Challenge),
    env'.endian = env.endian → Receives sock' c' → c' ≠ c →
    hashed (proxySend env' sock' macbuf passwd).2.1 ≠ hashed (proxySend env sock macbuf passwd).2.1

theorem tcpRecv_ret {sock : List Recv} {len : Nat} (h : (tcpRecv sock len).2.1 ≠ []) :
    (tcpRecv sock len).1 = (tcpRecv sock len).2.1.length := by
  cases sock with
  | nil => exact absurd rfl h
  | cons r s =>
    cases r with
    | error => exact absurd rfl h
    | closed => exact absurd rfl h
    | data b bs => rfl

section Receives

variable {env : ProxyEnv} {sock : List Recv} {c : Challenge} (h : Receives sock c)
  (macbuf passwd : Bytes)

include h

/-- The whole message is received. -/
theorem Receives.length_received : (tcpRecv sock hexChallenge).2.1.length = hexChallenge := by
  obtain ⟨text, last, htext, hgot⟩ := h
  rw [hgot, List.length_append, htext.length, c.len]
  rfl

theorem Receives.received_eq (env : ProxyEnv) : ∃ text last, HexPairs c.bytes text ∧
    received env sock = text ++ (last :: env.frame.rsbuf.drop hexChallenge) := by
  have hlen := h.length_received
  obtain ⟨text, last, htext, hgot⟩ := h
  have hfits := env.frame.rsbufLen
  refine ⟨text, last, htext, ?_⟩
  rw [received, writeAt_eq (by omega), hlen, hgot]
  simp

theorem Receives.hashed_eq (env : ProxyEnv) :
    hashed (proxySend env sock macbuf passwd).2.1 =
      [hashedMessage env macbuf passwd (received env sock)] := by
  have hlen := h.length_received
  have hne : (tcpRecv sock hexChallenge).2.1 ≠ [] := by
    rw [← List.length_pos_iff, hlen]
    exact Nat.succ_pos _
  have hret : (tcpRecv sock hexChallenge).1 = hexChallenge := by
    rw [tcpRecv_ret hne, hlen]
  have hfull : ¬ sizeT (tcpRecv sock hexChallenge).1 < hexChallenge := by
    rw [hret, sizeT_hexChallenge]
    exact Nat.lt_irrefl _
  exact (proxySend_answer env macbuf passwd hfull).2.1

theorem Receives.decoded_little (hend : env.endian = .little) :
    (decode env.endian (received env sock) env.frame.challenge).take challengeLength =
      c.bytes := by
  obtain ⟨text, last, htext, hbuf⟩ := h.received_eq env
  rw [hend, hbuf, decode_little htext]

theorem Receives.decoded_big (hend : env.endian = .big) :
    (decode env.endian (received env sock) env.frame.challenge).take challengeLength =
      List.replicate challengeLength 0 := by
  obtain ⟨text, last, htext, hbuf⟩ := h.received_eq env
  rw [hend, hbuf, decode_big htext]

theorem Receives.hashed_little (env : ProxyEnv) (hend : env.endian = .little) :
    ∃ msg, hashed (proxySend env sock macbuf passwd).2.1 = [msg] ∧
      msg.take challengeLength = c.bytes := by
  refine ⟨_, h.hashed_eq macbuf passwd env, ?_⟩
  have hdec := h.decoded_little hend
  rw [hashedMessage, message, hdec, List.append_assoc,
    List.take_append_of_le_length (Nat.le_of_eq c.len.symm),
    List.take_of_length_le (Nat.le_of_eq c.len)]

end Receives

def hexDigit (n : Nat) : UInt8 := if n < 10 then UInt8.ofNat (48 + n) else UInt8.ofNat (87 + n)

theorem hexDigit_pair (b : UInt8) :
    isXDigit (hexDigit (b.toNat / 16)) = true ∧ isXDigit (hexDigit (b.toNat % 16)) = true ∧
      b.toNat =
        digitVal (hexDigit (b.toNat / 16)) * 16 + digitVal (hexDigit (b.toNat % 16)) := by
  revert b
  apply forall_byte
  decide +kernel

/-- The text in lower case. -/
def hexText (bs : Bytes) : Bytes :=
  bs.flatMap fun b => [hexDigit (b.toNat / 16), hexDigit (b.toNat % 16)]

theorem hexPairs_hexText (bs : Bytes) : HexPairs bs (hexText bs) := by
  induction bs with
  | nil => exact .nil
  | cons b bs ih =>
    obtain ⟨hd, he, hb⟩ := hexDigit_pair b
    exact .cons hd he hb ih

/-- Every value can be received. -/
theorem exists_receives (c : Challenge) : ∃ sock, Receives sock c := by
  have hlen : (hexText c.bytes).length = 32 := by
    rw [(hexPairs_hexText c.bytes).length, c.len]
    rfl
  refine ⟨onePiece (hexText c.bytes ++ [10]), hexText c.bytes, 10, hexPairs_hexText _, ?_⟩
  cases htext : hexText c.bytes with
  | nil =>
    rw [htext] at hlen
    cases hlen
  | cons b bs =>
    have hall : (b :: (bs ++ [10])).length = hexChallenge := by
      rw [← List.cons_append, ← htext, List.length_append, hlen]
      rfl
    exact List.take_of_length_le (Nat.le_of_eq hall)

/-- The challenge of sixteen times the byte `b`. -/
def constChallenge (b : UInt8) : Challenge :=
  ⟨List.replicate challengeLength b, List.length_replicate⟩

theorem exists_ne_challenge (c : Challenge) : ∃ c' : Challenge, c' ≠ c := by
  by_cases h : constChallenge 0 = c
  · refine ⟨constChallenge 1, ?_⟩
    intro h1
    have hbytes := congrArg Challenge.bytes (h.trans h1.symm)
    exact absurd hbytes (by decide)
  · exact ⟨_, h⟩

/-- **The challenge counts on little-endian hosts only.** Whatever value is received, in digits of
either case, the call keeps it exactly if the host stores the low byte of a word first. -/
theorem proxySend_challenge {sock : List Recv} {c : Challenge} (h : Receives sock c)
    (env : ProxyEnv) (macbuf passwd : Bytes) :
    ChallengeKept env sock c macbuf passwd ↔ env.endian = .little := by
  constructor
  · intro hkept
    cases hend : env.endian with
    | little => rfl
    | big =>
      -- another challenge gives the same sixteen zeros
      obtain ⟨c', hne⟩ := exists_ne_challenge c
      obtain ⟨sock', h'⟩ := exists_receives c'
      have hsame : hashedMessage env macbuf passwd (received env sock') =
          hashedMessage env macbuf passwd (received env sock) := by
        simp only [hashedMessage, message, h.decoded_big hend, h'.decoded_big hend]
      refine absurd ?_ (hkept.distinct env sock' c' rfl h' hne)
      rw [h'.hashed_eq, h.hashed_eq, hsame]
  · intro hend
    refine ⟨h.decoded_little hend, h.hashed_little macbuf passwd env hend, ?_⟩
    intro env' sock' c' hend' h' hne heq
    obtain ⟨msg, hmsg, hc⟩ := h.hashed_little macbuf passwd env hend
    obtain ⟨msg', hmsg', hc'⟩ := h'.hashed_little macbuf passwd env' (hend'.trans hend)
    rw [hmsg, hmsg'] at heq
    cases heq
    apply hne
    cases c
    cases c'
    congr 1
    exact hc'.symm.trans hc

/-- The value that `exampleChallenge` is the text of. -/
def exampleValue : Challenge :=
  ⟨[0x00, 0x11, 0x22, 0x33, 0x44, 0x55, 0x66, 0x77, 0x88, 0x99, 0xaa, 0xbb, 0xcc, 0xdd, 0xee, 0xff],
    by decide⟩

theorem receives_example : Receives exampleChallenge exampleValue :=
  ⟨hexText exampleValue.bytes, 10, hexPairs_hexText _, by decide +kernel⟩

theorem proxySend_challenge_little :
    ChallengeKept exampleEnv exampleChallenge exampleValue (ascii "0:1:2:3:4:5") (ascii "pw") ↔
      exampleEnv.endian = .little :=
  proxySend_challenge receives_example exampleEnv (ascii "0:1:2:3:4:5") (ascii "pw")

/-- On a big-endian host the sixteen bytes are zeros. -/
theorem challenge_big_lost :
    ¬ ChallengeKept { exampleEnv with endian := .big } exampleChallenge exampleValue
      (ascii "0:1:2:3:4:5") (ascii "pw") := by
  intro h
  have hbig : ({ exampleEnv with endian := .big } : ProxyEnv).endian = .big := rfl
  have hzero := receives_example.decoded_big hbig
  exact absurd (hzero.symm.trans h.decoded) (by decide)

end WakeOnLan
