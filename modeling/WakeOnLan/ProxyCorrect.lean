import WakeOnLan.CLib.Checked
import WakeOnLan.Proxy

/-!
# WakeOnLan.ProxyCorrect

The answer to a challenge.

* `recv_cases`     — the one `recv` of a call: an error, fewer than 33 bytes, or all of them.
* `decode_take`    — the challenge after the decode loop holds the first byte in memory of every
  converted word, whatever it held before.
* `Settled`        — the text determines the sixteen bytes: no conversion looks behind it, and some
  conversion stores each of them.
* `reply_take`     — the 33 bytes that are sent: a character and a NUL for every byte of the digest,
  and the last byte of the challenge text.
* `proxySend_answersStream` — the streams on which a call answers the challenge, and only from it.
-/

namespace WakeOnLan

open CLib

/-! ## One `recv` -/

theorem sizeT_neg_one : sizeT (-1) = 2 ^ 64 - 1 := by decide

theorem sizeT_ofNat {n : Nat} (h : n < 2 ^ 64) : sizeT n = n := by
  simp only [sizeT]
  omega

theorem hexChallenge_lt : hexChallenge < 2 ^ 64 := by decide

theorem sizeT_hexChallenge : sizeT hexChallenge = hexChallenge := sizeT_ofNat hexChallenge_lt

theorem tcpRecv_data (b : UInt8) (bs : Bytes) (s : List Recv) (len : Nat) :
    (tcpRecv (.data b bs :: s) len).1 = ((b :: bs).take len).length ∧
      (tcpRecv (.data b bs :: s) len).2.1 = (b :: bs).take len := ⟨rfl, rfl⟩

/-- The outcomes of the `recv` of a call, by its result. -/
theorem recv_cases (sock : List Recv) :
    (sock.head? = some .error ∧ (tcpRecv sock hexChallenge).1 = -1 ∧
      (tcpRecv sock hexChallenge).2.1 = []) ∨
    ((firstPiece sock).length < hexChallenge ∧ sock.head? ≠ some .error ∧
      (tcpRecv sock hexChallenge).1 = (firstPiece sock).length) ∨
    (hexChallenge ≤ (firstPiece sock).length ∧
      (tcpRecv sock hexChallenge).1 = hexChallenge ∧
      (tcpRecv sock hexChallenge).2.1 = (delivered sock).take hexChallenge) := by
  cases sock with
  | nil => exact .inr (.inl ⟨by decide, by simp, rfl⟩)
  | cons r s =>
    cases r with
    | error => exact .inl ⟨rfl, rfl, rfl⟩
    | closed => exact .inr (.inl ⟨by simp [firstPiece, hexChallenge], by simp, rfl⟩)
    | data b bs =>
      obtain ⟨h1, h2⟩ := tcpRecv_data b bs s hexChallenge
      by_cases hlen : (b :: bs).length < hexChallenge
      · refine .inr (.inl ⟨hlen, by simp, ?_⟩)
        rw [h1, List.take_of_length_le (Nat.le_of_lt hlen)]
        rfl
      · have hle : hexChallenge ≤ (b :: bs).length := Nat.le_of_not_lt hlen
        refine .inr (.inr ⟨hle, ?_, ?_⟩)
        · rw [h1, List.length_take, Nat.min_eq_left hle]
        · rw [h2, delivered, List.take_append_of_le_length hle]

/-! ## The challenge -/

/-- The word that the `j`-th conversion of the loop stores. -/
def pairWord (rsbuf : Bytes) (j : Nat) : Option UInt32 :=
  match (sscanf (rsbuf.drop (2 * j)) [.num 16 (some 2)]).values with
  | .num v :: _ => some v
  | _ => none

theorem decodeStep_word {endian : Endian} {rsbuf challenge : Bytes} {j : Nat} {v : UInt32}
    (h : pairWord rsbuf j = some v) :
    decodeStep endian rsbuf challenge j = writeAt challenge j (wordBytes v endian) := by
  simp only [pairWord] at h
  split at h
  · rename_i hv
    obtain rfl := Option.some.inj h
    simp only [decodeStep, hv]
  · cases h

/-- A conversion assigns its word, or nothing. -/
theorem pairWord_values (rsbuf : Bytes) (j : Nat) :
    (sscanf (rsbuf.drop (2 * j)) [.num 16 (some 2)]).values =
      ((pairWord rsbuf j).map Value.num).toList := by
  simp only [pairWord, sscanf, scan_pair_values]
  cases pairValue (((cstr (rsbuf.drop (2 * j))).dropWhile isSpace).take 2) with
  | none => rfl
  | some v => rfl

theorem decodeStep_none {endian : Endian} {rsbuf challenge : Bytes} {j : Nat}
    (h : pairWord rsbuf j = none) : decodeStep endian rsbuf challenge j = challenge := by
  simp only [decodeStep, pairWord_values, h]
  rfl

theorem length_decodeStep (endian : Endian) (rsbuf challenge : Bytes) (j : Nat) :
    (decodeStep endian rsbuf challenge j).length = challenge.length := by
  unfold decodeStep
  split
  · exact length_writeAt ..
  · rfl

theorem length_decodeSteps (endian : Endian) (rsbuf challenge : Bytes) (n : Nat) :
    ((List.range n).foldl (decodeStep endian rsbuf) challenge).length = challenge.length :=
  length_foldl_range (fun _ _ => length_decodeStep ..) challenge n

/-- The loop invariant: of the first `n` words, the first byte of each is in its place. The other
three are overwritten by the next round, or lie behind. -/
theorem decodeSteps_take {endian : Endian} {rsbuf challenge : Bytes} {v : Nat → UInt32} {n : Nat}
    (hv : ∀ j < n, pairWord rsbuf j = some (v j)) (hn : n + 3 ≤ challenge.length) :
    ((List.range n).foldl (decodeStep endian rsbuf) challenge).take n =
      (List.range n).map fun j => (wordBytes (v j) endian).headD 0 := by
  induction n with
  | zero => rfl
  | succ n ih =>
    have hih := ih (fun j hj => hv j (Nat.lt_succ_of_lt hj)) (by omega)
    have hlen := length_decodeSteps endian rsbuf challenge n
    have hword := length_wordBytes (v n) endian
    rw [List.range_succ, List.foldl_append, List.foldl_cons, List.foldl_nil,
      decodeStep_word (hv n (Nat.lt_succ_self n)), writeAt_eq (by omega), List.map_append, ← hih]
    generalize (List.range n).foldl (decodeStep endian rsbuf) challenge = p at hlen ⊢
    have htake : (p.take n).length = n := by
      rw [List.length_take]
      omega
    obtain ⟨b, w, hw⟩ : ∃ b w, wordBytes (v n) endian = b :: w := by
      cases h : wordBytes (v n) endian with
      | nil => rw [h] at hword; cases hword
      | cons b w => exact ⟨b, w, rfl⟩
    have hn1 : n + 1 = (p.take n ++ [b]).length := by simp [htake]
    rw [hw, show p.take n ++ b :: w = p.take n ++ [b] ++ w by simp,
      List.append_assoc (p.take n ++ [b]),
      hn1, List.take_left]
    simp [hw]

theorem decode_take {endian : Endian} {rsbuf : Bytes} {v : Nat → UInt32}
    (hv : ∀ j < challengeLength, pairWord rsbuf j = some (v j)) (f : Frame) :
    (decode endian rsbuf f.challenge).take challengeLength =
      (List.range challengeLength).map fun j => (wordBytes (v j) endian).headD 0 :=
  decodeSteps_take hv f.challengeLen

/-- The text of a challenge: hex digits, and one more byte. -/
structure HexChallenge (c : Bytes) : Prop where
  len : c.length = hexChallenge
  digits : ∀ b ∈ c.take (2 * challengeLength), isXDigit b = true

theorem isXDigit_ne_zero {c : UInt8} (h : isXDigit c = true) : (c != 0) = true := by
  revert c
  apply forall_byte
  decide +kernel

theorem pairWord_digits {rsbuf rest : Bytes} {d e : UInt8} {j : Nat}
    (h : rsbuf.drop (2 * j) = d :: e :: rest) (hd : isXDigit d = true) (he : isXDigit e = true) :
    pairWord rsbuf j = some (UInt8.ofNat (digitVal d * 16 + digitVal e)).toUInt32 := by
  have hd16 := digitVal_lt_of_isXDigit hd
  have he16 := digitVal_lt_of_isXDigit he
  have hb : (UInt8.ofNat (digitVal d * 16 + digitVal e)).toNat = digitVal d * 16 + digitVal e := by
    rw [UInt8.toNat_ofNat']
    omega
  have hstr : cstr (d :: e :: rest) = d :: e :: cstr rest := by
    simp [cstr, isXDigit_ne_zero hd, isXDigit_ne_zero he]
  simp [pairWord, sscanf, h, hstr, scan_cons_ok (scan_hexPair hd he hb (cstr rest))]

theorem HexChallenge.drop_pair {c : Bytes} (h : HexChallenge c) {j : Nat}
    (hj : j < challengeLength) :
    ∃ d e t, c.drop (2 * j) = d :: e :: t ∧ isXDigit d = true ∧ isXDigit e = true := by
  have hlen := h.len
  simp only [hexChallenge, challengeLength] at hlen hj
  obtain ⟨d, e, t, ht⟩ : ∃ d e t, c.drop (2 * j) = d :: e :: t := by
    match hc : c.drop (2 * j) with
    | [] | [_] =>
      have := congrArg List.length hc
      simp at this
      omega
    | d :: e :: t => exact ⟨d, e, t, rfl⟩
  have hpair : (c.take (2 * challengeLength)).drop (2 * j) = (d :: e :: t).take (32 - 2 * j) := by
    rw [List.drop_take, ht]
    rfl
  obtain ⟨k, hk⟩ : ∃ k, 32 - 2 * j = k + 2 := ⟨30 - 2 * j, by omega⟩
  have hmem : ∀ b ∈ [d, e], b ∈ c.take (2 * challengeLength) := by
    intro b hb
    apply List.mem_of_mem_drop (i := 2 * j)
    rw [hpair, hk]
    simp only [List.take_succ_cons, List.mem_cons, List.not_mem_nil, or_false] at hb ⊢
    exact hb.elim .inl fun hb => .inr (.inl hb)
  exact ⟨d, e, t, ht, h.digits d (hmem d (by simp)), h.digits e (hmem e (by simp))⟩

/-- Every pair of digits of a challenge is read. -/
theorem HexChallenge.pairWord {c : Bytes} (h : HexChallenge c) {j : Nat}
    (hj : j < challengeLength) : ∃ v, WakeOnLan.pairWord c j = some v := by
  obtain ⟨d, e, t, ht, hd, he⟩ := h.drop_pair hj
  exact ⟨_, pairWord_digits ht hd he⟩

/-! ## The bytes of the challenge -/

section Bytes

variable {endian : Endian} {rsbuf rsbuf' challenge challenge' : Bytes} {n i : Nat}

/-- One round: the conversion stores its word, or leaves the array alone. -/
theorem getElem?_decodeStep (hn : n + 4 ≤ challenge.length) (i : Nat) :
    (decodeStep endian rsbuf challenge n)[i]? =
      match pairWord rsbuf n with
      | some v => if n ≤ i ∧ i < n + 4 then (wordBytes v endian)[i - n]? else challenge[i]?
      | none => challenge[i]? := by
  cases hw : pairWord rsbuf n with
  | none => rw [decodeStep_none hw]
  | some v =>
    rw [decodeStep_word hw, getElem?_writeAt (by rw [length_wordBytes]; exact hn),
      length_wordBytes]

theorem decodeSteps_succ (endian : Endian) (rsbuf challenge : Bytes) (n : Nat) :
    (List.range (n + 1)).foldl (decodeStep endian rsbuf) challenge =
      decodeStep endian rsbuf ((List.range n).foldl (decodeStep endian rsbuf) challenge) n := by
  rw [List.range_succ, List.foldl_append]
  rfl

/-- A byte that no conversion stores to stays, by induction on the rounds. -/
theorem decodeSteps_kept (hn : n + 3 ≤ challenge.length)
    (h : ∀ j < n, j ≤ i → i < j + 4 → pairWord rsbuf j = none) :
    ((List.range n).foldl (decodeStep endian rsbuf) challenge)[i]? = challenge[i]? := by
  induction n with
  | zero => rfl
  | succ n ih =>
    have hih := ih (by omega) fun j hj => h j (Nat.lt_succ_of_lt hj)
    have hlen := length_decodeSteps endian rsbuf challenge n
    rw [decodeSteps_succ, getElem?_decodeStep (by omega), hih]
    cases hw : pairWord rsbuf n with
    | none => rfl
    | some v =>
      by_cases hin : n ≤ i ∧ i < n + 4
      · rw [h n (Nat.lt_succ_self n) hin.1 hin.2] at hw
        cases hw
      · simp only [if_neg hin]

/-- A byte that one of them stores to depends on the words only, by induction on the rounds: the
last round that stores to it decides. -/
theorem decodeSteps_same (hn : n + 3 ≤ challenge.length) (hn' : n + 3 ≤ challenge'.length)
    (hsame : ∀ j < n, pairWord rsbuf j = pairWord rsbuf' j)
    (h : ∃ j < n, j ≤ i ∧ i < j + 4 ∧ (pairWord rsbuf j).isSome) :
    ((List.range n).foldl (decodeStep endian rsbuf) challenge)[i]? =
      ((List.range n).foldl (decodeStep endian rsbuf') challenge')[i]? := by
  induction n with
  | zero =>
    obtain ⟨j, hj, -⟩ := h
    cases hj
  | succ n ih =>
    have hlen := length_decodeSteps endian rsbuf challenge n
    have hlen' := length_decodeSteps endian rsbuf' challenge' n
    rw [decodeSteps_succ, decodeSteps_succ, getElem?_decodeStep (by omega),
      getElem?_decodeStep (by omega), ← hsame n (Nat.lt_succ_self n)]
    have hbefore : (∃ j < n, j ≤ i ∧ i < j + 4 ∧ (pairWord rsbuf j).isSome) →
        ((List.range n).foldl (decodeStep endian rsbuf) challenge)[i]? =
          ((List.range n).foldl (decodeStep endian rsbuf') challenge')[i]? :=
      ih (by omega) (by omega) fun j hj => hsame j (Nat.lt_succ_of_lt hj)
    obtain ⟨j, hj, hji, hij, hsome⟩ := h
    cases hw : pairWord rsbuf n with
    | none =>
      have hne : j ≠ n := by
        rintro rfl
        rw [hw] at hsome
        cases hsome
      exact hbefore ⟨j, by omega, hji, hij, hsome⟩
    | some v =>
      by_cases hin : n ≤ i ∧ i < n + 4
      · simp only [if_pos hin]
      · have hne : j ≠ n := fun heq => hin (heq ▸ ⟨hji, hij⟩)
        simp only [if_neg hin]
        exact hbefore ⟨j, by omega, hji, hij, hsome⟩

/-- The first byte of a word is not overwritten. -/
theorem decodeSteps_first {v : UInt32} (hn : n + 3 ≤ challenge.length) (hi : i < n)
    (hw : pairWord rsbuf i = some v) :
    ((List.range n).foldl (decodeStep endian rsbuf) challenge)[i]? =
      (wordBytes v endian)[0]? := by
  induction n with
  | zero => cases hi
  | succ n ih =>
    have hlen := length_decodeSteps endian rsbuf challenge n
    rw [decodeSteps_succ, getElem?_decodeStep (by omega)]
    by_cases hin : i = n
    · subst hin
      simp only [hw, if_pos (show i ≤ i ∧ i < i + 4 by omega), Nat.sub_self]
    · rw [ih (by omega) (by omega)]
      cases pairWord rsbuf n with
      | none => rfl
      | some w => simp only [if_neg (show ¬ (n ≤ i ∧ i < n + 4) by omega)]

end Bytes

/-- All that the sixteen bytes depend on is in the text: every conversion looks at bytes of it only,
and every byte of the array is stored by one of them. -/
structure Settled (c : Bytes) : Prop where
  reads : ∀ j < challengeLength, 2 * j + pairReads (c.drop (2 * j)) ≤ c.length
  written : ∀ i < challengeLength, ∃ j ≤ i, i < j + 4 ∧ (pairWord c j).isSome

section Settled

variable {c : Bytes}

/-- A conversion that looks at the text only does not see what lies behind it. -/
theorem pairWord_append {j : Nat} (h : 2 * j + pairReads (c.drop (2 * j)) ≤ c.length)
    (rest : Bytes) : pairWord (c ++ rest) j = pairWord c j := by
  have hreads : pairReads (c.drop (2 * j)) ≤ (c.drop (2 * j)).length := by
    rw [List.length_drop]
    omega
  simp only [pairWord, List.drop_append_of_le_length (show 2 * j ≤ c.length by omega),
    sscanf_pair_append hreads]

/-- One that looks further does. -/
theorem pairWord_two {j : Nat} (hj : 2 * j ≤ c.length)
    (h : c.length < 2 * j + pairReads (c.drop (2 * j))) :
    ∃ v w, pairWord (c ++ [49]) j = some v ∧ pairWord (c ++ [50]) j = some w ∧
      v.toUInt8 ≠ w.toUInt8 := by
  have hlt : (c.drop (2 * j)).length < pairReads (c.drop (2 * j)) := by
    rw [List.length_drop]
    omega
  obtain ⟨v, w, hv, hw, hne⟩ := sscanf_pair_two hlt
  refine ⟨v, w, ?_, ?_, hne⟩
  · rw [pairWord, List.drop_append_of_le_length hj, hv]
  · rw [pairWord, List.drop_append_of_le_length hj, hw]

theorem length_decode (endian : Endian) (rsbuf challenge : Bytes) :
    (decode endian rsbuf challenge).length = challenge.length := length_decodeSteps ..

/-- The decoded challenge does not depend on what the stack held. -/
theorem Settled.decode_take (h : Settled c) (endian : Endian) (rest rest' : Bytes) (f f' : Frame) :
    (decode endian (c ++ rest) f.challenge).take challengeLength =
      (decode endian (c ++ rest') f'.challenge).take challengeLength := by
  apply List.ext_getElem?
  intro i
  rw [List.getElem?_take, List.getElem?_take]
  by_cases hi : i < challengeLength
  · rw [if_pos hi, if_pos hi]
    have hsame : ∀ rest, ∀ j < challengeLength, pairWord (c ++ rest) j = pairWord c j :=
      fun rest j hj => pairWord_append (h.reads j hj) rest
    obtain ⟨j, hj, hij, hsome⟩ := h.written i hi
    refine decodeSteps_same f.challengeLen f'.challengeLen
      (fun j hj => (hsame rest j hj).trans (hsame rest' j hj).symm)
      ⟨j, Nat.lt_of_le_of_lt hj hi, hj, hij, ?_⟩
    rwa [hsame rest j (Nat.lt_of_le_of_lt hj hi)]
  · rw [if_neg hi, if_neg hi]

end Settled

/-- A challenge in hex digits settles them. -/
theorem HexChallenge.settled {c : Bytes} (h : HexChallenge c) : Settled c where
  reads := by
    intro j hj
    obtain ⟨d, e, t, ht, hd, -⟩ := h.drop_pair hj
    have hlen := congrArg List.length ht
    rw [List.length_drop, List.length_cons, List.length_cons] at hlen
    have hspace := isXDigit_not_space hd
    simp only [pairReads, ht, List.takeWhile_cons, List.dropWhile_cons, hspace]
    simp only [Bool.false_eq_true, if_false, if_pos (Or.inl hd), List.length_nil]
    omega
  written := by
    intro i hi
    obtain ⟨v, hv⟩ := h.pairWord hi
    exact ⟨i, Nat.le_refl i, by omega, by rw [hv]; rfl⟩

/-! ## The reply -/

/-- The two bytes that the encode loop stores for one byte of the digest. -/
def digestChunk (md5sum : Bytes) (i : Nat) : Bytes :=
  snprintf 2 (fmtHex 2 (md5sum.getD i 0).toNat)

theorem digestChunk_eq (md5sum : Bytes) (i : Nat) : ∃ c, digestChunk md5sum i = [c, 0] :=
  snprintf_two (length_fmtHex_two _)

theorem length_digestChunk (md5sum : Bytes) (i : Nat) : (digestChunk md5sum i).length = 2 := by
  obtain ⟨c, hc⟩ := digestChunk_eq md5sum i
  rw [hc]
  rfl

def digestChunks (md5sum : Bytes) : Bytes :=
  ((List.range md5Length).map (digestChunk md5sum)).flatten

theorem length_digestChunks (md5sum : Bytes) : (digestChunks md5sum).length = 32 :=
  length_flatten_chunks (length_digestChunk md5sum) md5Length

theorem encode_eq {rsbuf : Bytes} (h : 32 ≤ rsbuf.length) (md5sum : Bytes) :
    encode rsbuf md5sum = digestChunks md5sum ++ rsbuf.drop 32 := by
  have hloop : encode rsbuf md5sum = writeChunks rsbuf 0 2 (digestChunk md5sum) md5Length := by
    simp [encode, writeChunks, digestChunk]
  have hchunks := writeChunks_eq rsbuf (length_digestChunk md5sum)
    (show 0 + md5Length * 2 ≤ rsbuf.length from h)
  rw [hloop, hchunks]
  rfl

theorem reply_take {rsbuf : Bytes} (h : hexChallenge < rsbuf.length) (md5sum : Digest) :
    (reply rsbuf md5sum).take hexChallenge =
      digestChunks md5sum.bytes ++ (rsbuf.drop 32).take 1 := by
  have hlen := length_digestChunks md5sum.bytes
  simp only [hexChallenge, challengeLength] at h
  have hstore : hexChallenge + ([10] : Bytes).length ≤ (encode rsbuf md5sum.bytes).length := by
    rw [encode_eq (by omega), List.length_append, hlen, List.length_drop]
    simp [hexChallenge, challengeLength]
    omega
  have htake : ((encode rsbuf md5sum.bytes).take hexChallenge).length = hexChallenge := by
    rw [List.length_take]
    omega
  rw [reply, writeAt_eq hstore, List.append_assoc,
    List.take_append_of_le_length (Nat.le_of_eq htake.symm),
    List.take_take, Nat.min_self, encode_eq (by omega), List.take_append, hlen,
    List.take_of_length_le (by rw [hlen]; decide)]
  rfl

/-! ## One call -/

section Call

variable (env : ProxyEnv) (sock : List Recv) (macbuf passwd : Bytes)

/-- `rsbuf` behind the `recv`. -/
def received : Bytes := writeAt env.frame.rsbuf 0 (tcpRecv sock hexChallenge).2.1

/-- The bytes hashed for the challenge in `rsbuf`. -/
def hashedMessage (rsbuf : Bytes) : Bytes :=
  message (decode env.endian rsbuf env.frame.challenge) macbuf env.behind passwd

/-- The bytes sent for the challenge in `rsbuf`. -/
def sentReply (rsbuf : Bytes) : Bytes :=
  (reply rsbuf (env.md5 (hashedMessage env macbuf passwd rsbuf))).take hexChallenge

variable {env sock macbuf passwd}

/-- A result of `recv` below 33 ends the call. -/
theorem proxySend_short (env : ProxyEnv) (macbuf passwd : Bytes)
    (h : sizeT (tcpRecv sock hexChallenge).1 < hexChallenge) :
    proxySend env sock macbuf passwd = (-1, [], (tcpRecv sock hexChallenge).2.2) := by
  simp only [proxySend, if_pos h]

/-- Any other result, `-1` among them, is taken for a challenge. -/
theorem proxySend_answer (env : ProxyEnv) (macbuf passwd : Bytes)
    (h : ¬ sizeT (tcpRecv sock hexChallenge).1 < hexChallenge) :
    (proxySend env sock macbuf passwd).1 = env.send ∧
      hashed (proxySend env sock macbuf passwd).2.1 =
        [hashedMessage env macbuf passwd (received env sock)] ∧
      sent (proxySend env sock macbuf passwd).2.1 =
        [sentReply env macbuf passwd (received env sock)] := by
  refine ⟨?_, ?_, ?_⟩
  · simp only [proxySend, if_neg h]
  · simp only [proxySend, if_neg h]
    rfl
  · simp only [proxySend, if_neg h]
    rfl

theorem length_received : hexChallenge < (received env sock).length := by
  rw [received, length_writeAt]
  exact env.frame.rsbufLen

theorem sentReply_eq {rsbuf : Bytes} (h : hexChallenge < rsbuf.length) :
    sentReply env macbuf passwd rsbuf =
      digestChunks (env.md5 (hashedMessage env macbuf passwd rsbuf)).bytes ++
        (rsbuf.drop 32).take 1 :=
  reply_take h _

theorem length_sentReply {rsbuf : Bytes} (h : hexChallenge < rsbuf.length) :
    (sentReply env macbuf passwd rsbuf).length = hexChallenge := by
  have hdrop : ((rsbuf.drop 32).take 1).length = 1 := by
    simp only [hexChallenge, challengeLength] at h
    rw [List.length_take, List.length_drop]
    omega
  rw [sentReply_eq h, List.length_append, length_digestChunks, hdrop]
  rfl

/-- The second byte of a reply is the NUL of the first `snprintf`. -/
theorem sentReply_nul {rsbuf : Bytes} (h : hexChallenge < rsbuf.length) :
    0 ∈ (sentReply env macbuf passwd rsbuf).take (2 * md5Length) := by
  have hlen : (digestChunks (env.md5 (hashedMessage env macbuf passwd rsbuf)).bytes).length =
      2 * md5Length := length_digestChunks _
  obtain ⟨c, hc⟩ := digestChunk_eq (env.md5 (hashedMessage env macbuf passwd rsbuf)).bytes 0
  rw [sentReply_eq h, List.take_append_of_le_length (Nat.le_of_eq hlen.symm),
    List.take_of_length_le (Nat.le_of_eq hlen), digestChunks, List.mem_flatten]
  exact ⟨_, List.mem_map_of_mem (List.mem_range.mpr (show 0 < md5Length by decide)),
    by rw [hc]; simp⟩

end Call

/-- A reply as the challenge is written: two hex digits for each byte of the digest, a newline, and
read pair by pair it gives the digest. -/
structure HexReply (md5sum : Digest) (r : Bytes) : Prop where
  len : r.length = hexChallenge
  digits : ∀ b ∈ r.take (2 * md5Length), isXDigit b = true
  newline : r.getLast? = some 10
  reads : ∀ j < md5Length, pairWord r j = some (md5sum.bytes.getD j 0).toUInt32

/-- **No reply is in the format of the challenge.** Whenever a call computes a digest it sends 33
bytes, and they are never the hex text of that digest. -/
theorem proxySend_reply_not_hex (env : ProxyEnv) (sock : List Recv) (macbuf passwd : Bytes)
    (h : hashed (proxySend env sock macbuf passwd).2.1 ≠ []) :
    ∃ msg r, hashed (proxySend env sock macbuf passwd).2.1 = [msg] ∧
      sent (proxySend env sock macbuf passwd).2.1 = [r] ∧ r.length = 33 ∧
      ¬ HexReply (env.md5 msg) r := by
  have hfull : ¬ sizeT (tcpRecv sock hexChallenge).1 < hexChallenge := by
    intro hshort
    rw [proxySend_short env macbuf passwd hshort] at h
    exact h rfl
  obtain ⟨-, hmsg, hr⟩ := proxySend_answer env macbuf passwd hfull
  refine ⟨_, _, hmsg, hr, length_sentReply length_received, ?_⟩
  intro hhex
  exact absurd (hhex.digits 0 (sentReply_nul length_received)) (by decide)

/-- A digest that is the same for all messages. -/
def constDigest (b : UInt8) : Digest := ⟨List.replicate md5Length b, List.length_replicate⟩

def zeroFrame : Frame :=
  { rsbuf := List.replicate 34 0, challenge := List.replicate 19 0, rsbufLen := by decide,
    challengeLen := by decide }

def exampleEnv : ProxyEnv :=
  { endian := .little, md5 := fun _ => constDigest 0xab, frame := zeroFrame, behind := [],
    send := 33 }

def exampleChallenge : List Recv :=
  [.data 48 (ascii "0112233445566778899aabbccddeeff\n")]

theorem proxySend_reply_not_hex_ab :
    ∃ msg r, hashed (proxySend exampleEnv exampleChallenge (ascii "0:1:2:3:4:5") (ascii "pw")).2.1 =
        [msg] ∧
      sent (proxySend exampleEnv exampleChallenge (ascii "0:1:2:3:4:5") (ascii "pw")).2.1 = [r] ∧
      r.length = 33 ∧ ¬ HexReply (exampleEnv.md5 msg) r :=
  proxySend_reply_not_hex exampleEnv exampleChallenge (ascii "0:1:2:3:4:5") (ascii "pw")
    (by decide +kernel)

/-- With sixteen bytes `0xab` for a digest the reply is sixteen times an `a` and a NUL, and the last
byte of the challenge text. -/
theorem proxySend_reply_ab :
    ∃ r, sent (proxySend exampleEnv exampleChallenge (ascii "0:1:2:3:4:5") (ascii "pw")).2.1 = [r] ∧
      r = (List.replicate 16 (ascii "a" ++ [0])).flatten ++ ascii "\n" ∧
      ¬ HexReply (constDigest 0xab) r := by
  refine ⟨_, by decide +kernel, rfl, ?_⟩
  intro h
  exact absurd (h.digits 0 (by decide)) (by decide)

/-! ## Segmentation -/

/-- A stream that delivers the bytes `c` in one piece. -/
def onePiece : Bytes → List Recv
  | [] => []
  | b :: bs => [.data b bs]

/-- What is asked of a call on a stream. If an error or the end comes before 33 bytes are
delivered it returns `-1` and sends nothing. Otherwise it sends one reply, the same for the same
bytes in one piece, and whatever the uninitialised memory holds; in all surroundings, so that the
reply depends on the bytes, the target and the password alone. -/
structure AnswersStream (sock : List Recv) (macbuf passwd : Bytes) : Prop where
  short : (delivered sock).length < hexChallenge → ∀ env : ProxyEnv,
    (proxySend env sock macbuf passwd).1 = -1 ∧ sent (proxySend env sock macbuf passwd).2.1 = []
  whole : hexChallenge ≤ (delivered sock).length → ∀ env : ProxyEnv, ∃ r, ∀ frame behind,
    sent (proxySend { env with frame := frame, behind := behind } sock macbuf passwd).2.1 = [r] ∧
    sent (proxySend { env with frame := frame, behind := behind }
      (onePiece ((delivered sock).take hexChallenge)) macbuf passwd).2.1 = [r]

theorem firstPiece_le_delivered (sock : List Recv) :
    (firstPiece sock).length ≤ (delivered sock).length := by
  match sock with
  | [] | .error :: _ | .closed :: _ => exact Nat.zero_le _
  | .data b bs :: s =>
    simp only [firstPiece, delivered, List.length_append]
    omega

theorem delivered_error {sock : List Recv} (h : sock.head? = some .error) :
    delivered sock = [] := by
  cases sock with
  | nil => rfl
  | cons r s => cases h; rfl

/-- A call whose `recv` gets the whole challenge. -/
theorem tcpRecv_whole {sock : List Recv} (h : hexChallenge ≤ (firstPiece sock).length) :
    (tcpRecv sock hexChallenge).1 = hexChallenge ∧
      (tcpRecv sock hexChallenge).2.1 = (delivered sock).take hexChallenge := by
  rcases recv_cases sock with ⟨herr, _, _⟩ | ⟨hlt, _, _⟩ | ⟨_, hret, hgot⟩
  · have := firstPiece_le_delivered sock
    rw [delivered_error herr] at this
    exact absurd (Nat.le_trans h this) (by decide)
  · exact absurd h (Nat.not_le_of_lt hlt)
  · exact ⟨hret, hgot⟩

theorem proxySend_whole {sock : List Recv} (env : ProxyEnv) (macbuf passwd : Bytes)
    (h : hexChallenge ≤ (firstPiece sock).length) :
    sent (proxySend env sock macbuf passwd).2.1 =
      [sentReply env macbuf passwd
        (writeAt env.frame.rsbuf 0 ((delivered sock).take hexChallenge))] := by
  obtain ⟨hret, hgot⟩ := tcpRecv_whole h
  have hfull : ¬ sizeT (tcpRecv sock hexChallenge).1 < hexChallenge := by
    rw [hret, sizeT_hexChallenge]
    exact Nat.lt_irrefl _
  obtain ⟨-, -, hr⟩ := proxySend_answer env macbuf passwd hfull
  rw [hr, received, hgot]

theorem firstPiece_onePiece (c : Bytes) : firstPiece (onePiece c) = c := by
  cases c with
  | nil => rfl
  | cons b bs => rfl

theorem delivered_onePiece (c : Bytes) : delivered (onePiece c) = c := by
  cases c with
  | nil => rfl
  | cons b bs => simp [onePiece, delivered]

section Memory

variable {c macbuf : Bytes}

theorem received_append (hlen : c.length = hexChallenge) (f : Frame) :
    writeAt f.rsbuf 0 c = c ++ f.rsbuf.drop c.length := by
  have := f.rsbufLen
  rw [writeAt_eq (by rw [hlen]; omega), List.take_zero, List.nil_append, Nat.zero_add]

/-- Where the text settles the challenge, and the target and its NUL have six bytes, the reply does
not depend on the memory around them. -/
theorem sentReply_memory (hc : Settled c) (hlen : c.length = hexChallenge)
    (hmac : macLen ≤ macbuf.length + 1) (env : ProxyEnv) (passwd : Bytes) (frame : Frame)
    (behind : Bytes) :
    sentReply { env with frame := frame, behind := behind } macbuf passwd
        (writeAt frame.rsbuf 0 c) =
      sentReply env macbuf passwd (writeAt env.frame.rsbuf 0 c) := by
  have hlast : ∀ f : Frame, ((c ++ f.rsbuf.drop c.length).drop 32).take 1 = c.drop 32 := by
    intro f
    have hone : (c.drop 32).length = 1 := by rw [List.length_drop, hlen]; rfl
    rw [List.drop_append_of_le_length (by rw [hlen]; decide),
      List.take_append_of_le_length (Nat.le_of_eq hone.symm),
      List.take_of_length_le (Nat.le_of_eq hone)]
  have hroom : ∀ f : Frame, hexChallenge < (c ++ f.rsbuf.drop c.length).length := by
    intro f
    rw [← received_append hlen, length_writeAt]
    exact f.rsbufLen
  have hmsg : ∀ b : Bytes, (macbuf ++ 0 :: b).take macLen = (macbuf ++ [0]).take macLen := by
    intro b
    rw [List.append_cons, List.take_append_of_le_length (by simpa using hmac)]
  have hdec := hc.decode_take env.endian (frame.rsbuf.drop c.length)
    (env.frame.rsbuf.drop c.length) frame env.frame
  rw [received_append hlen, received_append hlen, sentReply_eq (hroom _), sentReply_eq (hroom _),
    hlast, hlast]
  simp only [hashedMessage, message, hdec, hmsg]

/-- A digest function that tells one message from all others. -/
def telling (msg : Bytes) : Bytes → Digest :=
  fun m => if m = msg then constDigest 0 else constDigest 0xab

theorem telling_ne {msg msg' : Bytes} (h : msg' ≠ msg) :
    digestChunks (telling msg msg').bytes ≠ digestChunks (telling msg msg).bytes := by
  rw [telling, telling, if_neg h, if_pos rfl]
  decide +kernel

/-- A stack that holds `b` everywhere but behind `rsbuf`, where it holds `d`. -/
def fillFrame (b d : UInt8) : Frame :=
  { rsbuf := List.replicate 33 b ++ [d], challenge := List.replicate 19 b,
    rsbufLen := by simp [hexChallenge, challengeLength],
    challengeLen := by rw [List.length_replicate]; decide }

theorem received_fillFrame (hlen : c.length = hexChallenge) (b d : UInt8) :
    writeAt (fillFrame b d).rsbuf 0 c = c ++ [d] := by
  rw [received_append hlen, hlen]
  congr 1

end Memory

section Whole

variable {sock : List Recv} {macbuf passwd : Bytes} (h : AnswersStream sock macbuf passwd)
  (hge : hexChallenge ≤ (firstPiece sock).length)

include h hge

/-- The message that is hashed is the same whatever the memory holds: a digest function could tell
two messages apart. -/
theorem AnswersStream.message_eq (endian : Endian) (f f' : Frame) (b b' : Bytes) :
    message (decode endian (writeAt f.rsbuf 0 ((delivered sock).take hexChallenge)) f.challenge)
        macbuf b passwd =
      message (decode endian (writeAt f'.rsbuf 0 ((delivered sock).take hexChallenge))
        f'.challenge) macbuf b' passwd := by
  obtain ⟨msg, hmsg⟩ : ∃ msg, msg = message (decode endian
    (writeAt f'.rsbuf 0 ((delivered sock).take hexChallenge)) f'.challenge) macbuf b' passwd :=
      ⟨_, rfl⟩
  rw [← hmsg]
  by_contra hne
  have hdel := Nat.le_trans hge (firstPiece_le_delivered sock)
  obtain ⟨r, hr⟩ := h.whole hdel { exampleEnv with endian := endian, md5 := telling msg }
  have hreply := fun frame behind => (hr frame behind).1
  simp only [proxySend_whole _ macbuf passwd hge, List.cons.injEq, and_true] at hreply
  have heq := (hreply f b).trans (hreply f' b').symm
  have hroom : ∀ f : Frame, hexChallenge <
      (writeAt f.rsbuf 0 ((delivered sock).take hexChallenge)).length := by
    intro f
    rw [length_writeAt]
    exact f.rsbufLen
  rw [sentReply_eq (hroom f), sentReply_eq (hroom f')] at heq
  have hchunks := (List.append_inj heq (by rw [length_digestChunks, length_digestChunks])).1
  simp only [hashedMessage, ← hmsg] at hchunks
  exact telling_ne hne hchunks

/-- So are the sixteen bytes of the challenge, and the six of the target. -/
theorem AnswersStream.parts_eq (endian : Endian) (f f' : Frame) (b b' : Bytes) :
    (decode endian (writeAt f.rsbuf 0 ((delivered sock).take hexChallenge)) f.challenge).take
        challengeLength =
      (decode endian (writeAt f'.rsbuf 0 ((delivered sock).take hexChallenge)) f'.challenge).take
        challengeLength ∧
      (macbuf ++ 0 :: b).take macLen = (macbuf ++ 0 :: b').take macLen := by
  have hmsg := h.message_eq hge endian f f' b b'
  have hlen : ∀ (rsbuf : Bytes) (f : Frame),
      ((decode endian rsbuf f.challenge).take challengeLength).length = challengeLength := by
    intro rsbuf f
    have := f.challengeLen
    rw [List.length_take, length_decode]
    omega
  simp only [message, List.append_assoc] at hmsg
  obtain ⟨hchallenge, htail⟩ := List.append_inj hmsg (by rw [hlen, hlen])
  exact ⟨hchallenge, List.append_cancel_right htail⟩

theorem AnswersStream.long : macLen ≤ macbuf.length + 1 := by
  by_contra hshort
  have hparts := (h.parts_eq hge .little zeroFrame zeroFrame (List.replicate 6 0)
    (List.replicate 6 1)).2
  have hget := congrArg (·[macbuf.length + 1]?) hparts
  simp only [List.getElem?_take, if_pos (Nat.lt_of_not_le hshort), List.getElem?_append,
    if_neg (show ¬ macbuf.length + 1 < macbuf.length by omega), Nat.add_sub_cancel_left] at hget
  revert hget
  decide

theorem AnswersStream.settled : Settled ((delivered sock).take hexChallenge) := by
  have hdel := Nat.le_trans hge (firstPiece_le_delivered sock)
  obtain ⟨c, hc⟩ : ∃ c, c = (delivered sock).take hexChallenge := ⟨_, rfl⟩
  have hlen : c.length = hexChallenge := by
    rw [hc, List.length_take, Nat.min_eq_left hdel]
  have hbyte : ∀ b d b' d' i, i < challengeLength →
      (decode .little (c ++ [d]) (fillFrame b d).challenge)[i]? =
        (decode .little (c ++ [d']) (fillFrame b' d').challenge)[i]? := by
    intro b d b' d' i hi
    have hparts := (h.parts_eq hge .little (fillFrame b d) (fillFrame b' d') [] []).1
    rw [← hc, received_fillFrame hlen, received_fillFrame hlen] at hparts
    have hget := congrArg (·[i]?) hparts
    simpa only [List.getElem?_take, if_pos hi] using hget
  rw [← hc]
  have hreads : ∀ j < challengeLength, 2 * j + pairReads (c.drop (2 * j)) ≤ c.length := by
    intro j hj
    by_contra hout
    have hj' : 2 * j ≤ c.length := by
      simp only [hlen, hexChallenge, challengeLength] at hj ⊢
      omega
    obtain ⟨v, w, hv, hw, hne⟩ := pairWord_two hj' (Nat.lt_of_not_le hout)
    have hsame := hbyte 0 49 0 50 j hj
    rw [decode, decode, decodeSteps_first (fillFrame 0 49).challengeLen hj hv,
      decodeSteps_first (fillFrame 0 50).challengeLen hj hw] at hsame
    exact hne (Option.some.inj hsame)
  refine ⟨hreads, fun i hi => ?_⟩
  by_contra hnone
  have hkept : ∀ b, (decode .little (c ++ [0]) (fillFrame b 0).challenge)[i]? =
      (fillFrame b 0).challenge[i]? := by
    intro b
    refine decodeSteps_kept (fillFrame b 0).challengeLen fun j hj hji hij => ?_
    rw [pairWord_append (hreads j hj)]
    by_contra hsome
    exact hnone ⟨j, hji, hij, Option.isSome_iff_ne_none.mpr hsome⟩
  have hsame := hbyte 0 0 1 0 i hi
  have hi' : i < 19 := Nat.lt_trans hi (by decide)
  rw [hkept, hkept, fillFrame, fillFrame, List.getElem?_replicate, List.getElem?_replicate,
    if_pos hi', if_pos hi'] at hsame
  exact absurd hsame (by decide)

end Whole

/-- **A challenge is answered if it comes in one piece.** A call does what the protocol asks on
exactly these streams: the first `recv` does not fail, and if all 33 bytes of the challenge are
delivered, the first piece has them all, they settle the sixteen bytes that are hashed, and the
target has at least five characters. -/
theorem proxySend_answersStream (sock : List Recv) (macbuf passwd : Bytes) :
    AnswersStream sock macbuf passwd ↔
      sock.head? ≠ some .error ∧
        (hexChallenge ≤ (delivered sock).length → hexChallenge ≤ (firstPiece sock).length ∧
          Settled ((delivered sock).take hexChallenge) ∧ macLen ≤ macbuf.length + 1) := by
  have hle := firstPiece_le_delivered sock
  rcases recv_cases sock with ⟨herr, hret, _⟩ | ⟨hlt, hne, hret⟩ | ⟨hge, _, _⟩
  · -- `-1` becomes the greatest `size_t` and passes for a challenge
    have hfull : ¬ sizeT (tcpRecv sock hexChallenge).1 < hexChallenge := by
      rw [hret, sizeT_neg_one]
      decide
    obtain ⟨-, -, hr⟩ := proxySend_answer exampleEnv macbuf passwd hfull
    constructor
    · intro h
      have := (h.short (by rw [delivered_error herr]; decide) exampleEnv).2
      rw [hr] at this
      cases this
    · intro h
      exact absurd herr h.1
  · have hshort : sizeT (tcpRecv sock hexChallenge).1 < hexChallenge := by
      rw [hret, sizeT_ofNat (Nat.lt_trans hlt hexChallenge_lt)]
      exact hlt
    have hcall := fun env => proxySend_short env macbuf passwd hshort
    constructor
    · intro h
      refine ⟨hne, ?_⟩
      intro hdel
      obtain ⟨r, hr⟩ := h.whole hdel exampleEnv
      have := (hr zeroFrame []).1
      rw [hcall] at this
      cases this
    · intro h
      refine ⟨fun _ env => by rw [hcall]; exact ⟨rfl, rfl⟩, ?_⟩
      intro hdel
      exact absurd (h.2 hdel).1 (Nat.not_le_of_lt hlt)
  · constructor
    · intro h
      refine ⟨?_, fun _ => ⟨hge, h.settled hge, h.long hge⟩⟩
      intro herr
      rw [delivered_error herr] at hle
      exact absurd (Nat.le_trans hge hle) (by decide)
    · rintro ⟨-, hwhole⟩
      have hdel := Nat.le_trans hge hle
      obtain ⟨-, hsettled, hmac⟩ := hwhole hdel
      have hlen : ((delivered sock).take hexChallenge).length = hexChallenge := by
        rw [List.length_take, Nat.min_eq_left hdel]
      have hpiece :
          hexChallenge ≤ (firstPiece (onePiece ((delivered sock).take hexChallenge))).length := by
        rw [firstPiece_onePiece, hlen]
      refine ⟨fun hshort => absurd hdel (Nat.not_le_of_lt hshort), fun _ env => ?_⟩
      refine ⟨sentReply env macbuf passwd
        (writeAt env.frame.rsbuf 0 ((delivered sock).take hexChallenge)), ?_⟩
      intro frame behind
      have hmemory := sentReply_memory hsettled hlen hmac env passwd frame behind
      rw [proxySend_whole _ macbuf passwd hge, proxySend_whole _ macbuf passwd hpiece,
        delivered_onePiece, List.take_take, Nat.min_self]
      exact ⟨congrArg (fun r => [r]) hmemory, congrArg (fun r => [r]) hmemory⟩

/-- The 33 bytes in two pieces are not answered. -/
theorem proxySend_two_pieces :
    ¬ AnswersStream [.data 48 [], .data 48 (ascii "112233445566778899aabbccddeeff\n")]
      (ascii "0:1:2:3:4:5") (ascii "pw") := by
  intro h
  obtain ⟨r, hr⟩ := h.whole (by decide) exampleEnv
  have hnone : sent (proxySend exampleEnv
      [.data 48 [], .data 48 (ascii "112233445566778899aabbccddeeff\n")]
      (ascii "0:1:2:3:4:5") (ascii "pw")).2.1 = [] := by decide +kernel
  have := (hr zeroFrame []).1
  rw [show ({ exampleEnv with frame := zeroFrame, behind := [] } : ProxyEnv) = exampleEnv from rfl,
    hnone] at this
  cases this

end WakeOnLan
