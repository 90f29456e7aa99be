import WakeOnLan.ProxyCorrect

/-!
# WakeOnLan.ProxyBounds

The accesses of `proxy_send` to its arrays, each of them checked.

* `Arrays`            — the arrays of a call as they are declared, with nothing behind them.
* `checkedReply`      — the decode loop, the encode loop and the final store.
* `decode_slack` / `encode_slack` / `reply_slack` — while no access is out of bounds, this is what
  the call does on a stack with more behind the arrays; the final store changes the byte behind
  `rsbuf`.
* `checkedReply_out_of_bounds` — the decode loop is within bounds for few messages, the encode loop
  for all, the final store for none.
-/

namespace WakeOnLan

open CLib

/-- `rsbuf` holds the received message; `challenge` is not initialised. -/
structure Arrays where
  rsbuf : Bytes
  challenge : Bytes
  rsbufLen : rsbuf.length = hexChallenge
  challengeLen : challenge.length = challengeLength
  deriving DecidableEq

/-- The conversion looks at `rsbuf[2 * j]` and on; a successful one stores an `unsigned int` at
`challenge[j]`. -/
def checkedDecodeStep (endian : Endian) (rsbuf challenge : Bytes) (j : Nat) :
    Except Fault Bytes :=
  if 2 * j + pairReads (rsbuf.drop (2 * j)) ≤ rsbuf.length then
    match (sscanf (rsbuf.drop (2 * j)) [.num 16 (some 2)]).values with
    | .num v :: _ => storeAt challenge j (wordBytes v endian)
    | _ => .ok challenge
  else .error .overflow

def checkedDecode (endian : Endian) (rsbuf challenge : Bytes) : Except Fault Bytes :=
  (List.range challengeLength).foldlM (checkedDecodeStep endian rsbuf) challenge

def checkedEncodeStep (md5sum rsbuf : Bytes) (i : Nat) : Except Fault Bytes :=
  match md5sum[i]? with
  | some b => storeAt rsbuf (i * 2) (snprintf 2 (fmtHex 2 b.toNat))
  | none => .error .overflow

def checkedEncode (rsbuf md5sum : Bytes) : Except Fault Bytes :=
  (List.range md5Length).foldlM (checkedEncodeStep md5sum) rsbuf

/-- `rsbuf[HEX_CHALLENGE] = '\n'` -/
def checkedNewline (rsbuf : Bytes) : Except Fault Bytes := storeAt rsbuf hexChallenge [10]

def checkedReply (endian : Endian) (md5 : Bytes → Digest) (a : Arrays)
    (macbuf behind passwd : Bytes) : Except Fault Bytes := do
  let challenge ← checkedDecode endian a.rsbuf a.challenge
  let md5sum := md5 (message challenge macbuf behind passwd)
  let rsbuf ← checkedEncode a.rsbuf md5sum.bytes
  checkedNewline rsbuf

/-! ## The decode loop -/

/-- The `j`-th conversion looks at bytes of `rsbuf` only, and stores within `challenge` if it
succeeds. -/
def PairInBounds (rsbuf : Bytes) (j : Nat) : Prop :=
  2 * j + pairReads (rsbuf.drop (2 * j)) ≤ rsbuf.length ∧
    (pairWord rsbuf j = none ∨ j + 4 ≤ challengeLength)

instance (rsbuf : Bytes) (j : Nat) : Decidable (PairInBounds rsbuf j) :=
  inferInstanceAs (Decidable (_ ∧ _))

theorem checkedDecodeStep_eq {endian : Endian} {rsbuf challenge : Bytes} {j : Nat}
    (hlen : challenge.length = challengeLength) :
    checkedDecodeStep endian rsbuf challenge j =
      if PairInBounds rsbuf j then .ok (decodeStep endian rsbuf challenge j)
      else .error .overflow := by
  by_cases hreads : 2 * j + pairReads (rsbuf.drop (2 * j)) ≤ rsbuf.length
  · rw [checkedDecodeStep, if_pos hreads, pairWord_values]
    cases hw : pairWord rsbuf j with
    | none =>
      have hin : PairInBounds rsbuf j := ⟨hreads, .inl hw⟩
      rw [if_pos hin, decodeStep_none hw]
      rfl
    | some v =>
      have hiff : PairInBounds rsbuf j ↔ j + 4 ≤ challengeLength := by
        simp [PairInBounds, hreads, hw]
      rw [decodeStep_word hw]
      simp only [Option.map_some, Option.toList_some, storeAt, length_wordBytes, hlen, hiff]
  · have hout : ¬ PairInBounds rsbuf j := fun h => hreads h.1
    rw [if_neg hout, checkedDecodeStep, if_neg hreads]

theorem checkedDecode_eq (endian : Endian) (a : Arrays) :
    checkedDecode endian a.rsbuf a.challenge =
      if ∀ j < challengeLength, PairInBounds a.rsbuf j then
        .ok (decode endian a.rsbuf a.challenge)
      else .error .overflow :=
  foldlM_checked (PairInBounds a.rsbuf)
    (fun _ _ hq _ => checkedDecodeStep_eq (hq.trans a.challengeLen))
    (fun _ _ => length_decodeStep ..)

/-! ## The encode loop and the final store -/

theorem checkedEncodeStep_eq {md5sum : Digest} {rsbuf : Bytes} {i : Nat}
    (hlen : rsbuf.length = hexChallenge) (hi : i < md5Length) :
    checkedEncodeStep md5sum.bytes rsbuf i =
      .ok (writeAt rsbuf (i * 2) (digestChunk md5sum.bytes i)) := by
  have hget : md5sum.bytes[i]? = some (md5sum.bytes.getD i 0) := by
    have hin : i < md5sum.bytes.length := by rw [md5sum.len]; exact hi
    simp [hin]
  have hfits : i * 2 + (digestChunk md5sum.bytes i).length ≤ rsbuf.length := by
    rw [length_digestChunk, hlen]
    simp only [md5Length, hexChallenge, challengeLength] at hi ⊢
    omega
  rw [checkedEncodeStep, hget]
  exact storeAt_ok hfits

theorem checkedEncode_eq (md5sum : Digest) {rsbuf : Bytes} (hlen : rsbuf.length = hexChallenge) :
    checkedEncode rsbuf md5sum.bytes = .ok (encode rsbuf md5sum.bytes) := by
  have hround : ∀ q i, q.length = rsbuf.length → i < md5Length →
      checkedEncodeStep md5sum.bytes q i =
        if True then .ok (writeAt q (i * 2) (digestChunk md5sum.bytes i))
        else .error .overflow := by
    intro q i hq hi
    rw [if_pos trivial]
    exact checkedEncodeStep_eq (hq.trans hlen) hi
  rw [checkedEncode, foldlM_checked (fun _ => True) hround fun _ _ => length_writeAt ..,
    if_pos fun _ _ => trivial]
  rfl

theorem length_encode (rsbuf md5sum : Bytes) : (encode rsbuf md5sum).length = rsbuf.length :=
  length_foldl_range (fun _ _ => length_writeAt ..) _ _

/-- The array ends before the byte at `HEX_CHALLENGE`. -/
theorem checkedNewline_overflow {rsbuf : Bytes} (hlen : rsbuf.length = hexChallenge) :
    checkedNewline rsbuf = .error .overflow :=
  storeAt_overflow (by rw [hlen]; exact Nat.lt_succ_self _)

/-! ## On a stack -/

/-- A round that is within bounds does not see what is behind the arrays, and leaves it alone. -/
theorem decodeStep_slack {rsbuf challenge : Bytes} {j : Nat} (h : PairInBounds rsbuf j)
    (hlen : challenge.length = challengeLength) (endian : Endian) (r s : Bytes) :
    decodeStep endian (rsbuf ++ r) (challenge ++ s) j =
      decodeStep endian rsbuf challenge j ++ s := by
  have hpair := pairWord_append h.1 r
  cases hw : pairWord rsbuf j with
  | none => rw [decodeStep_none hw, decodeStep_none (hpair.trans hw)]
  | some v =>
    have hfits : j + 4 ≤ challengeLength := by simpa [hw] using h.2
    rw [decodeStep_word hw, decodeStep_word (hpair.trans hw),
      writeAt_slack (by rw [length_wordBytes, hlen]; exact hfits)]

theorem decode_slack {endian : Endian} {a : Arrays} {challenge : Bytes}
    (h : checkedDecode endian a.rsbuf a.challenge = .ok challenge) (r s : Bytes) :
    decode endian (a.rsbuf ++ r) (a.challenge ++ s) = challenge ++ s := by
  rw [checkedDecode_eq] at h
  split at h
  · rename_i hall
    cases h
    refine foldl_slack ?_ fun _ _ => length_decodeStep ..
    intro q j hq hj
    exact decodeStep_slack (hall j hj) (hq.trans a.challengeLen) endian r s
  · cases h

theorem encode_slack {rsbuf : Bytes} (hlen : rsbuf.length = hexChallenge) (md5sum : Digest)
    (r : Bytes) : encode (rsbuf ++ r) md5sum.bytes = encode rsbuf md5sum.bytes ++ r := by
  refine foldl_slack ?_ fun _ _ => length_writeAt ..
  intro q i hq hi
  have hfits : i * 2 + (digestChunk md5sum.bytes i).length ≤ q.length := by
    rw [length_digestChunk, hq, hlen]
    simp only [md5Length, hexChallenge, challengeLength] at hi ⊢
    omega
  exact writeAt_slack hfits r

/-- The newline goes to the byte behind the array. -/
theorem reply_slack {rsbuf : Bytes} (hlen : rsbuf.length = hexChallenge) (md5sum : Digest)
    (b : UInt8) (r : Bytes) :
    reply (rsbuf ++ b :: r) md5sum = encode rsbuf md5sum.bytes ++ 10 :: r := by
  have henc : (encode rsbuf md5sum.bytes).length = hexChallenge := by rw [length_encode, hlen]
  have hsplit : encode rsbuf md5sum.bytes ++ b :: r = encode rsbuf md5sum.bytes ++ [b] ++ r := by
    simp
  have hstore : writeAt (encode rsbuf md5sum.bytes ++ [b] ++ r)
      (encode rsbuf md5sum.bytes).length [10] = encode rsbuf md5sum.bytes ++ [10] ++ r :=
    writeAt_append _ r rfl
  rw [reply, encode_slack hlen, hsplit, ← henc, hstore]
  simp

/-! ## The bounds -/

theorem checkedDecode_ok_iff (endian : Endian) (a : Arrays) :
    (∃ p, checkedDecode endian a.rsbuf a.challenge = .ok p) ↔
      ∀ j < challengeLength, PairInBounds a.rsbuf j := by
  rw [checkedDecode_eq]
  constructor
  · rintro ⟨p, h⟩
    split at h
    · assumption
    · cases h
  · intro hall
    rw [if_pos hall]
    exact ⟨_, rfl⟩

/-- The last three conversions of a challenge in hex digits store behind the array. -/
theorem checkedDecode_hexChallenge {a : Arrays} (h : HexChallenge a.rsbuf) (endian : Endian) :
    checkedDecode endian a.rsbuf a.challenge = .error .overflow := by
  rw [checkedDecode_eq, if_neg]
  intro hall
  obtain ⟨v, hv⟩ := h.pairWord (show 13 < challengeLength by decide)
  rcases (hall 13 (by decide)).2 with hnone | hfits
  · rw [hv] at hnone
    cases hnone
  · exact absurd hfits (by decide)

/-- **No answer stays within its arrays.** Whatever 33 bytes are received and whatever the digest
is, an access is out of bounds: in the decode loop unless every conversion looks at bytes of `rsbuf`
and none of the last three succeeds, in the encode loop never, in the final store always. -/
theorem checkedReply_out_of_bounds (endian : Endian) (md5 : Bytes → Digest) (a : Arrays)
    (macbuf behind passwd : Bytes) :
    checkedReply endian md5 a macbuf behind passwd = .error .overflow ∧
      ((∃ p, checkedDecode endian a.rsbuf a.challenge = .ok p) ↔
        ∀ j < challengeLength, PairInBounds a.rsbuf j) ∧
      ∀ md5sum : Digest, ∃ p, checkedEncode a.rsbuf md5sum.bytes = .ok p ∧
        checkedNewline p = .error .overflow := by
  have hstore : ∀ md5sum : Digest, ∃ p, checkedEncode a.rsbuf md5sum.bytes = .ok p ∧
      checkedNewline p = .error .overflow := by
    intro md5sum
    exact ⟨_, checkedEncode_eq md5sum a.rsbufLen,
      checkedNewline_overflow ((length_encode ..).trans a.rsbufLen)⟩
  refine ⟨?_, checkedDecode_ok_iff endian a, hstore⟩
  rw [checkedReply, checkedDecode_eq]
  split
  · obtain ⟨p, henc, hnl⟩ :=
      hstore (md5 (message (decode endian a.rsbuf a.challenge) macbuf behind passwd))
    simp only [bind, Except.bind, henc, hnl]
  · rfl

/-- The arrays of a call that received a challenge. -/
def exampleArrays : Arrays :=
  { rsbuf := ascii "00112233445566778899aabbccddeeff\n"
    challenge := List.replicate challengeLength 0
    rsbufLen := by decide
    challengeLen := List.length_replicate }

theorem checkedReply_example :
    checkedReply .little (fun _ => constDigest 0xab) exampleArrays (ascii "0:1:2:3:4:5") []
        (ascii "pw") = .error .overflow ∧
      checkedNewline (encode exampleArrays.rsbuf (constDigest 0xab).bytes) = .error .overflow := by
  have hhex : HexChallenge exampleArrays.rsbuf :=
    ⟨exampleArrays.rsbufLen, List.all_eq_true.mp rfl⟩
  constructor
  · rw [checkedReply, checkedDecode_hexChallenge hhex]
    rfl
  · exact checkedNewline_overflow ((length_encode ..).trans exampleArrays.rsbufLen)

end WakeOnLan
