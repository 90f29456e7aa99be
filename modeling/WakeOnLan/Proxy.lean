import WakeOnLan.CLib.Scanf
import WakeOnLan.Net
import WakeOnLan.Packet

/-!
# WakeOnLan.Proxy

`proxy.c`: the challenge and the response.

* `Frame`      — the arrays of one call on the stack, not initialised, each with some of the bytes
  that lie behind it. The stores of `proxy_send` beyond its arrays go there.
* `decode`     — the `sscanf` loop from hex digits to the challenge. Each conversion stores a whole
  `unsigned int`, in the byte order of the host.
* `encode`     — the `snprintf` loop from the digest to hex digits.
* `proxySend`  — one call: the value it returns, what it does, and the stream left in the socket.
-/

namespace WakeOnLan

open CLib

def md5Length : Nat := 16
def challengeLength : Nat := 16
def hexChallenge : Nat := challengeLength * 2 + 1

/-- What `md5_buffer` computes. -/
structure Digest where
  bytes : Bytes
  len : bytes.length = md5Length
  deriving DecidableEq

structure Frame where
  rsbuf : Bytes
  challenge : Bytes
  rsbufLen : hexChallenge < rsbuf.length
  challengeLen : challengeLength + 3 ≤ challenge.length
  deriving DecidableEq

/-- The conversion of a `ssize_t` to `size_t`. -/
def sizeT (n : Int) : Nat := (n % 2 ^ 64).toNat

/-- `sscanf (&rsbuf[2 * j], "%2x", (unsigned int *) &challenge[j])` -/
def decodeStep (endian : Endian) (rsbuf challenge : Bytes) (j : Nat) : Bytes :=
  match (sscanf (rsbuf.drop (2 * j)) [.num 16 (some 2)]).values with
  | .num v :: _ => writeAt challenge j (wordBytes v endian)
  | _ => challenge

def decode (endian : Endian) (rsbuf challenge : Bytes) : Bytes :=
  (List.range challengeLength).foldl (decodeStep endian rsbuf) challenge

/-- `snprintf (&rsbuf[2 * i], 2, "%2x", md5sum[i])` for every `i`. -/
def encode (rsbuf md5sum : Bytes) : Bytes :=
  (List.range md5Length).foldl
    (fun p i => writeAt p (i * 2) (snprintf 2 (fmtHex 2 (md5sum.getD i 0).toNat))) rsbuf

/-- The bytes that are hashed. `behind` is what lies behind the NUL of the text `macbuf`, of which
`MAC_LEN` bytes are copied whatever its length. -/
def message (challenge macbuf behind passwd : Bytes) : Bytes :=
  challenge.take challengeLength ++ (macbuf ++ 0 :: behind).take macLen ++ cstr passwd

/-- `rsbuf` after the digest and the newline are stored: `[HEX_CHALLENGE]` is the byte behind it. -/
def reply (rsbuf : Bytes) (md5sum : Digest) : Bytes :=
  writeAt (encode rsbuf md5sum.bytes) hexChallenge [10]

/-- What a call is given by its surroundings: the byte order, `md5_buffer`, the stack, the memory
behind the text of the target, and the result of its `send`. -/
structure ProxyEnv where
  endian : Endian
  md5 : Bytes → Digest
  frame : Frame
  behind : Bytes
  send : Int

def recvdLine (rsbuf : Bytes) : Event := .stdout (ascii "recvd: " ++ cstr rsbuf)

/-- `printf ("sum %c%c%c %d\n", md5sum[0], md5sum[1], md5sum[2], len)` -/
def sumLine (md5sum : Digest) (len : Nat) : Event :=
  .stdout (ascii "sum " ++ md5sum.bytes.take 3 ++ ascii " " ++ fmtInt len ++ ascii "\n")

def replyLine (rsbuf : Bytes) : Event := .stdout (ascii "reply: " ++ cstr rsbuf)

def proxySend (env : ProxyEnv) (sock : List Recv) (macbuf passwd : Bytes) :
    Int × List Event × List Recv :=
  let (len, got, sock') := tcpRecv sock hexChallenge
  if sizeT len < hexChallenge then (-1, [], sock')
  else
    let rsbuf := writeAt env.frame.rsbuf 0 got
    let challenge := decode env.endian rsbuf env.frame.challenge
    let buf := message challenge macbuf env.behind passwd
    let md5sum := env.md5 buf
    let rsbuf' := reply rsbuf md5sum
    (env.send,
      [recvdLine rsbuf, .md5 buf, sumLine md5sum buf.length, replyLine rsbuf',
        .send (rsbuf'.take hexChallenge)],
      sock')

end WakeOnLan
