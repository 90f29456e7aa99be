import WakeOnLan.CLib.Memory
import WakeOnLan.CLib.Printf

/-!
# WakeOnLan.Net

`net.c`: the senders and the receiver, over what the operating system answers.

* `Event`   — what a run does to the outside: diagnostics, datagrams, replies, delays.
* `udpOpen` / `rawOpen` / `tcpOpen` — the socket of a run.
* `udpSend` / `rawSend` — `0` when `sendto` accepted the packet, else `-1`.
* `Recv`    — one piece of the byte stream of the TCP socket, as the network delivers it.
* `tcpRecv` — one `recv`: the bytes of the next piece, at most as many as asked for; the rest of
  the piece stays in the socket.
-/

namespace WakeOnLan

open CLib

/-- `struct in_addr` -/
abbrev InAddr := UInt32

/-- The destination of a `sendto`. The port of `sockaddr_in` is the number before `htons`; the
`sockaddr_ll` of `raw_send` has only its family set. -/
inductive SockAddr where
  | inet (addr : InAddr) (port : UInt16)
  | packet
  deriving DecidableEq, Repr

/-- Texts of `error` are without the program name and the `strerror` text it adds. -/
inductive Event where
  | error (text : Bytes)
  | stderr (text : Bytes)
  | stdout (text : Bytes)
  | sendto (dest : SockAddr) (buf : Bytes)
  | md5 (message : Bytes)
  | send (buf : Bytes)
  | usleep (usec : UInt32)
  deriving DecidableEq

/-- The replies among the events. -/
def sent (events : List Event) : List Bytes :=
  events.filterMap fun | .send r => some r | _ => none

/-- The byte strings passed to `md5_buffer`. -/
def hashed (events : List Event) : List Bytes :=
  events.filterMap fun | .md5 m => some m | _ => none

/-- The `sendto` calls: the host and the port number of each, `none` for a raw frame, and its
bytes. -/
def datagrams (events : List Event) : List (Option (InAddr × Nat) × Bytes) :=
  events.filterMap fun
    | .sendto (.inet addr port) buf => some (some (addr, port.toNat), buf)
    | .sendto .packet buf => some (none, buf)
    | _ => none

/-- `gethostbyname`, with `errno` set to `EINVAL` when there is no such host. -/
def netResolv (gethostbyname : Bytes → Option InAddr) (hostname : Bytes) : Option InAddr :=
  gethostbyname hostname

def invalidIpAddress : Bytes := ascii "Invalid IP address given: Invalid argument"

def rawSend (sendto : SockAddr → Bytes → Int) (buf : Bytes) : Int × List Event :=
  let sendret := sendto .packet buf
  (if sendret = -1 then sendret else 0, [.sendto .packet buf])

/-- The caller's `unsigned int` port is converted to `unsigned short` by the prototype. -/
def udpSend (gethostbyname : Bytes → Option InAddr) (sendto : SockAddr → Bytes → Int)
    (ipStr : Option Bytes) (port : UInt16) (buf : Bytes) : Int × List Event :=
  match ipStr with
  | none => (-1, [])
  | some ip =>
    match netResolv gethostbyname ip with
    | none => (-1, [.error invalidIpAddress])
    | some addr =>
      let sendret := sendto (.inet addr port) buf
      (if sendret = -1 then sendret else 0, [.sendto (.inet addr port) buf])

/-! ## Opening a socket -/

/-- What `socket` returns: a descriptor, or `-1` with `EPERM` or another `errno`. -/
inductive Socket where
  | ok
  | eperm
  | failed
  deriving DecidableEq, Repr

def socketFailed : Event := .error (ascii "socket() failed")

def setsockoptFailed : Event := .error (ascii "setsockopt() failed")

def noRootPrivileges : Event := .error (ascii "No root privileges")

/-- `raw_open`: whether there is a socket, and the diagnostics. -/
def rawOpen (socket : Socket) (setsockopt : Bool) : Bool × List Event :=
  match socket with
  | .eperm => (false, [noRootPrivileges])
  | .failed => (false, [socketFailed])
  | .ok => if setsockopt then (true, []) else (false, [setsockoptFailed])

def udpOpen (socket : Socket) (setsockopt : Bool) : Bool × List Event :=
  match socket with
  | .eperm | .failed => (false, [socketFailed])
  | .ok => if setsockopt then (true, []) else (false, [setsockoptFailed])

/-! ## The TCP socket -/

/-- A piece of the stream: some bytes, or what `recv` reports instead of bytes. -/
inductive Recv where
  | error
  | closed
  | data (b : UInt8) (bs : Bytes)
  deriving DecidableEq, Repr

def couldntConnect (ip : Bytes) (port : UInt16) : Event :=
  .error (ascii "Couldn't connect to " ++ ip ++ ascii ":" ++ fmtInt port.toNat)

/-- `tcp_open`: the stream of the connection, if there is one. -/
def tcpOpen (gethostbyname : Bytes → Option InAddr) (socket : Socket)
    (connect : InAddr → UInt16 → Option (List Recv)) (ipStr : Option Bytes) (port : UInt32) :
    Option (List Recv) × List Event :=
  match ipStr with
  | none => (none, [])
  | some ip =>
    match netResolv gethostbyname ip with
    | none => (none, [.error invalidIpAddress])
    | some addr =>
      if socket = .ok then
        match connect addr port.toUInt16 with
        | none => (none, [couldntConnect ip port.toUInt16])
        | some sock => (some sock, [])
      else (none, [socketFailed])

/-- `recv`: its result, the bytes it stores, and the stream afterwards. -/
def tcpRecv : List Recv → Nat → Int × Bytes × List Recv
  | [], _ => (0, [], [])
  | .error :: s, _ => (-1, [], s)
  | .closed :: s, _ => (0, [], .closed :: s)
  | .data b bs :: s, len =>
    let got := (b :: bs).take len
    (got.length, got,
      match (b :: bs).drop len with
      | [] => s
      | b' :: bs' => .data b' bs' :: s)

/-- The bytes of a stream that come before the first error and before its end. -/
def delivered : List Recv → Bytes
  | .data b bs :: s => b :: bs ++ delivered s
  | _ => []

/-- The bytes of the first piece. -/
def firstPiece : List Recv → Bytes
  | .data b bs :: _ => b :: bs
  | _ => []

end WakeOnLan
