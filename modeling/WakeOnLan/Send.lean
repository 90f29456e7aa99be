import WakeOnLan.Magic
import WakeOnLan.Proxy

/-!
# WakeOnLan.Send

`assemble_and_send` of `wol.c`: one target, in one of the three packet modes.

* `Pass`    — a pointer to a password, with who may release what it points to.
* `Globals` — the global variables that `parse_args` sets.
* `Env`     — what one call is answered by the ethers table, the resolver, the network, the prompt
  and the uninitialised memory.
* `assembleAndSend` — the call: what it returns and leaves behind, or how the program stops in it.
-/

namespace WakeOnLan

open CLib

/-! ## Passwords -/

/-- `arg` points into the argument vector, `main` to a string on the heap that `main` owns, `prompt`
to one that the prompt of `assemble_and_send` has read; `released` points to freed memory. -/
inductive Pass where
  | none
  | arg (s : Bytes)
  | main (s : Bytes)
  | prompt (s : Bytes)
  | released
  deriving DecidableEq, Repr

def Pass.read : Pass → Except Fault (Option Bytes)
  | .none => .ok .none
  | .arg s | .main s | .prompt s => .ok (some s)
  | .released => .error .useAfterFree

/-- `XFREE`, which leaves the pointer as it is. -/
def Pass.xfree : Pass → Except Fault Pass
  | .none => .ok .none
  | .main _ | .prompt _ => .ok .released
  | .arg _ | .released => .error .badFree

/-! ## Global variables -/

def defaultPort : UInt32 := 40000

def defaultIpaddr : Bytes := ascii "255.255.255.255"

def udpMode : UInt32 := 0x1
def rawMode : UInt32 := 0x2
def proxyMode : UInt32 := 0x4

structure Globals where
  hostStr : Bytes := defaultIpaddr
  pathname : Option Bytes := none
  port : UInt32 := defaultPort
  passwd : Pass := .none
  requestStdin : Bool := false
  verbose : Bool := false
  packetMode : UInt32 := udpMode
  msecs : UInt32 := 0
  deriving DecidableEq

/-! ## Texts -/

/-- `%d` of an `unsigned int`. -/
def fmtPort (portnum : UInt32) : Bytes := fmtInt portnum.toInt32.toInt

def cannotAssemble (mac : Bytes) : Bytes :=
  ascii "Cannot assemble magic packet for '" ++ mac ++ ascii "'"

def invalidPassword (mac : Bytes) : Bytes :=
  ascii "Invalid password given for '" ++ mac ++ ascii "'"

def cannotSend (mac host : Bytes) (portnum : UInt32) : Bytes :=
  ascii "Cannot send magic packet for '" ++ mac ++ ascii "' to " ++ host ++ ascii ":" ++
    fmtPort portnum

def getpassFailed : Bytes := ascii "getpass4 failed"

def wakingUp (verbose : Bool) (mac host : Bytes) (portnum : UInt32) : Bytes :=
  ascii "Waking up " ++ mac ++
    (if verbose then ascii " with " ++ host ++ ascii ":" ++ fmtPort portnum else []) ++
    ascii "...\n"

/-! ## The call -/

structure Env where
  ethers : Bytes → Option Octets
  gethostbyname : Bytes → Option InAddr
  sendto : SockAddr → Bytes → Int
  getpass : Option Bytes
  uninit : Nat → UInt8
  proxy : ProxyEnv

/-- How the program stops before its end: `exit`, or what it must not do with memory. -/
inductive Halt where
  | exit (status : Nat)
  | fault (f : Fault)
  deriving DecidableEq, Repr

structure Stop where
  events : List Event
  halt : Halt
  deriving DecidableEq

/-- What a call returns and leaves behind. `pass` is the pointer of the caller afterwards. -/
structure Outcome where
  ret : Int
  events : List Event
  magic : Magic
  sock : List Recv
  pass : Pass
  deriving DecidableEq

/-- The `switch` on the result of `magic_assemble`. -/
def assembleError (ret : Int) (mac : Bytes) : Option Bytes :=
  if ret = -1 then some (cannotAssemble mac)
  else if ret = -2 then some (invalidPassword mac)
  else none

/-- The end of a call that did not return early. -/
def report (g : Globals) (mac host : Bytes) (portnum : UInt32) : List Event :=
  .stdout (wakingUp g.verbose mac host portnum) :: if g.msecs ≠ 0 then [.usleep g.msecs] else []

def sendUdp (g : Globals) (env : Env) (m : Magic) (sock : List Recv) (mac host : Bytes)
    (portnum : UInt32) (pass : Pass) : Except Stop Outcome :=
  match pass.read with
  | .error f => .error ⟨[], .fault f⟩
  | .ok pw =>
    let (ret, m) := magicAssemble env.ethers env.uninit m (some mac) pw
    match assembleError ret mac with
    | some text => .ok ⟨-1, [.error text], m, sock, pass⟩
    | none =>
      let (sendret, events) :=
        udpSend env.gethostbyname env.sendto (some host) portnum.toUInt16 (m.packet.take m.size)
      if sendret ≠ 0 then
        .ok ⟨-1, events ++ [.error (cannotSend mac host portnum)], m, sock, pass⟩
      else .ok ⟨0, events ++ report g mac host portnum, m, sock, pass⟩

/-- The password that is released at the end is the one of the caller, unless it was asked for. -/
def sendProxy (g : Globals) (env : Env) (m : Magic) (sock : List Recv) (mac host : Bytes)
    (portnum : UInt32) (pass : Pass) : Except Stop Outcome :=
  match (if pass = .none then env.getpass.map Pass.prompt else some pass) with
  | none => .error ⟨[.error getpassFailed], .exit 1⟩
  | some proxyPass =>
    match proxyPass.read with
    | .error f => .error ⟨[], .fault f⟩
    | .ok pw =>
      let (errval, events, sock) := proxySend env.proxy sock mac (pw.getD [])
      match proxyPass.xfree with
      | .error f => .error ⟨events, .fault f⟩
      | .ok freed =>
        let pass := if pass = .none then .none else freed
        if errval ≠ 0 then
          .ok ⟨-1, events ++ [.error (cannotSend mac host portnum)], m, sock, pass⟩
        else .ok ⟨0, events ++ report g mac host portnum, m, sock, pass⟩

def sendRaw (g : Globals) (env : Env) (m : Magic) (sock : List Recv) (mac host : Bytes)
    (portnum : UInt32) (pass : Pass) : Except Stop Outcome :=
  match pass.read with
  | .error f => .error ⟨[], .fault f⟩
  | .ok pw =>
    let (ret, m) := magicAssemble env.ethers env.uninit m (some mac) pw
    match assembleError ret mac with
    | some text => .ok ⟨-1, [.error text], m, sock, pass⟩
    | none =>
      -- the result of `raw_send` is not looked at
      let (_, events) := rawSend env.sendto (m.packet.take m.size)
      .ok ⟨0, events ++ report g mac host portnum, m, sock, pass⟩

def assembleAndSend (g : Globals) (env : Env) (m : Magic) (sock : List Recv) (mac host : Bytes)
    (portnum : UInt32) (pass : Pass) : Except Stop Outcome :=
  if g.packetMode &&& udpMode ≠ 0 then sendUdp g env m sock mac host portnum pass
  else if g.packetMode &&& proxyMode ≠ 0 then sendProxy g env m sock mac host portnum pass
  else sendRaw g env m sock mac host portnum pass

end WakeOnLan
