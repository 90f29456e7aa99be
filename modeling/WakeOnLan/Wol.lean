import WakeOnLan.CLib.Loop
import WakeOnLan.Macfile
import WakeOnLan.Options

/-!
# WakeOnLan.Wol

`main` of `wol.c`: the socket, the loop over the operands and the loop over the macfile.

* `Sys`       — what the system answers in the course of a run.
* `start`     — from the command line to the first target.
* `mainRound` — one target, or the step from the operands to the macfile, or the end.
* `Runs`      — a run that ends: its events, and how it ends.
-/

namespace WakeOnLan

open CLib

/-- `junk` is what the uninitialised arrays of the calls of `macfile_parse` hold, `call` the
surroundings of the calls of `assemble_and_send`; both by the number of calls made before. -/
structure Sys where
  programName : Bytes
  getpass : Option Bytes
  uninit : Nat → UInt8
  socket : Socket
  setsockopt : Bool
  gethostbyname : Bytes → Option InAddr
  connect : InAddr → UInt16 → Option (List Recv)
  fopen : Bytes → Option (Bytes × Ending)
  stdin : Bytes × Ending
  junk : Nat → Outs
  call : Nat → Env

/-- Where the run is: at the operands that are left, or in the macfile. -/
inductive Phase where
  | targets (rest : List Bytes)
  | macfile (fp : File)
  deriving DecidableEq

structure State where
  phase : Phase
  globals : Globals
  magic : Magic
  sock : List Recv
  ret : Int
  calls : Nat

/-- `sockfd`, as the stream of its connection; datagram and raw sockets deliver nothing. -/
def openSocket (sys : Sys) (g : Globals) : Option (List Recv) × List Event :=
  if g.packetMode &&& udpMode ≠ 0 then
    let (ok, events) := udpOpen sys.socket sys.setsockopt
    (if ok then some [] else none, events)
  else if g.packetMode &&& proxyMode ≠ 0 then
    tcpOpen sys.gethostbyname sys.socket sys.connect (some g.hostStr) g.port
  else
    let (ok, events) := rawOpen sys.socket sys.setsockopt
    (if ok then some [] else none, events)

def start (sys : Sys) (args : CommandLine) : Except Stop State :=
  match parseArgs sys.programName sys.getpass args with
  | .error stop => .error stop
  | .ok g =>
    match openSocket sys g with
    | (none, events) => .error ⟨events, .exit 1⟩
    | (some sock, _) =>
      .ok { phase := .targets (if g.requestStdin then [] else args.operands), globals := g,
            magic := magicCreate sys.uninit (g.passwd ≠ .none), sock := sock, ret := 0,
            calls := 0 }

/-- `exit (ret != 0)` -/
def exitStatus (ret : Int) : Halt := .exit (if ret ≠ 0 then 1 else 0)

/-- The state behind a call: `ret` is an `int`. -/
def State.after (s : State) (o : Outcome) : State :=
  { s with magic := o.magic, sock := o.sock, ret := (s.ret - o.ret).bmod (2 ^ 32),
           globals := { s.globals with passwd := o.pass }, calls := s.calls + 1 }

/-- A call with the global variables for its arguments. -/
def State.send (sys : Sys) (s : State) (mac : Bytes) : Except Stop Outcome :=
  assembleAndSend s.globals (sys.call s.calls) s.magic s.sock mac s.globals.hostStr
    s.globals.port s.globals.passwd

/-- The port of a record, as `main` corrects it. -/
def recordPort (port : UInt32) : UInt32 := if port = 0 ∨ port > 65535 then defaultPort else port

/-- The global variables as `macfile_parse` and the correction of the port leave them. -/
def State.load (s : State) (r : Record) : State :=
  { s with globals := { s.globals with hostStr := r.host, port := recordPort r.port,
                                       passwd := (r.passwd.map Pass.main).getD .none } }

def macfileRound (sys : Sys) (s : State) (fp : File) : List Event × Round State Halt :=
  match macfileParse (sys.junk s.calls) fp with
  | .error f => ([], .done (.fault f))
  | .ok ⟨none, _, _⟩ => ([], .done (exitStatus s.ret))
  | .ok ⟨some r, _, fp⟩ =>
    let s := s.load r
    match s.send sys r.mac with
    | .error stop => (stop.events, .done stop.halt)
    | .ok o =>
      match o.pass.xfree with
      | .error f => (o.events, .done (.fault f))
      | .ok pass => (o.events, .next { s.after { o with pass := pass } with phase := .macfile fp })

/-- The step behind the last operand. -/
def openMacfile (sys : Sys) (s : State) : List Event × Round State Halt :=
  if s.globals.requestStdin then
    ([], .next { s with phase := .macfile (fopened sys.stdin.1 sys.stdin.2) })
  else
    match s.globals.pathname with
    | none => ([], .done (exitStatus s.ret))
    | some path =>
      match sys.fopen path with
      | none => ([.error path], .done (.exit 1))
      | some (content, ending) => ([], .next { s with phase := .macfile (fopened content ending) })

def mainRound (sys : Sys) (s : State) : List Event × Round State Halt :=
  match s.phase with
  | .targets (mac :: rest) =>
    match s.send sys mac with
    | .error stop => (stop.events, .done stop.halt)
    | .ok o => (o.events, .next { s.after o with phase := .targets rest })
  | .targets [] => openMacfile sys s
  | .macfile fp => macfileRound sys s fp

/-- A run that ends. -/
def Runs (sys : Sys) (args : CommandLine) (events : List Event) (halt : Halt) : Prop :=
  match start sys args with
  | .error stop => events = stop.events ∧ halt = stop.halt
  | .ok s => Exec (mainRound sys) s events halt

end WakeOnLan
