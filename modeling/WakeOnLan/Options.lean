import WakeOnLan.Send

/-!
# WakeOnLan.Options

`parse_args` of `wol.c`. Its input is what `getopt_long` makes of the argument vector: the options
in order, each with its argument, and the operands.

* `Opt`, `CommandLine` — options and operands.
* `parseOpt`  — one round of the option loop.
* `parseArgs` — the global variables afterwards, or how the program stops.
-/

namespace WakeOnLan

open CLib

/-- `-h` and `-i` set the same variable; `other` is an option without a case of its own. -/
inductive Opt where
  | help
  | version
  | verbose
  | wait (optarg : Bytes)
  | udp
  | raw
  | proxy (optarg : Bytes)
  | host (optarg : Bytes)
  | port (optarg : Bytes)
  | file (optarg : Bytes)
  | passwd (optarg : Option Bytes)
  | other
  deriving DecidableEq, Repr

structure CommandLine where
  argc : Nat
  opts : List Opt
  operands : List Bytes
  deriving DecidableEq, Repr

/-- The variables of the option loop. -/
structure Parse where
  globals : Globals
  passwordSet : Bool
  deriving DecidableEq

/-- A diagnostic, the hint of `usage`, and the exit. -/
def usage (programName : Bytes) (text : String) : Stop :=
  { events := [.error (ascii text),
      .stderr (ascii "Try `" ++ programName ++ ascii " --help' for more information.\n")],
    halt := .exit 1 }

/-- `sscanf (optarg, fmt, &v) == 1` for a format with one number. -/
def scanUnsigned (optarg : Bytes) (width : Option Nat) : Option UInt32 :=
  match (sscanf optarg [.num 10 width]).values with
  | [.num v] => some v
  | _ => none

/-- The texts of `--help` and `--version` are left out. The second prompt of a command line is
skipped; a prompt behind `--passwd=PASS` that is answered makes `getline` store into the argument
vector. -/
def parseOpt (programName : Bytes) (getpass : Option Bytes) (p : Parse) : Opt → Except Stop Parse
  | .help | .version => .error ⟨[], .exit 0⟩
  | .verbose => .ok { p with globals := { p.globals with verbose := true } }
  | .wait optarg =>
    match scanUnsigned optarg none with
    | none => .error (usage programName "Invalid time given")
    | some v => .ok { p with globals := { p.globals with msecs := v * 1000 } }
  | .udp =>
    .ok { p with globals := { p.globals with
      packetMode := (p.globals.packetMode ||| udpMode) &&& ~~~(rawMode ||| proxyMode) } }
  | .raw =>
    .ok { p with globals := { p.globals with
      packetMode := (p.globals.packetMode ||| rawMode) &&& ~~~(udpMode ||| proxyMode) } }
  | .proxy optarg =>
    -- falls through to the case of `-h`
    .ok { p with globals := { p.globals with
      packetMode := (p.globals.packetMode ||| proxyMode) &&& ~~~(udpMode ||| rawMode),
      hostStr := optarg } }
  | .host optarg => .ok { p with globals := { p.globals with hostStr := optarg } }
  | .port optarg =>
    match scanUnsigned optarg (some 5) with
    | none => .error (usage programName "Invalid port given")
    | some v =>
      if v > 65535 ∨ v = 0 then .error (usage programName "Invalid port given")
      else .ok { p with globals := { p.globals with port := v } }
  | .file optarg => .ok { p with globals := { p.globals with pathname := some optarg } }
  | .passwd (some optarg) => .ok { p with globals := { p.globals with passwd := .arg optarg } }
  | .passwd none =>
    if p.passwordSet then .ok p
    else
      match getpass with
      | none => .error ⟨[.error getpassFailed], .exit 1⟩
      | some line =>
        match p.globals.passwd with
        | .none => .ok { globals := { p.globals with passwd := .main line }, passwordSet := true }
        | _ => .error ⟨[], .fault .badFree⟩
  | .other => .ok p

def parseOpts (programName : Bytes) (getpass : Option Bytes) :
    List Opt → Parse → Except Stop Parse
  | [], p => .ok p
  | o :: os, p =>
    match parseOpt programName getpass p o with
    | .error stop => .error stop
    | .ok p => parseOpts programName getpass os p

def dash : Bytes := ascii "-"

/-- Whether standard input is asked for: by an operand, or, when there is none, by a file name
that begins with a hyphen. -/
def requestsStdin (operands : List Bytes) (pathname : Option Bytes) : Bool :=
  if operands ≠ [] then operands.contains dash
  else
    match pathname with
    | none => false
    | some path => path.head? == some 45

def parseArgs (programName : Bytes) (getpass : Option Bytes) (args : CommandLine) :
    Except Stop Globals :=
  if args.argc = 1 then .error (usage programName "Too few arguments.")
  else
    match parseOpts programName getpass args.opts ⟨{}, false⟩ with
    | .error stop => .error stop
    | .ok p =>
      if args.operands = [] ∧ p.globals.pathname = none then
        .error (usage programName "You must specify at least one MAC-ADDRESS.")
      else
        .ok { p.globals with
          requestStdin := requestsStdin args.operands p.globals.pathname }

end WakeOnLan
