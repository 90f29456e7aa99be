import WakeOnLan.CLib.Scanf
import WakeOnLan.CLib.Stdio
import WakeOnLan.CLib.Memory

/-!
# WakeOnLan.Macfile

`macfile.c`: the reader of macfiles, one record per call.

* `getTokens`    — four `sscanf` attempts on one line, each writing through the same pointers.
* `macfileLoop`  — the `while` loop: read lines until one has tokens or the stream flags stop it.
* `macfileParse` — one call. `record` is `none` when it returns `-1`.

The arrays `mac`, `host` and `passwd` of `macfile_parse` have fixed sizes, `HOST_FMT` has no
width: a host token that does not fit is the fault `overflow`. They are not initialised, so a call
starts from arbitrary contents `junk`.
-/

namespace WakeOnLan

open CLib

/-! ## Formats -/

def isMacChar (c : UInt8) : Bool := isXDigit c || c == 58

def isHostChar (c : UInt8) : Bool := isDigit c || isAlpha c || c == 46 || c == 95 || c == 45

def isPassChar (c : UInt8) : Bool := isXDigit c || c == 45

/-- `"%17[0-9a-fA-F:]"` -/
def macFmt : Directive := .set (some 17) isMacChar

/-- `"%[0-9a-zA-Z._-]"` -/
def hostFmt : Directive := .set none isHostChar

/-- `":%5u"` -/
def portFmt : List Directive := [.lit 58, .num 10 (some 5)]

/-- `"%17[0-9a-fA-F-]"` -/
def passFmt : Directive := .set (some 17) isPassChar

/-- `" # %*s"` -/
def commentFmt : List Directive := [.space, .lit 35, .space, .skipWord]

/-! ## Tokens -/

namespace Token

def mac : UInt32 := 0x1
def host : UInt32 := 0x2
def port : UInt32 := 0x4
def pass : UInt32 := 0x8

end Token

/-- What the four pointers of `get_tokens` point to. -/
structure Outs where
  mac : CharArray 18
  host : CharArray 255
  port : UInt32
  passwd : CharArray 18
  deriving DecidableEq

/-- An argument of `sscanf`: what a conversion stores through it. -/
abbrev Arg := Value → Outs → Except Fault Outs

def macArg : Arg
  | .str s, o => (CharArray.store s).map fun a => { o with mac := a }
  | .num _, o => .ok o

def hostArg : Arg
  | .str s, o => (CharArray.store s).map fun a => { o with host := a }
  | .num _, o => .ok o

def portArg : Arg
  | .num v, o => .ok { o with port := v }
  | .str _, o => .ok o

def passwdArg : Arg
  | .str s, o => (CharArray.store s).map fun a => { o with passwd := a }
  | .num _, o => .ok o

/-- `if (sscanf (str, fmt, args) == n) return mask;`, and otherwise the rest of the function. -/
def attempt (str : Bytes) (fmt : List Directive) (args : List Arg) (n : Nat) (mask : UInt32)
    (next : Outs → Except Fault (UInt32 × Outs)) (o : Outs) : Except Fault (UInt32 × Outs) :=
  match sscanfInto str fmt args o with
  | .error e => .error e
  | .ok (ret, o') => if ret = n then .ok (mask, o') else next o'

def getTokens (str : Bytes) (o : Outs) : Except Fault (UInt32 × Outs) :=
  if (sscanf str commentFmt).ret = 1 then .ok (0, o)
  else
    attempt str ([.space, macFmt, .space, hostFmt] ++ portFmt ++ [.space, passFmt])
      [macArg, hostArg, portArg, passwdArg] 4
      (Token.mac ||| Token.host ||| Token.port ||| Token.pass)
    (attempt str [.space, macFmt, .space, hostFmt, .space, passFmt]
      [macArg, hostArg, passwdArg] 3 (Token.mac ||| Token.host ||| Token.pass)
    (attempt str ([.space, macFmt, .space, hostFmt] ++ portFmt)
      [macArg, hostArg, portArg] 3 (Token.mac ||| Token.host ||| Token.port)
    (attempt str [.space, macFmt, .space, hostFmt]
      [macArg, hostArg] 2 (Token.mac ||| Token.host)
    fun o => .ok (0, o)))) o

/-! ## One call of `macfile_parse` -/

/-- What a call that returns `0` hands back. -/
structure Record where
  mac : Bytes
  host : Bytes
  port : UInt32
  passwd : Option Bytes
  deriving DecidableEq

/-- The copies made after the loop from the arrays and the token mask. -/
def record (parsedTokens : UInt32) (o : Outs) : Record :=
  { mac := o.mac.str, host := o.host.str, port := o.port,
    passwd := if parsedTokens &&& Token.pass ≠ 0 then some o.passwd.str else none }

/-- How the loop ends: `return -1` inside it, or going on behind it with the last mask. -/
inductive LoopExit where
  | failed
  | left (parsedTokens : UInt32)
  deriving DecidableEq

def macfileLoop (fp : File) (o : Outs) (parsedTokens : UInt32) :
    Except Fault (LoopExit × File × Outs) :=
  if fp.feof ∨ fp.ferror then .ok (.left parsedTokens, fp, o)
  else
    match _h : getline fp with
    | (none, fp') => .ok (.failed, fp', o)
    | (some willy, fp') =>
      match getTokens willy o with
      | .error e => .error e
      | .ok (tokens, o') =>
        if tokens = 0 then macfileLoop fp' o' tokens else .ok (.left tokens, fp', o')
termination_by fp.rest.length
decreasing_by exact getline_length_lt _h

/-- The result of one call: the record, or `none` for `-1`; `*port` afterwards; the stream. -/
structure Parsed where
  record : Option Record
  port : UInt32
  fp : File
  deriving DecidableEq

def macfileParse (junk : Outs) (fp : File) : Except Fault Parsed :=
  match macfileLoop fp { junk with port := 0 } 0 with
  | .error e => .error e
  | .ok (.failed, fp, o) => .ok { record := none, port := o.port, fp := fp }
  | .ok (.left parsedTokens, fp, o) =>
    if fp.ferror then .ok { record := none, port := o.port, fp := fp }
    else .ok { record := some (record parsedTokens o), port := o.port, fp := fp }

end WakeOnLan
