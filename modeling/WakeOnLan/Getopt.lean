import WakeOnLan.CLib.Bytes
import WakeOnLan.CLib.Rotate

/-!
# WakeOnLan.Getopt

`getopt_long` of `getopt.c` and `getopt1.c`, which hands out one option a call and moves the
operands behind the options as it goes.

* `GetoptData`      — `struct _getopt_data`, with the argument vector.
* `advance`         — on to the next element of the vector.
* `longOption`      — an element that begins with `--`.
* `shortOption`     — the next character of an element that begins with `-`.
* `getoptInternalR` — one call; `none` is an access outside the argument vector.
-/

namespace WakeOnLan

open CLib

/-- `has_arg` of `struct option`. -/
inductive HasArg where
  | noArgument
  | requiredArgument
  | optionalArgument
  deriving DecidableEq, Repr

/-- `struct option`, with `flag` null. -/
structure LongOption where
  name : Bytes
  hasArg : HasArg
  val : UInt8
  deriving DecidableEq, Repr

inductive ArgOrder where
  | requireOrder
  | permute
  | returnInOrder
  deriving DecidableEq, Repr

/-- `nextchar` points into an element of the argument vector, and stands for what is left of it. -/
structure GetoptData where
  argv : List Bytes
  optind : Nat := 1
  optarg : Option Bytes := none
  initialized : Bool := false
  nextchar : Option Bytes := none
  ordering : ArgOrder := .permute
  posixlyCorrect : Bool := false
  firstNonopt : Nat := 0
  lastNonopt : Nat := 0
  deriving DecidableEq, Repr

/-- What a call returns, prints on `stderr` and leaves behind; `-1` is `none`. -/
structure GetoptCall where
  c : Option UInt8
  printed : Bytes
  d : GetoptData
  deriving DecidableEq, Repr

/-! ## Operands -/

/-- `NONOPTION_P` -/
def nonoption : Bytes → Bool
  | 45 :: _ :: _ => false
  | _ => true

def GetoptData.exchange (d : GetoptData) : Option GetoptData :=
  match rotate d.argv d.firstNonopt d.lastNonopt d.optind with
  | none => none
  | some argv =>
    some { d with argv := argv, firstNonopt := d.firstNonopt + (d.optind - d.lastNonopt),
                  lastNonopt := d.optind }

/-- The optstring that is left behind its first character, when that selects the ordering. -/
def getoptInitialize (posixlyCorrect : Bool) (optstring : Bytes) (d : GetoptData) :
    Bytes × GetoptData :=
  let d := { d with firstNonopt := d.optind, lastNonopt := d.optind, nextchar := none,
                    posixlyCorrect := posixlyCorrect, initialized := true }
  match optstring with
  | 45 :: rest => (rest, { d with ordering := .returnInOrder })
  | 43 :: rest => (rest, { d with ordering := .requireOrder })
  | _ => (optstring, { d with ordering := if posixlyCorrect then .requireOrder else .permute })

/-- `while (optind < argc && NONOPTION_P) optind++` -/
def skipNonoptions (argv : List Bytes) (optind : Nat) : Nat :=
  if h : optind < argv.length then
    if nonoption argv[optind] then skipNonoptions argv (optind + 1) else optind
  else optind
termination_by argv.length - optind

/-- `optind` may have been moved back by the caller. -/
def GetoptData.clamp (d : GetoptData) : GetoptData :=
  { d with lastNonopt := min d.lastNonopt d.optind, firstNonopt := min d.firstNonopt d.optind }

/-- Options that were processed behind operands go before them; then the operands that follow are
skipped. -/
def GetoptData.permute (d : GetoptData) : Option GetoptData :=
  let moved :=
    if d.firstNonopt ≠ d.lastNonopt ∧ d.lastNonopt ≠ d.optind then d.exchange
    else if d.lastNonopt ≠ d.optind then some { d with firstNonopt := d.optind }
    else some d
  match moved with
  | none => none
  | some d =>
    let optind := skipNonoptions d.argv d.optind
    some { d with optind := optind, lastNonopt := optind }

def dashDash : Bytes := ascii "--"

/-- The element `--` goes before the operands as if it were an option; all that follows is skipped
like operands. -/
def GetoptData.endOfOptions (d : GetoptData) : Option GetoptData :=
  let d := { d with optind := d.optind + 1 }
  let moved :=
    if d.firstNonopt ≠ d.lastNonopt ∧ d.lastNonopt ≠ d.optind then d.exchange
    else if d.firstNonopt = d.lastNonopt then some { d with firstNonopt := d.optind }
    else some d
  match moved with
  | none => none
  | some d => some { d with lastNonopt := d.argv.length, optind := d.argv.length }

/-- How the search for the next element ends: the scan is over, an operand is returned in its place,
or `nextchar` is in an option element. -/
inductive Advance where
  | stop (d : GetoptData)
  | operand (d : GetoptData)
  | element (nextchar : Bytes) (d : GetoptData)
  deriving DecidableEq, Repr

/-- Behind `--`: the end, an operand that is not skipped, or an option element. -/
def GetoptData.arrive (d : GetoptData) : Option Advance :=
  if d.optind = d.argv.length then
    some (.stop (if d.firstNonopt ≠ d.lastNonopt then { d with optind := d.firstNonopt } else d))
  else
    match d.argv[d.optind]? with
    | none => none
    | some e =>
      if nonoption e then
        if d.ordering = .requireOrder then some (.stop d)
        else some (.operand { d with optarg := some e, optind := d.optind + 1 })
      else
        -- past `--` or `-`
        some (.element (if e[1]? = some 45 then e.drop 2 else e.drop 1) d)

/-- Behind the operands that are skipped. -/
def GetoptData.proceed (d : GetoptData) : Option Advance :=
  if d.optind = d.argv.length then d.arrive
  else
    match d.argv[d.optind]? with
    | none => none
    | some e =>
      if e = dashDash then
        match d.endOfOptions with
        | none => none
        | some d => d.arrive
      else d.arrive

def GetoptData.advance (d : GetoptData) : Option Advance :=
  let d := d.clamp
  match if d.ordering = .permute then d.permute else some d with
  | none => none
  | some d => d.proceed

/-! ## Diagnostics -/

def ambiguousOption (prog e : Bytes) : Bytes :=
  prog ++ ascii ": option `" ++ e ++ ascii "' is ambiguous\n"

def argumentNotAllowed (prog name : Bytes) : Bytes :=
  prog ++ ascii ": option `--" ++ name ++ ascii "' doesn't allow an argument\n"

def argumentRequired (prog e : Bytes) : Bytes :=
  prog ++ ascii ": option `" ++ e ++ ascii "' requires an argument\n"

def unrecognizedOption (prog nextchar : Bytes) : Bytes :=
  prog ++ ascii ": unrecognized option `--" ++ nextchar ++ ascii "'\n"

def invalidOption (posixlyCorrect : Bool) (prog : Bytes) (c : UInt8) : Bytes :=
  prog ++ ascii (if posixlyCorrect then ": illegal option -- " else ": invalid option -- ") ++
    [c, 10]

def optionRequiresArgument (prog : Bytes) (c : UInt8) : Bytes :=
  prog ++ ascii ": option requires an argument -- " ++ [c, 10]

/-! ## Long options -/

/-- `pfound`, `exact` and `ambig`. -/
structure LongMatch where
  pfound : Option LongOption := none
  exact : Bool := false
  ambig : Bool := false
  deriving DecidableEq, Repr

/-- The loop over the table: an exact match ends it, two other matches that differ are ambiguous. -/
def matchLong (name : Bytes) : List LongOption → LongMatch → LongMatch
  | [], m => m
  | p :: ps, m =>
    if name.isPrefixOf p.name then
      if name.length = p.name.length then { m with pfound := some p, exact := true }
      else
        match m.pfound with
        | none => matchLong name ps { m with pfound := some p }
        | some pfound =>
          if pfound.hasArg ≠ p.hasArg ∨ pfound.val ≠ p.val then
            matchLong name ps { m with ambig := true }
          else matchLong name ps m
    else matchLong name ps m

def question : UInt8 := 63

/-- What is returned for a missing argument. -/
def missing (optstring : Bytes) : UInt8 := if optstring.head? = some 58 then 58 else question

/-- `nextchar` is what follows `--`, and `nextchar[name.length]` is `*nameend`. -/
def longOption (optstring : Bytes) (longopts : List LongOption) (printErrors : Bool)
    (nextchar : Bytes) (d : GetoptData) : Option GetoptCall :=
  match d.argv[0]?, d.argv[d.optind]? with
  | some prog, some e =>
    let print (text : Bytes) : Bytes := if printErrors then text else []
    let name := nextchar.takeWhile (· != 61)
    let value := nextchar.drop name.length
    let m := matchLong name longopts {}
    if m.ambig && !m.exact then
      some ⟨some question, print (ambiguousOption prog e),
        { d with nextchar := some [], optind := d.optind + 1 }⟩
    else
      match m.pfound with
      | none =>
        some ⟨some question, print (unrecognizedOption prog nextchar),
          { d with nextchar := some [], optind := d.optind + 1 }⟩
      | some p =>
        let d := { d with nextchar := some [], optind := d.optind + 1 }
        match value with
        | _ :: value =>
          if p.hasArg ≠ .noArgument then some ⟨some p.val, [], { d with optarg := some value }⟩
          else some ⟨some question, print (argumentNotAllowed prog p.name), d⟩
        | [] =>
          if p.hasArg = .requiredArgument then
            if d.optind < d.argv.length then
              some ⟨some p.val, [], { d with optarg := d.argv[d.optind]?, optind := d.optind + 1 }⟩
            else some ⟨some (missing optstring), print (argumentRequired prog e), d⟩
          else some ⟨some p.val, [], d⟩
  | _, _ => none

/-! ## Short options -/

/-- `strchr` -/
def strchr (s : Bytes) (c : UInt8) : Option Bytes :=
  match s.dropWhile (· != c) with
  | [] => none
  | temp => some temp

def shortOption (optstring : Bytes) (printErrors : Bool) (c : UInt8) (nextchar : Bytes)
    (d : GetoptData) : Option GetoptCall :=
  match d.argv[0]? with
  | none => none
  | some prog =>
    let print (text : Bytes) : Bytes := if printErrors then text else []
    -- the last character of an element ends it
    let d := { d with nextchar := some nextchar,
                      optind := if nextchar = [] then d.optind + 1 else d.optind }
    match strchr optstring c with
    | none => some ⟨some question, print (invalidOption d.posixlyCorrect prog c), d⟩
    | some temp =>
      if c = 58 then some ⟨some question, print (invalidOption d.posixlyCorrect prog c), d⟩
      else if temp[1]? = some 58 then
        if temp[2]? = some 58 then
          if nextchar ≠ [] then
            some ⟨some c, [], { d with optarg := some nextchar, optind := d.optind + 1,
                                       nextchar := none }⟩
          else some ⟨some c, [], { d with optarg := none, nextchar := none }⟩
        else if nextchar ≠ [] then
          some ⟨some c, [], { d with optarg := some nextchar, optind := d.optind + 1,
                                     nextchar := none }⟩
        else if d.optind = d.argv.length then
          some ⟨some (missing optstring), print (optionRequiresArgument prog c),
            { d with nextchar := none }⟩
        else
          match d.argv[d.optind]? with
          | none => none
          | some arg =>
            some ⟨some c, [], { d with optarg := some arg, optind := d.optind + 1,
                                       nextchar := none }⟩
      else some ⟨some c, [], d⟩

/-! ## The call -/

/-- The element that `optind` is at tells a long option from short ones. -/
def decodeElement (optstring : Bytes) (longopts : List LongOption) (printErrors : Bool) (c : UInt8)
    (cs : Bytes) (d : GetoptData) : Option GetoptCall :=
  match d.argv[d.optind]? with
  | none => none
  | some e =>
    if e[1]? = some 45 then longOption optstring longopts printErrors (c :: cs) d
    else shortOption optstring printErrors c cs d

/-- What a call makes of the search for the next element. -/
def handOut (optstring : Bytes) (longopts : List LongOption) (printErrors : Bool) :
    Option Advance → Option GetoptCall
  | none => none
  | some (.stop d) => some ⟨none, [], d⟩
  | some (.operand d) => some ⟨some 1, [], d⟩
  | some (.element [] _) => none
  | some (.element (c :: cs) d) => decodeElement optstring longopts printErrors c cs d

def getoptInternalR (posixlyCorrect : Bool) (optstring : Bytes) (longopts : List LongOption)
    (d : GetoptData) : Option GetoptCall :=
  let printErrors := optstring.head? ≠ some 58
  if d.argv.length < 1 then some ⟨none, [], d⟩
  else
    let d := { d with optarg := none }
    let (optstring, d) :=
      if d.optind = 0 ∨ ¬ d.initialized then
        getoptInitialize posixlyCorrect optstring
          { d with optind := if d.optind = 0 then 1 else d.optind }
      else (optstring, d)
    match d.nextchar with
    | some (c :: cs) => decodeElement optstring longopts printErrors c cs d
    | _ => handOut optstring longopts printErrors d.advance

end WakeOnLan
