import WakeOnLan.CLib.Stdio
import WakeOnLan.CLib.Words
import WakeOnLan.Macfile

/-!
# WakeOnLan.Getstr

`lib/getstr.c` and `lib/getline.c`: lines of any length, in a buffer that grows.

* `Heap`    — the answers of `malloc` and `realloc`: a block with fresh bytes, or none.
* `Reading` — the buffer, how much of it is free and where the next character goes. The size of the
  block is `*n`.
* `getstr`  — the loop, with its assertions and with every store checked against the block. The free
  part and the result are an `int`, the size of the block is not.
* `Getstr.getline` — the replacement of the library function, on the line pointer of the caller.
* `macfileParseC`  — `macfile_parse` with that function under it.
-/

namespace WakeOnLan

open CLib

namespace Getstr

/-- What the code must not come to. -/
inductive Trap where
  | assertion
  | overflow
  deriving DecidableEq, Repr

abbrev Heap := Nat → Option (Nat → UInt8)

def malloc (heap : Heap) (n : Nat) : Option Bytes := (heap n).map fun fresh => xmalloc fresh n

def realloc (heap : Heap) (p : Bytes) (n : Nat) : Option Bytes :=
  (heap n).map fun fresh => xrealloc fresh p n

def minChunk : Nat := 64

/-- `if (!*lineptr)`: a null pointer gets a block. -/
def firstBlock (heap : Heap) : Option Bytes → Option Bytes
  | some p => some p
  | none => malloc heap minChunk

def getc (fp : File) : Option UInt8 × File :=
  match fp.rest with
  | c :: s => (some c, { fp with rest := s })
  | [] => (none, fp.hitEnd)

/-- `nchars_avail` is an `int`: beyond `2 ^ 31` it is not what is free. -/
structure Reading where
  lineptr : Bytes
  ncharsAvail : Int
  readPos : Nat
  deriving DecidableEq

/-- `assert (*n - nchars_avail == read_pos - *lineptr)` -/
def Reading.assertion (r : Reading) : Except Trap Unit :=
  if asSize (r.lineptr.length - r.ncharsAvail) = asSize r.readPos then .ok ()
  else .error .assertion

/-- `*n *= 2` or `*n += MIN_CHUNK` -/
def grow (n : Nat) : Nat := if n > minChunk then asSize (n * 2) else asSize (n + minChunk)

/-- "We always want at least one char left in the buffer." -/
def Reading.makeRoom (heap : Heap) (r : Reading) : Except Trap (Option Reading) :=
  if r.ncharsAvail < 2 then
    let n := grow r.lineptr.length
    let ncharsAvail := asInt (n - r.readPos)
    match realloc heap r.lineptr n with
    | none => .ok none
    | some lineptr => do
      let r := { lineptr, ncharsAvail, readPos := asSize (n - ncharsAvail) : Reading }
      r.assertion
      return some r
  else
    return some r

/-- `*read_pos++ = c; nchars_avail--;` -/
def Reading.put (r : Reading) (c : UInt8) : Except Trap Reading :=
  if r.readPos < r.lineptr.length then
    .ok
      { lineptr := r.lineptr.set r.readPos c
        ncharsAvail := asInt (r.ncharsAvail - 1)
        readPos := r.readPos + 1 }
  else .error .overflow

/-- How the loop is left: by `return -1`, or by `break`. -/
inductive LoopEnd where
  | failed (lineptr : Option Bytes) (fp : File)
  | left (r : Reading) (fp : File)
  deriving DecidableEq

/-- "Return partial line, if any." -/
def atEnd (r : Reading) (fp : File) : LoopEnd :=
  if r.readPos = 0 then .failed (some r.lineptr) fp else .left r fp

section Loop

variable (heap : Heap) (delim1 delim2 : UInt8)

/-- `for (;;)`, on the bytes that `fp` still has. -/
def getstrLoop (fp : File) : Bytes → Reading → Except Trap LoopEnd
  | [], r => do
    let fp := (getc { fp with rest := [] }).2
    r.assertion
    match ← r.makeRoom heap with
    | none => return .failed none fp
    | some r => return atEnd r fp
  | c :: s, r => do
    r.assertion
    match ← r.makeRoom heap with
    | none => return .failed none { fp with rest := s }
    | some r =>
      if fp.ferror then return atEnd r { fp with rest := s }
      else
        let r ← r.put c
        if c = delim1 ∨ (delim2 ≠ 0 ∧ c = delim2) then return .left r { fp with rest := s }
        else getstrLoop fp s r

/-- What a call hands back: its result, the line pointer and the stream. -/
structure Result where
  ret : Int
  lineptr : Option Bytes
  fp : File
  deriving DecidableEq

def getstr (lineptr : Option Bytes) (fp : File) (offset : Nat) : Except Trap Result := do
  match firstBlock heap lineptr with
  | none => return { ret := -1, lineptr := none, fp := fp }
  | some p =>
    let r :=
      { lineptr := p, ncharsAvail := asInt (p.length - offset), readPos := offset : Reading }
    match ← getstrLoop heap delim1 delim2 fp fp.rest r with
    | .failed lineptr fp => return { ret := -1, lineptr := lineptr, fp := fp }
    | .left r fp =>
      if r.readPos < r.lineptr.length then
        return { ret := asInt (r.readPos - offset), lineptr := some (r.lineptr.set r.readPos 0),
                 fp := fp }
      else .error .overflow

end Loop

def getline (heap : Heap) (lineptr : Option Bytes) (fp : File) : Except Trap Result :=
  getstr heap 10 0 lineptr fp 0

/-! ## Progress -/

theorem bind_ok {ε α β : Type} {x : Except ε α} {f : α → Except ε β} {b : β}
    (h : x >>= f = .ok b) : ∃ a, x = .ok a ∧ f a = .ok b := by
  cases x with
  | error e => cases h
  | ok a => exact ⟨a, rfl, h⟩

theorem atEnd_left {r r' : Reading} {fp fp' : File} (h : atEnd r fp = .left r' fp') :
    fp' = fp := by
  unfold atEnd at h
  split at h
  · cases h
  · cases h
    rfl

/-- What a stream has left: its bytes, and the end that no read has met. -/
def unread (fp : File) : Nat := fp.rest.length + if fp.feof ∨ fp.ferror then 0 else 1

theorem length_hitEnd (fp : File) : fp.hitEnd.rest.length = 0 := by
  unfold File.hitEnd
  split <;> rfl

theorem unread_hitEnd (fp : File) : unread fp.hitEnd = 0 := by
  unfold unread File.hitEnd
  split <;> simp

theorem unread_open {fp : File} (h : ¬(fp.feof = true ∨ fp.ferror = true)) :
    unread fp = fp.rest.length + 1 := by
  rw [unread, if_neg h]

theorem unread_le (fp : File) : unread fp ≤ fp.rest.length + 1 := by
  unfold unread
  split <;> omega

/-- A line is taken from the stream, or the stream is at its end. -/
theorem getstrLoop_unread {heap : Heap} {delim1 delim2 : UInt8} {fp fp' : File} {rest : Bytes}
    {r r' : Reading} (h : getstrLoop heap delim1 delim2 fp rest r = .ok (.left r' fp')) :
    unread fp' ≤ rest.length := by
  induction rest generalizing r with
  | nil =>
    obtain ⟨-, -, h⟩ := bind_ok h
    obtain ⟨room, -, h⟩ := bind_ok h
    cases room with
    | none => cases h
    | some r₁ =>
      simp only [pure, Except.pure, Except.ok.injEq] at h
      rw [atEnd_left h]
      exact Nat.le_of_eq (unread_hitEnd _)
  | cons c s ih =>
    obtain ⟨-, -, h⟩ := bind_ok h
    obtain ⟨room, -, h⟩ := bind_ok h
    cases room with
    | none => cases h
    | some r₁ =>
      simp only at h
      split at h
      · simp only [pure, Except.pure, Except.ok.injEq] at h
        rw [atEnd_left h]
        exact unread_le _
      · obtain ⟨r₂, -, h⟩ := bind_ok h
        split at h
        · cases h
          exact unread_le _
        · exact Nat.le_succ_of_le (ih h)

theorem getline_unread {heap : Heap} {lineptr : Option Bytes} {fp : File} {res : Result}
    (hopen : ¬(fp.feof = true ∨ fp.ferror = true)) (h : getline heap lineptr fp = .ok res)
    (hret : res.ret ≠ -1) : unread res.fp < unread fp := by
  simp only [getline, getstr] at h
  cases hp : firstBlock heap lineptr with
  | none =>
    simp only [hp, pure, Except.pure, Except.ok.injEq] at h
    exact absurd (h ▸ rfl) hret
  | some p =>
    simp only [hp] at h
    obtain ⟨last, hloop, h⟩ := bind_ok h
    cases last with
    | failed lineptr fp' =>
      simp only [pure, Except.pure, Except.ok.injEq] at h
      exact absurd (h ▸ rfl) hret
    | left r fp' =>
      simp only at h
      split at h
      · simp only [pure, Except.pure, Except.ok.injEq] at h
        rw [← h, unread_open hopen]
        exact Nat.lt_succ_of_le (getstrLoop_unread hloop)
      · cases h

end Getstr

/-! ## `macfile_parse` -/

/-- What a call of `macfile_parse` must not come to. -/
inductive Failure where
  | fault (f : Fault)
  | trap (t : Getstr.Trap)
  deriving DecidableEq, Repr

/-- The loop of `macfile_parse`. `willy` is the block that the lines are read into; it is freed
behind a line with tokens. -/
def macfileLoopC (heap : Getstr.Heap) (fp : File) (willy : Option Bytes) (o : Outs)
    (parsedTokens : UInt32) : Except Failure (LoopExit × File × Outs × Option Bytes) :=
  if _hopen : fp.feof ∨ fp.ferror then .ok (.left parsedTokens, fp, o, willy)
  else
    match _h : Getstr.getline heap willy fp with
    | .error t => .error (.trap t)
    | .ok res =>
      if _hret : res.ret = -1 then .ok (.failed, res.fp, o, res.lineptr)
      else
        match getTokens (res.lineptr.getD []) o with
        | .error f => .error (.fault f)
        | .ok (tokens, o') =>
          if tokens = 0 then macfileLoopC heap res.fp res.lineptr o' tokens
          else .ok (.left tokens, res.fp, o', none)
termination_by Getstr.unread fp
decreasing_by exact Getstr.getline_unread _hopen _h _hret

def macfileParseC (heap : Getstr.Heap) (junk : Outs) (fp : File) : Except Failure Parsed :=
  match macfileLoopC heap fp none { junk with port := 0 } 0 with
  | .error e => .error e
  | .ok (.failed, fp, o, _) => .ok { record := none, port := o.port, fp := fp }
  | .ok (.left parsedTokens, fp, o, _) =>
    if fp.ferror then .ok { record := none, port := o.port, fp := fp }
    else .ok { record := some (record parsedTokens o), port := o.port, fp := fp }

end WakeOnLan
