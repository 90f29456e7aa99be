import WakeOnLan.CLib.Words
import WakeOnLan.Proxy

/-!
# WakeOnLan.Md5

`lib/md5.c`: the digest that `proxy_send` calls for.

* `Md5Ctx`          — `struct md5_ctx`: the registers, the count of bytes in two words, and up to 64
  bytes that do not fill a block yet.
* `Arch`            — what the code asks about the machine: its byte order and its alignment.
* `md5ProcessBlock` — whole blocks, 64 steps each. `ops` is the source's list of steps.
* `md5ProcessBytes` — bytes in any number. It fills up the buffer, processes blocks where they lie
  or, if they are not aligned, block by block in the buffer, and keeps the rest.
* `md5FinishCtx` / `md5Buffer` — the padding, the length in bits, and the sixteen bytes of the
  result.

Every access to an array is checked.
-/

namespace WakeOnLan

open CLib

/-! ## Words -/

/-- `SWAP` -/
def swap : Endian → UInt32 → UInt32
  | .big, n => swapWord n
  | .little, n => n

def rol (x n : UInt32) : UInt32 := (x <<< n) ||| (x >>> (32 - n))

def ff (b c d : UInt32) : UInt32 := d ^^^ (b &&& (c ^^^ d))
def fg (b c d : UInt32) : UInt32 := ff d b c
def fh (b c d : UInt32) : UInt32 := b ^^^ c ^^^ d
def fi (b c d : UInt32) : UInt32 := c ^^^ (b ||| ~~~d)

/-! ## Steps -/

inductive Reg where
  | A
  | B
  | C
  | D
  deriving DecidableEq, Repr

structure Regs where
  A : UInt32
  B : UInt32
  C : UInt32
  D : UInt32
  deriving DecidableEq, Repr

def Regs.get (r : Regs) : Reg → UInt32
  | .A => r.A
  | .B => r.B
  | .C => r.C
  | .D => r.D

def Regs.set (r : Regs) (v : UInt32) : Reg → Regs
  | .A => { r with A := v }
  | .B => { r with B := v }
  | .C => { r with C := v }
  | .D => { r with D := v }

inductive Fun where
  | ff
  | fg
  | fh
  | fi
  deriving DecidableEq, Repr

def Fun.app : Fun → UInt32 → UInt32 → UInt32 → UInt32
  | .ff => WakeOnLan.ff
  | .fg => WakeOnLan.fg
  | .fh => WakeOnLan.fh
  | .fi => WakeOnLan.fi

/-- One line `OP (f, a, b, c, d, k, s, T)`. The lines of the first round do not name `k`: they take
the words one after the other. -/
structure Op where
  f : Fun
  a : Reg
  b : Reg
  c : Reg
  d : Reg
  k : Nat
  s : UInt32
  t : UInt32
  deriving DecidableEq, Repr

def op (words : List UInt32) (r : Regs) (o : Op) : Regs :=
  let r := r.set (r.get o.a + (o.f.app (r.get o.b) (r.get o.c) (r.get o.d) +
    words.getD o.k 0 + o.t)) o.a
  let r := r.set (rol (r.get o.a) o.s) o.a
  r.set (r.get o.a + r.get o.b) o.a

def round1 : List Op :=
  [⟨.ff, .A, .B, .C, .D, 0, 7, 0xd76aa478⟩, ⟨.ff, .D, .A, .B, .C, 1, 12, 0xe8c7b756⟩,
   ⟨.ff, .C, .D, .A, .B, 2, 17, 0x242070db⟩, ⟨.ff, .B, .C, .D, .A, 3, 22, 0xc1bdceee⟩,
   ⟨.ff, .A, .B, .C, .D, 4, 7, 0xf57c0faf⟩, ⟨.ff, .D, .A, .B, .C, 5, 12, 0x4787c62a⟩,
   ⟨.ff, .C, .D, .A, .B, 6, 17, 0xa8304613⟩, ⟨.ff, .B, .C, .D, .A, 7, 22, 0xfd469501⟩,
   ⟨.ff, .A, .B, .C, .D, 8, 7, 0x698098d8⟩, ⟨.ff, .D, .A, .B, .C, 9, 12, 0x8b44f7af⟩,
   ⟨.ff, .C, .D, .A, .B, 10, 17, 0xffff5bb1⟩, ⟨.ff, .B, .C, .D, .A, 11, 22, 0x895cd7be⟩,
   ⟨.ff, .A, .B, .C, .D, 12, 7, 0x6b901122⟩, ⟨.ff, .D, .A, .B, .C, 13, 12, 0xfd987193⟩,
   ⟨.ff, .C, .D, .A, .B, 14, 17, 0xa679438e⟩, ⟨.ff, .B, .C, .D, .A, 15, 22, 0x49b40821⟩]

def round2 : List Op :=
  [⟨.fg, .A, .B, .C, .D, 1, 5, 0xf61e2562⟩, ⟨.fg, .D, .A, .B, .C, 6, 9, 0xc040b340⟩,
   ⟨.fg, .C, .D, .A, .B, 11, 14, 0x265e5a51⟩, ⟨.fg, .B, .C, .D, .A, 0, 20, 0xe9b6c7aa⟩,
   ⟨.fg, .A, .B, .C, .D, 5, 5, 0xd62f105d⟩, ⟨.fg, .D, .A, .B, .C, 10, 9, 0x02441453⟩,
   ⟨.fg, .C, .D, .A, .B, 15, 14, 0xd8a1e681⟩, ⟨.fg, .B, .C, .D, .A, 4, 20, 0xe7d3fbc8⟩,
   ⟨.fg, .A, .B, .C, .D, 9, 5, 0x21e1cde6⟩, ⟨.fg, .D, .A, .B, .C, 14, 9, 0xc33707d6⟩,
   ⟨.fg, .C, .D, .A, .B, 3, 14, 0xf4d50d87⟩, ⟨.fg, .B, .C, .D, .A, 8, 20, 0x455a14ed⟩,
   ⟨.fg, .A, .B, .C, .D, 13, 5, 0xa9e3e905⟩, ⟨.fg, .D, .A, .B, .C, 2, 9, 0xfcefa3f8⟩,
   ⟨.fg, .C, .D, .A, .B, 7, 14, 0x676f02d9⟩, ⟨.fg, .B, .C, .D, .A, 12, 20, 0x8d2a4c8a⟩]

def round3 : List Op :=
  [⟨.fh, .A, .B, .C, .D, 5, 4, 0xfffa3942⟩, ⟨.fh, .D, .A, .B, .C, 8, 11, 0x8771f681⟩,
   ⟨.fh, .C, .D, .A, .B, 11, 16, 0x6d9d6122⟩, ⟨.fh, .B, .C, .D, .A, 14, 23, 0xfde5380c⟩,
   ⟨.fh, .A, .B, .C, .D, 1, 4, 0xa4beea44⟩, ⟨.fh, .D, .A, .B, .C, 4, 11, 0x4bdecfa9⟩,
   ⟨.fh, .C, .D, .A, .B, 7, 16, 0xf6bb4b60⟩, ⟨.fh, .B, .C, .D, .A, 10, 23, 0xbebfbc70⟩,
   ⟨.fh, .A, .B, .C, .D, 13, 4, 0x289b7ec6⟩, ⟨.fh, .D, .A, .B, .C, 0, 11, 0xeaa127fa⟩,
   ⟨.fh, .C, .D, .A, .B, 3, 16, 0xd4ef3085⟩, ⟨.fh, .B, .C, .D, .A, 6, 23, 0x04881d05⟩,
   ⟨.fh, .A, .B, .C, .D, 9, 4, 0xd9d4d039⟩, ⟨.fh, .D, .A, .B, .C, 12, 11, 0xe6db99e5⟩,
   ⟨.fh, .C, .D, .A, .B, 15, 16, 0x1fa27cf8⟩, ⟨.fh, .B, .C, .D, .A, 2, 23, 0xc4ac5665⟩]

def round4 : List Op :=
  [⟨.fi, .A, .B, .C, .D, 0, 6, 0xf4292244⟩, ⟨.fi, .D, .A, .B, .C, 7, 10, 0x432aff97⟩,
   ⟨.fi, .C, .D, .A, .B, 14, 15, 0xab9423a7⟩, ⟨.fi, .B, .C, .D, .A, 5, 21, 0xfc93a039⟩,
   ⟨.fi, .A, .B, .C, .D, 12, 6, 0x655b59c3⟩, ⟨.fi, .D, .A, .B, .C, 3, 10, 0x8f0ccc92⟩,
   ⟨.fi, .C, .D, .A, .B, 10, 15, 0xffeff47d⟩, ⟨.fi, .B, .C, .D, .A, 1, 21, 0x85845dd1⟩,
   ⟨.fi, .A, .B, .C, .D, 8, 6, 0x6fa87e4f⟩, ⟨.fi, .D, .A, .B, .C, 15, 10, 0xfe2ce6e0⟩,
   ⟨.fi, .C, .D, .A, .B, 6, 15, 0xa3014314⟩, ⟨.fi, .B, .C, .D, .A, 13, 21, 0x4e0811a1⟩,
   ⟨.fi, .A, .B, .C, .D, 4, 6, 0xf7537e82⟩, ⟨.fi, .D, .A, .B, .C, 11, 10, 0xbd3af235⟩,
   ⟨.fi, .C, .D, .A, .B, 2, 15, 0x2ad7d2bb⟩, ⟨.fi, .B, .C, .D, .A, 9, 21, 0xeb86d391⟩]

def ops : List Op := round1 ++ round2 ++ round3 ++ round4

/-! ## Blocks -/

structure Md5Ctx extends Regs where
  total0 : UInt32
  total1 : UInt32
  buflen : Nat
  buffer : Bytes
  size : buffer.length = 128

/-- `ctx->total[0] += len; if (ctx->total[0] < len) ++ctx->total[1];` The sum is stored in 32 bits,
and the comparison is one of `size_t`. -/
def Md5Ctx.count (ctx : Md5Ctx) (len : Nat) : Md5Ctx :=
  let total0 := ctx.total0 + UInt32.ofNat len
  { ctx with
    total0 := total0
    total1 := if total0.toNat < len then ctx.total1 + 1 else ctx.total1 }

theorem Md5Ctx.size_writeAt (ctx : Md5Ctx) (off : Nat) (bs : Bytes) :
    (writeAt ctx.buffer off bs).length = 128 := (length_writeAt ..).trans ctx.size

/-- `memcpy (&ctx->buffer[off], bs, ...)` -/
def Md5Ctx.memcpy (ctx : Md5Ctx) (off : Nat) (bs : Bytes) : Except Fault Md5Ctx :=
  if off + bs.length ≤ 128 then
    .ok { ctx with
      buffer := writeAt ctx.buffer off bs
      size := ctx.size_writeAt off bs }
  else .error .overflow

/-- The sixteen words of the block at `words`, as the first round stores them. -/
def correctWords (e : Endian) (buffer : Bytes) (words : Nat) : Except Fault (List UInt32) :=
  (List.range 16).mapM fun i => return swap e (← loadWord e buffer (4 * (words + i)))

def addSaved (r saved : Regs) : Regs :=
  { A := r.A + saved.A, B := r.B + saved.B, C := r.C + saved.C, D := r.D + saved.D }

/-- One turn of `while (words < endp)`. -/
def blockTurn (e : Endian) (buffer : Bytes) (r : Regs) (i : Nat) : Except Fault Regs := do
  let words ← correctWords e buffer (16 * i)
  return addSaved (ops.foldl (op words) r) r

/-- Every turn of the loop takes sixteen words, so it has as many turns as it takes to get to
`endp`. -/
def md5ProcessBlock (e : Endian) (buffer : Bytes) (len : Nat) (ctx : Md5Ctx) :
    Except Fault Md5Ctx := do
  let nwords := len / 4
  let r ← (List.range ((nwords + 15) / 16)).foldlM (blockTurn e buffer) ctx.toRegs
  return { ctx.count len with toRegs := r }

/-! ## Bytes -/

structure Arch where
  endian : Endian
  stringArchUnaligned : Bool
  alignof : Nat

/-- Whether blocks at `p` are copied before they are processed. -/
def Arch.unalignedP (arch : Arch) (p : Nat) : Bool :=
  !arch.stringArchUnaligned && p % arch.alignof != 0

/-- `n & ~63` -/
def wholeLen (n : Nat) : Nat := n / 64 * 64

/-- "When we already have some bits in our internal buffer concatenate both inputs first." The
result is `add`, and the context. -/
def fillUp (e : Endian) (buffer : Bytes) (ctx : Md5Ctx) : Except Fault (Nat × Md5Ctx) :=
  if ctx.buflen ≠ 0 then do
    let leftOver := ctx.buflen
    let add := if 128 - leftOver > buffer.length then buffer.length else 128 - leftOver
    let ctx ← ctx.memcpy leftOver (← loadAt buffer 0 add)
    let ctx := { ctx with buflen := ctx.buflen + add }
    if ctx.buflen > 64 then
      let ctx ← md5ProcessBlock e ctx.buffer (wholeLen ctx.buflen) ctx
      let ctx := { ctx with buflen := ctx.buflen % 64 }
      let ctx ← ctx.memcpy 0 (← loadAt ctx.buffer (wholeLen (leftOver + add)) ctx.buflen)
      return (add, ctx)
    else
      return (add, ctx)
  else
    return (0, ctx)

/-- `while (len > 64)` -/
def copyBlocks (e : Endian) (buffer : Bytes) (ctx : Md5Ctx) : Except Fault (Bytes × Md5Ctx) :=
  if 64 < buffer.length then do
    let ctx ← ctx.memcpy 0 (← loadAt buffer 0 64)
    let ctx ← md5ProcessBlock e ctx.buffer 64 ctx
    copyBlocks e (buffer.drop 64) ctx
  else
    return (buffer, ctx)
  termination_by buffer.length
  decreasing_by
    rw [List.length_drop]
    omega

/-- "Process available complete blocks." The buffer begins at the address `addr`. -/
def wholeBlocks (arch : Arch) (addr : Nat) (buffer : Bytes) (ctx : Md5Ctx) :
    Except Fault (Bytes × Md5Ctx) :=
  if buffer.length ≥ 64 then
    if arch.unalignedP addr then copyBlocks arch.endian buffer ctx
    else do
      let ctx ← md5ProcessBlock arch.endian buffer (wholeLen buffer.length) ctx
      return (buffer.drop (wholeLen buffer.length), ctx)
  else
    return (buffer, ctx)

/-- "Move remaining bytes in internal buffer." -/
def keepRest (e : Endian) (buffer : Bytes) (ctx : Md5Ctx) : Except Fault Md5Ctx :=
  if buffer.length > 0 then do
    let leftOver := ctx.buflen
    let ctx ← ctx.memcpy leftOver buffer
    let leftOver := leftOver + buffer.length
    if leftOver ≥ 64 then
      let ctx ← md5ProcessBlock e ctx.buffer 64 ctx
      let leftOver := leftOver - 64
      let ctx ← ctx.memcpy 0 (← loadAt ctx.buffer 64 leftOver)
      return { ctx with buflen := leftOver }
    else
      return { ctx with buflen := leftOver }
  else
    return ctx

def md5ProcessBytes (arch : Arch) (addr : Nat) (buffer : Bytes) (ctx : Md5Ctx) :
    Except Fault Md5Ctx := do
  let (add, ctx) ← fillUp arch.endian buffer ctx
  let (buffer, ctx) ← wholeBlocks arch (addr + add) (buffer.drop add) ctx
  keepRest arch.endian buffer ctx

/-! ## Digests -/

/-- What is in the buffer before does not matter: the context is not initialised. -/
def md5InitCtx (ctx : Md5Ctx) : Md5Ctx :=
  { ctx with
    A := 0x67452301
    B := 0xefcdab89
    C := 0x98badcfe
    D := 0x10325476
    total0 := 0
    total1 := 0
    buflen := 0 }

def md5ReadCtx (e : Endian) (ctx : Md5Ctx) : Digest :=
  { bytes := wordBytes (swap e ctx.A) e ++ wordBytes (swap e ctx.B) e ++
      wordBytes (swap e ctx.C) e ++ wordBytes (swap e ctx.D) e
    len := by simp [md5Length] }

def fillbuf : Bytes := 0x80 :: List.replicate 63 0

def md5FinishCtx (e : Endian) (ctx : Md5Ctx) : Except Fault Digest := do
  let bytes := ctx.buflen
  let ctx := ctx.count bytes
  let pad := if bytes ≥ 56 then 64 + 56 - bytes else 56 - bytes
  let ctx ← ctx.memcpy bytes (← loadAt fillbuf 0 pad)
  let ctx ← ctx.memcpy (bytes + pad) (wordBytes (swap e (ctx.total0 <<< 3)) e)
  let ctx ← ctx.memcpy (bytes + pad + 4)
    (wordBytes (swap e ((ctx.total1 <<< 3) ||| (ctx.total0 >>> 29))) e)
  let ctx ← md5ProcessBlock e ctx.buffer (bytes + pad + 8) ctx
  return md5ReadCtx e ctx

/-- The `size_t` and the pointer arguments of `md5_buffer` are the bytes of `buffer` and their
address; `ctx` is the context on the stack. -/
def md5Buffer (arch : Arch) (ctx : Md5Ctx) (addr : Nat) (buffer : Bytes) : Except Fault Digest := do
  let ctx ← md5ProcessBytes arch addr buffer (md5InitCtx ctx)
  md5FinishCtx arch.endian ctx

end WakeOnLan
