import WakeOnLan.CLib.Bytes

/-!
# CLib.Memory

Byte arrays written in place.

* `writeAt p off bs` — the loop that stores `bs` at `p[off]`, `p[off + 1]`, ...; a store past the
  end of the array is dropped, so no write changes the length.
* `writeAt_append` / `writeAt_eq` / `getElem?_writeAt` — what the array holds afterwards, when the
  bytes fit.
* `writeChunks_eq` — the same for a loop that stores one chunk behind the other.
* `wordBytes` — an `unsigned int` in the byte order of the host.
* `xmalloc` / `xrealloc` — fresh heap bytes are whatever `uninit` says.
* `CharArray` — a `char` array that holds a string; a string that does not fit is a `Fault`.
-/

namespace CLib

def writeAt (p : Bytes) : Nat → Bytes → Bytes
  | _, [] => p
  | off, b :: bs => writeAt (p.set off b) (off + 1) bs

@[simp] theorem length_writeAt (p : Bytes) (off : Nat) (bs : Bytes) :
    (writeAt p off bs).length = p.length := by
  induction bs generalizing p off with
  | nil => rfl
  | cons b bs ih => simp [writeAt, ih]

theorem writeAt_append (pre post : Bytes) {old bs : Bytes} (h : old.length = bs.length) :
    writeAt (pre ++ old ++ post) pre.length bs = pre ++ bs ++ post := by
  induction bs generalizing pre old with
  | nil =>
    have : old = [] := List.length_eq_zero_iff.mp h
    simp [writeAt, this]
  | cons b bs ih =>
    cases old with
    | nil => cases h
    | cons o old =>
      have hset : (pre ++ o :: old ++ post).set pre.length b = pre ++ [b] ++ old ++ post := by
        simp [List.set_append_right]
      have hlen : old.length = bs.length := by simpa using h
      have := ih (pre ++ [b]) hlen
      simpa [writeAt, hset] using this

theorem writeAt_eq {p bs : Bytes} {off : Nat} (h : off + bs.length ≤ p.length) :
    writeAt p off bs = p.take off ++ bs ++ p.drop (off + bs.length) := by
  have hp : p = p.take off ++ (p.drop off).take bs.length ++ p.drop (off + bs.length) := by
    rw [← List.drop_drop, List.append_assoc, List.take_append_drop, List.take_append_drop]
  have hoff : (p.take off).length = off := by simp; omega
  have hold : ((p.drop off).take bs.length).length = bs.length := by simp; omega
  have := writeAt_append (p.take off) (p.drop (off + bs.length)) hold
  rwa [← hp, hoff] at this

theorem getElem?_writeAt {p bs : Bytes} {off : Nat} (h : off + bs.length ≤ p.length) (i : Nat) :
    (writeAt p off bs)[i]? =
      if off ≤ i ∧ i < off + bs.length then bs[i - off]? else p[i]? := by
  have htake : (p.take off).length = off := by
    rw [List.length_take]
    omega
  rw [writeAt_eq h, List.append_assoc, List.getElem?_append, htake]
  by_cases hlo : i < off
  · rw [if_pos hlo, if_neg (by omega), List.getElem?_take, if_pos hlo]
  · rw [if_neg hlo, List.getElem?_append]
    by_cases hhi : i < off + bs.length
    · rw [if_pos (by omega), if_pos (by omega)]
    · rw [if_neg (by omega), if_neg (by omega), List.getElem?_drop]
      congr 1
      omega

/-- A loop whose rounds keep the size of the array keeps it. -/
theorem length_foldl_range {f : Bytes → Nat → Bytes} (hlen : ∀ p j, (f p j).length = p.length)
    (p : Bytes) (n : Nat) : ((List.range n).foldl f p).length = p.length := by
  induction n with
  | zero => rfl
  | succ n ih => rw [List.range_succ, List.foldl_append, List.foldl_cons, List.foldl_nil, hlen, ih]

/-- The loop that stores the chunks `chunk 0`, ..., `chunk (n - 1)` at `w` bytes from each other. -/
def writeChunks (p : Bytes) (off w : Nat) (chunk : Nat → Bytes) (n : Nat) : Bytes :=
  (List.range n).foldl (fun p j => writeAt p (off + j * w) (chunk j)) p

theorem writeChunks_succ (p : Bytes) (off w : Nat) (chunk : Nat → Bytes) (n : Nat) :
    writeChunks p off w chunk (n + 1) =
      writeAt (writeChunks p off w chunk n) (off + n * w) (chunk n) := by
  simp [writeChunks, List.range_succ]

@[simp] theorem length_writeChunks (p : Bytes) (off w : Nat) (chunk : Nat → Bytes) (n : Nat) :
    (writeChunks p off w chunk n).length = p.length :=
  length_foldl_range (fun _ _ => length_writeAt ..) p n

theorem length_flatten_chunks {w : Nat} {chunk : Nat → Bytes} (hw : ∀ j, (chunk j).length = w)
    (n : Nat) : ((List.range n).map chunk).flatten.length = n * w := by
  induction n with
  | zero => simp
  | succ n ih =>
    rw [List.range_succ, List.map_append, List.flatten_append, List.length_append, ih,
      Nat.succ_mul]
    simp [hw]

/-- The loop invariant: after `n` rounds the array holds the first `n` chunks, one behind the
other, and is unchanged elsewhere. -/
theorem writeChunks_eq (p : Bytes) {off w n : Nat} {chunk : Nat → Bytes}
    (hw : ∀ j, (chunk j).length = w) (h : off + n * w ≤ p.length) :
    writeChunks p off w chunk n =
      p.take off ++ ((List.range n).map chunk).flatten ++ p.drop (off + n * w) := by
  induction n with
  | zero => simp [writeChunks]
  | succ n ih =>
    have hmul : (n + 1) * w = n * w + w := Nat.succ_mul _ _
    have hlen : (p.take off ++ ((List.range n).map chunk).flatten).length = off + n * w := by
      rw [List.length_append, length_flatten_chunks hw, List.length_take]
      omega
    have hold : ((p.drop (off + n * w)).take w).length = (chunk n).length := by
      rw [hw, List.length_take, List.length_drop]
      omega
    have hsplit : p.drop (off + n * w) =
        (p.drop (off + n * w)).take w ++ p.drop (off + (n + 1) * w) := by
      rw [hmul, ← Nat.add_assoc, ← List.drop_drop (i := w), List.take_append_drop]
    have hw' := writeAt_append (p.take off ++ ((List.range n).map chunk).flatten)
      (p.drop (off + (n + 1) * w)) hold
    rw [hlen] at hw'
    rw [writeChunks_succ, ih (by omega), hsplit, ← List.append_assoc, hw', List.range_succ]
    simp

/-! ## Words -/

inductive Endian where
  | little
  | big
  deriving DecidableEq, Repr

/-- The four bytes of an `unsigned int` in memory. -/
def wordBytes (v : UInt32) : Endian → Bytes
  | .little => [v.toUInt8, (v >>> 8).toUInt8, (v >>> 16).toUInt8, (v >>> 24).toUInt8]
  | .big => [(v >>> 24).toUInt8, (v >>> 16).toUInt8, (v >>> 8).toUInt8, v.toUInt8]

@[simp] theorem length_wordBytes (v : UInt32) (e : Endian) : (wordBytes v e).length = 4 := by
  cases e <;> rfl

/-! ## The heap -/

def xmalloc (uninit : Nat → UInt8) (n : Nat) : Bytes := (List.range n).map uninit

/-- The first bytes of the old block survive, what is beyond them is fresh. -/
def xrealloc (uninit : Nat → UInt8) (p : Bytes) (n : Nat) : Bytes := (p ++ xmalloc uninit n).take n

@[simp] theorem length_xmalloc (uninit : Nat → UInt8) (n : Nat) :
    (xmalloc uninit n).length = n := by simp [xmalloc]

@[simp] theorem length_xrealloc (uninit : Nat → UInt8) (p : Bytes) (n : Nat) :
    (xrealloc uninit p n).length = n := by simp [xrealloc]

/-! ## Strings in arrays -/

/-- What a program must not do with memory. -/
inductive Fault where
  | overflow
  | badFree
  | useAfterFree
  deriving DecidableEq, Repr

/-- An array of `cap` bytes that holds a string and its NUL. -/
structure CharArray (cap : Nat) where
  str : Bytes
  fits : str.length < cap
  deriving DecidableEq

def CharArray.store {cap : Nat} (s : Bytes) : Except Fault (CharArray cap) :=
  if h : s.length < cap then .ok ⟨s, h⟩ else .error .overflow

theorem CharArray.store_ok {cap : Nat} {s : Bytes} (h : s.length < cap) :
    CharArray.store s = .ok (⟨s, h⟩ : CharArray cap) := by
  simp [CharArray.store, h]

theorem CharArray.store_overflow {cap : Nat} {s : Bytes} (h : ¬ s.length < cap) :
    (CharArray.store s : Except Fault (CharArray cap)) = .error .overflow := by
  simp [CharArray.store, h]

end CLib
