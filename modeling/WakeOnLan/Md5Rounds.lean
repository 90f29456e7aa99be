import WakeOnLan.CLib.Blocks
import WakeOnLan.CLib.Sines
import WakeOnLan.Md5

/-!
# WakeOnLan.Md5Rounds

The sixty-four steps of a block, against the algorithm of RFC 1321.

* `Rfc1321`         — the algorithm: the four functions, the index and the rotation of a step, its
  constant as a sine, and the step, which turns its registers.
* `constants_sines` — the constants of `ops` are the integer parts of the sines.
* `view`            — the registers in the order in which step `i` names them. Through it every line
  `OP` of the source is a step of the algorithm (`op_step`), and so are all of them (`ops_steps`).
-/

namespace WakeOnLan

open CLib

namespace Rfc1321

def F (x y z : UInt32) : UInt32 := (x &&& y) ||| (~~~x &&& z)
def G (x y z : UInt32) : UInt32 := (x &&& z) ||| (y &&& ~~~z)
def H (x y z : UInt32) : UInt32 := x ^^^ y ^^^ z
def I (x y z : UInt32) : UInt32 := y ^^^ (x ||| ~~~z)

def fn (i : Nat) : UInt32 → UInt32 → UInt32 → UInt32 :=
  match i / 16 with
  | 0 => F
  | 1 => G
  | 2 => H
  | _ => I

/-- Which word of the block step `i` takes. -/
def index (i : Nat) : Nat :=
  match i / 16 with
  | 0 => i % 16
  | 1 => (5 * i + 1) % 16
  | 2 => (3 * i + 5) % 16
  | _ => 7 * i % 16

def shift (i : Nat) : Nat :=
  match i / 16, i % 4 with
  | 0, 0 => 7 | 0, 1 => 12 | 0, 2 => 17 | 0, _ => 22
  | 1, 0 => 5 | 1, 1 => 9 | 1, 2 => 14 | 1, _ => 20
  | 2, 0 => 4 | 2, 1 => 11 | 2, 2 => 16 | 2, _ => 23
  | _, 0 => 6 | _, 1 => 10 | _, 2 => 15 | _, _ => 21

/-- `T[i] = (int) (4294967296.0 * fabs (sin (i))), i=1..64`; the steps are counted from 0 here. -/
noncomputable def T (i : Nat) : Nat := ⌊(4294967296 : ℝ) * |Real.sin (i + 1 : ℕ)|⌋₊

def rotateLeft (x : UInt32) (n : Nat) : UInt32 := ⟨x.toBitVec.rotateLeft n⟩

/-- Step `i`, on the registers in the order of their roles. -/
noncomputable def step (words : List UInt32) (r : Regs) (i : Nat) : Regs :=
  { A := r.D
    B := r.B + rotateLeft (r.A + fn i r.B r.C r.D + words.getD (index i) 0 +
      UInt32.ofNat (T i)) (shift i)
    C := r.B
    D := r.C }

noncomputable def steps (words : List UInt32) (r : Regs) (n : Nat) : Regs :=
  (List.range n).foldl (step words) r

/-- A block is read in words whose low bytes come first. -/
def blockWords (b : Bytes) : List UInt32 :=
  (List.range 16).map fun i =>
    word (b.getD (4 * i) 0) (b.getD (4 * i + 1) 0) (b.getD (4 * i + 2) 0) (b.getD (4 * i + 3) 0)

noncomputable def compress (r : Regs) (b : Bytes) : Regs :=
  let r' := steps (blockWords b) r 64
  { A := r.A + r'.A, B := r.B + r'.B, C := r.C + r'.C, D := r.D + r'.D }

end Rfc1321

/-! ## Functions -/

theorem ff_eq : ff = Rfc1321.F := by
  funext b c d
  apply UInt32.eq_of_toBitVec_eq
  simp only [ff, Rfc1321.F]
  ext i hi
  simp only [UInt32.toBitVec_xor, UInt32.toBitVec_and, UInt32.toBitVec_or, UInt32.toBitVec_not,
    BitVec.getElem_xor, BitVec.getElem_and, BitVec.getElem_or, BitVec.getElem_not]
  cases b.toBitVec[i] <;> cases c.toBitVec[i] <;> cases d.toBitVec[i] <;> rfl

theorem fg_eq : fg = Rfc1321.G := by
  funext b c d
  rw [fg, ff_eq]
  simp only [Rfc1321.F, Rfc1321.G, UInt32.and_comm]

def funAt (i : Nat) : Fun :=
  match i / 16 with
  | 0 => .ff
  | 1 => .fg
  | 2 => .fh
  | _ => .fi

theorem funAt_app (i : Nat) : (funAt i).app = Rfc1321.fn i := by
  unfold funAt Rfc1321.fn
  split
  · exact ff_eq
  · exact fg_eq
  · rfl
  · rfl

theorem rol_eq {n : Nat} (x : UInt32) (h : 0 < n) (h' : n < 32) :
    rol x (UInt32.ofNat n) = Rfc1321.rotateLeft x n := by
  apply UInt32.eq_of_toBitVec_eq
  simp only [rol, Rfc1321.rotateLeft, BitVec.rotateLeft_def]
  interval_cases n <;> simp

/-! ## Constants -/

def constants : List UInt32 := ops.map Op.t

theorem constants_enclosed :
    ∀ i < 64, Encloses 4294967296 (i + 1) (constants.getD i 0).toNat := by
  decide +kernel

/-- What the source says about its "strange constants". -/
theorem constants_sines {i : Nat} (h : i < 64) :
    (constants.getD i 0).toNat = Rfc1321.T i :=
  (floor_abs_sin (constants_enclosed i h)).symm

/-! ## Steps -/

/-- The register that takes the role `j` (0 for `a`, 3 for `d`) in step `i`. -/
def regAt (i j : Nat) : Reg :=
  match (j + 3 * i) % 4 with
  | 0 => .A
  | 1 => .B
  | 2 => .C
  | _ => .D

def opAt (i : Nat) : Op :=
  { f := funAt i
    a := regAt i 0
    b := regAt i 1
    c := regAt i 2
    d := regAt i 3
    k := Rfc1321.index i
    s := UInt32.ofNat (Rfc1321.shift i)
    t := constants.getD i 0 }

theorem ops_eq : ops = (List.range 64).map opAt := by decide +kernel

/-- The registers in the order of their roles in step `i`. -/
def view (i : Nat) (r : Regs) : Regs :=
  { A := r.get (regAt i 0), B := r.get (regAt i 1), C := r.get (regAt i 2), D := r.get (regAt i 3) }

theorem regAt_mod (i k j : Nat) : regAt (i + k) j = regAt (i % 4 + k) j := by
  unfold regAt
  rw [show (j + 3 * (i + k)) % 4 = (j + 3 * (i % 4 + k)) % 4 by omega]

theorem shift_bounds (i : Nat) : 0 < Rfc1321.shift i ∧ Rfc1321.shift i < 32 := by
  unfold Rfc1321.shift
  split <;> decide

/-- One line `OP` is one step. -/
theorem op_step (words : List UInt32) (r : Regs) {i : Nat} (h : i < 64) :
    view (i + 1) (op words r (opAt i)) = Rfc1321.step words (view i r) i := by
  have ht : constants.getD i 0 = UInt32.ofNat (Rfc1321.T i) := by
    rw [← constants_sines h, UInt32.ofNat_toNat]
  have hrol (x : UInt32) : rol x (UInt32.ofNat (Rfc1321.shift i)) =
      Rfc1321.rotateLeft x (Rfc1321.shift i) :=
    rol_eq x (shift_bounds i).1 (shift_bounds i).2
  have hreg (j : Nat) : regAt i j = regAt (i % 4) j := regAt_mod i 0 j
  simp only [op, opAt, view, Rfc1321.step, funAt_app, hrol, ht, hreg, regAt_mod i 1]
  -- the registers turn with a period of four
  have hlt : i % 4 < 4 := Nat.mod_lt _ (by decide)
  generalize i % 4 = m at hlt
  interval_cases m <;> simp [regAt, Regs.get, Regs.set, ← UInt32.add_assoc] <;>
    exact UInt32.add_comm ..

theorem ops_steps (words : List UInt32) (r : Regs) {n : Nat} (h : n ≤ 64) :
    view n (((List.range n).map opAt).foldl (op words) r) = Rfc1321.steps words r n := by
  induction n with
  | zero => rfl
  | succ n ih =>
    rw [List.range_succ, List.map_append, List.foldl_append, List.map_singleton, List.foldl_cons,
      List.foldl_nil, op_step words _ (by omega), ih (by omega), Rfc1321.steps, Rfc1321.steps,
      List.range_succ, List.foldl_append, List.foldl_cons, List.foldl_nil]

/-- The registers are back in their places after the last step. -/
theorem view_last (r : Regs) : view 64 r = r := rfl

theorem foldl_ops (words : List UInt32) (r : Regs) :
    ops.foldl (op words) r = Rfc1321.steps words r 64 := by
  rw [ops_eq, ← ops_steps words r (Nat.le_refl 64), view_last]

/-! ## Blocks -/

theorem swap_wordOf (e : Endian) (a b c d : UInt8) : swap e (wordOf a b c d e) = word a b c d := by
  cases e with
  | little => rfl
  | big => exact swapWord_word a b c d

theorem wordBytes_swap (e : Endian) (v : UInt32) :
    wordBytes (swap e v) e = wordBytes v .little := by
  cases e with
  | little => rfl
  | big => exact wordBytes_swapWord v

/-- On every host the words of a block are the same. -/
theorem correctWords_eq (e : Endian) {buffer : Bytes} {i : Nat}
    (h : 64 * i + 64 ≤ buffer.length) :
    correctWords e buffer (16 * i) =
      .ok (Rfc1321.blockWords ((buffer.drop (i * 64)).take 64)) := by
  apply mapM_ok
  intro j hj
  have hj := List.mem_range.mp hj
  have hget (k : Nat) (hk : k < 4) : buffer.getD (4 * (16 * i + j) + k) 0 =
      ((buffer.drop (i * 64)).take 64).getD (4 * j + k) 0 := by
    rw [List.getD_eq_getElem?_getD, List.getD_eq_getElem?_getD, List.getElem?_take_of_lt (by omega),
      List.getElem?_drop]
    congr 2
    omega
  rw [loadWord_ok e (by omega)]
  simp only [bind, Except.bind, pure, Except.pure, swap_wordOf]
  have h0 : buffer.getD (4 * (16 * i + j)) 0 =
      ((buffer.drop (i * 64)).take 64).getD (4 * j) 0 := hget 0 (by omega)
  rw [h0, hget 1 (by omega), hget 2 (by omega), hget 3 (by omega)]

theorem blockTurn_eq (e : Endian) {buffer : Bytes} (r : Regs) {i : Nat}
    (h : 64 * i + 64 ≤ buffer.length) :
    blockTurn e buffer r i = .ok (Rfc1321.compress r ((buffer.drop (i * 64)).take 64)) := by
  simp only [blockTurn, correctWords_eq e h, bind, Except.bind, pure, Except.pure, foldl_ops,
    addSaved, Rfc1321.compress, UInt32.add_comm]

/-- `md5_process_block` on whole blocks: they are compressed one after the other, and counted. -/
theorem md5ProcessBlock_eq (e : Endian) {buffer : Bytes} {len : Nat} (ctx : Md5Ctx)
    (hlen : len ≤ buffer.length) (hdvd : 64 ∣ len) :
    md5ProcessBlock e buffer len ctx = .ok { ctx.count len with
      toRegs := absorb Rfc1321.compress 64 ctx.toRegs (buffer.take len) } := by
  have hturns : (len / 4 + 15) / 16 = len / 64 := by omega
  have hround : ∀ r : Regs, ∀ i < len / 64, blockTurn e buffer r i =
      .ok (Rfc1321.compress r (((buffer.take len).drop (i * 64)).take 64)) := by
    intro r i hi
    rw [blockTurn_eq e r (by omega), List.drop_take, List.take_take, Nat.min_eq_left (by omega)]
  have htake : (buffer.take len).length = len := by
    rw [List.length_take]
    omega
  rw [md5ProcessBlock, hturns, foldlM_ok hround, absorb, htake, absorbN_foldl]
  rfl

end WakeOnLan
