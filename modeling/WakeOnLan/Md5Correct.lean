import WakeOnLan.Md5Rounds

/-!
# WakeOnLan.Md5Correct

`lib/md5.c` computes the digest of RFC 1321, on every host and however the message is cut.

* `Rfc1321.digest`  — the padded message, its blocks compressed one after the other.
* `Md5Ctx.Counted`  — the two words of the count hold a number of bytes modulo `2 ^ 64`.
* `Md5Ctx.Holds`    — the invariant of a context that was given the message `m`: its blocks are
  compressed, and at most 64 bytes of it lie at the front of the buffer.
-/

namespace WakeOnLan

open CLib

namespace Rfc1321

def init : Regs := { A := 0x67452301, B := 0xefcdab89, C := 0x98badcfe, D := 0x10325476 }

/-- The length in bits, the low bytes first, modulo `2 ^ 64`. -/
def lengthBytes (n : Nat) : Bytes :=
  (List.range 8).map fun i => UInt8.ofNat (8 * n / 256 ^ i)

def padded (m : Bytes) : Bytes :=
  m ++ 0x80 :: List.replicate ((119 - m.length % 64) % 64) 0 ++ lengthBytes m.length

noncomputable def digest (m : Bytes) : Bytes :=
  let r := absorb compress 64 init (padded m)
  wordBytes r.A .little ++ wordBytes r.B .little ++ wordBytes r.C .little ++ wordBytes r.D .little

end Rfc1321

/-! ## The count -/

def Md5Ctx.Counted (ctx : Md5Ctx) (n : Nat) : Prop :=
  2 ^ 32 * ctx.total1.toNat + ctx.total0.toNat = n % 2 ^ 64

/-- The carry goes into the second word once. That is enough unless the sum of the first word and
`len` takes more than 33 bits. -/
theorem Md5Ctx.Counted.count {ctx : Md5Ctx} {n len : Nat} (h : ctx.Counted n)
    (hlen : n % 2 ^ 32 + len < 2 ^ 33) : (ctx.count len).Counted (n + len) := by
  have h0 := ctx.total0.toNat_lt
  have h1 := ctx.total1.toNat_lt
  have hsum : (ctx.total0 + UInt32.ofNat len).toNat = (ctx.total0.toNat + len) % 2 ^ 32 := by
    rw [UInt32.toNat_add, UInt32.toNat_ofNat', Nat.add_mod_mod]
  have hcarry : (ctx.total1 + 1).toNat = (ctx.total1.toNat + 1) % 2 ^ 32 := UInt32.toNat_add ..
  simp only [Counted, Md5Ctx.count, hsum] at h ⊢
  split
  · rw [hcarry]
    omega
  · omega

/-! ## The buffer -/

/-- The context after a `memcpy` that stays within the buffer. -/
def Md5Ctx.put (ctx : Md5Ctx) (off : Nat) (bs : Bytes) : Md5Ctx :=
  { ctx with
    buffer := writeAt ctx.buffer off bs
    size := ctx.size_writeAt off bs }

@[simp] theorem Md5Ctx.put_buflen (ctx : Md5Ctx) (off : Nat) (bs : Bytes) :
    (ctx.put off bs).buflen = ctx.buflen := rfl

@[simp] theorem Md5Ctx.put_total0 (ctx : Md5Ctx) (off : Nat) (bs : Bytes) :
    (ctx.put off bs).total0 = ctx.total0 := rfl

@[simp] theorem Md5Ctx.put_total1 (ctx : Md5Ctx) (off : Nat) (bs : Bytes) :
    (ctx.put off bs).total1 = ctx.total1 := rfl

theorem Md5Ctx.memcpy_ok {off : Nat} {bs : Bytes} (ctx : Md5Ctx) (h : off + bs.length ≤ 128) :
    ctx.memcpy off bs = .ok (ctx.put off bs) := if_pos h

/-- A `memcpy` behind what is there. -/
theorem Md5Ctx.memcpy_behind {ctx : Md5Ctx} {rest : Bytes} {off : Nat} (h : rest <+: ctx.buffer)
    (hoff : rest.length = off) (bs : Bytes) (hlen : off + bs.length ≤ 128) :
    ctx.memcpy off bs = .ok (ctx.put off bs) ∧ rest ++ bs <+: (ctx.put off bs).buffer := by
  subst hoff
  have hfits : rest.length + bs.length ≤ ctx.buffer.length := by
    rw [ctx.size]
    exact hlen
  have hbuffer : (ctx.put rest.length bs).buffer = writeAt ctx.buffer rest.length bs := rfl
  refine ⟨ctx.memcpy_ok hlen, ?_⟩
  rw [hbuffer, writeAt_eq hfits, ← List.prefix_iff_eq_take.mp h]
  exact List.prefix_append ..

theorem Md5Ctx.memcpy_front (ctx : Md5Ctx) {bs : Bytes} (h : bs.length ≤ 128) :
    ctx.memcpy 0 bs = .ok (ctx.put 0 bs) ∧ bs <+: (ctx.put 0 bs).buffer :=
  Md5Ctx.memcpy_behind List.nil_prefix rfl bs (by rw [List.length_nil, Nat.zero_add]; exact h)

theorem loadAt_prefix {p q b : Bytes} (h : p ++ q <+: b) : loadAt b p.length q.length = .ok q := by
  obtain ⟨r, rfl⟩ := h
  have hlen : p.length + q.length ≤ (p ++ q ++ r).length := by
    simp only [List.length_append]
    omega
  rw [loadAt_ok hlen, List.append_assoc, List.drop_left, List.take_left]

/-! ## Blocks -/

/-- The context after `md5_process_block` on the blocks `p`. -/
noncomputable def Md5Ctx.eat (ctx : Md5Ctx) (p : Bytes) : Md5Ctx :=
  { ctx.count p.length with toRegs := absorb Rfc1321.compress 64 ctx.toRegs p }

@[simp] theorem Md5Ctx.eat_buffer (ctx : Md5Ctx) (p : Bytes) :
    (ctx.eat p).buffer = ctx.buffer := rfl

@[simp] theorem Md5Ctx.eat_buflen (ctx : Md5Ctx) (p : Bytes) :
    (ctx.eat p).buflen = ctx.buflen := rfl

theorem md5ProcessBlock_prefix (e : Endian) {buffer p : Bytes} (ctx : Md5Ctx)
    (h : p <+: buffer) (hp : 64 ∣ p.length) :
    md5ProcessBlock e buffer p.length ctx = .ok (ctx.eat p) := by
  rw [md5ProcessBlock_eq e ctx h.length_le hp, ← List.prefix_iff_eq_take.mp h]
  rfl

/-- The registers and the count of a context that was given `m`, of which `rest` is not compressed
yet. -/
structure Md5Ctx.Ate (ctx : Md5Ctx) (m rest : Bytes) : Prop where
  held : Held Rfc1321.compress 64 Rfc1321.init m ctx.toRegs rest
  counted : ctx.Counted (m.length - rest.length)

theorem Md5Ctx.Ate.keep {ctx : Md5Ctx} {m rest : Bytes} (h : ctx.Ate m rest) (piece : Bytes) :
    ctx.Ate (m ++ piece) (rest ++ piece) := by
  refine ⟨h.held.keep piece, ?_⟩
  rw [List.length_append, List.length_append, Nat.add_sub_add_right]
  exact h.counted

theorem Md5Ctx.Ate.eat {ctx : Md5Ctx} {m p q : Bytes} (h : ctx.Ate m (p ++ q))
    (hp : 64 ∣ p.length) (hlen : (m.length - (p ++ q).length) % 2 ^ 32 + p.length < 2 ^ 33) :
    (ctx.eat p).Ate m q := by
  refine ⟨h.held.flush (by decide) hp, ?_⟩
  have hle := h.held.length_le
  have hcount := h.counted.count hlen
  rw [List.length_append] at hle hcount
  rw [show m.length - (p.length + q.length) + p.length = m.length - q.length by omega] at hcount
  exact hcount

/-- Blocks out of the buffer of the context are counted right in any case. -/
theorem Md5Ctx.Ate.eat_buffer {ctx : Md5Ctx} {m p q : Bytes} (h : ctx.Ate m (p ++ q))
    (hp : 64 ∣ p.length) (hbuf : p.length ≤ 128) : (ctx.eat p).Ate m q := by
  have := Nat.mod_lt (m.length - (p ++ q).length) (Nat.two_pow_pos 32)
  exact h.eat hp (by omega)

/-! ## Bytes -/

/-- What is not compressed yet lies at the front of the buffer. -/
structure Md5Ctx.Filled (ctx : Md5Ctx) (m rest : Bytes) : Prop extends ctx.Ate m rest where
  buffered : rest <+: ctx.buffer
  buflen : ctx.buflen = rest.length

structure Md5Ctx.Holds (ctx : Md5Ctx) (m rest : Bytes) : Prop extends ctx.Filled m rest where
  short : rest.length ≤ 64

/-- The count is right for `bytes` behind `m`: one call with less than `2 ^ 32` of them, or less
than `2 ^ 33` altogether. -/
def Fits (m bytes : Bytes) : Prop := bytes.length < 2 ^ 32 ∨ m.length + bytes.length < 2 ^ 33

theorem Fits.tail {m p q : Bytes} (h : Fits m (p ++ q)) : Fits (m ++ p) q := by
  simp only [Fits, List.length_append] at h ⊢
  omega

theorem Md5Ctx.Filled.length_le {ctx : Md5Ctx} {m rest : Bytes} (h : ctx.Filled m rest) :
    rest.length ≤ 128 := by
  have hle := h.buffered.length_le
  rwa [ctx.size] at hle

/-- Bytes are put behind what is held back. -/
theorem Md5Ctx.Filled.take {ctx : Md5Ctx} {m rest : Bytes} (h : ctx.Filled m rest) (p : Bytes)
    (hp : ctx.buflen + p.length ≤ 128) :
    ctx.memcpy ctx.buflen p = .ok (ctx.put ctx.buflen p) ∧
      Md5Ctx.Filled { ctx.put ctx.buflen p with buflen := ctx.buflen + p.length }
        (m ++ p) (rest ++ p) := by
  obtain ⟨hcpy, hfront⟩ := Md5Ctx.memcpy_behind h.buffered h.buflen.symm p hp
  have hate := h.keep p
  refine ⟨hcpy, ⟨hate.held, hate.counted⟩, hfront, ?_⟩
  rw [List.length_append, ← h.buflen]

/-- The blocks of the buffer are compressed, and what is behind them moved to the front. -/
theorem Md5Ctx.Filled.flush {ctx : Md5Ctx} {m rest : Bytes} (h : ctx.Filled m rest) (e : Endian) :
    ∃ p q, rest = p ++ q ∧ q.length = ctx.buflen % 64 ∧
      md5ProcessBlock e ctx.buffer (wholeLen ctx.buflen) ctx = .ok (ctx.eat p) ∧
      loadAt ctx.buffer (wholeLen ctx.buflen) (ctx.buflen % 64) = .ok q ∧
      (Md5Ctx.put { ctx.eat p with buflen := ctx.buflen % 64 } 0 q).Holds m q := by
  obtain ⟨p, hp⟩ : ∃ p, rest.take (wholeLen ctx.buflen) = p := ⟨_, rfl⟩
  obtain ⟨q, hq⟩ : ∃ q, rest.drop (wholeLen ctx.buflen) = q := ⟨_, rfl⟩
  have hpq : rest = p ++ q := by rw [← hp, ← hq, List.take_append_drop]
  have hplen : p.length = wholeLen ctx.buflen := by
    rw [← hp, List.length_take, h.buflen, wholeLen]
    omega
  have hqlen : q.length = ctx.buflen % 64 := by
    rw [← hq, List.length_drop, h.buflen, wholeLen]
    omega
  have hdvd : 64 ∣ p.length := by
    rw [hplen]
    exact Nat.dvd_mul_left ..
  have hle := h.length_le
  subst hpq
  rw [List.length_append] at hle
  have hrun := md5ProcessBlock_prefix e ctx ((List.prefix_append p q).trans h.buffered) hdvd
  have hmove := loadAt_prefix h.buffered
  rw [hplen] at hrun hmove
  rw [hqlen] at hmove
  have hq128 : q.length ≤ 128 := by omega
  have hfront := (Md5Ctx.memcpy_front { ctx.eat p with buflen := ctx.buflen % 64 } hq128).2
  have heat := h.eat_buffer hdvd (by omega)
  exact ⟨p, q, rfl, hqlen, hrun, hmove, ⟨⟨⟨heat.held, heat.counted⟩, hfront, hqlen.symm⟩,
    by omega⟩⟩

/-- How many bytes are taken: all of them, or as many as there is room for. -/
theorem add_bounds {buflen len add : Nat} (h : buflen ≤ 64)
    (hadd : add = if 128 - buflen > len then len else 128 - buflen) :
    add ≤ len ∧ buflen + add ≤ 128 ∧ (add = len ∨ buflen + add = 128) := by
  split at hadd <;> omega

/-- Nothing was held back, or everything taken: one of the two is empty after `fillUp`. -/
theorem fillUp_holds {ctx : Md5Ctx} {m rest : Bytes} (h : ctx.Holds m rest) (e : Endian)
    (bytes : Bytes) :
    ∃ p q ctx' rest', fillUp e bytes ctx = .ok (p.length, ctx') ∧ bytes = p ++ q ∧
      ctx'.Holds (m ++ p) rest' ∧ (q = [] ∨ rest' = []) := by
  by_cases hl : ctx.buflen = 0
  · have hrest : rest = [] := List.length_eq_zero_iff.mp (h.buflen ▸ hl)
    refine ⟨[], bytes, ctx, rest, ?_, rfl, ?_, .inr hrest⟩
    · rw [fillUp, if_neg (by simp [hl])]
      rfl
    · rwa [List.append_nil]
  · obtain ⟨add, hadd⟩ : ∃ add, add =
        if 128 - ctx.buflen > bytes.length then bytes.length else 128 - ctx.buflen := ⟨_, rfl⟩
    obtain ⟨hle, hroom, hall⟩ := add_bounds (h.buflen ▸ h.short) hadd
    have htake : (bytes.take add).length = add := by
      rw [List.length_take]
      omega
    have hload : loadAt bytes 0 add = .ok (bytes.take add) := loadAt_ok (by omega)
    obtain ⟨hcpy, hfilled⟩ := h.toFilled.take (bytes.take add) (by omega)
    rw [htake] at hfilled
    by_cases hbig : ctx.buflen + add > 64
    · obtain ⟨p, q, -, hqlen, hrun, hmove, hholds⟩ := hfilled.flush e
      have hq128 : 0 + q.length ≤ 128 := by omega
      refine ⟨bytes.take add, bytes.drop add, _, q, ?_, (List.take_append_drop ..).symm, hholds, ?_⟩
      · rw [fillUp, if_pos hl]
        simp only [← hadd, htake, hload, hcpy, bind, Except.bind]
        refine (if_pos hbig).trans ?_
        simp only [Md5Ctx.put_buflen, hrun, Md5Ctx.eat_buflen, Md5Ctx.eat_buffer, hmove,
          Md5Ctx.memcpy_ok _ hq128]
        rfl
      · -- with bytes left over, the buffer was full
        rcases hall with hend | hend
        · exact .inl (List.drop_eq_nil_of_le (by omega))
        · refine .inr (List.length_eq_zero_iff.mp ?_)
          rw [hqlen]
          show (ctx.buflen + add) % 64 = 0
          omega
    · refine ⟨bytes.take add, bytes.drop add, _, _, ?_, (List.take_append_drop ..).symm,
        ⟨hfilled, ?_⟩, .inl (List.drop_eq_nil_of_le (by omega))⟩
      · rw [fillUp, if_pos hl]
        simp only [← hadd, htake, hload, hcpy, bind, Except.bind]
        exact if_neg hbig
      · rw [List.length_append, htake, ← h.buflen]
        omega

/-- One block of the caller's bytes, by way of the buffer. -/
theorem Md5Ctx.Holds.copy {ctx : Md5Ctx} {m p : Bytes} (h : ctx.Holds m []) (hp : p.length = 64) :
    ((ctx.put 0 p).eat p).Holds (m ++ p) [] := by
  have hate : (ctx.put 0 p).Ate (m ++ p) (p ++ []) := by
    have := h.toAte.keep p
    rw [List.append_nil]
    exact ⟨this.held, this.counted⟩
  have heat := hate.eat_buffer (by omega) (by omega)
  exact ⟨⟨heat, List.nil_prefix, h.buflen⟩, h.short⟩

/-- The loop leaves at least one byte, and at most a block. -/
theorem copyBlocks_holds {ctx : Md5Ctx} {m : Bytes} (e : Endian) (bytes : Bytes)
    (h : ctx.Holds m []) :
    ∃ p q ctx', copyBlocks e bytes ctx = .ok (q, ctx') ∧ bytes = p ++ q ∧
      ctx'.Holds (m ++ p) [] ∧ q.length ≤ 64 := by
  obtain ⟨n, hn⟩ : ∃ n, bytes.length = n := ⟨_, rfl⟩
  induction n using Nat.strong_induction_on generalizing bytes ctx m with
  | _ n ih =>
    by_cases hlen : 64 < bytes.length
    · have htake : (bytes.take 64).length = 64 := by
        rw [List.length_take]
        omega
      have hload : loadAt bytes 0 64 = .ok (bytes.take 64) := loadAt_ok (by omega)
      obtain ⟨hcpy, hfront⟩ := ctx.memcpy_front (show (bytes.take 64).length ≤ 128 by omega)
      have hrun := md5ProcessBlock_prefix e (ctx.put 0 (bytes.take 64)) hfront (by omega)
      rw [htake] at hrun
      obtain ⟨p, q, ctx', hcopy, hsplit, hholds, hq⟩ := ih (bytes.drop 64).length
        (by rw [List.length_drop]; omega) (bytes.drop 64) (h.copy htake) rfl
      refine ⟨bytes.take 64 ++ p, q, ctx', ?_, ?_, ?_, hq⟩
      · rw [copyBlocks, if_pos hlen]
        simp only [hload, hcpy, hrun, hcopy, bind, Except.bind]
      · rw [List.append_assoc, ← hsplit, List.take_append_drop]
      · rwa [← List.append_assoc]
    · refine ⟨[], bytes, ctx, ?_, rfl, ?_, by omega⟩
      · rw [copyBlocks, if_neg hlen]
        rfl
      · rwa [List.append_nil]

theorem wholeBlocks_holds (arch : Arch) {ctx : Md5Ctx} {m rest : Bytes} (addr : Nat) {bytes : Bytes}
    (h : ctx.Holds m rest) (hempty : bytes = [] ∨ rest = []) (hfits : Fits m bytes) :
    ∃ p q ctx', wholeBlocks arch addr bytes ctx = .ok (q, ctx') ∧ bytes = p ++ q ∧
      ctx'.Holds (m ++ p) rest ∧ q.length ≤ 64 := by
  by_cases hlen : bytes.length ≥ 64
  · have hrest : rest = [] := by
      rcases hempty with rfl | hrest
      · cases hlen
      · exact hrest
    subst hrest
    by_cases halign : arch.unalignedP addr = true
    · rw [wholeBlocks, if_pos hlen, if_pos halign]
      exact copyBlocks_holds arch.endian bytes h
    · -- the blocks are compressed where they lie
      have hplen : (bytes.take (wholeLen bytes.length)).length = wholeLen bytes.length := by
        rw [List.length_take, wholeLen]
        omega
      have hdvd : 64 ∣ (bytes.take (wholeLen bytes.length)).length := by
        rw [hplen]
        exact Nat.dvd_mul_left ..
      have hrun := md5ProcessBlock_prefix arch.endian ctx
        (List.take_prefix (wholeLen bytes.length) bytes) hdvd
      rw [hplen] at hrun
      have hate : ctx.Ate (m ++ bytes.take (wholeLen bytes.length))
          (bytes.take (wholeLen bytes.length) ++ []) := by
        have := h.toAte.keep (bytes.take (wholeLen bytes.length))
        rwa [List.append_nil]
      have hroom : ((m ++ bytes.take (wholeLen bytes.length)).length -
          (bytes.take (wholeLen bytes.length) ++ []).length) % 2 ^ 32 +
          (bytes.take (wholeLen bytes.length)).length < 2 ^ 33 := by
        have hle : wholeLen bytes.length ≤ bytes.length := Nat.div_mul_le_self ..
        have hmod := Nat.mod_lt m.length (Nat.two_pow_pos 32)
        have hmod' := Nat.mod_le m.length (2 ^ 32)
        rw [List.append_nil, List.length_append, Nat.add_sub_cancel, hplen]
        rcases hfits with hfits | hfits <;> omega
      refine ⟨bytes.take (wholeLen bytes.length), bytes.drop (wholeLen bytes.length),
        ctx.eat (bytes.take (wholeLen bytes.length)), ?_, (List.take_append_drop ..).symm,
        ⟨⟨hate.eat hdvd hroom, h.buffered, h.buflen⟩, h.short⟩, ?_⟩
      · rw [wholeBlocks, if_pos hlen, if_neg halign]
        simp only [hrun, bind, Except.bind]
        rfl
      · rw [List.length_drop, wholeLen]
        omega
  · refine ⟨[], bytes, ctx, ?_, rfl, ?_, by omega⟩
    · rw [wholeBlocks, if_neg hlen]
      rfl
    · rwa [List.append_nil]

theorem keepRest_holds {ctx : Md5Ctx} {m rest : Bytes} (e : Endian) {bytes : Bytes}
    (h : ctx.Holds m rest) (hempty : bytes = [] ∨ rest = []) (hlen : bytes.length ≤ 64) :
    ∃ ctx' rest', keepRest e bytes ctx = .ok ctx' ∧ ctx'.Holds (m ++ bytes) rest' := by
  by_cases hpos : bytes.length > 0
  · have hrest : rest = [] := by
      rcases hempty with rfl | hrest
      · cases hpos
      · exact hrest
    subst hrest
    have hzero : ctx.buflen = 0 := h.buflen
    obtain ⟨hcpy, hfront⟩ := ctx.memcpy_front (show bytes.length ≤ 128 by omega)
    have hate : ctx.Ate (m ++ bytes) bytes := h.toAte.keep bytes
    by_cases hfull : bytes.length = 64
    · -- a whole block that was not aligned
      have hrun := md5ProcessBlock_prefix e (ctx.put 0 bytes) hfront (by omega)
      have hload : loadAt (ctx.put 0 bytes).buffer 64 0 = .ok [] := by
        rw [loadAt_ok (by rw [Md5Ctx.size]; decide), List.take_zero]
      rw [hfull] at hrun
      have hnil : 0 + ([] : Bytes).length ≤ 128 := by decide
      have hcopy := h.copy hfull
      refine ⟨{ ((ctx.put 0 bytes).eat bytes).put 0 [] with buflen := 0 }, [], ?_,
        ⟨⟨⟨hcopy.held, hcopy.counted⟩, List.nil_prefix, rfl⟩, Nat.zero_le _⟩⟩
      rw [keepRest, if_pos hpos]
      simp only [hzero, hcpy, hfull, hrun, bind, Except.bind,
        Md5Ctx.eat_buffer, hload, Md5Ctx.memcpy_ok _ hnil]
      rfl
    · refine ⟨{ ctx.put 0 bytes with buflen := 0 + bytes.length }, bytes, ?_,
        ⟨⟨⟨hate.held, hate.counted⟩, hfront, Nat.zero_add _⟩, hlen⟩⟩
      rw [keepRest, if_pos hpos]
      simp only [hzero, hcpy, bind, Except.bind]
      exact if_neg (by omega)
  · refine ⟨ctx, rest, ?_, ?_⟩
    · rw [keepRest, if_neg hpos]
      rfl
    · rw [List.length_eq_zero_iff.mp (Nat.le_zero.mp (Nat.not_lt.mp hpos)), List.append_nil]
      exact h

/-- `md5_process_bytes`: whatever was given before, wherever the bytes lie and however many they
are, no access leaves its array, and the context holds them behind what it held. -/
theorem md5ProcessBytes_holds (arch : Arch) {ctx : Md5Ctx} {m rest : Bytes} (addr : Nat)
    {bytes : Bytes} (h : ctx.Holds m rest) (hfits : Fits m bytes) :
    ∃ ctx' rest', md5ProcessBytes arch addr bytes ctx = .ok ctx' ∧
      ctx'.Holds (m ++ bytes) rest' := by
  obtain ⟨p₁, q₁, ctx₁, rest₁, hrun₁, rfl, h₁, hempty₁⟩ := fillUp_holds h arch.endian bytes
  obtain ⟨p₂, q₂, ctx₂, hrun₂, rfl, h₂, hlen⟩ :=
    wholeBlocks_holds arch (addr + p₁.length) h₁ hempty₁ hfits.tail
  have hempty₂ : q₂ = [] ∨ rest₁ = [] := by
    rcases hempty₁ with hnil | hnil
    · exact .inl (List.append_eq_nil_iff.mp hnil).2
    · exact .inr hnil
  obtain ⟨ctx₃, rest₃, hrun₃, h₃⟩ := keepRest_holds arch.endian h₂ hempty₂ hlen
  refine ⟨ctx₃, rest₃, ?_, ?_⟩
  · rw [md5ProcessBytes, hrun₁]
    simp only [bind, Except.bind, List.drop_left, hrun₂, hrun₃]
  · rwa [← List.append_assoc, ← List.append_assoc]

/-! ## The digest -/

theorem md5InitCtx_holds (ctx : Md5Ctx) : (md5InitCtx ctx).Holds [] [] :=
  ⟨⟨⟨Held.nil _, rfl⟩, List.nil_prefix, rfl⟩, Nat.zero_le _⟩

theorem ofNat_byte {a b : Nat} (h : a % 256 = b % 256) : UInt8.ofNat a = UInt8.ofNat b := by
  apply UInt8.toNat_inj.mp
  simpa using h

theorem wordBytes_little (v : UInt32) :
    wordBytes v .little = (List.range 4).map fun i => UInt8.ofNat (v.toNat / 256 ^ i) := by
  have hbyte (w : UInt32) (i : Nat) (h : w.toNat = v.toNat / 256 ^ i) :
      w.toUInt8 = UInt8.ofNat (v.toNat / 256 ^ i) := by
    apply UInt8.toNat_inj.mp
    rw [UInt32.toNat_toUInt8, h, UInt8.toNat_ofNat']
  have hshift (w : UInt32) : (v >>> w).toNat = v.toNat / 2 ^ (w.toNat % 32) := by
    rw [UInt32.toNat_shiftRight, Nat.shiftRight_eq_div_pow]
  rw [wordBytes, hbyte v 0 (Nat.div_one _).symm, hbyte (v >>> 8) 1 (hshift 8),
    hbyte (v >>> 16) 2 (hshift 16), hbyte (v >>> 24) 3 (hshift 24)]
  rfl

/-- The second word gets the bits that are shifted out of the first. -/
theorem shifted_high (t0 t1 : UInt32) :
    ((t1 <<< 3) ||| (t0 >>> 29)).toNat = 8 * (t1.toNat % 2 ^ 29) + t0.toNat / 2 ^ 29 := by
  have ht0 := t0.toNat_lt
  have hmul : (t1 <<< 3).toNat = t1.toNat * 8 % 2 ^ 32 := by
    rw [UInt32.toNat_shiftLeft, Nat.shiftLeft_eq]
    rfl
  have hleft : (t1 <<< 3).toNat = (t1.toNat % 2 ^ 29) <<< 3 := by
    rw [hmul, Nat.shiftLeft_eq]
    omega
  have hright : (t0 >>> 29).toNat = t0.toNat / 2 ^ 29 := by
    rw [UInt32.toNat_shiftRight, Nat.shiftRight_eq_div_pow]
    rfl
  rw [UInt32.toNat_or, hleft, hright, ← Nat.shiftLeft_add_eq_or_of_lt (by omega),
    Nat.shiftLeft_eq, Nat.mul_comm]

/-- The two words of the length, as they are stored. -/
theorem lengthBytes_eq {ctx : Md5Ctx} {n : Nat} (h : ctx.Counted n) :
    wordBytes (ctx.total0 <<< 3) .little ++
      wordBytes ((ctx.total1 <<< 3) ||| (ctx.total0 >>> 29)) .little = Rfc1321.lengthBytes n := by
  have h0 := ctx.total0.toNat_lt
  have h1 := ctx.total1.toNat_lt
  have hlow : (ctx.total0 <<< 3).toNat = 8 * ctx.total0.toNat % 2 ^ 32 := by
    rw [UInt32.toNat_shiftLeft, Nat.shiftLeft_eq, Nat.mul_comm]
    rfl
  unfold Md5Ctx.Counted at h
  rw [wordBytes_little, wordBytes_little, shifted_high, hlow, Rfc1321.lengthBytes]
  simp only [List.range_succ, List.range_zero, List.nil_append, List.map_cons, List.map_nil,
    List.cons_append, List.cons.injEq, and_true]
  refine ⟨?_, ?_, ?_, ?_, ?_, ?_, ?_, ?_⟩ <;> exact ofNat_byte (by omega)

/-- `pad` of `md5_finish_ctx` -/
def padOf (bytes : Nat) : Nat := if bytes ≥ 56 then 64 + 56 - bytes else 56 - bytes

theorem padOf_bounds {bytes : Nat} (h : bytes ≤ 64) :
    0 < padOf bytes ∧ padOf bytes ≤ 64 ∧ bytes + padOf bytes + 8 ≤ 128 ∧
      (bytes + padOf bytes + 8) % 64 = 0 := by
  unfold padOf
  split <;> omega

theorem fillbuf_take {n : Nat} (h : 0 < n) (h' : n ≤ 64) :
    fillbuf.take n = 0x80 :: List.replicate (n - 1) 0 := by
  obtain ⟨k, rfl⟩ := Nat.exists_eq_succ_of_ne_zero (Nat.ne_of_gt h)
  rw [fillbuf, List.take_succ_cons, List.take_replicate, Nat.succ_sub_one,
    Nat.min_eq_left (by omega)]

/-- What is held back decides how the message is padded. -/
theorem padded_eq {m rest : Bytes} (hdvd : 64 ∣ m.length - rest.length)
    (hle : rest.length ≤ m.length) (hshort : rest.length ≤ 64) :
    Rfc1321.padded m =
      m ++ fillbuf.take (padOf rest.length) ++ Rfc1321.lengthBytes m.length := by
  have hpad := padOf_bounds hshort
  have hzeros : padOf rest.length - 1 = (119 - m.length % 64) % 64 := by omega
  rw [Rfc1321.padded, fillbuf_take hpad.1 hpad.2.1, hzeros]

/-- What is held back counts at the end. -/
theorem Md5Ctx.Holds.count_rest {ctx : Md5Ctx} {m rest : Bytes} (h : ctx.Holds m rest) :
    (ctx.count rest.length).Counted m.length := by
  have hlt := Nat.mod_lt (m.length - rest.length) (Nat.two_pow_pos 32)
  have hshort := h.short
  have hroom : (m.length - rest.length) % 2 ^ 32 + rest.length < 2 ^ 33 := by omega
  have hcount := h.counted.count hroom
  rwa [Nat.sub_add_cancel h.held.length_le] at hcount

/-- Three pieces, the padding and the two words of the length, behind each other. -/
theorem Md5Ctx.memcpy_three {ctx : Md5Ctx} {rest : Bytes} {off₁ off₂ off₃ : Nat}
    (h : rest <+: ctx.buffer) (a b c : Bytes) (h₁ : rest.length = off₁)
    (h₂ : off₁ + a.length = off₂) (h₃ : off₂ + b.length = off₃) (hlen : off₃ + c.length ≤ 128) :
    ctx.memcpy off₁ a = .ok (ctx.put off₁ a) ∧
      (ctx.put off₁ a).memcpy off₂ b = .ok ((ctx.put off₁ a).put off₂ b) ∧
      ((ctx.put off₁ a).put off₂ b).memcpy off₃ c =
        .ok (((ctx.put off₁ a).put off₂ b).put off₃ c) ∧
      rest ++ a ++ b ++ c <+: (((ctx.put off₁ a).put off₂ b).put off₃ c).buffer := by
  have h₂' : (rest ++ a).length = off₂ := by rw [List.length_append, h₁, h₂]
  have h₃' : (rest ++ a ++ b).length = off₃ := by rw [List.length_append, h₂', h₃]
  obtain ⟨hcpy₁, hbuf₁⟩ := Md5Ctx.memcpy_behind h h₁ a (by omega)
  obtain ⟨hcpy₂, hbuf₂⟩ := Md5Ctx.memcpy_behind hbuf₁ h₂' b (by omega)
  obtain ⟨hcpy₃, hbuf₃⟩ := Md5Ctx.memcpy_behind hbuf₂ h₃' c hlen
  exact ⟨hcpy₁, hcpy₂, hcpy₃, hbuf₃⟩

theorem md5FinishCtx_holds {ctx : Md5Ctx} {m rest : Bytes} (h : ctx.Holds m rest) (e : Endian) :
    ∃ d, md5FinishCtx e ctx = .ok d ∧ d.bytes = Rfc1321.digest m := by
  obtain ⟨hpos, hpad, hroom, hmod⟩ := padOf_bounds h.short
  have hle := h.held.length_le
  obtain ⟨fill, hfill⟩ : ∃ fill, fill = fillbuf.take (padOf rest.length) := ⟨_, rfl⟩
  obtain ⟨low, hlow⟩ : ∃ low, low =
    wordBytes (swap e ((ctx.count rest.length).total0 <<< 3)) e := ⟨_, rfl⟩
  obtain ⟨high, hhigh⟩ : ∃ high, high = wordBytes (swap e
    (((ctx.count rest.length).total1 <<< 3) ||| ((ctx.count rest.length).total0 >>> 29))) e :=
      ⟨_, rfl⟩
  have hlength : low ++ high = Rfc1321.lengthBytes m.length := by
    rw [hlow, hhigh, wordBytes_swap, wordBytes_swap, lengthBytes_eq h.count_rest]
  have hfilllen : fill.length = padOf rest.length := by
    rw [hfill, List.length_take]
    exact Nat.min_eq_left hpad
  have hlowlen : low.length = 4 := hlow ▸ length_wordBytes ..
  have hhighlen : high.length = 4 := hhigh ▸ length_wordBytes ..
  have hload : loadAt fillbuf 0 (padOf rest.length) = .ok fill := by
    rw [loadAt_ok (by rw [Nat.zero_add]; exact hpad), hfill]
    rfl
  -- the padding and the length go behind what is held back
  have hbuf : rest <+: (ctx.count rest.length).buffer := h.buffered
  obtain ⟨hcpy₁, hcpy₂, hcpy₃, hbuf₃⟩ := Md5Ctx.memcpy_three hbuf fill low high rfl
    (congrArg _ hfilllen) (congrArg _ hlowlen) (by omega)
  have hall : (rest ++ fill ++ low ++ high).length = rest.length + padOf rest.length + 8 := by
    simp only [List.length_append, hfilllen, hlowlen, hhighlen, Nat.add_assoc]
  have hdvd : 64 ∣ (rest ++ fill ++ low ++ high).length := by omega
  obtain ⟨last, hlast⟩ : ∃ last, last = (((ctx.count rest.length).put rest.length fill).put
    (rest.length + padOf rest.length) low).put (rest.length + padOf rest.length + 4) high :=
      ⟨_, rfl⟩
  rw [← hlast] at hcpy₃ hbuf₃
  have hrun := md5ProcessBlock_prefix e last hbuf₃ hdvd
  rw [hall] at hrun
  have hheld := ((h.held.keep fill).keep low).keep high
  rw [← List.append_nil (rest ++ fill ++ low ++ high)] at hheld
  have hregs := (hheld.flush (by decide) hdvd).absorbed
  have hmessage : m ++ fill ++ low ++ high = Rfc1321.padded m := by
    rw [padded_eq h.held.dvd hle h.short, ← hfill, ← hlength, ← List.append_assoc]
  rw [hmessage] at hregs
  refine ⟨md5ReadCtx e (last.eat (rest ++ fill ++ low ++ high)), ?_, ?_⟩
  · have hif : (if rest.length ≥ 56 then 64 + 56 - rest.length else 56 - rest.length) =
        padOf rest.length := rfl
    rw [md5FinishCtx, h.buflen]
    simp only [hif, hload, hcpy₁, Md5Ctx.put_total0, Md5Ctx.put_total1, ← hlow, hcpy₂, ← hhigh,
      hcpy₃, hrun, bind, Except.bind]
    rfl
  · rw [Rfc1321.digest, ← hregs, hlast]
    simp only [md5ReadCtx, wordBytes_swap]
    rfl

/-- `md5_buffer` computes the digest of RFC 1321. Neither what was on the stack, nor the byte order
and the alignment that the host asks for, nor where the message lies makes a difference, and no
access leaves its array. -/
theorem md5Buffer_eq (arch : Arch) (ctx : Md5Ctx) (addr : Nat) {m : Bytes}
    (h : m.length < 2 ^ 33) :
    ∃ d, md5Buffer arch ctx addr m = .ok d ∧ d.bytes = Rfc1321.digest m := by
  have hfits : Fits [] m := .inr (by rw [List.length_nil]; omega)
  obtain ⟨ctx', rest, hrun, hholds⟩ :=
    md5ProcessBytes_holds arch addr (md5InitCtx_holds ctx) hfits
  obtain ⟨d, hfinish, hd⟩ := md5FinishCtx_holds hholds arch.endian
  refine ⟨d, ?_, hd⟩
  simp only [md5Buffer, hrun, bind, Except.bind, hfinish]

/-- A context that was not initialised. -/
def blankCtx : Md5Ctx :=
  { A := 1, B := 2, C := 3, D := 4, total0 := 5, total1 := 6, buflen := 77,
    buffer := List.replicate 128 7, size := List.length_replicate }

example : (md5Buffer ⟨.big, false, 4⟩ blankCtx 1 (ascii "abc")).map Digest.bytes =
    .ok [0x90, 0x01, 0x50, 0x98, 0x3c, 0xd2, 0x4f, 0xb0, 0xd6, 0x96, 0x3f, 0x7d, 0x28, 0xe1, 0x7f,
      0x72] := by
  decide +kernel

/-! ## Messages in pieces -/

/-- A message that is given to `md5_process_bytes` piece by piece, each with its address. -/
def md5Pieces (arch : Arch) (ctx : Md5Ctx) (pieces : List (Nat × Bytes)) : Except Fault Digest := do
  let ctx ← pieces.foldlM (fun ctx piece => md5ProcessBytes arch piece.1 piece.2 ctx)
    (md5InitCtx ctx)
  md5FinishCtx arch.endian ctx

theorem foldlM_holds (arch : Arch) {pieces : List (Nat × Bytes)}
    (h : ∀ piece ∈ pieces, piece.2.length < 2 ^ 32) {ctx : Md5Ctx} {m rest : Bytes}
    (hholds : ctx.Holds m rest) :
    ∃ ctx' rest', pieces.foldlM (fun ctx piece => md5ProcessBytes arch piece.1 piece.2 ctx) ctx =
      .ok ctx' ∧ ctx'.Holds (m ++ pieces.flatMap Prod.snd) rest' := by
  induction pieces generalizing ctx m rest with
  | nil =>
    refine ⟨ctx, rest, rfl, ?_⟩
    rwa [List.flatMap_nil, List.append_nil]
  | cons piece pieces ih =>
    obtain ⟨ctx₁, rest₁, hrun₁, h₁⟩ := md5ProcessBytes_holds arch piece.1 hholds
      (.inl (h piece List.mem_cons_self))
    obtain ⟨ctx₂, rest₂, hrun₂, h₂⟩ := ih (fun p hp => h p (List.mem_cons_of_mem piece hp)) h₁
    refine ⟨ctx₂, rest₂, ?_, ?_⟩
    · simp only [List.foldlM_cons, hrun₁, bind, Except.bind, hrun₂]
    · rwa [List.flatMap_cons, ← List.append_assoc]

/-- However a message is cut, and wherever its pieces lie, its digest is the same. -/
theorem md5Pieces_eq (arch : Arch) (ctx : Md5Ctx) {pieces : List (Nat × Bytes)}
    (h : ∀ piece ∈ pieces, piece.2.length < 2 ^ 32) :
    ∃ d, md5Pieces arch ctx pieces = .ok d ∧
      d.bytes = Rfc1321.digest (pieces.flatMap Prod.snd) := by
  obtain ⟨ctx', rest, hrun, hholds⟩ := foldlM_holds arch h (md5InitCtx_holds ctx)
  obtain ⟨d, hfinish, hd⟩ := md5FinishCtx_holds hholds arch.endian
  refine ⟨d, ?_, hd⟩
  simp only [md5Pieces, hrun, bind, Except.bind, hfinish]

theorem md5Pieces_eq_abc :
    ∃ d, md5Pieces ⟨.little, false, 4⟩ blankCtx [(1, ascii "a"), (2, []), (6, ascii "bc")] = .ok d ∧
      d.bytes = Rfc1321.digest (ascii "abc") :=
  md5Pieces_eq ⟨.little, false, 4⟩ blankCtx (by decide)

end WakeOnLan
