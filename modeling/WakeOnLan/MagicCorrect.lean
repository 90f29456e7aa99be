import WakeOnLan.Magic

/-!
# WakeOnLan.MagicCorrect

What `magic_assemble` leaves in the buffer, whatever calls came before.

* `Magic.WF`           — the buffer is as long as `size` says, and `size` is one of the two packet
  sizes. `magic_create` establishes it and every call keeps it (`Reachable.wf`).
* `magicAssemble_ok`   — on such a buffer, an address and a usable password give exactly the
  packet of `WakeOnLan.Packet`.
* `packetOf`           — the packet of a target as a function of its text and password alone.
* `macOctets_hexFields` / `passwdOctets_hexFields` — every rendering of six octets is read back.
-/

namespace WakeOnLan

open CLib

structure Magic.WF (m : Magic) : Prop where
  len : m.packet.length = m.size
  size : m.size = 102 ∨ m.size = 108

/-- The buffers a program can hold: one from `magic_create` after any calls of `magic_assemble`,
each with its own strings, ethers table and heap. -/
inductive Reachable : Magic → Prop where
  | create (uninit : Nat → UInt8) (withPasswd : Bool) : Reachable (magicCreate uninit withPasswd)
  | assemble {m : Magic} (ethers : Bytes → Option Octets) (uninit : Nat → UInt8)
      (macStr passwdStr : Option Bytes) :
      Reachable m → Reachable (magicAssemble ethers uninit m macStr passwdStr).2

/-! ## Reading six octets -/

theorem toUChar_toUInt32 (b : UInt8) : toUChar (.num b.toUInt32) = b := by
  simp [toUChar]

theorem macOctets_length {ethers : Bytes → Option Octets} {mac addr : Bytes}
    (h : macOctets ethers mac = some addr) : addr.length = macLen := by
  simp only [macOctets] at h
  split at h
  · obtain ⟨e, _, rfl⟩ := Option.map_eq_some_iff.mp h
    exact e.len
  · rename_i hr
    cases h
    rw [List.length_map]
    exact length_of_ret (not_not.mp hr)

theorem passwdOctets_length {passwd s : Bytes} (h : passwdOctets passwd = some s) :
    s.length = magicSecureon := by
  simp only [passwdOctets] at h
  split at h
  · cases h
  · rename_i hr
    cases h
    rw [List.length_map]
    exact length_of_ret (not_not.mp hr)

/-- Six `%2x` fields read back any rendering of six octets. -/
theorem sscanf_hexFields {sep : UInt8} (hsep : isAlnum sep = false) (h0 : sep ≠ 0)
    {o : Octets} {t : Bytes} (h : HexFields sep o.bytes t) :
    sscanf t (hexFields sep 6) = ⟨o.bytes.map fun b => .num b.toUInt32, true, none⟩ := by
  have hne : o.bytes ≠ [] := by
    intro he
    have := o.len
    rw [he] at this
    cases this
  have := scan_hexFields hsep hne h
  rwa [o.len, ← h.cstr_eq h0] at this

theorem macOctets_hexFields {o : Octets} {t : Bytes} (h : HexFields 58 o.bytes t)
    (ethers : Bytes → Option Octets) : macOctets ethers t = some o.bytes := by
  have hs : sscanf t addrFmt = _ := sscanf_hexFields (by decide) (by decide) h
  simp [macOctets, hs, Scan.ret, o.len, toUChar_toUInt32, Function.comp_def]

theorem passwdOctets_hexFields {o : Octets} {t : Bytes} (h : HexFields 45 o.bytes t) :
    passwdOctets t = some o.bytes := by
  have hs : sscanf t secureonFmt = _ := sscanf_hexFields (by decide) (by decide) h
  simp [passwdOctets, hs, Scan.ret, o.len, macLen, magicSecureon, toUChar_toUInt32,
    Function.comp_def]

/-- A text whose six-field scan fails is looked up, however many fields were converted. -/
theorem macOctets_ethers {ethers : Bytes → Option Octets} {t : Bytes} {o : Octets}
    (hr : (sscanf t addrFmt).ret ≠ 6) (he : ethers t = some o) :
    macOctets ethers t = some o.bytes := by
  have hr' : (sscanf t addrFmt).ret ≠ macLen := hr
  simp [macOctets, hr', he]

/-! ## The buffer -/

theorem accommodate_wf {m : Magic} (hm : m.WF) (uninit : Nat → UInt8) (passwd : Bool) :
    (accommodate uninit m passwd).WF ∧
      (accommodate uninit m passwd).size = if passwd then sizeofSecureon else sizeofPacket := by
  obtain ⟨hlen, hsize⟩ := hm
  unfold accommodate
  split
  · rename_i h
    refine ⟨⟨by simp, .inr rfl⟩, by simp [h.1]⟩
  · split
    · rename_i h
      refine ⟨⟨by simp, .inl rfl⟩, by simp [h.1]⟩
    · rename_i h1 h2
      refine ⟨⟨hlen, hsize⟩, ?_⟩
      cases passwd with
      | true => simpa using h1
      | false => simpa using h2

theorem fillHeaderAndData_def (p addr : Bytes) :
    fillHeaderAndData p addr =
      writeChunks (writeAt p 0 (List.replicate magicHeader 0xff)) magicHeader macLen
        (fun _ => addr) magicTimes := rfl

theorem length_fillHeaderAndData (p addr : Bytes) :
    (fillHeaderAndData p addr).length = p.length := by
  rw [fillHeaderAndData_def, length_writeChunks, length_writeAt]

theorem fillHeaderAndData_eq {p : Bytes} (hp : sizeofPacket ≤ p.length) (a : Octets) :
    fillHeaderAndData p a.bytes = magicPacket a none ++ p.drop sizeofPacket := by
  have hheader : writeAt p 0 (List.replicate magicHeader 0xff) =
      List.replicate magicHeader 0xff ++ p.drop magicHeader := by
    rw [writeAt_eq (by simp [sizeofPacket] at hp ⊢; omega)]
    simp
  have hfit : magicHeader + magicTimes * macLen ≤
      (List.replicate magicHeader (0xff : UInt8) ++ p.drop magicHeader).length := by
    simp [sizeofPacket] at hp ⊢
    omega
  have hchunks := writeChunks_eq _ (fun _ => a.len) hfit
  have hdrop : (List.replicate magicHeader (0xff : UInt8) ++ p.drop magicHeader).drop
      (magicHeader + magicTimes * macLen) = p.drop sizeofPacket := by
    rw [List.drop_append, List.length_replicate, List.drop_of_length_le (by simp),
      List.nil_append, List.drop_drop]
    congr 1
  rw [fillHeaderAndData_def, hheader, hchunks, hdrop, List.map_const', List.length_range]
  simp [magicPacket]

theorem magicCreate_wf (uninit : Nat → UInt8) (withPasswd : Bool) :
    (magicCreate uninit withPasswd).WF := by
  cases withPasswd with
  | true => exact ⟨by simp [magicCreate], .inr rfl⟩
  | false => exact ⟨by simp [magicCreate], .inl rfl⟩

theorem magicAssemble_wf {m : Magic} (hm : m.WF) (ethers : Bytes → Option Octets)
    (uninit : Nat → UInt8) (macStr passwdStr : Option Bytes) :
    (magicAssemble ethers uninit m macStr passwdStr).2.WF := by
  obtain ⟨⟨hlen, hsize⟩, _⟩ := accommodate_wf hm uninit passwdStr.isSome
  cases macStr with
  | none => exact hm
  | some mac =>
    simp only [magicAssemble]
    split
    · exact hm
    · cases passwdStr with
      | none => exact ⟨by simpa [length_fillHeaderAndData] using hlen, hsize⟩
      | some passwd =>
        simp only
        split
        · exact ⟨by simpa [length_fillHeaderAndData] using hlen, hsize⟩
        · exact ⟨by simpa [length_fillHeaderAndData] using hlen, hsize⟩

theorem Reachable.wf {m : Magic} (h : Reachable m) : m.WF := by
  induction h with
  | create uninit withPasswd => exact magicCreate_wf uninit withPasswd
  | assemble ethers uninit macStr passwdStr _ ih =>
    exact magicAssemble_wf ih ethers uninit macStr passwdStr

/-- The buffer after a successful call, with nothing left of what was in it. -/
def assembled (addr : Octets) (passwd : Option Octets) : Magic :=
  { packet := magicPacket addr passwd,
    size := if passwd.isSome then sizeofSecureon else sizeofPacket }

/-- The password argument as `magic_assemble` reads it: none, or the six octets of its text. -/
inductive ReadsPasswd : Option Bytes → Option Octets → Prop where
  | none : ReadsPasswd none none
  | some {t : Bytes} {o : Octets} : passwdOctets t = some o.bytes → ReadsPasswd (some t) (some o)

theorem magicAssemble_ok {m : Magic} (hm : m.WF) {ethers : Bytes → Option Octets} {mac : Bytes}
    {addr : Octets} (ha : macOctets ethers mac = some addr.bytes) {pw : Option Bytes}
    {passwd : Option Octets} (hp : ReadsPasswd pw passwd) (uninit : Nat → UInt8) :
    magicAssemble ethers uninit m (some mac) pw = (0, assembled addr passwd) := by
  obtain ⟨⟨hlen, hwf⟩, hsize⟩ := accommodate_wf hm uninit pw.isSome
  cases hp with
  | none =>
    have hs : (accommodate uninit m false).size = sizeofPacket := hsize
    have hl : (accommodate uninit m false).packet.length = sizeofPacket := by
      rw [← hs]; exact hlen
    simp only [magicAssemble, ha, Option.isSome_none, fillHeaderAndData_eq (Nat.le_of_eq hl.symm)]
    simp [assembled, hs, List.drop_of_length_le (Nat.le_of_eq hl)]
  | @some t o ht =>
    have hs : (accommodate uninit m true).size = sizeofSecureon := hsize
    have hl : (accommodate uninit m true).packet.length = sizeofSecureon := by
      rw [← hs]; exact hlen
    have hle : sizeofPacket ≤ (accommodate uninit m true).packet.length := by
      rw [hl]; decide
    have hpk : (magicPacket addr none).length = sizeofPacket := length_magicPacket addr none
    have htail : (List.drop sizeofPacket (accommodate uninit m true).packet).length =
        o.bytes.length := by
      rw [List.length_drop, hl, o.len]; rfl
    have hw := writeAt_append (magicPacket addr none) [] htail
    rw [hpk, List.append_nil, List.append_nil] at hw
    simp only [magicAssemble, ha, Option.isSome_some, ht, fillHeaderAndData_eq hle, hw]
    simp [assembled, hs, magicPacket]

/-! ## The packet of a target -/

/-- The address that a text stands for, by itself or in the ethers table. -/
def addressOf (ethers : Bytes → Option Octets) (mac : Bytes) : Option Octets :=
  match h : macOctets ethers mac with
  | none => none
  | some a => some ⟨a, macOctets_length h⟩

def passwordOf (passwd : Bytes) : Option Octets :=
  match h : passwdOctets passwd with
  | none => none
  | some s => some ⟨s, passwdOctets_length h⟩

/-- The packet of a target and an optional password, if both can be read. -/
def packetOf (ethers : Bytes → Option Octets) (mac : Bytes) : Option Bytes → Option Bytes
  | none => (addressOf ethers mac).map fun a => magicPacket a none
  | some t =>
    match addressOf ethers mac, passwordOf t with
    | some a, some o => some (magicPacket a (some o))
    | _, _ => none

theorem addressOf_none {ethers : Bytes → Option Octets} {mac : Bytes} :
    addressOf ethers mac = none ↔ macOctets ethers mac = none := by
  unfold addressOf
  split
  · rename_i h
    simp [h]
  · rename_i h
    simp [h]

theorem addressOf_some {ethers : Bytes → Option Octets} {mac : Bytes} {a : Octets}
    (h : addressOf ethers mac = some a) : macOctets ethers mac = some a.bytes := by
  unfold addressOf at h
  split at h
  · cases h
  · rename_i hm
    cases h
    exact hm

theorem passwordOf_none {passwd : Bytes} :
    passwordOf passwd = none ↔ passwdOctets passwd = none := by
  unfold passwordOf
  split
  · rename_i h
    simp [h]
  · rename_i h
    simp [h]

theorem passwordOf_some {passwd : Bytes} {o : Octets} (h : passwordOf passwd = some o) :
    passwdOctets passwd = some o.bytes := by
  unfold passwordOf at h
  split at h
  · cases h
  · rename_i hp
    cases h
    exact hp

section Packet

variable {m : Magic} {ethers : Bytes → Option Octets} {mac : Bytes} {pw : Option Bytes}

/-- What a target with a packet leaves in the buffer, whatever the buffer held. -/
theorem magicAssemble_packet (hm : m.WF) {packet : Bytes} (h : packetOf ethers mac pw = some packet)
    (uninit : Nat → UInt8) :
    magicAssemble ethers uninit m (some mac) pw = (0, ⟨packet, packet.length⟩) := by
  cases pw with
  | none =>
    obtain ⟨a, ha, rfl⟩ := Option.map_eq_some_iff.mp h
    rw [magicAssemble_ok hm (addressOf_some ha) .none, length_magicPacket]
    rfl
  | some t =>
    simp only [packetOf] at h
    split at h
    · rename_i a o ha ho
      cases h
      rw [magicAssemble_ok hm (addressOf_some ha) (.some (passwordOf_some ho)), length_magicPacket]
      rfl
    · cases h

theorem magicAssemble_no_packet (h : packetOf ethers mac pw = none) (uninit : Nat → UInt8) :
    (magicAssemble ethers uninit m (some mac) pw).1 = -1 ∨
      (magicAssemble ethers uninit m (some mac) pw).1 = -2 := by
  cases ha : macOctets ethers mac with
  | none => exact .inl (by simp [magicAssemble, ha])
  | some addr =>
    cases pw with
    | none =>
      have := addressOf_none.mp (Option.map_eq_none_iff.mp h)
      rw [ha] at this
      cases this
    | some t =>
      cases hp : passwdOctets t with
      | none => exact .inr (by simp [magicAssemble, ha, hp])
      | some s =>
        simp only [packetOf] at h
        split at h
        · cases h
        · rename_i hnone
          cases haddr : addressOf ethers mac with
          | none => rw [addressOf_none.mp haddr] at ha; cases ha
          | some a =>
            cases hpass : passwordOf t with
            | none => rw [passwordOf_none.mp hpass] at hp; cases hp
            | some o => exact absurd hpass (hnone a o haddr)

end Packet

/-- The password argument is a text that renders six octets, or both are absent. -/
inductive RendersPasswd : Option Bytes → Option Octets → Prop where
  | none : RendersPasswd none none
  | some {t : Bytes} {o : Octets} : HexFields 45 o.bytes t → RendersPasswd (some t) (some o)

theorem RendersPasswd.reads {pw : Option Bytes} {passwd : Option Octets}
    (h : RendersPasswd pw passwd) : ReadsPasswd pw passwd := by
  cases h with
  | none => exact .none
  | some ht => exact .some (passwdOctets_hexFields ht)

/-- **The buffer keeps no history.** On every buffer a program can hold, length and size agree;
and the next call with a rendering of an address (or a text only the ethers table knows) and of an
optional password succeeds and leaves exactly the packet of that address and password. -/
theorem magicAssemble_no_history {m : Magic} (hm : Reachable m) :
    m.packet.length = m.size ∧ (m.size = 102 ∨ m.size = 108) ∧
    ∀ (ethers : Bytes → Option Octets) (uninit : Nat → UInt8) (addr : Octets)
      (passwd : Option Octets) (mac : Bytes) (pw : Option Bytes),
      (HexFields 58 addr.bytes mac ∨
        ((sscanf mac addrFmt).ret ≠ 6 ∧ ethers mac = some addr)) →
      RendersPasswd pw passwd →
      let r := magicAssemble ethers uninit m (some mac) pw
      r.1 = 0 ∧ r.2.size = (if passwd.isSome then 108 else 102) ∧
        r.2.packet = List.replicate 6 0xff ++ (List.replicate 16 addr.bytes).flatten ++
          (passwd.map Octets.bytes).getD [] := by
  refine ⟨hm.wf.len, hm.wf.size, ?_⟩
  intro ethers uninit addr passwd mac pw hmac hpw
  have ha : macOctets ethers mac = some addr.bytes := by
    rcases hmac with h | ⟨hr, he⟩
    · exact macOctets_hexFields h ethers
    · exact macOctets_ethers hr he
  rw [magicAssemble_ok hm.wf ha hpw.reads uninit]
  exact ⟨rfl, rfl, rfl⟩

/-- After a call that failed on its password, `0:1A:b:0:0:fF` with `1-2-3-4-5-06` still gives its
own packet of 108 bytes. -/
theorem magicAssemble_no_history_after_failure :
    let m := (magicAssemble (fun _ => none) (fun _ => 7) (magicCreate (fun _ => 9) false)
      (some (ascii "aa:bb:cc:dd:ee:ff")) (some (ascii "zz"))).2
    let r := magicAssemble (fun _ => none) (fun _ => 3) m (some (ascii "0:1A:b:0:0:fF"))
      (some (ascii "1-2-3-4-5-06"))
    r.1 = 0 ∧ r.2.size = 108 ∧
      r.2.packet = List.replicate 6 0xff ++
        (List.replicate 16 [0, 0x1a, 0xb, 0, 0, 0xff]).flatten ++ [1, 2, 3, 4, 5, 6] := by
  have hmac : HexFields 58 [0, 0x1a, 0xb, 0, 0, 0xff] (ascii "0:1A:b:0:0:fF") :=
    hexFields_intercalate 58 (["0", "1A", "b", "0", "0", "fF"].map ascii) rfl (by decide +kernel)
  have hpw : HexFields 45 [1, 2, 3, 4, 5, 6] (ascii "1-2-3-4-5-06") :=
    hexFields_intercalate 45 (["1", "2", "3", "4", "5", "06"].map ascii) rfl (by decide +kernel)
  exact (magicAssemble_no_history
    (.assemble (fun _ => none) (fun _ => 7) (some (ascii "aa:bb:cc:dd:ee:ff")) (some (ascii "zz"))
      (.create (fun _ => 9) false))).2.2 (fun _ => none) (fun _ => 3)
    ⟨[0, 0x1a, 0xb, 0, 0, 0xff], rfl⟩ (some ⟨[1, 2, 3, 4, 5, 6], rfl⟩) _ _ (.inl hmac) (.some hpw)

end WakeOnLan
