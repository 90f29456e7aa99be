import WakeOnLan.MagicCorrect

/-!
# WakeOnLan.MagicFailure

What a call of `magic_assemble` that fails leaves in the buffer.

* `magicAssemble_no_address`   — `-1` comes before the buffer is touched.
* `magicAssemble_bad_password` — `-2` comes behind the resize and behind the header and the address;
  only the password is missing.
* `magicAssemble_ret` / `magicAssemble_packet` — the result of a later call, and the buffer after a
  later success, do not depend on it.
-/

namespace WakeOnLan

open CLib

section Failure

variable {m : Magic} {ethers : Bytes → Option Octets} {uninit : Nat → UInt8}
  {macStr passwdStr : Option Bytes}

theorem magicAssemble_no_address (h : (magicAssemble ethers uninit m macStr passwdStr).1 = -1) :
    (magicAssemble ethers uninit m macStr passwdStr).2 = m := by
  cases macStr with
  | none => rfl
  | some mac =>
    cases ha : macOctets ethers mac with
    | none => simp only [magicAssemble, ha]
    | some addr =>
      cases passwdStr with
      | none => simp [magicAssemble, ha] at h
      | some passwd =>
        cases hp : passwdOctets passwd with
        | none => simp [magicAssemble, ha, hp] at h
        | some s => simp [magicAssemble, ha, hp] at h

/-- The buffer after the address `addr` has been written and the password has not. -/
def unfinished (addr : Octets) (tail : Bytes) : Magic :=
  { packet := magicPacket addr none ++ tail, size := sizeofSecureon }

theorem magicAssemble_bad_password (hm : m.WF)
    (h : (magicAssemble ethers uninit m macStr passwdStr).1 = -2) :
    ∃ mac addr, macStr = some mac ∧ addressOf ethers mac = some addr ∧
      (magicAssemble ethers uninit m macStr passwdStr).2 =
        unfinished addr ((accommodate uninit m true).packet.drop sizeofPacket) := by
  cases macStr with
  | none => simp [magicAssemble] at h
  | some mac =>
    cases ha : addressOf ethers mac with
    | none => simp [magicAssemble, addressOf_none.mp ha] at h
    | some addr =>
      have hoct := addressOf_some ha
      refine ⟨mac, addr, rfl, ha, ?_⟩
      cases passwdStr with
      | none => simp [magicAssemble, hoct] at h
      | some passwd =>
        cases hp : passwdOctets passwd with
        | some s => simp [magicAssemble, hoct, hp] at h
        | none =>
          obtain ⟨⟨hlen, -⟩, hsize⟩ := accommodate_wf hm uninit true
          have hle : sizeofPacket ≤ (accommodate uninit m true).packet.length := by
            rw [hlen, hsize]
            decide
          simp only [magicAssemble, hoct, hp, Option.isSome_some, fillHeaderAndData_eq hle]
          rw [unfinished, hsize, if_pos rfl]

/-- A buffer of the size for a password is kept as it is. -/
theorem accommodate_secureon (hm : m.size = 108) : accommodate uninit m true = m := by
  have hsize : m.size = sizeofSecureon := hm
  simp [accommodate, hsize]

/-- The unfinished buffer is the one before exactly if that had the size, the header and the address
already. -/
theorem unfinished_eq_iff (m : Magic) (uninit : Nat → UInt8) (addr : Octets) :
    unfinished addr ((accommodate uninit m true).packet.drop sizeofPacket) = m ↔
      m.size = 108 ∧ m.packet.take 102 = magicPacket addr none := by
  have hpacket : (magicPacket addr none).length = 102 := length_magicPacket addr none
  constructor
  · intro h
    rw [← h]
    refine ⟨rfl, ?_⟩
    rw [unfinished, ← hpacket, List.take_left]
  · rintro ⟨hsize, htake⟩
    rw [accommodate_secureon hsize, unfinished, ← htake, show sizeofPacket = 102 from rfl,
      List.take_append_drop, show sizeofSecureon = 108 from rfl, ← hsize]

/-- What a call returns does not depend on the buffer. -/
theorem magicAssemble_ret (m m' : Magic) (ethers : Bytes → Option Octets) (uninit : Nat → UInt8)
    (macStr passwdStr : Option Bytes) :
    (magicAssemble ethers uninit m macStr passwdStr).1 =
      (magicAssemble ethers uninit m' macStr passwdStr).1 := by
  cases macStr with
  | none => rfl
  | some mac =>
    cases ha : macOctets ethers mac with
    | none => simp only [magicAssemble, ha]
    | some addr =>
      cases passwdStr with
      | none => simp only [magicAssemble, ha]
      | some passwd =>
        cases hp : passwdOctets passwd with
        | none => simp only [magicAssemble, ha, hp]
        | some s => simp only [magicAssemble, ha, hp]

/-- A later call that succeeds leaves the same buffer, whatever it finds. -/
theorem magicAssemble_success {m m' : Magic} (hm : m.WF) (hm' : m'.WF)
    (h : (magicAssemble ethers uninit m macStr passwdStr).1 = 0) :
    magicAssemble ethers uninit m' macStr passwdStr =
      magicAssemble ethers uninit m macStr passwdStr := by
  cases macStr with
  | none => cases h
  | some mac =>
    cases hpacket : packetOf ethers mac passwdStr with
    | none =>
      rcases magicAssemble_no_packet (m := m) hpacket uninit with hret | hret
      · rw [hret] at h
        cases h
      · rw [hret] at h
        cases h
    | some packet => rw [magicAssemble_packet hm hpacket, magicAssemble_packet hm' hpacket]

end Failure

/-- What is asked of a call: if there is no address the buffer is as before; if the password is bad
only the password is missing from the buffer; and no later call shows which it was. -/
structure FailsSafely (ethers : Bytes → Option Octets) (uninit : Nat → UInt8) (m : Magic)
    (macStr passwdStr : Option Bytes) : Prop where
  no_address : (magicAssemble ethers uninit m macStr passwdStr).1 = -1 →
    (magicAssemble ethers uninit m macStr passwdStr).2 = m
  bad_password : (magicAssemble ethers uninit m macStr passwdStr).1 = -2 →
    ∃ mac addr, macStr = some mac ∧ addressOf ethers mac = some addr ∧
      (magicAssemble ethers uninit m macStr passwdStr).2.size = 108 ∧
      (magicAssemble ethers uninit m macStr passwdStr).2.packet.take 102 = magicPacket addr none ∧
      (m.size = 108 → (magicAssemble ethers uninit m macStr passwdStr).2.packet.drop 102 =
        m.packet.drop 102) ∧
      ((magicAssemble ethers uninit m macStr passwdStr).2 = m ↔
        m.size = 108 ∧ m.packet.take 102 = magicPacket addr none)
  later : ∀ ethers' uninit' macStr' passwdStr',
    let left := (magicAssemble ethers uninit m macStr passwdStr).2
    (magicAssemble ethers' uninit' left macStr' passwdStr').1 =
        (magicAssemble ethers' uninit' m macStr' passwdStr').1 ∧
      ((magicAssemble ethers' uninit' m macStr' passwdStr').1 = 0 →
        magicAssemble ethers' uninit' left macStr' passwdStr' =
          magicAssemble ethers' uninit' m macStr' passwdStr')

/-- **A failed call leaves the buffer alone, or unfinished, and no later call sees the
difference.** -/
theorem magicAssemble_fails_safely {m : Magic} (hm : Reachable m)
    (ethers : Bytes → Option Octets) (uninit : Nat → UInt8) (macStr passwdStr : Option Bytes) :
    FailsSafely ethers uninit m macStr passwdStr where
  no_address := magicAssemble_no_address
  bad_password := by
    intro h
    obtain ⟨mac, addr, hmac, haddr, hleft⟩ := magicAssemble_bad_password hm.wf h
    have hpacket : (magicPacket addr none).length = 102 := length_magicPacket addr none
    refine ⟨mac, addr, hmac, haddr, ?_⟩
    rw [hleft]
    refine ⟨rfl, ?_, ?_, unfinished_eq_iff m uninit addr⟩
    · rw [unfinished, ← hpacket, List.take_left]
    · intro hsize
      rw [unfinished, ← hpacket, List.drop_left, accommodate_secureon hsize, hpacket]
      rfl
  later := by
    intro ethers' uninit' macStr' passwdStr'
    have hleft := magicAssemble_wf hm.wf ethers uninit macStr passwdStr
    exact ⟨magicAssemble_ret .., fun h => magicAssemble_success hm.wf hleft h⟩

/-- A call with a bad password on a new buffer for a plain packet. -/
theorem magicAssemble_fails_safely_zz :
    FailsSafely (fun _ => none) (fun _ => 7) (magicCreate (fun _ => 9) false)
      (some (ascii "aa:bb:cc:dd:ee:ff")) (some (ascii "zz")) :=
  magicAssemble_fails_safely (.create (fun _ => 9) false) _ _ _ _

/-- That call returns `-2`, and it has resized the buffer and written to it. -/
theorem magicAssemble_not_atomic :
    let m := magicCreate (fun _ => 9) false
    let r := magicAssemble (fun _ => none) (fun _ => 7) m (some (ascii "aa:bb:cc:dd:ee:ff"))
      (some (ascii "zz"))
    Reachable m ∧ r.1 = -2 ∧ r.2.size ≠ m.size ∧ r.2.packet.take 102 ≠ m.packet := by
  refine ⟨.create (fun _ => 9) false, ?_⟩
  decide +kernel

end WakeOnLan
