import WakeOnLan.CLib.HexFields
import WakeOnLan.MagicCorrect

/-!
# WakeOnLan.MagicSyntax

Which addresses and passwords `magic_assemble` accepts.

* `IsMac` / `IsPasswd` — the documented syntax: six groups of one or two hexadecimal digits with
  single colons, or hyphens, between them, up to surrounding white space.
* `FollowsSyntax`      — a call accepts exactly that syntax.
* `followsSyntax_iff`  — it does so unless a conversion reads a text liberally.
-/

namespace WakeOnLan

open CLib

def IsMac (mac : Bytes) : Prop := Padded 58 6 (cstr mac)

def IsPasswd (passwd : Bytes) : Prop := Padded 45 6 (cstr passwd)

/-- What `magic_assemble` returns for a buffer, an address and a password when the ethers table
knows no name. -/
def assembleRet (uninit : Nat → UInt8) (m : Magic) (mac : Bytes) (pw : Option Bytes) : Int :=
  (magicAssemble (fun _ => none) uninit m (some mac) pw).1

structure FollowsSyntax (uninit : Nat → UInt8) (m : Magic) (mac : Bytes) (pw : Option Bytes) :
    Prop where
  accepts : assembleRet uninit m mac pw = 0 ↔ IsMac mac ∧ ∀ p, pw = some p → IsPasswd p
  unknown : ¬ IsMac mac → assembleRet uninit m mac pw = -1
  lookedUp : ¬ IsMac mac → ∀ ethers, macOctets ethers mac = (ethers mac).map Octets.bytes
  badPasswd : IsMac mac → ∀ p, pw = some p → ¬ IsPasswd p → assembleRet uninit m mac pw = -2

section Syntax

variable {uninit : Nat → UInt8} {m : Magic} {ethers : Bytes → Option Octets} {mac p : Bytes}
  {pw : Option Bytes}

/-- A text is read as an address exactly when it can be cut at its colons. -/
theorem addrFmt_ret_iff (mac : Bytes) :
    (sscanf mac addrFmt).ret = macLen ↔ ∃ fs r, Cut 58 6 (cstr mac) fs r :=
  (sscanf_ret_eq (n := 6) (by decide)).trans (scan_hexFields_iff 58 5 (cstr mac))

theorem secureonFmt_ret_iff (p : Bytes) :
    (sscanf p secureonFmt).ret = magicSecureon ↔ ∃ fs r, Cut 45 6 (cstr p) fs r :=
  (sscanf_ret_eq (n := 6) (by decide)).trans (scan_hexFields_iff 45 5 (cstr p))

theorem macOctets_of_cut (h : ∃ fs r, Cut 58 6 (cstr mac) fs r)
    (ethers : Bytes → Option Octets) :
    macOctets ethers mac = some ((sscanf mac addrFmt).values.map toUChar) := by
  simp [macOctets, (addrFmt_ret_iff mac).mpr h]

theorem macOctets_of_no_cut (h : ¬ ∃ fs r, Cut 58 6 (cstr mac) fs r)
    (ethers : Bytes → Option Octets) : macOctets ethers mac = (ethers mac).map Octets.bytes := by
  simp [macOctets, (addrFmt_ret_iff mac).not.mpr h]

theorem passwdOctets_isSome_iff : (∃ s, passwdOctets p = some s) ↔
    ∃ fs r, Cut 45 6 (cstr p) fs r := by
  rw [← secureonFmt_ret_iff]
  by_cases h : (sscanf p secureonFmt).ret = magicSecureon
  · simp [passwdOctets, h]
  · simp [passwdOctets, h]

theorem assembleRet_unknown (h : ¬ ∃ fs r, Cut 58 6 (cstr mac) fs r) :
    assembleRet uninit m mac pw = -1 := by
  simp [assembleRet, magicAssemble, macOctets_of_no_cut h]

theorem assembleRet_passwd (hmac : ∃ fs r, Cut 58 6 (cstr mac) fs r) :
    assembleRet uninit m mac (some p) = if (passwdOctets p).isSome then 0 else -2 := by
  simp only [assembleRet, magicAssemble, macOctets_of_cut hmac]
  cases passwdOctets p with
  | none => rfl
  | some s => rfl

/-- The call succeeds on the texts that can be cut. -/
theorem assembleRet_zero_iff : assembleRet uninit m mac pw = 0 ↔
    (∃ fs r, Cut 58 6 (cstr mac) fs r) ∧
      ∀ p, pw = some p → ∃ fs r, Cut 45 6 (cstr p) fs r := by
  by_cases hmac : ∃ fs r, Cut 58 6 (cstr mac) fs r
  · cases pw with
    | none => simp [hmac, assembleRet, magicAssemble, macOctets_of_cut hmac]
    | some p =>
      simp only [hmac, true_and, Option.some.injEq, forall_eq', assembleRet_passwd hmac]
      rw [← passwdOctets_isSome_iff, ← Option.isSome_iff_exists]
      split
      · rename_i h
        simp [h]
      · rename_i h
        simp [h]
  · simp [hmac, assembleRet_unknown hmac]

theorem assembleRet_bad_passwd (hmac : ∃ fs r, Cut 58 6 (cstr mac) fs r)
    (hp : ¬ ∃ fs r, Cut 45 6 (cstr p) fs r) : assembleRet uninit m mac (some p) = -2 := by
  rw [← passwdOctets_isSome_iff, ← Option.isSome_iff_exists] at hp
  rw [assembleRet_passwd hmac, if_neg hp]

theorem IsMac.cut (h : IsMac mac) : ∃ fs r, Cut 58 6 (cstr mac) fs r := by
  obtain ⟨fs, r, hcut, -⟩ := (padded_iff (by decide)).mp h
  exact ⟨fs, r, hcut⟩

theorem IsPasswd.cut (h : IsPasswd p) : ∃ fs r, Cut 45 6 (cstr p) fs r := by
  obtain ⟨fs, r, hcut, -⟩ := (padded_iff (by decide)).mp h
  exact ⟨fs, r, hcut⟩

theorem FollowsSyntax.isMac (h : FollowsSyntax uninit m mac pw)
    (hcut : ∃ fs r, Cut 58 6 (cstr mac) fs r) : IsMac mac := by
  by_contra hmac
  have hret := h.unknown hmac
  have hset := h.lookedUp hmac fun _ => none
  rw [macOctets_of_cut hcut] at hset
  cases hset

theorem FollowsSyntax.isPasswd (h : FollowsSyntax uninit m mac (some p)) (hmac : IsMac mac)
    (hcut : ∃ fs r, Cut 45 6 (cstr p) fs r) : IsPasswd p := by
  have hret : assembleRet uninit m mac (some p) = 0 :=
    assembleRet_zero_iff.mpr ⟨hmac.cut, by simpa using hcut⟩
  exact (h.accepts.mp hret).2 p rfl

/-- **The syntax that is accepted.** A call keeps to the documented syntax exactly when its
address, and the password that is looked at after a good address, are read plainly or not at all. -/
theorem followsSyntax_iff (uninit : Nat → UInt8) (m : Magic) (mac : Bytes) (pw : Option Bytes) :
    FollowsSyntax uninit m mac pw ↔
      OnlyPlain 58 6 (cstr mac) ∧
        (IsMac mac → ∀ p, pw = some p → OnlyPlain 45 6 (cstr p)) := by
  have hcolon : isAlnum 58 = false := rfl
  have hhyphen : isAlnum 45 = false := rfl
  simp only [onlyPlain_iff hcolon, onlyPlain_iff hhyphen]
  constructor
  · intro h
    refine ⟨h.isMac, ?_⟩
    rintro hmac p rfl
    exact h.isPasswd hmac
  · rintro ⟨hmac, hpw⟩
    refine ⟨?_, ?_, ?_, ?_⟩
    · rw [assembleRet_zero_iff]
      constructor
      · rintro ⟨hcut, hcuts⟩
        exact ⟨hmac hcut, fun p hp => hpw (hmac hcut) p hp (hcuts p hp)⟩
      · rintro ⟨hm, hp⟩
        exact ⟨hm.cut, fun p h => (hp p h).cut⟩
    · exact fun hm => assembleRet_unknown (mt hmac hm)
    · exact fun hm => macOctets_of_no_cut (mt hmac hm)
    · rintro hm p rfl hp
      exact assembleRet_bad_passwd hm.cut (mt (hpw hm p rfl) hp)

end Syntax

theorem hexItem_digit {d : UInt8} {s : Bytes} (hd : isXDigit d = true) :
    HexItem [d] (58 :: s) :=
  .one hd (stops_cons.mpr rfl) fun _ => stops_cons.mpr rfl

theorem cut_seven : Cut 58 6 (ascii "1:2:3:4:5:6:7")
    [([], [49]), ([], [50]), ([], [51]), ([], [52]), ([], [53]), ([], [54])] [58, 55] :=
  have hb : ∀ c ∈ ([] : Bytes), isSpace c = true := by simp
  .field hb (hexItem_digit rfl) <| .field hb (hexItem_digit rfl) <|
    .field hb (hexItem_digit rfl) <| .field hb (hexItem_digit rfl) <|
    .field hb (hexItem_digit rfl) <| .last hb (hexItem_digit rfl)

/-- Of seven groups the first six are taken for an address. -/
theorem not_followsSyntax_seven :
    assembleRet (fun _ => 0) (magicCreate (fun _ => 0) false) (ascii "1:2:3:4:5:6:7") none = 0 ∧
    ¬ FollowsSyntax (fun _ => 0) (magicCreate (fun _ => 0) false) (ascii "1:2:3:4:5:6:7") none := by
  refine ⟨assembleRet_zero_iff.mpr ⟨⟨_, _, cut_seven⟩, by simp⟩, fun h => ?_⟩
  obtain ⟨fs, r, hcut, hplain⟩ := (padded_iff (by decide)).mp (h.isMac ⟨_, _, cut_seven⟩)
  obtain ⟨-, rfl⟩ := cut_seven.unique hcut
  exact absurd (hplain.rest 58 (List.mem_cons_self ..)) (by decide)

end WakeOnLan
