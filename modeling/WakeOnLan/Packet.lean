import WakeOnLan.CLib.Memory

/-!
# WakeOnLan.Packet

The magic packet as the network card sees it: a header of six `0xff` bytes, sixteen copies of the
hardware address, and, with SecureON, the password. This is the abstract description; what
`magic_assemble` leaves in its buffer is compared with it in `WakeOnLan.MagicCorrect`.
-/

namespace WakeOnLan

open CLib

def magicHeader : Nat := 6
def macLen : Nat := 6
def magicTimes : Nat := 16
def magicSecureon : Nat := 6

/-- `sizeof (struct packet)` -/
def sizeofPacket : Nat := magicHeader + magicTimes * macLen

/-- `sizeof (struct secureon)` -/
def sizeofSecureon : Nat := sizeofPacket + magicSecureon

/-- Six octets: a hardware address or a SecureON password. -/
structure Octets where
  bytes : Bytes
  len : bytes.length = macLen
  deriving DecidableEq

def magicPacket (addr : Octets) (passwd : Option Octets) : Bytes :=
  List.replicate magicHeader 0xff ++ (List.replicate magicTimes addr.bytes).flatten ++
    (passwd.map Octets.bytes).getD []

theorem length_magicPacket (addr : Octets) (passwd : Option Octets) :
    (magicPacket addr passwd).length = if passwd.isSome then sizeofSecureon else sizeofPacket := by
  cases passwd with
  | none => simp [magicPacket, addr.len, sizeofPacket]
  | some p =>
    simp [magicPacket, addr.len, p.len, sizeofPacket, sizeofSecureon, macLen, magicSecureon]
    omega

end WakeOnLan
