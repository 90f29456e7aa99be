import WakeOnLan.CLib.Scanf
import WakeOnLan.Packet

/-!
# WakeOnLan.Magic

`magic.c`: the packet buffer and `magic_assemble`, which fills it from the text of an address and
of an optional password.

* `magicCreate`   — a buffer for a packet with or without a password; its bytes are uninitialised.
* `macOctets`     — the address `magic_assemble` reads: six `%2x` fields, else the ethers table.
* `passwdOctets`  — the password it reads: six `%2x` fields.
* `magicAssemble` — returns `0`, `-1` (no address) or `-2` (bad password) and the buffer.

`uninit` gives the content of fresh heap memory and `ethers` stands for `ether_hostton`.
-/

namespace WakeOnLan

open CLib

structure Magic where
  packet : Bytes
  size : Nat
  deriving DecidableEq

def magicCreate (uninit : Nat → UInt8) (withPasswd : Bool) : Magic :=
  let size := if withPasswd then sizeofSecureon else sizeofPacket
  { packet := xmalloc uninit size, size := size }

/-- `"%2x:%2x:%2x:%2x:%2x:%2x"` -/
def addrFmt : List Directive :=
  [.num 16 (some 2), .lit 58, .num 16 (some 2), .lit 58, .num 16 (some 2), .lit 58,
   .num 16 (some 2), .lit 58, .num 16 (some 2), .lit 58, .num 16 (some 2)]

/-- `"%2x-%2x-%2x-%2x-%2x-%2x"` -/
def secureonFmt : List Directive :=
  [.num 16 (some 2), .lit 45, .num 16 (some 2), .lit 45, .num 16 (some 2), .lit 45,
   .num 16 (some 2), .lit 45, .num 16 (some 2), .lit 45, .num 16 (some 2)]

/-- The cast of a scanned value to `unsigned char`. -/
def toUChar : Value → UInt8
  | .num v => v.toUInt8
  | .str _ => 0

/-- The array `m` after the address has been parsed or looked up. -/
def macOctets (ethers : Bytes → Option Octets) (macStr : Bytes) : Option Bytes :=
  let r := sscanf macStr addrFmt
  if r.ret ≠ macLen then (ethers macStr).map Octets.bytes else some (r.values.map toUChar)

/-- The array `s` after the password has been parsed. -/
def passwdOctets (passwdStr : Bytes) : Option Bytes :=
  let r := sscanf passwdStr secureonFmt
  if r.ret ≠ magicSecureon then none else some (r.values.map toUChar)

/-- The resize of the buffer to the packet type. -/
def accommodate (uninit : Nat → UInt8) (m : Magic) (passwd : Bool) : Magic :=
  if passwd ∧ m.size ≠ sizeofSecureon then
    { packet := xrealloc uninit m.packet sizeofSecureon, size := sizeofSecureon }
  else if ¬ passwd ∧ m.size ≠ sizeofPacket then
    { packet := xrealloc uninit m.packet sizeofPacket, size := sizeofPacket }
  else m

/-- The `memset` of the header and the two loops over the address. -/
def fillHeaderAndData (p addr : Bytes) : Bytes :=
  let p := writeAt p 0 (List.replicate magicHeader 0xff)
  (List.range magicTimes).foldl (fun p j => writeAt p (magicHeader + j * macLen) addr) p

def magicAssemble (ethers : Bytes → Option Octets) (uninit : Nat → UInt8) (m : Magic)
    (macStr passwdStr : Option Bytes) : Int × Magic :=
  match macStr with
  | none => (-1, m)
  | some mac =>
    match macOctets ethers mac with
    | none => (-1, m)
    | some addr =>
      let m := accommodate uninit m passwdStr.isSome
      let p := fillHeaderAndData m.packet addr
      match passwdStr with
      | none => (0, { m with packet := p })
      | some passwd =>
        match passwdOctets passwd with
        | none => (-2, { m with packet := p })
        | some s => (0, { m with packet := writeAt p sizeofPacket s })

end WakeOnLan
