import Tftp.Decimal

/-!
# Addresses

The two ends of a datagram: an IPv4 address and a port. `Address.text` writes one as
`a.b.c.d:port`; `Ip.ofText?` reads the dotted part strictly: four fields, each a number up to 255
written the way `Decimal.print` writes it.
-/

namespace Tftp

/-- An IPv4 address. -/
structure Ip where
  a : UInt8
  b : UInt8
  c : UInt8
  d : UInt8
  deriving DecidableEq, Repr

/-- An IPv4 address and a port. -/
structure Address where
  ip : Ip
  port : UInt16
  deriving DecidableEq, Repr

namespace Ip

/-- Dotted decimal notation. -/
def text (ip : Ip) : Bytes :=
  Decimal.print ip.a.toNat ++ [46] ++ Decimal.print ip.b.toNat ++ [46] ++
    Decimal.print ip.c.toNat ++ [46] ++ Decimal.print ip.d.toNat

/-- The address as one number, first octet most significant. -/
def toNat (ip : Ip) : Nat :=
  ((ip.a.toNat * 256 + ip.b.toNat) * 256 + ip.c.toNat) * 256 + ip.d.toNat

/-- One field of dotted notation: digits without leading zeros, at most 255. -/
def octet? (s : Bytes) : Option UInt8 :=
  let n := Decimal.read s
  if n ≤ 255 ∧ Decimal.print n = s then some (UInt8.ofNat n) else none

/-- Reads dotted notation of exactly four fields. -/
def ofText? (s : Bytes) : Option Ip :=
  match fields 46 s with
  | [a, b, c, d] => do some ⟨← octet? a, ← octet? b, ← octet? c, ← octet? d⟩
  | _ => none

end Ip

namespace Address

/-- The address as log lines show it. -/
def text (addr : Address) : Bytes := addr.ip.text ++ [58] ++ Decimal.print addr.port.toNat

end Address

end Tftp
