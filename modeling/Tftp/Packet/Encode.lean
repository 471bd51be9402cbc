import Tftp.Decimal
import Tftp.Packet

/-!
# Packets on the wire

`Packet.encode` writes a packet as the bytes of a datagram. Words are big-endian, texts end in a
NUL, and options are pairs of texts in the order `blksize`, `timeout`, `tsize`.
-/

namespace Tftp

/-- A 16-bit word, most significant byte first. -/
def word (w : UInt16) : Bytes := [UInt8.ofNat (w.toNat / 256), UInt8.ofNat (w.toNat % 256)]

def terminated (s : Bytes) : Bytes := s ++ [0]

namespace Options

def blockSizeName : Bytes := ascii "blksize"

def timeoutName : Bytes := ascii "timeout"

def transferSizeName : Bytes := ascii "tsize"

/-- The options present, as names and values, in wire order. -/
def pairs (o : Options) : List (Bytes × Bytes) :=
  (o.blockSize.map fun n => (blockSizeName, Decimal.print n.toNat)).toList ++
  (o.timeout.map fun n => (timeoutName, Decimal.print n.toNat)).toList ++
  (o.transferSize.map fun n => (transferSizeName, Decimal.print n.toNat)).toList

/-- The options as they follow a request or an OACK opcode. -/
def encode (o : Options) : Bytes :=
  o.pairs.flatMap fun (name, value) => terminated name ++ terminated value

end Options

namespace Packet

/-- The datagram of a packet. -/
def encode (p : Packet) : Bytes :=
  word p.opcode ++ match p with
  | request _ what =>
    terminated what.filename ++ terminated what.mode.name ++ what.options.encode
  | data block payload => word block ++ payload
  | ack block => word block
  | error code message => word code.value ++ terminated message
  | oack options => options.encode

end Packet

end Tftp
