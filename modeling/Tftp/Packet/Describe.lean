import Tftp.Address
import Tftp.Packet.Encode

/-!
# Packets in log lines

`Packet.describe` is the one-line form of a packet that log lines show, together with the address of
the peer it comes from or goes to.
-/

namespace Tftp

/-- A text in double quotes. -/
def quoted (s : Bytes) : Bytes := [34] ++ s ++ [34]

namespace Options

/-- The options present, each as ` name=value`. -/
def describe (o : Options) : Bytes :=
  o.pairs.flatMap fun (name, value) => [32] ++ name ++ [61] ++ value

end Options

namespace Packet

/-- The packet and its peer in one line. -/
def describe (p : Packet) (peer : Address) : Bytes :=
  match p with
  | request direction what =>
    (match direction with
      | .read => ascii "RRQ "
      | .write => ascii "WRQ ") ++
      peer.text ++ [32] ++ quoted what.filename ++ [32] ++ what.mode.name ++
      what.options.describe
  | data block payload =>
    ascii "DATA " ++ peer.text ++ [32] ++ Decimal.print block.toNat ++ ascii " (" ++
      Decimal.print payload.length ++ ascii " bytes)"
  | ack block => ascii "ACK " ++ peer.text ++ [32] ++ Decimal.print block.toNat
  | error code message =>
    ascii "ERROR " ++ peer.text ++ [32] ++ Decimal.print code.value.toNat ++ [32] ++
      quoted message
  | oack options => ascii "OACK " ++ peer.text ++ options.describe

end Packet

end Tftp
