import Tftp.Bytes

/-!
# Packets

The six kinds of TFTP packet. A read and a write request carry the same fields and differ in their
direction only, so they are one constructor.

A value of `Packet` need not be one that can be sent and read back: a file name may be empty or
contain a NUL, an error code may be one that the protocol does not define, and a mode may be none
of the three modes. The parser never produces such a value.
-/

namespace Tftp

/-- Whether a transfer takes a file from the server or puts one there. -/
inductive Direction
  | read
  | write
  deriving DecidableEq, Repr

/-- Transfer modes. `other` stands for a mode outside the protocol. -/
inductive Mode
  | netascii
  | octet
  | mail
  | other
  deriving DecidableEq, Repr

namespace Mode

/-- The name of a mode in a request. -/
def name : Mode → Bytes
  | netascii => ascii "netascii"
  | octet => ascii "octet"
  | mail => ascii "mail"
  | other => ascii "unknown"

/-- The mode of a name, whatever its letter case. -/
def ofName? (s : Bytes) : Option Mode :=
  let s := lower s
  if s = netascii.name then some netascii
  else if s = octet.name then some octet
  else if s = mail.name then some mail
  else none

end Mode

/-- The number by which an ERROR packet says what went wrong. -/
structure ErrorCode where
  value : UInt16
  deriving DecidableEq, Repr

namespace ErrorCode

/-- Not defined; the message says what happened. -/
def notDefined : ErrorCode := ⟨0⟩
def fileNotFound : ErrorCode := ⟨1⟩
def accessViolation : ErrorCode := ⟨2⟩
def diskFull : ErrorCode := ⟨3⟩
def illegalOperation : ErrorCode := ⟨4⟩
def unknownTransferId : ErrorCode := ⟨5⟩
def fileExists : ErrorCode := ⟨6⟩
def noSuchUser : ErrorCode := ⟨7⟩
/-- Terminate transfer due to option negotiation. -/
def invalidOptions : ErrorCode := ⟨8⟩

end ErrorCode

/-- The options of a request or of its acknowledgement; an absent one is not negotiated. -/
structure Options where
  /-- `blksize`: bytes in a full block. -/
  blockSize : Option UInt16 := none
  /-- `timeout`: seconds before a retransmission. -/
  timeout : Option UInt8 := none
  /-- `tsize`: bytes in the whole file. -/
  transferSize : Option UInt64 := none
  deriving DecidableEq, Repr

namespace Options

def isEmpty (o : Options) : Bool :=
  o.blockSize.isNone && o.timeout.isNone && o.transferSize.isNone

end Options

/-- What a request asks for. -/
structure Request where
  filename : Bytes
  mode : Mode
  options : Options
  deriving DecidableEq, Repr

/-- A TFTP packet. -/
inductive Packet
  /-- RRQ or WRQ. -/
  | request (direction : Direction) (what : Request)
  /-- DATA: one block of the file. -/
  | data (block : UInt16) (payload : Bytes)
  /-- ACK of one block, or of a write request as block 0. -/
  | ack (block : UInt16)
  /-- ERROR: the transfer is over. -/
  | error (code : ErrorCode) (message : Bytes)
  /-- OACK: the options that the server agrees to. -/
  | oack (options : Options)
  deriving DecidableEq, Repr

namespace Packet

/-- The number that starts the packet on the wire. -/
def opcode : Packet → UInt16
  | request .read _ => 1
  | request .write _ => 2
  | data .. => 3
  | ack _ => 4
  | error .. => 5
  | oack _ => 6

end Packet

end Tftp
