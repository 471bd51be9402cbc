import Tftp.Bytes

/-!
# Phases of a transfer

Where a transfer stands. A transfer is over in `writeEnd`, `readEnd` and `failed`.
-/

namespace Tftp

/-- Where a transfer stands. -/
inductive Phase
  /-- Nothing has been sent yet. -/
  | initial
  /-- The OACK of a read is out, and ACK 0 is to come. -/
  | waitingAfterOack
  /-- A full block is out, and its ACK is to come. -/
  | waitingAck
  /-- The last block is out, and its ACK is to come. -/
  | waitingLastAck
  /-- The next block of a write is to come. -/
  | waitingData
  /-- The whole file has been received. -/
  | writeEnd
  /-- The whole file has been sent. -/
  | readEnd
  /-- The transfer has failed. -/
  | failed
  deriving DecidableEq, Repr

namespace Phase

def name : Phase → Bytes
  | initial => ascii "INITIAL"
  | waitingAfterOack => ascii "WAITING_AFTER_OACK"
  | waitingAck => ascii "WAITING_ACK"
  | waitingLastAck => ascii "WAITING_LAST_ACK"
  | waitingData => ascii "WAITING_DATA"
  | writeEnd => ascii "WRQ_END"
  | readEnd => ascii "RRQ_END"
  | failed => ascii "ERROR"

/-- All phases, in the order of their numbers. -/
def all : List Phase :=
  [initial, waitingAfterOack, waitingAck, waitingLastAck, waitingData, writeEnd, readEnd, failed]

/-- The phase with the given number. -/
def ofNumber? : Int → Option Phase
  | .ofNat n => all[n]?
  | .negSucc _ => none

/-- The name of the phase with the given number. -/
def nameOf (n : Int) : Bytes :=
  match ofNumber? n with
  | some phase => phase.name
  | none => ascii "UNKNOWN"

def isOver : Phase → Bool
  | writeEnd | readEnd | failed => true
  | _ => false

end Phase

end Tftp
