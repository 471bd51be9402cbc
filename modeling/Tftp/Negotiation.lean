import Tftp.Failure

/-!
# Option negotiation

A request may ask for a block size, a timeout and the size of the file. `negotiate` settles the
terms of a transfer from these options, the configuration of the server, the direction, and for a
file that is read its size, if that is known. What is agreed to is acknowledged in an OACK:

* the block size is capped, and refused below `Terms.minBlockSize`;
* the timeout is taken as it is, and refused when it is zero;
* a reader asks for the size of the file by `tsize=0`, and any other value is ignored; a writer
  declares it, and it is echoed only in an OACK that is sent for one of the other options.
-/

namespace Tftp

/-- The policy of a server, the same for all of its transfers. -/
structure Config where
  /-- Milliseconds before a retransmission, unless negotiated. -/
  timeout : Int := 3000
  /-- The largest block size agreed to. -/
  blockSizeLimit : Option UInt16 := none
  /-- How often one packet is retransmitted. -/
  maxRetries : Nat := 100
  /-- Never agree to a timeout. -/
  ignoreTimeout : Bool := false
  /-- Never agree to a block size. -/
  ignoreBlockSize : Bool := false
  /-- Milliseconds between two looks at whether the server is shutting down. -/
  pollInterval : Nat := 100
  deriving DecidableEq, Repr

/-- The terms of one transfer. -/
structure Terms where
  /-- Bytes in a full block; a shorter block is the last. -/
  blockSize : UInt16
  /-- Milliseconds before a retransmission. -/
  timeout : Int
  /-- Bytes in the file, as the reader is told or the writer declares. -/
  transferSize : Option UInt64 := none
  /-- The options that are acknowledged. -/
  oack : Options := {}
  /-- Whether an OACK is sent in place of the first DATA or ACK. -/
  oackRequired : Bool := false
  deriving DecidableEq, Repr

namespace Terms

def defaultBlockSize : UInt16 := 512

def minBlockSize : UInt16 := 8

/-- The largest block size that is agreed to: its DATA still fits into one datagram. -/
def maxBlockSize : UInt16 := 65464

/-- The terms of a transfer before any negotiation. -/
def unnegotiated (config : Config) : Terms :=
  { blockSize := defaultBlockSize, timeout := config.timeout }

end Terms

def Config.capBlockSize (config : Config) (size : UInt16) : UInt16 :=
  let size := min size Terms.maxBlockSize
  match config.blockSizeLimit with
  | some limit => min size limit
  | none => size

namespace Terms

def withBlockSize (config : Config) (requested : Options) (terms : Terms) :
    Except Failure Terms :=
  match requested.blockSize, config.ignoreBlockSize with
  | some size, false =>
    if size < minBlockSize then .error (.transfer (.blockSizeTooSmall size))
    else
      let size := config.capBlockSize size
      .ok { terms with
        blockSize := size
        oack := { terms.oack with blockSize := some size }
        oackRequired := true }
  | _, _ => .ok terms

def withTimeout (config : Config) (requested : Options) (terms : Terms) : Except Failure Terms :=
  match requested.timeout, config.ignoreTimeout with
  | some seconds, false =>
    if seconds = 0 then .error (.transfer .timeoutTooSmall)
    else .ok { terms with
      timeout := 1000 * seconds.toNat
      oack := { terms.oack with timeout := some seconds }
      oackRequired := true }
  | _, _ => .ok terms

/-- Settles the size of the file. -/
def withTransferSize (direction : Direction) (fileSize : Option UInt64) (requested : Options)
    (terms : Terms) : Terms :=
  match direction, requested.transferSize, fileSize with
  | .read, some asked, some size =>
    if asked = 0 then
      { terms with
        transferSize := some size
        oack := { terms.oack with transferSize := some size }
        oackRequired := true }
    else terms
  | .write, some declared, _ =>
    { terms with
      transferSize := some declared
      oack := { terms.oack with transferSize := some declared } }
  | _, _, _ => terms

end Terms

/-- Settles the terms of a transfer. -/
def negotiate (requested : Options) (config : Config) (direction : Direction)
    (fileSize : Option UInt64) : Except Failure Terms := do
  let terms ← (Terms.unnegotiated config).withBlockSize config requested
  let terms ← terms.withTimeout config requested
  return terms.withTransferSize direction fileSize requested

end Tftp
