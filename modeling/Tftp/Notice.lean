import Tftp.Negotiation
import Tftp.Packet.Describe
import Tftp.Transfer.Phase

/-!
# Log lines

Everything that the server, its transfers and its storage have to say, by what it says; the wording
and the level are functions of it. A debug line is only printed when the log is verbose.
-/

namespace Tftp

/-- How a log line is treated. -/
inductive Level
  | debug
  | info
  | error
  deriving DecidableEq, Repr

/-- One log line. -/
inductive Notice
  | malformed (peer : Address) (why : Bytes)
  | notARequest (p : Packet) (peer : Address)
  | pendingRequest (p : Packet) (peer : Address)
  | accepted (p : Packet) (peer : Address)
  | received (p : Packet) (peer : Address)
  | sending (p : Packet) (peer : Address)
  | negotiated (terms : Terms)
  | started (direction : Direction) (filename : Bytes) (peer : Address) (mode : Mode)
  | completed (direction : Direction) (filename : Bytes) (peer : Address)
  | retransmitting (peer : Address) (attempt : Nat)
  | givingUp (peer : Address)
  | leaving (peer : Address) (phase : Phase)
  | reportNotSent (peer : Address) (why : Bytes)
  | aborted (peer : Address) (why : Bytes)
  | failed (peer : Address) (why : Bytes)
  | notStarted (peer : Address) (why : Bytes)
  | noSocket (peer : Address) (why : Bytes)
  | starting (addr : Address)
  | listening (addr : Address)
  | stopping
  | waiting
  | rootCreated (path : Bytes)
  | opening (peer : Address) (path : Bytes)
  | discarding (path : Bytes)
  | notDiscarded (path : Bytes)
  | usage (program : Bytes)
  | badPort
  | badTimeout
  | badBlockSizeLimit
  | badRetries
  | root (path : Bytes)
  | noRoot
  | serverFailed (why : Bytes)
  deriving DecidableEq, Repr

namespace Notice

/-- How a line is treated. -/
def level : Notice → Level
  | malformed .. | notARequest .. | pendingRequest .. | received .. | sending .. | negotiated ..
  | retransmitting .. | leaving .. => .debug
  | reportNotSent .. | notStarted .. | noSocket .. | notDiscarded .. | serverFailed .. => .error
  | _ => .info

/-- The wording of a line. -/
def text : Notice → Bytes
  | malformed peer why =>
    ascii "Ignoring malformed packet from " ++ peer.text ++ ascii ": " ++ why
  | notARequest p peer => ascii "Ignoring packet which is not a request: " ++ p.describe peer
  | pendingRequest p peer => ascii "Ignoring pending request: " ++ p.describe peer
  | accepted p peer | received p peer => p.describe peer
  | sending p peer => ascii "=> " ++ p.describe peer
  | negotiated terms =>
    ascii "Negotiated block size " ++ Decimal.print terms.blockSize.toNat ++ ascii ", timeout " ++
      Decimal.printInt terms.timeout ++ ascii " ms" ++
      (if terms.oackRequired then ascii ", OACK" ++ terms.oack.describe else [])
  | started .read filename peer mode =>
    ascii "Sending " ++ quoted filename ++ ascii " to " ++ peer.text ++ ascii " in " ++ mode.name ++
      ascii " mode"
  | started .write filename peer mode =>
    ascii "Receiving " ++ quoted filename ++ ascii " from " ++ peer.text ++ ascii " in " ++
      mode.name ++ ascii " mode"
  | completed .read filename peer =>
    ascii "File " ++ quoted filename ++ ascii " sent to " ++ peer.text
  | completed .write filename peer =>
    ascii "File " ++ quoted filename ++ ascii " received from " ++ peer.text
  | retransmitting peer attempt =>
    ascii "Timeout, retransmitting to " ++ peer.text ++ ascii " (attempt " ++
      Decimal.print attempt ++ ascii ")."
  | givingUp peer => ascii "Max retries reached for " ++ peer.text ++ ascii ", giving up."
  | leaving peer phase =>
    ascii "Exiting server session with " ++ peer.text ++ ascii " in state " ++ phase.name
  | reportNotSent peer why => ascii "Failed to send error to " ++ peer.text ++ ascii ": " ++ why
  | aborted peer why => ascii "Transfer with " ++ peer.text ++ ascii " aborted: " ++ why
  | failed peer why => ascii "Transfer with " ++ peer.text ++ ascii " failed: " ++ why
  | notStarted peer why => ascii "Failed to start transfer for " ++ peer.text ++ ascii ": " ++ why
  | noSocket peer why =>
    ascii "Failed to open transfer socket for " ++ peer.text ++ ascii ": " ++ why
  | starting addr => ascii "Starting TFTP server on " ++ addr.text
  | listening addr => ascii "Server listening on " ++ addr.text
  | stopping => ascii "Stopping server..."
  | waiting => ascii "Waiting for client session to terminate..."
  | rootCreated path => ascii "Created root directory " ++ path
  | opening peer path => ascii "Opening file on server for " ++ peer.text ++ ascii ": " ++ path
  | discarding path => ascii "File was not correctly transfered, deleting file " ++ path
  | notDiscarded path => ascii "Failed to delete file " ++ path
  | usage program =>
    ascii "Usage: " ++ program ++
      ascii " [-p port] [-a address] [-t timeout] [-b blksize_limit] [-r retries]\n" ++
      ascii "       [--ignore-client-timeout] [--ignore-client-blksize] " ++
      ascii "[--read-only | --write-only] [-v] root_dirpath"
  | badPort => ascii "Invalid port number. Port should be between 1 and 65535."
  | badTimeout => ascii "Invalid timeout. Timeout should be between 1 and 255 seconds."
  | badBlockSizeLimit => ascii "Invalid block size limit. Limit should be between 8 and 65464."
  | badRetries => ascii "Invalid number of retries."
  | root path => ascii "Root directory path: " ++ path
  | noRoot => ascii "Root directory path is not specified."
  | serverFailed why => ascii "TFTP server failed: " ++ why

end Notice

end Tftp
