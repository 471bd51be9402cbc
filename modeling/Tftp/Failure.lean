import Tftp.Address
import Tftp.Errno
import Tftp.Packet.Parse

/-!
# Failures

A `Failure` is anything that ends a transfer, an attempt to open a file, or the server: by its kind,
with what is known about it. `Failure.message` is its wording, and `Failure.report` is what the
other side is told about it: an error code and a message.

A message is passed on as a NUL-terminated text, so it ends before its first NUL.
-/

namespace Tftp

/-- What an ERROR packet tells the other side. -/
structure Report where
  code : ErrorCode
  message : Bytes
  deriving DecidableEq, Repr

/-- The family that an error number belongs to. Only the first two number their errors as
`Errno` does. -/
inductive Category
  | generic
  | system
  | stream
  deriving DecidableEq, Repr

/-- Something that went wrong. -/
inductive Failure
  /-- A datagram is not a packet. -/
  | malformed (message : Bytes)
  /-- The value of an option is not acceptable. -/
  | badOption (message : Bytes)
  /-- The transfer cannot go on, and the peer is to be told so. -/
  | transfer (report : Report)
  /-- The peer has given the transfer up. -/
  | peer (report : Report)
  /-- An operating system call failed; `context` says which. -/
  | system (errno : Errno) (category : Category) (context : Option Bytes)
  /-- A file system operation on the given paths failed. -/
  | fileSystem (errno : Errno) (category : Category) (context : Bytes) (paths : List Bytes)
  /-- Anything that has a message only. -/
  | other (message : Bytes)
  /-- Something that must be there is missing. -/
  | invalidArgument (message : Bytes)
  /-- Out of memory. -/
  | outOfMemory
  deriving DecidableEq, Repr

namespace Category

/-- The text of an error number in its family. -/
def message (category : Category) (errno : Errno) : Bytes :=
  match category with
  | generic | system => errno.message
  | stream => ascii "Unknown error"

end Category

namespace Report

def serverShutdown : Report := ⟨.notDefined, ascii "Server shutdown"⟩

def timedOut : Report := ⟨.notDefined, ascii "Transfer timed out"⟩

def oversizedBlock : Report := ⟨.illegalOperation, ascii "Illegal TFTP operation"⟩

def unknownTransferId : Report := ⟨.unknownTransferId, ascii "Unknown transfer ID"⟩

def blockSizeTooSmall (size : UInt16) : Report :=
  ⟨.invalidOptions, ascii "Block size " ++ Decimal.print size.toNat ++ ascii " is too small"⟩

def timeoutTooSmall : Report := ⟨.invalidOptions, ascii "Timeout must be at least 1 second"⟩

def noSource (filename : Bytes) : Report :=
  ⟨.notDefined, ascii "No data source for " ++ filename⟩

def noSink (filename : Bytes) : Report := ⟨.notDefined, ascii "No data sink for " ++ filename⟩

def diskFull : Report := ⟨.diskFull, ascii "Disk full or allocation exceeded"⟩

def notStored (reason : Bytes) : Report :=
  ⟨.diskFull, ascii "Disk full or allocation exceeded: " ++ reason⟩

def fromPeer (code : ErrorCode) (message : Bytes) : Report :=
  ⟨code, ascii "Client sent error: " ++ message⟩

def accessViolation : Report := ⟨.accessViolation, ascii "Access violation"⟩

def fileNotFound : Report := ⟨.fileNotFound, ascii "File not found"⟩

def fileExists : Report := ⟨.fileExists, ascii "File already exists"⟩

def readingNotAllowed : Report := ⟨.accessViolation, ascii "Reading is not allowed"⟩

def writingNotAllowed : Report := ⟨.accessViolation, ascii "Writing is not allowed"⟩

end Report

namespace Errno

/-- The error code for a failed operating system call. -/
def code (e : Errno) : ErrorCode :=
  if e = enoent ∨ e = enotdir then .fileNotFound
  else if e = eacces ∨ e = eperm ∨ e = erofs then .accessViolation
  else if e = eexist then .fileExists
  else if e = enospc ∨ e = edquot ∨ e = efbig then .diskFull
  else .notDefined

end Errno

namespace Failure

/-- The wording of a failure. -/
def message : Failure → Bytes
  | malformed m | badOption m | other m | invalidArgument m => beforeNul m
  | transfer r | peer r => beforeNul r.message
  | system errno category none => category.message errno
  | system errno category (some context) =>
    beforeNul (context ++ ascii ": " ++ category.message errno)
  | fileSystem errno category context paths =>
    beforeNul (ascii "filesystem error: " ++
      beforeNul (context ++ ascii ": " ++ category.message errno) ++
      paths.flatMap fun path => ascii " [" ++ path ++ ascii "]")
  | outOfMemory => ascii "std::bad_alloc"

/-- What the other side is told about a failure: its own code if it has one, the code of an error
number, and otherwise the code for what is not defined. -/
def report (f : Failure) : Report :=
  match f with
  | transfer r | peer r => r
  | system errno category _ | fileSystem errno category _ _ =>
    match category with
    | .generic | .system => ⟨errno.code, f.message⟩
    | .stream => ⟨.notDefined, f.message⟩
  | _ => ⟨.notDefined, f.message⟩

/-- Whether the other side has caused the failure and knows of it. -/
def isFromPeer : Failure → Bool
  | peer _ => true
  | _ => false

end Failure

/-- The address of a dotted text and a port. -/
def Address.make (ip : Bytes) (port : UInt16) : Except Failure Address :=
  match Ip.ofText? (beforeNul ip) with
  | some ip => .ok ⟨ip, port⟩
  | none => .error (.other (ascii "Invalid IPv4 address: " ++ ip))

/-- A datagram that is not a packet, as a failure. -/
def Malformed.failure (m : Malformed) : Failure :=
  if m.isOption then .badOption m.message else .malformed m.message

end Tftp
