import Tftp.Address
import Tftp.Notice

/-!
# Storage

Where transfers take files from and put them. A `Storage` says what its state is, what an open file
is on the reading and on the writing side, and what the operations on these do. An operation is an
`Effect`: a function of the state with a result or a failure, and with what there is to report about
it.

Storage may fail in any way it likes. `Storage.source` and `Storage.sink` open files on behalf of a
transfer: there every failure becomes one that can be reported to the peer.
-/

namespace Tftp

/-- What happens on the network, in the log and in a storage that keeps a record of its calls. -/
inductive Event
  | logged (notice : Notice)
  | sent (sender receiver : Address) (bytes : Bytes) (time : Int)
  | openedForReading (peer : Address) (filename : Bytes)
  | openedForWriting (peer : Address) (filename : Bytes) (declared : Option UInt64)
  | written (bytes : Bytes)
  | notWritten
  | finished
  | notFinished
  | aborted
  /-- A datagram reached a transfer socket on which nobody receives. -/
  | lost (socket : Nat)
  deriving DecidableEq, Repr

/-- What an operation of a storage yields. -/
structure Answer (σ α : Type) where
  /-- The result, or why there is none. -/
  result : Except Failure α
  /-- The state afterwards. -/
  state : σ
  /-- What there is to report, oldest first. -/
  events : List Event := []

namespace Answer

/-- The answer of success. -/
def pure {σ α : Type} (a : α) (state : σ) : Answer σ α := { result := .ok a, state }

def fail {σ α : Type} (failure : Failure) (state : σ) : Answer σ α :=
  { result := .error failure, state }

end Answer

/-- An operation on a state. -/
abbrev Effect (σ α : Type) := σ → Answer σ α

/-- A place that transfers take files from and put them to. -/
structure Storage where
  /-- The state that all open files share. -/
  State : Type
  /-- A file open for reading. -/
  Reader : Type
  /-- A file open for writing. -/
  Writer : Type
  /-- Opens a file for reading, and says how large it is if that is known. There may be nothing to
  read from. -/
  openForReading : Address → Bytes → Effect State (Option (Reader × Option UInt64))
  /-- Reads at most so many bytes; none means the end of the file. -/
  read : Nat → Effect (State × Reader) Bytes
  /-- Opens a file for writing, with its size if the writer has declared one. There may be nothing
  to write to. -/
  openForWriting : Address → Bytes → Option UInt64 → Effect State (Option Writer)
  /-- Stores one block. -/
  write : Bytes → Effect (State × Writer) Unit
  /-- Ends a file that is complete. -/
  finish : Effect (State × Writer) Unit
  /-- Ends a file that has remained incomplete. -/
  abort : Effect (State × Writer) Unit

namespace Storage

/-- A server cannot do without a storage, which is there when its state is. -/
def required (S : Storage) : Option S.State → Except Failure S.State
  | some state => .ok state
  | none => .error (.invalidArgument (ascii "Transfer handler must not be null"))

/-- Opens a file to send. Whatever goes wrong becomes a report for the peer. -/
def source (S : Storage) (peer : Address) (filename : Bytes) :
    Effect S.State (S.Reader × Option UInt64) := fun state =>
  let answer := S.openForReading peer filename state
  { answer with
    result := match answer.result with
      | .ok (some opened) => .ok opened
      | .ok none => .error (.transfer (.noSource filename))
      | .error failure => .error (.transfer failure.report) }

/-- Opens a file to receive. Whatever goes wrong becomes a report for the peer. -/
def sink (S : Storage) (peer : Address) (filename : Bytes) (declared : Option UInt64) :
    Effect S.State S.Writer := fun state =>
  let answer := S.openForWriting peer filename declared state
  { answer with
    result := match answer.result with
      | .ok (some writer) => .ok writer
      | .ok none => .error (.transfer (.noSink filename))
      | .error failure => .error (.transfer failure.report) }

end Storage

end Tftp
