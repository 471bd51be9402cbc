import Tftp.Address
import Tftp.Failure

/-!
# The network

Sockets here are local addresses, and the network is what decides whether an operation on one
succeeds. Which operations fail is given by a list of faults: each makes one kind of operation fail
a number of times, after it has succeeded a number of times. `Network.ask` looks up whether the next
operation of a kind fails.

A receive has two parts. An `Attempt` is the part before any waiting: the time limit is set, and the
receive may fail at once. `Network.beginReceive` makes a receive that fails because nothing is there
yet, or because it was interrupted, again at once; this comes to an end because each such failure
uses up a fault. How the waiting ends is a `Reception`.
-/

namespace Tftp

/-- The operations that can fail. -/
inductive Operation
  | makeSocket
  | bind
  | localAddress
  | setLimit
  | send
  | receive
  | startTask
  deriving DecidableEq, Repr

/-- An operation that fails `count` times after it has succeeded `skip` times. -/
structure Fault where
  operation : Operation
  errno : Errno
  skip : Nat
  count : Nat
  deriving DecidableEq, Repr

/-- Looks up whether the next operation of a kind fails. The first fault of that kind which is not
used up decides. -/
def askFaults (operation : Operation) : List Fault → Option Errno × List Fault
  | [] => (none, [])
  | fault :: faults =>
    if fault.operation = operation ∧ 0 < fault.count then
      if 0 < fault.skip then (none, { fault with skip := fault.skip - 1 } :: faults)
      else (some fault.errno, { fault with count := fault.count - 1 } :: faults)
    else
      let (errno?, faults) := askFaults operation faults
      (errno?, fault :: faults)

/-- How often operations can still fail. -/
def remainingFaults : List Fault → Nat
  | [] => 0
  | fault :: faults => fault.count + remainingFaults faults

theorem remainingFaults_askFaults_le (operation : Operation) (faults : List Fault) :
    remainingFaults (askFaults operation faults).2 ≤ remainingFaults faults := by
  induction faults with
  | nil => simp [askFaults]
  | cons fault faults ih =>
    simp only [remainingFaults, askFaults]
    split
    · split <;> simp [remainingFaults]
    · simpa [remainingFaults] using ih

theorem remainingFaults_askFaults_lt {operation : Operation} {faults : List Fault} {errno : Errno}
    (h : (askFaults operation faults).1 = some errno) :
    remainingFaults (askFaults operation faults).2 < remainingFaults faults := by
  induction faults with
  | nil => simp [askFaults] at h
  | cons fault faults ih =>
    simp only [askFaults] at h ⊢
    split at h
    · split at h
      · simp at h
      · rename_i hf hs
        simp only [hf, and_self, if_true, hs, if_false, remainingFaults]
        omega
    · rename_i hf
      simp only [hf, if_false, remainingFaults]
      have := ih h
      omega

/-- The part of the network that a server works with. -/
structure Network where
  /-- What is going to fail. -/
  faults : List Fault := []
  /-- The port that the next socket without one of its own gets. -/
  nextPort : UInt16 := 40000
  /-- How many sockets have been made. -/
  opened : Nat := 0
  /-- How many sockets have been closed. -/
  closed : Nat := 0

/-- A socket and the local address it is bound to. -/
structure Socket where
  address : Address
  deriving DecidableEq, Repr

/-- What an operation on the network yields, and the network after it. -/
abbrev NetworkM := EStateM Failure Network

/-- How the waiting of a receive ends. -/
inductive Reception
  /-- Nothing has come within the time limit. -/
  | nothing
  /-- A datagram has come. -/
  | datagram (sender : Address) (bytes : Bytes)
  /-- The receive has failed. -/
  | failed (errno : Errno)
  deriving DecidableEq, Repr

def receiveFailure (errno : Errno) : Failure :=
  .other (ascii "Failed to receive data: " ++ errno.message)

/-- The time limit of a receive could not be set for the given reason. -/
def limitFailure (errno : Errno) : Failure :=
  .other (ascii "Failed to set timeout: " ++ errno.message)

/-- What a receive does before any waiting. -/
inductive Attempt
  /-- It waits. -/
  | waits
  /-- It cannot have a time limit, and is not made. -/
  | unlimited (errno : Errno)
  /-- It fails at once. -/
  | fails (errno : Errno)
  deriving DecidableEq, Repr

namespace Attempt

/-- What one receive does before any waiting. -/
def make (faults : List Fault) : Attempt × List Fault :=
  match askFaults .setLimit faults with
  | (some errno, faults) => (.unlimited errno, faults)
  | (none, faults) =>
    match askFaults .receive faults with
    | (some errno, faults) => (.fails errno, faults)
    | (none, faults) => (.waits, faults)

/-- A receive that fails at once has used up a fault. -/
theorem remainingFaults_make {faults : List Fault} {errno : Errno}
    (h : (make faults).1 = .fails errno) :
    remainingFaults (make faults).2 < remainingFaults faults := by
  have hle := remainingFaults_askFaults_le .setLimit faults
  unfold make at h ⊢
  split at h
  · simp at h
  · rename_i faults' hl
    have hlt := @remainingFaults_askFaults_lt .receive faults'
    rw [hl] at hle
    split at h
    · rename_i errno faults'' hr
      have := @hlt errno (by rw [hr])
      rw [hr] at this
      simp only at hle this ⊢
      omega
    · simp at h

/-- Makes receives until one of them waits or fails for good. -/
def makeAll (faults : List Fault) : Except Failure Unit × List Fault :=
  match h : make faults with
  | (.waits, faults) => (.ok (), faults)
  | (.unlimited errno, faults) => (.error (limitFailure errno), faults)
  | (.fails errno, faults') =>
    have : remainingFaults faults' < remainingFaults faults := by
      have := @remainingFaults_make faults errno (by rw [h])
      rwa [h] at this
    if errno.isNothingYet then makeAll faults' else (.error (receiveFailure errno), faults')
termination_by remainingFaults faults

end Attempt

namespace Reception

/-- A datagram that is longer than the buffer is cut. -/
def cut (size : Nat) : Reception → Reception
  | datagram sender bytes => datagram sender (bytes.take size)
  | r => r

/-- The datagram received, if there is one. -/
def outcome : Reception → Except Failure (Option (Address × Bytes))
  | nothing => .ok none
  | datagram sender bytes => .ok (some (sender, bytes))
  | failed errno => if errno.isNothingYet then .ok none else .error (receiveFailure errno)

end Reception

namespace Network

/-- The most bytes that fit into one datagram. -/
def maxDatagram : Nat := 65507

/-- Whether the next operation of a kind fails, and how. -/
def ask (operation : Operation) : NetworkM (Option Errno) := do
  let network ← get
  let (errno?, faults) := askFaults operation network.faults
  set { network with faults }
  return errno?

/-- Performs an operation that is described by `context` if it fails. -/
def perform (operation : Operation) (context : Bytes) : NetworkM Unit := do
  match ← ask operation with
  | none => return
  | some errno => throw (.other (context ++ ascii ": " ++ errno.message))

/-- Gives a socket back. -/
def close : NetworkM Unit := modify fun network => { network with closed := network.closed + 1 }

/-- Binds a socket that has just been made to a local address, or gives it back; port 0 stands for
the next free port. -/
def bindSocket (addr : Address) : NetworkM Socket := do
  try perform .bind (ascii "Failed to bind socket to " ++ addr.text)
  catch failure =>
    close
    throw failure
  if addr.port = 0 then
    let network ← get
    set { network with nextPort := network.nextPort + 1 }
    return ⟨{ addr with port := network.nextPort }⟩
  else
    return ⟨addr⟩

/-- Makes a socket with the given local address. -/
def openSocket (addr : Address) : NetworkM Socket := do
  perform .makeSocket (ascii "Failed to open socket")
  modify fun network => { network with opened := network.opened + 1 }
  bindSocket addr

def localAddress (socket : Socket) : NetworkM Address := do
  perform .localAddress (ascii "Failed to get socket address")
  return socket.address

/-- Hands a datagram over to the network; one that is too long is refused. -/
def send (bytes : Bytes) : NetworkM Unit := do
  perform .send (ascii "Failed to send data")
  if maxDatagram < bytes.length then
    throw (.other (ascii "Failed to send data: " ++ Errno.emsgsize.message))

/-- The time limit of a receive in milliseconds. Without one a receive would wait for ever, so it is
at least one millisecond. -/
def limit (ms : Int) : Nat := max 1 ms.toNat

theorem limit_pos (ms : Int) : 0 < limit ms := by unfold limit; omega

/-- One receive into a buffer, with the given time limit, to which the given reception comes in the
end: the time limit in effect, if there is one, and the datagram received, if there is one. -/
def receiveOnce (ms : Int) (size : Nat) (arrival : Reception) (faults : List Fault) :
    Option Nat × Except Failure (Option (Address × Bytes)) × List Fault :=
  match Attempt.make faults with
  | (.unlimited errno, faults) => (none, .error (limitFailure errno), faults)
  | (.fails errno, faults) => (some (limit ms), (Reception.failed errno).outcome, faults)
  | (.waits, faults) => (some (limit ms), (arrival.cut size).outcome, faults)

/-- Begins receives until one of them waits. -/
def beginReceive : NetworkM Unit := do
  let network ← get
  let (result, faults) := Attempt.makeAll network.faults
  set { network with faults }
  match result with
  | .ok () => return
  | .error failure => throw failure

end Network

end Tftp
