import Tftp.Transfer.Read
import Tftp.Transfer.Write

/-!
# Running a transfer

A transfer runs in reactions. `Transfer.begin` starts it, and `Transfer.resume` goes on when the
receive in which it waits has ended; each goes on until the transfer waits again or is over. In
between the transfer looks whether everything is to come to an end, and it retransmits its last
packet when the deadline has passed. The deadline is put off by progress only: datagrams that are
ignored do not count.

A transfer that waits does so for at most `Transfer.limit` milliseconds, then it looks again.
-/

namespace Tftp.Transfer

variable {S : Storage}

def isOver (transfer : Transfer S) : Bool := transfer.phase.isOver

/-- Puts the deadline one timeout off. -/
def rearm : Reaction S Unit := do
  let time ← now
  update fun transfer => { transfer with deadline := time + transfer.terms.timeout }

/-- Retransmits the last packet until the deadline lies ahead; `left` is how often this may still
happen. -/
def catchUp (left : Nat) : Reaction S Unit := do
  let transfer ← self
  if (← now) < transfer.deadline then return
  match left with
  | 0 =>
    log (.givingUp transfer.peer)
    throw (.transfer .timedOut)
  | left + 1 =>
    update fun transfer => { transfer with retries := transfer.retries + 1 }
    log (.retransmitting transfer.peer (transfer.retries + 1))
    resend
    rearm
    catchUp left

/-- Goes on until the transfer waits in a receive or is over. -/
def settle : Reaction S Unit := do
  let transfer ← self
  if transfer.isOver then return
  if transfer.heedsStop ∧ (← get).world.stopping then throw (.transfer .serverShutdown)
  catchUp (transfer.config.maxRetries - transfer.retries)
  World.onNetwork (S := S) Network.beginReceive

/-- How long the transfer waits in its receive, in milliseconds. -/
def limit (transfer : Transfer S) (clock : Int) : Nat :=
  Network.limit (min (transfer.deadline - clock) transfer.config.pollInterval)

/-- Tells somebody else than the peer that this is not their transfer. Whether they hear it does not
matter. -/
def rejectStranger (sender : Address) : Reaction S Unit := do
  let packet := Packet.error Report.unknownTransferId.code Report.unknownTransferId.message
  log (.sending packet sender)
  tryCatch (World.send (S := S) (← self).socket sender packet.encode) fun failure =>
    log (.reportNotSent sender failure.message)

/-- Starts in the direction of the transfer. -/
def start : Reaction S Unit := do
  match (← self).direction with
  | .read => Read.start
  | .write => Write.start

/-- Reacts to a packet of the peer; says whether it moved the transfer forward. -/
def handle (packet : Packet) : Reaction S Bool := do
  match packet with
  | .error code message => throw (.peer (.fromPeer code message))
  | packet =>
    match (← self).direction with
    | .read => Read.handle packet
    | .write => Write.handle packet

/-- Reacts to a datagram. -/
def receive (sender : Address) (bytes : Bytes) : Reaction S Unit := do
  if sender ≠ (← self).peer then
    rejectStranger sender
  else
    match Packet.parse bytes with
    | .error malformed => log (.malformed sender malformed.message)
    | .ok packet =>
      log (.received packet sender)
      if ← handle packet then
        update fun transfer => { transfer with retries := 0 }
        rearm

/-- The end of a transfer: a file that was being received and remained incomplete is given up. -/
def leave : Reaction S Unit := do
  let transfer ← self
  if transfer.phase = .failed then Write.onWriter S.abort
  log (.leaving transfer.peer transfer.phase)

/-- Lets a reaction end the transfer when it fails, or when the transfer is over after it. -/
def guarded (reaction : Reaction S Unit) : Reaction S Unit := do
  tryCatch reaction fun failure => do
    update fun transfer => { transfer with phase := .failed }
    leave
    throw failure
  if (← self).isOver then leave

def begin : Reaction S Unit := guarded do
  start
  rearm
  settle

/-- Goes on with a transfer whose receive has ended. -/
def resume (reception : Reception) : Reaction S Unit := guarded do
  match (reception.cut Network.maxDatagram).outcome with
  | .error failure => throw failure
  | .ok none => pure ()
  | .ok (some (sender, bytes)) => receive sender bytes
  settle

/-- Performs a reaction: its result, the transfer and the world after it. -/
def perform (reaction : Reaction S Unit) (transfer : Transfer S) (world : World S) :
    Except Failure Unit × Transfer S × World S :=
  match reaction { self := transfer, world } with
  | .ok () scene => (.ok (), scene.self, scene.world)
  | .error failure scene => (.error failure, scene.self, scene.world)

end Tftp.Transfer
