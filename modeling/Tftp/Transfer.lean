import Tftp.World

/-!
# Transfers

A transfer is one file on its way to or from one client. It owns a socket, and everything it does is
a reaction: to being begun, and to what its socket receives. This module has its state and what both
directions have in common; `Tftp.Transfer.Read` and `Tftp.Transfer.Write` say how each direction
reacts to packets, and `Tftp.Transfer.Run` puts reactions, deadlines and retransmissions together.
-/

namespace Tftp

/-- The state of one transfer. -/
structure Transfer (S : Storage) where
  direction : Direction
  request : Request
  peer : Address
  socket : Socket
  config : Config
  /-- Whether the transfer gives up when everything is to come to an end. -/
  heedsStop : Bool
  phase : Phase
  terms : Terms
  /-- The block that was sent last, or that is to be received next. -/
  block : UInt16
  /-- How often the last packet has been retransmitted. -/
  retries : Nat
  /-- When the last packet is retransmitted. -/
  deadline : Int
  lastPacket : Option Packet
  reader : Option S.Reader
  writer : Option S.Writer

namespace Transfer

variable {S : Storage}

/-- A transfer that has not begun. -/
def new (S : Storage) (direction : Direction) (request : Request) (peer : Address) (socket : Socket)
    (config : Config) (heedsStop : Bool) : Transfer S where
  direction := direction
  request := request
  peer := peer
  socket := socket
  config := config
  heedsStop := heedsStop
  phase := .initial
  terms := .unnegotiated config
  block := 0
  retries := 0
  deadline := 0
  lastPacket := none
  reader := none
  writer := none

/-- A transfer in its world. -/
structure Scene (S : Storage) where
  self : Transfer S
  world : World S

/-- A reaction of a transfer: it may change the transfer and its world, and it may fail. A failure
leaves in place what was done before it. -/
abbrev Reaction (S : Storage) := EStateM Failure (Scene S)

/-- What happens in the world only. -/
instance : MonadLift (Act S) (Reaction S) where
  monadLift act scene :=
    match act scene.world with
    | .ok a world => .ok a { scene with world }
    | .error failure world => .error failure { scene with world }

theorem liftM_eq {α : Type} (act : Act S α) (scene : Scene S) :
    (liftM act : Reaction S α) scene = match act scene.world with
      | .ok a world => .ok a { scene with world }
      | .error failure world => .error failure { scene with world } := rfl

/-- The transfer as it stands. -/
def self : Reaction S (Transfer S) := return (← get).self

/-- Changes the transfer. -/
def update (f : Transfer S → Transfer S) : Reaction S Unit :=
  modify fun scene => { scene with self := f scene.self }

def now : Reaction S Int := return (← get).world.clock

def log (notice : Notice) : Reaction S Unit := World.log (S := S) notice

/-- Hands a packet to the network. -/
def transmit (packet : Packet) : Reaction S Unit := do
  let transfer ← self
  log (.sending packet transfer.peer)
  World.send (S := S) transfer.socket transfer.peer packet.encode

/-- Sends a packet and keeps it for retransmission. -/
def send (packet : Packet) : Reaction S Unit := do
  transmit packet
  update fun transfer => { transfer with lastPacket := some packet }

/-- Sends the last packet once more. -/
def resend : Reaction S Unit := do
  match (← self).lastPacket with
  | some packet => transmit packet
  | none => return

/-- Settles the terms of the transfer, with the size of the file if it is known. -/
def settleTerms (fileSize : Option UInt64) : Reaction S Unit := do
  let transfer ← self
  match negotiate transfer.request.options transfer.config transfer.direction fileSize with
  | .error failure => throw failure
  | .ok terms =>
    log (.negotiated terms)
    update fun transfer => { transfer with terms }

end Transfer

end Tftp
