import Tftp.Network
import Tftp.Storage

/-!
# The world of a server

What a server and its transfers share: the clock, the network, the storage, the wish that they stop,
and a record of what has happened. `Act` is a computation in this world that may fail; a failure
leaves in place what was done before it.
-/

namespace Tftp

/-- What a server and its transfers share. -/
structure World (S : Storage) where
  /-- Milliseconds since the start. -/
  clock : Int := 0
  network : Network := {}
  store : S.State
  /-- Whether debug lines are logged. -/
  verbose : Bool := false
  /-- Whether everything is to come to an end. -/
  stopping : Bool := false
  /-- What has happened, the latest first. -/
  trace : List Event := []

/-- A computation in a world. -/
abbrev Act (S : Storage) := EStateM Failure (World S)

namespace World

variable {S : Storage}

/-- Keeps a record of an event. -/
def note (event : Event) : Act S Unit :=
  modify fun world => { world with trace := event :: world.trace }

/-- Logs a line; a debug line only in a verbose world. -/
def log (notice : Notice) : Act S Unit := do
  if notice.level ≠ .debug ∨ (← get).verbose then
    note (.logged notice)

def onNetwork {α : Type} (operation : NetworkM α) : Act S α := fun world =>
  match operation world.network with
  | .ok a network => .ok a { world with network }
  | .error failure network => .error failure { world with network }

def onStore {α : Type} (effect : Effect S.State α) : Act S α := fun world =>
  let answer := effect world.store
  let world := { world with store := answer.state, trace := answer.events.reverse ++ world.trace }
  match answer.result with
  | .ok a => .ok a world
  | .error failure => .error failure world

def send (socket : Socket) (receiver : Address) (bytes : Bytes) : Act S Unit := do
  onNetwork (Network.send bytes)
  note (.sent socket.address receiver bytes (← get).clock)

end World

end Tftp
