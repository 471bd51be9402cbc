import Tftp.Registry
import Tftp.Transfer.Run

/-!
# The server

The server listens on one socket. A request from a client that has no transfer in progress starts a
transfer, which gets a task and a socket of its own, with the address of the listening socket and a
port of its own; any other datagram on the listening socket is ignored. The client is in the
registry from then until its transfer has ended.

A transfer that has failed is reported to its client by an ERROR packet, unless it is the client who
has ended it. When the server is to stop, it waits for its transfers one after the other, the oldest
first; each of them fails as soon as it sees that.
-/

namespace Tftp

/-- A transfer that waits in a receive. -/
structure Task (S : Storage) where
  /-- The number of its socket, in the order in which sockets were made. -/
  number : Nat
  transfer : Transfer S
  /-- When its receive ends if nothing comes. -/
  wakes : Int

/-- A transfer that is to be made: the request of a client. -/
structure Assignment where
  direction : Direction
  request : Request
  peer : Address
  deriving DecidableEq, Repr

/-- A server in its world. -/
structure Server (S : Storage) where
  socket : Socket
  address : Address
  config : Config
  registry : Registry := .empty
  /-- The transfers that are waiting, the oldest first. -/
  tasks : List (Task S) := []
  world : World S

/-- What a server is started with. -/
structure Server.Setting (S : Storage) where
  /-- Where to listen; port 0 stands for any free port. -/
  address : Address
  config : Config := {}
  /-- The state of the storage, if there is one. -/
  store : Option S.State
  network : Network := {}
  verbose : Bool := false
  /-- Whether the server is to stop at once. -/
  stopping : Bool := false
  /-- What has happened before, the latest first. -/
  trace : List Event := []

namespace Failure

/-- The code of the ERROR packet for a transfer that has failed. -/
def transferCode : Failure → ErrorCode
  | transfer r => r.code
  | _ => .notDefined

end Failure

namespace Server

variable {S : Storage}

/-- Makes the listening socket and asks for its address. -/
def listen (addr : Address) : NetworkM (Socket × Address) := do
  let socket ← Network.openSocket addr
  let addr ← Network.localAddress socket
  return (socket, addr)

/-- Changes the world by an act that cannot fail. -/
def act (server : Server S) (act : Act S Unit) : Server S :=
  match act server.world with
  | .ok _ world | .error _ world => { server with world }

def log (server : Server S) (notice : Notice) : Server S := server.act (World.log notice)

/-- A server that is ready to listen. -/
def make (setting : Setting S) : Except Failure (Server S) :=
  match listen setting.address setting.network with
  | .error failure _ => .error failure
  | .ok (socket, address) network => do
    let store ← S.required setting.store
    let server : Server S :=
      { socket, address
        config := setting.config
        world :=
          { store, network
            verbose := setting.verbose, stopping := setting.stopping, trace := setting.trace } }
    return server.log (.starting address)

/-- The number of clients with a transfer in progress. -/
def inFlight (server : Server S) : Nat := server.registry.size

/-- Takes the client of a transfer that has ended out of the registry. -/
def dismiss (server : Server S) (peer : Address) : Server S :=
  { server with registry := server.registry.erase peer }

/-- Tells the client of a transfer that it has failed. -/
def report (failure : Failure) (transfer : Transfer S) : Act S Unit := do
  let peer := transfer.peer
  if failure.isFromPeer then
    World.log (.aborted peer failure.message)
  else
    World.log (.failed peer failure.message)
    let packet := Packet.error failure.transferCode failure.message
    World.log (.sending packet peer)
    tryCatch (World.send transfer.socket peer packet.encode) fun failure =>
      World.log (.reportNotSent peer failure.message)

/-- What becomes of a transfer after a reaction: either it waits again, or it has ended, and then
its end is dealt with. -/
def settle (server : Server S) (number : Nat) (result : Except Failure Unit)
    (transfer : Transfer S) : Server S × Option (Task S) :=
  let ended (server : Server S) : Server S :=
    (server.act (World.onNetwork Network.close)).dismiss transfer.peer
  match result with
  | .error failure => (ended (server.act (report failure transfer)), none)
  | .ok () =>
    if transfer.isOver then (ended server, none)
    else
      let clock := server.world.clock
      (server, some { number, transfer, wakes := clock + transfer.limit clock })

/-- Starts a task for a client that is in the registry, and says whether that has succeeded. If it
has not, the client is taken out again. -/
def startTask (server : Server S) (peer : Address) : Bool × Server S :=
  let network := server.world.network
  let (errno?, faults) := askFaults .startTask network.faults
  let server : Server S :=
    { server with world := { server.world with network := { network with faults } } }
  match errno? with
  | some errno => (false, (server.log (.notStarted peer errno.message)).dismiss peer)
  | none => (true, server)

/-- Decides about a datagram on the listening socket: the transfer whose task is started, if the
datagram is a request that is accepted. -/
def accept (server : Server S) (sender : Address) (bytes : Bytes) :
    Option Assignment × Server S :=
  match Packet.parse bytes with
  | .error malformed => (none, server.log (.malformed sender malformed.message))
  | .ok packet =>
    match packet with
    | .request direction request =>
      match server.registry.insert? sender with
      | none => (none, server.log (.pendingRequest packet sender))
      | some registry =>
        match startTask ({ server with registry }.log (.accepted packet sender)) sender with
        | (true, server) => (some { direction, request, peer := sender }, server)
        | (false, server) => (none, server)
    | _ => (none, server.log (.notARequest packet sender))

/-- What the task of a transfer does first: it makes a socket and begins the transfer. It yields the
transfer if that waits now. -/
def commence (server : Server S) (assignment : Assignment) : Server S × Option (Task S) :=
  let peer := assignment.peer
  let number := server.world.network.opened
  match World.onNetwork (Network.openSocket { server.address with port := 0 }) server.world with
  | .error failure world =>
    ({ server with world }.log (.noSocket peer failure.message) |>.dismiss peer, none)
  | .ok socket world =>
    let transfer :=
      Transfer.new S assignment.direction assignment.request peer socket server.config true
    let (result, transfer, world) := Transfer.perform Transfer.begin transfer world
    { server with world }.settle number result transfer

/-- Lets the task of a transfer run until the transfer waits or has ended. -/
def launch (server : Server S) (assignment : Assignment) : Server S :=
  let (server, task?) := server.commence assignment
  { server with tasks := server.tasks ++ task?.toList }

/-- Reacts to a datagram on the listening socket. -/
def dispatch (server : Server S) (sender : Address) (bytes : Bytes) : Server S :=
  match server.accept sender bytes with
  | (some assignment, server) => server.launch assignment
  | (none, server) => server

/-- What a transfer does when its receive has ended. It yields the transfer if that waits again. -/
def goOn (server : Server S) (task : Task S) (reception : Reception) :
    Server S × Option (Task S) :=
  let (result, transfer, world) :=
    Transfer.perform (Transfer.resume reception) task.transfer server.world
  { server with world }.settle task.number result transfer

/-- Ends the receive of a transfer, and lets the transfer go on. -/
def resume (server : Server S) (task : Task S) (reception : Reception) : Server S :=
  let (server, task?) := server.goOn task reception
  { server with
    tasks := server.tasks.flatMap fun t => if t.number = task.number then task?.toList else [t] }

/-- Ends the receive of the transfer on the socket with the given number. -/
def deliver (server : Server S) (number : Nat) (reception : Reception) : Server S :=
  match server.tasks.find? fun task => task.number == number with
  | some task => server.resume task reception
  | none => server.act (World.note (.lost number))

/-- Ends the receives of some transfers in which nothing has come, one after the other. -/
def resumeAll (server : Server S) (tasks : List (Task S)) : Server S :=
  tasks.foldl (fun server task => server.resume task .nothing) server

/-- Milliseconds until the next receive ends in which nothing comes. -/
def untilNextWake (server : Server S) : Option Nat :=
  (server.tasks.map fun task => (task.wakes - server.world.clock).toNat).min?

/-- Lets time pass. The receives whose time is over meanwhile end one after the other; when several
end at the same time, that of the oldest transfer is the first. -/
def advance (server : Server S) (ms : Nat) : Server S :=
  if h : ms = 0 then server
  else
    let elapsed := match server.untilNextWake with
      | some wait => min ms (max 1 wait)
      | none => ms
    have : ms - elapsed < ms := by
      have : 0 < elapsed := by
        simp only [elapsed]
        split <;> omega
      omega
    let clock := server.world.clock + elapsed
    let server := { server with world := { server.world with clock } }
    let due := server.tasks.filter fun task => task.wakes ≤ clock
    advance (server.resumeAll due) (ms - elapsed)
termination_by ms

/-- Asks the server to stop. -/
def stop (server : Server S) : Server S :=
  { server with world := { server.world with stopping := true } }

/-- Waits for the transfers to end, the oldest first. -/
def shutDown (server : Server S) : Server S :=
  server.tasks.foldl (fun server task => (server.log .waiting).resume task .nothing) server

/-- Begins the next receive on the listening socket, unless the server is to stop: says whether the
server waits there. -/
def await (server : Server S) : Except Failure Bool × Server S :=
  if server.world.stopping then (.ok false, (server.log .stopping).shutDown)
  else match World.onNetwork Network.beginReceive server.world with
    | .ok () world => (.ok true, { server with world })
    | .error failure world => (.error failure, { server with world })

end Server

end Tftp
