import Tftp.Server

/-!
# Rehearsing a server

A rehearsal plays a server and all of its transfers against a script. The script goes on whenever
the server waits on its listening socket, and by then every transfer waits or has ended. Some cues
end that wait, the others leave the server waiting and concern the transfers or the time. The end of
the script asks the server to stop.

A record of what has happened is cut whenever a cue is taken, and at the end of the script. The last
record is that of a server which is gone.
-/

namespace Tftp.Server

variable {S : Storage}

/-- One item of a script. -/
inductive Cue
  /-- A datagram arrives on the listening socket. -/
  | request (sender : Address) (bytes : Bytes)
  /-- What happens to the receive on the socket with the given number. -/
  | transfer (socket : Nat) (reception : Reception)
  /-- So many milliseconds pass. -/
  | pause (ms : Nat)
  /-- The receive on the listening socket fails. -/
  | failure (errno : Errno)
  /-- The server is asked to stop. -/
  | stop
  /-- From now on there is one more fault. -/
  | fault (fault : Fault)
  deriving DecidableEq, Repr

/-- What happened in one part of a rehearsal. -/
structure Record where
  events : List Event
  /-- The number of clients with a transfer in progress at its end, as long as there is a server. -/
  inFlight : Option Nat
  deriving DecidableEq, Repr

/-- A rehearsal under way. -/
structure Stage (S : Storage) where
  server : Server S
  /-- The records cut so far, the latest first. -/
  records : List Record := []

/-- How a rehearsal ends: the outcome of the server, and how many cues were not taken. -/
structure Finale (S : Storage) where
  result : Except Failure Unit
  unused : Nat
  stage : Stage S

namespace Stage

/-- Closes the current record and begins the next. -/
def cut (stage : Stage S) : Stage S :=
  let server := stage.server
  { server := { server with world := { server.world with trace := [] } }
    records := ⟨server.world.trace.reverse, some server.inFlight⟩ :: stage.records }

end Stage

def addFault (server : Server S) (fault : Fault) : Server S :=
  let network := server.world.network
  { server with
    world := { server.world with network := { network with faults := network.faults ++ [fault] } } }

/-- What a cue does to a server that waits on its listening socket: whether that wait is over, and
what it came to. -/
def take (server : Server S) : Cue → Option (Except Failure Unit) × Server S
  | .request sender bytes =>
    (some (.ok ()), server.dispatch sender (bytes.take Network.maxDatagram))
  | .transfer socket reception => (none, server.deliver socket reception)
  | .pause ms => (none, server.advance ms)
  | .failure errno =>
    (some (if errno.isNothingYet then .ok () else .error (receiveFailure errno)), server)
  | .stop => (some (.ok ()), server.stop)
  | .fault fault => (none, server.addFault fault)

/-- Plays the script to a server that waits on its listening socket. -/
def play : List Cue → Stage S → Finale S
  | [], stage =>
    let stage := stage.cut
    let (result, server) := stage.server.stop.await
    { result := result.map fun _ => (), unused := 0, stage := { stage with server } }
  | cue :: script, stage =>
    let stage := stage.cut
    match stage.server.take cue with
    | (none, server) => play script { stage with server }
    | (some (.error failure), server) =>
      { result := .error failure, unused := script.length, stage := { stage with server } }
    | (some (.ok ()), server) =>
      let (result, server) := server.await
      let stage := { stage with server }
      match result with
      | .ok true => play script stage
      | .ok false => { result := .ok (), unused := script.length, stage }
      | .error failure => { result := .error failure, unused := script.length, stage }

/-- What a rehearsal shows. -/
structure Report (S : Storage) where
  /-- The address on which the server has listened, if it came to that. -/
  address : Option Address
  records : List Record
  /-- How many cues were never taken. -/
  unused : Nat
  /-- Whether the server has stopped as asked, or why it has failed. -/
  result : Except Failure Unit
  /-- The number of clients with a transfer in progress when the server had stopped or failed. -/
  left : Nat
  /-- The world at the end, if there was a server. -/
  world : Option (World S)

/-- What is shown when there is no server, with what has happened so far. -/
def Report.unstarted (failure : Failure) (events : List Event) (script : List Cue) : Report S where
  address := none
  records := [⟨events, none⟩]
  unused := script.length
  result := .error failure
  left := 0
  world := none

/-- Starts a server and plays the script to it. A server that has failed lets its transfers end
before it is gone. -/
def rehearse (setting : Setting S) (script : List Cue) : Report S :=
  match make setting with
  | .error failure => .unstarted failure setting.trace.reverse script
  | .ok server =>
    let (result, server) := (server.log (.listening server.address)).await
    let finale : Finale S := match result with
      | .ok true => play script { server }
      | .ok false => { result := .ok (), unused := script.length, stage := { server } }
      | .error failure =>
        { result := .error failure, unused := script.length, stage := { server } }
    let world := finale.stage.server.stop.shutDown.world
    { address := some server.address
      records := (⟨world.trace.reverse, none⟩ :: finale.stage.records).reverse
      unused := finale.unused
      result := finale.result
      left := finale.stage.server.inFlight
      world := some world }

end Tftp.Server
