import Tftp.CommandLine
import Tftp.Server.Rehearsal

/-!
# The program

The program reads its command line, opens the root directory and serves it until it is asked to
stop. Its exit code is 0 if it has done so, and 1 if its command line is wrong or the server has
failed.
-/

namespace Tftp.Program

/-- The name by which the program is called. -/
def name : Bytes := ascii "tftpd"

/-- What is left of a run of the program. -/
structure Outcome where
  exitCode : UInt32
  /-- What happened, in the parts between the cues of the script. -/
  events : List (List Event)
  /-- How many cues were never taken. -/
  unused : Nat
  clock : Int
  disk : Disk

/-- The end of a run that has failed. -/
def failed (failure : Failure) : Event := .logged (.serverFailed failure.message)

def addToLast (event : Event) : List (List Event) → List (List Event)
  | [] => [[event]]
  | [part] => [part ++ [event]]
  | part :: parts => part :: addToLast event parts

/-- Serves the root directory that a command line names. -/
def serve (line : CommandLine) (root : Bytes) (disk : Disk) (network : Network)
    (script : List Server.Cue) : Outcome :=
  let opened := Directory.make root line.access disk
  let before := Event.logged (.root root) :: opened.events
  let unstarted (failure : Failure) : Outcome :=
    { exitCode := 1
      events := [before ++ [failed failure]]
      unused := script.length
      clock := 0
      disk := opened.state }
  match opened.result, Address.make line.address line.port with
  | .error failure, _ => unstarted failure
  | .ok _, .error failure => unstarted failure
  | .ok directory, .ok address =>
    let setting : Server.Setting directory.storage :=
      { address
        config := line.config
        store := some opened.state
        network
        verbose := line.verbose
        trace := before.reverse }
    let report := Server.rehearse setting script
    let events := report.records.map Server.Record.events
    let world? := report.world
    let outcome : Outcome :=
      { exitCode := 0
        events
        unused := report.unused
        clock := (world?.map World.clock).getD 0
        disk := (world?.map World.store).getD opened.state }
    match report.result with
    | .ok () => outcome
    | .error failure =>
      { outcome with exitCode := 1, events := addToLast (failed failure) events }

/-- A run of the program with the given arguments. -/
def run (arguments : List Bytes) (disk : Disk) (network : Network) (script : List Server.Cue) :
    Outcome :=
  match CommandLine.parse arguments with
  | .ok (line, root) => serve line root disk network script
  | .error complaint =>
    { exitCode := 1
      events := [(complaint.notices name).map .logged]
      unused := script.length
      clock := 0
      disk }

end Tftp.Program
