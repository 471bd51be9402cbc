import Tftp.Transfer.Run

/-!
# Rehearsing a transfer

A rehearsal plays one transfer against a script. The script says what the receives of the transfer
yield and how much time passes meanwhile: a `Cue` is one item of it. Time passes only while the
transfer waits in a receive, and never more than the time limit of that receive: what is left of a
pause then goes on in the next receive.

A record of what has happened is cut whenever a cue is taken, so record 0 is what happened before
the first cue was taken, and record `i` is what happened after cue `i` was taken.

`Rehearsal.run` ends because every receive uses up some of the script (`weight_next_lt`).
-/

namespace Tftp

/-- A series of datagrams from the peer, numbered by consecutive blocks. -/
inductive Series
  /-- ACK packets. -/
  | acks
  /-- DATA packets with the same payload. -/
  | datas (payload : Bytes)
  deriving DecidableEq, Repr

/-- The packet of a series with the given block number. -/
def Series.packet : Series → UInt16 → Packet
  | acks, block => .ack block
  | datas payload, block => .data block payload

/-- One item of a script. -/
inductive Cue
  /-- A datagram arrives now. -/
  | datagram (sender : Address) (bytes : Bytes)
  /-- So many milliseconds pass. -/
  | pause (ms : Nat)
  /-- The receive fails. -/
  | failure (errno : Errno)
  /-- Everything is to come to an end, and the receive ends with it. -/
  | stop
  /-- Everything is to come to an end, but the receive goes on: what waits in it is not told. -/
  | raise
  /-- From now on there is one more fault. -/
  | fault (fault : Fault)
  /-- A number of datagrams arrive, each in a receive of its own. A brief series is reported as a
  summary. -/
  | series (series : Series) (first : UInt16) (count : Nat) (brief : Bool)
  deriving DecidableEq, Repr

namespace Cue

/-- How much there is to play in a cue. -/
def weight : Cue → Nat
  | pause ms => ms + 1
  | series _ _ count _ => count + 1
  | _ => 1

/-- Whether what happens is reported as a summary. -/
def isBrief : Cue → Bool
  | series _ _ _ brief => brief
  | _ => false

end Cue

/-- A cue in the queue of a rehearsal; one that has been taken is being continued. -/
structure Queued where
  cue : Cue
  taken : Bool := false
  deriving DecidableEq, Repr

/-- What happened in one part of a rehearsal. -/
structure Record where
  events : List Event
  phase : Phase
  brief : Bool

namespace Rehearsal

variable {S : Storage}

/-- A rehearsal under way. -/
structure State (S : Storage) where
  transfer : Transfer S
  world : World S
  /-- The records cut so far, the latest first. -/
  records : List Record := []
  /-- Whether the current record is reported as a summary. -/
  brief : Bool := false

namespace State

/-- Closes the current record and begins the next. -/
def cut (state : State S) (brief : Bool) : State S :=
  { state with
    world := { state.world with trace := [] }
    records := ⟨state.world.trace.reverse, state.transfer.phase, state.brief⟩ :: state.records
    brief }

/-- Lets time pass. -/
def tick (state : State S) (ms : Nat) : State S :=
  { state with world := { state.world with clock := state.world.clock + ms } }

def addFault (state : State S) (fault : Fault) : State S :=
  { state with
    world := { state.world with
      network := { state.world.network with faults := state.world.network.faults ++ [fault] } } }

/-- Wishes that everything comes to an end. -/
def stop (state : State S) : State S :=
  { state with world := { state.world with stopping := true } }

end State

/-- How much there is left to play. -/
def weight : List Queued → Nat
  | [] => 0
  | queued :: queue => queued.cue.weight + weight queue

/-- Plays the script until the receive that waits has ended: how it ends, if the script does not end
before, and what is left of the script. The receive waits for at most `limit` milliseconds. -/
def next (limit : Nat) : List Queued → State S → Option Reception × List Queued × State S
  | [], state => (none, [], state)
  | ⟨cue, taken⟩ :: queue, state =>
    let state := if taken then state else state.cut cue.isBrief
    match cue with
    | .datagram sender bytes => (some (.datagram sender bytes), queue, state)
    | .pause ms =>
      if limit ≤ ms then (some .nothing, ⟨.pause (ms - limit), true⟩ :: queue, state.tick limit)
      else next (limit - ms) queue (state.tick ms)
    | .failure errno => (some (.failed errno), queue, state)
    | .stop => (some .nothing, queue, state.stop)
    | .raise => next limit queue state.stop
    | .fault fault => next limit queue (state.addFault fault)
    | .series _ _ 0 _ => next limit queue state
    | .series series first (count + 1) brief =>
      (some (.datagram state.transfer.peer (series.packet first).encode),
        ⟨.series series (first + 1) count brief, true⟩ :: queue, state)

/-- A receive uses up some of the script. -/
theorem weight_next_lt {limit : Nat} {queue rest : List Queued} {state state' : State S}
    {reception : Reception} (hl : 0 < limit)
    (h : next limit queue state = (some reception, rest, state')) :
    weight rest < weight queue := by
  induction queue generalizing limit state with
  | nil => simp [next] at h
  | cons q queue ih =>
    obtain ⟨cue, taken⟩ := q
    rw [next.eq_def] at h
    simp only at h
    generalize (if taken then state else state.cut cue.isBrief) = state at h
    simp only [weight] at ih ⊢
    cases cue with
    | datagram | failure | stop =>
      obtain ⟨-, rfl, -⟩ := h
      simp [Cue.weight]
    | pause ms =>
      simp only at h
      split at h
      · obtain ⟨-, rfl, -⟩ := h
        simp only [weight, Cue.weight]
        omega
      · have := ih (by omega) h
        omega
    | raise | fault =>
      have := ih hl h
      omega
    | series _ _ count _ =>
      cases count with
      | zero =>
        have := ih hl h
        omega
      | succ =>
        obtain ⟨-, rfl, -⟩ := h
        simp [weight, Cue.weight]

/-- How a rehearsal ends. -/
inductive End
  /-- The transfer is complete. -/
  | done
  /-- The transfer has failed. -/
  | failed (failure : Failure)
  /-- The transfer waits, and the script is at its end. -/
  | unfinished
  deriving DecidableEq, Repr

/-- Plays the script from where the transfer waits, or is over with the given result. -/
def play (result : Except Failure Unit) (queue : List Queued) (state : State S) :
    End × List Queued × State S :=
  match result with
  | .error failure => (.failed failure, queue, state)
  | .ok () =>
    if state.transfer.isOver then (.done, queue, state)
    else
      match h : next (state.transfer.limit state.world.clock) queue state with
      | (none, queue, state) => (.unfinished, queue, state)
      | (some reception, rest, state) =>
        let (result, transfer, world) :=
          Transfer.perform (Transfer.resume reception) state.transfer state.world
        have := weight_next_lt (Network.limit_pos _) h
        play result rest { state with transfer, world }
termination_by weight queue

/-- What a rehearsal shows. -/
structure Report (S : Storage) where
  records : List Record
  /-- How many cues were never taken. -/
  unused : Nat
  ending : End
  /-- The terms before the transfer was begun. -/
  initial : Terms
  /-- The transfer and its world at the end. -/
  transfer : Transfer S
  world : World S

/-- The local address that a rehearsal asks for. -/
def localhost : Address := ⟨⟨127, 0, 0, 1⟩, 0⟩

/-- Begins a transfer on a new socket and plays the script to it. It fails if there is no socket. -/
def run (world : World S) (direction : Direction) (request : Request) (peer : Address)
    (config : Config) (heedsStop : Bool) (script : List Cue) : Except Failure (Report S) :=
  match World.onNetwork (Network.openSocket localhost) world with
  | .error failure _ => .error failure
  | .ok socket world =>
    let transfer := Transfer.new S direction request peer socket config heedsStop
    let initial := transfer.terms
    let (result, transfer, world) := Transfer.perform Transfer.begin transfer world
    let (ending, queue, state) :=
      play result (script.map fun cue => { cue }) { transfer, world }
    let state := state.cut false
    .ok {
      records := state.records.reverse
      unused := queue.countP fun q => !q.taken
      ending, initial
      transfer := state.transfer
      world := state.world }

end Rehearsal

end Tftp
