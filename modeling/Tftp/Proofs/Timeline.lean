import Tftp.Proofs.Course
import Tftp.Proofs.Kindred

/-!
# What happens at a server, and when

A `Timeline` is the course of a server in a world without faults, with what has happened at the
server and when, and with what its clients have seen of it. What is to be done at one moment may be
done in any order, and time passes only while all transfers wait.

A server can be asked to stop at any moment. The receives that go on then each take one more
datagram, that on the listening socket as well as those of the transfers: who is to stop looks at
that only when their receive has ended. How long a receive is does not matter otherwise, so a transfer
may look at any moment before its deadline.
-/

namespace Tftp

open Transfer

variable {S : Storage}

/-! ## Turns in a world without faults -/

namespace Passage

/-- A turn in a world without faults, of a transfer with files of its own that heeds the wish to
stop. -/
structure Fit (apart : S.Apart) (p : Passage S) : Prop where
  owned : p.scene.self.Owned apart
  faultless : p.scene.world.network.faults = []
  heedsStop : p.scene.self.heedsStop = true

variable {apart : S.Apart} {p : Passage S}

/-- What a turn leaves alone. -/
theorem frame (p : Passage S) : p.after.frame = p.scene.frame :=
  frame_after (.turn p.reception?) p.scene

theorem Fit.kin (h : p.Fit apart) :
    Kin apart p.scene.self.peer p.scene.world p.scene.world p.after p.after :=
  ((Kindred.pervasive _).turn p.reception? (.refl p.scene h.owned h.faultless)).outcome.2

/-- A transfer that waits can go on waiting. -/
theorem poised (h : p.waits = true) : p.after.view.Poised := by
  have hp : p.result = .ok () → p.after.self.isOver = true ∨ p.after.view.Poised :=
    Ensures.outcome (P := fun result v => result = .ok () → v.self.isOver = true ∨ v.Poised)
      (.mono (.turn_poised p.reception?) (fun _ _ hv _ => hv) fun _ _ _ hr => nomatch hr)
  unfold waits at h
  cases hr : p.result with
  | ok u =>
      rw [hr] at h
      exact (hp hr).resolve_left (by simpa using h)
  | error f =>
      rw [hr] at h
      cases h

end Passage

namespace Server

/-! ## Dealing with the end of a transfer -/

/-- What the client of a transfer that has failed is told. -/
def farewell (f : Failure) (t : Transfer S) (clock : Int) : List Event :=
  if f.isFromPeer = true ∨ Network.maxDatagram < f.packet.encode.length then []
  else [.sent { t.socket.address with port := 0 } t.peer f.packet.encode clock]

/-- A line in the log shows nobody anything. -/
theorem log_shown (notice : Notice) (w : World S) : ∃ lines : List Event,
    World.log notice w = .ok () { w with trace := lines ++ w.trace } ∧
    ∀ client, shown client lines = [] := by
  rw [World.log_eq]
  split
  · exact ⟨[.logged notice], rfl, fun _ => rfl⟩
  · exact ⟨[], rfl, fun _ => rfl⟩

theorem report_of_faultless (f : Failure) (t : Transfer S) {w : World S}
    (h : w.network.faults = []) : ∃ lines : List Event,
      report f t w = .ok () { w with trace := lines ++ w.trace } ∧
      shown t.peer lines = farewell f t w.clock := by
  unfold report farewell
  cases hf : f.isFromPeer with
  | true =>
      obtain ⟨lines, hlog, hnone⟩ := log_shown (.aborted t.peer f.message) w
      exact ⟨lines, hlog, hnone _⟩
  | false =>
      obtain ⟨a, hlog, ha⟩ := log_shown (.failed t.peer f.message) w
      obtain ⟨b, hlog', hb⟩ := log_shown (.sending f.packet t.peer)
        { w with trace := a ++ w.trace }
      obtain ⟨c, hsend, hc⟩ : ∃ c : List Event,
          (tryCatch (World.send t.socket t.peer f.packet.encode) fun failure =>
            World.log (.reportNotSent t.peer failure.message) : Act S Unit)
            { w with trace := b ++ (a ++ w.trace) } =
            .ok () { w with trace := c ++ (b ++ (a ++ w.trace)) } ∧
          shown t.peer c = if Network.maxDatagram < f.packet.encode.length then []
            else [.sent { t.socket.address with port := 0 } t.peer f.packet.encode w.clock] := by
        by_cases hl : Network.maxDatagram < f.packet.encode.length
        · obtain ⟨c, hlog, hc⟩ := log_shown (.reportNotSent t.peer
            (Failure.other (ascii "Failed to send data: " ++ Errno.emsgsize.message)).message)
            { w with trace := b ++ (a ++ w.trace) }
          refine ⟨c, (tryCatch_of_error ?_).trans hlog, by rw [hc, if_pos hl]⟩
          rw [World.send_eq, Network.send_of_faultless h, if_pos hl]
        · refine ⟨[.sent t.socket.address t.peer f.packet.encode w.clock], tryCatch_of_ok ?_, ?_⟩
          · rw [World.send_eq, Network.send_of_faultless h, if_neg hl]
            rfl
          · rw [if_neg hl]
            simp [shown, Event.concerns, Event.anonymous]
      refine ⟨c ++ (b ++ a), ?_, ?_⟩
      · refine (bind_of_ok hlog).trans ((bind_of_ok hlog').trans ?_)
        rw [List.append_assoc, List.append_assoc]
        exact hsend
      · rw [shown_append, shown_append, ha, hb, hc]
        simp

/-- What a client is told when it is dealt with what has become of its transfer. -/
def told (p : Passage S) : List Event :=
  match p.result with
  | .ok () => []
  | .error f => farewell f p.after.self p.after.world.clock

theorem act_of_ok {server : Server S} {m : Act S Unit} {world : World S}
    (h : m server.world = .ok () world) : server.act m = { server with world } := by
  unfold Server.act
  rw [h]

/-- What a server does about a transfer after its turn: it tells the client of a failure, gives the
socket back and forgets the client, unless the transfer waits. -/
theorem dealWith_of_faultless (server : Server S) (p : Passage S)
    (h : p.after.world.network.faults = []) : ∃ (lines : List Event) (network : Network),
      network.faults = [] ∧ shown p.after.self.peer lines = told p ∧
      server.dealWith p =
        ({ server with
            registry := if p.waits then server.registry else server.registry.erase p.after.self.peer
            world := { p.after.world with network, trace := lines ++ p.after.world.trace } },
          if p.waits then some
            { number := p.number
              transfer := p.after.self
              wakes := p.after.world.clock + p.after.self.limit p.after.world.clock }
          else none) := by
  let closed : Network :=
    { p.after.world.network with closed := p.after.world.network.closed + 1 }
  unfold dealWith told Passage.waits
  cases p.result with
  | error f =>
      obtain ⟨lines, hreport, hlines⟩ := report_of_faultless f p.after.self h
      refine ⟨lines, closed, h, hlines, ?_⟩
      have hact : Server.act { server with world := p.after.world } _ = _ := act_of_ok hreport
      unfold Server.settle
      dsimp only
      rw [hact]
      rfl
  | ok u =>
      unfold Server.settle
      cases p.after.self.isOver with
      | true => exact ⟨[], closed, h, rfl, rfl⟩
      | false => exact ⟨[], p.after.world.network, h, rfl, rfl⟩

/-! ## What happens at a server, and what is seen of it -/

/-- What happens at a server. -/
inductive Happening
  /-- A datagram arrives on the listening socket. -/
  | request (sender : Address) (bytes : Bytes)
  /-- The server has been asked to stop, and waits on the listening socket no more. -/
  | leaves
  /-- A datagram arrives on the socket of a client's transfer. -/
  | transfer (client sender : Address) (bytes : Bytes)
  /-- The task of a client's transfer runs for the first time. -/
  | begins (client : Address)
  /-- A client's transfer does what is to be done when nothing has come. -/
  | wakes (client : Address)
  /-- The server is asked to stop. -/
  | stop
  deriving DecidableEq, Repr

/-- Whether something still happens when the datagrams of all other clients are deleted, and with
them what is done for these clients. -/
def Happening.remains (client : Address) : Happening → Bool
  | request sender _ | transfer _ sender _ => sender = client
  | begins other | wakes other => other = client
  | leaves | stop => true

/-- What is seen of a server by one of its clients. -/
inductive Sight
  /-- A request was accepted, or it was ignored. -/
  | decided (accepted : Bool)
  /-- The client was sent something, or the storage was called on its behalf. -/
  | did (event : Event)
  /-- A transfer of the client has ended. -/
  | ended (result : Except Failure Unit) (phase : Phase)

/-- What one client has seen, oldest first. -/
def seenBy (client : Address) (seen : List (Address × Sight)) : List Sight :=
  (seen.filter fun entry => entry.1 = client).map Prod.snd

theorem seenBy_append (client : Address) (a b : List (Address × Sight)) :
    seenBy client (a ++ b) = seenBy client a ++ seenBy client b := by
  rw [seenBy, List.filter_append, List.map_append]
  rfl

/-- What a client sees of a turn of its transfer, if the given lines have been put on record. -/
def sights (p : Passage S) (lines : List Event) : List (Address × Sight) :=
  ((shown p.scene.self.peer lines).map Sight.did ++
    if p.waits then [] else [Sight.ended p.result p.after.self.phase]).map
    (Prod.mk p.scene.self.peer)

/-- A server after something has been done, and what was seen of that. -/
structure Played (S : Storage) where
  affairs : Affairs S
  seen : List (Address × Sight)

namespace Affairs

/-- A datagram on the listening socket is decided about. -/
def hears (a : Affairs S) (sender : Address) (bytes : Bytes) : Played S where
  affairs :=
    { server := (a.server.accept sender bytes).2
      started := a.started ++ (a.server.accept sender bytes).1.toList }
  seen := [(sender, .decided (a.server.accept sender bytes).1.isSome)]

/-- The task of a transfer runs for the first time; the given tasks are still to run. -/
def begins (a : Affairs S) (x : Assignment) (started : List Assignment) : Played S where
  affairs := { server := a.server.launch x, started }
  seen :=
    match a.server.askSocket with
    | .ok socket world =>
      sights (a.server.firstPassage x socket world)
        (a.server.world.since (a.server.launch x).world)
    | .error _ _ => []

/-- The receive of a transfer ends. -/
def resumes (a : Affairs S) (task : Task S) (reception : Reception) : Played S where
  affairs := { a with server := a.server.resume task reception }
  seen :=
    sights (a.server.nextPassage task reception)
      (a.server.world.since (a.server.resume task reception).world)

/-- Time passes. -/
def later (a : Affairs S) (ms : Nat) : Affairs S :=
  { a with
    server :=
      { a.server with world := { a.server.world with clock := a.server.world.clock + ms } } }

/-- The server is asked to stop. -/
def stop (a : Affairs S) : Affairs S := { a with server := a.server.stop }

end Affairs

/-- A server at some moment, with its past. -/
structure Moment (S : Storage) where
  affairs : Affairs S
  /-- Whether the server waits on its listening socket. -/
  listening : Bool
  /-- What its clients have seen, oldest first. -/
  seen : List (Address × Sight) := []
  /-- The datagrams with which receives have ended since the server was asked to stop: on the socket
  of which client's transfer, or on the listening socket, and from whom. -/
  late : List (Option Address × Address) := []

namespace Moment

/-- A server that has just been made looks whether it is to stop before it listens. -/
def first (server : Server S) : Moment S where
  affairs := { server }
  listening := !server.world.stopping

def clock (m : Moment S) : Int := m.affairs.server.world.clock

def stopping (m : Moment S) : Bool := m.affairs.server.world.stopping

/-- Something is done. -/
def andThen (m : Moment S) (p : Played S) : Moment S :=
  { m with affairs := p.affairs, seen := m.seen ++ p.seen }

/-- Time passes. -/
def later (m : Moment S) (ms : Nat) : Moment S := { m with affairs := m.affairs.later ms }

/-- The server is asked to stop. -/
def stop (m : Moment S) : Moment S := { m with affairs := m.affairs.stop }

/-- The late datagrams when a receive has ended with one. -/
def took (m : Moment S) (socket : Option Address) (sender : Address) :
    List (Option Address × Address) :=
  m.late ++ if m.stopping then [(socket, sender)] else []

/-- A datagram ends the receive on the listening socket; the server listens again, unless it is to
stop. -/
def hears (m : Moment S) (sender : Address) (bytes : Bytes) : Moment S :=
  { m.andThen (m.affairs.hears sender bytes) with
    listening := !m.stopping
    late := m.took none sender }

/-- A datagram ends the receive of a transfer. -/
def delivers (m : Moment S) (task : Task S) (sender : Address) (bytes : Bytes) : Moment S :=
  { m.andThen (m.affairs.resumes task (.datagram sender bytes)) with
    late := m.took (some task.transfer.peer) sender }

/-- No receive on the listening socket or of the client's own transfer that went on when the server
was asked to stop has ended with a datagram of another client. -/
def Spares (m : Moment S) (client : Address) : Prop :=
  ∀ entry ∈ m.late, entry.1 = none ∨ entry.1 = some client → entry.2 = client

instance (m : Moment S) (client : Address) : Decidable (m.Spares client) :=
  inferInstanceAs (Decidable (∀ entry ∈ m.late, _))

end Moment

/-- One step of a server in a world without faults, with what happens in it and when. -/
inductive Happens (m : Moment S) : List (Int × Happening) → Moment S → Prop
  /-- A datagram arrives on the listening socket. -/
  | hears (sender : Address) (bytes : Bytes) : m.listening = true →
      Happens m [(m.clock, .request sender bytes)] (m.hears sender bytes)
  /-- A datagram on the listening socket gets lost, as the server has left. -/
  | misses (sender : Address) (bytes : Bytes) : m.listening = false →
      Happens m [(m.clock, .request sender bytes)] m
  /-- The receive on the listening socket ends in which nothing has come, and the server is to stop. -/
  | leaves : m.listening = true → m.stopping = true →
      Happens m [(m.clock, .leaves)] { m with listening := false }
  /-- The task of a transfer runs for the first time. -/
  | begins {before after : List Assignment} {x : Assignment} :
      m.affairs.started = before ++ x :: after →
      Happens m [(m.clock, .begins x.peer)] (m.andThen (m.affairs.begins x (before ++ after)))
  /-- A receive ends in which nothing has come, before the deadline of its transfer. -/
  | looks {task : Task S} : task ∈ m.affairs.server.tasks → m.clock < task.transfer.deadline →
      m.stopping = false → Happens m [] (m.andThen (m.affairs.resumes task .nothing))
  /-- A receive ends in which nothing has come, and the deadline has passed, or the transfer is to
  stop. -/
  | wakes {task : Task S} : task ∈ m.affairs.server.tasks →
      task.transfer.deadline ≤ m.clock ∨ m.stopping = true →
      Happens m [(m.clock, .wakes task.transfer.peer)] (m.andThen (m.affairs.resumes task .nothing))
  /-- A datagram arrives on the socket of a transfer that waits for it. -/
  | delivers {task : Task S} (sender : Address) (bytes : Bytes) : task ∈ m.affairs.server.tasks →
      m.clock < task.transfer.deadline →
      Happens m [(m.clock, .transfer task.transfer.peer sender bytes)] (m.delivers task sender bytes)
  /-- A datagram gets lost, as the client has no transfer that waits. -/
  | loses (client sender : Address) (bytes : Bytes) :
      (∀ task ∈ m.affairs.server.tasks, task.transfer.peer ≠ client) →
      Happens m [(m.clock, .transfer client sender bytes)] m
  /-- Time passes while all transfers wait. -/
  | passes (ms : Nat) : m.affairs.started = [] →
      (∀ task ∈ m.affairs.server.tasks, m.clock + ms ≤ task.transfer.deadline) →
      Happens m [] (m.later ms)
  /-- The server is asked to stop. -/
  | stops : Happens m [(m.clock, .stop)] m.stop

/-- What happens at a server, one thing after the other and each at its time. -/
inductive Timeline (start : Moment S) : List (Int × Happening) → Moment S → Prop
  | refl : Timeline start [] start
  | step {log entries : List (Int × Happening)} {m m' : Moment S} :
      Timeline start log m → Happens m entries m' → Timeline start (log ++ entries) m'

/-! ## What holds at all times -/

/-- A transfer that waits, with files of its own. -/
structure Sound (apart : S.Apart) (task : Task S) : Prop where
  owned : task.transfer.Owned apart
  heedsStop : task.transfer.heedsStop = true
  isOver : task.transfer.isOver = false

/-- A server in a world without faults, all of whose transfers are sound. -/
structure Affairs.Orderly (apart : S.Apart) (a : Affairs S) : Prop where
  consistent : a.Consistent
  faultless : a.server.world.network.faults = []
  tasks : ∀ task ∈ a.server.tasks, Sound apart task

variable {apart : S.Apart}

/-- A transfer that waits after its turn can go on waiting. -/
theorem dealWith_waits {server : Server S} {p : Passage S} (h : p.Fit apart) :
    ∀ task ∈ (server.dealWith p).2, Sound apart task ∧ task.transfer = p.after.self := by
  intro task hm
  obtain ⟨lines, network, -, -, hd⟩ := dealWith_of_faultless server p h.kin.faultless
  have hheeds : p.after.self.heedsStop = true :=
    (congrArg Frame.heedsStop p.frame).trans h.heedsStop
  rw [hd] at hm
  cases hw : p.waits with
  | false => simp [hw] at hm
  | true =>
      simp only [hw, if_true, Option.mem_def, Option.some.injEq] at hm
      subst hm
      exact ⟨⟨h.kin.owned, hheeds, (Passage.poised hw).isOver⟩, rfl⟩

theorem firstPassage_fit (apart : S.Apart) {server : Server S} (h : server.world.network.faults = [])
    (x : Assignment) {socket : Socket} {world : World S} (hs : server.askSocket = .ok socket world) :
    (server.firstPassage x socket world).Fit apart := by
  rw [askSocket_of_faultless h] at hs
  cases hs
  exact ⟨⟨by simp [firstPassage, new], by simp [firstPassage, new]⟩, h, rfl⟩

theorem nextPassage_fit {server : Server S} (h : server.world.network.faults = []) {task : Task S}
    (ht : Sound apart task) (reception : Reception) :
    (server.nextPassage task reception).Fit apart :=
  ⟨ht.owned, h, ht.heedsStop⟩

theorem mem_launch {server : Server S} {x : Assignment} {socket : Socket} {world : World S}
    (hs : server.askSocket = .ok socket world) {t : Task S} :
    t ∈ (server.launch x).tasks ↔
      t ∈ server.tasks ∨ t ∈ (server.dealWith (server.firstPassage x socket world)).2 := by
  rw [launch_of_ok x hs]
  simp

theorem mem_resume {server : Server S} {task : Task S} (hm : task ∈ server.tasks)
    {reception : Reception} {t : Task S} :
    t ∈ (server.resume task reception).tasks ↔ t ∈ server.tasks ∧ t.number ≠ task.number ∨
      t ∈ (server.dealWith (server.nextPassage task reception)).2 := by
  rw [resume_eq_dealWith]
  simp only [List.mem_flatMap]
  constructor
  · rintro ⟨u, hu, ht⟩
    split at ht
    · exact .inr (Option.mem_toList.1 ht)
    next hne =>
      obtain rfl := List.mem_singleton.1 ht
      exact .inl ⟨hu, hne⟩
  · rintro (⟨ht, hne⟩ | ht)
    · exact ⟨t, ht, by simp [hne]⟩
    · exact ⟨task, hm, by simpa using ht⟩

theorem launch_world {server : Server S} {x : Assignment} {socket : Socket} {world : World S}
    (hs : server.askSocket = .ok socket world) : (server.launch x).world =
      (server.dealWith (server.firstPassage x socket world)).1.world := by
  rw [launch_of_ok x hs]

theorem resume_world (server : Server S) (task : Task S) (reception : Reception) :
    (server.resume task reception).world =
      (server.dealWith (server.nextPassage task reception)).1.world := by
  rw [resume_eq_dealWith]

/-- Nothing is going to fail after a turn. -/
theorem dealWith_faultless {server : Server S} {p : Passage S} (h : p.Fit apart) :
    (server.dealWith p).1.world.network.faults = [] := by
  obtain ⟨lines, network, hn, -, hd⟩ := dealWith_of_faultless server p h.kin.faultless
  rw [hd]
  exact hn

/-- What has been decided about a datagram is put on record, and the registry knows of it. -/
theorem accept_of_faultless {server : Server S} (h : server.world.network.faults = [])
    (sender : Address) (bytes : Bytes) : ∃ registry lines,
      (server.accept sender bytes).2 = { server with
        registry, world := { server.world with trace := lines ++ server.world.trace } } := by
  obtain ⟨registry, faults, lines, he, -, hf⟩ := accept_noted server sender bytes
  obtain rfl : faults = server.world.network.faults := (hf h).trans h.symm
  exact ⟨registry, lines, he⟩

/-- Every step is one of a server. -/
theorem Happens.follows {m m' : Moment S} {entries : List (Int × Happening)}
    (h : Happens m entries m') : ∃ entry, Step m.affairs entry m'.affairs := by
  have still : ∃ entry, Step m.affairs entry m.affairs :=
    ⟨_, .meanwhile m.affairs.server.world (Nat.le_refl _)⟩
  cases h with
  | hears sender bytes => exact ⟨_, .hears sender bytes⟩
  | begins hs => exact ⟨_, .commences hs⟩
  | looks ht => exact ⟨_, .resumes _ ht⟩
  | wakes ht => exact ⟨_, .resumes _ ht⟩
  | delivers _ _ ht => exact ⟨_, .resumes _ ht⟩
  | misses | leaves | loses => exact still
  | passes => exact ⟨_, .meanwhile _ (Nat.le_refl _)⟩
  | stops => exact ⟨_, .meanwhile _ (Nat.le_refl _)⟩

theorem Affairs.Orderly.resumes {a : Affairs S} (h : a.Orderly apart) {task : Task S}
    (hm : task ∈ a.server.tasks) (reception : Reception) :
    (a.server.resume task reception).world.network.faults = [] ∧
    ∀ t ∈ (a.server.resume task reception).tasks, Sound apart t := by
  have hfit := nextPassage_fit h.faultless (h.tasks task hm) reception
  refine ⟨by rw [resume_world]; exact dealWith_faultless hfit, fun t ht => ?_⟩
  rcases (mem_resume hm).1 ht with ⟨ht, -⟩ | ht
  · exact h.tasks t ht
  · exact (dealWith_waits hfit t ht).1

theorem Happens.orderly {m m' : Moment S} {entries : List (Int × Happening)}
    (h : Happens m entries m') (ho : m.affairs.Orderly apart) : m'.affairs.Orderly apart := by
  obtain ⟨entry, hstep⟩ := h.follows
  suffices hw : m'.affairs.server.world.network.faults = [] ∧
      ∀ task ∈ m'.affairs.server.tasks, Sound apart task from
    ⟨(hstep.consistent ho.consistent).2, hw.1, hw.2⟩
  cases h with
  | hears sender bytes =>
      obtain ⟨registry, lines, he⟩ := accept_of_faultless ho.faultless sender bytes
      unfold Moment.hears Moment.andThen Affairs.hears
      rw [he]
      exact ⟨ho.faultless, ho.tasks⟩
  | @begins before after x hs =>
      have hk := askSocket_of_faultless ho.faultless
      have hfit := firstPassage_fit apart ho.faultless x hk
      refine ⟨(congrArg (fun w => w.network.faults) (launch_world hk)).trans
        (dealWith_faultless hfit), fun t ht => ?_⟩
      rcases (mem_launch hk).1 ht with ht | ht
      · exact ho.tasks t ht
      · exact (dealWith_waits hfit t ht).1
  | looks ht => exact ho.resumes ht _
  | wakes ht => exact ho.resumes ht _
  | delivers _ _ ht => exact ho.resumes ht _
  | misses | leaves | loses | passes | stops => exact ⟨ho.faultless, ho.tasks⟩

theorem Timeline.orderly {start : Moment S} {log : List (Int × Happening)} {m : Moment S}
    (h : Timeline start log m) (hs : start.affairs.Orderly apart) : m.affairs.Orderly apart := by
  induction h with
  | refl => exact hs
  | step _ hstep ih => exact hstep.orderly ih

end Server

end Tftp
