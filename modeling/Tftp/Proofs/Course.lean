import Tftp.Proofs.Reporting
import Tftp.Proofs.Serving

/-!
# The course of a server

A `Course` is what a server does from some point on, step by step and in any order: it hears
datagrams, and its transfers take their turns. In between time passes, the network changes in any
way, and it may be asked that everything comes to an end, but nobody else touches the storage or
sends anything.

Unlike the ledger of a `Run`, a course says of every turn which transfer has taken it, in which scene
and after which reception, and what has been put on record. The number of its socket tells one
transfer from all others, so the turns of one transfer can be picked out (`turnsOf`), and what every
turn preserves holds of every transfer at all times (`Course.lives`).
-/

namespace Tftp

open Transfer

variable {S : Storage}

theorem Event.isOutgoing_logged {notice : Notice} (h : announces notice = false) :
    (Event.logged notice).isOutgoing = false := by
  cases notice <;> first | rfl | cases h

/-! ## Deciding about a datagram -/

namespace Server

/-- A server has decided about something: it has written to its log and changed its registry, and it
may have found that it cannot start a task. -/
def Noted (server server' : Server S) : Prop :=
  ∃ registry faults lines,
    server' = { server with
      registry
      world := { server.world with
        network := { server.world.network with faults }
        trace := lines ++ server.world.trace } } ∧
    (∀ e ∈ lines, e.isOutgoing = false) ∧ (server.world.network.faults = [] → faults = [])

namespace Noted

variable {server server' : Server S}

theorem registers (server : Server S) (registry : Registry) : Noted server { server with registry } :=
  ⟨registry, server.world.network.faults, [], rfl, List.forall_mem_nil _, id⟩

theorem log (h : Noted server server') (notice : Notice) (hn : announces notice = false) :
    Noted server (server'.log notice) := by
  obtain ⟨registry, faults, lines, rfl, hl, hf⟩ := h
  rw [Server.log, act_eq]
  dsimp only
  rw [← Server.log, log_world]
  split
  · refine ⟨registry, faults, .logged notice :: lines, rfl, ?_, hf⟩
    exact List.forall_mem_cons.2 ⟨Event.isOutgoing_logged hn, hl⟩
  · exact ⟨registry, faults, lines, rfl, hl, hf⟩

theorem dismiss (h : Noted server server') (peer : Address) :
    Noted server (server'.dismiss peer) := by
  obtain ⟨registry, faults, lines, rfl, hl, hf⟩ := h
  exact ⟨_, faults, lines, rfl, hl, hf⟩

theorem startTask (h : Noted server server') (peer : Address) :
    Noted server (server'.startTask peer).2 := by
  unfold Server.startTask
  have hasked : Noted server { server' with world := { server'.world with
      network := { server'.world.network with
        faults := (askFaults .startTask server'.world.network.faults).2 } } } := by
    obtain ⟨registry, faults, lines, rfl, hl, hf⟩ := h
    refine ⟨registry, _, lines, rfl, hl, fun h => ?_⟩
    show (askFaults .startTask faults).2 = []
    rw [hf h]
    rfl
  dsimp only
  generalize askFaults .startTask server'.world.network.faults = asked at hasked ⊢
  obtain ⟨errno?, faults⟩ := asked
  cases errno? with
  | none => exact hasked
  | some errno => exact (hasked.log _ rfl).dismiss peer

end Noted

/-- **Whatever arrives on the listening socket, the server only notes it.** -/
theorem accept_noted (server : Server S) (sender : Address) (bytes : Bytes) :
    Noted server (server.accept sender bytes).2 := by
  have logged (notice : Notice) (hn : announces notice = false) : Noted server (server.log notice) :=
    (Noted.registers server server.registry).log notice hn
  unfold accept
  cases Packet.parse bytes with
  | error malformed => exact logged _ rfl
  | ok packet =>
      cases packet with
      | request direction request =>
          dsimp only
          cases server.registry.insert? sender with
          | none => exact logged _ rfl
          | some registry =>
              have h := ((Noted.registers server registry).log
                (.accepted (.request direction request) sender) rfl).startTask sender
              dsimp only
              generalize startTask _ sender = started at h ⊢
              obtain ⟨begun, server'⟩ := started
              cases begun <;> exact h
      | _ => exact logged _ rfl

theorem accept_tasks (server : Server S) (sender : Address) (bytes : Bytes) :
    (server.accept sender bytes).2.tasks = server.tasks := by
  obtain ⟨registry, faults, lines, he, -⟩ := accept_noted server sender bytes
  rw [he]

end Server

/-- What may happen to a world while nobody takes a turn. -/
structure World.Meanwhile (w w' : World S) : Prop where
  clock : w.clock ≤ w'.clock
  opened : w.network.opened ≤ w'.network.opened
  store : w'.store = w.store
  stopping : w.stopping = true → w'.stopping = true
  silent : ∀ e ∈ w'.trace, e.isOutgoing = true → e ∈ w.trace

/-- What has been put on record since then, oldest first. -/
def World.since (w w' : World S) : List Event := w'.trace.reverse.drop w.trace.length

theorem World.since_of_trace {w w' : World S} {events : List Event}
    (h : w'.trace = events ++ w.trace) : w.since w' = events.reverse := by
  rw [World.since, h, List.reverse_append, ← List.length_reverse, List.drop_left]

/-- A turn of a transfer at its server. -/
structure Passage (S : Storage) where
  /-- The number of the transfer's socket. -/
  number : Nat
  /-- How the receive of the transfer has ended, if this is not its first turn. -/
  reception? : Option Reception
  /-- The transfer and its world before the turn. -/
  scene : Scene S

namespace Passage

def reaction (p : Passage S) : Reaction S Unit := guarded (turn p.reception?)

/-- The transfer and its world after the turn. -/
def after (p : Passage S) : Scene S := p.scene.after p.reaction

def result (p : Passage S) : Except Failure Unit := p.scene.resultOf p.reaction

/-- Whether the transfer waits after the turn. -/
def waits (p : Passage S) : Bool :=
  match p.result with
  | .ok () => !p.after.self.isOver
  | .error _ => false

/-- What is left of the transfer after the turn. -/
def left (p : Passage S) : Option (Transfer S) := if p.waits then some p.after.self else none

theorem eq_of_left {p : Passage S} {t : Transfer S} (h : p.left = some t) :
    p.after.self = t ∧ p.after.self.isOver = false := by
  unfold left at h
  split at h
  next hw =>
    refine ⟨Option.some.inj h, ?_⟩
    unfold waits at hw
    cases hr : p.result with
    | ok u => simpa [hr] using hw
    | error f => simp [hr] at hw
  next => cases h

end Passage

/-- Where nothing is going to fail, a socket can be had. -/
theorem Network.openSocket_of_faultless {network : Network} (h : network.faults = [])
    (addr : Address) :
    openSocket { addr with port := 0 } network =
      .ok ⟨{ addr with port := network.nextPort }⟩
        { network with opened := network.opened + 1, nextPort := network.nextPort + 1 } := by
  obtain ⟨faults, nextPort, opened, closed⟩ := network
  subst h
  rfl

namespace Server

/-- What a server does in one step, with what is put on record by it, oldest first. -/
inductive Deed (S : Storage)
  /-- A datagram has arrived on the listening socket. -/
  | hears (sender : Address) (bytes : Bytes) (lines : List Event)
  /-- There is no socket for the transfer of a client. -/
  | lacks (peer : Address) (lines : List Event)
  /-- A transfer has taken a turn, and if that was its last, its server has dealt with its end. -/
  | turns (passage : Passage S) (lines : List Event)

/-- What is put on record. -/
def Deed.lines : Deed S → List Event
  | hears _ _ lines | lacks _ lines | turns _ lines => lines

/-- Asks for the socket of a transfer. -/
def askSocket (server : Server S) : EStateM.Result Failure (World S) Socket :=
  World.onNetwork (Network.openSocket { server.address with port := 0 }) server.world

theorem askSocket_of_faultless {server : Server S} (h : server.world.network.faults = []) :
    server.askSocket = .ok ⟨{ server.address with port := server.world.network.nextPort }⟩
      { server.world with
        network := { server.world.network with
          opened := server.world.network.opened + 1
          nextPort := server.world.network.nextPort + 1 } } := by
  rw [askSocket, World.onNetwork, Network.openSocket_of_faultless h]

/-- The first turn of a transfer. -/
def firstPassage (server : Server S) (assignment : Assignment) (socket : Socket)
    (world : World S) : Passage S where
  number := server.world.network.opened
  reception? := none
  scene := ⟨.new S assignment.direction assignment.request assignment.peer socket server.config true,
    world⟩

/-- The turn of a transfer whose receive has ended. -/
def nextPassage (server : Server S) (task : Task S) (reception : Reception) : Passage S where
  number := task.number
  reception? := some reception
  scene := ⟨task.transfer, server.world⟩

/-- Deals with what has become of a transfer in its turn. -/
def dealWith (server : Server S) (p : Passage S) : Server S × Option (Task S) :=
  { server with world := p.after.world }.settle p.number p.result p.after.self

theorem commence_of_error {server : Server S} (assignment : Assignment) {f : Failure}
    {world : World S} (h : server.askSocket = .error f world) :
    server.commence assignment =
      (({ server with world }.log (.noSocket assignment.peer f.message)).dismiss assignment.peer,
        none) := by
  unfold commence
  rw [show World.onNetwork _ server.world = _ from h]

theorem commence_of_ok {server : Server S} (assignment : Assignment) {socket : Socket}
    {world : World S} (h : server.askSocket = .ok socket world) :
    server.commence assignment = server.dealWith (server.firstPassage assignment socket world) := by
  rw [show server.commence assignment = _ from commence_eq server assignment h, begin_eq]
  rfl

theorem goOn_eq_dealWith (server : Server S) (task : Task S) (reception : Reception) :
    server.goOn task reception = server.dealWith (server.nextPassage task reception) := by
  rw [show server.goOn task reception = _ from goOn_eq server task reception, resume_eq]
  rfl

/-- One step of a server. -/
inductive Advance : Affairs S → Option (Deed S) → Affairs S → Prop
  /-- A datagram arrives on the listening socket. -/
  | hears {a : Affairs S} (sender : Address) (bytes : Bytes) :
      Advance a
        (some (.hears sender bytes
          (a.server.world.since (a.server.accept sender bytes).2.world)))
        { server := (a.server.accept sender bytes).2
          started := a.started ++ (a.server.accept sender bytes).1.toList }
  /-- The task of a transfer runs for the first time, but it gets no socket. -/
  | lacks {a : Affairs S} {before after : List Assignment} {assignment : Assignment} {f : Failure}
      {world : World S} :
      a.started = before ++ assignment :: after → a.server.askSocket = .error f world →
      Advance a
        (some (.lacks assignment.peer
          (a.server.world.since (a.server.launch assignment).world)))
        { server := a.server.launch assignment, started := before ++ after }
  /-- The task of a transfer runs for the first time. -/
  | begins {a : Affairs S} {before after : List Assignment} {assignment : Assignment}
      {socket : Socket} {world : World S} :
      a.started = before ++ assignment :: after → a.server.askSocket = .ok socket world →
      Advance a
        (some (.turns (a.server.firstPassage assignment socket world)
          (a.server.world.since (a.server.launch assignment).world)))
        { server := a.server.launch assignment, started := before ++ after }
  /-- The receive of a transfer ends. -/
  | resumes {a : Affairs S} {task : Task S} (reception : Reception) : task ∈ a.server.tasks →
      Advance a
        (some (.turns (a.server.nextPassage task reception)
          (a.server.world.since (a.server.resume task reception).world)))
        { a with server := a.server.resume task reception }
  | meanwhile {a : Affairs S} (world : World S) : a.server.world.Meanwhile world →
      Advance a none { a with server := { a.server with world } }

/-- What a server has done since it was in the given state, oldest first. -/
inductive Course (start : Affairs S) : List (Deed S) → Affairs S → Prop
  | refl : Course start [] start
  | step {deeds : List (Deed S)} {deed? : Option (Deed S)} {a a' : Affairs S} :
      Course start deeds a → Advance a deed? a' → Course start (deeds ++ deed?.toList) a'

theorem Advance.toStep {a a' : Affairs S} {deed? : Option (Deed S)} (h : Advance a deed? a') :
    ∃ entry, Step a entry a' := by
  cases h with
  | hears sender bytes => exact ⟨_, .hears sender bytes⟩
  | lacks ha _ => exact ⟨_, .commences ha⟩
  | begins ha _ => exact ⟨_, .commences ha⟩
  | resumes reception ht => exact ⟨_, .resumes reception ht⟩
  | meanwhile world hw => exact ⟨_, .meanwhile world hw.opened⟩

/-- A course is a run. -/
theorem Course.toRun {start a : Affairs S} {deeds : List (Deed S)} (h : Course start deeds a) :
    ∃ ledger, Run start ledger a := by
  induction h with
  | refl => exact ⟨_, .refl⟩
  | step _ hstep ih =>
      obtain ⟨ledger, hr⟩ := ih
      obtain ⟨entry, hs⟩ := hstep.toStep
      exact ⟨_, hr.step hs⟩

theorem Course.of_eq {start a : Affairs S} {deeds deeds' : List (Deed S)}
    (h : Course start deeds a) (he : deeds = deeds') : Course start deeds' a :=
  he ▸ h

theorem Course.trans {a b c : Affairs S} {deeds deeds' : List (Deed S)} (h : Course a deeds b)
    (h' : Course b deeds' c) : Course a (deeds ++ deeds') c := by
  induction h' with
  | refl => exact h.of_eq (List.append_nil _).symm
  | step _ hstep ih => exact (ih.step hstep).of_eq (List.append_assoc ..)

theorem Course.consistent {start a : Affairs S} {deeds : List (Deed S)}
    (h : Course start deeds a) (hs : start.Consistent) : a.Consistent := by
  obtain ⟨ledger, hr⟩ := h.toRun
  exact hr.consistent hs

/-! ## The turns of one transfer -/

/-- The turn of the transfer with the given number, and what has been put on record by it. -/
def Deed.turnOf? (n : Nat) : Deed S → Option (Passage S × List Event)
  | turns passage lines => if passage.number = n then some (passage, lines) else none
  | _ => none

/-- The turns of one transfer, oldest first. -/
def turnsOf (n : Nat) (deeds : List (Deed S)) : List (Passage S × List Event) :=
  deeds.filterMap (Deed.turnOf? n)

@[simp] theorem turnsOf_nil (n : Nat) : turnsOf n ([] : List (Deed S)) = [] := rfl

@[simp] theorem turnsOf_append (n : Nat) (a b : List (Deed S)) :
    turnsOf n (a ++ b) = turnsOf n a ++ turnsOf n b :=
  List.filterMap_append ..

theorem settle_task (server : Server S) (number : Nat) (result : Except Failure Unit)
    (transfer : Transfer S) :
    (server.settle number result transfer).1.tasks = server.tasks ∧
    ((server.settle number result transfer).2.map Task.transfer =
      match result with
      | .ok () => if transfer.isOver then none else some transfer
      | .error _ => none) ∧
    ∀ task ∈ (server.settle number result transfer).2, task.number = number := by
  unfold Server.settle
  cases result with
  | error f => simp [dismiss]
  | ok u =>
      dsimp only
      split <;> simp_all [dismiss]

/-- What becomes of the task of a transfer in a turn. -/
theorem dealWith_task (server : Server S) (p : Passage S) :
    (server.dealWith p).1.tasks = server.tasks ∧
    (server.dealWith p).2.map Task.transfer = p.left ∧
    ∀ task ∈ (server.dealWith p).2, task.number = p.number := by
  obtain ⟨ht, hm, hn⟩ :=
    settle_task { server with world := p.after.world } p.number p.result p.after.self
  refine ⟨ht, hm.trans ?_, hn⟩
  unfold Passage.left Passage.waits
  cases p.result with
  | error f => rfl
  | ok u => cases p.after.self.isOver <;> rfl

theorem dealWith_frame (server : Server S) (p : Passage S) :
    (server.dealWith p).1.world.frame = p.scene.world.frame :=
  (settle_frame ..).trans
    (congrArg Transfer.Frame.world (frame_after (.turn p.reception?) p.scene))

/-- The storage is not involved in dealing with the end of a transfer. -/
theorem dealWith_store (server : Server S) (p : Passage S) :
    (server.dealWith p).1.world.store = p.after.world.store := by
  unfold dealWith
  cases p.result with
  | error f =>
      obtain ⟨lines, network, -, hafter⟩ :=
        settle_error { server with world := p.after.world } p.number f p.after.self
      rw [hafter]
  | ok u =>
      unfold Server.settle
      dsimp only
      split <;> rfl

/-- Nothing is put on record about a transfer that has not failed. -/
theorem dealWith_trace_of_ok (server : Server S) {p : Passage S} (h : p.result = .ok ()) :
    (server.dealWith p).1.world.trace = p.after.world.trace := by
  unfold dealWith Server.settle
  rw [h]
  dsimp only
  split <;> rfl

/-- What is put on record about a transfer that has failed. -/
theorem dealWith_trace_of_error (server : Server S) {p : Passage S} {f : Failure}
    (h : p.result = .error f) : ∃ report network,
      Reported p.after.self p.after.world f report network ∧
      (server.dealWith p).1.world.network = { network with closed := network.closed + 1 } ∧
      (server.dealWith p).1.world.trace = report.reverse ++ p.after.world.trace := by
  obtain ⟨report, network, hreport, hafter⟩ :=
    settle_error { server with world := p.after.world } p.number f p.after.self
  refine ⟨report, network, hreport, ?_⟩
  unfold dealWith
  rw [h, hafter]
  exact ⟨rfl, rfl⟩

theorem dealWith_opened (server : Server S) (p : Passage S) :
    (server.dealWith p).1.world.network.opened = p.scene.world.network.opened :=
  congrArg World.Frame.opened (dealWith_frame ..)

/-- Asking for a socket is asking the network. -/
theorem askSocket_world (server : Server S) :
    match server.askSocket with
    | .ok _ world | .error _ world => ∃ network, world = { server.world with network } := by
  unfold askSocket World.onNetwork
  cases Network.openSocket { server.address with port := 0 } server.world.network with
  | ok socket network => exact ⟨network, rfl⟩
  | error f network => exact ⟨network, rfl⟩

theorem world_of_askSocket {server : Server S} {socket : Socket} {world : World S}
    (h : server.askSocket = .ok socket world) : ∃ network, world = { server.world with network } := by
  have hw := askSocket_world server
  rwa [h] at hw

theorem world_of_lacks {server : Server S} {f : Failure} {world : World S}
    (h : server.askSocket = .error f world) : ∃ network, world = { server.world with network } := by
  have hw := askSocket_world server
  rwa [h] at hw

/-- A socket has a number of its own. -/
theorem opened_askSocket {server : Server S} {socket : Socket} {world : World S}
    (h : server.askSocket = .ok socket world) :
    world.network.opened = server.world.network.opened + 1 := by
  have hs := Network.opened_openSocket { server.address with port := 0 } server.world.network
  unfold askSocket World.onNetwork at h
  cases ho : Network.openSocket { server.address with port := 0 } server.world.network with
  | error f network =>
      rw [ho] at h
      cases h
  | ok socket' network =>
      rw [ho] at h hs
      cases h
      exact hs

/-- What a server has done about each of its transfers so far, if `K` relates the turns of one to
what is left of it. -/
structure Lives (K : List (Passage S × List Event) → Option (Transfer S) → Prop)
    (deeds : List (Deed S)) (server : Server S) : Prop where
  /-- A transfer that waits. -/
  waiting : ∀ task ∈ server.tasks, K (turnsOf task.number deeds) (some task.transfer)
  /-- A transfer that has ended, or of which there is no turn. -/
  ended : ∀ n, n ∉ server.numbers → turnsOf n deeds = [] ∨ K (turnsOf n deeds) none
  /-- A number that is still to be given. -/
  ahead : ∀ n, server.world.network.opened ≤ n → turnsOf n deeds = []

theorem Lives.exists_left {K : List (Passage S × List Event) → Option (Transfer S) → Prop}
    {deeds : List (Deed S)} {server : Server S} (h : Lives K deeds server) {n : Nat}
    (hn : turnsOf n deeds ≠ []) : ∃ left, K (turnsOf n deeds) left := by
  by_cases hm : n ∈ server.numbers
  · obtain ⟨task, ht, rfl⟩ := List.mem_map.1 hm
    exact ⟨_, h.waiting task ht⟩
  · exact ⟨none, (h.ended n hm).resolve_left hn⟩

variable {K : List (Passage S × List Event) → Option (Transfer S) → Prop} {deeds : List (Deed S)}
  {server server' : Server S}

/-- A step that is no turn of a transfer. -/
theorem Lives.idle (h : Lives K deeds server) {deed? : Option (Deed S)}
    (hd : ∀ n, turnsOf n deed?.toList = []) (ht : server'.tasks = server.tasks)
    (ho : server.world.network.opened ≤ server'.world.network.opened) :
    Lives K (deeds ++ deed?.toList) server' where
  waiting task hm := by
    rw [turnsOf_append, hd, List.append_nil]
    exact h.waiting task (ht ▸ hm)
  ended n hn := by
    rw [turnsOf_append, hd, List.append_nil]
    exact h.ended n (by rwa [numbers, ← ht])
  ahead n hn := by
    rw [turnsOf_append, hd, List.append_nil]
    exact h.ahead n (Nat.le_trans ho hn)

theorem turnsOf_turns (n : Nat) (p : Passage S) (lines : List Event) :
    turnsOf n [.turns p lines] = if p.number = n then [(p, lines)] else [] := by
  unfold turnsOf
  rw [List.filterMap_cons]
  unfold Deed.turnOf?
  split <;> simp_all

/-- A turn of one transfer, which takes the place of what there was of it before. -/
theorem Lives.turn (h : Lives K deeds server) {p : Passage S} {lines : List Event}
    (before old after : List (Task S)) {task? : Option (Task S)}
    (ht : server.tasks = before ++ old ++ after)
    (ht' : server'.tasks = before ++ task?.toList ++ after)
    (hothers : ∀ t ∈ before ++ after, t.number ≠ p.number) (hold : ∀ t ∈ old, t.number = p.number)
    (hleft : task?.map Task.transfer = p.left) (hnumber : ∀ t ∈ task?, t.number = p.number)
    (ho : server.world.network.opened ≤ server'.world.network.opened)
    (hp : p.number < server'.world.network.opened)
    (hK : K (turnsOf p.number deeds ++ [(p, lines)]) p.left) :
    Lives K (deeds ++ [.turns p lines]) server' where
  -- The task of this turn is what it has left of the transfer; all others were there before.
  waiting task hm := by
    rw [turnsOf_append, turnsOf_turns]
    split
    next hn =>
      have : task ∈ task? := by
        rw [ht'] at hm
        by_contra hne
        exact hothers task (by simp_all) hn.symm
      rw [← hn]
      rwa [← hleft, this] at hK
    next hn =>
      rw [List.append_nil]
      refine h.waiting task ?_
      have : task ∉ task? := fun h => hn (hnumber task h).symm
      simp only [ht', ht, List.mem_append, Option.mem_toList] at hm ⊢
      grind
  ended n hm := by
    rw [turnsOf_append, turnsOf_turns]
    split
    next hn =>
      subst hn
      refine .inr ?_
      have : task? = none := by
        rw [Option.eq_none_iff_forall_not_mem]
        intro t h
        refine hm ?_
        rw [numbers, ht', ← hnumber t h]
        exact List.mem_map_of_mem (by simp_all)
      rwa [← hleft, this] at hK
    next hn =>
      rw [List.append_nil]
      refine h.ended n fun hmem => hm ?_
      rw [numbers, ht] at hmem
      obtain ⟨t, hmem, rfl⟩ := List.mem_map.1 hmem
      rw [numbers, ht']
      refine List.mem_map_of_mem ?_
      have : t ∉ old := fun h => hn (hold t h).symm
      simp only [List.mem_append] at hmem ⊢
      grind
  ahead n hn := by
    rw [turnsOf_append, turnsOf_turns, if_neg (by omega), List.append_nil]
    exact h.ahead n (Nat.le_trans ho hn)

theorem launch_of_ok (assignment : Assignment) {socket : Socket} {world : World S}
    (h : server.askSocket = .ok socket world) :
    let outcome := server.dealWith (server.firstPassage assignment socket world)
    server.launch assignment =
      { outcome.1 with tasks := server.tasks ++ outcome.2.toList } := by
  unfold launch
  rw [commence_of_ok assignment h]
  dsimp only
  rw [(dealWith_task ..).1]

theorem resume_eq_dealWith (server : Server S) (task : Task S) (reception : Reception) :
    let outcome := server.dealWith (server.nextPassage task reception)
    server.resume task reception =
      { outcome.1 with tasks := server.tasks.flatMap fun t =>
          if t.number = task.number then outcome.2.toList else [t] } := by
  unfold Server.resume
  rw [goOn_eq_dealWith]
  dsimp only
  rw [(dealWith_task ..).1]

/-- The first turn of a transfer, whose number is new. -/
theorem Lives.begins (h : Lives K deeds server)
    (hn : ∀ n ∈ server.numbers, n < server.world.network.opened) {assignment : Assignment}
    {socket : Socket} {world : World S} (hs : server.askSocket = .ok socket world) :
    let p := server.firstPassage assignment socket world
    K [(p, server.world.since (server.dealWith p).1.world)] p.left →
      Lives K (deeds ++ [.turns p (server.world.since (server.launch assignment).world)])
        (server.launch assignment) := by
  intro p hK
  have hl := launch_of_ok assignment hs
  obtain ⟨-, hleft, hnumber⟩ := dealWith_task server p
  have hopened : (server.launch assignment).world.network.opened =
      server.world.network.opened + 1 := by
    rw [hl]
    exact (dealWith_opened ..).trans (opened_askSocket hs)
  have hnew : turnsOf p.number deeds = [] := h.ahead _ (Nat.le_refl _)
  refine h.turn server.tasks [] [] (by simp)
    (by rw [hl]; simp [p]) (fun t hm => ?_) (fun _ h => nomatch h) hleft hnumber
    (by omega) (Nat.lt_of_lt_of_eq (Nat.lt_succ_self _) hopened.symm) ?_
  · rw [List.append_nil] at hm
    exact Nat.ne_of_lt (hn _ (List.mem_map_of_mem hm))
  · rw [hnew, hl]
    exact hK

/-- A later turn of a transfer. -/
theorem Lives.resumes (h : Lives K deeds server) (hnodup : server.numbers.Nodup)
    (hn : ∀ n ∈ server.numbers, n < server.world.network.opened) {task : Task S}
    (hm : task ∈ server.tasks) (reception : Reception) :
    let p := server.nextPassage task reception
    K (turnsOf task.number deeds ++ [(p, server.world.since (server.dealWith p).1.world)]) p.left →
      Lives K (deeds ++ [.turns p (server.world.since (server.resume task reception).world)])
        (server.resume task reception) := by
  intro p hK
  have hr := resume_eq_dealWith server task reception
  obtain ⟨-, hleft, hnumber⟩ := dealWith_task server p
  have hopened := (resume_numbers hnodup hm reception).2
  have hlt : task.number < server.world.network.opened := hn _ (List.mem_map_of_mem hm)
  obtain ⟨before, after, hs⟩ := List.append_of_mem hm
  unfold numbers at hnodup
  rw [hs] at hnodup
  have hne : task.number ∉ (before ++ after).map Task.number := by
    rw [List.map_append]
    rw [List.map_append, List.map_cons, List.nodup_middle] at hnodup
    exact (List.nodup_cons.1 hnodup).1
  refine h.turn before [task] after (by simp [hs])
    ?_ (fun t ht he => hne ?_) (by simp [p, nextPassage]) hleft hnumber (Nat.le_of_eq hopened.symm)
    (Nat.lt_of_lt_of_eq hlt hopened.symm) ?_
  · rw [hr, hs]
    exact replace_task hnodup _
  · rw [← show t.number = task.number from he]
    exact List.mem_map_of_mem ht
  · rw [hr]
    exact hK

/-- A turn of a transfer at its server: what is left of the transfer takes the place of what there was
of it before, and all other transfers are left alone. -/
structure Yields (server : Server S) (p : Passage S) (server' : Server S) : Prop where
  others : ∀ task ∈ server'.tasks, task.number ≠ p.number → task ∈ server.tasks
  own : ∀ task ∈ server'.tasks, task.number = p.number → p.left = some task.transfer
  before : ∀ task ∈ server.tasks, task.number = p.number → task.transfer = p.scene.self
  store : p.scene.world.store = server.world.store
  store' : server'.world.store = p.after.world.store

theorem yields_launch (hn : ∀ n ∈ server.numbers, n < server.world.network.opened)
    (assignment : Assignment) {socket : Socket} {world : World S}
    (hs : server.askSocket = .ok socket world) :
    server.Yields (server.firstPassage assignment socket world) (server.launch assignment) := by
  have hl := launch_of_ok assignment hs
  obtain ⟨-, hleft, hnumber⟩ := dealWith_task server (server.firstPassage assignment socket world)
  have hne : ∀ task ∈ server.tasks,
      task.number ≠ (server.firstPassage assignment socket world).number :=
    fun task hm => Nat.ne_of_lt (hn _ (List.mem_map_of_mem hm))
  refine ⟨fun task hm hne' => ?_, fun task hm he => ?_, fun task hm he => absurd he (hne task hm),
    ?_, ?_⟩
  · rw [hl] at hm
    refine (List.mem_append.1 hm).resolve_right fun hm => hne' ?_
    exact hnumber task (Option.mem_toList.1 hm)
  · rw [hl] at hm
    have hm := (List.mem_append.1 hm).resolve_left fun hm => hne task hm he
    rw [← hleft, Option.mem_toList.1 hm]
    rfl
  · obtain ⟨network, rfl⟩ := world_of_askSocket hs
    rfl
  · rw [hl]
    exact dealWith_store ..

theorem yields_resume (hn : server.numbers.Nodup) {task : Task S} (hm : task ∈ server.tasks)
    (reception : Reception) :
    server.Yields (server.nextPassage task reception) (server.resume task reception) := by
  have hr := resume_eq_dealWith server task reception
  obtain ⟨-, hleft, hnumber⟩ := dealWith_task server (server.nextPassage task reception)
  have hmem : ∀ t ∈ (server.resume task reception).tasks,
      t ∈ (server.dealWith (server.nextPassage task reception)).2 ∨
        t ∈ server.tasks ∧ t.number ≠ task.number := by
    intro t hm
    rw [hr] at hm
    obtain ⟨t', hm', hm⟩ := List.mem_flatMap.1 hm
    split at hm
    · exact .inl (Option.mem_toList.1 hm)
    next hne =>
      obtain rfl := List.mem_singleton.1 hm
      exact .inr ⟨hm', hne⟩
  refine ⟨fun t hm hne => ?_, fun t hm he => ?_, fun t hm' he => ?_, rfl, ?_⟩
  · exact ((hmem t hm).resolve_left fun h => hne (hnumber t h)).1
  · rw [← hleft, (hmem t hm).resolve_right fun h => h.2 he]
    rfl
  · rw [List.inj_on_of_nodup_map hn hm' hm he]
    rfl
  · rw [hr]
    exact dealWith_store ..

/-- **What every turn preserves holds of every transfer at all times.** A turn may rely on what holds
of the server all along. -/
theorem Course.lives_under {I : Affairs S → Prop} {start a : Affairs S} (hc : start.Consistent)
    (ht : ∀ task ∈ start.server.tasks, K [] (some task.transfer))
    (always : ∀ {deeds : List (Deed S)} {b : Affairs S}, Course start deeds b → I b)
    (begins : ∀ (b : Affairs S) (assignment : Assignment) (socket : Socket) (world : World S), I b →
      b.server.askSocket = .ok socket world →
      let p := b.server.firstPassage assignment socket world
      K [(p, b.server.world.since (b.server.dealWith p).1.world)] p.left)
    (resumes : ∀ (b : Affairs S) (task : Task S) (reception : Reception)
      (turns : List (Passage S × List Event)), I b → task ∈ b.server.tasks →
      K turns (some task.transfer) →
      let p := b.server.nextPassage task reception
      K (turns ++ [(p, b.server.world.since (b.server.dealWith p).1.world)]) p.left)
    (h : Course start deeds a) : Lives K deeds a.server := by
  induction h with
  | refl => exact ⟨ht, fun _ _ => .inl rfl, fun _ _ => rfl⟩
  | @step deeds deed? b b' h hstep ih =>
      -- A turn is that of one task only, since the numbers of tasks are distinct.
      have hcons := h.consistent hc
      cases hstep with
      | hears sender bytes =>
          refine ih.idle (fun n => rfl) ?_ (Nat.le_of_eq (hears_numbers ..).2.symm)
          exact accept_tasks ..
      | meanwhile world hw => exact ih.idle (fun n => rfl) rfl hw.opened
      | lacks hs he =>
          refine ih.idle (fun n => rfl) ?_ (launch_numbers ..).1
          unfold launch
          rw [commence_of_error _ he]
          simp [dismiss]
      | begins hs hk => exact ih.begins hcons.opened hk (begins b _ _ _ (always h) hk)
      | resumes reception hm =>
          exact ih.resumes hcons.numbers hcons.opened hm reception
            (resumes b _ reception _ (always h) hm (ih.waiting _ hm))

theorem Course.lives {start a : Affairs S} (hc : start.Consistent) (ht : start.server.tasks = [])
    (begins : ∀ (server : Server S) (assignment : Assignment) (socket : Socket) (world : World S),
      server.askSocket = .ok socket world →
      let p := server.firstPassage assignment socket world
      K [(p, server.world.since (server.dealWith p).1.world)] p.left)
    (resumes : ∀ (server : Server S) (task : Task S) (reception : Reception)
      (turns : List (Passage S × List Event)), K turns (some task.transfer) →
      let p := server.nextPassage task reception
      K (turns ++ [(p, server.world.since (server.dealWith p).1.world)]) p.left)
    (h : Course start deeds a) : Lives K deeds a.server :=
  h.lives_under (I := fun _ => True) hc (by simp [ht]) (fun _ => trivial)
    (fun b assignment socket world _ => begins b.server assignment socket world)
    fun b task reception turns _ _ => resumes b.server task reception turns

/-! ## Courses that are worked out -/

/-- What happens to a server next. -/
inductive Move
  /-- A datagram arrives on the listening socket. -/
  | hear (sender : Address) (bytes : Bytes)
  /-- The oldest of the tasks that have not run yet runs. -/
  | begin
  /-- The receive of the transfer on the socket with the given number ends. -/
  | resume (number : Nat) (reception : Reception)
  /-- The server is asked to stop. -/
  | stop
  /-- So many milliseconds pass. -/
  | wait (ms : Nat)
  deriving DecidableEq, Repr

/-- Makes a move: what is done in it, and what it leads to. A move that is not possible changes
nothing. -/
def Affairs.move (a : Affairs S) : Move → Option (Deed S) × Affairs S
  | .hear sender bytes =>
    let (assignment?, server) := a.server.accept sender bytes
    (some (.hears sender bytes (a.server.world.since server.world)),
      { server, started := a.started ++ assignment?.toList })
  | .begin =>
    match a.started with
    | [] => (none, a)
    | assignment :: started =>
      let server := a.server.launch assignment
      let lines := a.server.world.since server.world
      match a.server.askSocket with
      | .ok socket world =>
        (some (.turns (a.server.firstPassage assignment socket world) lines), { server, started })
      | .error _ _ => (some (.lacks assignment.peer lines), { server, started })
  | .resume number reception =>
    match a.server.tasks.find? fun task => task.number == number with
    | none => (none, a)
    | some task =>
      let server := a.server.resume task reception
      (some (.turns (a.server.nextPassage task reception) (a.server.world.since server.world)),
        { a with server })
  | .stop => (none, { a with server := a.server.stop })
  | .wait ms =>
    let world := { a.server.world with clock := a.server.world.clock + ms }
    (none, { a with server := { a.server with world } })

/-- Makes one move after the other. -/
def Affairs.moves (a : Affairs S) : List Move → List (Deed S) × Affairs S
  | [] => ([], a)
  | move :: moves =>
    let (deed?, a) := a.move move
    let (deeds, a) := a.moves moves
    (deed?.toList ++ deeds, a)

theorem Course.of_advance {a a' : Affairs S} {deed? : Option (Deed S)} (h : Advance a deed? a') :
    Course a deed?.toList a' :=
  .step .refl h

/-- A move is a step, unless it is not possible. -/
theorem Affairs.advance_move (a : Affairs S) (move : Move) :
    Advance a (a.move move).1 (a.move move).2 ∨ a.move move = (none, a) := by
  cases move with
  | hear sender bytes => exact .inl (.hears sender bytes)
  | begin =>
      unfold Affairs.move
      cases hs : a.started with
      | nil => exact .inr rfl
      | cons assignment started =>
          dsimp only
          have hs : a.started = [] ++ assignment :: started := hs
          cases hk : a.server.askSocket with
          | ok socket world => exact .inl (.begins hs hk)
          | error f world => exact .inl (.lacks hs hk)
  | resume number reception =>
      unfold Affairs.move
      dsimp only
      cases hf : a.server.tasks.find? fun task => task.number == number with
      | none => exact .inr rfl
      | some task => exact .inl (.resumes reception (List.mem_of_find?_eq_some hf))
  | stop =>
      exact .inl
        (.meanwhile _ ⟨Int.le_refl _, Nat.le_refl _, rfl, fun _ => rfl, fun _ h _ => h⟩)
  | wait ms =>
      exact .inl (.meanwhile _
        ⟨Int.le_add_of_nonneg_right (Int.natCast_nonneg ms), Nat.le_refl _, rfl, id,
          fun _ h _ => h⟩)

theorem Affairs.course_move (a : Affairs S) (move : Move) :
    Course a (a.move move).1.toList (a.move move).2 := by
  rcases a.advance_move move with h | h
  · exact .of_advance h
  · rw [h]
    exact .refl

/-- What moves lead to is a course. -/
theorem Affairs.course_moves (a : Affairs S) (moves : List Move) :
    Course a (a.moves moves).1 (a.moves moves).2 := by
  induction moves generalizing a with
  | nil => exact .refl
  | cons move moves ih => exact (a.course_move move).trans (ih _)

end Server

end Tftp
