import Mathlib.Data.List.Perm.Basic
import Mathlib.Data.List.Nodup
import Tftp.Proofs.Frame
import Tftp.Proofs.Reaction
import Tftp.Server
import Tftp.Storage.Scripted

/-!
# Whom a server serves

A server works on several things at once: it hears datagrams, the task of each transfer that it has
accepted runs for the first time, and then again and again. `Step` is one of these, in any order and
whatever happens to the world in between, and its label is what it means for a client: that a
transfer of theirs is accepted or has ended. A `Run` is a number of steps, and its ledger is what
they have meant.

    accept ─▶ commence ─▶ goOn ─▶ … ─▶ goOn
       │          │          └─────────┴──▶ ended
       │          └───────────────────────▶ ended
       └──▶ ignored

The registry is to be the set of the clients with a transfer. `Consistent` is the invariant that
says so: it holds of a server that has just been made, and every step preserves it.
-/

namespace Tftp

namespace Server

variable {S : Storage}

/-! ## What acts in the world leave alone -/

@[simp] theorem act_registry (server : Server S) (m : Act S Unit) :
    (server.act m).registry = server.registry := by
  unfold Server.act
  cases m server.world <;> rfl

@[simp] theorem act_tasks (server : Server S) (m : Act S Unit) :
    (server.act m).tasks = server.tasks := by
  unfold Server.act
  cases m server.world <;> rfl

theorem act_eq (server : Server S) (m : Act S Unit) :
    server.act m = { server with world := (server.act m).world } := by
  unfold Server.act
  cases m server.world <;> rfl

theorem act_frame (server : Server S) {m : Act S Unit} (h : Keeps World.frame m) :
    (server.act m).world.frame = server.world.frame := by
  unfold Server.act
  cases hr : m server.world with
  | ok _ world => exact h.of_ok hr
  | error _ world => exact h.of_error hr

@[simp] theorem log_registry (server : Server S) (notice : Notice) :
    (server.log notice).registry = server.registry :=
  act_registry ..

@[simp] theorem log_tasks (server : Server S) (notice : Notice) :
    (server.log notice).tasks = server.tasks :=
  act_tasks ..

theorem log_world (server : Server S) (notice : Notice) :
    (server.log notice).world = if notice.level ≠ .debug ∨ server.world.verbose = true then
      { server.world with trace := .logged notice :: server.world.trace } else server.world := by
  simp only [Server.log, Server.act, World.log_eq]

@[simp] theorem log_store (server : Server S) (notice : Notice) :
    (server.log notice).world.store = server.world.store := by
  rw [log_world]
  split <;> rfl

@[simp] theorem log_network (server : Server S) (notice : Notice) :
    (server.log notice).world.network = server.world.network := by
  rw [log_world]
  split <;> rfl

/-- A line in the log is no deed. -/
@[simp] theorem log_deeds (server : Server S) (notice : Notice) :
    (server.log notice).world.deeds = server.world.deeds := by
  rw [log_world]
  split <;> rfl

/-- Reporting a failure leaves the frame of the world alone. -/
theorem report_keeps (failure : Failure) (transfer : Transfer S) :
    Keeps World.frame (report failure transfer) := by
  unfold report
  dsimp only
  split
  · exact .worldLog _
  · exact .bind (.worldLog _) fun _ => .bind (.worldLog _) fun _ =>
      .tryCatch (.worldSend _ _ _) fun _ => .worldLog _

/-! ## What becomes of a transfer -/

/-- What a turn of a transfer does to the server: the transfer of the given client has ended, and
the client is out of the registry, or it waits under the given number. Other transfers and other
clients are left alone. -/
inductive Outcome (server : Server S) (peer : Address) (number : Nat) :
    Server S × Option (Task S) → Prop
  | ended {server' : Server S} : server'.tasks = server.tasks →
      server'.registry = server.registry.erase peer → Outcome server peer number (server', none)
  | waits {server' : Server S} {task : Task S} : server'.tasks = server.tasks →
      server'.registry = server.registry → task.number = number → task.transfer.peer = peer →
      Outcome server peer number (server', some task)

theorem settle_outcome (server : Server S) (world : World S) (number : Nat)
    (result : Except Failure Unit) (transfer : Transfer S) :
    Outcome server transfer.peer number
      ({ server with world }.settle number result transfer) := by
  unfold Server.settle
  cases result with
  | error failure => exact .ended (by simp [dismiss]) (by simp [dismiss])
  | ok _ =>
      dsimp only
      split
      · exact .ended (by simp [dismiss]) (by simp [dismiss])
      · exact .waits rfl rfl rfl rfl

/-- Whatever becomes of a transfer, the frame of the world is left alone. -/
theorem settle_frame (server : Server S) (number : Nat) (result : Except Failure Unit)
    (transfer : Transfer S) :
    (server.settle number result transfer).1.world.frame = server.world.frame := by
  have hc (server : Server S) : ((server.act (World.onNetwork Network.close)).dismiss
      transfer.peer).world.frame = server.world.frame :=
    act_frame server (.onNetwork .close)
  unfold Server.settle
  cases result with
  | error failure => exact (hc _).trans (act_frame server (report_keeps _ _))
  | ok _ =>
      dsimp only
      split
      · exact hc server
      · rfl

theorem settle_opened (server : Server S) (number : Nat) (result : Except Failure Unit)
    (transfer : Transfer S) :
    (server.settle number result transfer).1.world.network.opened =
      server.world.network.opened :=
  congrArg World.Frame.opened (settle_frame ..)

/-- The rest of a turn, after the reaction of the transfer. -/
theorem perform_outcome (server : Server S) (number : Nat) {m : Transfer.Reaction S Unit}
    (h : Transfer.Steady m) (transfer : Transfer S) (world : World S) :
    let (result, transfer', world') := Transfer.perform m transfer world
    let after := { server with world := world' }.settle number result transfer'
    Outcome server transfer.peer number after ∧
      after.1.world.network.opened = world.network.opened := by
  cases hp : Transfer.perform m transfer world with
  | mk result rest =>
      obtain ⟨transfer', world'⟩ := rest
      have h := h.perform hp
      have hpeer : transfer'.peer = transfer.peer := congrArg Transfer.Frame.peer h
      have hopened : world'.network.opened = world.network.opened :=
        congrArg (fun f : Transfer.Frame => f.world.opened) h
      dsimp only
      rw [← hpeer]
      exact ⟨settle_outcome server world' number result transfer', (settle_opened ..).trans hopened⟩

theorem goOn_outcome (server : Server S) (task : Task S) (reception : Reception) :
    Outcome server task.transfer.peer task.number (server.goOn task reception) ∧
      (server.goOn task reception).1.world.network.opened = server.world.network.opened :=
  perform_outcome server task.number (.resume reception) task.transfer server.world

/-- A transfer that waits has a socket whose number is new. -/
theorem commence_outcome (server : Server S) (assignment : Assignment) :
    Outcome server assignment.peer server.world.network.opened (server.commence assignment) ∧
      server.world.network.opened ≤ (server.commence assignment).1.world.network.opened ∧
      ((server.commence assignment).2 ≠ none →
        server.world.network.opened < (server.commence assignment).1.world.network.opened) := by
  have hs := Network.opened_openSocket { server.address with port := 0 } server.world.network
  unfold commence World.onNetwork
  cases ho : Network.openSocket { server.address with port := 0 } server.world.network with
  | error failure network =>
      rw [ho] at hs
      exact ⟨.ended (by simp [dismiss]) (by simp [dismiss]), by simpa [dismiss] using hs,
        fun h => absurd rfl h⟩
  | ok socket network =>
      rw [ho] at hs
      have h := perform_outcome server server.world.network.opened .begin
        (Transfer.new S assignment.direction assignment.request assignment.peer socket
          server.config true) { server.world with network }
      have hlt := Nat.lt_of_lt_of_eq (Nat.lt_of_lt_of_eq (Nat.lt_succ_self _) hs.symm) h.2.symm
      exact ⟨h.1, Nat.le_of_lt hlt, fun _ => hlt⟩

/-! ## Datagrams on the listening socket -/

/-- Whether the next task can be started. -/
def CanStart (server : Server S) : Prop :=
  (askFaults .startTask server.world.network.faults).1 = none

/-- Whether a datagram is the request of a client without a transfer, and a task can be started for
it. -/
structure Accepts (server : Server S) (bytes : Bytes) (assignment : Assignment) : Prop where
  request : Packet.parse bytes = .ok (.request assignment.direction assignment.request)
  unregistered : server.registry.contains assignment.peer = false
  canStart : server.CanStart

/-- Nothing has changed but the log and the operations that are going to fail. -/
structure Undisturbed (server server' : Server S) : Prop where
  registry : server'.registry = server.registry
  tasks : server'.tasks = server.tasks
  store : server'.world.store = server.world.store
  opened : server'.world.network.opened = server.world.network.opened
  deeds : server'.world.deeds = server.world.deeds

theorem log_undisturbed (server : Server S) (notice : Notice) :
    Undisturbed server (server.log notice) := by
  constructor <;> simp

theorem Undisturbed.trans {a b c : Server S} (h : Undisturbed a b) (h' : Undisturbed b c) :
    Undisturbed a c where
  registry := h'.registry.trans h.registry
  tasks := h'.tasks.trans h.tasks
  store := h'.store.trans h.store
  opened := h'.opened.trans h.opened
  deeds := h'.deeds.trans h.deeds

theorem log_canStart (server : Server S) (notice : Notice) :
    (server.log notice).CanStart ↔ server.CanStart := by
  unfold CanStart
  rw [log_network]

theorem startTask_cases (server : Server S) (peer : Address) :
    (server.CanStart ∧ ∃ server', server.startTask peer = (true, server') ∧
      Undisturbed server server') ∨
    (¬ server.CanStart ∧ ∃ server', server.startTask peer = (false, server') ∧
      Undisturbed (server.dismiss peer) server') := by
  unfold startTask CanStart
  dsimp only
  obtain ⟨errno?, faults⟩ := askFaults .startTask server.world.network.faults
  cases errno? with
  | none => exact .inl ⟨rfl, _, rfl, rfl, rfl, rfl, rfl, rfl⟩
  | some errno =>
      refine .inr ⟨Option.some_ne_none _, _, rfl, ?_⟩
      constructor <;> simp [dismiss]
      rfl

/-- What the server does with a datagram: it accepts a transfer and enters its client, or it ignores
the datagram. -/
inductive Answer (server : Server S) (sender : Address) (bytes : Bytes) :
    Option Assignment × Server S → Prop
  | accepts {assignment : Assignment} {registry : Registry} {server' : Server S} :
      Accepts server bytes assignment → assignment.peer = sender →
      server.registry.insert? sender = some registry →
      Undisturbed { server with registry } server' →
      Answer server sender bytes (some assignment, server')
  | ignores {server' : Server S} :
      (∀ assignment, assignment.peer = sender → ¬ Accepts server bytes assignment) →
      Undisturbed server server' → Answer server sender bytes (none, server')

/-- A request of a client who has just been entered is accepted if a task can be started. -/
theorem startTask_answer {server entered : Server S} {sender : Address} {bytes : Bytes}
    {direction : Direction} {request : Request} {registry : Registry}
    (hp : Packet.parse bytes = .ok (.request direction request))
    (hi : server.registry.insert? sender = some registry)
    (hu : Undisturbed { server with registry } entered)
    (hc : entered.CanStart ↔ server.CanStart) :
    Answer server sender bytes (match entered.startTask sender with
      | (true, server') => (some { direction, request, peer := sender }, server')
      | (false, server') => (none, server')) := by
  rcases startTask_cases entered sender with ⟨hs, server', ht, hu'⟩ | ⟨hs, server', ht, hu'⟩
  · rw [ht]
    refine .accepts ⟨hp, ?_, hc.1 hs⟩ rfl hi (hu.trans hu')
    rw [← Bool.not_eq_true, ← Registry.insert?_eq_none_iff, hi]
    exact Option.some_ne_none registry
  · rw [ht]
    have hd : Undisturbed server (entered.dismiss sender) := { hu with
      registry := by rw [dismiss, hu.registry, Registry.erase_insert hi] }
    exact .ignores (fun _ _ h => hs (hc.2 h.canStart)) (hd.trans hu')

theorem accept_answer (server : Server S) (sender : Address) (bytes : Bytes) :
    Answer server sender bytes (server.accept sender bytes) := by
  unfold accept
  cases hp : Packet.parse bytes with
  | error malformed =>
      refine .ignores (fun x _ h => ?_) (log_undisturbed ..)
      cases hp.symm.trans h.request
  | ok packet =>
      cases packet with
      | request direction request =>
          dsimp only
          cases hi : server.registry.insert? sender with
          | none =>
              refine .ignores (fun x hx h => ?_) (log_undisturbed ..)
              have := h.unregistered
              rw [hx, (server.registry.insert?_eq_none_iff sender).1 hi] at this
              cases this
          | some registry =>
              exact startTask_answer hp hi (log_undisturbed { server with registry } _)
                (log_canStart { server with registry } _)
      | _ =>
          refine .ignores (fun x _ h => ?_) (log_undisturbed ..)
          cases hp.symm.trans h.request

/-! ## Steps of a server -/

/-- The numbers of the transfers that wait. -/
def numbers (server : Server S) : List Nat := server.tasks.map Task.number

/-- A server and the transfers that it has accepted whose tasks have not run yet. -/
structure Affairs (S : Storage) where
  server : Server S
  started : List Assignment := []

/-- The clients whose transfers have been accepted and have not ended. -/
def Affairs.peers (a : Affairs S) : List Address :=
  a.started.map Assignment.peer ++ a.server.tasks.map fun task => task.transfer.peer

/-- What a step means for a client. -/
inductive Entry
  | accepted (peer : Address)
  | ended (peer : Address)
  deriving DecidableEq, Repr

namespace Entry

def ofAccepted : Option Assignment → Option Entry
  | some assignment => some (.accepted assignment.peer)
  | none => none

/-- A transfer that does not wait after a turn has ended. -/
def ofTurn (peer : Address) : Option (Task S) → Option Entry
  | some _ => none
  | none => some (.ended peer)

end Entry

/-- One step of a server. -/
inductive Step : Affairs S → Option Entry → Affairs S → Prop
  /-- A datagram arrives on the listening socket. -/
  | hears {a : Affairs S} (sender : Address) (bytes : Bytes) :
      Step a (Entry.ofAccepted (a.server.accept sender bytes).1)
        { server := (a.server.accept sender bytes).2
          started := a.started ++ (a.server.accept sender bytes).1.toList }
  /-- The task of a transfer runs for the first time. -/
  | commences {a : Affairs S} {before after : List Assignment} {assignment : Assignment} :
      a.started = before ++ assignment :: after →
      Step a (Entry.ofTurn assignment.peer (a.server.commence assignment).2)
        { server := a.server.launch assignment, started := before ++ after }
  /-- The receive of a transfer ends. -/
  | resumes {a : Affairs S} {task : Task S} (reception : Reception) : task ∈ a.server.tasks →
      Step a (Entry.ofTurn task.transfer.peer (a.server.goOn task reception).2)
        { a with server := a.server.resume task reception }
  /-- Anything happens to the world: time passes, something is going to fail, or everything is to
  come to an end. The number of sockets made does not shrink. -/
  | meanwhile {a : Affairs S} (world : World S) :
      a.server.world.network.opened ≤ world.network.opened →
      Step a none { a with server := { a.server with world } }

/-- A number of steps, with what they have meant, oldest first. -/
inductive Run (start : Affairs S) : List Entry → Affairs S → Prop
  | refl : Run start [] start
  | step {ledger : List Entry} {entry : Option Entry} {a a' : Affairs S} :
      Run start ledger a → Step a entry a' → Run start (ledger ++ entry.toList) a'

/-! ## What a step does -/

/-- What a step does to the registry and to the clients with a transfer. -/
def Affairs.Follows (a : Affairs S) : Option Entry → Affairs S → Prop
  | none, a' => a'.server.registry = a.server.registry ∧ a'.peers.Perm a.peers
  | some (.accepted peer), a' =>
    a.server.registry.insert? peer = some a'.server.registry ∧ a'.peers.Perm (peer :: a.peers)
  | some (.ended peer), a' =>
    a'.server.registry = a.server.registry.erase peer ∧ a.peers.Perm (peer :: a'.peers)

/-- What has become of a task takes its place among the tasks. -/
theorem replace_task {before after : List (Task S)} {task : Task S}
    (hn : ((before ++ task :: after).map Task.number).Nodup) (task? : Option (Task S)) :
    ((before ++ task :: after).flatMap fun t =>
      if t.number = task.number then task?.toList else [t]) = before ++ task?.toList ++ after := by
  have keep (tasks : List (Task S)) (h : ∀ t ∈ tasks, t.number ≠ task.number) :
      (tasks.flatMap fun t => if t.number = task.number then task?.toList else [t]) = tasks := by
    induction tasks with
    | nil => rfl
    | cons t tasks ih =>
        rw [List.flatMap_cons, if_neg (h t List.mem_cons_self),
          ih fun t ht => h t (List.mem_cons_of_mem _ ht)]
        rfl
  simp only [List.map_append, List.map_cons] at hn
  obtain ⟨hb, ha, hd⟩ := List.nodup_append.1 hn
  rw [List.flatMap_append, List.flatMap_cons, if_pos rfl, List.append_assoc, keep before, keep after]
  · intro t ht he
    exact (List.nodup_cons.1 ha).1 (he ▸ List.mem_map_of_mem ht)
  · intro t ht
    exact hd _ (List.mem_map_of_mem ht) _ List.mem_cons_self

theorem hears_follows (a : Affairs S) (sender : Address) (bytes : Bytes) :
    a.Follows (Entry.ofAccepted (a.server.accept sender bytes).1)
      { server := (a.server.accept sender bytes).2
        started := a.started ++ (a.server.accept sender bytes).1.toList } := by
  have h := accept_answer a.server sender bytes
  revert h
  generalize a.server.accept sender bytes = reply
  intro h
  cases h with
  | @accepts x registry server' hx hs hi hu =>
      refine ⟨?_, ?_⟩
      · rw [hs, hi]
        exact congrArg some hu.registry.symm
      · simp only [Affairs.peers, hu.tasks]
        apply List.perm_iff_count.2
        intro peer
        simp [List.count_append, List.count_cons]
        omega
  | ignores hx hu => exact ⟨hu.registry, by simp [Affairs.peers, hu.tasks]⟩

theorem commences_follows {a : Affairs S} {before after : List Assignment}
    {assignment : Assignment} (ha : a.started = before ++ assignment :: after) :
    a.Follows (Entry.ofTurn assignment.peer (a.server.commence assignment).2)
      { server := a.server.launch assignment, started := before ++ after } := by
  have h := (commence_outcome a.server assignment).1
  unfold launch
  revert h
  generalize a.server.commence assignment = outcome
  intro h
  cases h with
  | ended ht hr =>
      refine ⟨hr, List.perm_iff_count.2 fun peer => ?_⟩
      simp [Affairs.peers, ha, ht, List.count_append, List.count_cons]
      omega
  | waits ht hr hn hp =>
      refine ⟨hr, List.perm_iff_count.2 fun peer => ?_⟩
      simp [Affairs.peers, ha, ht, hp, List.count_append, List.count_cons]
      omega

theorem resumes_follows {a : Affairs S} (hn : (a.server.tasks.map Task.number).Nodup)
    {task : Task S} (ht : task ∈ a.server.tasks) (reception : Reception) :
    a.Follows (Entry.ofTurn task.transfer.peer (a.server.goOn task reception).2)
      { a with server := a.server.resume task reception } := by
  have h := (goOn_outcome a.server task reception).1
  unfold resume
  revert h
  generalize a.server.goOn task reception = outcome
  intro h
  obtain ⟨before, after, hs⟩ := List.append_of_mem ht
  cases h with
  | ended ht hr =>
      refine ⟨hr, List.perm_iff_count.2 fun peer => ?_⟩
      simp only [Affairs.peers, ht, hs, replace_task (hs ▸ hn)]
      simp [List.count_append, List.count_cons]
      omega
  | waits ht hr _ hp =>
      refine ⟨hr, List.perm_iff_count.2 fun peer => ?_⟩
      simp only [Affairs.peers, ht, hs, replace_task (hs ▸ hn)]
      simp [List.count_append, List.count_cons, hp]

/-! ## The registry and the transfers -/

/-- The registry is the set of the clients with a transfer, and no two transfers that wait have the
same number. -/
structure Affairs.Consistent (a : Affairs S) : Prop where
  registered : a.server.registry.peers.Perm a.peers
  numbers : a.server.numbers.Nodup
  opened : ∀ n ∈ a.server.numbers, n < a.server.world.network.opened

theorem Affairs.Follows.registered {a a' : Affairs S} {entry : Option Entry}
    (h : a.Follows entry a') (hr : a.server.registry.peers.Perm a.peers) :
    a'.server.registry.peers.Perm a'.peers := by
  cases entry with
  | none => exact h.1 ▸ hr.trans h.2.symm
  | some entry =>
      cases entry with
      | accepted peer =>
          rw [(Registry.insert?_eq_some_iff.1 h.1).2]
          exact (hr.cons peer).trans h.2.symm
      | ended peer =>
          rw [h.1]
          have he := (hr.trans h.2).erase peer
          rwa [List.erase_cons_head] at he

theorem Affairs.Follows.count {a a' : Affairs S} {entry : Option Entry}
    (h : a.Follows entry a') (peer : Address) :
    a.peers.count peer + entry.toList.count (.accepted peer) =
      a'.peers.count peer + entry.toList.count (.ended peer) := by
  cases entry with
  | none => simp [h.2.count_eq peer]
  | some entry =>
      cases entry with
      | accepted p =>
          rw [h.2.count_eq peer]
          simp [List.count_cons]
      | ended p =>
          rw [h.2.count_eq peer]
          simp [List.count_cons]

theorem hears_numbers (server : Server S) (sender : Address) (bytes : Bytes) :
    (server.accept sender bytes).2.numbers = server.numbers ∧
      (server.accept sender bytes).2.world.network.opened = server.world.network.opened := by
  have h := accept_answer server sender bytes
  revert h
  generalize server.accept sender bytes = reply
  intro h
  cases h with
  | accepts _ _ _ hu => exact ⟨congrArg (List.map _) hu.tasks, hu.opened⟩
  | ignores _ hu => exact ⟨congrArg (List.map _) hu.tasks, hu.opened⟩

theorem launch_numbers (server : Server S) (assignment : Assignment) :
    server.world.network.opened ≤ (server.launch assignment).world.network.opened ∧
      ((server.launch assignment).numbers = server.numbers ∨
        (server.launch assignment).numbers = server.numbers ++ [server.world.network.opened] ∧
        server.world.network.opened < (server.launch assignment).world.network.opened) := by
  obtain ⟨h, hle, hlt⟩ := commence_outcome server assignment
  unfold launch
  revert h hle hlt
  generalize server.commence assignment = outcome
  intro h hle hlt
  refine ⟨hle, ?_⟩
  cases h with
  | ended ht _ => exact .inl (by simp [numbers, ht])
  | waits ht _ hn _ => exact .inr ⟨by simp [numbers, ht, hn], hlt (Option.some_ne_none _)⟩

theorem resume_numbers {server : Server S} (hn : server.numbers.Nodup) {task : Task S}
    (ht : task ∈ server.tasks) (reception : Reception) :
    (server.resume task reception).numbers.Sublist server.numbers ∧
      (server.resume task reception).world.network.opened = server.world.network.opened := by
  obtain ⟨h, ho⟩ := goOn_outcome server task reception
  unfold resume
  revert h ho
  generalize server.goOn task reception = outcome
  intro h ho
  refine ⟨?_, ho⟩
  obtain ⟨before, after, hs⟩ := List.append_of_mem ht
  unfold numbers at hn
  cases h with
  | ended ht _ =>
      simp only [numbers, ht, hs, replace_task (hs ▸ hn)]
      simp
  | waits ht _ hnum _ =>
      simp only [numbers, ht, hs, replace_task (hs ▸ hn)]
      simp [hnum]

theorem Step.consistent {a a' : Affairs S} {entry : Option Entry} (h : Step a entry a')
    (hc : a.Consistent) : a.Follows entry a' ∧ a'.Consistent := by
  have hf : a.Follows entry a' := by
    cases h with
    | hears sender bytes => exact hears_follows a sender bytes
    | commences ha => exact commences_follows ha
    | resumes reception ht => exact resumes_follows hc.numbers ht reception
    | meanwhile world hw => exact ⟨rfl, .refl _⟩
  suffices hn : a'.server.numbers.Nodup ∧
      ∀ n ∈ a'.server.numbers, n < a'.server.world.network.opened from
    ⟨hf, hf.registered hc.registered, hn.1, hn.2⟩
  cases h with
  | hears sender bytes =>
      obtain ⟨hn, ho⟩ := hears_numbers a.server sender bytes
      simp only [hn, ho]
      exact ⟨hc.numbers, hc.opened⟩
  | @commences _ _ assignment _ =>
      obtain ⟨hle, hn | ⟨hn, hlt⟩⟩ := launch_numbers a.server assignment
      · simp only [hn]
        exact ⟨hc.numbers, fun n h => Nat.lt_of_lt_of_le (hc.opened n h) hle⟩
      · simp only [hn]
        refine ⟨?_, fun n h => ?_⟩
        · refine List.nodup_append.2 ⟨hc.numbers, List.nodup_singleton _, fun n hn m hm => ?_⟩
          rw [List.mem_singleton.1 hm]
          exact Nat.ne_of_lt (hc.opened n hn)
        · rcases List.mem_append.1 h with h | h
          · exact Nat.lt_of_lt_of_le (hc.opened n h) hle
          · rw [List.mem_singleton.1 h]
            exact hlt
  | resumes reception ht =>
      obtain ⟨hs, ho⟩ := resume_numbers hc.numbers ht reception
      simp only [ho]
      exact ⟨hs.nodup hc.numbers, fun n h => hc.opened n (hs.subset h)⟩
  | meanwhile world hw =>
      exact ⟨hc.numbers, fun n h => Nat.lt_of_lt_of_le (hc.opened n h) hw⟩

theorem Run.of_eq {start a : Affairs S} {ledger ledger' : List Entry} (h : Run start ledger a)
    (he : ledger = ledger') : Run start ledger' a :=
  he ▸ h

theorem Run.consistent {start a : Affairs S} {ledger : List Entry} (h : Run start ledger a)
    (hs : start.Consistent) : a.Consistent := by
  induction h with
  | refl => exact hs
  | step _ hstep ih => exact (hstep.consistent ih).2

/-- The transfers of a client that are left are those accepted without those that have ended. -/
theorem Run.count {start a : Affairs S} {ledger : List Entry} (h : Run start ledger a)
    (hs : start.Consistent) (peer : Address) :
    start.peers.count peer + ledger.count (.accepted peer) =
      a.peers.count peer + ledger.count (.ended peer) := by
  induction h with
  | refl => simp
  | step hrun hstep ih =>
      have hc := (hstep.consistent (hrun.consistent hs)).1.count peer
      simp only [List.count_append]
      omega

/-- A server that has just been made serves nobody. -/
theorem make_empty {setting : Setting S} {server : Server S} (h : make setting = .ok server) :
    server.registry = .empty ∧ server.tasks = [] := by
  unfold make at h
  cases hl : listen setting.address setting.network with
  | error failure network =>
      rw [hl] at h
      cases h
  | ok bound network =>
      rw [hl] at h
      cases hs : S.required setting.store with
      | error failure =>
          rw [hs] at h
          cases h
      | ok store =>
          rw [hs] at h
          cases h
          simp

theorem make_consistent {setting : Setting S} {server : Server S}
    (h : make setting = .ok server) : Affairs.Consistent { server } := by
  obtain ⟨hr, ht⟩ := make_empty h
  constructor <;> simp [hr, ht, Affairs.peers, numbers, Registry.empty]

/-- A datagram starts a transfer exactly if the server accepts it. -/
theorem accept_eq_some_iff {server : Server S} {sender : Address} {bytes : Bytes}
    {assignment : Assignment} : (server.accept sender bytes).1 = some assignment ↔
      assignment.peer = sender ∧ Accepts server bytes assignment := by
  have h := accept_answer server sender bytes
  revert h
  generalize server.accept sender bytes = reply
  intro h
  cases h with
  | @accepts x _ _ hx hs _ _ =>
      constructor
      · rintro ⟨⟩
        exact ⟨hs, hx⟩
      · rintro ⟨hp, ha⟩
        obtain ⟨direction, request, peer⟩ := x
        obtain ⟨direction', request', peer'⟩ := assignment
        obtain rfl : peer = peer' := hs.trans hp.symm
        cases hx.request.symm.trans ha.request
        rfl
  | ignores hn _ => exact ⟨nofun, fun h => absurd h.2 (hn _ h.1)⟩

/-- A datagram that starts no transfer changes nothing. -/
theorem dispatch_undisturbed {server : Server S} {sender : Address} {bytes : Bytes}
    (h : (server.accept sender bytes).1 = none) :
    Undisturbed server (server.dispatch sender bytes) := by
  have ha := accept_answer server sender bytes
  unfold dispatch
  revert h ha
  generalize server.accept sender bytes = reply
  intro h ha
  cases ha with
  | accepts => cases h
  | ignores _ hu => exact hu

/-- **The registry and the transfers never drift apart.** Whatever has happened to a server since it
was made, its registry is the set of the clients whose transfers have been accepted and have not
ended, and none of them has two. A datagram starts a transfer exactly if it is the request of a
client who is not in the registry and a task can be started, and otherwise it changes nothing. The
end of a transfer takes its client out of the registry, and nobody else, so the next request of that
client is accepted again. -/
theorem registry_faithful {setting : Setting S} {first : Server S}
    (made : make setting = .ok first) {ledger : List Entry} {a : Affairs S}
    (run : Run { server := first } ledger a) :
    (∀ peer, a.server.registry.contains peer = true ↔ peer ∈ a.peers) ∧
    a.peers.Nodup ∧
    (∀ peer, ledger.count (.accepted peer) = ledger.count (.ended peer) + a.peers.count peer) ∧
    (∀ sender bytes assignment, (a.server.accept sender bytes).1 = some assignment ↔
      assignment.peer = sender ∧ Accepts a.server bytes assignment) ∧
    (∀ sender bytes, (a.server.accept sender bytes).1 = none →
      Undisturbed a.server (a.server.dispatch sender bytes)) ∧
    (∀ entry a', Step a entry a' → a.Follows entry a') ∧
    ∀ peer a', Step a (some (.ended peer)) a' →
      a.server.registry.contains peer = true ∧
      (∀ other, a'.server.registry.contains other =
        (other != peer && a.server.registry.contains other)) ∧
      ∀ bytes direction request, Packet.parse bytes = .ok (.request direction request) →
        a'.server.CanStart → (a'.server.accept peer bytes).1 = some ⟨direction, request, peer⟩ := by
  have consistent := run.consistent (make_consistent made)
  refine ⟨fun peer => ?_, ?_, fun peer => ?_, fun _ _ _ => accept_eq_some_iff,
    fun _ _ => dispatch_undisturbed, fun _ _ h => (h.consistent consistent).1, ?_⟩
  · rw [Registry.contains_eq_true_iff, consistent.registered.mem_iff]
  · exact consistent.registered.nodup_iff.1 a.server.registry.nodup
  · have hc := run.count (make_consistent made) peer
    have hp : Affairs.peers { server := first } = [] := by simp [Affairs.peers, (make_empty made).2]
    simp only [hp, List.count_nil] at hc
    omega
  · intro peer a' h
    obtain ⟨⟨hr, hp⟩, _⟩ := h.consistent consistent
    have hout (other : Address) : a'.server.registry.contains other =
        (other != peer && a.server.registry.contains other) := by
      rw [hr, Registry.contains_erase]
    refine ⟨?_, hout, fun bytes direction request hb hs => ?_⟩
    · rw [Registry.contains_eq_true_iff, consistent.registered.mem_iff, hp.mem_iff]
      exact List.mem_cons_self
    · exact accept_eq_some_iff.2 ⟨rfl, hb, by simp [hout peer], hs⟩

/-- A server that has just been made, with a storage to send and to receive files. -/
def fresh : Server (Scripted.storage {}) where
  socket := ⟨⟨⟨10, 0, 0, 2⟩, 69⟩⟩
  address := ⟨⟨10, 0, 0, 2⟩, 69⟩
  config := {}
  world :=
    { store := (), network := { opened := 1 },
      trace := [.logged (.starting ⟨⟨10, 0, 0, 2⟩, 69⟩)] }

/-- A client asks for a file, and gives it up. Meanwhile it is in the registry, and then it is
not. -/
theorem registry_faithful_fresh : ∃ middle last,
    let client : Address := ⟨⟨10, 0, 0, 1⟩, 5000⟩
    Run { server := fresh } [.accepted client] middle ∧
    Run { server := fresh } [.accepted client, .ended client] last ∧
    middle.server.registry.contains client = true ∧
    last.server.registry.contains client = false := by
  let client : Address := ⟨⟨10, 0, 0, 1⟩, 5000⟩
  let request : Request := ⟨ascii "digits", .octet, {}⟩
  have made : make { address := ⟨⟨10, 0, 0, 2⟩, 69⟩, store := some () } = .ok fresh := rfl
  have heard : Run { server := fresh } _ _ :=
    .step .refl (.hears client (Packet.request .read request).encode)
  have waits : Run { server := fresh } _ _ := heard.step (.commences
    (show _ = [] ++ (⟨.read, request, client⟩ : Assignment) :: [] by decide +kernel))
  have gone : Run { server := fresh } _ _ := waits.step (.resumes
    (.datagram client (Packet.error .notDefined []).encode)
    (List.head_mem (fun h => absurd (congrArg List.length h) (by decide +kernel))))
  have waits := waits.of_eq (show _ = [.accepted client] by decide +kernel)
  have gone := gone.of_eq (show _ = [.accepted client, .ended client] by decide +kernel)
  have hw := registry_faithful made waits
  have hg := registry_faithful made gone
  refine ⟨_, _, waits, gone, (hw.1 client).2 (by decide +kernel), ?_⟩
  exact Bool.eq_false_iff.2 fun h => absurd ((hg.1 client).1 h) (by decide +kernel)

end Server

end Tftp
