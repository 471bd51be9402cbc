import Tftp.Proofs.Closing
import Tftp.Proofs.Isolation

/-!
# A server alone with one client

What a client sees of a server does not depend on the other clients, and neither on the order in
which the server does what is to be done for them. To say what it does depend on, a server is played
that has this client only (`solo`): its course is a function of what remains of the log when the
datagrams of the others are deleted. Every server attends to the client as that one does (`Attends`).
-/

namespace Tftp.Server

open Transfer

variable {S : Storage} {apart : S.Apart} {client : Address}

/-! ## A server that has one client only -/

section

variable {a e : Affairs S}

/-- What there may be to do at a server that mirrors another. -/
inductive Mirrors.Shape (client : Address) (a e : Affairs S) : Prop
  | idle : e.started = [] → e.server.tasks = [] → Shape client a e
  | asked {x : Assignment} : x ∈ a.started → x.peer = client → e.started = [x] →
      e.server.tasks = [] → Shape client a e
  | busy {t u : Task S} {port : UInt16} : t ∈ a.server.tasks → t.transfer.peer = client →
      e.started = [] → e.server.tasks = [u] → u.transfer = t.transfer.onPort port → Shape client a e

theorem Mirrors.shape (h : Mirrors apart client a e) : Mirrors.Shape client a e := by
  by_cases hm : client ∈ a.peers
  · rcases List.mem_append.1 hm with hm | hm
    · obtain ⟨x, hx, hp⟩ := List.mem_map.1 hm
      obtain ⟨hs, ht⟩ := h.asked x hx hp
      exact .asked hx hp hs ht
    · obtain ⟨t, ht, hp⟩ := List.mem_map.1 hm
      obtain ⟨hs, u, port, hu, he⟩ := h.busy t ht hp
      exact .busy ht hp hs hu he
  · exact .idle (h.idle hm).1 (h.idle hm).2

/-- Time passes at both servers. -/
theorem Mirrors.later (h : Mirrors apart client a e) (ms : Nat) :
    Mirrors apart client (a.later ms) (e.later ms) where
  abreast := ⟨h.abreast.address, h.abreast.config, h.abreast.own,
    congrArg (· + (ms : Int)) h.abreast.clock, h.abreast.stopping⟩
  asked := h.asked
  busy := h.busy
  idle := h.idle

/-- Both servers are asked to stop. -/
theorem Mirrors.stop (h : Mirrors apart client a e) : Mirrors apart client a.stop e.stop where
  abreast := ⟨h.abreast.address, h.abreast.config, h.abreast.own, h.abreast.clock, rfl⟩
  asked := h.asked
  busy := h.busy
  idle := h.idle

/-- Nothing is going to keep a server without faults from starting a task. -/
theorem canStart_of_faultless {server : Server S} (h : server.world.network.faults = []) :
    server.CanStart := by
  unfold CanStart
  rw [h]
  rfl

/-- A client is registered at both servers or at none. -/
theorem Mirrors.contains (h : Mirrors apart client a e) (hc : a.Consistent) (hc' : e.Consistent) :
    e.server.registry.contains client = a.server.registry.contains client := by
  have registered {a : Affairs S} (hc : a.Consistent) :
      a.server.registry.contains client = true ↔ client ∈ a.peers := by
    rw [Registry.contains_eq_true_iff, hc.registered.mem_iff]
  rw [Bool.eq_iff_iff, registered hc, registered hc']
  constructor
  · intro hm
    by_contra hn
    obtain ⟨hs, ht⟩ := h.idle hn
    simp [Affairs.peers, hs, ht] at hm
  · intro hm
    rcases List.mem_append.1 hm with hm | hm
    · obtain ⟨x, hx, hp⟩ := List.mem_map.1 hm
      have hs := (h.asked x hx hp).1
      simp [Affairs.peers, hs, hp]
    · obtain ⟨t, ht, hp⟩ := List.mem_map.1 hm
      obtain ⟨-, u, port, hu, he⟩ := h.busy t ht hp
      have hp' : u.transfer.peer = client := by rw [he]; exact hp
      simp [Affairs.peers, hu, hp']

/-- Both servers decide alike about a datagram of the client. -/
theorem Mirrors.accept_eq (h : Mirrors apart client a e) (ho : a.Orderly apart)
    (ho' : e.Orderly apart) (bytes : Bytes) :
    (e.server.accept client bytes).1 = (a.server.accept client bytes).1 := by
  refine Option.ext fun x => ?_
  rw [accept_eq_some_iff, accept_eq_some_iff]
  refine and_congr_right fun hp => ?_
  have hc := h.contains ho.consistent ho'.consistent
  constructor
  · exact fun hx => ⟨hx.request, by rw [hp, ← hc, ← hp]; exact hx.unregistered,
      canStart_of_faultless ho.faultless⟩
  · exact fun hx => ⟨hx.request, by rw [hp, hc, ← hp]; exact hx.unregistered,
      canStart_of_faultless ho'.faultless⟩

/-- A datagram of the client arrives on the listening sockets of both servers. -/
theorem Mirrors.hears (h : Mirrors apart client a e) (ho : a.Orderly apart)
    (ho' : e.Orderly apart) (bytes : Bytes) :
    Mirrors apart client (a.hears client bytes).affairs (e.hears client bytes).affairs ∧
    (e.hears client bytes).seen = (a.hears client bytes).seen := by
  have heq := h.accept_eq ho ho' bytes
  have habreast : Abreast apart client (a.hears client bytes).affairs.server
      (e.hears client bytes).affairs.server :=
    ((accept_abreast ho.faultless client bytes client).symm.trans h.abreast).trans
      (accept_abreast ho'.faultless client bytes client)
  refine ⟨?_, by unfold Affairs.hears; rw [heq]⟩
  have htasks (a : Affairs S) : (a.hears client bytes).affairs.server.tasks = a.server.tasks :=
    accept_tasks a.server client bytes
  cases hx : (a.server.accept client bytes).1 with
  | none =>
      have hstarted {a : Affairs S} (hn : (a.server.accept client bytes).1 = none) :
          (a.hears client bytes).affairs.started = a.started := by
        unfold Affairs.hears
        rw [hn, Option.toList_none, List.append_nil]
      have hs := hstarted hx
      have hs' := hstarted (heq.trans hx)
      refine ⟨habreast, ?_, ?_, ?_⟩
      · rw [hs, hs', htasks e]
        exact h.asked
      · rw [hs', htasks a, htasks e]
        exact h.busy
      · unfold Affairs.peers
        rw [hs, hs', htasks a, htasks e]
        exact h.idle
  | some x =>
      obtain ⟨hp, haccepts⟩ := accept_eq_some_iff.1 hx
      have hn : client ∉ a.peers := fun hm => by
        have hr := (Registry.contains_eq_true_iff ..).2 (ho.consistent.registered.mem_iff.2 hm)
        rw [← hp, haccepts.unregistered] at hr
        cases hr
      obtain ⟨hs, ht⟩ := h.idle hn
      refine .of_asked ((Step.hears client bytes).consistent ho.consistent).2 habreast
        (x := x) ?_ hp ?_ ((htasks e).trans ht)
      · simp [Affairs.hears, hx]
      · simp [Affairs.hears, heq.trans hx, hs]

end

/-! ## Playing a log -/

namespace Moment

variable {m : Moment S} {time : Int}

/-- The transfer of a client that waits. -/
def taskOf (m : Moment S) (client : Address) : Option (Task S) :=
  m.affairs.server.tasks.find? fun task => task.transfer.peer = client

/-- Something happens at a server that has one client only. What is not possible there changes
nothing. -/
def take (m : Moment S) : Happening → Moment S
  | .request sender bytes => if m.listening then m.hears sender bytes else m
  | .leaves => { m with listening := false }
  | .transfer client sender bytes =>
    match m.taskOf client with
    | some task => m.delivers task sender bytes
    | none => m
  | .begins _ =>
    match m.affairs.started with
    | x :: started => m.andThen (m.affairs.begins x started)
    | [] => m
  | .wakes client =>
    match m.taskOf client with
    | some task => m.andThen (m.affairs.resumes task .nothing)
    | none => m
  | .stop => m.stop

theorem take_begins {x : Assignment} {started : List Assignment}
    (h : m.affairs.started = x :: started) (client : Address) :
    m.take (.begins client) = m.andThen (m.affairs.begins x started) := by
  simp [take, h]

theorem take_wakes {client : Address} {task : Task S} (h : m.taskOf client = some task) :
    m.take (.wakes client) = m.andThen (m.affairs.resumes task .nothing) := by
  simp [take, h]

theorem take_transfer {client : Address} {task : Task S} (h : m.taskOf client = some task)
    (sender : Address) (bytes : Bytes) :
    m.take (.transfer client sender bytes) = m.delivers task sender bytes := by
  simp [take, h]

theorem take_lost {client : Address} (h : m.taskOf client = none) (sender : Address)
    (bytes : Bytes) : m.take (.transfer client sender bytes) = m := by
  simp [take, h]

/-- Time passes until the given moment. -/
def waitUntil (m : Moment S) (time : Int) : Moment S := m.later (time - m.clock).toNat

theorem later_zero (m : Moment S) : m.later 0 = m := by
  simp [later, Affairs.later]

theorem later_later (m : Moment S) (k l : Nat) : (m.later k).later l = m.later (k + l) := by
  simp [later, Affairs.later, Int.add_assoc]

theorem waitUntil_clock (h : m.clock = time) : m.waitUntil time = m := by
  unfold waitUntil
  rw [h, Int.sub_self]
  exact m.later_zero

theorem waitUntil_later (h : m.clock ≤ time) (ms : Nat) :
    m.waitUntil (time + ms) = (m.waitUntil time).later ms := by
  unfold waitUntil
  rw [later_later]
  congr 1
  omega

end Moment

/-- A server that has one client only, when the given things happen. -/
def solo (start : Moment S) (log : List (Int × Happening)) : Moment S :=
  log.foldl (fun m entry => (m.waitUntil entry.1).take entry.2) start

theorem solo_concat (start : Moment S) (log : List (Int × Happening)) (time : Int)
    (happening : Happening) :
    solo start (log ++ [(time, happening)]) = ((solo start log).waitUntil time).take happening := by
  rw [solo, List.foldl_append]
  rfl

/-! ## What spares a client -/

section

variable {m m' : Moment S} {entries : List (Int × Happening)}

/-- Where a receive has ended with another client's datagram, the server is not to stop. -/
theorem Moment.goesOn_of_spares {socket : Option Address} {sender : Address}
    (h : ∀ entry ∈ m.took socket sender, entry.1 = none ∨ entry.1 = some client → entry.2 = client)
    (hs : socket = none ∨ socket = some client) (hne : sender ≠ client) : m.stopping = false := by
  by_contra hn
  have hstopping : m.stopping = true := by simpa using hn
  have hm : (socket, sender) ∈ m.took socket sender := by simp [took, hstopping]
  exact hne (h _ hm hs)

/-- What has spared a client has spared it before. -/
theorem Happens.spares (h : Happens m entries m') (hs : m'.Spares client) : m.Spares client := by
  intro entry hm
  cases h with
  | hears | delivers => exact hs entry (List.mem_append_left _ hm)
  | _ => exact hs entry hm

theorem Moment.late_took {socket : Option Address} (h : ∀ entry ∈ m.late, entry.2 = client) :
    ∀ entry ∈ m.took socket client, entry.2 = client := by
  intro entry hm
  rcases List.mem_append.1 hm with hm | hm
  · exact h entry hm
  · split at hm
    · rw [List.mem_singleton.1 hm]
    · cases hm

/-! ## What a client does not see -/

theorem seenBy_sights_of_ne {p : Passage S} (h : p.scene.self.peer ≠ client) (lines : List Event) :
    seenBy client (sights p lines) = [] := by
  unfold seenBy sights
  rw [List.filter_eq_nil_iff.2 fun entry hm => ?_]
  · rfl
  obtain ⟨sight, -, rfl⟩ := List.mem_map.1 hm
  simpa using h

theorem seenBy_begins_of_ne {a : Affairs S} {x : Assignment} (h : x.peer ≠ client)
    (started : List Assignment) : seenBy client (a.begins x started).seen = [] := by
  unfold Affairs.begins
  cases a.server.askSocket with
  | ok socket world => exact seenBy_sights_of_ne h _
  | error f world => rfl

end

/-! ## How a server attends to a client -/

/-- A server attends to a client as one does that has this client only: they are as far with it, and
the client has seen the same of both. -/
structure Attends (apart : S.Apart) (client : Address) (m e : Moment S) : Prop where
  mirrors : Mirrors apart client m.affairs e.affairs
  listening : e.listening = m.listening
  seen : seenBy client e.seen = seenBy client m.seen
  late : ∀ entry ∈ e.late, entry.2 = client

section

variable {m m' e : Moment S} {happening : Happening}

theorem Mirrors.taskOf_eq_some (h : Mirrors apart client m.affairs e.affairs) {t : Task S}
    (ht : t ∈ m.affairs.server.tasks) (hp : t.transfer.peer = client) : ∃ u,
      e.taskOf client = some u ∧ e.affairs.server.tasks = [u] ∧ u.transfer.peer = client ∧
      u.transfer.deadline = t.transfer.deadline := by
  obtain ⟨-, u, port, hu, he⟩ := h.busy t ht hp
  have hup : u.transfer.peer = client := by rw [he]; exact hp
  refine ⟨u, ?_, hu, hup, by rw [he]; rfl⟩
  simp [Moment.taskOf, hu, hup]

theorem Mirrors.taskOf_eq_none (h : Mirrors apart client m.affairs e.affairs) {other : Address}
    (hn : ∀ t ∈ m.affairs.server.tasks, other = client → t.transfer.peer ≠ client) :
    e.taskOf other = none := by
  refine List.find?_eq_none.2 fun u hu => ?_
  cases h.shape with
  | idle _ ht => simp [ht] at hu
  | asked _ _ _ ht => simp [ht] at hu
  | @busy t u' port ht hp _ hu' he =>
      obtain rfl : u = u' := by simpa [hu'] using hu
      have hup : u.transfer.peer = client := by rw [he]; exact hp
      have hne : other ≠ client := fun ho => hn t ht ho hp
      simpa [hup] using Ne.symm hne

namespace Attends

theorem clock (h : Attends apart client m e) : e.clock = m.clock := h.mirrors.abreast.clock

theorem stopping (h : Attends apart client m e) : e.stopping = m.stopping :=
  h.mirrors.abreast.stopping

/-- The same is done at both servers. -/
theorem andThen (h : Attends apart client m e) {p q : Played S}
    (hm : Mirrors apart client p.affairs q.affairs) (hs : q.seen = p.seen) :
    Attends apart client (m.andThen p) (e.andThen q) where
  mirrors := hm
  listening := h.listening
  seen := by
    unfold Moment.andThen
    rw [seenBy_append, seenBy_append, h.seen, hs]
  late := h.late

/-- The server does something that the client does not notice. -/
theorem aside (h : Attends apart client m e) {p : Played S}
    (ha : Aside apart client m.affairs p.affairs) (hs : seenBy client p.seen = []) :
    Attends apart client (m.andThen p) e where
  mirrors := h.mirrors.aside ha
  listening := h.listening
  seen := by
    unfold Moment.andThen
    rw [seenBy_append, hs, List.append_nil, h.seen]
  late := h.late

/-- A turn of a transfer in which nothing happens. -/
theorem vain (h : Attends apart client m e) (ho : m.affairs.Orderly apart) {task : Task S}
    {reception : Reception} (ht : task ∈ m.affairs.server.tasks)
    (hv : Vain apart m.affairs.server task reception) :
    Attends apart client (m.andThen (m.affairs.resumes task reception)) e := by
  refine h.aside (hv.aside ho.consistent ht) ?_
  show seenBy client (sights _ _) = _
  rw [hv.sights_eq]
  rfl

/-- A turn of the client's transfer. -/
theorem resumes (h : Attends apart client m e) (ho : m.affairs.Orderly apart)
    (hoe : e.affairs.Orderly apart) {t u : Task S} (ht : t ∈ m.affairs.server.tasks)
    (hp : t.transfer.peer = client) (hu : e.affairs.server.tasks = [u]) (reception : Reception) :
    Attends apart client (m.andThen (m.affairs.resumes t reception))
      (e.andThen (e.affairs.resumes u reception)) := by
  obtain ⟨hm, hs⟩ := h.mirrors.resumes ho hoe ht hp hu reception
  exact h.andThen hm hs

/-- The client's transfer does what is to be done when nothing has come. -/
theorem wakes (h : Attends apart client m e) (ho : m.affairs.Orderly apart)
    (hoe : e.affairs.Orderly apart) {task : Task S} (ht : task ∈ m.affairs.server.tasks)
    (hp : task.transfer.peer = client)
    (hd : task.transfer.deadline ≤ m.clock ∨ m.stopping = true) :
    Happens e [(e.clock, .wakes client)] (e.take (.wakes client)) ∧
      Attends apart client (m.andThen (m.affairs.resumes task .nothing))
        (e.take (.wakes client)) := by
  obtain ⟨u, hfind, hu, hup, hdeadline⟩ := h.mirrors.taskOf_eq_some ht hp
  have hd' : u.transfer.deadline ≤ e.clock ∨ e.stopping = true := by
    rwa [hdeadline, h.clock, h.stopping]
  have hstep := Happens.wakes (hu ▸ List.mem_cons_self) hd'
  rw [hup] at hstep
  rw [Moment.take_wakes hfind]
  exact ⟨hstep, h.resumes ho hoe ht hp hu .nothing⟩

/-- A datagram of the client ends the receive of a transfer. What is meant for another transfer is
lost if the server has this client only. -/
theorem delivers (h : Attends apart client m e) (ho : m.affairs.Orderly apart)
    (hoe : e.affairs.Orderly apart) {task : Task S} (bytes : Bytes)
    (ht : task ∈ m.affairs.server.tasks) (hd : m.clock < task.transfer.deadline) :
    let arrival := Happening.transfer task.transfer.peer client bytes
    Happens e [(e.clock, arrival)] (e.take arrival) ∧
      Attends apart client (m.delivers task client bytes) (e.take arrival) := by
  intro arrival
  by_cases hp : task.transfer.peer = client
  · subst hp
    obtain ⟨u, hfind, hu, hup, hdeadline⟩ := h.mirrors.taskOf_eq_some ht rfl
    have hd' : e.clock < u.transfer.deadline := by rwa [hdeadline, h.clock]
    have hstep := Happens.delivers task.transfer.peer bytes (hu ▸ List.mem_cons_self) hd'
    rw [hup] at hstep
    rw [Moment.take_transfer hfind]
    refine ⟨hstep, ?_⟩
    exact { h.resumes ho hoe ht rfl hu (.datagram task.transfer.peer bytes) with
      late := Moment.late_took h.late }
  · have hlost : e.taskOf task.transfer.peer = none :=
      h.mirrors.taskOf_eq_none fun _ _ hother => absurd hother hp
    rw [Moment.take_lost hlost]
    refine ⟨.loses _ client bytes (by simpa [Moment.taskOf] using hlost), ?_⟩
    exact { h.aside (aside_resumes ho ht _ hp) (seenBy_sights_of_ne hp _) with }

/-- Something happens that happens as well if the server has this client only. -/
theorem takes (h : Attends apart client m e) (ho : m.affairs.Orderly apart)
    (hoe : e.affairs.Orderly apart) (hr : happening.remains client = true)
    (hq : Happens m [(m.clock, happening)] m') :
    Happens e [(e.clock, happening)] (e.take happening) ∧
      Attends apart client m' (e.take happening) := by
  cases hq with
  | hears sender bytes hl =>
      obtain rfl : sender = client := by simpa [Happening.remains] using hr
      have hl' : e.listening = true := h.listening.trans hl
      have htake : e.take (.request sender bytes) = e.hears sender bytes := if_pos hl'
      obtain ⟨hm, hs⟩ := h.mirrors.hears ho hoe bytes
      rw [htake]
      exact ⟨.hears sender bytes hl', { h.andThen hm hs with
        listening := congrArg (fun stopping => !stopping) h.stopping
        late := Moment.late_took h.late }⟩
  | misses sender bytes hl =>
      have hl' : e.listening = false := h.listening.trans hl
      have htake : e.take (.request sender bytes) = e := if_neg (Bool.eq_false_iff.1 hl')
      rw [htake]
      exact ⟨.misses sender bytes hl', h⟩
  | leaves hl hs =>
      exact ⟨.leaves (h.listening.trans hl) (h.stopping.trans hs), { h with listening := rfl }⟩
  | @begins before after x hx =>
      obtain rfl : x.peer = client := by simpa [Happening.remains] using hr
      obtain ⟨he, -⟩ := h.mirrors.asked x (by simp [hx]) rfl
      obtain ⟨hm, hs⟩ := h.mirrors.begins ho hoe hx rfl
      rw [Moment.take_begins he]
      exact ⟨@Happens.begins _ e [] [] x he, h.andThen hm hs⟩
  | @wakes task ht hd =>
      obtain rfl : task.transfer.peer = client := by simpa [Happening.remains] using hr
      exact h.wakes ho hoe ht rfl hd
  | @delivers task sender bytes ht hd =>
      obtain rfl : sender = client := by simpa [Happening.remains] using hr
      exact h.delivers ho hoe bytes ht hd
  | loses other sender bytes hnone =>
      have hlost : e.taskOf other = none :=
        h.mirrors.taskOf_eq_none fun t ht hother => hother ▸ hnone t ht
      rw [Moment.take_lost hlost]
      exact ⟨.loses other sender bytes (by simpa [Moment.taskOf] using hlost), h⟩
  | stops => exact ⟨.stops, { h with mirrors := h.mirrors.stop }⟩

/-- Something happens that does not happen if the server has this client only. -/
theorem spared (h : Attends apart client m e) (ho : m.affairs.Orderly apart)
    (hr : happening.remains client = false) (hs : m'.Spares client)
    (hq : Happens m [(m.clock, happening)] m') : Attends apart client m' e := by
  cases hq with
  | hears sender bytes hl =>
      have hne : sender ≠ client := by simpa [Happening.remains] using hr
      have hgoes : m.stopping = false := Moment.goesOn_of_spares hs (.inl rfl) hne
      refine { h.aside (aside_hears ho bytes hne) (by simp [seenBy, Affairs.hears, hne]) with
        listening := ?_ }
      show e.listening = !m.stopping
      rw [h.listening, hl, hgoes]
      rfl
  | @begins before after x hx =>
      have hne : x.peer ≠ client := by simpa [Happening.remains] using hr
      exact h.aside (aside_begins ho hx hne) (seenBy_begins_of_ne hne _)
  | @wakes task ht hd =>
      have hne : task.transfer.peer ≠ client := by simpa [Happening.remains] using hr
      exact h.aside (aside_resumes ho ht _ hne) (seenBy_sights_of_ne hne _)
  | @delivers task sender bytes ht hd =>
      have hne : sender ≠ client := by simpa [Happening.remains] using hr
      by_cases hp : task.transfer.peer = client
      · have hgoes : m.stopping = false := Moment.goesOn_of_spares hs (.inr (hp ▸ rfl)) hne
        have hforeign : (Reception.datagram sender bytes).isForeign task.transfer.peer = true := by
          simpa [Reception.isForeign, hp] using hne
        exact { h.vain ho ht ⟨ho.faultless, ho.tasks task ht, hgoes, hd,
          Reception.isIgnored_of_isForeign hforeign _⟩ with }
      · exact { h.aside (aside_resumes ho ht _ hp) (seenBy_sights_of_ne hp _) with }
  | misses | loses => exact h
  | leaves | stops => cases hr

/-- Time passes at both servers. -/
theorem passes (h : Attends apart client m e) {ms : Nat} (hn : m.affairs.started = [])
    (hw : ∀ task ∈ m.affairs.server.tasks, m.clock + ms ≤ task.transfer.deadline) :
    Happens e [] (e.later ms) ∧ Attends apart client (m.later ms) (e.later ms) := by
  refine ⟨?_, { h with mirrors := h.mirrors.later ms }⟩
  cases h.mirrors.shape with
  | idle hs ht => exact .passes ms hs (by simp [ht])
  | asked hx => simp [hn] at hx
  | @busy t u port ht hp hs hu he =>
      refine .passes ms hs fun v hv => ?_
      obtain rfl : v = u := by simpa [hu] using hv
      rw [show v.transfer.deadline = t.transfer.deadline by rw [he]; rfl, h.clock]
      exact hw t ht

end Attends

end

/-! ## A course and what remains of it -/

/-- What remains of a log when the datagrams of all other clients are deleted, and with them what is
done for these clients. -/
def logOf (client : Address) (log : List (Int × Happening)) : List (Int × Happening) :=
  log.filter fun entry => entry.2.remains client

theorem logOf_append (client : Address) (log entries : List (Int × Happening)) :
    logOf client (log ++ entries) = logOf client log ++ logOf client entries :=
  List.filter_append ..

/-- A server, and next to it the server that has one client only, at the same moment. -/
structure Shadowed (apart : S.Apart) (client : Address) (start : Moment S)
    (log : List (Int × Happening)) (m e : Moment S) : Prop where
  past : (solo start (logOf client log)).clock ≤ m.clock
  eq : (solo start (logOf client log)).waitUntil m.clock = e
  timeline : Timeline start (logOf client log) e
  attends : Attends apart client m e

section

variable {start m m' e : Moment S} {log entries : List (Int × Happening)} {happening : Happening}

theorem Timeline.of_eq {log' : List (Int × Happening)} (h : Timeline start log m)
    (he : log = log') : Timeline start log' m :=
  he ▸ h

/-- A server that has just been made serves nobody. -/
theorem Attends.first {server : Server S} (ht : server.tasks = []) :
    Attends apart client (.first server) (.first server) where
  mirrors := .of_idle ⟨rfl, rfl, (apart.same client).refl _, rfl, rfl⟩
    (by simp [Moment.first, Affairs.peers, ht]) rfl ht
  listening := rfl
  seen := rfl
  late := by simp [Moment.first]

namespace Shadowed

/-- Nothing happens if the server has this client only, and no time passes. -/
theorem stays (h : Shadowed apart client start log m e) (he : logOf client entries = [])
    (ha : Attends apart client m' e) : Shadowed apart client start (log ++ entries) m' e := by
  have hc : m'.clock = m.clock := ha.clock.symm.trans h.attends.clock
  have hs : logOf client (log ++ entries) = logOf client log := by
    rw [logOf_append, he, List.append_nil]
  exact ⟨by rw [hs, hc]; exact h.past, by rw [hs, hc]; exact h.eq, by rw [hs]; exact h.timeline, ha⟩

/-- The same happens at both servers. -/
theorem takes (h : Shadowed apart client start log m e) (hr : happening.remains client = true)
    (hq : Happens e [(e.clock, happening)] (e.take happening)) (ha : Attends apart client m' (e.take happening)) :
    Shadowed apart client start (log ++ [(m.clock, happening)]) m' (e.take happening) := by
  have hs : logOf client (log ++ [(m.clock, happening)]) =
      logOf client log ++ [(m.clock, happening)] := by
    rw [logOf_append]
    simp [logOf, hr]
  have hsolo : solo start (logOf client log ++ [(m.clock, happening)]) = e.take happening := by
    rw [solo_concat, h.eq]
  rw [h.attends.clock] at hq
  refine ⟨?_, ?_, ?_, ha⟩
  · rw [hs, hsolo]
    exact Int.le_of_eq ha.clock
  · rw [hs, hsolo, Moment.waitUntil_clock ha.clock]
  · rw [hs]
    exact h.timeline.step hq

/-- Something happens, and if it remains, it happens at both servers. -/
theorem happens (h : Shadowed apart client start log m e) (ho : m.affairs.Orderly apart)
    (hoe : e.affairs.Orderly apart) (hs : m'.Spares client)
    (hq : Happens m [(m.clock, happening)] m') :
    ∃ e', Shadowed apart client start (log ++ [(m.clock, happening)]) m' e' := by
  cases hr : happening.remains client with
  | true =>
      obtain ⟨hstep, ha⟩ := h.attends.takes ho hoe hr hq
      exact ⟨_, h.takes hr hstep ha⟩
  | false => exact ⟨e, h.stays (by simp [logOf, hr]) (h.attends.spared ho hr hs hq)⟩

/-- One step. -/
theorem step (h : Shadowed apart client start log m e) (hs : start.affairs.Orderly apart)
    (ho : m.affairs.Orderly apart) (spares : m'.Spares client) (hq : Happens m entries m') :
    ∃ e', Shadowed apart client start (log ++ entries) m' e' := by
  have hoe := h.timeline.orderly hs
  cases hq with
  | hears sender bytes hl => exact h.happens ho hoe spares (.hears sender bytes hl)
  | misses sender bytes hl => exact h.happens ho hoe spares (.misses sender bytes hl)
  | leaves hl hstop => exact h.happens ho hoe spares (.leaves hl hstop)
  | begins hx => exact h.happens ho hoe spares (.begins hx)
  | looks ht hd hgoes =>
      exact ⟨e, h.stays rfl (h.attends.vain ho ht ⟨ho.faultless, ho.tasks _ ht, hgoes, hd, rfl⟩)⟩
  | wakes ht hd => exact h.happens ho hoe spares (.wakes ht hd)
  | delivers sender bytes ht hd => exact h.happens ho hoe spares (.delivers sender bytes ht hd)
  | loses other sender bytes hn => exact h.happens ho hoe spares (.loses other sender bytes hn)
  | passes ms hn hw =>
      obtain ⟨hstep, ha⟩ := h.attends.passes hn hw
      rw [List.append_nil]
      refine ⟨_, ?_, ?_, (h.timeline.step hstep).of_eq (List.append_nil _), ha⟩
      · exact Int.le_trans h.past (Int.le_add_of_nonneg_right (Int.natCast_nonneg ms))
      · rw [← h.eq]
        exact Moment.waitUntil_later h.past ms
  | stops => exact h.happens ho hoe spares .stops

end Shadowed

end

/-! ## Two runs -/

/-- The receive on the listening socket that goes on when the server is asked to stop ends with the
request of another client, and that of the client gets lost. Without the other client it is accepted.
And where another client ends the receive of the client's own transfer, the acknowledgement of the
client gets lost, which would complete that transfer. -/
theorem disturbed_at_last :
    let client : Address := ⟨⟨10, 0, 0, 1⟩, 5000⟩
    (∃ log m e, Timeline (.first receptive) log m ∧ m.late = [(none, ⟨⟨10, 0, 0, 3⟩, 5000⟩)] ∧
      Timeline (.first receptive) (logOf client log) e ∧ e.clock = m.clock ∧
      seenBy client m.seen ≠ seenBy client e.seen) ∧
    ∃ log m e, Timeline (.first receptive) log m ∧
      m.late = [(some client, ⟨⟨10, 0, 0, 3⟩, 5000⟩)] ∧
      Timeline (.first receptive) (logOf client log) e ∧ e.clock = m.clock ∧
      seenBy client m.seen ≠ seenBy client e.seen := by
  intro client
  let other : Address := ⟨⟨10, 0, 0, 3⟩, 5000⟩
  let asked : Request := ⟨ascii "digits", .octet, {}⟩
  let request := (Packet.request .read asked).encode
  let ack := (Packet.ack 1).encode
  constructor
  · have late : Timeline (.first receptive) _ _ :=
      ((Timeline.refl.step .stops).step (.hears other request (by decide +kernel))).step
        (.misses client request (by decide +kernel))
    have alone : Timeline (.first receptive) _ _ :=
      (Timeline.refl.step .stops).step (.hears client request (by decide +kernel))
    refine ⟨_, _, _, late, by decide +kernel, alone.of_eq (by decide +kernel), by decide +kernel,
      fun h => ?_⟩
    exact absurd (congrArg List.length h) (by decide +kernel)
  · have begun : Timeline (.first receptive) _ _ :=
      ((Timeline.refl.step (.hears client request rfl)).step
        (@Happens.begins _ _ [] [] ⟨.read, asked, client⟩ (by decide +kernel))).step .stops
    have late : Timeline (.first receptive) _ _ :=
      (begun.step (.delivers other ack (List.getElem_mem (show 0 < _ by decide +kernel))
        (by decide +kernel))).step (.loses client client ack (by decide +kernel))
    have alone : Timeline (.first receptive) _ _ :=
      begun.step (.delivers client ack (List.getElem_mem (show 0 < _ by decide +kernel))
        (by decide +kernel))
    refine ⟨_, _, _, late, by decide +kernel, alone.of_eq (by decide +kernel), by decide +kernel,
      fun h => ?_⟩
    exact absurd (congrArg List.length h) (by decide +kernel)

end Tftp.Server
