import Tftp.Proofs.Shutdown
import Tftp.Server.Rehearsal

/-!
# Rehearsals of a server

A `Service` takes the steps of a server in any order. The loop of the server and its rehearsal take
them in an order of their own: the task of a transfer runs as soon as it is started, receives end when
their time is over, and when the dispatcher is to return, the transfers end one after the other. So
every state of a rehearsal is one that a `Service` comes to, and what is on record then is what has
been done in that service: what holds of all services holds of rehearsals.
-/

namespace Tftp

variable {S : Storage}

/-! ## What is on record about transfers -/

namespace Event

/-- Whether a line is about the server alone: it starts, listens, stops and waits, or nobody is there
any more to receive a datagram. -/
def isOfServer : Event → Bool
  | logged (.starting _) | logged (.listening _) | logged .stopping | logged .waiting | lost _ => true
  | _ => false

/-- What is on record about requests and transfers. -/
def ofTransfers (events : List Event) : List Event := events.filter fun e => !e.isOfServer

@[simp] theorem ofTransfers_append (a b : List Event) :
    ofTransfers (a ++ b) = ofTransfers a ++ ofTransfers b :=
  List.filter_append ..

@[simp] theorem ofTransfers_singleton {e : Event} (h : e.isOfServer = true) :
    ofTransfers [e] = [] := by
  simp [ofTransfers, h]

end Event

open Event

namespace Server

/-- What is done is put on record, after what is there. -/
theorem Advance.grows {a a' : Affairs S} {deed : Deed S} (h : Advance a (some deed) a') :
    a'.server.world.trace.reverse = a.server.world.trace.reverse ++ deed.lines := by
  have of_grows {w w' : World S} (events : List Event) (h : w'.trace = events ++ w.trace) :
      w'.trace.reverse = w.trace.reverse ++ w.since w' := by
    rw [World.since_of_trace h, h, List.reverse_append]
  have deals (server : Server S) (p : Passage S)
      (hp : p.scene.world.trace = server.world.trace) :
      ∃ events, (server.dealWith p).1.world.trace = events ++ server.world.trace := by
    obtain ⟨events, hg⟩ := p.grows
    cases hr : p.result with
    | ok u => exact ⟨events, by rw [server.dealWith_trace_of_ok hr, hg, hp]⟩
    | error f =>
        obtain ⟨report, network, -, -, ht⟩ := server.dealWith_trace_of_error hr
        exact ⟨report.reverse ++ events, by rw [ht, hg, hp, List.append_assoc]⟩
  cases h with
  | hears sender bytes =>
      obtain ⟨registry, faults, lines, he, -⟩ := accept_noted a.server sender bytes
      exact of_grows lines (by rw [he])
  | @lacks before after assignment f world _ hk =>
      have hw : (a.server.launch assignment).world =
          ({ a.server with world }.log (.noSocket assignment.peer f.message)).world := by
        unfold launch
        rw [commence_of_error _ hk]
        rfl
      obtain ⟨network, rfl⟩ := world_of_lacks hk
      refine of_grows [.logged (.noSocket assignment.peer f.message)] ?_
      rw [hw, log_world, if_pos (.inl (by simp [Notice.level]))]
      rfl
  | @begins before after assignment socket world _ hk =>
      obtain ⟨network, rfl⟩ := world_of_askSocket hk
      let p := a.server.firstPassage assignment socket { a.server.world with network }
      obtain ⟨events, ht⟩ := deals a.server p rfl
      refine of_grows events ?_
      rw [launch_of_ok _ hk]
      exact ht
  | @resumes task reception _ =>
      obtain ⟨events, ht⟩ := deals a.server (a.server.nextPassage task reception) rfl
      refine of_grows events ?_
      rw [resume_eq_dealWith]
      exact ht

/-! ## Standings -/

/-- A server as it stands in a rehearsal: where its dispatcher is, and what is on record in records
that are closed. -/
structure Standing (S : Storage) where
  post : Post
  closed : List Event
  server : Server S

/-- All that is on record. -/
def Standing.recorded (x : Standing S) : List Event := x.closed ++ x.server.world.trace.reverse

theorem Standing.recorded_mk (post : Post) (closed : List Event) (server : Server S) :
    recorded ⟨post, closed, server⟩ = closed ++ server.world.trace.reverse := rfl

/-- A server comes from one standing to another in its service, with no task left that has not run,
and what is put on record about transfers meanwhile is what is done. -/
def Standing.Reaches (x y : Standing S) : Prop :=
  ∃ deeds, Service x.post { server := x.server } deeds y.post { server := y.server } ∧
    ofTransfers y.recorded = ofTransfers x.recorded ++ ofTransfers (deeds.flatMap Deed.lines)

/-- A server that has been made, and that has served ever since. -/
def Serving (server : Server S) : Prop :=
  ∃ first deeds, Affairs.Consistent { server := first } ∧ first.tasks = [] ∧
    Course { server := first } deeds { server }

namespace Serving

variable {server : Server S}

theorem made {setting : Setting S} (h : make setting = .ok server) : Serving server :=
  ⟨server, [], make_consistent h, (make_empty h).2, .refl⟩

theorem consistent (h : Serving server) : Affairs.Consistent { server } := by
  obtain ⟨first, deeds, hc, -, hs⟩ := h
  exact hs.consistent hc

/-- Every transfer heeds that everything is to come to an end, and none has failed. -/
theorem heeds (h : Serving server) :
    ∀ task ∈ server.tasks, task.transfer.heedsStop = true ∧ task.transfer.phase ≠ .failed := by
  obtain ⟨first, deeds, hc, ht, hs⟩ := h
  exact fun task hm => ((hs.heeds hc ht).waiting task hm).ready _ rfl

theorem reached {x y : Standing S} (h : Serving x.server) (hr : x.Reaches y) : Serving y.server := by
  obtain ⟨first, deeds, hc, ht, hs⟩ := h
  obtain ⟨deeds', hr, -⟩ := hr
  exact ⟨first, _, hc, ht, hs.trans hr.course⟩

end Serving

namespace Standing.Reaches

variable {x : Standing S} {post post' : Post} {closed : List Event} {server : Server S}

theorem refl (x : Standing S) : x.Reaches x := ⟨[], .refl, by simp [ofTransfers]⟩

/-- Something is done, after which the dispatcher is where it has been. -/
theorem goesOn {server' : Server S} {deed : Deed S} (h : x.Reaches ⟨post, closed, server⟩)
    (ha : Advance { server } (some deed) { server := server' }) (hne : deed.isHearing = false) :
    x.Reaches ⟨post, closed, server'⟩ := by
  obtain ⟨deeds, hs, hr⟩ := h
  refine ⟨_, hs.step (.goesOn ha hne), ?_⟩
  have hg : server'.world.trace.reverse = server.world.trace.reverse ++ deed.lines := ha.grows
  rw [recorded_mk] at hr ⊢
  rw [hg, ← List.append_assoc, ofTransfers_append, hr]
  simp

/-- What concerns the server alone is no matter of its transfers. -/
theorem quiet {server' : Server S} (h : x.Reaches ⟨post, closed, server⟩)
    (hs : Service post { server } [] post' { server := server' }) {closed' : List Event}
    (hr : ofTransfers (closed' ++ server'.world.trace.reverse) =
      ofTransfers (closed ++ server.world.trace.reverse)) : x.Reaches ⟨post', closed', server'⟩ := by
  obtain ⟨deeds, hs', hr'⟩ := h
  refine ⟨_, hs'.trans hs, ?_⟩
  rw [recorded_mk] at hr' ⊢
  rw [hr, hr', List.append_nil]

/-- The dispatcher moves on. -/
theorem moves {server' : Server S} (h : x.Reaches ⟨post, closed, server⟩)
    (hs : Serves post { server } none post' { server := server' })
    (hr : server'.world.trace = server.world.trace) : x.Reaches ⟨post', closed, server'⟩ :=
  h.quiet (Service.step .refl hs) (by rw [hr])

/-- Something happens to the world only. -/
theorem ofWorld (h : x.Reaches ⟨post, closed, server⟩) (closed' : List Event) (world : World S)
    (hw : server.world.Meanwhile world)
    (hr : ofTransfers (closed' ++ world.trace.reverse) =
      ofTransfers (closed ++ server.world.trace.reverse)) :
    x.Reaches ⟨post, closed', { server with world }⟩ :=
  h.quiet (.step .refl (.goesOn (.meanwhile world hw) rfl)) hr

/-- A line that is about the server alone does not count. -/
theorem ofTransfers_log {notice : Notice} (hn : isOfServer (.logged notice) = true) :
    ofTransfers (closed ++ (server.log notice).world.trace.reverse) =
      ofTransfers (closed ++ server.world.trace.reverse) := by
  rw [log_world]
  split
  · simp [hn]
  · rfl

theorem log (h : x.Reaches ⟨post, closed, server⟩) {notice : Notice}
    (hn : isOfServer (.logged notice) = true) :
    x.Reaches ⟨post, closed, server.log notice⟩ := by
  have hannounces : Transfer.announces notice = false := by
    cases notice <;> first | rfl | cases hn
  have hr : ofTransfers (closed ++ (server.log notice).world.trace.reverse) =
      ofTransfers (closed ++ server.world.trace.reverse) := ofTransfers_log hn
  rw [log_eq_world] at hr ⊢
  exact h.ofWorld closed _ (.log server hannounces) hr

/-- The task of a transfer runs as soon as it is started. -/
theorem dispatch (h : x.Reaches ⟨.listening, closed, server⟩) (sender : Address) (bytes : Bytes) :
    x.Reaches ⟨.deciding, closed, server.dispatch sender bytes⟩ := by
  obtain ⟨deeds, hs, hr⟩ := h
  have hears : Advance { server } _ _ := .hears sender bytes
  have heard := hs.step (.hears hears)
  have hg := hears.grows
  rw [recorded_mk] at hr
  unfold Server.dispatch
  revert heard hg
  generalize server.world.since (server.accept sender bytes).2.world = lines
  generalize server.accept sender bytes = reply
  obtain ⟨assignment?, server'⟩ := reply
  intro heard hg
  have hg : server'.world.trace.reverse = server.world.trace.reverse ++ lines := hg
  have hr' : ofTransfers (closed ++ server'.world.trace.reverse) = ofTransfers x.recorded ++
      ofTransfers ((deeds ++ [Deed.hears sender bytes lines]).flatMap Deed.lines) := by
    rw [hg, ← List.append_assoc, ofTransfers_append, hr]
    simp [Deed.lines]
  cases assignment? with
  | none => exact ⟨_, heard, hr'⟩
  | some assignment =>
      let a : Affairs S := { server := server', started := [assignment] }
      have started : a.started = [] ++ assignment :: [] := rfl
      show x.Reaches ⟨.deciding, closed, server'.launch assignment⟩
      -- Whether it gets a socket or not, the task runs.
      have runs {deed : Deed S} (ha : Advance a (some deed) { server := server'.launch assignment })
          (hne : deed.isHearing = false) :
          x.Reaches ⟨.deciding, closed, server'.launch assignment⟩ := by
        refine ⟨_, heard.step (.goesOn ha hne), ?_⟩
        have hg : (server'.launch assignment).world.trace.reverse =
            server'.world.trace.reverse ++ deed.lines := ha.grows
        rw [recorded_mk, hg, ← List.append_assoc, ofTransfers_append, hr']
        simp
      cases hk : server'.askSocket with
      | ok socket world => exact runs (.begins started hk) rfl
      | error f world => exact runs (.lacks started hk) rfl

theorem resume (h : x.Reaches ⟨post, closed, server⟩) {task : Task S} (ht : task ∈ server.tasks)
    (reception : Reception) : x.Reaches ⟨post, closed, server.resume task reception⟩ :=
  h.goesOn (.resumes reception ht) rfl

/-- A task stays as it is while another one goes on. -/
theorem mem_resume {task other : Task S} (ho : other ∈ server.tasks)
    (hn : other.number ≠ task.number) (reception : Reception) :
    other ∈ (server.resume task reception).tasks := by
  rw [resume_eq_dealWith]
  exact List.mem_flatMap.2 ⟨other, ho, by rw [if_neg hn]; exact List.mem_singleton_self other⟩

/-- Tasks go on one after the other, each of them after something that happens to the world only. -/
theorem resumes {prepare : Server S → Server S}
    (quiet : ∀ server, x.Reaches ⟨post, closed, server⟩ →
      x.Reaches ⟨post, closed, prepare server⟩ ∧ (prepare server).tasks = server.tasks)
    {tasks : List (Task S)} (h : x.Reaches ⟨post, closed, server⟩)
    (hm : ∀ t ∈ tasks, t ∈ server.tasks) (hn : (tasks.map Task.number).Nodup) :
    x.Reaches ⟨post, closed,
      tasks.foldl (fun server task => (prepare server).resume task .nothing) server⟩ := by
  induction tasks generalizing server with
  | nil => exact h
  | cons task tasks ih =>
      obtain ⟨hq, ht⟩ := quiet server h
      obtain ⟨hne, hn⟩ := List.nodup_cons.1 hn
      refine ih (hq.resume (ht ▸ hm task List.mem_cons_self) .nothing) (fun t hmem => ?_) hn
      refine mem_resume (ht ▸ hm t (List.mem_cons_of_mem _ hmem)) (fun he => hne ?_) .nothing
      exact he ▸ List.mem_map_of_mem hmem

theorem resumeAll (h : x.Reaches ⟨post, closed, server⟩) {tasks : List (Task S)}
    (hm : ∀ t ∈ tasks, t ∈ server.tasks) (hn : (tasks.map Task.number).Nodup) :
    x.Reaches ⟨post, closed, server.resumeAll tasks⟩ :=
  h.resumes (fun _ h => ⟨h, rfl⟩) hm hn

theorem shutDown (h : x.Reaches ⟨post, closed, server⟩) (hx : Serving x.server) :
    x.Reaches ⟨post, closed, server.shutDown⟩ :=
  h.resumes (fun server h => ⟨h.log rfl, log_tasks server _⟩) (fun _ => id)
    (hx.reached h).consistent.numbers

theorem deliver (h : x.Reaches ⟨post, closed, server⟩) (number : Nat) (reception : Reception) :
    x.Reaches ⟨post, closed, server.deliver number reception⟩ := by
  unfold Server.deliver
  cases hfind : server.tasks.find? fun task => task.number == number with
  | some task => exact h.resume (List.mem_of_find?_eq_some hfind) reception
  | none =>
      have hlost : isOfServer (.lost number) = true := rfl
      refine h.ofWorld closed { server.world with trace := .lost number :: server.world.trace }
        (.of_frame rfl rfl fun e he ho => ?_) (by simp [hlost])
      rcases List.mem_cons.1 he with rfl | he
      · cases ho
      · exact he

theorem advance (h : x.Reaches ⟨post, closed, server⟩) (hx : Serving x.server) (ms : Nat) :
    x.Reaches ⟨post, closed, server.advance ms⟩ := by
  fun_induction Server.advance server ms with
  | case1 server => exact h
  | case2 server ms hms elapsed _ clock server' due ih =>
      have hw : x.Reaches ⟨post, closed, server'⟩ := h.ofWorld closed { server.world with clock }
        { World.Meanwhile.refl server.world with
          clock := Int.le_add_of_nonneg_right (Int.natCast_nonneg elapsed) } rfl
      exact ih (hw.resumeAll (fun _ h => (List.mem_filter.1 h).1)
        ((List.filter_sublist.map _).nodup (hx.reached h).consistent.numbers))

theorem stop (h : x.Reaches ⟨post, closed, server⟩) : x.Reaches ⟨post, closed, server.stop⟩ :=
  h.ofWorld closed server.stop.world
    { World.Meanwhile.refl server.world with stopping := fun _ => rfl } rfl

/-! ### The dispatcher -/

/-- When everything has ended, the dispatcher stops waiting. -/
theorem joins (ht : server.tasks = []) {peers : List Address}
    (h : x.Reaches ⟨.closing peers, closed, server⟩) : x.Reaches ⟨.returned, closed, server⟩ := by
  induction peers with
  | nil => exact h.moves .returns rfl
  | cons peer peers ih => exact ih (h.moves (.joins (by simp [Affairs.peers, ht])) rfl)

end Standing.Reaches

/-- The turn of a transfer whose server is to stop leaves nothing of it. -/
theorem Serving.tasks_resume {server : Server S} (h : Serving server)
    (hs : server.world.stopping = true) {task : Task S} {tasks : List (Task S)}
    (ht : server.tasks = task :: tasks) (reception : Reception) :
    (server.resume task reception).tasks = tasks := by
  obtain ⟨hheeds, hphase⟩ := h.heeds task (ht ▸ List.mem_cons_self)
  let p := server.nextPassage task reception
  have hstops : p.scene.view.Stops := ⟨hheeds, hs⟩
  have hnone : (server.dealWith p).2 = none := by
    rw [← Option.map_eq_none_iff, (dealWith_task server p).2.1]
    exact (Passage.ends hstops hphase server).1
  have hn : (([] ++ task :: tasks).map Task.number).Nodup := ht ▸ h.consistent.numbers
  rw [resume_eq_dealWith]
  show (server.tasks.flatMap fun t =>
    if t.number = task.number then (server.dealWith p).2.toList else [t]) = tasks
  rw [hnone, ht]
  exact replace_task hn none

/-- A server that is to stop lets all of its transfers end. -/
theorem Serving.tasks_shutDown {server : Server S} (h : Serving server)
    (hs : server.world.stopping = true) : server.shutDown.tasks = [] := by
  unfold Server.shutDown
  generalize ht : server.tasks = tasks
  induction tasks generalizing server with
  | nil => exact ht
  | cons task tasks ih =>
      have hl : Standing.Reaches ⟨.deciding, [], server⟩ ⟨.deciding, [], server.log .waiting⟩ :=
        (Standing.Reaches.refl _).log rfl
      have htl : (server.log .waiting).tasks = task :: tasks := (log_tasks ..).trans ht
      have hsl : (server.log .waiting).world.stopping = true :=
        (World.Meanwhile.log server rfl).stopping hs
      have hm : task ∈ (server.log .waiting).tasks := htl ▸ List.mem_cons_self
      refine ih (h.reached (hl.resume hm .nothing)) ?_ ((h.reached hl).tasks_resume hsl htl .nothing)
      have hstep : Advance { server := server.log .waiting } _ _ := .resumes .nothing hm
      exact hstep.stopping hsl

namespace Standing.Reaches

variable {x : Standing S} {post : Post} {closed : List Event} {server : Server S}

/-- **A server that is to stop waits until its transfers have ended.** -/
theorem await_stops (h : x.Reaches ⟨.deciding, closed, server⟩) (hx : Serving x.server)
    (hs : server.world.stopping = true) : ∃ last, server.await = (.ok false, last) ∧
      x.Reaches ⟨.returned, closed, last⟩ ∧ last.tasks = [] := by
  have hl : x.Reaches ⟨.closing server.registry.peers.reverse, closed, server.log .stopping⟩ :=
    h.quiet (.step .refl (.looks hs)) (ofTransfers_log rfl)
  have hlog : Transfer.announces .stopping = false := rfl
  have hsl := (World.Meanwhile.log server hlog).stopping hs
  have ht := (hx.reached hl).tasks_shutDown hsl
  refine ⟨(server.log .stopping).shutDown, ?_, joins ht (hl.shutDown hx), ht⟩
  unfold Server.await
  rw [if_pos hs]

/-- The loop of the server, once it has reacted to a datagram. -/
theorem await (h : x.Reaches ⟨.deciding, closed, server⟩) (hx : Serving x.server) :
    match server.await with
    | (.ok true, server) => x.Reaches ⟨.listening, closed, server⟩
    | (.ok false, server) => x.Reaches ⟨.returned, closed, server⟩
    | (.error f, server) => x.Reaches ⟨.failed f, closed, server⟩ := by
  cases hs : server.world.stopping with
  | true =>
      obtain ⟨last, ha, hl, -⟩ := h.await_stops hx hs
      rw [ha]
      exact hl
  | false =>
      unfold Server.await
      rw [hs, if_neg Bool.false_ne_true]
      cases hr : World.onNetwork Network.beginReceive server.world with
      | ok u world =>
          obtain ⟨network, -, hw⟩ := World.onNetwork_eq_ok hr
          exact h.moves (.listens hs hr) (by rw [hw])
      | error f world =>
          have hw : world.trace = server.world.trace := by
            unfold World.onNetwork at hr
            split at hr <;> cases hr
            rfl
          exact h.moves (.breaks hs hr) hw

theorem take (h : x.Reaches ⟨.listening, closed, server⟩) (hx : Serving x.server) (cue : Cue) :
    match server.take cue with
    | (none, server) => x.Reaches ⟨.listening, closed, server⟩
    | (some (.ok ()), server) => x.Reaches ⟨.deciding, closed, server⟩
    | (some (.error f), server) => x.Reaches ⟨.failed f, closed, server⟩ := by
  cases cue with
  | request sender bytes => exact h.dispatch sender _
  | transfer socket reception => exact h.deliver socket reception
  | pause ms => exact h.advance hx ms
  | failure errno =>
      have ht : server.take (.failure errno) =
        (some (if errno.isNothingYet then .ok () else .error (receiveFailure errno)), server) := rfl
      rw [ht]
      by_cases hn : errno.isNothingYet = true
      · rw [if_pos hn]
        exact h.moves .hearsNothing rfl
      · rw [if_neg hn]
        exact h.moves (.errs errno (by simpa using hn)) rfl
  | stop => exact h.stop.moves .hearsNothing rfl
  | fault fault =>
      exact h.ofWorld closed (server.addFault fault).world (.of_frame rfl rfl fun _ h _ => h) rfl

end Standing.Reaches

/-! ## Whole rehearsals -/

/-- How a rehearsal stands, if the dispatcher of its server is at the given post. -/
def Stage.at (stage : Stage S) (post : Post) : Standing S where
  post
  closed := stage.records.reverse.flatMap Record.events
  server := stage.server

/-- The dispatcher has returned or failed. -/
def Finale.post (finale : Finale S) : Post :=
  match finale.result with
  | .ok () => .returned
  | .error f => .failed f

namespace Standing.Reaches

variable {x : Standing S} {post : Post}

theorem cut {stage : Stage S} (h : x.Reaches (stage.at post)) : x.Reaches (stage.cut.at post) :=
  h.ofWorld _ stage.cut.server.world (.of_frame rfl rfl fun _ he => nomatch he)
    (by simp [Stage.cut])

/-- The server at the end of a script is one that its service has come to. -/
theorem play (hx : Serving x.server) (script : List Cue) (stage : Stage S)
    (h : x.Reaches (stage.at .listening)) :
    x.Reaches ((play script stage).stage.at (play script stage).post) := by
  induction script generalizing stage with
  | nil =>
      -- At the end of the script the server is told to stop.
      have hd : x.Reaches ⟨.deciding, _, stage.cut.server.stop⟩ :=
        h.cut.stop.moves .hearsNothing rfl
      obtain ⟨last, ha, hl, -⟩ := hd.await_stops hx rfl
      rw [Server.play]
      dsimp only
      rw [ha]
      exact hl
  | cons cue script ih =>
      have ht := Reaches.take h.cut hx cue
      rw [Server.play]
      dsimp only at ht ⊢
      cases hr : stage.cut.server.take cue with
      | mk over? server =>
          rw [hr] at ht
          rcases over? with _ | _ | _
          · exact ih { stage.cut with server } ht
          · exact ht
          · have ha := Reaches.await ht hx
            dsimp only at ha ⊢
            cases hw : server.await with
            | mk waits server' =>
                rw [hw] at ha
                rcases waits with _ | _ | _
                · exact ha
                · exact ha
                · exact ih { stage.cut with server := server' } ha

end Standing.Reaches

variable {setting : Setting S} {first : Server S}

/-- What a rehearsal shows, by how it ends. -/
theorem rehearse_finale (made : make setting = .ok first) (script : List Cue) :
    ∃ finale : Finale S,
      Standing.Reaches ⟨.deciding, [], first⟩ (finale.stage.at finale.post) ∧
      (rehearse setting script).result = finale.result ∧
      (rehearse setting script).left = finale.stage.server.inFlight ∧
      let world := finale.stage.server.stop.shutDown.world
      (rehearse setting script).world = some world ∧
      (rehearse setting script).records =
        (⟨world.trace.reverse, none⟩ :: finale.stage.records).reverse := by
  have hx : Serving first := .made made
  have hl : Standing.Reaches ⟨.deciding, [], first⟩
      ⟨.deciding, [], first.log (.listening first.address)⟩ := (Standing.Reaches.refl _).log rfl
  have ha := hl.await hx
  unfold rehearse
  rw [made]
  dsimp only
  cases hw : (first.log (.listening first.address)).await with
  | mk waits server =>
      rw [hw] at ha
      rcases waits with f | _ | _
      · exact ⟨⟨.error f, script.length, { server }⟩, ha, rfl, rfl, rfl, rfl⟩
      · exact ⟨⟨.ok (), script.length, { server }⟩, ha, rfl, rfl, rfl, rfl⟩
      · exact ⟨_, Standing.Reaches.play hx script { server } ha, rfl, rfl, rfl, rfl⟩

/-- **A rehearsal is a service** of the server that has been made for it. What is left at its end are
the transfers that wait then; they end before the server is gone. What is on record about transfers
is what has been done in this service. -/
theorem rehearse_service (made : make setting = .ok first) (script : List Cue) :
    ∃ before post last,
      Service .deciding { server := first } before post { server := last } ∧
      (rehearse setting script).left = last.tasks.length ∧
      (match (rehearse setting script).result with
      | .ok () => post = .returned
      | .error f => post = .failed f) ∧
      ∃ after gone, Service post { server := last } after post { server := gone } ∧
        gone.tasks = [] ∧ (rehearse setting script).world = some gone.world ∧
        ofTransfers ((rehearse setting script).records.flatMap Record.events) =
          ofTransfers first.world.trace.reverse ++
            ofTransfers ((before ++ after).flatMap Deed.lines) := by
  have hx : Serving first := .made made
  obtain ⟨finale, hf, hresult, hleft, hworld, hrecords⟩ := rehearse_finale made script
  have hlast : Serving finale.stage.server := hx.reached hf
  -- When the server is gone, its transfers have ended.
  have hstop : Standing.Reaches (finale.stage.at finale.post)
      ⟨finale.post, _, finale.stage.server.stop⟩ := (Standing.Reaches.refl _).stop
  obtain ⟨after, hafter, hrest⟩ := hstop.shutDown hlast
  obtain ⟨before, hbefore, hlines⟩ := hf
  refine ⟨before, finale.post, finale.stage.server, hbefore, ?_, ?_, after, _, hafter,
    (hlast.reached hstop).tasks_shutDown rfl, hworld, ?_⟩
  · exact hleft.trans (hlast.consistent.registered.length_eq.trans (by simp [Affairs.peers]))
  · rw [hresult]
    unfold Finale.post
    cases finale.result <;> rfl
  · rw [hlines] at hrest
    rw [hrecords]
    unfold Standing.recorded at hrest
    simpa [Stage.at] using hrest

/-- A rehearsal is a run. -/
theorem rehearse_run (made : make setting = .ok first)
    (script : List Cue) : ∃ ledger last, Run { server := first } ledger { server := last } ∧
      (rehearse setting script).left = last.tasks.length := by
  obtain ⟨deeds, post, last, hs, hl, -⟩ := rehearse_service made script
  obtain ⟨ledger, hr⟩ := hs.course.toRun
  exact ⟨ledger, last, hr, hl⟩

/-- **A server that has stopped as asked leaves no transfer behind.** -/
theorem rehearse_left {script : List Cue}
    (h : (rehearse setting script).result = .ok ()) : (rehearse setting script).left = 0 := by
  cases made : make setting with
  | error f =>
      unfold rehearse
      rw [made]
      rfl
  | ok first =>
      obtain ⟨deeds, post, last, hs, hl, hp, -⟩ := rehearse_service made script
      rw [h] at hp
      obtain rfl : post = .returned := hp
      rw [hl, (hs.empty (make_consistent made)).2.1]
      rfl

end Server

end Tftp
