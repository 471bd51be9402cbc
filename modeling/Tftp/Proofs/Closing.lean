import Tftp.Proofs.ServerRehearsing

/-!
# Servers that come to an end

A server that has been asked to stop comes to an end whatever is under way then: transfers whose tasks
have not run yet, transfers that wait, and datagrams that are still to come. `shutdown_complete` says
so of every `Service`, of the loop of the server, which looks whether it is to stop and then waits for
its transfers, and of every rehearsal.
-/

namespace Tftp

open Event

variable {S : Storage}

namespace Server

/-- **Shutdown is complete.** Once a server has been asked to stop, every transfer takes at most one
turn more, be it its first, and nothing is left of the transfer then: it fails before it would look,
it is complete and leaves, or it sees that everything is to come to an end and fails for that reason.
The dispatcher hears at most the datagram that it is waiting for, and when it has returned, every
transfer that was accepted has ended.

The loop of the server, when it comes to look and every task has run, waits for all of its transfers
and returns, and a rehearsal that has stopped as asked is a service that has come to that end. What
either puts on record about transfers is what is done in that service. -/
theorem shutdown_complete {setting : Setting S} {first : Server S} (made : make setting = .ok first)
    {deeds deeds' : List (Deed S)} {post post' : Post} {a a' : Affairs S}
    (before : Service .deciding { server := first } deeds post a)
    (asked : a.server.world.stopping = true) (after : Service post a deeds' post' a') :
    (∀ p lines, Deed.turns p lines ∈ deeds' → p.left = none ∧ p.Ends lines) ∧
    (∀ n, (turnsOf n deeds').length ≤ 1) ∧
    deeds'.countP Deed.isHearing ≤ post.receives ∧
    (post' = .returned → a'.started = [] ∧ a'.server.tasks = [] ∧ a'.server.registry = .empty ∧
      ∀ n p lines, (turnsOf n (deeds ++ deeds')).getLast? = some (p, lines) → p.left = none) ∧
    (post = .deciding → a.started = [] → ∃ last ends, a.server.await = (.ok false, last) ∧
      Service .deciding a ends .returned { server := last } ∧
      last.tasks = [] ∧ last.registry = .empty ∧
      ofTransfers last.world.trace.reverse = ofTransfers a.server.world.trace.reverse ++
        ofTransfers (ends.flatMap Deed.lines)) ∧
    ∀ script, (rehearse setting script).result = .ok () →
      (rehearse setting script).left = 0 ∧ ∃ last all,
        Service .deciding { server := first } all .returned { server := last } ∧
        last.tasks = [] ∧ last.registry = .empty ∧
        (rehearse setting script).world = some last.world ∧
        ofTransfers ((rehearse setting script).records.flatMap Record.events) =
          ofTransfers first.world.trace.reverse ++ ofTransfers (all.flatMap Deed.lines) := by
  have hc := make_consistent made
  obtain ⟨-, ht⟩ := make_empty made
  have run := before.trans after
  have lives := run.course.heeds hc ht
  have last {p : Passage S} {lines : List Event} (hm : Deed.turns p lines ∈ deeds') :
      p.left = none ∧ p.Ends lines := by
    have hmem : (p, lines) ∈ turnsOf p.number (deeds ++ deeds') :=
      mem_turnsOf.2 ⟨List.mem_append_right _ hm, rfl⟩
    obtain ⟨left, h⟩ := lives.exists_left (List.ne_nil_of_mem hmem)
    obtain ⟨hheeds, hphase, server, hlines⟩ := h.each _ hmem
    have hstops : p.scene.view.Stops := ⟨hheeds, after.course.stops asked hm⟩
    rw [show lines = _ from hlines]
    exact Passage.ends hstops hphase server
  refine ⟨fun _ _ => last, fun n => ?_, ?_, ?_, ?_, fun script hresult => ?_⟩
  · -- A turn that leaves nothing is followed by none.
    by_cases hn : turnsOf n (deeds ++ deeds') = []
    · simp_all
    obtain ⟨left, h⟩ := lives.exists_left hn
    obtain ⟨before, q, hturns, -, hwaits⟩ := h.last
    rw [turnsOf_append] at hturns
    rcases List.append_eq_append_iff.1 hturns with ⟨late, hbefore, hlate⟩ | ⟨early, -, hearly⟩
    · have hnil : late = [] := List.eq_nil_iff_forall_not_mem.2 fun x hx =>
        hwaits x (hbefore ▸ List.mem_append_right _ hx)
          (last (mem_turnsOf.1 (hlate ▸ List.mem_append_left _ hx : x ∈ turnsOf n deeds')).1).1
      simp [hlate, hnil]
    · have := congrArg List.length hearly
      simp only [List.length_append, List.length_singleton] at this
      omega
  · exact Nat.le_trans (Nat.le_add_right _ _) (after.receives asked)
  · rintro rfl
    obtain ⟨hs, htasks, hr⟩ := run.empty hc
    refine ⟨hs, htasks, hr, fun n p lines hl => ?_⟩
    have h := (lives.ended n (by simp [numbers, htasks])).resolve_left (by
      rintro hnil
      simp [hnil] at hl)
    obtain ⟨before, q, hturns, hleft, -⟩ := h.last
    rw [hturns, List.getLast?_concat] at hl
    obtain rfl := Option.some.inj hl
    exact hleft
  · rintro rfl hs
    obtain ⟨server, started⟩ := a
    obtain rfl : started = [] := hs
    have serving : Serving server := ⟨first, deeds, hc, ht, before.course⟩
    obtain ⟨last, hawait, ⟨ends, hends, hlines⟩, htasks⟩ :=
      (Standing.Reaches.refl ⟨.deciding, [], server⟩).await_stops serving asked
    exact ⟨last, ends, hawait, hends, htasks, ((before.trans hends).empty hc).2.2, hlines⟩
  · obtain ⟨early, post, server, hearly, -, hpost, late, gone, hlate, htasks, hworld, hlines⟩ :=
      rehearse_service made script
    rw [hresult] at hpost
    obtain rfl : post = .returned := hpost
    have hall := hearly.trans hlate
    exact ⟨rehearse_left hresult, gone, _, hall, htasks, (hall.empty hc).2.2, hworld, hlines⟩

/-- What a client is told whose transfer has seen that. -/
example : (Failure.transfer .serverShutdown).packet =
    .error .notDefined (ascii "Server shutdown") := rfl

/-- A server that keeps what it receives. -/
def receptive : Server (Scripted.storage { content := ascii "0123456789" }) where
  socket := ⟨⟨⟨10, 0, 0, 2⟩, 69⟩⟩
  address := ⟨⟨10, 0, 0, 2⟩, 69⟩
  config := {}
  world :=
    { store := (), network := { opened := 1 }
      trace := [.logged (.starting ⟨⟨10, 0, 0, 2⟩, 69⟩)] }

/-- How a turn has ended, if a deed is one. -/
def Deed.result? : Deed S → Option (Except Failure Unit)
  | turns p _ => some p.result
  | _ => none

theorem exists_turn {deeds : List (Deed S)} {result : Except Failure Unit}
    {P : Passage S → List Event → Prop} (h : some result ∈ deeds.map Deed.result?)
    (all : ∀ p lines, Deed.turns p lines ∈ deeds → P p lines) :
    ∃ p lines, Deed.turns p lines ∈ deeds ∧ p.result = result ∧ P p lines := by
  obtain ⟨deed, hm, hd⟩ := List.mem_map.1 h
  cases deed with
  | turns p lines => exact ⟨p, lines, hm, Option.some.inj hd, all p lines hm⟩
  | _ => cases hd

/-- A server is asked to stop while one client sends a file and another one asks for one. The first
transfer receives the block that completes it, the second sees that it is too late. Where the
dispatcher looks while a transfer waits, it waits for it, and so it does in a rehearsal. -/
theorem shutdown_complete_receptive : (∃ deeds deeds' a a',
    Service .deciding { server := receptive } deeds .listening a ∧
    a.server.world.stopping = true ∧ Service .listening a deeds' .returned a' ∧
    deeds'.countP Deed.isHearing = 1 ∧
    (∃ p lines, Deed.turns p lines ∈ deeds' ∧ p.result = .ok () ∧ p.left = none ∧ p.Ends lines) ∧
    (∃ p lines, Deed.turns p lines ∈ deeds' ∧ p.result = .error (.transfer .serverShutdown) ∧
      p.left = none ∧ p.Ends lines) ∧
    a'.started = [] ∧ a'.server.tasks = [] ∧ a'.server.registry = .empty) ∧
    (∃ server last : Server (Scripted.storage { content := ascii "0123456789" }),
      server.inFlight = 1 ∧ server.await = (.ok false, last) ∧ last.tasks = []) ∧
    ∃ sender bytes, (rehearse (S := Scripted.storage { content := ascii "0123456789" })
      { address := ⟨⟨10, 0, 0, 2⟩, 69⟩, store := some () } [.request sender bytes, .stop]).left = 0 := by
  let writer : Address := ⟨⟨10, 0, 0, 1⟩, 5000⟩
  let reader : Address := ⟨⟨10, 0, 0, 3⟩, 5000⟩
  let start : Affairs (Scripted.storage { content := ascii "0123456789" }) := { server := receptive }
  let write := Packet.request .write ⟨ascii "up", .octet, {}⟩
  let read := Packet.request .read ⟨ascii "down", .octet, {}⟩
  let block : Reception := .datagram writer (Packet.data 1 (ascii "abc")).encode
  have made : make { address := ⟨⟨10, 0, 0, 2⟩, 69⟩, store := some () } = .ok receptive := rfl
  -- The first request is heard, and the dispatcher waits for the next one when it is to stop.
  let heard := (start.move (.hear writer write.encode)).2
  let asked := (heard.moves [.begin, .stop]).2
  have before : Service .deciding start _ .listening asked :=
    (((Service.step .refl (.listens rfl (beginReceive_of_faultless rfl))).step
      (.hears (.hears writer write.encode))).step (.listens (a := heard) (by decide +kernel)
        (beginReceive_of_faultless (by decide +kernel)))).moves [.begin, .stop] (by simp)
  have stopping : asked.server.world.stopping = true := by decide +kernel
  -- The second request is heard, and then the dispatcher waits for the two transfers.
  let late := (asked.move (.hear reader read.encode)).2
  let closing : Affairs (Scripted.storage { content := ascii "0123456789" }) :=
    { late with server := late.server.log .stopping }
  let done := (closing.moves [.begin, .resume 1 block]).2
  have joins : Service .listening asked _ (.closing late.server.registry.peers.reverse) done :=
    ((Service.step .refl (.hears (.hears reader read.encode))).step
      (.looks (a := late) (by decide +kernel))).moves
      [.begin, .resume 1 block] (by simp)
  rw [show late.server.registry.peers.reverse = [writer, reader] by decide +kernel] at joins
  have after := ((joins.step (.joins (by decide +kernel))).step (.joins (by decide +kernel))).step
    .returns
  obtain ⟨hturns, -, -, hreturned, -⟩ := shutdown_complete made before stopping after
  obtain ⟨hs, ht, hr, -⟩ := hreturned rfl
  refine ⟨⟨_, _, _, _, before, stopping, after, by decide +kernel,
    exists_turn (by decide +kernel) hturns, exists_turn (by decide +kernel) hturns, hs, ht, hr⟩, ?_⟩
  -- The dispatcher comes to look while the first transfer waits.
  let looking := (heard.moves [.begin, .stop]).2
  have looks : Service .deciding start _ .deciding looking :=
    ((Service.step .refl (.listens rfl (beginReceive_of_faultless rfl))).step
      (.hears (.hears writer write.encode))).moves [.begin, .stop] (by simp)
  obtain ⟨-, -, -, -, hawait, hrehearsals⟩ :=
    shutdown_complete made looks (by decide +kernel) .refl
  obtain ⟨last, -, hlast, -, hlasttasks, -⟩ := hawait rfl (by decide +kernel)
  exact ⟨⟨looking.server, last, by decide +kernel, hlast, hlasttasks⟩, writer, write.encode,
    (hrehearsals [.request writer write.encode, .stop] (by decide +kernel)).1⟩

end Server

end Tftp
