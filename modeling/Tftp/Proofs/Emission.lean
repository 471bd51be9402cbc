import Tftp.Proofs.Course
import Tftp.Proofs.Speech

/-!
# What a server emits

Nothing goes out but in the turns of transfers (`Course.outgoing`). What all the turns of one transfer
put on record is `Told`: the transfer speaks as it is to speak, and if it has failed its client is sent
a report at the end. Where a storage is coded, all of it can be read.
-/

namespace Tftp

/-- A packet that is well formed is read back as it was sent. -/
theorem Packet.WellFormed.parse_encode {p : Packet} (h : p.WellFormed) : parse p.encode = .ok p :=
  parse_eq_ok_iff.2 h.exists_body

theorem Packet.Fits.wellFormed {direction : Direction} {size : UInt16} {p : Packet}
    (h : p.Fits direction size) : p.WellFormed := by
  cases p with
  | data | ack => trivial
  | _ => cases h

/-- An ERROR packet that can be sent and read back. -/
def Packet.IsReport (p : Packet) : Prop := p.WellFormed ∧ ∃ code message, p = .error code message

theorem Packet.turnedAway_isReport : turnedAway.IsReport := ⟨by decide, _, _, rfl⟩

namespace Server

open Transfer

variable {S : Storage}

/-! ## Reports -/

/-- What is put on record about a transfer that has failed tells its client, if anything, what has
gone wrong. -/
theorem Reported.speaks {t : Transfer S} {w : World S} {f : Failure} {lines : List Event}
    {network : Network} (h : Reported t w f lines network) :
    ∃ n, Speaks t.socket t.peer lines (List.replicate n f.packet) := by
  -- The line that announces the report is there only if the log is verbose.
  have announced : ∃ n, Speaks t.socket t.peer (announcement t w f) (List.replicate n f.packet) := by
    unfold announcement
    cases w.verbose with
    | true => exact ⟨1, .silent rfl (.peer .announced .nil)⟩
    | false => exact ⟨0, .silent rfl .nil⟩
  obtain ⟨n, announced⟩ := announced
  cases h with
  | silent => exact ⟨0, .silent rfl .nil⟩
  | sent =>
      refine ⟨n + 1, ?_⟩
      rw [List.replicate_succ']
      exact announced.append (.peer (.sent _) .nil)
  | refused =>
      refine ⟨n, ?_⟩
      rw [← List.append_nil (List.replicate n f.packet)]
      exact announced.append (.silent rfl .nil)

/-! ## Turns -/

theorem trace_askSocket {server : Server S} {socket : Socket} {world : World S}
    (h : server.askSocket = .ok socket world) : world.trace = server.world.trace := by
  obtain ⟨network, rfl⟩ := world_of_askSocket h
  rfl

/-- What a transfer that began with the given direction and request has said in a turn, and what its
server has said about its end. -/
structure Spoken (direction : Direction) (requested : Options) (p : Passage S)
    (said new reports : List Packet) : Prop where
  orderly : Orderly direction requested (said ++ new)
  told : ∀ packet ∈ reports, packet.IsReport
  /-- A transfer that waits may go on. -/
  speaking : ∀ t', p.left = some t' → reports = [] ∧ t'.socket = p.scene.self.socket ∧
    t'.peer = p.scene.self.peer ∧ Speaking direction requested t' (said ++ new)

theorem dealWith_spoken (coded : S.Coded) (server : Server S) (p : Passage S)
    (direction : Direction) (requested : Options) (said : List Packet)
    (hn : p.reception? = none → said = [] ∧ p.scene.self.direction = direction ∧
      p.scene.self.request.options = requested ∧ p.scene.self.lastPacket = none)
    (hs : p.reception? ≠ none → Speaking direction requested p.scene.self said) :
    ∃ lines new reports,
      (server.dealWith p).1.world.trace = lines.reverse ++ p.scene.world.trace ∧
      Speaks p.scene.self.socket p.scene.self.peer lines (new ++ reports) ∧
      Spoken direction requested p said new reports := by
  have h := turn_utters coded hn hs p.scene rfl
  -- Nothing is sent after a turn that succeeds; one that fails may be followed by its report.
  cases hr : guarded (turn p.reception?) p.scene with
  | ok u s' =>
      rw [hr] at h
      obtain ⟨_, ⟨hsocket, hpeer, events, packets, htrace, hspeaks, rfl⟩, hspeaking⟩ := h
      obtain ⟨hresult, hafter⟩ := Scene.after_of_ok hr
      have hresult : p.result = .ok () := hresult
      have hafter : p.after = s' := hafter
      refine ⟨events, packets, [], ?_, by simpa using hspeaks, hspeaking.orderly, List.forall_mem_nil _, ?_⟩
      · rw [server.dealWith_trace_of_ok hresult, hafter, htrace]
      · intro t' ht'
        unfold Passage.left at ht'
        split at ht'
        · obtain rfl := Option.some.inj ht'
          rw [hafter]
          exact ⟨rfl, hsocket, hpeer, hspeaking⟩
        · cases ht'
  | error f s' =>
      rw [hr] at h
      obtain ⟨_, ⟨hsocket, hpeer, events, packets, htrace, hspeaks, rfl⟩, hcoded, horderly⟩ := h
      obtain ⟨hresult, hafter⟩ := Scene.after_of_error hr
      have hresult : p.result = .error f := hresult
      have hafter : p.after = s' := hafter
      obtain ⟨lines, network, hlines, -, htold⟩ := server.dealWith_trace_of_error hresult
      rw [hafter] at hlines htold
      obtain ⟨n, hreport⟩ := hlines.speaks
      rw [hsocket, hpeer] at hreport
      refine ⟨events ++ lines, packets, List.replicate n f.packet, ?_, hspeaks.append hreport,
        horderly, fun packet hm => ?_, fun t' ht' => ?_⟩
      · rw [htold, htrace]
        simp
      · rw [List.eq_of_mem_replicate hm]
        exact ⟨hcoded.wellFormed_packet, _, _, rfl⟩
      · unfold Passage.left Passage.waits at ht'
        rw [hresult] at ht'
        cases ht'

/-! ## Transfers -/

/-- What a transfer has said from its first turn on, and what is left of it. -/
def Told (turns : List (Passage S × List Event)) (left : Option (Transfer S)) : Prop :=
  ∃ p lines rest, turns = (p, lines) :: rest ∧ ∃ said reports,
    Speaks p.scene.self.socket p.scene.self.peer (turns.flatMap Prod.snd) (said ++ reports) ∧
    Orderly p.scene.self.direction p.scene.self.request.options said ∧
    (∀ packet ∈ reports, packet.IsReport) ∧
    ∀ t', left = some t' → reports = [] ∧ t'.socket = p.scene.self.socket ∧
      t'.peer = p.scene.self.peer ∧
      Speaking p.scene.self.direction p.scene.self.request.options t' said

theorem told_begins (coded : S.Coded) (server : Server S) (assignment : Assignment)
    {socket : Socket} {world : World S} (hs : server.askSocket = .ok socket world) :
    let p := server.firstPassage assignment socket world
    Told [(p, server.world.since (server.dealWith p).1.world)] p.left := by
  intro p
  obtain ⟨lines, new, reports, htrace, hspeaks, h⟩ :=
    dealWith_spoken coded server p assignment.direction assignment.request.options []
      (fun _ => ⟨rfl, rfl, rfl, rfl⟩)
      (fun h => absurd rfl h)
  have hworld : p.scene.world.trace = server.world.trace := trace_askSocket hs
  rw [hworld] at htrace
  rw [World.since_of_trace htrace, List.reverse_reverse]
  refine ⟨p, lines, [], rfl, new, reports, by simpa using hspeaks, h.orderly, h.told, h.speaking⟩

theorem told_resumes (coded : S.Coded) (server : Server S) (task : Task S) (reception : Reception)
    {turns : List (Passage S × List Event)} (ht : Told turns (some task.transfer)) :
    let p := server.nextPassage task reception
    Told (turns ++ [(p, server.world.since (server.dealWith p).1.world)]) p.left := by
  intro p
  obtain ⟨first, firstLines, rest, rfl, said, _, hsaid, -, -, hleft⟩ := ht
  obtain ⟨rfl, hsocket, hpeer, hspeaking⟩ := hleft task.transfer rfl
  obtain ⟨lines, new, reports, htrace, hspeaks, h⟩ :=
    dealWith_spoken coded server p _ _ said nofun (fun _ => hspeaking)
  have hlines : server.world.since (server.dealWith p).1.world = lines :=
    (World.since_of_trace htrace).trans (List.reverse_reverse lines)
  rw [hlines]
  rw [show p.scene.self.socket = _ from hsocket, show p.scene.self.peer = _ from hpeer] at hspeaks
  refine ⟨first, firstLines, rest ++ [(p, lines)], rfl, said ++ new, reports, ?_, h.orderly, h.told,
    fun t' ht' => ?_⟩
  · rw [List.append_nil] at hsaid
    rw [List.flatMap_append, List.append_assoc]
    exact hsaid.append (by simpa using hspeaks)
  · obtain ⟨hr, hs', hp', hsp⟩ := h.speaking t' ht'
    exact ⟨hr, hs'.trans hsocket, hp'.trans hpeer, hsp⟩

/-- What a server has done about its transfers so far, with what each of them has said. -/
theorem Course.told (coded : S.Coded) {start a : Affairs S} {deeds : List (Deed S)}
    (hc : start.Consistent) (ht : start.server.tasks = []) (run : Course start deeds a) :
    Lives Told deeds a.server :=
  run.lives hc ht (fun server assignment _ _ hs => told_begins coded server assignment hs)
    fun server task reception _ h => told_resumes coded server task reception h

/-! ## The rest of the server -/

/-- Nothing goes out between two worlds. -/
def Silent (w w' : World S) : Prop :=
  ∃ events, w'.trace = events ++ w.trace ∧ ∀ e ∈ events, e.isOutgoing = false

namespace Silent

variable {w w' : World S}

theorem refl (w : World S) : Silent w w := ⟨[], rfl, List.forall_mem_nil _⟩

theorem log (server : Server S) (notice : Notice) (hn : announces notice = false) :
    Silent server.world (server.log notice).world := by
  rw [log_world]
  split
  · refine ⟨[.logged notice], rfl, fun e he => ?_⟩
    rw [List.mem_singleton.1 he]
    exact Event.isOutgoing_logged hn
  · exact refl _

theorem since (h : Silent w w') : ∀ e ∈ w.since w', e.isOutgoing = false := by
  obtain ⟨events, ht, he⟩ := h
  rw [World.since_of_trace ht]
  exact fun e hm => he e (List.mem_reverse.1 hm)

end Silent

/-- Whatever arrives on the listening socket, nothing is answered from there. -/
theorem accept_silent (server : Server S) (sender : Address) (bytes : Bytes) :
    Silent server.world (server.accept sender bytes).2.world := by
  obtain ⟨registry, faults, lines, he, hl, -⟩ := accept_noted server sender bytes
  rw [he]
  exact ⟨lines, rfl, hl⟩

theorem lacks_silent {server : Server S} (assignment : Assignment) {f : Failure} {world : World S}
    (h : server.askSocket = .error f world) :
    Silent server.world (server.launch assignment).world := by
  have ht : world.trace = server.world.trace := by
    obtain ⟨network, rfl⟩ := world_of_lacks h
    rfl
  unfold launch
  rw [commence_of_error assignment h]
  have hl := Silent.log { server with world } (.noSocket assignment.peer f.message) rfl
  obtain ⟨events, he, hs⟩ := hl
  exact ⟨events, he.trans (by rw [ht]), hs⟩

theorem World.mem_since {w w' : World S} {events : List Event}
    (h : w'.trace = events ++ w.trace) {e : Event} (he : e ∈ w'.trace) :
    e ∈ w.since w' ∨ e ∈ w.trace := by
  rw [World.since_of_trace h, List.mem_reverse]
  rw [h] at he
  exact List.mem_append.1 he

/-- **Whatever goes out is part of a turn** of a transfer. -/
theorem Course.outgoing (coded : S.Coded) {start a : Affairs S} {deeds : List (Deed S)}
    (hc : start.Consistent) (ht : start.server.tasks = []) (run : Course start deeds a) :
    ∀ e ∈ a.server.world.trace, e.isOutgoing = true → e ∈ start.server.world.trace ∨
      ∃ p lines, Deed.turns p lines ∈ deeds ∧ e ∈ lines := by
  induction run with
  | refl => exact fun e he _ => .inl he
  | @step deeds deed? a a' run hstep ih =>
      intro e he ho
      -- What has been on record before.
      have old (h : e ∈ a.server.world.trace) : e ∈ start.server.world.trace ∨
          ∃ p lines, Deed.turns p lines ∈ deeds ++ deed?.toList ∧ e ∈ lines := by
        rcases ih e h ho with h | ⟨p, lines, hm, he⟩
        · exact .inl h
        · exact .inr ⟨p, lines, List.mem_append_left _ hm, he⟩
      have silent {w' : World S} (h : Silent a.server.world w') (he : e ∈ w'.trace) :
          e ∈ a.server.world.trace := by
        obtain ⟨events, ht, hs⟩ := h
        rw [ht] at he
        rcases List.mem_append.1 he with he | he
        · cases (hs e he).symm.trans ho
        · exact he
      cases hstep with
      | hears sender bytes => exact old (silent (accept_silent ..) he)
      | lacks _ hk => exact old (silent (lacks_silent _ hk) he)
      | meanwhile world hw => exact old (hw.silent e he ho)
      | @begins before after assignment socket world hs hk =>
          obtain ⟨lines, new, reports, htrace, -⟩ := dealWith_spoken coded a.server
            (a.server.firstPassage assignment socket world) assignment.direction
            assignment.request.options [] (fun _ => ⟨rfl, rfl, rfl, rfl⟩) (fun h => absurd rfl h)
          have hgrows : (a.server.launch assignment).world.trace =
              lines.reverse ++ a.server.world.trace := by
            rw [launch_of_ok assignment hk]
            exact htrace.trans (congrArg _ (trace_askSocket hk))
          rcases World.mem_since hgrows he with he | he
          · exact .inr ⟨_, _, List.mem_append_right _ (List.mem_singleton_self _), he⟩
          · exact old he
      | @resumes task reception hm =>
          obtain ⟨p, firstLines, rest, -, said, reports, -, -, -, hleft⟩ :=
            (run.told coded hc ht).waiting task hm
          obtain ⟨-, -, -, hspeaking⟩ := hleft task.transfer rfl
          obtain ⟨lines, new, reports, htrace, -⟩ := dealWith_spoken coded a.server
            (a.server.nextPassage task reception) _ _ said nofun (fun _ => hspeaking)
          have hgrows : (a.server.resume task reception).world.trace =
              lines.reverse ++ a.server.world.trace := by
            rw [resume_eq_dealWith]
            exact htrace
          rcases World.mem_since hgrows he with he | he
          · exact .inr ⟨_, _, List.mem_append_right _ (List.mem_singleton_self _), he⟩
          · exact old he

theorem Course.silent {start a : Affairs S} {deeds : List (Deed S)} (run : Course start deeds a)
    {deed : Deed S} (hm : deed ∈ deeds) (hne : ∀ p lines, deed ≠ .turns p lines) :
    ∀ e ∈ deed.lines, e.isOutgoing = false := by
  induction run with
  | refl => cases hm
  | step _ hstep ih =>
      rcases List.mem_append.1 hm with hm | hm
      · exact ih hm
      · cases hstep with
        | hears sender bytes =>
            rw [List.mem_singleton.1 hm]
            exact (accept_silent ..).since
        | lacks _ hk =>
            rw [List.mem_singleton.1 hm]
            exact (lacks_silent _ hk).since
        | begins | resumes => exact absurd (List.mem_singleton.1 hm) (hne _ _)
        | meanwhile => cases hm

theorem make_silent {setting : Setting S} {first : Server S} (h : make setting = .ok first) :
    ∀ e ∈ first.world.trace, e.isOutgoing = true → e ∈ setting.trace := by
  unfold make at h
  split at h
  · cases h
  · cases hs : S.required setting.store with
    | error failure =>
        rw [hs] at h
        cases h
    | ok store =>
        rw [hs] at h
        cases h
        intro e he ho
        rw [log_world] at he
        split at he
        · rcases List.mem_cons.1 he with rfl | he
          · cases ho
          · exact he
        · exact he

/-! ## Everything that is sent -/

/-- **What a transfer says can be read.** Its packets are read back as they were sent, and none of
them is a request. -/
theorem Told.readable {turns : List (Passage S × List Event)} {left : Option (Transfer S)}
    (h : Told turns left) : ∃ p lines rest, turns = (p, lines) :: rest ∧
      let t := p.scene.self
      (∀ e ∈ turns.flatMap Prod.snd, e.isOutgoing = true → ∃ packet receiver,
        e.Carries t.socket packet receiver ∧ (receiver ≠ t.peer → packet = .turnedAway) ∧
        Packet.parse packet.encode = .ok packet ∧
        ∀ direction request, packet ≠ .request direction request) ∧
      ∃ agreed times blocks reports,
        Speaks t.socket t.peer (turns.flatMap Prod.snd)
          (List.replicate times (.oack agreed) ++ blocks ++ reports) ∧
        Discourse t.direction t.request.options agreed times blocks ∧
        ∀ packet ∈ reports, ∃ code message, packet = .error code message := by
  obtain ⟨p, lines, rest, hturns, said, reports, hspeaks, ⟨agreed, times, blocks, rfl, hd⟩, hr, -⟩ :=
    h
  refine ⟨p, lines, rest, hturns, fun e he ho => ?_, agreed, times, blocks, reports, hspeaks, hd,
    fun packet hp => (hr packet hp).2⟩
  have report {packet : Packet} (h : packet.IsReport) : Packet.parse packet.encode = .ok packet ∧
      ∀ direction request, packet ≠ .request direction request := by
    obtain ⟨hw, code, message, rfl⟩ := h
    exact ⟨hw.parse_encode, nofun⟩
  rcases hspeaks.carries he ho with ⟨packet, hm, hc⟩ | ⟨stranger, hne, hc⟩
  · refine ⟨packet, _, hc, fun h => absurd rfl h, ?_⟩
    rcases List.mem_append.1 hm with hm | hm
    · rcases List.mem_append.1 hm with hm | hm
      · rw [List.eq_of_mem_replicate hm]
        exact ⟨Packet.WellFormed.parse_encode (p := .oack agreed) trivial, nofun⟩
      · have hf := hd.fits packet hm
        refine ⟨hf.wellFormed.parse_encode, ?_⟩
        rintro direction request rfl
        exact hf
    · exact report (hr packet hm)
  · exact ⟨.turnedAway, stranger, hc, fun _ => rfl, report Packet.turnedAway_isReport⟩

/-- **The server emits well-formed TFTP only.** Whatever it sends goes out on the socket of a
transfer, in one of its turns; on the listening socket nothing is sent, and neither is anything while
a transfer gets no socket. A packet on the socket of a transfer, be it new, a retransmission, a report
or an answer to a stranger, is read back as it was sent, and it is no request. What the transfer says
to its client is, in this order: an OACK any number of times, if there are options to acknowledge;
blocks of a file that is read, or acknowledgements of one that is written; and a report. The OACK
is not empty and has only options of the request, and no block is longer than the size that it
acknowledges, or than 512 bytes if it acknowledges none. -/
theorem emits_wellFormed (coded : S.Coded) {setting : Setting S} {first : Server S}
    (made : make setting = .ok first) {deeds : List (Deed S)} {a : Affairs S}
    (run : Course { server := first } deeds a) :
    (∀ e ∈ a.server.world.trace, e.isOutgoing = true → e ∈ setting.trace ∨
      ∃ p lines, Deed.turns p lines ∈ deeds ∧ e ∈ lines) ∧
    (∀ deed ∈ deeds, (∀ p lines, deed ≠ .turns p lines) →
      ∀ e ∈ deed.lines, e.isOutgoing = false) ∧
    ∀ n, turnsOf n deeds ≠ [] → ∃ p lines rest, turnsOf n deeds = (p, lines) :: rest ∧
      let t := p.scene.self
      let spoken := (turnsOf n deeds).flatMap Prod.snd
      (∀ e ∈ spoken, e.isOutgoing = true → ∃ packet receiver,
        e.Carries t.socket packet receiver ∧ (receiver ≠ t.peer → packet = .turnedAway) ∧
        Packet.parse packet.encode = .ok packet ∧
        ∀ direction request, packet ≠ .request direction request) ∧
      ∃ (agreed : Options) (times : Nat) (blocks reports : List Packet),
        Speaks t.socket t.peer spoken
          (List.replicate times (.oack agreed) ++ blocks ++ reports) ∧
        (times = 0 ↔ agreed = {}) ∧
        (∀ name, agreed.value? name ≠ none → t.request.options.value? name ≠ none) ∧
        (∀ packet ∈ blocks, match packet with
          | .data _ payload => t.direction = .read ∧
            payload.length ≤ (agreed.blockSize.getD 512).toNat
          | .ack _ => t.direction = .write
          | _ => False) ∧
        ∀ packet ∈ reports, ∃ code message, packet = .error code message := by
  have hc := make_consistent made
  obtain ⟨-, ht⟩ := make_empty made
  refine ⟨fun e he ho => ?_, fun _ => run.silent, fun n hn => ?_⟩
  · exact (run.outgoing coded hc ht e he ho).imp_left fun he => make_silent made e he ho
  · obtain ⟨left, htold⟩ := (run.told coded hc ht).exists_left hn
    obtain ⟨p, lines, rest, hturns, hread, agreed, times, blocks, reports, hspeaks, hd, hreports⟩ :=
      htold.readable
    refine ⟨p, lines, rest, hturns, hread, agreed, times, blocks, reports, hspeaks, hd.agrees,
      hd.asked, fun packet hp => ?_, hreports⟩
    have hf := hd.fits packet hp
    cases packet <;> exact hf

/-- A server that logs everything, with a file of ten bytes. -/
def talkative : Server (Scripted.storage { content := ascii "0123456789" }) where
  socket := ⟨⟨⟨10, 0, 0, 2⟩, 69⟩⟩
  address := ⟨⟨10, 0, 0, 2⟩, 69⟩
  config := {}
  world :=
    { store := (), network := { opened := 1 }, verbose := true
      trace := [.logged (.starting ⟨⟨10, 0, 0, 2⟩, 69⟩)] }

/-- A client asks for blocks of eight bytes, a stranger is turned away, the first block is sent, and
then the server is asked to stop. That makes four packets, each of them announced. -/
theorem emits_wellFormed_talkative : ∃ deeds a, Course { server := talkative } deeds a ∧
    (turnsOf 1 deeds).length = 4 ∧
    (((turnsOf 1 deeds).flatMap Prod.snd).filter Event.isOutgoing).length = 8 ∧
    ∃ socket peer, ∀ e ∈ (turnsOf 1 deeds).flatMap Prod.snd, e.isOutgoing = true →
      ∃ packet receiver, e.Carries socket packet receiver ∧
        (receiver ≠ peer → packet = .turnedAway) ∧ Packet.parse packet.encode = .ok packet ∧
        ∀ direction request, packet ≠ .request direction request := by
  let client : Address := ⟨⟨10, 0, 0, 1⟩, 5000⟩
  let stranger : Address := ⟨⟨10, 0, 0, 3⟩, 5000⟩
  let request := Packet.request .read ⟨ascii "digits", .octet, { blockSize := some 8 }⟩
  let moves : List Move :=
    [.hear client request.encode, .begin, .resume 1 (.datagram stranger (Packet.ack 0).encode),
      .resume 1 (.datagram client (Packet.ack 0).encode), .stop, .resume 1 .nothing]
  have made : make { address := ⟨⟨10, 0, 0, 2⟩, 69⟩, store := some (), verbose := true } =
    .ok talkative := rfl
  have coded : (Scripted.storage { content := ascii "0123456789" }).Coded :=
    Scripted.coded (Failure.coded_other []) nofun
  have run := ({ server := talkative } : Affairs _).course_moves moves
  have four : (turnsOf 1 (({ server := talkative } : Affairs _).moves moves).1).length = 4 := by
    decide +kernel
  have eight : (((turnsOf 1 (({ server := talkative } : Affairs _).moves moves).1).flatMap
      Prod.snd).filter Event.isOutgoing).length = 8 := by
    decide +kernel
  refine ⟨_, _, run, four, eight, ?_⟩
  obtain ⟨p, lines, rest, -, h, -⟩ := (emits_wellFormed coded made run).2.2 1
    (List.ne_nil_of_length_pos (by rw [four]; decide))
  exact ⟨p.scene.self.socket, p.scene.self.peer, h⟩

end Server

end Tftp
