import Mathlib.Control.Monad.Basic
import Tftp.Proofs.Answers
import Tftp.Proofs.Makeup
import Tftp.Proofs.Wire
import Tftp.Server

/-!
# Reports to clients

When a transfer has failed, its client is told so by one ERROR packet, unless it is the client who
has ended the transfer. No transfer sends one to its peer on its own: what it sends there are
replies. So the report is the only one, and it is the last that is sent on the socket of the
transfer.

A transfer fails at any point and for any reason, and then the file that it was receiving is given
up. `Account` is a transfer from its beginning, with all that it has put on record, what it has
received, and the cause of its failure, which a failure to give the file up supersedes.
-/

namespace Tftp

/-! ## ERROR packets on record -/

/-- An event is an ERROR packet that goes to somebody, or the line that says that it is going to. -/
inductive Event.IsReportTo (a : Address) : Event → Prop
  | announced (code : ErrorCode) (message : Bytes) :
      IsReportTo a (.logged (.sending (.error code message) a))
  | sent (sender : Address) (code : ErrorCode) (message : Bytes) (time : Int) :
      IsReportTo a (.sent sender a (Packet.error code message).encode time)

/-- Whether an event is a packet handed over to the network, or the line that says that it is going
to be. -/
def Event.isOutgoing : Event → Bool
  | sent .. | logged (.sending ..) => true
  | _ => false

/-- A storage sends nothing to anybody, and it does not fail in the name of a peer. -/
structure Storage.Discreet (S : Storage) : Prop where
  silent : ∀ {events}, S.Reports events → ∀ e ∈ events, e.isOutgoing = false
  own : ∀ (call : Storage.Call) (file : S.State × S.Writer) (r : Report),
    (call.effect file).result ≠ .error (.peer r)

theorem Packet.error_ne_of_isReply {packet : Packet} (h : packet.isReply = true) (code : ErrorCode)
    (message : Bytes) : packet.encode ≠ (error code message).encode := by
  intro he
  have he := opcode_eq_of_encode_eq he
  cases packet with
  | data | ack | oack => simp [opcode] at he
  | _ => cases h

namespace Transfer

variable {S : Storage}

/-- **What a transfer puts on record is no report to its peer.** -/
theorem Recorded.not_report (discreet : S.Discreet) {peer : Address} {e : Event}
    (h : Recorded S peer e) : ¬ e.IsReportTo peer := by
  rintro (⟨code, message⟩ | ⟨sender, code, message, time⟩)
  · cases h with
    | line hn => cases hn
    | announced ha =>
        rcases ha with ⟨-, hp⟩ | ⟨ha, -⟩
        · cases hp
        · exact ha rfl
    | reported hr he => cases discreet.silent hr _ he
  · generalize hb : (Packet.error code message).encode = bytes at h
    cases h with
    | sent ha =>
        rcases ha with ⟨-, hp⟩ | ⟨ha, -⟩
        · exact Packet.error_ne_of_isReply hp code message hb.symm
        · exact ha rfl
    | reported hr he => cases discreet.silent hr _ he

/-- A transfer of which the peer has not got rid has another reason to fail. -/
theorem Cause.ne_peer (discreet : S.Discreet) {f : Failure} (h : Cause S f) (r : Report) :
    f ≠ .peer r := by
  rintro rfl
  cases h with
  | call hc => exact discreet.own _ _ r hc

/-! ## How a turn ends -/

/-- The cause of a failure and how a turn ends with it: unless it has failed, the transfer goes on or
is complete, and otherwise the file that it was receiving has been given up. -/
inductive Ended : Except Failure Unit → Except Failure Unit → Scene S → Prop
  | unfailed {s : Scene S} : s.self.phase ≠ .failed → Ended (.ok ()) (.ok ()) s
  | failed {s : Scene S} {f : Failure} (v : View S) : s.view = v.givenUp →
      Ended (.error f) (.error (v.failing f)) s

/-- A turn goes in steps, whatever happens, and the peer is to blame if it has given the transfer
up. -/
theorem turn_steps (discreet : S.Discreet) (reception? : Option Reception) (s : Scene S) :
    match turn reception? s with
    | .ok _ s' => Steps True True s s' ∧ ¬ ∃ reception ∈ reception?, reception.GivesUp s.self.peer
    | .error f s' => Steps True True s s' ∧
      ((∃ r, f = .peer r) ↔ ∃ reception ∈ reception?, reception.GivesUp s.self.peer) := by
  by_cases hg : ∃ reception ∈ reception?, reception.GivesUp s.self.peer
  · obtain ⟨reception, rfl, hg⟩ := hg
    obtain ⟨r, s', hh, hs⟩ := heed_of_givesUp hg
    have ht : turn (some reception) s = .error (.peer r) s' := bind_of_error (bind_of_error hh)
    rw [ht]
    exact ⟨hs.mono (fun h => h.elim) (fun h => h.elim), fun _ => ⟨_, rfl, hg⟩, fun _ => ⟨r, rfl⟩⟩
  · have ht : Goes True True (turn reception?) s :=
      .turn (fun _ => trivial) trivial fun reception he hr => hg ⟨reception, he, hr⟩
    cases hr : turn reception? s with
    | ok u s' => exact ⟨ht.steps_ok hr, hg⟩
    | error f s' =>
        obtain ⟨hs, hc⟩ := ht.steps_error hr
        exact ⟨hs, fun ⟨r, hf⟩ => absurd hf (hc.ne_peer discreet r), fun h => absurd h hg⟩

theorem Puts.trans {peer : Address} {s t u : Scene S} (h : Puts peer s t) (h' : Puts peer t u) :
    Puts peer s u := by
  obtain ⟨a, ha, hall⟩ := h.trace
  obtain ⟨b, hb, hall'⟩ := h'.trace
  refine ⟨h'.peer_eq, h'.replies, b ++ a, by rw [hb, ha, List.append_assoc], fun e he => ?_⟩
  exact (List.mem_append.1 he).elim (hall' e) (hall e)

/-- **How a turn ends.** -/
theorem turn_ends (discreet : S.Discreet) (reception? : Option Reception) {s : Scene S}
    (hp : s.self.phase ≠ .failed) (hr : Replies s.self) :
    Puts s.self.peer s (s.after (guarded (turn reception?))) ∧
    ((∃ r, s.resultOf (turn reception?) = .error (.peer r)) ↔
      ∃ reception ∈ reception?, reception.GivesUp s.self.peer) ∧
    Ended (s.resultOf (turn reception?)) (s.resultOf (guarded (turn reception?)))
      (s.after (guarded (turn reception?))) := by
  have ht := turn_steps discreet reception? s
  cases ht' : turn reception? s with
  | ok u s' =>
      rw [ht'] at ht
      obtain ⟨hs, hg⟩ := ht
      have hne := hs.ne_failed hp
      have hputs := hs.puts hr
      -- A transfer that is over leaves, which is no failure.
      obtain ⟨s'', hg', hs'⟩ : ∃ s'', guarded (turn reception?) s = .ok () s'' ∧
          Steps True True s' s'' := by
        rw [guarded_of_ok ht']
        split
        · have hl : leave s' = log (.leaving s'.self.peer s'.self.phase) s' := by
            show (if s'.self.phase = .failed then _ else _ : Reaction S Unit) s' = _
            rw [if_neg hne]
          have hgo : Goes True True (log (.leaving s'.self.peer s'.self.phase)) s' := .log rfl
          rw [hl]
          rw [log_eq]
          exact ⟨_, rfl, hgo.steps_ok (log_eq ..)⟩
        · exact ⟨s', rfl, .refl⟩
      rw [(Scene.after_of_ok ht').1, (Scene.after_of_ok hg').1, (Scene.after_of_ok hg').2]
      refine ⟨?_, ⟨(fun ⟨_, h⟩ => nomatch h), fun h => absurd h hg⟩, .unfailed (hs'.ne_failed hne)⟩
      exact hputs.trans (hputs.peer_eq ▸ hs'.puts hputs.replies)
  | error f s' =>
      rw [ht'] at ht
      obtain ⟨hs, hiff⟩ := ht
      have hputs := hs.puts hr
      obtain ⟨s'', hf, hv, -, hs'⟩ := fall_eq_error f s'
      have hg' := (guarded_of_error ht').trans hf
      rw [(Scene.after_of_error ht').1, (Scene.after_of_error hg').1, (Scene.after_of_error hg').2]
      refine ⟨?_, ⟨?_, ?_⟩, .failed _ hv⟩
      · exact hputs.trans (hputs.peer_eq ▸ { hs'.puts hputs.replies with })
      · rintro ⟨r, h⟩
        cases h
        exact hiff.1 ⟨r, rfl⟩
      · intro h
        obtain ⟨r, rfl⟩ := hiff.2 h
        exact ⟨r, rfl⟩

/-! ## Accounts -/

/-- What a transfer puts on record in a reaction, oldest first. -/
def Scene.linesOf (s : Scene S) (m : Reaction S Unit) : List Event :=
  (s.after m).world.trace.reverse.drop s.world.trace.length

theorem Puts.linesOf {peer : Address} {s : Scene S} {m : Reaction S Unit}
    (h : Puts peer s (s.after m)) : ∀ e ∈ s.linesOf m, Recorded S peer e := by
  obtain ⟨events, htrace, hall⟩ := h.trace
  have : s.linesOf m = events.reverse := by
    rw [Scene.linesOf, htrace, List.reverse_append, ← List.length_reverse, List.drop_left]
  rw [this]
  exact fun e he => hall e (List.mem_reverse.1 he)

/-- A transfer from its beginning: what its receives have yielded, all that it has put on record, why
its last turn has failed if it has, how that turn has ended, and the scene after it. -/
inductive Account (start : Scene S) :
    List Reception → List Event → Except Failure Unit → Except Failure Unit → Scene S → Prop
  | begins : Account start [] (start.linesOf begin) (start.resultOf (turn none))
      (start.resultOf begin) (start.after begin)
  | resumes {receptions : List Reception} {lines : List Event} {cause : Except Failure Unit}
      {s : Scene S} (reception : Reception) : Account start receptions lines cause (.ok ()) s →
      s.self.isOver = false →
      Account start (receptions ++ [reception]) (lines ++ s.linesOf (resume reception))
        (s.resultOf (turn (some reception))) (s.resultOf (resume reception))
        (s.after (resume reception))
  /-- Unless it has failed, anything happens to its world in between. -/
  | meanwhile {receptions : List Reception} {lines : List Event} {cause : Except Failure Unit}
      {s : Scene S} (world : World S) : Account start receptions lines cause (.ok ()) s →
      Account start receptions lines cause (.ok ()) { s with world }

/-- What is known of a transfer by its account. -/
structure Known (peer : Address) (receptions : List Reception) (lines : List Event)
    (cause result : Except Failure Unit) (s : Scene S) : Prop where
  peer_eq : s.self.peer = peer
  replies : Replies s.self
  lines : ∀ e ∈ lines, Recorded S peer e
  givenUp : (∃ r, cause = .error (.peer r)) ↔ ∃ reception ∈ receptions, reception.GivesUp peer
  ended : Ended cause result s

theorem Ended.of_ok {cause : Except Failure Unit} {s : Scene S} (h : Ended cause (.ok ()) s) :
    cause = .ok () ∧ s.self.phase ≠ .failed := by
  cases h with
  | unfailed hp => exact ⟨rfl, hp⟩

variable {start s : Scene S} {receptions : List Reception} {lines : List Event}
  {cause result : Except Failure Unit}

theorem Account.known (discreet : S.Discreet) (hp : start.self.phase ≠ .failed)
    (hr : Replies start.self) (h : Account start receptions lines cause result s) :
    Known start.self.peer receptions lines cause result s := by
  induction h with
  | begins =>
      obtain ⟨hputs, hiff, hend⟩ := turn_ends discreet none hp hr
      rw [← begin_eq] at hputs hend
      refine ⟨hputs.peer_eq, hputs.replies, hputs.linesOf, hiff.trans ?_, hend⟩
      simp
  | @resumes receptions lines cause s reception h ho ih =>
      obtain ⟨hcause, hphase⟩ := ih.ended.of_ok
      obtain ⟨hputs, hiff, hend⟩ := turn_ends discreet (some reception) hphase ih.replies
      rw [← resume_eq] at hputs hend
      rw [ih.peer_eq] at hputs hiff
      -- Before this reception, the peer has not given up.
      have hbefore : ¬ ∃ reception ∈ receptions, reception.GivesUp start.self.peer := by
        rw [← ih.givenUp, hcause]
        exact fun ⟨r, h⟩ => nomatch h
      refine ⟨hputs.peer_eq, hputs.replies, ?_, hiff.trans ?_, hend⟩
      · exact fun e he => (List.mem_append.1 he).elim (ih.lines e) (hputs.linesOf e)
      · constructor
        · rintro ⟨r, hr, hg⟩
          exact ⟨r, List.mem_append_right _ (by simpa using hr.symm), hg⟩
        · rintro ⟨r, hr, hg⟩
          rcases List.mem_append.1 hr with hr | hr
          · exact absurd ⟨r, hr, hg⟩ hbefore
          · exact ⟨r, by simpa using (List.mem_singleton.1 hr).symm, hg⟩
  | meanwhile world h ih =>
      obtain ⟨rfl, hphase⟩ := ih.ended.of_ok
      exact { ih with ended := .unfailed hphase }

end Transfer

/-! ## Storages that are discreet -/

/-- A scripted storage sends nothing. -/
theorem Scripted.silent {script : Scripted} : ∀ {events}, script.storage.Reports events →
    ∀ e ∈ events, e.isOutgoing = false := by
  rintro events (_ | _ | ⟨n, file⟩ | ⟨call, file⟩) e he
  · rw [List.mem_singleton.1 he]
    rfl
  · rw [List.mem_singleton.1 he]
    rfl
  · have he : e ∈ (script.read n file).events := he
    rcases script.read_answers n file with h | ⟨_, _, h⟩ <;>
    · rw [h] at he
      cases he
  · cases call with
    | write bytes =>
        have he : e ∈ (script.write bytes file).events := he
        rcases script.write_answers bytes file with h | ⟨_, h⟩ <;>
        · rw [h] at he
          rw [List.mem_singleton.1 he]
          rfl
    | finish =>
        have he : e ∈ (script.finish file).events := he
        rcases script.finish_answers file with ⟨h, -⟩ | h | h <;> rw [h] at he
        · cases he
        all_goals
          rw [List.mem_singleton.1 he]
          rfl
    | abort =>
        have he : e ∈ if script.writesOnly then [] else [Event.aborted] := he
        split at he
        · cases he
        · rw [List.mem_singleton.1 he]
          rfl

/-- A scripted storage is discreet, if it is not told to fail in the name of a peer. -/
theorem Scripted.discreet {script : Scripted} (h : ∀ r, script.failure ≠ .peer r) :
    script.storage.Discreet where
  silent := silent
  own call file r hr := by
    cases call with
    | write bytes =>
        have hr : (script.write bytes file).result = .error (.peer r) := hr
        rcases script.write_answers bytes file with ha | ⟨_, ha⟩ <;> rw [ha] at hr
        · exact h r (Except.error.inj hr)
        · cases hr
    | finish =>
        have hr : (script.finish file).result = .error (.peer r) := hr
        rcases script.finish_answers file with ⟨ha, -⟩ | ha | ha <;> rw [ha] at hr
        · cases hr
        · exact h r (Except.error.inj hr)
        · cases hr
    | abort => cases hr

/-- A directory sends nothing. -/
theorem Directory.silent {directory : Directory} : ∀ {events}, directory.storage.Reports events →
    ∀ e ∈ events, e.isOutgoing = false := by
  rintro events (⟨peer, filename, disk⟩ | ⟨peer, filename, declared, disk⟩ | ⟨n, file⟩ |
    ⟨call, file⟩) e he
  · have he : e ∈ (directory.openForReading peer filename disk).events := he
    rcases directory.openForReading_answers peer filename disk with
      ⟨_, -, h⟩ | ⟨_, _, -, -, h⟩ <;> rw [h] at he
    · cases he
    · rw [List.mem_singleton.1 he]
      rfl
  · have he : e ∈ (directory.openForWriting peer filename declared disk).events := he
    rcases directory.openForWriting_answers peer filename declared disk with
      ⟨_, -, h⟩ | ⟨_, -, -, h⟩ <;> rw [h] at he
    · cases he
    · rw [List.mem_singleton.1 he]
      rfl
  · have he : e ∈ (FileReader.read n (file.1.tree, file.2)).events := he
    rcases FileReader.read_answers n (file.1.tree, file.2) with ⟨_, h⟩ | ⟨_, _, h⟩ <;>
    · rw [h] at he
      cases he
  · cases call with
    | write bytes =>
        have he : e ∈ (FileWriter.outcome _).events := he
        rcases FileWriter.outcome_answers _ with h | h <;>
        · rw [h] at he
          cases he
    | finish =>
        have he : e ∈ (FileWriter.outcome _).events := he
        rcases FileWriter.outcome_answers _ with h | h <;>
        · rw [h] at he
          cases he
    | abort =>
        have he : e ∈ (FileWriter.abort (file.1.tree, file.2)).events := he
        rcases FileWriter.abort_answers (file.1.tree, file.2) with ⟨_, -, h⟩ | ⟨-, h⟩ <;> rw [h] at he
        · rw [List.mem_singleton.1 he]
          rfl
        · rcases List.mem_cons.1 he with rfl | he
          · rfl
          · rw [List.mem_singleton.1 he]
            rfl

/-- A directory is discreet. -/
theorem Directory.discreet (directory : Directory) : directory.storage.Discreet where
  silent := silent
  own call file r hr := by
    cases call with
    | write bytes =>
        have hr : (FileWriter.outcome _).result = .error (.peer r) := hr
        rcases FileWriter.outcome_answers _ with h | h <;>
        · rw [h] at hr
          cases hr
    | finish =>
        have hr : (FileWriter.outcome _).result = .error (.peer r) := hr
        rcases FileWriter.outcome_answers _ with h | h <;>
        · rw [h] at hr
          cases hr
    | abort =>
        have hr : (FileWriter.abort (file.1.tree, file.2)).result = .error (.peer r) := hr
        rcases FileWriter.abort_answers (file.1.tree, file.2) with ⟨_, -, h⟩ | ⟨-, h⟩ <;>
        · rw [h] at hr
          cases hr

/-! ## The end of a transfer -/

/-- The ERROR packet that tells a client of a failure: with its code if it is one of a transfer, and
with its wording, which ends before the first NUL. -/
def Failure.packet (f : Failure) : Packet := .error f.transferCode f.message

namespace Server

open Transfer

variable {S : Storage}

/-- What is put on record before a report is sent: that the transfer has failed, and in a verbose
world that the report is going out. -/
def announcement (t : Transfer S) (w : World S) (f : Failure) : List Event :=
  .logged (.failed t.peer f.message) ::
    if w.verbose then [.logged (.sending f.packet t.peer)] else []

/-- What is put on record about a transfer that has failed, oldest first, and the network afterwards.
A peer that knows of it is not told. To anybody else one packet is handed over to the network, and if
the network refuses it, that is only logged. -/
inductive Reported (t : Transfer S) (w : World S) (f : Failure) : List Event → Network → Prop
  | silent : f.isFromPeer = true → Reported t w f [.logged (.aborted t.peer f.message)] w.network
  | sent {network : Network} : f.isFromPeer = false →
      Network.send f.packet.encode w.network = .ok () network →
      Reported t w f (announcement t w f ++
        [.sent t.socket.address t.peer f.packet.encode w.clock]) network
  | refused {why : Failure} {network : Network} : f.isFromPeer = false →
      Network.send f.packet.encode w.network = .error why network →
      Reported t w f (announcement t w f ++ [.logged (.reportNotSent t.peer why.message)]) network

/-- What is printed at any rate. -/
theorem log_of_ne_debug {notice : Notice} (h : notice.level ≠ .debug) (w : World S) :
    World.log notice w = .ok () { w with trace := .logged notice :: w.trace } := by
  rw [World.log_eq, if_pos (.inl h)]

/-- A report changes the record and the network, and nothing else. -/
theorem report_reported (f : Failure) (t : Transfer S) (w : World S) :
    ∃ (lines : List Event) (network : Network), Reported t w f lines network ∧
      report f t w = .ok () { w with network, trace := lines.reverse ++ w.trace } := by
  unfold report
  cases hf : f.isFromPeer with
  | true =>
      simp only [if_true]
      rw [log_of_ne_debug (by simp [Notice.level])]
      exact ⟨_, _, .silent hf, rfl⟩
  | false =>
      -- The world when the packet is handed to the network.
      let w₁ : World S := { w with trace := (announcement t w f).reverse ++ w.trace }
      have hlog : ∀ rest : Act S Unit, EStateM.bind (World.log (.failed t.peer f.message))
          (fun _ => EStateM.bind (World.log (.sending f.packet t.peer)) fun _ => rest) w =
          rest w₁ := by
        intro rest
        unfold EStateM.bind
        rw [log_of_ne_debug (by simp [Notice.level])]
        dsimp only
        rw [World.log_eq]
        cases hv : w.verbose <;> simp [w₁, announcement, hv, Notice.level]
      show ∃ lines network, _ ∧ EStateM.bind (World.log (.failed t.peer f.message)) (fun _ =>
        EStateM.bind (World.log (.sending f.packet t.peer)) fun _ =>
          EStateM.tryCatch (World.send t.socket t.peer f.packet.encode) fun failure =>
            World.log (.reportNotSent t.peer failure.message)) w = _
      rw [hlog]
      unfold EStateM.tryCatch
      rw [World.send_eq]
      cases hs : Network.send f.packet.encode w.network with
      | ok u network =>
          refine ⟨_, network, .sent hf hs, ?_⟩
          rw [List.reverse_append]
          rfl
      | error why network =>
          refine ⟨_, network, .refused hf hs, ?_⟩
          refine (log_of_ne_debug (by simp [Notice.level]) _).trans ?_
          rw [List.reverse_append]
          rfl

/-- When a transfer has failed, that is reported, and then the transfer is no more. -/
theorem settle_error (server : Server S) (number : Nat) (f : Failure) (t : Transfer S) :
    ∃ (lines : List Event) (network : Network), Reported t server.world f lines network ∧
      server.settle number (.error f) t =
        ({ server with
          world := { server.world with
            network := { network with closed := network.closed + 1 }
            trace := lines.reverse ++ server.world.trace }
          registry := server.registry.erase t.peer }, none) := by
  obtain ⟨lines, network, hlines, hr⟩ := report_reported f t server.world
  refine ⟨lines, network, hlines, ?_⟩
  unfold Server.settle Server.act
  dsimp only
  rw [hr]
  rfl

/-- A transfer that is complete is no more. -/
theorem settle_over (server : Server S) (number : Nat) {t : Transfer S} (ho : t.isOver = true) :
    server.settle number (.ok ()) t =
      ((server.act (World.onNetwork Network.close)).dismiss t.peer, none) := by
  unfold Server.settle
  dsimp only
  rw [if_pos ho]

/-- A transfer that has begun goes on as its receive has ended, and then its server deals with it. -/
theorem goOn_eq (server : Server S) (task : Task S) (reception : Reception) :
    let s : Scene S := ⟨task.transfer, server.world⟩
    server.goOn task reception =
      { server with world := (s.after (Transfer.resume reception)).world }.settle task.number
        (s.resultOf (Transfer.resume reception)) (s.after (Transfer.resume reception)).self := by
  rfl

/-- A transfer that has a socket begins, and then its server deals with it. -/
theorem commence_eq (server : Server S) (assignment : Assignment) {socket : Socket}
    {world : World S}
    (h : World.onNetwork (Network.openSocket { server.address with port := 0 }) server.world =
      .ok socket world) :
    let s : Scene S := ⟨.new S assignment.direction assignment.request assignment.peer socket
      server.config true, world⟩
    server.commence assignment =
      { server with world := (s.after begin).world }.settle server.world.network.opened
        (s.resultOf begin) (s.after begin).self := by
  unfold commence
  rw [h]
  rfl

/-- **One report for every transfer that fails.** Up to its end, a transfer sends no ERROR packet to
its peer and does not try to. If it is complete, its server sends none either. If it has failed, the
file that it was receiving has been given up; then its server hands one over to the network with the
code and the wording of the failure, unless the failure is that the peer has given the transfer up.
If the network refuses the report, that is only logged. In any case nothing else happens after the
last turn of the transfer but that its socket is closed: the transfer is no more, and its peer is no
longer registered. The peer has given the transfer up just if an ERROR packet from it has been
received. -/
theorem settle_reports (discreet : S.Discreet) {direction : Direction} {request : Request}
    {peer : Address} {socket : Socket} {config : Config} {heedsStop : Bool} {world : World S}
    {receptions : List Reception} {lines : List Event} {cause result : Except Failure Unit}
    {s : Scene S}
    (h : Account ⟨.new S direction request peer socket config heedsStop, world⟩
      receptions lines cause result s)
    (server : Server S) (hs : server.world = s.world) (number : Nat) :
    (∀ e ∈ lines, ¬ e.IsReportTo peer) ∧
    ((∃ r, cause = .error (.peer r)) ↔ ∃ reception ∈ receptions, ∃ code message,
      reception.packetFrom peer = some (.error code message)) ∧
    let after := server.settle number result s.self
    match result with
    | .ok () => cause = .ok () ∧ (s.self.isOver = true →
        after.1.world = { s.world with
          network := { s.world.network with closed := s.world.network.closed + 1 } } ∧
        after.1.registry = server.registry.erase peer ∧ after.2 = none)
    | .error f => (∃ (v : View S) (f' : Failure),
          cause = .error f' ∧ f = v.failing f' ∧ s.view = v.givenUp) ∧
        (∃ report network, Reported s.self s.world f report network ∧
          after.1.world = { s.world with
            network := { network with closed := network.closed + 1 }
            trace := report.reverse ++ s.world.trace }) ∧
        after.1.registry = server.registry.erase peer ∧ after.2 = none := by
  have known := h.known discreet (by simp [new]) (by simp [Replies, new])
  refine ⟨fun e he => (known.lines e he).not_report discreet, known.givenUp, ?_⟩
  have hpeer : s.self.peer = peer := known.peer_eq
  have ended := known.ended
  cases ended with
  | unfailed hp =>
      refine ⟨rfl, fun ho => ?_⟩
      have hover := settle_over server number ho
      rw [hpeer] at hover
      rw [hover, ← hs]
      exact ⟨rfl, rfl, rfl⟩
  | @failed _ f v hv =>
      obtain ⟨report, network, hreport, hafter⟩ :=
        settle_error server number (v.failing f) s.self
      rw [hs] at hreport hafter
      rw [hpeer] at hafter
      rw [hafter]
      exact ⟨⟨v, f, rfl, rfl, hv⟩, ⟨report, network, hreport, rfl⟩, rfl, rfl⟩

/-- A transfer to which its client sends a block that is too long. -/
def overfull : Scene (Scripted.storage {}) where
  self := .new _ .write ⟨ascii "digits", .octet, { blockSize := some 8 }⟩ ⟨⟨10, 0, 0, 1⟩, 5000⟩
    ⟨⟨⟨10, 0, 0, 2⟩, 40000⟩⟩ {} true
  world := { store := (), verbose := true }

/-- A server with that transfer. -/
def overfullServer (world : World (Scripted.storage {})) : Server (Scripted.storage {}) where
  socket := ⟨⟨⟨10, 0, 0, 2⟩, 69⟩⟩
  address := ⟨⟨10, 0, 0, 2⟩, 69⟩
  config := {}
  registry := (Registry.empty.insert? overfull.self.peer).getD .empty
  world := world

/-- The client is told, and it is not registered any more. -/
theorem settle_reports_overfull : ∃ receptions lines f s,
    Account overfull receptions lines (.error f) (.error f) s ∧
    (∀ e ∈ lines, ¬ e.IsReportTo overfull.self.peer) ∧
    let after := (overfullServer s.world).settle 0 (.error f) s.self
    (∃ report network, Reported s.self s.world f report network ∧
      after.1.world = { s.world with
        network := { network with closed := network.closed + 1 }
        trace := report.reverse ++ s.world.trace }) ∧
    after.1.world.trace.head? = some (.sent overfull.self.socket.address overfull.self.peer
      (Packet.error .illegalOperation (ascii "Illegal TFTP operation")).encode 0) ∧
    after.1.registry = (overfullServer s.world).registry.erase overfull.self.peer ∧
    after.1.inFlight = 0 := by
  let block : Reception := .datagram overfull.self.peer (Packet.data 1 (ascii "0123456789")).encode
  have first : Account overfull _ _ _ (overfull.resultOf begin) _ := .begins
  rw [show overfull.resultOf begin = .ok () by decide +kernel] at first
  have second := first.resumes block (by decide +kernel)
  rw [show (overfull.after begin).resultOf (Transfer.resume block) =
      .error (.transfer .oversizedBlock) by decide +kernel,
    show (overfull.after begin).resultOf (turn (some block)) =
      .error (.transfer .oversizedBlock) by decide +kernel] at second
  let server := overfullServer ((overfull.after begin).after (Transfer.resume block)).world
  obtain ⟨hlines, -, -, hreport, hregistry, -⟩ :=
    settle_reports (Scripted.discreet (by simp)) second server rfl 0
  refine ⟨_, _, _, _, second, hlines, hreport, by decide +kernel, hregistry, ?_⟩
  exact (congrArg Registry.size hregistry).trans (by decide +kernel)

end Server

end Tftp
