import Tftp.Proofs.Ignoring
import Tftp.Proofs.Wire

/-!
# Bystanders

Anybody can send datagrams to the socket of a transfer. Those that do not come from the peer, that
cannot be read, or that a transfer in its direction has no use for, change nothing: without them the
peer and the storage are told the same at the same times, and the transfer ends in the same way.

What makes this more than a look at a single turn is that such datagrams end receives. The receives
of two runs with and without them begin and end at different times, so the runs are not compared with
each other but each with a third one, in which a transfer waits for its deadline in a single receive.

    script ───▶ play ─────╮
      │ thinned           ├──▶ follow
    script' ──▶ play ─────╯
-/

namespace Tftp

/-! ## Scripts -/

namespace Cue

/-- Whether a cue brings only what a transfer has no use for. -/
def Ignored (peer : Address) (direction : Direction) : Cue → Prop
  | datagram sender bytes => (Reception.datagram sender bytes).isIgnored peer direction = true
  | series items _ _ _ => ∀ block,
      (Reception.datagram peer (items.packet block).encode).isIgnored peer direction = true
  | _ => False

/-- Blocks are of no use to a transfer that sends one. -/
theorem ignored_datas (peer : Address) (payload : Bytes) (first : UInt16) (count : Nat)
    (brief : Bool) : (series (.datas payload) first count brief).Ignored peer .read := by
  intro block
  have hcut : (Packet.data block payload).encode.take Network.maxDatagram =
      (Packet.data block (payload.take 65503)).encode := rfl
  simp [Reception.isIgnored, Reception.packetFrom, Reception.cut, Series.packet, hcut,
    Except.toOption, Packet.concerns]

/-- Whether a cue is a datagram from somebody else than the peer. -/
def isForeign (peer : Address) : Cue → Bool
  | datagram sender bytes => (Reception.datagram sender bytes).isForeign peer
  | _ => false

/-- Whether every receive ends when the cue is taken. -/
def endsReceive : Cue → Bool
  | datagram .. | failure _ | stop => true
  | series _ _ count _ => count ≠ 0
  | _ => false

end Cue

namespace Rehearsal

/-- How many datagrams come from somebody else than the peer. -/
def strangers (peer : Address) (cues : List Cue) : Nat := cues.countP (Cue.isForeign peer)

/-- A fault after which the fate of the next datagram still does not depend on how many of `k` others
come first. -/
structure Fair (k : Nat) (fault : Fault) : Prop where
  receives : fault.LetsReceive
  sends : ∃ answer, Fault.Answer k answer [fault]

/-- A script, and what is left of it without some of the datagrams that a transfer has no use for.
The network does not count: its faults make no difference between the answer to a stranger and what
goes to the peer, except for a fault that is there for the answer to one stranger. Nor does it count for the wish to
stop how many receives there are: it comes up as a receive ends, not while one goes on. -/
inductive Thinned (peer : Address) (direction : Direction) : List Cue → List Cue → Prop
  | nil : Thinned peer direction [] []
  | keep {cue : Cue} {cues cues' : List Cue} : cue ≠ .raise →
      (∀ fault, cue = .fault fault → Fair (strangers peer cues) fault) →
      Thinned peer direction cues cues' → Thinned peer direction (cue :: cues) (cue :: cues')
  | drop {cue : Cue} {cues cues' : List Cue} : cue.Ignored peer direction →
      Thinned peer direction cues cues' → Thinned peer direction (cue :: cues) cues'
  | keepRaised {cue : Cue} {cues cues' : List Cue} : cue.endsReceive = true →
      Thinned peer direction cues cues' →
      Thinned peer direction (.raise :: cue :: cues) (.raise :: cue :: cues')
  | keepRefused (errno : Errno) {sender : Address} (bytes : Bytes) {cues cues' : List Cue} :
      sender ≠ peer → Thinned peer direction cues cues' →
      Thinned peer direction (.fault ⟨.send, errno, 0, 1⟩ :: .datagram sender bytes :: cues)
        (.fault ⟨.send, errno, 0, 1⟩ :: .datagram sender bytes :: cues')
  | dropRefused (errno : Errno) {sender : Address} (bytes : Bytes) {cues cues' : List Cue} :
      sender ≠ peer → Thinned peer direction cues cues' →
      Thinned peer direction (.fault ⟨.send, errno, 0, 1⟩ :: .datagram sender bytes :: cues) cues'

variable {peer : Address} {direction : Direction}

theorem Fair.mono {k l : Nat} {fault : Fault} (hl : l ≤ k) (h : Fair k fault) : Fair l fault :=
  ⟨h.receives, h.sends.imp fun _ hs => hs.mono hl⟩

theorem strangers_cons_of_foreign {cue : Cue} (cues : List Cue) (hc : cue.isForeign peer = true) :
    strangers peer (cue :: cues) = strangers peer cues + 1 := by
  simp [strangers, hc]

theorem strangers_cons_of_not {cue : Cue} (cues : List Cue) (hc : cue.isForeign peer = false) :
    strangers peer (cue :: cues) = strangers peer cues := by
  simp [strangers, hc]

theorem strangers_le_cons (cue : Cue) (cues : List Cue) :
    strangers peer cues ≤ strangers peer (cue :: cues) := by
  unfold strangers
  rw [List.countP_cons]
  exact Nat.le_add_right _ _

theorem strangers_cons_le {cues cues' : List Cue} (cue : Cue)
    (h : strangers peer cues' ≤ strangers peer cues) :
    strangers peer (cue :: cues') ≤ strangers peer (cue :: cues) := by
  unfold strangers at h ⊢
  rw [List.countP_cons, List.countP_cons]
  exact Nat.add_le_add_right h _

theorem Thinned.strangers_le {cues cues' : List Cue} (h : Thinned peer direction cues cues') :
    strangers peer cues' ≤ strangers peer cues := by
  induction h with
  | nil => exact Nat.le_refl _
  | keep _ _ _ ih => exact strangers_cons_le _ ih
  | drop _ _ ih => exact Nat.le_trans ih (strangers_le_cons _ _)
  | keepRaised _ _ ih | keepRefused _ _ _ _ ih =>
      exact strangers_cons_le _ (strangers_cons_le _ ih)
  | dropRefused errno bytes hs _ ih =>
      exact Nat.le_trans ih (Nat.le_trans (strangers_le_cons _ _) (strangers_le_cons _ _))

/-- What is left of a script may itself be left as it is. -/
theorem Thinned.right {cues cues' : List Cue} (h : Thinned peer direction cues cues') :
    Thinned peer direction cues' cues' := by
  induction h with
  | nil => exact .nil
  | keep hr hf h ih => exact .keep hr (fun fault hc => (hf fault hc).mono h.strangers_le) ih
  | drop _ _ ih => exact ih
  | keepRaised hc _ ih => exact .keepRaised hc ih
  | keepRefused errno bytes hs _ ih => exact .keepRefused errno bytes hs ih
  | dropRefused _ _ _ _ ih => exact ih

open Transfer

variable {S : Storage}

/-! ## Following a script -/

/-- The state after a turn about what a receive has brought. -/
def State.turn (state : State S) (reception : Reception) : State S :=
  { state with
    transfer := (state.scene.after (resume reception)).self
    world := (state.scene.after (resume reception)).world }

/-- What becomes of a transfer that waits until its deadline when the next cue is taken: how its
receive ends, if it does, what is left of the cue, and the state then. -/
def take (state : State S) : Cue → Option Reception × List Cue × State S
  | .datagram sender bytes => (some (.datagram sender bytes), [], state)
  | .pause ms =>
    let left := Network.limit (state.transfer.deadline - state.world.clock)
    if left ≤ ms then (some .nothing, [.pause (ms - left)], state.tick left)
    else (none, [], state.tick ms)
  | .failure errno => (some (.failed errno), [], state)
  | .stop => (some .nothing, [], state.stop)
  | .raise => (none, [], state.stop)
  | .fault fault => (none, [], state.addFault fault)
  | .series _ _ 0 _ => (none, [], state)
  | .series series first (count + 1) brief =>
    (some (.datagram state.transfer.peer (series.packet first).encode),
      [.series series (first + 1) count brief], state)

/-- How much there is to follow. -/
def scriptWeight : List Cue → Nat
  | [] => 0
  | cue :: cues => cue.weight + scriptWeight cues

theorem scriptWeight_append (cues cues' : List Cue) :
    scriptWeight (cues ++ cues') = scriptWeight cues + scriptWeight cues' := by
  induction cues with
  | nil => exact (Nat.zero_add _).symm
  | cons cue cues ih =>
      show cue.weight + scriptWeight (cues ++ cues') = _
      rw [ih, scriptWeight, Nat.add_assoc]

/-- Taking a cue uses up some of it. -/
theorem scriptWeight_take_lt {state state' : State S} {cue : Cue} {reception? : Option Reception}
    {rest : List Cue} (h : take state cue = (reception?, rest, state')) :
    scriptWeight rest < cue.weight := by
  cases cue with
  | pause ms =>
      have := Network.limit_pos (state.transfer.deadline - state.world.clock)
      unfold take at h
      dsimp only at h
      split at h
      · cases h
        simp only [scriptWeight, Cue.weight]
        omega
      · cases h
        exact Nat.succ_pos _
  | series series first count brief =>
      cases count with
      | zero =>
          cases h
          simp only [scriptWeight, Cue.weight]
          omega
      | succ count =>
          cases h
          simp only [scriptWeight, Cue.weight]
          omega
  | _ =>
      cases h
      exact Nat.one_pos

/-- Follows a script from where a transfer waits, or is over with the given result. A transfer that
waits does so in a single receive until its deadline, or until something comes. -/
def follow (result : Except Failure Unit) (cues : List Cue) (state : State S) : End × State S :=
  match result with
  | .error failure => (.failed failure, state)
  | .ok () =>
    if state.transfer.isOver then (.done, state)
    else
      match cues with
      | [] => (.unfinished, state)
      | cue :: cues =>
        match h : take state cue with
        | (none, rest, state) =>
          have := scriptWeight_take_lt h
          follow (.ok ()) (rest ++ cues) state
        | (some reception, rest, state) =>
          have := scriptWeight_take_lt h
          follow (state.scene.resultOf (resume reception)) (rest ++ cues) (state.turn reception)
termination_by scriptWeight cues
decreasing_by
  all_goals
    rw [scriptWeight_append, scriptWeight]
    exact Nat.add_lt_add_right this _

section

variable {state state' : State S} {cue : Cue} {cues rest : List Cue} {reception : Reception}

theorem follow_nil (ho : state.transfer.isOver = false) :
    follow (.ok ()) [] state = (.unfinished, state) := by
  rw [follow, if_neg (by simp [ho])]

theorem follow_on (ho : state.transfer.isOver = false) (h : take state cue = (none, rest, state')) :
    follow (.ok ()) (cue :: cues) state = follow (.ok ()) (rest ++ cues) state' := by
  rw [follow, if_neg (by simp [ho])]
  split <;> simp_all

theorem follow_turn (ho : state.transfer.isOver = false)
    (h : take state cue = (some reception, rest, state')) :
    follow (.ok ()) (cue :: cues) state = follow (state'.scene.resultOf (resume reception))
      (rest ++ cues) (state'.turn reception) := by
  rw [follow, if_neg (by simp [ho])]
  split <;> simp_all

/-- A pause may be taken in two parts, if the first ends before the deadline. -/
theorem follow_pause {part ms : Nat} (ho : state.transfer.isOver = false) (hp : part ≤ ms)
    (hd : state.world.clock + part < state.transfer.deadline) :
    follow (.ok ()) (.pause ms :: cues) state =
      follow (.ok ()) (.pause (ms - part) :: cues) (state.tick part) := by
  let left := Network.limit (state.transfer.deadline - state.world.clock)
  have hleft : Network.limit ((state.tick part).transfer.deadline - (state.tick part).world.clock) =
      left - part := by
    simp only [left, Network.limit, State.tick]
    omega
  have hlt : part < left := by
    simp only [left, Network.limit]
    omega
  have ho' : (state.tick part).transfer.isOver = false := ho
  by_cases hl : left ≤ ms
  · have htake : take state (.pause ms) = (some .nothing, [.pause (ms - left)], state.tick left) :=
      if_pos hl
    have htake' : take (state.tick part) (.pause (ms - part)) =
        (some .nothing, [.pause (ms - left)], state.tick left) := by
      unfold take
      dsimp only
      rw [hleft, if_pos (by omega), State.tick_tick, show part + (left - part) = left by omega,
        show ms - part - (left - part) = ms - left by omega]
    rw [follow_turn ho htake, follow_turn ho' htake']
  · have htake : take state (.pause ms) = (none, [], state.tick ms) := if_neg hl
    have htake' : take (state.tick part) (.pause (ms - part)) = (none, [], state.tick ms) := by
      unfold take
      dsimp only
      rw [hleft, if_neg (by omega), State.tick_tick, show part + (ms - part) = ms by omega]
    rw [follow_on ho htake, follow_on ho' htake']

end

/-! ## Two ways through a script -/

/-- What the peer and the storage had been told when the last record was cut. -/
def State.past (peer : Address) (state : State S) : List Event :=
  (state.records.reverse.flatMap Record.events).filter (Event.concerns peer)

/-- A state of a rehearsal with what is left to play, and one in which the transfer follows what is
left of the script, agree: nobody who matters can tell them apart. -/
structure Tied (peer : Address) (direction : Direction) (related : Network → Network → Prop)
    (queue : List Queued) (state : State S) (cues : List Cue) (s : State S) : Prop where
  thinned : Thinned peer direction (queue.map Queued.cue) cues
  akin : Akin peer (state.past peer) related state.scene s.scene
  peer_eq : state.transfer.peer = peer
  direction_eq : state.transfer.direction = direction

/-- The networks answer in the same way, however many of the strangers in the queue come first. -/
abbrev Fairly (peer : Address) (queue : List Queued) : Network → Network → Prop :=
  Network.Level (strangers peer (queue.map Queued.cue))

/-- The states agree after a turn with the given result, and if the transfer waits, it can go on
waiting. -/
structure Turned (peer : Address) (direction : Direction) (result : Except Failure Unit)
    (queue : List Queued) (state : State S) (cues : List Cue) (s : State S) : Prop where
  akin : Akin peer (state.past peer) (fun _ _ => True) state.scene s.scene
  waits : result = .ok () → state.transfer.isOver = false →
    Tied peer direction (Fairly peer queue) queue state cues s ∧ state.scene.view.Poised

/-- What a receive of a rehearsal comes to agrees with what comes of following the script. -/
def Meets (peer : Address) (direction : Direction) (followed : End × State S) :
    Option Reception × List Queued × State S → Prop
  | (none, _, state) => ∃ s, followed = (.unfinished, s) ∧
      Akin peer (state.past peer) (fun _ _ => True) state.scene s.scene
  | (some reception, rest, state) => ∃ cues s,
      followed = follow (state.scene.resultOf (resume reception)) cues s ∧
      Turned peer direction (state.scene.resultOf (resume reception)) rest (state.turn reception)
        cues s

theorem State.past_cut (peer : Address) (state : State S) (brief : Bool) :
    (state.cut brief).past peer = state.past peer ++ state.world.told peer := by
  simp [past, cut, World.told]

theorem akin_cut {peer : Address} {related : Network → Network → Prop} {state s : State S}
    (brief : Bool) (h : Akin peer (state.past peer) related state.scene s.scene) :
    Akin peer ((state.cut brief).past peer) related (state.cut brief).scene s.scene where
  self := h.self
  store := h.store
  clock := h.clock
  stopping := h.stopping
  told := by
    have hnone : (state.cut brief).scene.world.told peer = [] := rfl
    rw [hnone, List.append_nil, State.past_cut]
    exact h.told
  network := h.network

/-- After a turn a transfer is over, or it can wait, and whose it is does not change. -/
theorem turn_keeps (reception? : Option Reception) (scene : Scene S) :
    let after := scene.after (guarded (turn reception?))
    after.self.peer = scene.self.peer ∧ after.self.direction = scene.self.direction ∧
    (scene.resultOf (guarded (turn reception?)) = .ok () → after.self.isOver = false →
      after.view.Poised) := by
  have hframe := frame_after (Steady.turn reception?) scene
  have hpoised := Ensures.outcome (s := scene)
    (P := fun result v => result = .ok () → v.self.isOver = true ∨ v.Poised)
    (Ensures.mono (Ensures.turn_poised reception?) (fun _ _ h _ => h) fun _ _ _ => nofun)
  refine ⟨congrArg Frame.peer hframe, congrArg Frame.direction hframe, fun hr ho => ?_⟩
  refine (hpoised hr).resolve_left fun h => ?_
  cases ho.symm.trans h

theorem level_addFault {k : Nat} {n m : Network} {fault : Fault} (h : Network.Level k n m)
    (hf : Fair k fault) : Network.Level k { n with faults := n.faults ++ [fault] }
      { m with faults := m.faults ++ [fault] } := by
  obtain ⟨answer, hn, hm⟩ := h
  obtain ⟨answer', hs⟩ := hf.sends
  exact ⟨_, hn.addFault hf.receives hs, hm.addFault hf.receives hs⟩

section

variable {peer : Address} {direction : Direction} {related : Network → Network → Prop}
  {queue : List Queued} {state s : State S} {cues : List Cue} {reception : Reception}

theorem poised_enter (taken brief : Bool) (hp : state.scene.view.Poised) :
    (if taken then state else state.cut brief).scene.view.Poised := by
  cases taken <;> exact ⟨hp.isOver, hp.goesOn, hp.early⟩

namespace Tied

theorem enter (h : Tied peer direction related queue state cues s) (taken brief : Bool) :
    Tied peer direction related queue (if taken then state else state.cut brief) cues s := by
  cases taken with
  | true => exact h
  | false => exact { h with akin := akin_cut brief h.akin }

theorem tick (h : Tied peer direction related queue state cues s) (ms : Nat) :
    Tied peer direction related queue (state.tick ms) cues (s.tick ms) :=
  { h with akin := { h.akin with clock := congrArg (· + (ms : Int)) h.akin.clock } }

theorem stop (h : Tied peer direction related queue state cues s) :
    Tied peer direction related queue state.stop cues s.stop :=
  { h with akin := { h.akin with stopping := rfl } }

theorem transfer_eq (h : Tied peer direction related queue state cues s) :
    s.transfer = state.transfer := h.akin.self.symm

theorem clock_eq (h : Tied peer direction related queue state cues s) :
    s.world.clock = state.world.clock := h.akin.clock.symm

theorem isOver_right (h : Tied peer direction related queue state cues s)
    (ho : state.transfer.isOver = false) : s.transfer.isOver = false := by
  rw [h.transfer_eq]
  exact ho

/-- The same turn leaves both as they can be. -/
theorem meets_turn (h : Tied peer direction related queue state cues s)
    (hmatch : Match peer (state.past peer) (Fairly peer queue)
      (guarded (turn (some reception)) state.scene) (guarded (turn (some reception)) s.scene)) :
    Meets peer direction
      (follow (s.scene.resultOf (resume reception)) cues (s.turn reception))
      (some reception, queue, state) := by
  obtain ⟨hpeer, hdirection, hpoised⟩ := turn_keeps (some reception) state.scene
  rw [← resume_eq] at hmatch hpeer hdirection hpoised
  obtain ⟨hres, hakin, hlevel⟩ := hmatch.outcome
  refine ⟨cues, s.turn reception, by rw [hres], hakin, fun hok ho => ⟨?_, hpoised hok ho⟩⟩
  exact {
    thinned := h.thinned
    akin := { hakin with network := hlevel hok }
    peer_eq := hpeer.trans h.peer_eq
    direction_eq := hdirection.trans h.direction_eq }

/-- What is not from a stranger is the same to both. -/
theorem meets (h : Tied peer direction (Fairly peer queue) queue state cues s)
    (hr : reception.isForeign peer = false) : Meets peer direction
      (follow (s.scene.resultOf (resume reception)) cues (s.turn reception))
      (some reception, queue, state) := by
  refine h.meets_turn (Match.turn (Network.level_indistinct _) h.akin ?_)
  rintro _ ⟨⟩
  rw [show state.scene.self.peer = peer from h.peer_eq]
  exact hr

end Tied

/-! ## What is ignored -/

/-- The network once whoever has sent something has got an answer, if they get one. -/
def answered (peer : Address) (reception : Reception) (network : Network) : Network :=
  if reception.isForeign peer then network.afterSend Packet.turnedAway.encode else network

variable {answer : Option Errno}

/-- The networks are prepared for the answers to strangers in the queue. -/
theorem answered_of_cons {sender : Address} {bytes : Bytes} {cues : List Cue} {network : Network}
    (hn : network.Steadfast answer (strangers peer (.datagram sender bytes :: cues))) :
    (answered peer (.datagram sender bytes) network).Steadfast answer (strangers peer cues) := by
  unfold answered
  split
  next hs =>
    have hs : (Cue.datagram sender bytes).isForeign peer = true := hs
    rw [strangers_cons_of_foreign _ hs] at hn
    exact hn.afterSend _
  next => exact hn.mono (strangers_le_cons _ _)

/-- Nothing that matters happens in a turn about what is ignored. -/
theorem State.turn_ignored {k : Nat} (hpeer : state.transfer.peer = peer)
    (hdirection : state.transfer.direction = direction) (hp : state.scene.view.Poised)
    (hi : reception.isIgnored peer direction = true)
    (hn : (answered peer reception state.world.network).Steadfast answer k) :
    state.scene.resultOf (resume reception) = .ok () ∧
    Akin peer [] (fun _ _ => True) state.scene (state.turn reception).scene ∧
    (state.turn reception).world.network.Steadfast answer k := by
  subst hpeer hdirection
  exact resume_ignored hp hi hn

/-- A turn about what is ignored is the same in akin scenes, whatever the transfer is about to do:
the networks are still indistinct after the same answer. -/
theorem match_ignored {past : List Event} {k : Nat} {u v : Scene S}
    (h : Akin peer past (fun _ _ => True) u v) (hpeer : u.self.peer = peer)
    (hi : reception.isIgnored peer u.self.direction = true)
    (hu : (answered peer reception u.world.network).Steadfast answer k)
    (hv : (answered peer reception v.world.network).Steadfast answer k) :
    Match peer past (Network.Level k) (guarded (turn (some reception)) u)
      (guarded (turn (some reception)) v) := by
  subst hpeer
  have hi' : reception.isIgnored v.self.peer v.self.direction = true := h.self ▸ hi
  obtain ⟨u', hheed, hakin, hnet⟩ := heed_ignored hi
  obtain ⟨v', hheed', hakin', hnet'⟩ := heed_ignored hi'
  rw [← h.self] at hakin' hnet'
  have hlevel : Network.Level k u'.world.network v'.world.network :=
    ⟨answer, hnet ▸ hu, hnet' ▸ hv⟩
  have himpulse : impulse (some reception) u = .ok false u' := (bind_of_ok hheed).trans rfl
  have himpulse' : impulse (some reception) v = .ok false v' := (bind_of_ok hheed').trans rfl
  refine .guarded (.bind ?_ fun _ => (Alike.compositional (Network.level_indistinct k)).settle)
  rw [himpulse, himpulse']
  exact .ok false ((h.after hakin trivial).after_right hakin' hlevel)

namespace Tied

/-- What is ignored need not come at all. -/
theorem meets_ignored (h : Tied peer direction (fun _ _ => True) queue state cues s)
    (hp : state.scene.view.Poised) (hi : reception.isIgnored peer direction = true)
    (hn : (answered peer reception state.world.network).Steadfast answer
      (strangers peer (queue.map Queued.cue)))
    (hs : s.world.network.Steadfast answer (strangers peer (queue.map Queued.cue))) :
    Meets peer direction (follow (.ok ()) cues s) (some reception, queue, state) := by
  obtain ⟨hres, hakin, hsteady⟩ := State.turn_ignored h.peer_eq h.direction_eq hp hi hn
  have hboth : Akin peer (state.past peer) (Fairly peer queue) (state.turn reception).scene s.scene :=
    h.akin.after hakin ⟨answer, hsteady, hs⟩
  refine ⟨cues, s, by rw [hres], hboth.anyway, fun _ _ => ⟨?_, hakin.poised hp⟩⟩
  exact {
    thinned := h.thinned
    akin := hboth
    peer_eq := (congrArg Transfer.peer hakin.self.symm).trans h.peer_eq
    direction_eq := (congrArg Transfer.direction hakin.self.symm).trans h.direction_eq }

/-- What is ignored may come to both. -/
theorem meets_both (h : Tied peer direction (fun _ _ => True) queue state cues s)
    (hi : reception.isIgnored peer direction = true)
    (hn : (answered peer reception state.world.network).Steadfast answer
      (strangers peer (queue.map Queued.cue)))
    (hs : (answered peer reception s.world.network).Steadfast answer
      (strangers peer (queue.map Queued.cue))) :
    Meets peer direction (follow (s.scene.resultOf (resume reception)) cues (s.turn reception))
      (some reception, queue, state) := by
  refine h.meets_turn (match_ignored h.akin h.peer_eq ?_ hn hs)
  rw [show state.scene.self.direction = direction from h.direction_eq]
  exact hi

/-! ## One receive -/

/-- Something else is left of the script, and no more strangers in it. -/
theorem sooner {rest : List Queued} {cues' : List Cue}
    (h : Tied peer direction (Fairly peer queue) queue state cues s)
    (ht : Thinned peer direction (rest.map Queued.cue) cues')
    (hk : strangers peer (rest.map Queued.cue) ≤ strangers peer (queue.map Queued.cue)) :
    Tied peer direction (Fairly peer rest) rest state cues' s where
  thinned := ht
  akin := { h.akin with network := h.akin.network.mono hk }
  peer_eq := h.peer_eq
  direction_eq := h.direction_eq

/-- Part of a cue is left. -/
theorem partly {q : Queued} {cues' : List Cue} (cue : Cue)
    (h : Tied peer direction (Fairly peer (q :: queue)) (q :: queue) state cues' s)
    (ht : Thinned peer direction (queue.map Queued.cue) cues) (hr : cue ≠ .raise)
    (hf : ∀ fault, cue ≠ .fault fault) (hc : cue.isForeign peer = false) :
    Tied peer direction (Fairly peer (⟨cue, true⟩ :: queue)) (⟨cue, true⟩ :: queue) state
      (cue :: cues) s := by
  refine h.sooner (.keep hr (fun fault hcue => absurd hcue (hf fault)) ht) ?_
  exact Nat.le_trans (Nat.le_of_eq (strangers_cons_of_not _ hc)) (strangers_le_cons _ _)

/-- The networks need not matter. -/
theorem anyway (h : Tied peer direction related queue state cues s) :
    Tied peer direction (fun _ _ => True) queue state cues s :=
  { h with akin := h.akin.anyway }

theorem meets_datagram {sender : Address} {bytes : Bytes} {taken : Bool} {cues' : List Cue}
    (h : Tied peer direction (Fairly peer (⟨.datagram sender bytes, taken⟩ :: queue))
      (⟨.datagram sender bytes, taken⟩ :: queue) state cues' s)
    (ho : state.transfer.isOver = false)
    (ht : Thinned peer direction (queue.map Queued.cue) cues) :
    Meets peer direction (follow (.ok ()) (.datagram sender bytes :: cues) s)
      (some (.datagram sender bytes), queue, state) := by
  rw [follow_turn (h.isOver_right ho) rfl, List.nil_append]
  have hrest := h.sooner ht (strangers_le_cons _ _)
  cases hs : (Reception.datagram sender bytes).isForeign peer with
  | false => exact hrest.meets hs
  | true =>
      obtain ⟨answer, hn, hm⟩ := h.akin.network
      exact hrest.anyway.meets_both (Reception.isIgnored_of_isForeign hs direction)
        (answered_of_cons hn) (answered_of_cons hm)

/-- A receive that waits for part of a pause: the deadline may have come then, or not yet. -/
theorem meets_pause {q : Queued} {limit ms : Nat} {cues' : List Cue}
    (h : Tied peer direction (Fairly peer (q :: queue)) (q :: queue) state cues' s)
    (hp : state.scene.view.Poised) (ht : Thinned peer direction (queue.map Queued.cue) cues)
    (hle : limit ≤ ms) (hd : state.world.clock + limit ≤ state.transfer.deadline) :
    Meets peer direction (follow (.ok ()) (.pause ms :: cues) s)
      (some .nothing, ⟨.pause (ms - limit), true⟩ :: queue, state.tick limit) := by
  have ho := h.isOver_right hp.isOver
  have hrest := (h.tick limit).partly (.pause (ms - limit)) ht nofun nofun rfl
  rcases Int.lt_or_eq_of_le hd with hlt | heq
  · rw [follow_pause ho hle (by rw [h.clock_eq, h.transfer_eq]; exact hlt)]
    obtain ⟨answer, hn, hm⟩ := hrest.akin.network
    exact hrest.anyway.meets_ignored ⟨hp.isOver, hp.goesOn, hlt⟩ rfl hn hm
  · have hleft : Network.limit (s.transfer.deadline - s.world.clock) = limit := by
      have hearly : state.world.clock < state.transfer.deadline := hp.early
      rw [h.clock_eq, h.transfer_eq]
      unfold Network.limit
      omega
    have htake : take s (.pause ms) = (some .nothing, [.pause (ms - limit)], s.tick limit) := by
      unfold take
      dsimp only
      rw [hleft, if_pos hle]
    rw [follow_turn ho htake]
    exact hrest.meets rfl

/-- A pause that is over before the receive is taken as a whole. -/
theorem take_pause {limit ms : Nat} (h : Tied peer direction related queue state cues s)
    (hlt : ms < limit) (hd : state.world.clock + limit ≤ state.transfer.deadline) :
    take s (.pause ms) = (none, [], s.tick ms) := by
  refine if_neg ?_
  rw [h.clock_eq, h.transfer_eq]
  unfold Network.limit
  omega

/-- The next packet of a series comes to both. -/
theorem meets_series {series : Series} {first : UInt16} {count : Nat} {brief taken : Bool}
    {cues' : List Cue}
    (h : Tied peer direction (Fairly peer (⟨.series series first (count + 1) brief, taken⟩ :: queue))
      (⟨.series series first (count + 1) brief, taken⟩ :: queue) state
      cues' s)
    (ho : state.transfer.isOver = false)
    (ht : Thinned peer direction (queue.map Queued.cue) cues) :
    Meets peer direction (follow (.ok ()) (.series series first (count + 1) brief :: cues) s)
      (some (.datagram state.transfer.peer (series.packet first).encode),
        ⟨.series series (first + 1) count brief, true⟩ :: queue, state) := by
  rw [follow_turn (h.isOver_right ho) rfl, h.transfer_eq]
  have hrest := h.partly (.series series (first + 1) count brief) ht nofun nofun rfl
  exact hrest.meets (by simp [Reception.isForeign, h.peer_eq])

/-- What ends every receive ends both, also if the transfer has been told to stop meanwhile. -/
theorem meets_ending {cue : Cue} {taken : Bool} {cues' : List Cue} (limit : Nat)
    (h : Tied peer direction (Fairly peer (⟨cue, taken⟩ :: queue)) (⟨cue, taken⟩ :: queue) state
      cues' s)
    (ho : state.transfer.isOver = false) (hc : cue.endsReceive = true)
    (ht : Thinned peer direction (queue.map Queued.cue) cues) :
    Meets peer direction (follow (.ok ()) (cue :: cues) s)
      (next limit (⟨cue, true⟩ :: queue) state) := by
  have ho' := h.isOver_right ho
  have hrest := h.sooner ht (strangers_le_cons _ _)
  rw [next.eq_def]
  simp only [if_true]
  cases cue with
  | datagram sender bytes => exact h.meets_datagram ho ht
  | failure errno =>
      rw [follow_turn ho' rfl, List.nil_append]
      exact hrest.meets rfl
  | stop =>
      rw [follow_turn ho' rfl, List.nil_append]
      exact hrest.stop.meets rfl
  | series series first count brief =>
      cases count with
      | zero => cases hc
      | succ count => exact h.meets_series ho ht
  | pause | raise | fault => cases hc

/-- The next packet of a series that is ignored need not come. -/
theorem meets_series_ignored {series : Series} {first : UInt16} {count : Nat} {brief taken : Bool}
    (h : Tied peer direction (Fairly peer (⟨.series series first (count + 1) brief, taken⟩ :: queue))
      (⟨.series series first (count + 1) brief, taken⟩ :: queue) state cues s)
    (hp : state.scene.view.Poised)
    (hi : (Cue.series series first (count + 1) brief).Ignored peer direction)
    (ht : Thinned peer direction (queue.map Queued.cue) cues) :
    Meets peer direction (follow (.ok ()) cues s)
      (some (.datagram state.transfer.peer (series.packet first).encode),
        ⟨.series series (first + 1) count brief, true⟩ :: queue, state) := by
  have hrest : Tied peer direction
      (Fairly peer (⟨.series series (first + 1) count brief, true⟩ :: queue))
      (⟨.series series (first + 1) count brief, true⟩ :: queue) state cues s :=
    h.sooner (.drop hi ht) (Nat.le_refl _)
  obtain ⟨answer, hn, hm⟩ := hrest.akin.network
  have hpeer : (Reception.datagram peer (series.packet first).encode).isForeign peer = false := by
    simp [Reception.isForeign]
  rw [h.peer_eq]
  refine hrest.anyway.meets_ignored hp (hi first) ?_ hm
  rw [answered, hpeer]
  exact hn

/-- The answer to a stranger is refused, and nothing else: whether the stranger is there does not
matter then either. -/
theorem meets_refused {limit : Nat} {errno : Errno} {sender : Address} {bytes : Bytes}
    {cue : Cue} {taken taken' : Bool} {cues' : List Cue}
    (h : Tied peer direction (Fairly peer (⟨cue, taken'⟩ :: ⟨.datagram sender bytes, taken⟩ :: queue))
      (⟨cue, taken'⟩ :: ⟨.datagram sender bytes, taken⟩ :: queue) state cues' s)
    (hp : state.scene.view.Poised) (hs : sender ≠ peer)
    (ht : Thinned peer direction (queue.map Queued.cue) cues) :
    let met := next limit (⟨.datagram sender bytes, taken⟩ :: queue)
      (state.addFault ⟨.send, errno, 0, 1⟩)
    Meets peer direction (follow (.ok ()) cues s) met ∧
    Meets peer direction
      (follow (.ok ()) (.fault ⟨.send, errno, 0, 1⟩ :: .datagram sender bytes :: cues) s) met := by
  have ho := h.isOver_right hp.isOver
  have hforeign : (Reception.datagram sender bytes).isForeign peer = true := by
    simpa [Reception.isForeign] using hs
  have hi := Reception.isIgnored_of_isForeign hforeign direction
  obtain ⟨answer, hn, hm⟩ := h.akin.network
  have hk : strangers peer (queue.map Queued.cue) + 1 ≤ strangers peer
      ((⟨cue, taken'⟩ :: ⟨.datagram sender bytes, taken⟩ :: queue : List Queued).map Queued.cue) := by
    have hs : (Cue.datagram sender bytes).isForeign peer = true := hforeign
    rw [← strangers_cons_of_foreign (queue.map Queued.cue) hs]
    exact strangers_le_cons _ _
  have hrefused {network : Network} (hn : network.Steadfast answer
      (strangers peer (queue.map Queued.cue) + 1)) : (answered peer (.datagram sender bytes)
        { network with faults := network.faults ++ [⟨.send, errno, 0, 1⟩] }).Steadfast answer
          (strangers peer (queue.map Queued.cue)) := by
    rw [answered, if_pos hforeign]
    exact hn.afterSend_refused _ errno
  let refusing := state.addFault ⟨.send, errno, 0, 1⟩
  let entered := if taken then refusing else refusing.cut false
  have hnext : next limit (⟨.datagram sender bytes, taken⟩ :: queue) refusing =
      (some (.datagram sender bytes), queue, entered) := by
    rw [next.eq_def]
    rfl
  have hrefusing : Tied peer direction (fun _ _ => True) queue refusing cues s :=
    { thinned := ht, akin := { h.akin with network := trivial }
      peer_eq := h.peer_eq, direction_eq := h.direction_eq }
  have hentered : Tied peer direction (fun _ _ => True) queue entered cues s :=
    hrefusing.enter taken false
  have hp : entered.scene.view.Poised :=
    poised_enter taken false ⟨hp.isOver, hp.goesOn, hp.early⟩
  have hnet : entered.world.network = refusing.world.network := by
    cases taken <;> rfl
  have hn : (answered peer (.datagram sender bytes) entered.world.network).Steadfast answer
      (strangers peer (queue.map Queued.cue)) := hnet ▸ hrefused (hn.mono hk)
  dsimp only
  rw [hnext]
  refine ⟨hentered.meets_ignored hp hi hn (hm.mono (Nat.le_trans (Nat.le_succ _) hk)), ?_⟩
  rw [follow_on ho rfl, List.nil_append,
    follow_turn (show (s.addFault ⟨.send, errno, 0, 1⟩).transfer.isOver = false from ho) rfl,
    List.nil_append]
  exact meets_both { hentered with akin := { hentered.akin with network := trivial } } hi hn
    (hrefused (hm.mono hk))

end Tied

/-- Every receive that has this much left to play agrees with following the script. -/
def Agrees (S : Storage) (peer : Address) (direction : Direction) (queue : List Queued) : Prop :=
  ∀ {limit : Nat} {state s : State S} {cues : List Cue},
    Tied peer direction (Fairly peer queue) queue state cues s → state.scene.view.Poised →
    state.world.clock + limit ≤ state.transfer.deadline →
    Meets peer direction (follow (.ok ()) cues s) (next limit queue state)

/-- A cue that is kept is taken by both. -/
theorem Agrees.keep {limit : Nat} {cue : Cue} (ih : Agrees S peer direction queue)
    (h : Tied peer direction (Fairly peer (⟨cue, true⟩ :: queue)) (⟨cue, true⟩ :: queue) state
      (cue :: cues) s)
    (hp : state.scene.view.Poised) (hd : state.world.clock + limit ≤ state.transfer.deadline)
    (hr : cue ≠ .raise)
    (hf : ∀ fault, cue = .fault fault → Fair (strangers peer (queue.map Queued.cue)) fault)
    (ht : Thinned peer direction (queue.map Queued.cue) cues) :
    Meets peer direction (follow (.ok ()) (cue :: cues) s)
      (next limit (⟨cue, true⟩ :: queue) state) := by
  cases hc : cue.endsReceive with
  | true => exact h.meets_ending limit hp.isOver hc ht
  | false =>
  have ho := h.isOver_right hp.isOver
  have hrest := h.sooner ht (strangers_le_cons _ _)
  cases cue with
  | datagram | failure | stop => cases hc
  | raise => exact absurd rfl hr
  | pause ms =>
      rw [next_pause]
      split
      next hle => exact h.meets_pause hp ht hle hd
      next hgt =>
        rw [follow_on ho (h.take_pause (Nat.lt_of_not_le hgt) hd), List.nil_append]
        refine ih (hrest.tick ms) ⟨hp.isOver, hp.goesOn, ?_⟩ ?_
        · show state.world.clock + (ms : Int) < state.transfer.deadline
          omega
        · show state.world.clock + (ms : Int) + ((limit - ms : Nat) : Int) ≤
            state.transfer.deadline
          omega
  | fault fault =>
      rw [next_fault, follow_on ho rfl, List.nil_append]
      have hlevel := level_addFault hrest.akin.network (hf fault rfl)
      exact ih { hrest with akin := { hrest.akin with network := hlevel } }
        ⟨hp.isOver, hp.goesOn, hp.early⟩ hd
  | series series first count brief =>
      obtain rfl : count = 0 := by simpa [Cue.endsReceive] using hc
      rw [follow_on ho rfl, List.nil_append]
      exact ih hrest hp hd

/-- The wish to stop comes up in both as the receive ends. -/
theorem Tied.meets_raised {limit : Nat} {cue : Cue} {taken taken' : Bool} {cues' : List Cue}
    (h : Tied peer direction (Fairly peer (⟨.raise, taken⟩ :: ⟨cue, taken'⟩ :: queue))
      (⟨.raise, taken⟩ :: ⟨cue, taken'⟩ :: queue) state cues' s)
    (hp : state.scene.view.Poised) (hc : cue.endsReceive = true)
    (ht : Thinned peer direction (queue.map Queued.cue) cues) :
    Meets peer direction (follow (.ok ()) (.raise :: cue :: cues) s)
      (next limit (⟨.raise, true⟩ :: ⟨cue, taken'⟩ :: queue) state) := by
  have hkept : Thinned peer direction ((⟨cue, taken'⟩ :: queue : List Queued).map Queued.cue)
      (cue :: cues) := by
    refine .keep ?_ ?_ ht
    · rintro rfl
      cases hc
    · rintro fault rfl
      cases hc
  have hstopped := (h.sooner hkept (strangers_le_cons _ _)).stop
  rw [next_raise, next_enter, follow_on (h.isOver_right hp.isOver) rfl, List.nil_append]
  refine (hstopped.enter taken' cue.isBrief).meets_ending limit ?_ hc ht
  cases taken' <;> exact hp.isOver

/-- A cue that is ignored is taken by one of them only. -/
theorem Agrees.drop {limit : Nat} {cue : Cue} (ih : Agrees S peer direction queue)
    (h : Tied peer direction (Fairly peer (⟨cue, true⟩ :: queue)) (⟨cue, true⟩ :: queue) state cues s)
    (hp : state.scene.view.Poised) (hd : state.world.clock + limit ≤ state.transfer.deadline)
    (hi : cue.Ignored peer direction) (ht : Thinned peer direction (queue.map Queued.cue) cues) :
    Meets peer direction (follow (.ok ()) cues s) (next limit (⟨cue, true⟩ :: queue) state) := by
  have hrest := h.sooner ht (strangers_le_cons _ _)
  rw [next.eq_def]
  simp only [if_true]
  cases cue with
  | datagram sender bytes =>
      obtain ⟨answer, hn, hm⟩ := h.akin.network
      exact hrest.anyway.meets_ignored hp hi (answered_of_cons hn)
        (hm.mono (strangers_le_cons _ _))
  | series series first count brief =>
      cases count with
      | zero => exact ih hrest hp hd
      | succ count => exact h.meets_series_ignored hp hi ht
  | _ => exact hi.elim

/-- **One receive of a rehearsal, and the turn after it, agree with following the script.** -/
theorem agrees (queue : List Queued) : Agrees S peer direction queue := by
  induction queue with
  | nil =>
      intro limit state s cues h hp hd
      have ht := h.thinned
      cases ht
      exact ⟨s, follow_nil (h.isOver_right hp.isOver), h.akin.anyway⟩
  | cons q queue ih =>
      intro limit state s cues h hp hd
      obtain ⟨cue, taken⟩ := q
      rw [next_enter]
      have h : Tied peer direction (Fairly peer (⟨cue, true⟩ :: queue)) (⟨cue, true⟩ :: queue)
          (if taken then state else state.cut cue.isBrief) cues s :=
        (h.enter taken cue.isBrief).sooner h.thinned (Nat.le_refl _)
      have hp := poised_enter taken cue.isBrief hp
      have hd : (if taken then state else state.cut cue.isBrief).world.clock + limit ≤
          (if taken then state else state.cut cue.isBrief).transfer.deadline := by
        cases taken <;> exact hd
      generalize (if taken then state else state.cut cue.isBrief) = state at h hp hd ⊢
      have ht := h.thinned
      rw [List.map_cons] at ht
      generalize hq : queue.map Queued.cue = rest at ht
      -- Each cue is kept, left out, or one of two that belong together.
      cases ht with
      | keep hr hf ht => exact ih.keep h hp hd hr (hq ▸ hf) (hq ▸ ht)
      | drop hi ht => exact ih.drop h hp hd hi (hq ▸ ht)
      | keepRaised hc ht =>
          obtain ⟨⟨_, taken'⟩, queue, rfl, rfl, rfl⟩ := List.map_eq_cons_iff.1 hq
          exact h.meets_raised hp hc ht
      | keepRefused errno bytes hs ht =>
          obtain ⟨⟨_, taken'⟩, queue, rfl, rfl, rfl⟩ := List.map_eq_cons_iff.1 hq
          rw [next_fault]
          exact (h.meets_refused hp hs ht).2
      | dropRefused errno bytes hs ht =>
          obtain ⟨⟨_, taken'⟩, queue, rfl, rfl, rfl⟩ := List.map_eq_cons_iff.1 hq
          rw [next_fault]
          exact (h.meets_refused hp hs ht).1

/-! ## Whole rehearsals -/

variable {result : Except Failure Unit}

/-- What the peer and the storage have been told in a rehearsal. -/
def Report.told (peer : Address) (report : Report S) : List Event :=
  (report.records.flatMap Record.events).filter (Event.concerns peer)

/-- Nobody who matters can tell two rehearsals apart. -/
structure Report.Same (peer : Address) (report report' : Report S) : Prop where
  told : report.told peer = report'.told peer
  ending : report.ending = report'.ending
  transfer : report.transfer = report'.transfer
  store : report.world.store = report'.world.store
  clock : report.world.clock = report'.world.clock
  stopping : report.world.stopping = report'.world.stopping

end

/-- While a receive goes on, the wish to stop makes a difference to what a stranger does: their
datagram ends the receive, and the transfer stops before the block of its peer has come. -/
theorem run_raised : ∃ report report' : Report (Scripted.storage {}),
    let stranger : Cue := .datagram ⟨⟨10, 0, 0, 3⟩, 5000⟩ []
    let block : Cue := .datagram ⟨⟨10, 0, 0, 1⟩, 5000⟩ (Packet.data 1 (ascii "digits")).encode
    run { store := () } .write ⟨ascii "digits", .octet, {}⟩ ⟨⟨10, 0, 0, 1⟩, 5000⟩ {} true
      [.pause 10, .raise, .pause 10, stranger, .pause 10, block] = .ok report ∧
    run { store := () } .write ⟨ascii "digits", .octet, {}⟩ ⟨⟨10, 0, 0, 1⟩, 5000⟩ {} true
      [.pause 10, .raise, .pause 10, .pause 10, block] = .ok report' ∧
    stranger.isForeign ⟨⟨10, 0, 0, 1⟩, 5000⟩ = true ∧
    report.ending = .failed (.transfer .serverShutdown) ∧ report'.ending = .done := by
  refine ⟨_, _, rfl, rfl, ?_, ?_, ?_⟩ <;> decide +kernel

end Rehearsal

end Tftp
