import Tftp.Proofs.Schedule
import Tftp.Proofs.Steadfast

/-!
# What a transfer ignores

A transfer has no use for datagrams from strangers, for datagrams that cannot be read, and for
packets that are not sent in its direction. A turn about such a datagram leaves no trace but in the
log and with the stranger, who is told that this is not their transfer; and a transfer that could
wait before the turn waits again after it. The same holds when nothing has come at all and the
deadline lies ahead.
-/

namespace Tftp

/-- Whether a transfer in the given direction has a use for a packet of its peer. -/
def Packet.concerns (direction : Direction) : Packet → Bool
  | ack _ => direction = .read
  | data .. => direction = .write
  | error .. => true
  | _ => false

/-- Whether a receive brings nothing that a transfer has a use for. -/
def Reception.isIgnored (peer : Address) (direction : Direction) (reception : Reception) : Bool :=
  match reception with
  | nothing => true
  | failed _ => false
  | datagram _ _ => (reception.packetFrom peer).all fun packet => !packet.concerns direction

theorem Reception.isIgnored_of_isForeign {peer : Address} {reception : Reception}
    (h : reception.isForeign peer = true) (direction : Direction) :
    reception.isIgnored peer direction = true := by
  cases reception with
  | datagram sender bytes =>
      have hs : sender ≠ peer := by simpa [isForeign] using h
      simp [isIgnored, packetFrom, cut, hs]
  | _ => cases h

theorem World.told_eq {S : Storage} (peer : Address) (w : World S) :
    w.told peer = w.deeds.filter (Event.concerns peer) := by
  unfold World.told World.deeds Event.unlogged
  rw [List.filter_reverse, List.filter_reverse, List.filter_filter]
  congr 2
  funext e
  cases e <;> simp [Event.concerns, Event.isLogged]

namespace Transfer

variable {S : Storage}

/-! ## What is ignored -/

/-- What a stranger is sent, if the network takes it. -/
def turningAway (s : Scene S) (sender : Address) : List Event :=
  match Network.send Packet.turnedAway.encode s.world.network with
  | .ok _ _ => [.sent s.self.socket.address sender Packet.turnedAway.encode s.world.clock]
  | .error _ _ => []

theorem log_view (notice : Notice) (s : Scene S) : ∃ s', log notice s = .ok () s' ∧
    s'.view = s.view ∧ s'.world.network = s.world.network := by
  rw [log_eq]
  split
  · exact ⟨_, rfl, by simp [Scene.view, Scene.put, World.deeds, Event.unlogged, Event.isLogged], rfl⟩
  · exact ⟨s, rfl, rfl, rfl⟩

/-- A stranger is turned away with one datagram, and if it is refused, with none. -/
theorem rejectStranger_eq (sender : Address) (s : Scene S) : ∃ s',
    rejectStranger sender s = .ok () s' ∧ s'.view = s.view.doing (turningAway s sender) ∧
    s'.world.network = s.world.network.afterSend Packet.turnedAway.encode := by
  obtain ⟨s₁, hlog, hview, hnet⟩ := log_view (.sending Packet.turnedAway sender) s
  have hself : s₁.self = s.self := congrArg View.self hview
  have hclock : s₁.world.clock = s.world.clock := congrArg View.clock hview
  have hdeeds : s₁.world.deeds = s.world.deeds := congrArg View.deeds hview
  have hreject : rejectStranger sender s = EStateM.tryCatch
      (liftM (World.send (S := S) s₁.self.socket sender Packet.turnedAway.encode))
      (fun f => log (.reportNotSent sender f.message)) s₁ := by
    exact (bind_of_ok hlog).trans rfl
  rw [hreject]
  unfold EStateM.tryCatch turningAway Network.afterSend
  rw [liftM_eq, World.send_eq, hnet]
  cases Network.send Packet.turnedAway.encode s.world.network with
  | ok u network =>
      refine ⟨_, rfl, ?_, rfl⟩
      rw [← hview, ← hself, ← hclock]
      simp [Scene.view, View.doing, World.deeds, Event.unlogged, Event.isLogged]
  | error f network =>
      obtain ⟨s₂, hlog, hview', hnet'⟩ := log_view (.reportNotSent sender f.message)
        { s₁ with world := { s₁.world with network } }
      refine ⟨s₂, hlog, ?_, hnet'⟩
      rw [hview', View.doing_nil, ← hview]
      rfl

/-- Nothing but what does not concern the peer has happened. -/
theorem Akin.of_view {peer : Address} {s s' : Scene S} {events : List Event}
    (h : s'.view = s.view.doing events) (he : ∀ e ∈ events, e.concerns peer = false) :
    Akin peer [] (fun _ _ => True) s s' where
  self := (congrArg View.self h).symm
  store := (congrArg View.store h).symm
  clock := (congrArg View.clock h).symm
  stopping := (congrArg View.stopping h).symm
  told := by
    have hdeeds : s'.world.deeds = s.world.deeds ++ events := congrArg View.deeds h
    have hnone : events.filter (Event.concerns peer) = [] :=
      List.filter_eq_nil_iff.2 fun e hm => by simp [he e hm]
    rw [World.told_eq, World.told_eq, hdeeds, List.filter_append, hnone]
    simp
  network := trivial

/-- A packet of a kind that a transfer has no use for. -/
theorem handle_ignored {packet : Packet} {s : Scene S}
    (h : packet.concerns s.self.direction = false) : handle packet s = .ok false s := by
  have hself : self s = .ok s.self s := rfl
  unfold handle
  split
  · cases h
  · refine (bind_of_ok hself).trans ?_
    cases hd : s.self.direction with
    | read =>
        cases packet with
        | ack block => simp [Packet.concerns, hd] at h
        | _ => rfl
    | write =>
        cases packet with
        | data block payload => simp [Packet.concerns, hd] at h
        | _ => rfl

/-- What is ignored does not move a transfer forward, and only strangers and the network notice. -/
theorem heed_ignored {reception : Reception} {s : Scene S}
    (h : reception.isIgnored s.self.peer s.self.direction = true) : ∃ s',
    heed reception s = .ok false s' ∧ Akin s.self.peer [] (fun _ _ => True) s s' ∧
    s'.world.network = if reception.isForeign s.self.peer then
      s.world.network.afterSend Packet.turnedAway.encode else s.world.network := by
  cases reception with
  | nothing => exact ⟨s, rfl, .refl _ trivial, rfl⟩
  | failed errno => cases h
  | datagram sender bytes =>
      have hself : self s = .ok s.self s := rfl
      -- From the peer it is a packet that cannot be read or is none of the transfer's concern.
      by_cases hs : sender = s.self.peer
      · have hforeign : (Reception.datagram sender bytes).isForeign s.self.peer = false := by
          simp [Reception.isForeign, hs]
        rw [hforeign]
        cases hp : Packet.parse (bytes.take Network.maxDatagram) with
        | error malformed =>
            obtain ⟨s', hlog, hview, hnet⟩ := log_view (.malformed sender malformed.message) s
            refine ⟨s', ?_, .of_view (hview.trans s.view.doing_nil.symm) (by simp), hnet⟩
            refine (bind_of_ok hself).trans ((congrFun (if_neg (not_not.2 hs)) s).trans ?_)
            rw [hp]
            exact bind_of_ok hlog
        | ok packet =>
            have hkind : packet.concerns s.self.direction = false := by
              simpa [Reception.isIgnored, Reception.packetFrom, Reception.cut, hs, hp,
                Except.toOption] using h
            obtain ⟨s', hlog, hview, hnet⟩ := log_view (.received packet sender) s
            have hlogged : s'.self = s.self := congrArg View.self hview
            refine ⟨s', ?_, .of_view (hview.trans s.view.doing_nil.symm) (by simp), hnet⟩
            refine (bind_of_ok hself).trans ((congrFun (if_neg (not_not.2 hs)) s).trans ?_)
            rw [hp]
            exact (bind_of_ok hlog).trans (handle_ignored (hlogged ▸ hkind))
      · have hforeign : (Reception.datagram sender bytes).isForeign s.self.peer = true := by
          simp [Reception.isForeign, hs]
        obtain ⟨s', hreject, hview, hnet⟩ := rejectStranger_eq sender s
        rw [if_pos hforeign]
        refine ⟨s', ?_, .of_view hview ?_, hnet⟩
        · refine (bind_of_ok hself).trans ((congrFun (if_pos hs) s).trans ?_)
          exact bind_of_ok hreject
        · intro e he
          unfold turningAway at he
          split at he
          · rw [List.mem_singleton.1 he]
            simp [Event.concerns, hs]
          · cases he

/-! ## Waiting -/

/-- A transfer that can go on waiting: it is not over, it need not stop, and its deadline lies
ahead. -/
structure View.Poised (v : View S) : Prop where
  isOver : v.self.isOver = false
  goesOn : ¬ v.Stops
  early : v.clock < v.self.deadline

theorem Akin.poised {peer : Address} {past : List Event} {related : Network → Network → Prop}
    {s t : Scene S} (h : Akin peer past related s t) (hp : s.view.Poised) : t.view.Poised where
  isOver := by
    show t.self.isOver = false
    rw [← h.self]
    exact hp.isOver
  goesOn := by
    show ¬ (t.self.heedsStop = true ∧ t.world.stopping = true)
    rw [← h.self, ← h.stopping]
    exact hp.goesOn
  early := by
    show t.world.clock < t.self.deadline
    rw [← h.clock, ← h.self]
    exact hp.early

theorem EnsuresOn.catchUp_poised (left : Nat) {n : Network} {v : View S} (ho : v.self.isOver = false)
    (hs : ¬ v.Stops) : EnsuresOn n (Transfer.catchUp left) v (fun _ w _ => w.Poised)
      (fun _ _ _ => True) := by
  induction left generalizing n v with
  | zero =>
      rcases Int.lt_or_le v.clock v.self.deadline with hd | hd
      · exact catchUp_early 0 hd ⟨ho, hs, hd⟩
      · exact catchUp_zero hd True.intro
  | succ left ih =>
      rcases Int.lt_or_le v.clock v.self.deadline with hd | hd
      · exact catchUp_early _ hd ⟨ho, hs, hd⟩
      · exact catchUp_succ hd (fun _ => ih ho hs) (fun _ _ _ _ => ih ho hs) fun _ _ _ _ _ =>
          True.intro

namespace Ensures

variable {v : View S}

/-- After a turn that has not failed, the transfer is over, or it can wait. -/
theorem turn_poised (reception? : Option Reception) :
    Ensures (Transfer.guarded (Transfer.turn reception?)) v
      (fun _ w => w.self.isOver = true ∨ w.Poised) (fun _ _ => True) := by
  have settles (v : View S) : Ensures Transfer.settle v
      (fun _ w => w.self.isOver = true ∨ w.Poised) (fun _ _ => True) := by
    by_cases ho : v.self.isOver = true
    · exact settle_over ho (.inl ho)
    · have ho := Bool.eq_false_iff.2 ho
      refine .onEvery fun n => .settle ho (fun _ => True.intro) fun hs => ?_
      exact .mono (.catchUp_poised _ ho hs)
        (fun _ w _ hw => ⟨fun _ _ => .inr hw, fun _ _ _ => True.intro⟩) fun _ _ _ => id
  refine bind (tryCatch (mono (after_any fun _ => settles) (fun _ w hw => ?_) fun f w _ => ?_))
  · refine bind (self ?_)
    split
    next ho => exact mono (leave_over ho) (fun _ _ => .inl) fun _ _ _ => True.intro
    next => exact pure hw
  · exact fall True.intro

end Ensures

/-- A transfer that can go on waiting does so when its next receive begins. -/
theorem settle_of_poised {s : Scene S} {network : Network} (hp : s.view.Poised)
    (hbegin : Network.beginReceive s.world.network = .ok () network) :
    settle s = .ok () { s with world := { s.world with network } } := by
  have hover : ¬ s.self.isOver = true := by
    rw [show s.self.isOver = false from hp.isOver]
    exact nofun
  have hstops : ¬ (s.self.heedsStop = true ∧ s.world.stopping = true) := hp.goesOn
  have hcatch (left : Nat) : catchUp left s = .ok () s := by
    unfold catchUp
    show (if s.world.clock < s.self.deadline then pure () else _ : Reaction S Unit) s = _
    rw [if_pos (show s.world.clock < s.self.deadline from hp.early)]
    rfl
  show (if s.self.isOver then pure () else _ : Reaction S Unit) s = _
  rw [if_neg hover]
  show (if s.self.heedsStop = true ∧ s.world.stopping = true then _ else _ : Reaction S Unit) s = _
  rw [if_neg hstops]
  refine (bind_of_ok (hcatch _)).trans ?_
  show (liftM (World.onNetwork (S := S) Network.beginReceive) : Reaction S Unit) s = _
  rw [liftM_eq]
  unfold World.onNetwork
  rw [hbegin]

/-- The same, if the network is steadfast. -/
theorem settle_poised {answer : Option Errno} {k : Nat} {s : Scene S} (hp : s.view.Poised)
    (hn : s.world.network.Steadfast answer k) : ∃ network, settle s =
      .ok () { s with world := { s.world with network } } ∧ network.Steadfast answer k := by
  obtain ⟨network, hbegin, hn⟩ := hn.beginReceive
  exact ⟨network, settle_of_poised hp hbegin, hn⟩

/-- **Nothing that matters happens in a turn about what is ignored**, and the transfer waits again. -/
theorem resume_ignored {reception : Reception} {answer : Option Errno} {k : Nat} {s : Scene S}
    (hp : s.view.Poised) (h : reception.isIgnored s.self.peer s.self.direction = true)
    (hn : Network.Steadfast answer k (if reception.isForeign s.self.peer then
      s.world.network.afterSend Packet.turnedAway.encode else s.world.network)) :
    s.resultOf (resume reception) = .ok () ∧
    Akin s.self.peer [] (fun _ _ => True) s (s.after (resume reception)) ∧
    (s.after (resume reception)).world.network.Steadfast answer k := by
  obtain ⟨t, hheed, hakin, hnet⟩ := heed_ignored h
  have hpoised := hakin.poised hp
  obtain ⟨network, hsettle, hsteady⟩ := settle_poised hpoised (hnet ▸ hn)
  have himpulse : impulse (some reception) s = .ok false t := (bind_of_ok hheed).trans rfl
  have hg := guarded_of_ok ((turn_of_impulse himpulse).trans hsettle)
  rw [← resume_eq, if_neg (by rw [show t.self.isOver = false from hpoised.isOver]; exact nofun)] at hg
  obtain ⟨hres, hafter⟩ := Scene.after_of_ok hg
  rw [hres, hafter]
  exact ⟨rfl, { hakin with }, hsteady⟩

end Transfer

end Tftp
