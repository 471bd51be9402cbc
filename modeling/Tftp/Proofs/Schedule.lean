import Mathlib.Control.Monad.Basic
import Tftp.Proofs.Frame
import Tftp.Proofs.Makeup
import Tftp.Proofs.Rehearsing
import Tftp.Storage.Scripted

/-!
# The schedule of retransmissions

The deadline of a transfer is put off by progress, and then by one timeout each time it passes. In
between, whatever is received and ignored leaves it alone. So if `p` is when the transfer moved
forward the last time, the retransmissions come at `p + T`, `p + 2 T` and so on, and one timeout after
the last of them the transfer is given up.

    p ──── T ────▶ again ──── T ────▶ again ──── … ──── T ────▶ given up

Time passes only while a receive waits, and no longer than its limit. A `Vigil` is a transfer from its
beginning in such a world, with the time of its last progress and what it has sent again since then.
-/

namespace Tftp

/-- A network that takes the given datagrams one after the other, and what it is afterwards. -/
inductive Network.Takes : List Bytes → Network → Network → Prop
  | nothing (network : Network) : Takes [] network network
  | datagram {bytes : Bytes} {rest : List Bytes} {before between after : Network} :
      send bytes before = .ok () between → Takes rest between after →
      Takes (bytes :: rest) before after

namespace Transfer

variable {S : Storage}

/-! ## What settling does -/

namespace View

/-- Everything is to come to an end, and the transfer heeds that. -/
def Stops (v : View S) : Prop := v.self.heedsStop = true ∧ v.stopping = true

/-- The view after one more retransmission. -/
def again (v : View S) : View S :=
  (v.doing v.repetition).changing fun t =>
    { t with retries := t.retries + 1, deadline := v.clock + t.terms.timeout }

end View

namespace EnsuresOn

variable {n : Network} {v : View S} {U : Unit → View S → Network → Prop}
  {E : Failure → View S → Network → Prop}

theorem catchUp_early (left : Nat) (h : v.clock < v.self.deadline) (ok : U () v n) :
    EnsuresOn n (Transfer.catchUp left) v U E := by
  unfold Transfer.catchUp
  refine bind (self (bind (now ?_)))
  rw [if_pos h]
  exact pure ok

theorem catchUp_zero (h : v.self.deadline ≤ v.clock) (fails : E (.transfer .timedOut) v n) :
    EnsuresOn n (Transfer.catchUp 0) v U E := by
  unfold Transfer.catchUp
  refine bind (self (bind (now ?_)))
  rw [if_neg (Int.not_lt.2 h)]
  exact bind (log (throw fails))

theorem catchUp_succ {left : Nat} (h : v.self.deadline ≤ v.clock)
    (none : v.self.lastPacket = none → EnsuresOn n (Transfer.catchUp left) v.again U E)
    (again : ∀ packet n', v.self.lastPacket = some packet → Network.send packet.encode n = .ok () n' →
      EnsuresOn n' (Transfer.catchUp left) v.again U E)
    (fails : ∀ packet f n', v.self.lastPacket = some packet →
      Network.send packet.encode n = .error f n' →
      E f (v.changing fun t => { t with retries := t.retries + 1 }) n') :
    EnsuresOn n (Transfer.catchUp (left + 1)) v U E := by
  have repeats (hr : v.repetition = []) : v.again = v.changing fun t =>
      { t with retries := t.retries + 1, deadline := v.clock + t.terms.timeout } := by
    rw [View.again, hr, View.doing_nil]
  rw [Transfer.catchUp]
  refine bind (self (bind (now ?_)))
  rw [if_neg (Int.not_lt.2 h)]
  refine bind (update (bind (log (bind (resend (fun hl => ?_) (fun packet n' hl hs => ?_) ?_)))))
  · have h := none hl
    rw [repeats (by simp [View.repetition, show v.self.lastPacket = _ from hl])] at h
    exact bind (rearm h)
  · have h := again packet n' hl hs
    unfold View.again View.repetition at h
    rw [show v.self.lastPacket = _ from hl] at h
    exact bind (rearm h)
  · exact fails

/-- A transfer that is not over stops, or it catches up and then its next receive begins. -/
theorem settle (ho : v.self.isOver = false) (stops : v.Stops → E (.transfer .serverShutdown) v n)
    (catchUp : ¬ v.Stops →
      EnsuresOn n (Transfer.catchUp (v.self.config.maxRetries - v.self.retries)) v
        (fun _ w n' => (∀ n'', Network.beginReceive n' = .ok () n'' → U () w n'') ∧
          ∀ f n'', Network.beginReceive n' = .error f n'' → E f w n'') E) :
    EnsuresOn n Transfer.settle v U E := by
  refine bind (self ?_)
  rw [if_neg (by simp [ho])]
  refine bind (get fun s hs => ?_)
  have hstop : s.world.stopping = v.stopping := by rw [← hs]; rfl
  rw [hstop]
  split
  next h => exact bind (throw (stops h))
  next h =>
    refine bind (mono (catchUp h) (fun _ w n' hw => ?_) fun _ _ _ => id)
    exact onNetwork (fun _ => hw.1) hw.2

end EnsuresOn

/-! ### Retransmissions, counted -/

namespace View

variable {v : View S} {packet : Packet} {k : Nat}

/-- When the next retransmission is due after `k` of them have been made now. -/
def dueAfter (v : View S) : Nat → Int
  | 0 => v.self.deadline
  | _ + 1 => v.clock + v.self.terms.timeout

/-- There is time for `k` retransmissions now. -/
def Lapses (v : View S) (k : Nat) : Prop := ∀ j < k, v.dueAfter j ≤ v.clock

/-- The view after `k` retransmissions. -/
def lapsed (v : View S) (packet : Packet) (k : Nat) : View S :=
  (v.doing (List.replicate k (v.sending packet))).changing fun t =>
    { t with retries := t.retries + k, deadline := v.dueAfter k }

theorem lapsed_zero (v : View S) (packet : Packet) : v.lapsed packet 0 = v := by
  unfold lapsed
  rw [List.replicate_zero, doing_nil]
  rfl

theorem dueAfter_again (v : View S) (k : Nat) : v.again.dueAfter k = v.dueAfter (k + 1) := by
  cases k <;> rfl

theorem Lapses.again (h : v.self.deadline ≤ v.clock) (hk : v.again.Lapses k) :
    v.Lapses (k + 1) := by
  intro j hj
  cases j with
  | zero => exact h
  | succ j =>
      rw [← dueAfter_again]
      exact hk j (Nat.lt_of_succ_lt_succ hj)

theorem lapsed_again (hl : v.self.lastPacket = some packet) (k : Nat) :
    v.again.lapsed packet k = v.lapsed packet (k + 1) := by
  have hr : v.repetition = [v.sending packet] := by simp [repetition, hl]
  have hs : v.again.sending packet = v.sending packet := rfl
  unfold lapsed
  rw [hs, dueAfter_again, again, hr]
  simp only [changing, doing, List.replicate_succ, List.append_assoc, List.singleton_append]
  congr 2
  omega

/-- How settling fails after `k` retransmissions, on the network `n` before and `n'` afterwards. -/
inductive Breaks (v : View S) (packet : Packet) (k : Nat) (n n' : Network) : Failure → Prop
  | stopped : v.Stops → k = 0 → Breaks v packet k n n' (.transfer .serverShutdown)
  | refused {network : Network} {f : Failure} : v.self.retries + k < v.self.config.maxRetries →
      v.dueAfter k ≤ v.clock → Network.Takes (List.replicate k packet.encode) n network →
      Network.send packet.encode network = .error f n' → Breaks v packet k n n' f
  | deaf {network : Network} {f : Failure} : v.clock < v.dueAfter k →
      Network.Takes (List.replicate k packet.encode) n network →
      Network.beginReceive network = .error f n' → Breaks v packet k n n' f
  | timedOut : v.self.config.maxRetries ≤ v.self.retries + k → v.dueAfter k ≤ v.clock →
      Network.Takes (List.replicate k packet.encode) n n' →
      Breaks v packet k n n' (.transfer .timedOut)

end View

namespace EnsuresOn

variable {packet : Packet}

/-- Catching up retransmits the last packet until the next retransmission lies ahead, unless the
network refuses one or there have been enough of them. -/
theorem catchUp_lapses (left : Nat) {n : Network} {v : View S}
    (hl : v.self.lastPacket = some packet) : EnsuresOn n (Transfer.catchUp left) v
      (fun _ w n' => ∃ k ≤ left, v.Lapses k ∧ v.clock < v.dueAfter k ∧
        Network.Takes (List.replicate k packet.encode) n n' ∧ w = v.lapsed packet k)
      (fun f w n' => ∃ k ≤ left, ∃ network retries, v.Lapses k ∧ v.dueAfter k ≤ v.clock ∧
        Network.Takes (List.replicate k packet.encode) n network ∧
        w = (v.lapsed packet k).changing (fun t => { t with retries }) ∧
        (k < left ∧ Network.send packet.encode network = .error f n' ∨
          k = left ∧ n' = network ∧ f = .transfer .timedOut)) := by
  induction left generalizing n v with
  | zero =>
      rcases Int.lt_or_le v.clock v.self.deadline with hd | hd
      · exact catchUp_early 0 hd ⟨0, Nat.le_refl _, nofun, hd, .nothing n, (v.lapsed_zero packet).symm⟩
      · refine catchUp_zero hd ⟨0, Nat.le_refl _, n, v.self.retries, nofun, hd, .nothing n, ?_, ?_⟩
        · rw [View.lapsed_zero]
          rfl
        · exact .inr ⟨rfl, rfl, rfl⟩
  | succ left ih =>
      rcases Int.lt_or_le v.clock v.self.deadline with hd | hd
      · exact catchUp_early _ hd
          ⟨0, Nat.zero_le _, nofun, hd, .nothing n, (v.lapsed_zero packet).symm⟩
      refine catchUp_succ hd (fun hn => nomatch hl.symm.trans hn) (fun packet' n' hl' hs => ?_) ?_
      · obtain rfl := Option.some.inj (hl.symm.trans hl')
        -- The first of the retransmissions has been made, and the others follow.
        refine mono (ih hl) ?_ ?_
        · rintro - w n'' ⟨k, hk, hlapses, hlt, htakes, rfl⟩
          rw [View.dueAfter_again] at hlt
          exact ⟨k + 1, Nat.succ_le_succ hk, .again hd hlapses, hlt, .datagram hs htakes,
            View.lapsed_again hl k⟩
        · rintro f w n'' ⟨k, hk, network, retries, hlapses, hle, htakes, rfl, hend⟩
          rw [View.dueAfter_again] at hle
          refine ⟨k + 1, Nat.succ_le_succ hk, network, retries, .again hd hlapses, hle,
            .datagram hs htakes, by rw [View.lapsed_again hl k], ?_⟩
          exact hend.imp (And.imp_left Nat.succ_lt_succ) (And.imp_left (congrArg (· + 1)))
      · intro packet' f n' hl' hs
        obtain rfl := Option.some.inj (hl.symm.trans hl')
        refine ⟨0, Nat.zero_le _, n, v.self.retries + 1, nofun, hd, .nothing n, ?_,
          .inl ⟨Nat.succ_pos _, hs⟩⟩
        rw [View.lapsed_zero]
        rfl

/-- What settling makes of a transfer that has a packet to retransmit. -/
theorem settle_lapses {n : Network} {v : View S} (ho : v.self.isOver = false)
    (hl : v.self.lastPacket = some packet) : EnsuresOn n Transfer.settle v
      (fun _ w _ => ∃ k, v.self.retries + k ≤ max v.self.retries v.self.config.maxRetries ∧
        v.Lapses k ∧ v.clock < v.dueAfter k ∧ w = v.lapsed packet k)
      (fun f w n' => ∃ k retries,
        v.self.retries + k ≤ max v.self.retries v.self.config.maxRetries ∧ v.Lapses k ∧
        w = (v.lapsed packet k).changing (fun t => { t with retries }) ∧
        v.Breaks packet k n n' f) := by
  refine settle ho (fun hs => ?_) fun _ => mono (catchUp_lapses _ hl) ?_ ?_
  · refine ⟨0, v.self.retries, by omega, nofun, ?_, .stopped hs rfl⟩
    rw [View.lapsed_zero]
    rfl
  · rintro - w n' ⟨k, hk, hlapses, hlt, htakes, rfl⟩
    refine ⟨fun n'' _ => ⟨k, by omega, hlapses, hlt, rfl⟩, fun f n'' hb => ?_⟩
    exact ⟨k, v.self.retries + k, by omega, hlapses, rfl, .deaf hlt htakes hb⟩
  · rintro f w n' ⟨k, hk, network, retries, hlapses, hle, htakes, rfl, hend⟩
    refine ⟨k, retries, by omega, hlapses, rfl, ?_⟩
    rcases hend with ⟨hlt, hs⟩ | ⟨rfl, rfl, rfl⟩
    · exact .refused (by omega) hle htakes hs
    · exact .timedOut (by omega) hle htakes

end EnsuresOn

/-! ## Being on time -/

/-- The first retransmissions of a packet after progress at `p`, with the given timeout. -/
def schedule (socket : Socket) (peer : Address) (packet : Packet) (p timeout : Int) (n : Nat) :
    List Event :=
  (List.range n).map fun (j : Nat) => .sent socket.address peer packet.encode (p + (j + 1) * timeout)

theorem schedule_succ (socket : Socket) (peer : Address) (packet : Packet) (p timeout : Int)
    (n : Nat) : schedule socket peer packet p timeout (n + 1) =
      schedule socket peer packet p timeout n ++
        [.sent socket.address peer packet.encode (p + (n + 1) * timeout)] := by
  simp [schedule, List.range_succ]

/-- After its last progress at `p`, the transfer has retransmitted its last packet as often as the
deadline has passed since then, each time at the deadline. -/
structure OnTime (p : Int) (repeats : List Event) (v : View S) : Prop where
  repeats : ∃ packet, v.self.lastPacket = some packet ∧
    repeats = schedule v.self.socket v.self.peer packet p v.self.terms.timeout v.self.retries
  retries_le : v.self.retries ≤ v.self.config.maxRetries
  deadline : v.self.deadline = p + (v.self.retries + 1) * v.self.terms.timeout
  since : p + v.self.retries * v.self.terms.timeout ≤ v.clock

namespace OnTime

variable {p : Int} {repeats : List Event} {v w : View S}

/-- Right after progress there has been no retransmission. -/
theorem of_progress {packet : Packet} (hl : v.self.lastPacket = some packet)
    (hr : v.self.retries = 0) (hd : v.self.deadline = v.clock + v.self.terms.timeout) :
    OnTime v.clock [] v where
  repeats := ⟨packet, hl, by simp [schedule, hr]⟩
  retries_le := hr ▸ Nat.zero_le _
  deadline := by simp [hd, hr]
  since := by simp [hr]

theorem retries_eq (h : OnTime p [] v) : v.self.retries = 0 := by
  obtain ⟨packet, -, hrep⟩ := h.repeats
  have hlength := congrArg List.length hrep
  rw [schedule, List.length_map, List.length_range] at hlength
  exact hlength.symm

theorem deadline_eq (h : OnTime p [] v) : v.self.deadline = p + v.self.terms.timeout := by
  have hd := h.deadline
  rw [h.retries_eq] at hd
  omega

/-- What does not matter to it may change, and time may pass. -/
theorem congr (h : OnTime p repeats v) (hself : w.self = v.self) (hclock : v.clock ≤ w.clock) :
    OnTime p repeats w where
  repeats := hself ▸ h.repeats
  retries_le := hself ▸ h.retries_le
  deadline := hself ▸ h.deadline
  since := hself ▸ Int.le_trans h.since hclock

/-- A retransmission at the deadline is on time, and the next deadline lies ahead. -/
theorem again (h : OnTime p repeats v) (hd : v.clock = v.self.deadline)
    (hr : v.self.retries < v.self.config.maxRetries) : OnTime p (repeats ++ v.repetition) v.again where
  repeats := by
    obtain ⟨packet, hl, rfl⟩ := h.repeats
    refine ⟨packet, hl, ?_⟩
    show _ = schedule v.self.socket v.self.peer packet p v.self.terms.timeout (v.self.retries + 1)
    rw [schedule_succ, ← h.deadline, ← hd]
    simp [View.repetition, hl, View.sending]
  retries_le := hr
  deadline := by
    show v.clock + v.self.terms.timeout =
      p + (((v.self.retries + 1 : Nat) : Int) + 1) * v.self.terms.timeout
    rw [hd, h.deadline, Int.natCast_succ, Int.add_mul (_ + _)]
    omega
  since := by
    show p + ((v.self.retries + 1 : Nat) : Int) * v.self.terms.timeout ≤ v.clock
    rw [hd, h.deadline]
    exact Int.le_refl _

end OnTime

/-- Settling keeps a transfer on time: it has at most one retransmission to make, at its deadline. -/
theorem OnTime.lapsed {p : Int} {repeats : List Event} {v : View S} {packet : Packet} {k : Nat}
    (h : OnTime p repeats v) (ht : 0 < v.self.terms.timeout) (hd : v.clock ≤ v.self.deadline)
    (hl : v.self.lastPacket = some packet) (hk : v.Lapses k)
    (hle : v.self.retries + k ≤ v.self.config.maxRetries) :
    OnTime p (repeats ++ List.replicate k (v.sending packet)) (v.lapsed packet k) ∧
      v.clock ≤ v.dueAfter k := by
  cases k with
  | zero =>
      rw [View.lapsed_zero, List.replicate_zero, List.append_nil]
      exact ⟨h, hd⟩
  | succ k =>
      have hnow : v.clock = v.self.deadline := Int.le_antisymm hd (hk 0 (Nat.succ_pos k))
      have hdue : v.dueAfter (k + 1) = v.clock + v.self.terms.timeout := rfl
      cases k with
      | zero =>
          have hr : v.repetition = [v.sending packet] := by simp [View.repetition, hl]
          have hagain := h.again hnow (by omega)
          rw [hr] at hagain
          rw [← View.lapsed_again hl, View.lapsed_zero]
          exact ⟨hagain, by omega⟩
      | succ k =>
          have hlate : v.clock + v.self.terms.timeout ≤ v.clock := hk 1 (by omega)
          omega

/-! ## What impulses do -/

namespace Ensures

variable {v : View S} {packet : Packet}

/-- A transfer that has not moved forward is what it was. -/
abbrev Still (v : View S) (moved : Bool) (w : View S) : Prop :=
  moved = false → w.self = v.self

theorem readHandle_still :
    Ensures (Read.handle packet) v (Still v) (fun _ _ => True) := by
  have moves : Ensures (do Read.sendNextBlock; return true) v (Still v) (fun _ _ => True) :=
    after_any fun _ w => pure nofun
  cases packet with
  | ack block =>
      refine bind (self ?_)
      split
      · exact pure fun _ => rfl
      · cases v.self.phase with
        | waitingAfterOack | waitingAck => exact moves
        | waitingLastAck => exact bind (log (bind (update (pure nofun))))
        | _ => exact pure fun _ => rfl
  | _ => exact pure fun _ => rfl

/-- A block that is taken moves the transfer forward. -/
theorem acknowledge_moves (t : Transfer S) (block : UInt16) (payload : Bytes) (w : View S) :
    Ensures (Write.acknowledge t block payload) w (Still v) (fun _ _ => True) := by
  unfold Write.acknowledge
  split
  · exact after_any fun _ _ => after_any fun _ _ => after_any fun _ _ =>
      after_any fun _ _ => pure nofun
  · exact after_any fun _ _ => after_any fun _ _ => pure nofun

theorem writeHandle_still :
    Ensures (Write.handle packet) v (Still v) (fun _ _ => True) := by
  cases packet with
  | data block payload =>
      rw [Write.handle_data_eq]
      refine bind (self ?_)
      split
      · split
        · exact bind (resend (pure fun _ => rfl) fun _ => True.intro)
        · exact pure fun _ => rfl
      · unfold Write.take
        split
        · exact throw True.intro
        · split
          · exact after_any fun _ => acknowledge_moves v.self block payload
          · exact acknowledge_moves v.self block payload v
  | _ => exact pure fun _ => rfl

theorem heed_still (reception : Reception) :
    Ensures (Transfer.heed reception) v (Still v) (fun _ _ => True) := by
  apply heed
  · exact fun _ _ => True.intro
  · exact fun _ _ _ => True.intro
  · exact fun _ _ _ _ => rfl
  · exact fun packet _ hne => handle hne (fun _ => readHandle_still) fun _ => writeHandle_still

/-- The transfer waits for an answer to a packet that it has sent and keeps. -/
structure Asks (v : View S) : Prop where
  lastPacket : v.self.lastPacket ≠ none
  isOver : v.self.isOver = false

theorem sendNextBlock_asks : Ensures Read.sendNextBlock v (fun _ => Asks) (fun _ _ => True) := by
  refine bind (self (after_any fun payload w => after_any fun _ w => bind (self ?_)))
  refine bind (send (update ⟨nofun, ?_⟩) fun _ => True.intro)
  show Phase.isOver (if _ then _ else _) = false
  split <;> rfl

theorem readStart_asks : Ensures Read.start v (fun _ => Asks) (fun _ _ => True) := by
  refine bind (self (after_any ?_))
  rintro ⟨reader, fileSize⟩ w
  refine after_any fun _ w => after_any fun _ w => after_any fun _ w => bind (self ?_)
  dsimp only
  split
  · exact after_any fun _ w => bind (send (update ⟨nofun, rfl⟩) fun _ => True.intro)
  · exact sendNextBlock_asks

theorem writeStart_asks : Ensures Write.start v (fun _ => Asks) (fun _ _ => True) := by
  rw [Write.start_eq]
  refine after_any fun _ w => bind (self (after_any fun writer w => ?_))
  refine after_any fun _ w => after_any fun _ w => ?_
  exact bind (send (update ⟨nofun, rfl⟩) fun _ => True.intro)

theorem start_asks : Ensures Transfer.start v (fun _ => Asks) (fun _ _ => True) := by
  refine bind (self ?_)
  cases v.self.direction with
  | read => exact readStart_asks
  | write => exact writeStart_asks

end Ensures

/-! ## Impulses in scenes -/

section

variable {reception : Reception} {s s' : Scene S} {moved : Bool}

/-- A transfer that has begun has sent its first packet now. -/
theorem impulse_begin (h : impulse none s = .ok moved s') (hr : s.self.retries = 0) :
    OnTime s.world.clock [] s'.view ∧ s'.self.isOver = false ∧ s'.frame = s.frame := by
  have h : EStateM.bind start (fun _ => EStateM.bind rearm fun _ => pure true) s = .ok moved s' := h
  unfold EStateM.bind at h
  cases hs : start s with
  | error f t =>
      rw [hs] at h
      cases h
  | ok u t =>
      rw [hs] at h
      cases h
      have hframe := Steady.pervasive.start.of_ok hs
      have hgo : Goes True False start s := .start trivial
      have hasks := Ensures.start_asks s rfl
      rw [hs] at hasks
      obtain ⟨packet, hpacket⟩ := Option.ne_none_iff_exists'.1 hasks.lastPacket
      have hclock : t.world.clock = s.world.clock := congrArg (fun f => f.world.clock) hframe
      refine ⟨?_, hasks.isOver, hframe⟩
      rw [← hclock]
      let rearmed : Scene S :=
        { t with self := { t.self with deadline := t.world.clock + t.self.terms.timeout } }
      have hretries : rearmed.self.retries = 0 := ((hgo.steps_ok hs).time_eq id).1.trans hr
      exact OnTime.of_progress (v := rearmed.view) hpacket hretries rfl

/-- What an impulse does about what a receive has brought. -/
theorem impulse_some (h : impulse (some reception) s = .ok moved s') : ∃ t,
    heed reception s = .ok moved t ∧ t.frame = s.frame ∧ Steps False False s t ∧
    s' = if moved then { t with self := { t.self with
      retries := 0, deadline := t.world.clock + t.self.terms.timeout } } else t := by
  have h : EStateM.bind (heed reception) (fun moved => do
    if moved then advance
    return moved) s = .ok moved s' := h
  unfold EStateM.bind at h
  cases hh : heed reception s with
  | error f t =>
      rw [hh] at h
      cases h
  | ok m t =>
      rw [hh] at h
      have hgo : Goes False False (heed reception) s := .heed fun hg => by
        obtain ⟨r, u, hu, -⟩ := heed_of_givesUp hg
        cases hu.symm.trans hh
      refine ⟨t, ?_, (Steady.pervasive.heed reception).of_ok hh, hgo.steps_ok hh, ?_⟩
      · cases m <;> cases h <;> rfl
      · cases m <;> cases h <;> rfl

/-- What comes in does not change the terms. -/
theorem impulse_terms (h : impulse (some reception) s = .ok moved s') :
    s'.self.terms = s.self.terms := by
  obtain ⟨t, -, -, hsteps, rfl⟩ := impulse_some h
  have hterms : t.self.terms = s.self.terms := hsteps.terms_eq id
  cases moved <;> exact hterms

/-- What makes a transfer fail makes its impulse fail. -/
theorem impulse_unfailed (h : impulse (some reception) s = .ok moved s')
    (hp : s.self.phase ≠ .failed) : s'.self.phase ≠ .failed := by
  obtain ⟨t, -, -, hsteps, rfl⟩ := impulse_some h
  have hphase : t.self.phase ≠ .failed := hsteps.ne_failed hp
  cases moved <;> exact hphase

/-- A transfer that has not moved forward goes on as it was. -/
theorem impulse_still (h : impulse (some reception) s = .ok false s') :
    s'.self = s.self ∧ s'.frame = s.frame := by
  obtain ⟨t, hh, hframe, -, rfl⟩ := impulse_some h
  have hstill := Ensures.heed_still reception s rfl
  rw [hh] at hstill
  exact ⟨hstill rfl, hframe⟩

/-- A transfer that moves forward does so now. -/
theorem impulse_moved (h : impulse (some reception) s = .ok true s')
    (hl : s.self.lastPacket ≠ none) : OnTime s.world.clock [] s'.view ∧ s'.frame = s.frame := by
  obtain ⟨t, -, hframe, hsteps, rfl⟩ := impulse_some h
  obtain ⟨packet, hpacket⟩ := Option.ne_none_iff_exists'.1 (hsteps.lastPacket_ne_none hl)
  have hclock : t.world.clock = s.world.clock := congrArg (fun f => f.world.clock) hframe
  refine ⟨?_, hframe⟩
  rw [← hclock]
  let moved : Scene S := { t with self := { t.self with
    retries := 0, deadline := t.world.clock + t.self.terms.timeout } }
  exact OnTime.of_progress (v := moved.view) hpacket rfl rfl

end

/-! ## How a turn comes out -/

theorem View.givenUp_keeps (v : View S) : v.givenUp.clock = v.clock ∧
    v.givenUp.stopping = v.stopping ∧ v.givenUp.self.terms = v.self.terms ∧
    v.givenUp.self.lastPacket = v.self.lastPacket := by
  unfold View.givenUp
  dsimp only
  split <;> exact ⟨rfl, rfl, rfl, rfl⟩

section

variable {reception? : Option Reception} {s s' : Scene S} {moved : Bool}

theorem turn_of_impulse (h : impulse reception? s = .ok moved s') :
    turn reception? s = settle s' := bind_of_ok h

theorem Ensures.leave_over {v : View S} (ho : v.self.isOver = true) : Ensures Transfer.leave v
    (fun _ w => w.self.isOver = true) (fun _ _ => True) := by
  apply leave
  · exact fun _ => ho
  · intro _
    split
    · rw [isOver, View.givenUp_phase]
      rfl
    · trivial

/-- A transfer that has not failed just leaves. -/
theorem Ensures.leave_unfailed {v : View S} (hp : v.self.phase ≠ .failed) :
    Ensures Transfer.leave v (fun _ w => w = v) (fun _ _ => False) :=
  leave (fun _ => rfl) fun h => absurd h hp

/-- A turn ends as settling does. -/
theorem turn_comes_out (h : impulse reception? s = .ok moved s') (hp : s'.self.phase ≠ .failed) :
    let result := s.resultOf (guarded (turn reception?))
    let after := s.after (guarded (turn reception?))
    match settle s' with
    | .ok _ t => result = .ok () ∧ after.view = t.view
    | .error f t => result = .error (t.view.failing f) ∧ after.view = t.view.givenUp ∧
        after.world.network = t.world.network := by
  have ht := turn_of_impulse h
  have hsettle : Goes False True (settle (S := S)) s' := .settle trivial
  dsimp only
  cases hs : settle s' with
  | ok u t =>
      have hg := guarded_of_ok (ht.trans hs)
      dsimp only
      split at hg
      · have hleave := Ensures.leave_unfailed (v := t.view) ((hsettle.steps_ok hs).ne_failed hp) t rfl
        cases hl : leave t with
        | ok u t' =>
            rw [hl] at hleave
            obtain ⟨hres, hafter⟩ := Scene.after_of_ok (hg.trans hl)
            rw [hres, hafter]
            exact ⟨rfl, hleave⟩
        | error f t' =>
            rw [hl] at hleave
            exact hleave.elim
      · obtain ⟨hres, hafter⟩ := Scene.after_of_ok hg
        rw [hres, hafter]
        exact ⟨rfl, rfl⟩
  | error f t =>
      obtain ⟨t', hfall, hview, hnetwork, -⟩ := fall_eq_error f t
      obtain ⟨hres, hafter⟩ := Scene.after_of_error ((guarded_of_error (ht.trans hs)).trans hfall)
      rw [hres, hafter]
      exact ⟨rfl, hview, hnetwork⟩

/-- How a transfer fails that settles in the scene `before`. Since its last progress it has
retransmitted `packet` `n` times, out of `limit`, and the next retransmission is due at `due`: it sees
that everything is to come to an end, the network refuses the next retransmission when that is due,
the next receive cannot begin, or there have been enough retransmissions. -/
inductive Fails (before after : Scene S) (packet : Packet) (n limit : Nat) (due : Int) :
    Failure → Prop
  | stopped : before.view.Stops → before.deedsOf settle = [] →
      Fails before after packet n limit due (.transfer .serverShutdown)
  | refused {network : Network} {f : Failure} : n < limit → due ≤ after.world.clock →
      Network.Takes (List.replicate (before.deedsOf settle).length packet.encode)
        before.world.network network →
      Network.send packet.encode network = .error f after.world.network →
      Fails before after packet n limit due f
  | deaf {network : Network} {f : Failure} : after.world.clock < due →
      Network.Takes (List.replicate (before.deedsOf settle).length packet.encode)
        before.world.network network →
      Network.beginReceive network = .error f after.world.network →
      Fails before after packet n limit due f
  | timedOut : n = limit → due ≤ after.world.clock →
      Network.Takes (List.replicate (before.deedsOf settle).length packet.encode)
        before.world.network after.world.network →
      Fails before after packet n limit due (.transfer .timedOut)

theorem View.Breaks.fails {before after : Scene S} {packet : Packet} {k n limit : Nat} {due : Int}
    {f : Failure}
    (h : before.view.Breaks packet k before.world.network after.world.network f)
    (hdeeds : before.deedsOf settle = List.replicate k (before.view.sending packet))
    (hn : before.self.retries + k = n) (hlimit : before.self.config.maxRetries = limit)
    (hle : n ≤ limit) (hclock : after.world.clock = before.world.clock)
    (hdue : before.view.dueAfter k = due) : Fails before after packet n limit due f := by
  subst hn hlimit hdue
  have hk : (before.deedsOf settle).length = k := by rw [hdeeds, List.length_replicate]
  cases h with
  | stopped hs hk => exact .stopped hs (by rw [hdeeds, hk]; rfl)
  | refused hlt hd htakes hsend => exact .refused hlt (hclock ▸ hd) (hk.symm ▸ htakes) hsend
  | deaf hd htakes hbegin => exact .deaf (hclock ▸ hd) (hk.symm ▸ htakes) hbegin
  | timedOut hr hd htakes => exact .timedOut (Nat.le_antisymm hle hr) (hclock ▸ hd) (hk.symm ▸ htakes)

/-- Where a transfer stands after a turn, if it moved forward the last time at `p` and has settled
in the scene `before`. -/
inductive Stands (p : Int) (repeats : List Event) (before : Scene S) :
    Except Failure Unit → Scene S → Prop
  | ended {s : Scene S} : s.self.isOver = true → Stands p repeats before (.ok ()) s
  | waits {s : Scene S} : OnTime p repeats s.view → s.world.clock < s.self.deadline →
      Stands p repeats before (.ok ()) s
  | failed {s : Scene S} {packet : Packet} {n : Nat} {f : Failure} :
      s.self.lastPacket = some packet → n ≤ s.self.config.maxRetries →
      repeats = schedule s.self.socket s.self.peer packet p s.self.terms.timeout n →
      p + n * s.self.terms.timeout ≤ s.world.clock →
      s.world.clock ≤ p + (n + 1) * s.self.terms.timeout →
      Fails before s packet n s.self.config.maxRetries (p + (n + 1) * s.self.terms.timeout) f →
      Stands p repeats before (.error (before.view.failing f)) s

theorem settle_of_over {s : Scene S} (ho : s.self.isOver = true) : settle s = .ok () s := by
  show (if s.self.isOver then pure () else _ : Reaction S Unit) s = _
  rw [if_pos ho]
  rfl

/-- A transfer that fails in the end keeps its place in the schedule. -/
theorem OnTime.failed {p : Int} {repeats : List Event} {after : Scene S} {packet : Packet} {k retries : Nat}
    {f : Failure} (ht : 0 < s'.self.terms.timeout) (hon : OnTime p repeats s'.view)
    (hd : s'.world.clock ≤ s'.self.deadline) (hl : s'.self.lastPacket = some packet)
    (hk : s'.view.Lapses k) (hle : s'.self.retries + k ≤ s'.self.config.maxRetries)
    (hdeeds : s'.deedsOf settle = List.replicate k (s'.view.sending packet))
    (hview : after.view =
      ((s'.view.lapsed packet k).changing fun t => { t with retries }).givenUp)
    (hframe : after.frame = s'.frame)
    (hb : s'.view.Breaks packet k s'.world.network after.world.network f) :
    Stands p (repeats ++ s'.deedsOf settle) s' (.error (s'.view.failing f)) after := by
  obtain ⟨hon, hdue⟩ := hon.lapsed ht hd hl hk hle
  obtain ⟨hc, -, hterms, hlast⟩ :=
    ((s'.view.lapsed packet k).changing fun t => { t with retries }).givenUp_keeps
  rw [← hview] at hc hterms hlast
  have hclock : after.world.clock = s'.world.clock := hc
  have hterms : after.self.terms = s'.self.terms := hterms
  have hsocket : after.self.socket = s'.self.socket := congrArg Frame.socket hframe
  have hpeer : after.self.peer = s'.self.peer := congrArg Frame.peer hframe
  have hconfig : after.self.config = s'.self.config := congrArg Frame.config hframe
  obtain ⟨packet', hl', hrep⟩ := hon.repeats
  obtain rfl : packet = packet' := Option.some.inj (hl.symm.trans hl')
  have hdeadline : s'.view.dueAfter k =
      p + (((s'.self.retries + k : Nat) : Int) + 1) * s'.self.terms.timeout := hon.deadline
  refine .failed (n := s'.self.retries + k) (hlast.trans hl) (hconfig ▸ hle) ?_ ?_ ?_ ?_
  · rw [hsocket, hpeer, hterms, hdeeds]
    exact hrep
  · rw [hterms, hclock]
    exact hon.since
  · rw [hterms, hclock, ← hdeadline]
    exact hdue
  · rw [hconfig, hterms]
    exact hb.fails hdeeds rfl rfl hle hclock hdeadline

/-- **A turn keeps to the schedule.** -/
theorem stands_turn {p : Int} {repeats : List Event} (h : impulse reception? s = .ok moved s')
    (hframe : s'.frame = s.frame) (hp : s'.self.phase ≠ .failed) (ht : 0 < s'.self.terms.timeout)
    (hon : OnTime p repeats s'.view) (hd : s'.world.clock ≤ s'.self.deadline) :
    Stands p (repeats ++ s'.deedsOf settle) s' (s.resultOf (guarded (turn reception?)))
      (s.after (guarded (turn reception?))) := by
  have hout := turn_comes_out h hp
  have hafter := (frame_after (Steady.turn reception?) s).trans hframe.symm
  dsimp only at hout
  generalize s.resultOf (guarded (turn reception?)) = result at hout ⊢
  generalize s.after (guarded (turn reception?)) = after at hout hafter ⊢
  -- A transfer that is not over after the impulse settles, which is where it retransmits.
  cases ho : s'.self.isOver with
  | true =>
      rw [settle_of_over ho] at hout
      obtain ⟨rfl, hview⟩ := hout
      exact .ended ((congrArg (fun v => v.self.isOver) hview).trans ho)
  | false =>
      obtain ⟨packet, hl, -⟩ := hon.repeats
      have hl : s'.self.lastPacket = some packet := hl
      have hs := EnsuresOn.settle_lapses (v := s'.view) ho hl s' rfl rfl
      cases hr : settle s' with
      | ok u t =>
          rw [hr] at hs hout
          obtain ⟨k, hk, hlapses, hlt, hview⟩ := hs
          obtain ⟨rfl, hview'⟩ := hout
          rw [Nat.max_eq_right hon.retries_le] at hk
          obtain ⟨hon, -⟩ := hon.lapsed ht hd hl hlapses hk
          have hafter : after.view = s'.view.lapsed packet k := hview'.trans hview
          rw [Scene.deedsOf_eq (by rw [(Scene.after_of_ok hr).2, hview]; rfl)]
          refine .waits (hafter ▸ hon) ?_
          show after.view.clock < after.view.self.deadline
          rw [hafter]
          exact hlt
      | error f t =>
          rw [hr] at hs hout
          obtain ⟨k, retries, hk, hlapses, hview, hb⟩ := hs
          obtain ⟨rfl, hview', hnetwork⟩ := hout
          rw [Nat.max_eq_right hon.retries_le] at hk
          have hdeeds : s'.deedsOf settle = List.replicate k (s'.view.sending packet) :=
            Scene.deedsOf_eq (by rw [(Scene.after_of_error hr).2, hview]; rfl)
          have hfailing : t.view.failing f = s'.view.failing f := by rw [hview]; rfl
          rw [hfailing]
          exact hon.failed ht hd hl hlapses hk hdeeds (hview ▸ hview') hafter (hnetwork ▸ hb)

/-- Settling and what comes after it leave the terms alone. -/
theorem terms_after (h : impulse reception? s = .ok moved s') :
    (s.after (guarded (turn reception?))).self.terms = s'.self.terms := by
  have ht := turn_of_impulse h
  have hsettle : Goes False True (settle (S := S)) s' := .settle trivial
  -- However the turn goes on, it takes steps that leave the terms alone.
  cases hs : settle s' with
  | ok u t =>
      have hterms := (hsettle.steps_ok hs).terms_eq id
      have hg := guarded_of_ok (ht.trans hs)
      split at hg
      · have hleave : Goes False True (leave (S := S)) t := .leave
        cases hl : leave t with
        | ok u t' =>
            rw [(Scene.after_of_ok (hg.trans hl)).2]
            exact ((hleave.steps_ok hl).terms_eq id).trans hterms
        | error f t' =>
            rw [(Scene.after_of_error (hg.trans hl)).2]
            exact ((hleave.steps_error hl).1.terms_eq id).trans hterms
      · rw [(Scene.after_of_ok hg).2]
        exact hterms
  | error f t =>
      have hterms := (hsettle.steps_error hs).1.terms_eq id
      obtain ⟨t', hfall, -, -, hsteps⟩ := fall_eq_error f t
      rw [(Scene.after_of_error ((guarded_of_error (ht.trans hs)).trans hfall)).2]
      exact (hsteps.terms_eq id).trans hterms

/-- Without a timeout, a transfer does not get to its first receive. -/
theorem begin_atOnce (h : impulse none s = .ok moved s') (hr : s.self.retries = 0)
    (ht : s'.self.terms.timeout ≤ 0) : ∃ packet n f,
      s.resultOf begin = .error (s'.view.failing f) ∧
      (s.after begin).self.lastPacket = some packet ∧ n ≤ s.self.config.maxRetries ∧
      s'.deedsOf settle = List.replicate n
        (.sent s.self.socket.address s.self.peer packet.encode s.world.clock) ∧
      (s.after begin).world.clock = s.world.clock ∧
      Fails s' (s.after begin) packet n s.self.config.maxRetries
        (s.world.clock + s'.self.terms.timeout) f := by
  obtain ⟨hon, ho, hframe⟩ := impulse_begin h hr
  have hout := turn_comes_out h (phase_ne_of_live ho rfl)
  have hafter := frame_after Steady.begin s
  dsimp only at hout
  rw [← begin_eq] at hout
  generalize s.resultOf begin = result at hout ⊢
  generalize s.after begin = after at hout hafter ⊢
  obtain ⟨packet, hl, -⟩ := hon.repeats
  have hclock : s'.world.clock = s.world.clock := congrArg (fun f => f.world.clock) hframe
  have hconfig : s'.self.config = s.self.config := congrArg Frame.config hframe
  have hretries : s'.self.retries = 0 := hon.retries_eq
  have hdeadline : s'.self.deadline = s.world.clock + s'.self.terms.timeout := hon.deadline_eq
  -- However often it retransmits, the next retransmission is due.
  have hdue (k : Nat) : s'.view.dueAfter k = s.world.clock + s'.self.terms.timeout := by
    cases k with
    | zero => exact hdeadline
    | succ k => exact congrArg (· + _) hclock
  have hs := EnsuresOn.settle_lapses (v := s'.view) ho hl s' rfl rfl
  cases hr : settle s' with
  | ok u t =>
      rw [hr] at hs
      obtain ⟨k, -, -, hlt, -⟩ := hs
      rw [hdue, show s'.view.clock = s.world.clock from hclock] at hlt
      omega
  | error f t =>
      rw [hr] at hs hout
      obtain ⟨k, retries, hk, -, hview, hb⟩ := hs
      obtain ⟨rfl, hview', hnetwork⟩ := hout
      have hle : k ≤ s.self.config.maxRetries := by
        have hk : s'.self.retries + k ≤ max s'.self.retries s'.self.config.maxRetries := hk
        rw [hretries, hconfig] at hk
        omega
      have hdeeds : s'.deedsOf settle = List.replicate k (s'.view.sending packet) :=
        Scene.deedsOf_eq (by rw [(Scene.after_of_error hr).2, hview]; rfl)
      have hnow : after.world.clock = s.world.clock := congrArg (fun f => f.world.clock) hafter
      refine ⟨packet, k, f, by rw [hview]; rfl, ?_, hle, ?_, hnow, ?_⟩
      · obtain ⟨-, -, -, hkept⟩ := t.view.givenUp_keeps
        rw [← hview', hview] at hkept
        exact hkept.trans hl
      · have hsocket : s'.view.self.socket = s.self.socket := congrArg Frame.socket hframe
        have hpeer : s'.view.self.peer = s.self.peer := congrArg Frame.peer hframe
        rw [hdeeds, View.sending, hsocket, hpeer, show s'.view.clock = s.world.clock from hclock]
      · exact (hnetwork ▸ hb).fails hdeeds (by omega)
          (congrArg Config.maxRetries hconfig) hle (hnow.trans hclock.symm) (hdue k)

end

/-! ## Vigils -/

/-- A transfer from its beginning, as long as nothing that it receives makes it fail: how often it has
moved forward since it began, when it did so the last time, what it has sent again since then when the
deadline had passed, the scene in which it has settled last, how its last turn has ended, and the
scene after it. While a receive waits, anything may happen to the world, but time passes no longer
than the receive may wait. -/
inductive Vigil (start : Scene S) :
    Nat → Int → List Event → Scene S → Except Failure Unit → Scene S → Prop
  | begins {s : Scene S} {moved : Bool} : impulse none start = .ok moved s →
      Vigil start 0 start.world.clock (s.deedsOf settle) s (start.resultOf begin)
        (start.after begin)
  | moves {k : Nat} {p : Int} {repeats : List Event} {before s s' : Scene S} (world : World S)
      (reception : Reception) : Vigil start k p repeats before (.ok ()) s → s.self.isOver = false →
      Waits s world → impulse (some reception) { s with world } = .ok true s' →
      Vigil start (k + 1) world.clock (s'.deedsOf settle) s'
        (({ s with world } : Scene S).resultOf (resume reception))
        (({ s with world } : Scene S).after (resume reception))
  | stays {k : Nat} {p : Int} {repeats : List Event} {before s s' : Scene S} (world : World S)
      (reception : Reception) : Vigil start k p repeats before (.ok ()) s → s.self.isOver = false →
      Waits s world → impulse (some reception) { s with world } = .ok false s' →
      Vigil start k p (repeats ++ s'.deedsOf settle) s'
        (({ s with world } : Scene S).resultOf (resume reception))
        (({ s with world } : Scene S).after (resume reception))

theorem limit_le {t : Transfer S} {clock : Int} (h : clock < t.deadline) :
    clock + t.limit clock ≤ t.deadline := by
  unfold limit Network.limit
  omega

theorem Waits.le_deadline {s : Scene S} {world : World S} (h : Waits s world)
    (hd : s.world.clock < s.self.deadline) : world.clock ≤ s.self.deadline :=
  Int.le_trans h.2 (limit_le hd)

section

variable {start before s : Scene S} {k : Nat} {p : Int} {repeats : List Event}
  {result : Except Failure Unit}

/-- Who a transfer is and how it is configured does not change. -/
theorem Vigil.kept (h : Vigil start k p repeats before result s) : s.self.peer = start.self.peer ∧
    s.self.socket = start.self.socket ∧ s.self.config = start.self.config := by
  have same {s t : Scene S} (h : s.frame = t.frame) : s.self.peer = t.self.peer ∧
      s.self.socket = t.self.socket ∧ s.self.config = t.self.config :=
    ⟨congrArg Frame.peer h, congrArg Frame.socket h, congrArg Frame.config h⟩
  induction h with
  | begins _ => exact same (frame_after Steady.begin start)
  | @moves _ _ _ _ s _ world reception _ _ _ _ ih
  | @stays _ _ _ _ s _ world reception _ _ _ _ ih =>
      obtain ⟨hpeer, hsocket, hconfig⟩ :=
        same (frame_after (Steady.resume reception) { s with world })
      exact ⟨hpeer.trans ih.1, hsocket.trans ih.2.1, hconfig.trans ih.2.2⟩

/-- When a transfer with a timeout has moved forward the last time, no more time has passed than all
the retransmissions before could take. -/
def Timely (start : Scene S) (k : Nat) (p : Int) (s : Scene S) : Prop :=
  p ≤ start.world.clock + k * ((s.self.config.maxRetries + 1) * s.self.terms.timeout)

theorem Timely.congr {s' : Scene S} (h : Timely start k p s)
    (hconfig : s'.self.config = s.self.config) (hterms : s'.self.terms = s.self.terms) :
    Timely start k p s' := by
  unfold Timely at h ⊢
  rw [hconfig, hterms]
  exact h

/-- The next progress comes before the transfer would be given up. -/
theorem Timely.next {s' : Scene S} {now : Int} (h : Timely start k p s)
    (hon : OnTime p repeats s.view) (hnow : now ≤ s.self.deadline) (ht : 0 < s.self.terms.timeout)
    (hconfig : s'.self.config = s.self.config) (hterms : s'.self.terms = s.self.terms) :
    Timely start (k + 1) now s' := by
  have hd : s.self.deadline = p + (s.self.retries + 1) * s.self.terms.timeout := hon.deadline
  have hr : s.self.retries ≤ s.self.config.maxRetries := hon.retries_le
  have hle : ((s.self.retries : Int) + 1) * s.self.terms.timeout ≤
      (s.self.config.maxRetries + 1) * s.self.terms.timeout :=
    Int.mul_le_mul_of_nonneg_right (by omega) (Int.le_of_lt ht)
  unfold Timely at h ⊢
  rw [hconfig, hterms, Int.natCast_succ, Int.add_mul (k : Int)]
  omega

/-- **A vigil keeps to the schedule.** -/
theorem Vigil.stands (hr : start.self.retries = 0) (h : Vigil start k p repeats before result s)
    (ht : 0 < s.self.terms.timeout) : Stands p repeats before result s ∧ Timely start k p s := by
  -- Between two turns the transfer waits, so its timer has not run out when the next turn begins.
  induction h with
  | @begins s moved hi =>
      obtain ⟨hon, ho, hframe⟩ := impulse_begin hi hr
      rw [begin_eq, terms_after hi] at ht
      have hclock : s.world.clock = start.world.clock := congrArg (fun f => f.world.clock) hframe
      have hd : s.world.clock ≤ s.self.deadline := by
        have hd : s.self.deadline = start.world.clock + s.self.terms.timeout := hon.deadline_eq
        omega
      refine ⟨?_, ?_⟩
      · rw [begin_eq]
        exact stands_turn hi hframe (phase_ne_of_live ho rfl) ht hon hd
      · simp [Timely]
  | @moves k p repeats before s s' world reception h ho hw hi ih =>
      have hafter := frame_after (Steady.resume reception) { s with world }
      rw [resume_eq] at ht hafter ⊢
      have hterms := (terms_after hi).trans (impulse_terms hi)
      have hconfig := congrArg Frame.config hafter
      have hp := impulse_unfailed hi (phase_ne_of_live ho rfl)
      rw [hterms] at ht
      obtain ⟨hstands, htimely⟩ := ih ht
      cases hstands with
      | ended ho' => cases ho.symm.trans ho'
      | waits hon hlt =>
          obtain ⟨packet, hl, -⟩ := hon.repeats
          have hl : s.self.lastPacket ≠ none := by simp [show s.self.lastPacket = _ from hl]
          obtain ⟨hon', hframe⟩ := impulse_moved hi hl
          have ht' : 0 < s'.self.terms.timeout := (impulse_terms hi).symm ▸ ht
          have hclock : s'.world.clock = world.clock := congrArg (fun f => f.world.clock) hframe
          have hd : s'.self.deadline = world.clock + s'.self.terms.timeout := hon'.deadline_eq
          refine ⟨stands_turn hi hframe hp ht' hon' (by omega), ?_⟩
          exact htimely.next hon (hw.le_deadline hlt) ht hconfig hterms
  | @stays k p repeats before s s' world reception h ho hw hi ih =>
      have hafter := frame_after (Steady.resume reception) { s with world }
      rw [resume_eq] at ht hafter ⊢
      have hterms := (terms_after hi).trans (impulse_terms hi)
      have hconfig := congrArg Frame.config hafter
      have hp := impulse_unfailed hi (phase_ne_of_live ho rfl)
      rw [hterms] at ht
      obtain ⟨hstands, htimely⟩ := ih ht
      cases hstands with
      | ended ho' => cases ho.symm.trans ho'
      | waits hon hlt =>
          obtain ⟨hself, hframe⟩ := impulse_still hi
          have hclock : s'.world.clock = world.clock := congrArg (fun f => f.world.clock) hframe
          have ht' : 0 < s'.self.terms.timeout := (impulse_terms hi).symm ▸ ht
          have hle : s.world.clock ≤ s'.world.clock := by
            rw [hclock]
            exact hw.1
          refine ⟨stands_turn hi hframe hp ht' (hon.congr hself hle) ?_,
            htimely.congr hconfig hterms⟩
          rw [hclock, hself]
          exact hw.le_deadline hlt

/-- Without a timeout, a vigil is over when it has begun. -/
theorem Vigil.atOnce (hr : start.self.retries = 0) (h : Vigil start k p repeats before result s)
    (ht : s.self.terms.timeout ≤ 0) : result = start.resultOf begin ∧ s = start.after begin ∧
      p = start.world.clock ∧ ∃ packet n f, result = .error (before.view.failing f) ∧
        s.self.lastPacket = some packet ∧ n ≤ start.self.config.maxRetries ∧
        repeats = List.replicate n
          (.sent start.self.socket.address start.self.peer packet.encode p) ∧
        s.world.clock = p ∧
        Fails before s packet n start.self.config.maxRetries (p + s.self.terms.timeout) f := by
  induction h with
  | @begins s moved hi =>
      have hterms := terms_after hi
      rw [← begin_eq] at hterms
      rw [hterms] at ht ⊢
      exact ⟨rfl, rfl, rfl, begin_atOnce hi hr ht⟩
  | @moves k p repeats before s s' world reception h ho hw hi ih
  | @stays k p repeats before s s' world reception h ho hw hi ih =>
      rw [resume_eq, terms_after hi, impulse_terms hi] at ht
      obtain ⟨-, -, -, _, _, _, hf, -⟩ := ih ht
      cases hf

/-- **Schedule of retransmissions.** Let `T` be the timeout that has been agreed to and `p` the time
at which the transfer moved forward the last time. If `T` is positive, the last packet is
retransmitted at `p + T`, `p + 2 T` and so on, as often as the configuration allows, whatever the
transfer receives and ignores in between. If it fails, it has kept to the schedule up to then. It
fails one timeout after the last retransmission, unless before that it sees that everything is to come
to an end, the network refuses a retransmission that is due, or a receive cannot begin. So a transfer
that has moved forward `k` times and waits is not older than `k + 1` times the time up to which it is
given up. If `T` is not positive, all retransmissions come at once, and the transfer is given up
before its first receive. -/
theorem retransmits_on_schedule {direction : Direction} {request : Request} {peer : Address}
    {socket : Socket} {config : Config} {heedsStop : Bool} {world : World S}
    (h : Vigil ⟨.new S direction request peer socket config heedsStop, world⟩ k p repeats before
      result s) :
    let start : Scene S := ⟨.new S direction request peer socket config heedsStop, world⟩
    let T := s.self.terms.timeout
    let R := config.maxRetries
    (0 < T →
      (result = .ok () → s.self.isOver = false → ∃ packet n, s.self.lastPacket = some packet ∧
        n ≤ R ∧ repeats = schedule socket peer packet p T n ∧
        p + n * T ≤ s.world.clock ∧ s.world.clock < p + (n + 1) * T ∧
        s.world.clock < world.clock + (k + 1) * ((R + 1) * T)) ∧
      ∀ f, result = .error f → ∃ packet n cause, f = before.view.failing cause ∧
        s.self.lastPacket = some packet ∧ n ≤ R ∧ repeats = schedule socket peer packet p T n ∧
        p + n * T ≤ s.world.clock ∧ s.world.clock ≤ p + (n + 1) * T ∧
        Fails before s packet n R (p + (n + 1) * T) cause) ∧
    (T ≤ 0 → result = start.resultOf begin ∧ s = start.after begin ∧ p = world.clock ∧
      ∃ packet n cause, result = .error (before.view.failing cause) ∧
        s.self.lastPacket = some packet ∧ n ≤ R ∧
        repeats = List.replicate n (.sent socket.address peer packet.encode p) ∧
        s.world.clock = p ∧ Fails before s packet n R (p + T) cause) := by
  dsimp only
  refine ⟨fun ht => ?_, fun ht => h.atOnce rfl ht⟩
  obtain ⟨hpeer, hsocket, hconfig⟩ := h.kept
  dsimp only [new] at hpeer hsocket hconfig
  obtain ⟨hstands, htimely⟩ := h.stands rfl ht
  cases hstands with
  | ended ho => exact ⟨(fun _ ho' => nomatch ho.symm.trans ho'), nofun⟩
  | waits hon hlt =>
      refine ⟨fun _ _ => ?_, nofun⟩
      obtain ⟨packet, hl, hrep⟩ := hon.repeats
      have hd : s.self.deadline = p + (s.self.retries + 1) * s.self.terms.timeout := hon.deadline
      have hnext : Timely _ (k + 1) s.self.deadline s :=
        htimely.next hon (Int.le_refl _) ht rfl rfl
      have hle : s.self.deadline ≤ world.clock +
          (k + 1) * ((s.self.config.maxRetries + 1) * s.self.terms.timeout) := hnext
      refine ⟨packet, s.self.retries, hl, hconfig ▸ hon.retries_le, ?_, hon.since, hd ▸ hlt, ?_⟩
      · rw [hrep, ← hsocket, ← hpeer]
        rfl
      · rw [← hconfig]
        exact Int.lt_of_lt_of_le hlt hle
  | @failed _ packet n cause hl hn hrep hsince hnow hfails =>
      refine ⟨nofun, ?_⟩
      rintro _ ⟨⟩
      rw [hsocket, hpeer] at hrep
      rw [hconfig] at hn hfails
      exact ⟨packet, n, cause, rfl, hl, hn, hrep, hsince, hnow, hfails⟩

/-- A client that asks for a file to be received and then says nothing. -/
def silent : Scene (Scripted.storage {}) where
  self := .new _ .write ⟨ascii "digits", .octet, {}⟩ ⟨⟨10, 0, 0, 1⟩, 5000⟩
    ⟨⟨⟨10, 0, 0, 2⟩, 40000⟩⟩ { timeout := 100, maxRetries := 1 } true
  world := { store := () }

/-- The request is acknowledged once more after one timeout, and after another the transfer is given
up. -/
theorem retransmits_on_schedule_silent : ∃ repeats before s,
    Vigil silent 0 0 repeats before (.error (.transfer .timedOut)) s ∧
    s.self.terms.timeout = 100 ∧ s.world.clock = 200 ∧
    repeats = [.sent silent.self.socket.address silent.self.peer (Packet.ack 0).encode 100] ∧
    ∃ packet n cause, .transfer .timedOut = before.view.failing cause ∧
      s.self.lastPacket = some packet ∧ n ≤ 1 ∧
      repeats = schedule silent.self.socket silent.self.peer packet 0 s.self.terms.timeout n ∧
      0 + n * s.self.terms.timeout ≤ s.world.clock ∧
      s.world.clock ≤ 0 + (n + 1) * s.self.terms.timeout ∧
      Fails before s packet n 1 (0 + (n + 1) * s.self.terms.timeout) cause := by
  have began : Vigil silent 0 0 _ _ (silent.resultOf begin) _ := .begins rfl
  rw [show silent.resultOf begin = .ok () by decide +kernel] at began
  let later (s : Scene (Scripted.storage {})) : World (Scripted.storage {}) :=
    { s.world with clock := s.world.clock + 100 }
  let first := silent.after begin
  let second := ({ first with world := later first } : Scene _).after (resume .nothing)
  have again := began.stays (later first) .nothing (by decide +kernel) (by decide +kernel) rfl
  rw [show ({ first with world := later first } : Scene _).resultOf (resume .nothing) = .ok ()
    by decide +kernel] at again
  have last := again.stays (later second) .nothing (by decide +kernel) (by decide +kernel) rfl
  rw [show ({ second with world := later second } : Scene _).resultOf (resume .nothing) =
    .error (.transfer .timedOut) by decide +kernel] at last
  have schedule := retransmits_on_schedule last
  exact ⟨_, _, _, last, by decide +kernel, by decide +kernel, by decide +kernel,
    (schedule.1 (by decide +kernel)).2 _ rfl⟩

end

/-! ## Rehearsals as vigils -/

/-- A transfer from its beginning in such a world, to its end: a vigil, or one that has been cut short
because the transfer could not start, or because it failed at what it received. -/
inductive Watch (start : Scene S) : Except Failure Unit → Scene S → Prop
  | vigil {k : Nat} {p : Int} {repeats : List Event} {before : Scene S}
      {result : Except Failure Unit} {s : Scene S} :
      Vigil start k p repeats before result s → Watch start result s
  | unstarted {s : Scene S} {f : Failure} : impulse none start = .error f s →
      Watch start (start.resultOf begin) (start.after begin)
  | cut {k : Nat} {p : Int} {repeats : List Event} {before s s' : Scene S} {f : Failure}
      (world : World S) (reception : Reception) :
      Vigil start k p repeats before (.ok ()) s → s.self.isOver = false →
      Waits s world → impulse (some reception) { s with world } = .error f s' →
      Watch start (({ s with world } : Scene S).resultOf (resume reception))
        (({ s with world } : Scene S).after (resume reception))

variable {start s : Scene S}

theorem Watch.begins (start : Scene S) : Watch start (start.resultOf begin) (start.after begin) := by
  cases hi : impulse none start with
  | ok moved s => exact .vigil (.begins hi)
  | error f s => exact .unstarted hi

/-- What makes an impulse fail makes the turn fail. -/
theorem resultOf_of_impulse_error {reception? : Option Reception} {s' : Scene S} {f : Failure}
    (h : impulse reception? s = .error f s') :
    ∃ f', s.resultOf (guarded (turn reception?)) = .error f' := by
  have ht : turn reception? s = .error f s' := bind_of_error h
  obtain ⟨s'', hfall, -⟩ := fall_eq_error f s'
  exact ⟨_, (Scene.after_of_error ((guarded_of_error ht).trans hfall)).1⟩

/-- A transfer that has not failed is watched on. -/
theorem Watch.goesOn (h : Watch start (.ok ()) s) (ho : s.self.isOver = false) (world : World S)
    (hw : Waits s world) (reception : Reception) :
    Watch start (({ s with world } : Scene S).resultOf (resume reception))
      (({ s with world } : Scene S).after (resume reception)) := by
  generalize hr : Except.ok () = result at h
  cases h with
  | vigil hv =>
      subst hr
      cases hi : impulse (some reception) { s with world } with
      | ok moved s' =>
          cases moved with
          | true => exact .vigil (.moves world reception hv ho hw hi)
          | false => exact .vigil (.stays world reception hv ho hw hi)
      | error f s' => exact .cut world reception hv ho hw hi
  | unstarted hi =>
      obtain ⟨f', hf⟩ := resultOf_of_impulse_error hi
      rw [begin_eq, hf] at hr
      cases hr
  | cut world' reception' hv ho' hw' hi =>
      obtain ⟨f', hf⟩ := resultOf_of_impulse_error hi
      rw [resume_eq, hf] at hr
      cases hr

end Transfer

namespace Rehearsal

open Transfer

variable {S : Storage}

/-- **A rehearsal is a watch** of the transfer that it begins. When the script ends, the transfer may
still wait. -/
theorem run_watch {world : World S} {direction : Direction}
    {request : Request} {peer : Address} {config : Config} {heedsStop : Bool} {script : List Cue}
    {report : Report S}
    (h : run world direction request peer config heedsStop script = .ok report) :
    ∃ socket world' result s, world'.clock = world.clock ∧
      Watch ⟨.new S direction request peer socket config heedsStop, world'⟩ result s ∧
      report.ending = .ofResult s.self result ∧ report.transfer = s.self ∧
      (report.world.clock = s.world.clock ∨ s.self.isOver = false ∧ Waits s report.world) := by
  obtain ⟨socket, world', result, s, -, hclock, hk, hend, hself, -, hwaits⟩ :=
    run_rounds Watch (fun _ => .begins _)
      (fun world reception hk ho hp => hk.goesOn ho world hp.waits reception) h
  exact ⟨socket, world', result, s, hclock, hk, hend, hself, hwaits⟩

end Rehearsal

end Tftp
