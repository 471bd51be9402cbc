import Tftp.Proofs.Agreement
import Tftp.Proofs.Sockets

/-!
# Turns of a transfer

What both directions share. The rules for the reactions out of which every turn is built come
first: sending, retransmitting, giving up. They say what becomes of a view, whatever the network
does. Where it matters what the network does, there is a rule for the network at hand as well, and
the other one follows from it.

A transfer lives in turns: it begins, and then it goes on each time a receive has ended. Between
two turns anything may happen to its world except that somebody touches its storage. `Turn` is one
such step.
-/

namespace Tftp

/-- The packet from the given peer that a receive brings, if it brings one. -/
def Reception.packetFrom (peer : Address) (reception : Reception) : Option Packet :=
  match reception.cut Network.maxDatagram with
  | .datagram sender bytes => if sender = peer then (Packet.parse bytes).toOption else none
  | _ => none

theorem Reception.packetFrom_of_failed {peer : Address} {reception : Reception} {f : Failure}
    (h : (reception.cut Network.maxDatagram).outcome = .error f) :
    reception.packetFrom peer = none := by
  unfold packetFrom
  cases hc : reception.cut Network.maxDatagram with
  | datagram sender bytes =>
      rw [hc] at h
      cases h
  | _ => rfl

namespace Transfer

variable {S : Storage}

/-- A transfer that is not over is in no phase in which it would be. -/
theorem phase_ne_of_live {t : Transfer S} (ho : t.isOver = false) {phase : Phase}
    (hp : phase.isOver = true) : t.phase ≠ phase := by
  rintro rfl
  cases ho.symm.trans hp

/-! ## Views that have only sent something -/

namespace View

def repetition (v : View S) : List Event := v.self.lastPacket.toList.map v.sending

@[simp] theorem doing_nil (v : View S) : v.doing [] = v := by
  simp [doing]

/-- Nothing has happened but retransmissions of the last packet, a number of times. -/
def Repeats (v v' : View S) : Prop :=
  ∃ (k retries : Nat) (deadline : Int),
    v' = (v.doing (List.replicate k v.repetition).flatten).changing fun t =>
      { t with retries, deadline }

theorem Repeats.refl (v : View S) : v.Repeats v :=
  ⟨0, v.self.retries, v.self.deadline, by simp [changing]⟩

theorem Repeats.step {v v' : View S} {retries : Nat} {deadline : Int}
    (h : ((v.doing v.repetition).changing fun t => { t with retries, deadline }).Repeats v') :
    v.Repeats v' := by
  obtain ⟨k, r, d, rfl⟩ := h
  refine ⟨k + 1, r, d, ?_⟩
  simp only [changing, doing, repetition, List.replicate_succ, List.flatten_cons,
    List.append_assoc]
  rfl

end View

namespace View

/-- What comes of giving up the file that is being received. -/
def givingUp (v : View S) : Except Failure Unit :=
  match v.self.writer with
  | none => .ok ()
  | some writer => (S.abort (v.store, writer)).result

/-- What a transfer fails with that comes to fail with `f`: a failure to give its file up takes the
place of `f`. -/
def failing (v : View S) (f : Failure) : Failure :=
  match v.givingUp with
  | .ok () => f
  | .error f' => f'

theorem failing_eq_or (v : View S) (f : Failure) :
    v.failing f = f ∨ ∃ writer, v.self.writer = some writer ∧
      (S.abort (v.store, writer)).result = .error (v.failing f) := by
  unfold failing
  cases hg : v.givingUp with
  | ok u => exact .inl rfl
  | error f' =>
      unfold givingUp at hg
      cases hw : v.self.writer with
      | none =>
          rw [hw] at hg
          cases hg
      | some writer =>
          rw [hw] at hg
          exact .inr ⟨writer, rfl, hg⟩

end View

/-! ## Rules for the reactions that all transfers share -/

namespace EnsuresOn

variable {n : Network} {v : View S} {U : Unit → View S → Network → Prop}
  {E : Failure → View S → Network → Prop}

theorem transmit {packet : Packet}
    (ok : ∀ n', Network.send packet.encode n = .ok () n' → U () (v.doing [v.sending packet]) n')
    (fails : ∀ f n', Network.send packet.encode n = .error f n' → E f v n') :
    EnsuresOn n (Transfer.transmit packet) v U E :=
  bind (self (bind (log (worldSend ok fails))))

theorem send {packet : Packet}
    (ok : ∀ n', Network.send packet.encode n = .ok () n' →
      U () ((v.doing [v.sending packet]).changing fun t => { t with lastPacket := packet }) n')
    (fails : ∀ f n', Network.send packet.encode n = .error f n' → E f v n') :
    EnsuresOn n (Transfer.send packet) v U E :=
  bind (transmit (fun n' hs => update (ok n' hs)) fails)

theorem resend (none : v.self.lastPacket = none → U () v n)
    (ok : ∀ packet n', v.self.lastPacket = some packet → Network.send packet.encode n = .ok () n' →
      U () (v.doing [v.sending packet]) n')
    (fails : ∀ packet f n', v.self.lastPacket = some packet →
      Network.send packet.encode n = .error f n' → E f v n') :
    EnsuresOn n Transfer.resend v U E := by
  refine bind (self ?_)
  cases hl : v.self.lastPacket with
  | none => exact pure (none hl)
  | some packet =>
      exact transmit (fun n' hs => ok packet n' hl hs) fun f n' hs => fails packet f n' hl hs

theorem rearm
    (ok : U () (v.changing fun t => { t with deadline := v.clock + t.terms.timeout }) n) :
    EnsuresOn n Transfer.rearm v U E := bind (now (update ok))

/-- A transfer that is over does nothing before it would wait again. -/
theorem settle_over (ho : v.self.isOver = true) (ok : U () v n) :
    EnsuresOn n Transfer.settle v U E := by
  refine bind (self ?_)
  rw [if_pos ho]
  exact pure ok

theorem rejectStranger {sender : Address}
    (ok : ∀ events n', (∀ e ∈ events, ∃ a b t, e = .sent a sender b t) → n.Used n' →
      U () (v.doing events) n') :
    EnsuresOn n (Transfer.rejectStranger sender) v U E := by
  refine bind (log (bind (self (tryCatch (worldSend (fun n' hs => ?_) fun f n' hs => log ?_)))))
  · exact ok _ n' (by simp) (.taken .unused hs)
  · simpa using ok [] n' (by simp) (.refused .unused hs)

end EnsuresOn

namespace Ensures

variable {v : View S} {U : Unit → View S → Prop} {E : Failure → View S → Prop}

theorem send {packet : Packet}
    (ok : U () ((v.doing [v.sending packet]).changing fun t => { t with lastPacket := packet }))
    (fails : ∀ f, E f v) : Ensures (Transfer.send packet) v U E :=
  .onEvery fun _ => .send (fun _ _ => ok) fun f _ _ => fails f

theorem resend (ok : U () (v.doing v.repetition)) (fails : ∀ f, E f v) :
    Ensures Transfer.resend v U E := by
  refine .onEvery fun _ => .resend (fun hl => ?_) (fun packet _ hl _ => ?_) fun _ f _ _ _ => fails f
  · simpa [View.repetition, hl] using ok
  · simpa [View.repetition, hl] using ok

theorem rearm (ok : U () (v.changing fun t => { t with deadline := v.clock + t.terms.timeout })) :
    Ensures Transfer.rearm v U E :=
  bind (now (update ok))

theorem settleTerms_or {fileSize : Option UInt64}
    (ok : ∀ terms, negotiate v.self.request.options v.self.config v.self.direction fileSize =
      .ok terms → U () (v.changing fun t => { t with terms }))
    (fails : ∀ f, negotiate v.self.request.options v.self.config v.self.direction fileSize =
      .error f → E f v) :
    Ensures (Transfer.settleTerms fileSize) v U E := by
  apply bind
  apply self
  cases hn : negotiate v.self.request.options v.self.config v.self.direction fileSize with
  | error f => exact throw (fails f hn)
  | ok terms => exact bind (log (update (ok terms hn)))

theorem settleTerms {fileSize : Option UInt64}
    (ok : ∀ terms, terms.blockSize = agreedBlockSize v.self.request.options v.self.config →
      U () (v.changing fun t => { t with terms }))
    (fails : ∀ f, E f v) : Ensures (Transfer.settleTerms fileSize) v U E :=
  settleTerms_or (fun terms hn => ok terms (negotiate_blockSize hn)) fun f _ => fails f

/-- Catching up retransmits the last packet, and gives up or fails at any point. -/
theorem catchUp {left : Nat} (ok : ∀ v', v.Repeats v' → U () v')
    (fails : ∀ f v', v.Repeats v' → E f v') : Ensures (Transfer.catchUp left) v U E := by
  induction left generalizing v with
  | zero =>
      unfold Transfer.catchUp
      refine bind (self (bind (now ?_)))
      split
      · exact pure (ok v (.refl v))
      · exact bind (log (throw (fails _ v (.refl v))))
  | succ left ih =>
      -- The deadline has passed: a retransmission, and then the same with one try less.
      unfold Transfer.catchUp
      refine bind (self (bind (now ?_)))
      split
      · exact pure (ok v (.refl v))
      · refine bind (update (bind (log (bind (resend (bind (rearm ?_)) ?_)))))
        · exact ih (fun v' h => ok v' (.step h)) (fun f v' h => fails f v' (.step h))
        · intro f
          exact fails f _ ⟨0, v.self.retries + 1, v.self.deadline, by simp [View.changing]⟩

/-- Before it waits again, a transfer may retransmit its last packet, or it may fail. -/
theorem settle (ok : ∀ v', v.Repeats v' → U () v') (fails : ∀ f v', v.Repeats v' → E f v') :
    Ensures Transfer.settle v U E := by
  refine bind (self ?_)
  split
  · exact pure (ok v (.refl v))
  · refine bind (get fun s _ => ?_)
    split
    · exact bind (throw (fails _ v (.refl v)))
    · refine bind (catchUp (fun v' h => ?_) fails)
      exact onNetwork (fun _ => ok v' h) (fun f => fails f v' h)

theorem settle_over (ho : v.self.isOver = true) (ok : U () v) :
    Ensures Transfer.settle v U E := .onEvery fun _ => .settle_over ho ok

theorem onWriter {effect : Effect (S.State × S.Writer) Unit}
    (none : v.self.writer = none → U () v)
    (some : ∀ writer, v.self.writer = some writer →
      match (effect (v.store, writer)).result with
      | .ok () => U () (v.storing effect writer)
      | .error f => E f (v.storing effect writer)) :
    Ensures (Write.onWriter effect) v U E := by
  rintro s rfl
  unfold Write.onWriter
  cases hw : s.self.writer with
  | none => exact none hw
  | some writer =>
      have h := some writer hw
      have hd : (Event.unlogged ((effect (s.world.store, writer)).events.reverse ++
          s.world.trace)).reverse =
          s.world.deeds ++ Event.unlogged (effect (s.world.store, writer)).events := by
        simp [World.deeds]
      cases hr : (effect (s.world.store, writer)).result with
      | ok a => simpa [hr, Scene.view, View.storing, World.deeds] using h
      | error f => simpa [hr, Scene.view, View.storing, World.deeds] using h

/-- A transfer that is over leaves; if it has failed, the file that was being written is given up,
and that may fail in turn. -/
theorem leave (ok : v.self.phase ≠ .failed → U () v)
    (failed : v.self.phase = .failed → match v.givingUp with
      | .ok () => U () v.givenUp
      | .error f => E f v.givenUp) :
    Ensures Transfer.leave v U E := by
  refine bind (self ?_)
  split
  next hp =>
    -- The phase is `failed` already, so that giving up changes the file only.
    have hv : (v.changing fun t => { t with phase := .failed }) = v := by
      obtain ⟨t, _, _, _, _⟩ := v
      obtain ⟨_, _, _, _, _, _, _, _, _, _, _, _, _, _⟩ := t
      cases hp
      rfl
    have h := failed hp
    unfold View.givingUp View.givenUp at h
    rw [hv] at h
    dsimp only at h
    refine bind (onWriter (fun hw => log ?_) (fun writer hw => ?_))
    · rw [hw] at h
      exact h
    · rw [hw] at h
      dsimp only at h
      split
      next hr =>
        rw [hr] at h
        exact log h
      next f hr =>
        rw [hr] at h
        exact h
  next hp => exact log (ok hp)

/-- A failure is passed on when the file that was being received has been given up. -/
theorem fall {f : Failure} (fails : E (v.failing f) v.givenUp) :
    Ensures (Transfer.fall f) v U E := by
  refine bind (update (bind (leave (fun hp => absurd rfl hp) fun _ => ?_)))
  unfold View.failing at fails
  change match v.givingUp with
    | .ok () => Ensures (MonadExcept.throw f) v.givenUp U E
    | .error f' => E f' v.givenUp
  cases hg : v.givingUp with
  | ok u =>
      rw [hg] at fails
      exact throw fails
  | error f' =>
      rw [hg] at fails
      exact fails

end Ensures

/-- A reaction that fails is the end of the transfer, and the failure is passed on. A failure to give
the file up takes its place. -/
theorem EnsuresOn.guarded {n : Network} {v : View S} {m : Reaction S Unit}
    {P : View S → Network → Prop} {E : Failure → View S → Network → Prop}
    (h : EnsuresOn n m v (fun _ v' n' => v'.self.phase ≠ .failed ∧ P v' n')
      (fun f v' n' => E (v'.failing f) v'.givenUp n')) :
    EnsuresOn n (Transfer.guarded m) v (fun _ => P) E := by
  rw [guarded_eq]
  refine bind (tryCatch (mono h ?_ ?_))
  · rintro ⟨⟩ v' n' ⟨hp, hP⟩
    refine bind (self ?_)
    split
    · exact offline .leave (.leave (fun _ => hP) fun hf => absurd hf hp)
    · exact pure hP
  · exact fun f v' n' hE => offline (.fall f) (.fall hE)

/-! ## How a turn comes to its end -/

namespace View

/-- What settling can make of a view: a transfer that is over stays as it is, and any other may
retransmit its last packet, and then it waits or is given up with some failure. -/
structure SettlesOr (P : View S → Prop) (E : Failure → View S → Prop) (v : View S) : Prop where
  ends : v.self.isOver = true → v.self.phase ≠ .failed ∧ ∀ (retries : Nat) (deadline : Int),
    P (v.changing fun t => { t with retries, deadline })
  live : v.self.isOver = false → ∀ v', v.Repeats v' → P v' ∧ ∀ f, E f v'.givenUp

/-- Everything that settling can make of a view satisfies `P`. -/
structure Settles (P : View S → Prop) (v : View S) : Prop where
  ends : v.self.isOver = true → v.self.phase ≠ .failed ∧ ∀ (retries : Nat) (deadline : Int),
    P (v.changing fun t => { t with retries, deadline })
  live : v.self.isOver = false → ∀ v', v.Repeats v' → P v' ∧ P v'.givenUp

variable {v : View S} {P : View S → Prop} {E : Failure → View S → Prop}

theorem Settles.settlesOr (h : v.Settles P) : v.SettlesOr P fun _ => P where
  ends := h.ends
  live ho v' hr := ⟨(h.live ho v' hr).1, fun _ => (h.live ho v' hr).2⟩

theorem SettlesOr.mono {P' : View S → Prop} {E' : Failure → View S → Prop}
    (h : v.SettlesOr P E) (hP : ∀ w, P w → P' w) (hE : ∀ f w, E f w → E' f w) :
    v.SettlesOr P' E' where
  ends ho := ⟨(h.ends ho).1, fun r d => hP _ ((h.ends ho).2 r d)⟩
  live ho w hr := ⟨hP _ (h.live ho w hr).1, fun f => hE f _ ((h.live ho w hr).2 f)⟩

theorem SettlesOr.settle (h : v.SettlesOr P E) : Ensures Transfer.settle v
    (fun _ v' => v'.self.phase ≠ .failed ∧ P v') (fun f v' => E (v'.failing f) v'.givenUp) := by
  by_cases ho : v.self.isOver = true
  · exact .settle_over ho ⟨(h.ends ho).1, (h.ends ho).2 v.self.retries v.self.deadline⟩
  · have hl := h.live (by simpa using ho)
    refine .settle (fun v' hr => ⟨?_, (hl v' hr).1⟩) (fun f v' hr => (hl v' hr).2 (v'.failing f))
    obtain ⟨k, r, d, rfl⟩ := hr
    rintro hp
    exact ho (by simp [isOver, show v.self.phase = .failed from hp, Phase.isOver])

/-- Progress puts the deadline off, and nothing else. -/
theorem SettlesOr.rearmed (h : v.SettlesOr P E) (retries : Nat) (deadline : Int) :
    (v.changing fun t => { t with retries, deadline }).SettlesOr P E where
  ends ho := ⟨(h.ends ho).1, (h.ends ho).2⟩
  live ho := by
    rintro _ ⟨k, r, d, rfl⟩
    exact h.live ho _ ⟨k, r, d, rfl⟩

end View

namespace EnsuresOn

variable {n : Network} {v : View S}

/-- Handling a packet of the peer is handling it in the direction of the transfer. -/
theorem handle {packet : Packet} {Q : Bool → View S → Network → Prop}
    {E : Failure → View S → Network → Prop} (he : ∀ code message, packet ≠ .error code message)
    (read : v.self.direction = .read → EnsuresOn n (Read.handle packet) v Q E)
    (write : v.self.direction = .write → EnsuresOn n (Write.handle packet) v Q E) :
    EnsuresOn n (Transfer.handle packet) v Q E := by
  unfold Transfer.handle
  split
  next code message => exact absurd rfl (he code message)
  next =>
    apply bind
    apply self
    cases hd : v.self.direction with
    | read => exact read hd
    | write => exact write hd

/-- What is done about what has come in: nothing, if nothing has come that is of interest, and
otherwise a packet of the peer is handled. -/
theorem heed {reception : Reception} {Q : Bool → View S → Network → Prop}
    {E : Failure → View S → Network → Prop}
    (fails : ∀ f, (reception.cut Network.maxDatagram).outcome = .error f → E f v n)
    (error : ∀ code message, reception.packetFrom v.self.peer = some (.error code message) →
      E (.peer (.fromPeer code message)) v n)
    (idle : reception.packetFrom v.self.peer = none → ∀ events n',
      (∀ e ∈ events, ∃ a b c t, e = .sent a b c t ∧ b ≠ v.self.peer) → n.Used n' →
      Q false (v.doing events) n')
    (handles : ∀ packet, reception.packetFrom v.self.peer = some packet →
      (∀ code message, packet ≠ .error code message) →
      EnsuresOn n (Transfer.handle packet) v Q E) :
    EnsuresOn n (Transfer.heed reception) v Q E := by
  have quiet (h : reception.packetFrom v.self.peer = none) : Q false v n := by
    simpa using idle h [] n (by simp) .unused
  unfold Transfer.heed
  cases hc : reception.cut Network.maxDatagram with
  | nothing => exact pure (quiet (by simp [Reception.packetFrom, hc]))
  | failed errno =>
      simp only [Reception.outcome]
      split
      next f hf => exact throw (fails f (by rw [hc, Reception.outcome, hf]))
      next => exact pure (quiet (by simp [Reception.packetFrom, hc]))
      next hf => split at hf <;> cases hf
  | datagram sender bytes =>
      refine bind (self ?_)
      -- A stranger, a malformed datagram, an ERROR, and then any other packet of the peer.
      split
      next hs =>
        refine bind (rejectStranger fun events n' he hn => pure (idle ?_ events n' ?_ hn))
        · simp [Reception.packetFrom, hc, hs]
        · intro e hm
          obtain ⟨a, b, t, rfl⟩ := he e hm
          exact ⟨a, sender, b, t, rfl, hs⟩
      next hs =>
        have hs : sender = v.self.peer := by simpa using hs
        cases hp : Packet.parse bytes with
        | error malformed =>
            exact bind (log (pure (quiet (by
              simp [Reception.packetFrom, hc, hp, Except.toOption]))))
        | ok packet =>
            have hf : reception.packetFrom v.self.peer = some packet := by
              simp [Reception.packetFrom, hc, hs, hp, Except.toOption]
            refine bind (log ?_)
            by_cases he : ∃ code message, packet = .error code message
            · obtain ⟨code, message, rfl⟩ := he
              exact throw (error code message hf)
            · exact handles packet hf fun c m h => he ⟨c, m, h⟩

/-- What a transfer goes on with when a receive has ended: it gives up, or nothing of interest has
come, or it handles a packet of its peer. -/
theorem resume {P : View S → Prop} {E : Failure → View S → Network → Prop} {reception : Reception}
    (fails : (∀ packet, reception.packetFrom v.self.peer = some packet →
      ∃ code message, packet = .error code message) → ∀ f, E f v.givenUp n)
    (idle : reception.packetFrom v.self.peer = none → ∀ events,
      (∀ e ∈ events, ∃ a b c t, e = .sent a b c t ∧ b ≠ v.self.peer) →
      (v.doing events).SettlesOr P fun f w => ∀ n', E f w n')
    (handles : ∀ packet, reception.packetFrom v.self.peer = some packet →
      (∀ code message, packet ≠ .error code message) →
      EnsuresOn n (Transfer.handle packet) v (fun _ w _ => w.SettlesOr P fun f w => ∀ n', E f w n')
        (fun f w n' => E (w.failing f) w.givenUp n')) :
    EnsuresOn n (Transfer.resume reception) v (fun _ w _ => P w) E := by
  rw [resume_eq]
  have settles {w : View S} (h : w.SettlesOr P fun f w => ∀ n', E f w n') (n' : Network) :
      EnsuresOn n' Transfer.settle w (fun _ w _ => w.self.phase ≠ .failed ∧ P w)
        (fun f w n' => E (w.failing f) w.givenUp n') :=
    mono h.settle.on (fun _ _ _ => id) fun _ _ n' h => h n'
  refine guarded (bind (bind (heed (fun f hf => ?_) ?_ (fun hn events n' he _ => ?_) ?_)))
  · exact fails (fun packet hp => by simp [Reception.packetFrom_of_failed hf] at hp) _
  · intro code message hp
    refine fails (fun packet hp' => ⟨code, message, ?_⟩) _
    exact Option.some.inj (hp'.symm.trans hp)
  · exact pure (settles (idle hn events he) n')
  · intro packet hp hne
    refine mono (handles packet hp hne) (fun moved w n' h => ?_) (fun _ _ _ => id)
    cases moved with
    | false => exact pure (settles h n')
    | true => exact bind (bind (update (rearm (pure (settles (h.rearmed 0 _) n')))))

end EnsuresOn

namespace Ensures

variable {v : View S} {P : View S → Prop} {E : Failure → View S → Prop}

/-- A transfer that begins does so in its direction, and then it settles. -/
theorem begin_or (h : Ensures Transfer.start v (fun _ w => w.SettlesOr P E)
      (fun f w => E (w.failing f) w.givenUp)) :
    Ensures Transfer.begin v (fun _ => P) E := by
  refine .onEvery fun _ => .guarded (Ensures.on (bind (mono h (fun _ w hw => ?_) fun _ _ => id)))
  exact bind (rearm (hw.rearmed w.self.retries _).settle)

theorem begin
    (h : Ensures Transfer.start v (fun _ v' => v'.Settles P) (fun _ v' => P v'.givenUp)) :
    Ensures Transfer.begin v (fun _ => P) (fun _ => P) :=
  begin_or (mono h (fun _ _ h => h.settlesOr) fun _ _ => id)

theorem handle {packet : Packet} {Q : Bool → View S → Prop}
    (he : ∀ code message, packet ≠ .error code message)
    (read : v.self.direction = .read → Ensures (Read.handle packet) v Q E)
    (write : v.self.direction = .write → Ensures (Write.handle packet) v Q E) :
    Ensures (Transfer.handle packet) v Q E :=
  .onEvery fun _ => .handle he (fun hd => (read hd).on) fun hd => (write hd).on

theorem heed {reception : Reception} {Q : Bool → View S → Prop}
    (fails : ∀ f, (reception.cut Network.maxDatagram).outcome = .error f → E f v)
    (error : ∀ code message, reception.packetFrom v.self.peer = some (.error code message) →
      E (.peer (.fromPeer code message)) v)
    (idle : reception.packetFrom v.self.peer = none → ∀ events,
      (∀ e ∈ events, ∃ a b c t, e = .sent a b c t ∧ b ≠ v.self.peer) → Q false (v.doing events))
    (handles : ∀ packet, reception.packetFrom v.self.peer = some packet →
      (∀ code message, packet ≠ .error code message) → Ensures (Transfer.handle packet) v Q E) :
    Ensures (Transfer.heed reception) v Q E :=
  .onEvery fun _ => .heed fails error (fun hn events _ he _ => idle hn events he)
    fun packet hp hne => (handles packet hp hne).on

theorem resume {reception : Reception}
    (fails : (∀ packet, reception.packetFrom v.self.peer = some packet →
      ∃ code message, packet = .error code message) → P v.givenUp)
    (idle : reception.packetFrom v.self.peer = none → ∀ events,
      (∀ e ∈ events, ∃ a b c t, e = .sent a b c t ∧ b ≠ v.self.peer) → (v.doing events).Settles P)
    (handles : ∀ packet, reception.packetFrom v.self.peer = some packet →
      (∀ code message, packet ≠ .error code message) →
      Ensures (Transfer.handle packet) v (fun _ v' => v'.Settles P) (fun _ v' => P v'.givenUp)) :
    Ensures (Transfer.resume reception) v (fun _ => P) (fun _ => P) := by
  refine .onEvery fun _ => .resume (fun he _ => fails he) (fun hn events he => ?_)
    fun packet hp hne => (mono (handles packet hp hne) (fun _ w h => ?_) fun _ _ => id).on
  · exact (idle hn events he).settlesOr.mono (fun _ => id) fun _ _ h _ => h
  · exact h.settlesOr.mono (fun _ => id) fun _ _ h _ => h

end Ensures

/-! ## Turns -/

/-- The scene after a reaction, whether it has failed or not. -/
def Scene.after (s : Scene S) (m : Reaction S Unit) : Scene S :=
  match perform m s.self s.world with
  | (_, self, world) => { self, world }

/-- How a reaction ends. -/
def Scene.resultOf (s : Scene S) (m : Reaction S Unit) : Except Failure Unit :=
  (perform m s.self s.world).1

theorem Scene.after_of_ok {m : Reaction S Unit} {s s' : Scene S} {u : Unit}
    (h : m s = .ok u s') : s.resultOf m = .ok () ∧ s.after m = s' := by
  unfold resultOf after perform
  rw [show m { self := s.self, world := s.world } = _ from h]
  exact ⟨rfl, rfl⟩

theorem Scene.after_of_error {m : Reaction S Unit} {s s' : Scene S} {f : Failure}
    (h : m s = .error f s') : s.resultOf m = .error f ∧ s.after m = s' := by
  unfold resultOf after perform
  rw [show m { self := s.self, world := s.world } = _ from h]
  exact ⟨rfl, rfl⟩

/-- What a reaction ensures holds of its result and of what there is afterwards. -/
theorem EnsuresOn.outcome {m : Reaction S Unit} {s : Scene S}
    {P : Except Failure Unit → View S → Network → Prop}
    (h : EnsuresOn s.world.network m s.view (fun _ => P (.ok ())) (fun f => P (.error f))) :
    P (s.resultOf m) (s.after m).view (s.after m).world.network := by
  have hm := h s rfl rfl
  unfold Scene.resultOf Scene.after perform
  cases hr : m { self := s.self, world := s.world } with
  | ok a s' =>
      rw [show m s = .ok a s' from hr] at hm
      exact hm
  | error f s' =>
      rw [show m s = .error f s' from hr] at hm
      exact hm

theorem Ensures.outcome {m : Reaction S Unit} {s : Scene S}
    {P : Except Failure Unit → View S → Prop}
    (h : Ensures m s.view (fun _ => P (.ok ())) (fun f => P (.error f))) :
    P (s.resultOf m) (s.after m).view :=
  EnsuresOn.outcome (P := fun result w _ => P result w) h.on

/-- What a reaction ensures in either case holds of the view afterwards. -/
theorem Ensures.after {m : Reaction S Unit} {s : Scene S} {P : View S → Prop}
    (h : Ensures m s.view (fun _ => P) (fun _ => P)) : P (s.after m).view :=
  outcome (P := fun _ => P) h

/-! ### What a turn leaves alone -/

theorem frame_after {m : Reaction S Unit} (h : Steady m) (s : Scene S) :
    (s.after m).frame = s.frame := by
  cases hr : m s with
  | ok u t =>
      rw [(Scene.after_of_ok hr).2]
      exact h.of_ok hr
  | error f t =>
      rw [(Scene.after_of_error hr).2]
      exact h.of_error hr

/-- What a reaction does in a scene, oldest first. -/
def Scene.deedsOf (s : Scene S) (m : Reaction S Unit) : List Event :=
  (s.after m).world.deeds.drop s.world.deeds.length

theorem Scene.deedsOf_eq {s : Scene S} {m : Reaction S Unit} {events : List Event}
    (h : (s.after m).view.deeds = s.view.deeds ++ events) : s.deedsOf m = events := by
  have h : (s.after m).world.deeds = s.world.deeds ++ events := h
  rw [deedsOf, h, List.drop_left]

/-- Whether a transfer has begun and is not over, so that it waits in a receive. -/
def isWaiting (transfer : Transfer S) : Bool := transfer.phase != .initial && !transfer.isOver

/-- A transfer waits neither before it begins nor when it is over. -/
theorem not_isWaiting {t : Transfer S} {phase : Phase} (h : t.phase = phase)
    (hp : phase = .initial ∨ phase.isOver = true) : ¬ t.isWaiting = true := by
  subst h
  rcases hp with hp | hp <;> simp [isWaiting, isOver, hp]

/-- One turn of a transfer: the scene before, how its receive has ended if it has waited in one,
what it does, and the scene afterwards. -/
inductive Turn : Scene S → Option Reception → List Event → Scene S → Prop
  | begins {s : Scene S} : s.self.phase = .initial → Turn s none (s.deedsOf begin) (s.after begin)
  | resumes {s : Scene S} (reception : Reception) : s.self.isWaiting = true →
      Turn s (some reception) (s.deedsOf (resume reception)) (s.after (resume reception))
  /-- In between anything happens to its world, but nobody touches the storage. -/
  | meanwhile {s : Scene S} (world : World S) : world.store = s.world.store →
      Turn s none [] { s with world }

/-! ## Sessions -/

/-- A transfer from its beginning: what it has done so far, how its last turn has ended, and the
scene after it. It goes on as long as no turn has failed and it is not over. -/
inductive Session (start : Scene S) : List Event → Except Failure Unit → Scene S → Prop
  | begins : Session start (start.deedsOf begin) (start.resultOf begin) (start.after begin)
  | resumes {events : List Event} {s : Scene S} (reception : Reception) :
      Session start events (.ok ()) s → s.self.isOver = false →
      Session start (events ++ s.deedsOf (resume reception)) (s.resultOf (resume reception))
        (s.after (resume reception))
  /-- In between anything happens to its world. -/
  | meanwhile {events : List Event} {result : Except Failure Unit} {s : Scene S}
      (world : World S) : Session start events result s →
      Session start events result { s with world }

end Transfer

end Tftp
