import Mathlib.Logic.Relation
import Tftp.Proofs.Contracts
import Tftp.Proofs.Turn

/-!
# What reactions are made of

Whatever a transfer does, it does in small steps: it writes a line to the log, hands a packet to the
network, calls its storage, or changes a few of its own fields. `Step` lists them all, with what is
put on record by each. A step may settle the terms or move the deadline only where it is licensed to;
that is how the beginning of a transfer, the handling of a packet and the settling differ.

`Goes` says of a reaction in a scene that what it does is a number of such steps, and that it fails
only for certain reasons (`Cause`). There is one rule for each way to build a reaction and one lemma
for each reaction, and from then on a fact about all reactions is an induction over steps.
-/

namespace Tftp

/-- What goes wrong on the network has a message only. -/
theorem Network.perform_eq_error {operation : Operation} {context : Bytes} {f : Failure}
    {network network' : Network}
    (h : Network.perform operation context network = .error f network') :
    ∃ message, f = .other message := by
  unfold Network.perform at h
  simp only [bind, EStateM.bind] at h
  cases hr : Network.ask operation network with
  | error f' network'' => cases hr
  | ok errno? network'' =>
      rw [hr] at h
      cases errno? with
      | none => cases h
      | some errno =>
          cases h
          exact ⟨_, rfl⟩

theorem Network.send_eq_error {bytes : Bytes} {f : Failure} {network network' : Network}
    (h : Network.send bytes network = .error f network') : ∃ message, f = .other message := by
  unfold Network.send at h
  simp only [bind, EStateM.bind] at h
  cases hr : Network.perform .send (ascii "Failed to send data") network with
  | error f' network'' =>
      rw [hr] at h
      cases h
      exact perform_eq_error hr
  | ok u network'' =>
      rw [hr] at h
      dsimp only at h
      split at h
      · cases h
        exact ⟨_, rfl⟩
      · cases h

theorem Attempt.makeAll_eq_error {faults : List Fault} {f : Failure}
    (h : (makeAll faults).1 = .error f) : ∃ message, f = .other message := by
  induction faults using makeAll.induct with
  | case1 faults rest hm =>
      rw [makeAll] at h
      split at h <;> simp_all
  | case2 faults errno rest hm =>
      rw [makeAll] at h
      split at h <;> simp_all
      exact ⟨_, h.symm⟩
  | case3 faults errno rest hm _ hn ih =>
      rw [makeAll] at h
      split at h <;> simp_all
  | case4 faults errno rest hm _ hn =>
      rw [makeAll] at h
      split at h <;> simp_all
      exact ⟨_, h.symm⟩

theorem Network.beginReceive_eq (network : Network) : Network.beginReceive network =
    match Attempt.makeAll network.faults with
    | (.ok (), faults) => .ok () { network with faults }
    | (.error f, faults) => .error f { network with faults } := by
  have hget : (get : NetworkM Network) network = .ok network network := rfl
  refine (bind_of_ok hget).trans ?_
  obtain ⟨result, faults⟩ := Attempt.makeAll network.faults
  cases result <;> rfl

theorem Network.beginReceive_eq_error {f : Failure} {network network' : Network}
    (h : Network.beginReceive network = .error f network') : ∃ message, f = .other message := by
  rw [beginReceive_eq] at h
  split at h
  · cases h
  next f faults hm =>
    cases h
    exact @Attempt.makeAll_eq_error network.faults f (by rw [hm])

/-- A negotiation that fails has a report for the peer. -/
theorem negotiate_eq_error {requested : Options} {config : Config} {direction : Direction}
    {fileSize : Option UInt64} {f : Failure}
    (h : negotiate requested config direction fileSize = .error f) : ∃ r, f = .transfer r := by
  unfold negotiate at h
  simp only [bind, Except.bind] at h
  split at h
  next f' hs =>
    cases h
    unfold Terms.withBlockSize at hs
    split at hs
    · split at hs <;> cases hs
      exact ⟨_, rfl⟩
    · cases hs
  next sized _ =>
    split at h
    next f' ht =>
      cases h
      unfold Terms.withTimeout at ht
      split at ht
      · split at ht <;> cases ht
        exact ⟨_, rfl⟩
      · cases ht
    next => cases h

/-- Whether a packet is one of those that a transfer goes on with. -/
def Packet.isReply : Packet → Bool
  | data .. | ack _ | oack _ => true
  | _ => false

/-- The given peer gives its transfer up. -/
def Reception.GivesUp (peer : Address) (reception : Reception) : Prop :=
  ∃ code message, reception.packetFrom peer = some (.error code message)

/-- What somebody is told whose transfer this is not. -/
def Packet.turnedAway : Packet := .error Report.unknownTransferId.code Report.unknownTransferId.message

namespace Transfer

variable {S : Storage}

/-! ## Steps -/

/-- Whether a line says that a packet is going to be sent. -/
def announces : Notice → Bool
  | .sending .. => true
  | _ => false

/-- What a transfer has to tell its peer: blocks of a file that is read, acknowledgements of one that
is written, and the options that it has agreed to, if it is to acknowledge them. -/
def Owes (t : Transfer S) : Packet → Prop
  | .data _ payload => t.direction = .read ∧ payload.length ≤ t.terms.blockSize.toNat
  | .ack _ => t.direction = .write
  | .oack agreed => t.terms.oackRequired = true ∧ agreed = t.terms.oack
  | _ => False

theorem Owes.isReply {t : Transfer S} {packet : Packet} (h : Owes t packet) :
    packet.isReply = true := by
  cases packet with
  | data | ack | oack => rfl
  | _ => cases h

/-- What a transfer may say to whom. -/
inductive Says (t : Transfer S) : Packet → Address → Prop
  | reply {packet : Packet} : Owes t packet → Says t packet t.peer
  | again {packet : Packet} : t.lastPacket = some packet → Says t packet t.peer
  | stranger {a : Address} : a ≠ t.peer → Says t .turnedAway a

/-- The terms of a transfer have been negotiated. -/
def HasAgreed (t : Transfer S) : Prop :=
  ∃ fileSize, negotiate t.request.options t.config t.direction fileSize = .ok t.terms

/-- What the storage reports when a transfer calls it, which is always about the file of the request. It
is read or it is written, and it is opened for writing under the terms that have been negotiated. -/
inductive Asks (t : Transfer S) : List Event → Prop
  | openForReading (state : S.State) : t.direction = .read →
      Asks t (S.openForReading t.peer t.request.filename state).events
  | openForWriting (state : S.State) : t.direction = .write → HasAgreed t →
      Asks t (S.openForWriting t.peer t.request.filename t.terms.transferSize state).events
  | read (n : Nat) (file : S.State × S.Reader) : t.direction = .read →
      Asks t (S.read n file).events
  | call (call : Storage.Call) (file : S.State × S.Writer) : Asks t (call.effect file).events

theorem Asks.reports {t : Transfer S} {events : List Event} (h : Asks t events) :
    S.Reports events := by
  cases h with
  | openForReading state => exact .openForReading _ _ state
  | openForWriting state => exact .openForWriting _ _ _ state
  | read n file => exact .read n file
  | call call file => exact .call call file

/-- The scene with one more event on record. -/
def Scene.put (s : Scene S) (event : Event) : Scene S :=
  { s with world := { s.world with trace := event :: s.world.trace } }

/-- One of the things out of which reactions are made. The terms are settled where that is licensed,
and so is the time of the next retransmission. -/
inductive Step (terms time : Prop) : Scene S → Scene S → Prop
  | log (s : Scene S) (notice : Notice) : announces notice = false →
      Step terms time s (s.put (.logged notice))
  | announce (s : Scene S) {packet : Packet} {a : Address} : Says s.self packet a →
      Step terms time s (s.put (.logged (.sending packet a)))
  | send (s : Scene S) {packet : Packet} {a : Address} (network : Network) : Says s.self packet a →
      Step terms time s { s with world := { s.world with
        network, trace :=
          .sent s.self.socket.address a packet.encode s.world.clock :: s.world.trace } }
  | network (s : Scene S) (network : Network) :
      Step terms time s { s with world := { s.world with network } }
  | store (s : Scene S) (store : S.State) (reader : Option S.Reader) (writer : Option S.Writer)
      {events : List Event} : Asks s.self events →
      Step terms time s {
        self := { s.self with reader, writer }
        world := { s.world with store, trace := events.reverse ++ s.world.trace } }
  | hold (s : Scene S) (reader : Option S.Reader) (writer : Option S.Writer) :
      Step terms time s { s with self := { s.self with reader, writer } }
  | pass (s : Scene S) {phase : Phase} : phase ≠ .failed →
      Step terms time s { s with self := { s.self with phase } }
  | count (s : Scene S) (block : UInt16) :
      Step terms time s { s with self := { s.self with block } }
  | keep (s : Scene S) {packet : Packet} : Owes s.self packet →
      Step terms time s { s with self := { s.self with lastPacket := some packet } }
  | agree (s : Scene S) (fileSize : Option UInt64) (terms' : Terms) : terms →
      negotiate s.self.request.options s.self.config s.self.direction fileSize = .ok terms' →
      Step terms time s { s with self := { s.self with terms := terms' } }
  | wait (s : Scene S) (retries : Nat) (deadline : Int) : time →
      Step terms time s { s with self := { s.self with retries, deadline } }

/-- Any number of steps. -/
abbrev Steps (terms time : Prop) : Scene S → Scene S → Prop :=
  Relation.ReflTransGen (Step terms time)

/-- Why a transfer may fail on its own: it has a report for its peer, the network has failed, or a
call for the file that is being received has. -/
inductive Cause (S : Storage) : Failure → Prop
  | report (r : Report) : Cause S (.transfer r)
  | network (message : Bytes) : Cause S (.other message)
  | call {call : Storage.Call} {file : S.State × S.Writer} {f : Failure} :
      (call.effect file).result = .error f → Cause S f

/-- In a scene, a reaction consists of steps, and if it fails, it has a cause. -/
def Goes {α : Type} (terms time : Prop) (m : Reaction S α) (s : Scene S) : Prop :=
  match m s with
  | .ok _ s' => Steps terms time s s'
  | .error f s' => Steps terms time s s' ∧ Cause S f

theorem Steps.mono {terms time terms' time' : Prop} {s s' : Scene S} (ht : terms → terms')
    (hw : time → time') (h : Steps terms time s s') : Steps terms' time' s s' := by
  refine Relation.ReflTransGen.mono ?_ _ _ h
  rintro _ _ (⟨notice, hn⟩ | hs | ⟨network, hs⟩ | network | ⟨store, reader, writer, hr⟩ |
    ⟨reader, writer⟩ | hp | block | hk | ⟨size, t, h, hn⟩ | ⟨r, d, h⟩)
  · exact .log _ notice hn
  · exact .announce _ hs
  · exact .send _ network hs
  · exact .network _ network
  · exact .store _ store reader writer hr
  · exact .hold _ reader writer
  · exact .pass _ hp
  · exact .count _ block
  · exact .keep _ hk
  · exact .agree _ size t (ht h) hn
  · exact .wait _ r d (hw h)

/-- A line that is not printed is not on record. -/
theorem log_eq (notice : Notice) (s : Scene S) : log notice s = .ok ()
    (if notice.level ≠ .debug ∨ s.world.verbose = true then s.put (.logged notice) else s) := by
  show (liftM (World.log (S := S) notice) : Reaction S Unit) s = _
  rw [liftM_eq, World.log_eq]
  by_cases h : notice.level ≠ .debug ∨ s.world.verbose = true
  · rw [if_pos h, if_pos h]
    rfl
  · rw [if_neg h, if_neg h]

/-- Logging changes nothing but the log. -/
theorem log_self {notice : Notice} {s s' : Scene S} {u : Unit} (h : log notice s = .ok u s') :
    s'.self = s.self := by
  rw [log_eq] at h
  cases h
  split <;> rfl

/-! ## What the parts of a reaction leave of the transfer -/

section

variable {α : Type} {s s' : Scene S} {u : Unit}

theorem worldAct_self {m : Act S α} {a : α} (h : (liftM m : Reaction S α) s = .ok a s') :
    s'.self = s.self := by
  rw [liftM_eq] at h
  split at h <;> cases h
  rfl

theorem onStore_self {effect : Effect S.State α} {a : α}
    (h : (liftM (World.onStore (S := S) effect) : Reaction S α) s = .ok a s') :
    s'.self = s.self := worldAct_self h

theorem transmit_self {packet : Packet} (h : transmit packet s = .ok u s') : s'.self = s.self := by
  have h : (log (.sending packet s.self.peer) >>= fun _ =>
      liftM (World.send (S := S) s.self.socket s.self.peer packet.encode)) s = .ok u s' := h
  obtain ⟨_, t, hl, h⟩ := of_bind_eq_ok h
  exact (worldAct_self h).trans (log_self hl)

theorem settleTerms_self {fileSize : Option UInt64} (h : settleTerms fileSize s = .ok u s') :
    ∃ terms, negotiate s.self.request.options s.self.config s.self.direction fileSize = .ok terms ∧
      s'.self = { s.self with terms } := by
  unfold settleTerms at h
  obtain ⟨t, _, ⟨⟩, h⟩ := of_bind_eq_ok h
  cases hn : negotiate s.self.request.options s.self.config s.self.direction fileSize with
  | error f =>
      rw [hn] at h
      cases h
  | ok terms =>
      rw [hn] at h
      obtain ⟨_, t, hl, h⟩ := of_bind_eq_ok h
      cases h
      exact ⟨terms, rfl, congrArg (fun t : Transfer S => { t with terms }) (log_self hl)⟩

theorem readSome_self {n : Nat} {bytes : Bytes} (h : Read.readSome n s = .ok bytes s') :
    bytes.length ≤ n ∧ ∃ reader, s'.self = { s.self with reader } := by
  unfold Read.readSome at h
  split at h
  · cases h
    exact ⟨Nat.zero_le n, _, rfl⟩
  · dsimp only at h
    split at h <;> cases h
    exact ⟨List.length_take_le .., _, rfl⟩

/-- A block is never longer than it is to be. -/
theorem fill_self {n : Nat} {chunks : List Bytes} {bytes : Bytes}
    (h : Read.fill n chunks s = .ok bytes s') :
    bytes.length ≤ chunks.flatten.length + n ∧ ∃ reader, s'.self = { s.self with reader } := by
  induction n, chunks using Read.fill.induct generalizing s with
  | case1 chunks =>
      rw [Read.fill] at h
      cases h
      exact ⟨by simp, _, rfl⟩
  | case2 n chunks hn ih =>
      rw [Read.fill, if_neg hn] at h
      obtain ⟨bytes', s₁, h₁, h⟩ := of_bind_eq_ok h
      obtain ⟨hle, reader, hs⟩ := readSome_self h₁
      split at h
      next =>
        cases h
        exact ⟨by simp, reader, hs⟩
      next hb =>
        obtain ⟨hle', reader', hs'⟩ := ih bytes' hb h
        rw [List.flatten_cons, List.length_append] at hle'
        exact ⟨by omega, reader', by rw [hs', hs]⟩

theorem store_self {effect : Effect (S.State × S.Writer) Unit}
    (h : Write.store effect s = .ok u s') : ∃ writer, s'.self = { s.self with writer } := by
  unfold Write.store at h
  cases hr : Write.onWriter effect s with
  | error f t =>
      rw [tryCatch_of_error hr] at h
      cases h
  | ok _ t =>
      rw [tryCatch_of_ok hr] at h
      cases h
      unfold Write.onWriter at hr
      split at hr
      · cases hr
        exact ⟨s.self.writer, rfl⟩
      · dsimp only at hr
        split at hr <;> cases hr
        exact ⟨_, rfl⟩

end

namespace Goes

variable {α β : Type} {terms time : Prop} {s : Scene S}

/-! ## Rules for building reactions -/

theorem steps_ok {m : Reaction S α} (h : Goes terms time m s) {a : α} {s' : Scene S}
    (hr : m s = .ok a s') : Steps terms time s s' := by
  unfold Goes at h
  rwa [hr] at h

theorem steps_error {m : Reaction S α} (h : Goes terms time m s) {f : Failure} {s' : Scene S}
    (hr : m s = .error f s') : Steps terms time s s' ∧ Cause S f := by
  unfold Goes at h
  rwa [hr] at h

theorem pure (a : α) : Goes terms time (Pure.pure a : Reaction S α) s := .refl

theorem throw {f : Failure} (h : Cause S f) :
    Goes terms time (MonadExcept.throw f : Reaction S α) s := ⟨.refl, h⟩

/-- What follows may depend on what has happened so far. -/
theorem bind_of {m : Reaction S α} {f : α → Reaction S β} (hm : Goes terms time m s)
    (hf : ∀ a s', m s = .ok a s' → Goes terms time (f a) s') : Goes terms time (m >>= f) s := by
  unfold Goes
  simp only [Bind.bind, EStateM.bind]
  cases hr : m s with
  | error e s' => exact hm.steps_error hr
  | ok a s' =>
      have hs := hm.steps_ok hr
      have hf := hf a s' hr
      cases hr' : f a s' with
      | ok b s'' =>
          simp only [hr']
          exact hs.trans (hf.steps_ok hr')
      | error e s'' =>
          simp only [hr']
          exact ⟨hs.trans (hf.steps_error hr').1, (hf.steps_error hr').2⟩

theorem bind {m : Reaction S α} {f : α → Reaction S β} (hm : Goes terms time m s)
    (hf : ∀ a s', Goes terms time (f a) s') : Goes terms time (m >>= f) s :=
  hm.bind_of fun a s' _ => hf a s'

/-- Nothing follows a failure. -/
theorem throw_bind {f : Failure} {k : α → Reaction S β} (h : Cause S f) :
    Goes terms time (MonadExcept.throw f >>= k) s :=
  bind_of (throw h) fun _ _ hr => nomatch hr

theorem tryCatch {m : Reaction S α} {handler : Failure → Reaction S α}
    (hm : Goes terms time m s) (hh : ∀ f s', Cause S f → Goes terms time (handler f) s') :
    Goes terms time (MonadExcept.tryCatch m handler) s := by
  unfold Goes
  show match EStateM.tryCatch m handler s with
    | .ok _ s' => Steps terms time s s' | .error f s' => Steps terms time s s' ∧ Cause S f
  unfold EStateM.tryCatch
  cases hr : m s with
  | ok a s' => exact hm.steps_ok hr
  | error f s' =>
      obtain ⟨hs, hc⟩ := hm.steps_error hr
      have hh := hh f s' hc
      show match handler f s' with
        | .ok _ t => Steps terms time s t | .error f t => Steps terms time s t ∧ Cause S f
      cases hr' : handler f s' with
      | ok a t => exact hs.trans (hh.steps_ok hr')
      | error e t => exact ⟨hs.trans (hh.steps_error hr').1, (hh.steps_error hr').2⟩

/-- Looking at the scene is no step. -/
theorem get_bind {f : Scene S → Reaction S α} (h : Goes terms time (f s) s) :
    Goes terms time (MonadState.get >>= f) s := h

theorem self_bind {f : Transfer S → Reaction S α} (h : Goes terms time (f s.self) s) :
    Goes terms time (Transfer.self >>= f) s := h

theorem now_bind {f : Int → Reaction S α} (h : Goes terms time (f s.world.clock) s) :
    Goes terms time (Transfer.now >>= f) s := h

theorem update {f : Transfer S → Transfer S}
    (h : Step terms time s { s with self := f s.self }) :
    Goes terms time (Transfer.update f) s := .single h

theorem pass (phase : Phase) (h : phase ≠ .failed) :
    Goes terms time (Transfer.update fun t => { t with phase }) s := update (.pass s h)

/-! ## The log and the network -/

theorem log_of {notice : Notice} (h : Step terms time s (s.put (.logged notice))) :
    Goes terms time (Transfer.log notice) s := by
  unfold Goes
  rw [log_eq]
  dsimp only
  split
  · exact .single h
  · exact .refl

theorem log {notice : Notice} (h : announces notice = false) :
    Goes terms time (Transfer.log notice) s := log_of (.log s notice h)

theorem worldSend {packet : Packet} {a : Address} (h : Says s.self packet a) :
    Goes terms time (liftM (World.send (S := S) s.self.socket a packet.encode) : Reaction S Unit)
      s := by
  unfold Goes
  rw [liftM_eq, World.send_eq]
  cases hr : Network.send packet.encode s.world.network with
  | ok _ network => exact .single (.send s network h)
  | error f network =>
      obtain ⟨message, rfl⟩ := Network.send_eq_error hr
      exact ⟨.single (.network s network), .network message⟩

/-- A packet is handed to the network after a line has been written to the log. -/
theorem transmitTo {packet : Packet} {a : Address} (h : Says s.self packet a) :
    Goes terms time (do
      Transfer.log (.sending packet a)
      liftM (World.send (S := S) s.self.socket a packet.encode) : Reaction S Unit) s := by
  apply bind_of
  · exact log_of (.announce s h)
  · intro _ s' hl
    rw [← log_self hl] at h ⊢
    exact worldSend h

theorem transmit {packet : Packet} (h : Says s.self packet s.self.peer) :
    Goes terms time (Transfer.transmit packet) s := transmitTo h

theorem send {packet : Packet} (h : Owes s.self packet) :
    Goes terms time (Transfer.send packet) s := by
  apply bind_of (transmit (.reply h))
  intro _ s' ht
  rw [← transmit_self ht] at h
  exact update (.keep s' h)

theorem resend : Goes terms time Transfer.resend s := by
  apply self_bind
  cases hl : s.self.lastPacket with
  | none => exact pure _
  | some packet => exact transmit (.again hl)

theorem onNetwork {operation : NetworkM α}
    (h : ∀ network f network', operation network = .error f network' → Cause S f) :
    Goes terms time (liftM (World.onNetwork (S := S) operation) : Reaction S α) s := by
  unfold Goes
  rw [liftM_eq, World.onNetwork]
  cases hr : operation s.world.network with
  | ok a network => exact .single (.network s network)
  | error f network => exact ⟨.single (.network s network), h _ _ _ hr⟩

theorem rearm (h : time) : Goes terms time Transfer.rearm s :=
  now_bind (update (.wait s _ _ h))

theorem settleTerms {fileSize : Option UInt64} (h : terms) :
    Goes terms time (Transfer.settleTerms fileSize) s := by
  apply self_bind
  cases hn : negotiate s.self.request.options s.self.config s.self.direction fileSize with
  | error f =>
      obtain ⟨r, rfl⟩ := negotiate_eq_error hn
      exact throw (.report r)
  | ok t =>
      apply bind_of (log rfl)
      intro _ s' hl
      rw [← log_self hl] at hn
      exact update (.agree s' fileSize t h hn)

/-! ## The storage -/

theorem onStore {σ : Type} {effect : Effect S.State σ}
    (hr : Asks s.self (effect s.world.store).events)
    (he : ∀ f, (effect s.world.store).result = .error f → Cause S f) :
    Goes terms time (liftM (World.onStore (S := S) effect) : Reaction S σ) s := by
  have step : Step terms time s _ := .store s (effect s.world.store).state
    s.self.reader s.self.writer hr
  unfold Goes
  rw [liftM_eq, World.onStore]
  cases hres : (effect s.world.store).result with
  | ok a => exact .single step
  | error f => exact ⟨.single step, he f hres⟩

theorem source (hd : s.self.direction = .read) : Goes terms time
    (liftM (World.onStore (S.source s.self.peer s.self.request.filename)) : Reaction S _) s := by
  refine onStore ?_ ?_
  · exact .openForReading s.world.store hd
  intro f hf
  unfold Storage.source at hf
  dsimp only at hf
  split at hf <;> cases hf
  · exact .report _
  · exact .report _

theorem sink (hd : s.self.direction = .write) (ha : HasAgreed s.self) :
    Goes terms time (liftM (World.onStore
      (S.sink s.self.peer s.self.request.filename s.self.terms.transferSize)) : Reaction S _) s := by
  refine onStore ?_ ?_
  · exact .openForWriting s.world.store hd ha
  intro f hf
  unfold Storage.sink at hf
  dsimp only at hf
  split at hf <;> cases hf
  · exact .report _
  · exact .report _

theorem readSome (hd : s.self.direction = .read) (n : Nat) :
    Goes terms time (Read.readSome n) s := by
  unfold Goes Read.readSome
  cases hr : s.self.reader with
  | none => exact .refl
  | some reader =>
      have step : Step terms time s _ := .store s
        (S.read n (s.world.store, reader)).state.1 (S.read n (s.world.store, reader)).state.2
        s.self.writer (.read n (s.world.store, reader) hd)
      dsimp only
      cases (S.read n (s.world.store, reader)).result with
      | ok bytes => exact .single step
      | error f => exact ⟨.single step, .report _⟩

theorem fill (hd : s.self.direction = .read) (n : Nat) (chunks : List Bytes) :
    Goes terms time (Read.fill n chunks) s := by
  induction n, chunks using Read.fill.induct generalizing s with
  | case1 chunks =>
      rw [Read.fill]
      exact pure _
  | case2 n chunks hn ih =>
      rw [Read.fill, if_neg hn]
      apply bind_of (readSome hd n)
      intro bytes s' hr
      obtain ⟨-, reader, hs⟩ := readSome_self hr
      split
      next => exact pure _
      next hb => exact ih bytes hb (by rw [hs]; exact hd)

theorem onCall (call : Storage.Call) :
    Goes terms time (Write.onWriter (S := S) call.effect) s := by
  unfold Goes Write.onWriter
  cases hw : s.self.writer with
  | none => exact .refl
  | some writer =>
      have step : Step terms time s _ := .store s
        (call.effect (s.world.store, writer)).state.1 s.self.reader
        (call.effect (s.world.store, writer)).state.2 (.call call (s.world.store, writer))
      dsimp only
      cases hr : (call.effect (s.world.store, writer)).result with
      | ok _ => exact .single step
      | error f => exact ⟨.single step, .call hr⟩

/-- What has a cause still has one when it is passed on. -/
theorem store (call : Storage.Call) : Goes terms time (Write.store (S := S) call.effect) s := by
  apply tryCatch (onCall call)
  intro f s' hf
  apply throw
  unfold Write.storing
  split
  · exact hf
  · exact hf
  · exact .report _

/-! ## The two directions -/

theorem sendNextBlock (hd : s.self.direction = .read) :
    Goes terms time (Read.sendNextBlock (S := S)) s := by
  apply self_bind
  apply bind_of (fill hd _ [])
  intro payload s' hf
  obtain ⟨hle, reader, hs⟩ := fill_self hf
  have hle : payload.length ≤ s.self.terms.blockSize.toNat := by simpa using hle
  apply bind_of (update (.count s' _))
  rintro _ _ ⟨⟩
  apply self_bind
  apply bind (send ?_)
  · intro _ s'
    apply pass
    split <;> exact nofun
  · show s'.self.direction = .read ∧ payload.length ≤ s'.self.terms.blockSize.toNat
    rw [hs]
    exact ⟨hd, hle⟩

/-- The options are acknowledged, or else the first block is sent. -/
theorem readAnswer (hd : s.self.direction = .read) :
    Goes terms time (Read.answer (S := S) s.self.terms) s := by
  unfold Read.answer
  split
  next ho =>
    apply bind_of (update (.count s _))
    rintro _ _ ⟨⟩
    refine bind (send ?_) fun _ s' => pass .waitingAfterOack nofun
    exact ⟨ho, rfl⟩
  next => exact sendNextBlock hd

/-- What is left to do when the terms are settled. -/
theorem readFirst (hd : s.self.direction = .read) {notice : Notice}
    (hn : announces notice = false) : Goes terms time (do
      Transfer.log (S := S) notice
      Read.answer (← Transfer.self).terms) s := by
  apply bind_of (log hn)
  intro _ s₁ hl
  rw [← log_self hl] at hd
  apply self_bind
  exact readAnswer hd

theorem readStart (h : terms) (hd : s.self.direction = .read) :
    Goes terms time (Read.start (S := S)) s := by
  rw [Read.start_eq]
  apply self_bind
  apply bind_of (source hd)
  rintro ⟨reader, fileSize⟩ s₁ h₁
  rw [← onStore_self h₁] at hd
  apply bind_of (update (.hold s₁ _ _))
  rintro _ _ ⟨⟩
  apply bind_of (settleTerms h)
  intro _ s₂ h₂
  obtain ⟨terms', -, h₂⟩ := settleTerms_self h₂
  exact readFirst (by rw [h₂]; exact hd) rfl

/-- The options are acknowledged, or else the request is. -/
theorem writeAnswer (hd : s.self.direction = .write) :
    Goes terms time (Write.answer (S := S) s.self.terms) s := by
  refine bind (send ?_) fun _ s' => .trans (.single (.count s' 1)) (.single (.pass _ nofun))
  split
  next ho => exact ⟨ho, rfl⟩
  next => exact hd

/-- What is left to do when the terms are settled: the file is opened, and the request is
answered. -/
theorem writeFirst (hd : s.self.direction = .write) (ha : HasAgreed s.self) : Goes terms time (do
      let transfer ← Transfer.self (S := S)
      let writer ← World.onStore
        (S.sink transfer.peer transfer.request.filename transfer.terms.transferSize)
      Transfer.update fun t => { t with writer := some writer }
      Transfer.log (.started .write transfer.request.filename transfer.peer transfer.request.mode)
      Write.answer transfer.terms) s := by
  apply self_bind
  apply bind_of (sink hd ha)
  intro writer s₁ h₁
  rw [← onStore_self h₁] at hd ⊢
  apply bind_of (update (.hold s₁ _ _))
  rintro _ _ ⟨⟩
  apply bind_of (log rfl)
  intro _ s₂ h₂
  have h₂ := log_self h₂
  have hterms : s₂.self.terms = s₁.self.terms := by rw [h₂]
  rw [← hterms]
  apply writeAnswer
  rw [h₂]
  exact hd

theorem writeStart (h : terms) (hd : s.self.direction = .write) :
    Goes terms time (Write.start (S := S)) s := by
  rw [Write.start_eq]
  apply bind_of (settleTerms h)
  intro _ s₁ h₁
  obtain ⟨terms', hn, h₁⟩ := settleTerms_self h₁
  apply writeFirst
  · rw [h₁]
    exact hd
  · rw [h₁]
    exact ⟨none, hn⟩

theorem readHandle (packet : Packet) (hd : s.self.direction = .read) :
    Goes terms time (Read.handle (S := S) packet) s := by
  cases packet with
  | ack block =>
      apply self_bind
      split
      · exact pure _
      · split
        · exact bind (sendNextBlock hd) fun _ _ => pure _
        · exact bind (sendNextBlock hd) fun _ _ => pure _
        · exact bind (log rfl) fun _ _ => bind (pass .readEnd nofun) fun _ _ => pure _
        · exact pure _
  | _ => exact pure _

theorem acknowledge (t : Transfer S) (block : UInt16) (payload : Bytes)
    (hd : s.self.direction = .write) : Goes terms time (Write.acknowledge t block payload) s := by
  unfold Write.acknowledge
  split
  · apply bind_of (store .finish)
    intro _ s₁ h₁
    obtain ⟨writer, h₁⟩ := store_self h₁
    apply bind (send (by rw [h₁]; exact hd))
    intro _ s'
    apply bind (pass .writeEnd nofun)
    intro _ s'
    exact bind (log rfl) fun _ _ => pure _
  · refine bind (send ?_) fun _ s' => bind (update (.count s' _)) fun _ _ => pure _
    exact hd

theorem take (t : Transfer S) (block : UInt16) (payload : Bytes)
    (hd : s.self.direction = .write) : Goes terms time (Write.take t block payload) s := by
  unfold Write.take
  split
  · exact throw (.report _)
  · split
    · apply bind_of (store (.write payload))
      intro _ s₁ h₁
      obtain ⟨writer, h₁⟩ := store_self h₁
      exact acknowledge t block payload (by rw [h₁]; exact hd)
    · exact acknowledge t block payload hd

theorem writeHandle (packet : Packet) (hd : s.self.direction = .write) :
    Goes terms time (Write.handle (S := S) packet) s := by
  cases packet with
  | data block payload =>
      rw [Write.handle_data_eq]
      apply self_bind
      split
      · split
        · exact bind resend fun _ _ => pure _
        · exact pure _
      · exact take s.self block payload hd
  | _ => exact pure _

/-! ## Turns -/

theorem start (h : terms) : Goes terms time (Transfer.start (S := S)) s := by
  apply self_bind
  cases hd : s.self.direction with
  | read => exact readStart h hd
  | write => exact writeStart h hd

theorem handle {packet : Packet} (h : ∀ code message, packet ≠ .error code message) :
    Goes terms time (Transfer.handle (S := S) packet) s := by
  unfold Transfer.handle
  split
  next code message => exact absurd rfl (h code message)
  next =>
    apply self_bind
    cases hd : s.self.direction with
    | read => exact readHandle packet hd
    | write => exact writeHandle packet hd

theorem rejectStranger {sender : Address} (h : sender ≠ s.self.peer) :
    Goes terms time (Transfer.rejectStranger sender) s := by
  apply bind_of (log_of (.announce s (.stranger h)))
  intro _ s' hl
  rw [← log_self hl] at h
  apply self_bind
  exact tryCatch (worldSend (.stranger h)) fun _ _ _ => log rfl

theorem catchUp (h : time) (left : Nat) : Goes terms time (Transfer.catchUp (S := S) left) s := by
  induction left generalizing s with
  | zero =>
      unfold Transfer.catchUp
      apply self_bind
      apply now_bind
      split
      · exact pure _
      · exact bind (log rfl) fun _ _ => throw (.report _)
  | succ left ih =>
      unfold Transfer.catchUp
      apply self_bind
      apply now_bind
      split
      · exact pure _
      · apply bind (update (.wait s _ _ h))
        intro _ s'
        apply bind (log rfl)
        intro _ s'
        apply bind resend
        intro _ s'
        exact bind (rearm h) fun _ _ => ih

theorem leave : Goes terms time (Transfer.leave (S := S)) s := by
  apply self_bind
  split
  · exact bind (onCall .abort) fun _ _ => log rfl
  · exact log rfl

theorem settle (h : time) : Goes terms time (Transfer.settle (S := S)) s := by
  apply self_bind
  split
  · exact pure _
  · apply get_bind
    split
    · exact throw_bind (.report _)
    · apply bind (catchUp h _)
      intro _ s'
      apply onNetwork
      intro network f network' hf
      obtain ⟨message, rfl⟩ := Network.beginReceive_eq_error hf
      exact .network message

/-- What a transfer does about what its receive has brought, unless its peer gives the transfer up. -/
theorem heed {reception : Reception} (h : ¬ reception.GivesUp s.self.peer) :
    Goes terms time (Transfer.heed reception) s := by
  unfold Transfer.heed
  cases hc : reception.cut Network.maxDatagram with
  | nothing => exact pure _
  | failed errno =>
      simp only [Reception.outcome]
      split
      next f hf =>
        split at hf <;> cases hf
        exact throw (.network _)
      next => exact pure _
      next hf => split at hf <;> cases hf
  | datagram sender bytes =>
      apply self_bind
      split
      next hs => exact bind (rejectStranger hs) fun _ _ => pure _
      next hs =>
        have hs : sender = s.self.peer := Decidable.not_not.1 hs
        cases hp : Packet.parse bytes with
        | error malformed => exact bind (log rfl) fun _ _ => pure _
        | ok packet =>
            refine bind (log rfl) fun _ _ => handle fun code message he => h ⟨code, message, ?_⟩
            simp [Reception.packetFrom, hc, hs, hp, he, Except.toOption]

theorem impulse {reception? : Option Reception} (ht : reception? = none → terms) (hw : time)
    (h : ∀ reception, reception? = some reception → ¬ reception.GivesUp s.self.peer) :
    Goes terms time (Transfer.impulse reception?) s := by
  cases reception? with
  | none => exact bind (start (ht rfl)) fun _ _ => bind (rearm hw) fun _ _ => pure _
  | some reception =>
      apply bind (heed (h reception rfl))
      intro moved s'
      have advance : Goes terms time Transfer.advance s' :=
        bind (update (.wait s' _ _ hw)) fun _ _ => rearm hw
      cases moved with
      | true => exact bind advance fun _ _ => pure _
      | false => exact pure _

/-- **A turn goes in steps**, unless the peer gives the transfer up. -/
theorem turn {reception? : Option Reception} (ht : reception? = none → terms) (hw : time)
    (h : ∀ reception, reception? = some reception → ¬ reception.GivesUp s.self.peer) :
    Goes terms time (Transfer.turn reception?) s :=
  bind (impulse ht hw h) fun _ _ => settle hw

end Goes

/-- A transfer that its peer gives up fails with what the peer has said. -/
theorem heed_of_givesUp {reception : Reception} {s : Scene S}
    (h : reception.GivesUp s.self.peer) : ∃ r s', heed reception s = .error (.peer r) s' ∧
      Steps False False s s' := by
  obtain ⟨code, message, h⟩ := h
  unfold Reception.packetFrom at h
  cases hc : reception.cut Network.maxDatagram with
  | datagram sender bytes =>
      simp only [hc] at h
      split at h
      next hs =>
        cases hp : Packet.parse bytes with
        | ok packet =>
            rw [hp] at h
            obtain rfl := Option.some.inj h
            have hl : Goes False False (log (.received (.error code message) sender)) s := .log rfl
            cases hr : log (.received (.error code message) sender) s with
            | ok u s' =>
                refine ⟨.fromPeer code message, s', ?_, hl.steps_ok hr⟩
                unfold heed
                rw [hc]
                simp only [Reception.outcome]
                show (if sender ≠ s.self.peer then _ else _ : Reaction S Bool) s = _
                rw [if_neg (Decidable.not_not.2 hs), hp]
                exact (bind_of_ok hr).trans rfl
            | error f s' =>
                rw [log_eq] at hr
                cases hr
        | error malformed =>
            rw [hp] at h
            cases h
      next => cases h
  | _ =>
      simp only [hc] at h
      cases h

/-! ## What steps preserve -/

variable {terms time : Prop} {s s' : Scene S}

/-- What is preserved by every step is preserved by all of them. -/
theorem Steps.invariant {P : Scene S → Prop} (step : ∀ {s s'}, Step terms time s s' → P s → P s')
    (hs : Steps terms time s s') (h : P s) : P s' := by
  induction hs with
  | refl => exact h
  | tail _ last ih => exact step last ih

/-- Without licence, the terms are not settled. -/
theorem Steps.terms_eq (ht : ¬ terms) (hs : Steps terms time s s') :
    s'.self.terms = s.self.terms := by
  refine hs.invariant (P := fun s' => s'.self.terms = s.self.terms) ?_ rfl
  rintro _ _ (_ | _ | _ | _ | _ | _ | _ | _ | _ | ⟨_, _, h⟩ | _) he
  all_goals first | exact he | exact absurd h ht

/-- Without licence, the time of the next retransmission is not moved. -/
theorem Steps.time_eq (hw : ¬ time) (hs : Steps terms time s s') :
    s'.self.retries = s.self.retries ∧ s'.self.deadline = s.self.deadline := by
  refine hs.invariant
    (P := fun s' => s'.self.retries = s.self.retries ∧ s'.self.deadline = s.self.deadline)
    ?_ ⟨rfl, rfl⟩
  rintro _ _ (_ | _ | _ | _ | _ | _ | _ | _ | _ | _ | ⟨_, _, h⟩) he
  all_goals first | exact he | exact absurd h hw

/-- A transfer fails only as a whole. -/
theorem Steps.ne_failed (hs : Steps terms time s s') (h : s.self.phase ≠ .failed) :
    s'.self.phase ≠ .failed := by
  refine hs.invariant (P := fun s' => s'.self.phase ≠ .failed) ?_ h
  rintro _ _ (_ | _ | _ | _ | _ | _ | hp | _ | _ | _ | _) he
  all_goals first | exact hp | exact he

/-- A packet that has been kept is only replaced by another one. -/
theorem Steps.lastPacket_ne_none (hs : Steps terms time s s') (h : s.self.lastPacket ≠ none) :
    s'.self.lastPacket ≠ none := by
  refine hs.invariant (P := fun s' => s'.self.lastPacket ≠ none) ?_ h
  rintro _ _ (_ | _ | _ | _ | _ | _ | _ | _ | _ | _ | _) he
  all_goals first | exact he | exact nofun

/-! ## What is put on record -/

/-- A reply goes to the peer, and nobody else is told anything but that this is not their transfer. -/
def Addressed (peer : Address) (packet : Packet) (a : Address) : Prop :=
  a = peer ∧ packet.isReply = true ∨ a ≠ peer ∧ packet = .turnedAway

/-- What a transfer with the given peer puts on record. -/
inductive Recorded (S : Storage) (peer : Address) : Event → Prop
  | line {notice : Notice} : announces notice = false →
      Recorded S peer (.logged notice)
  | announced {packet : Packet} {a : Address} : Addressed peer packet a →
      Recorded S peer (.logged (.sending packet a))
  | sent {packet : Packet} {sender a : Address} {time : Int} : Addressed peer packet a →
      Recorded S peer (.sent sender a packet.encode time)
  | reported {events : List Event} {e : Event} : S.Reports events → e ∈ events →
      Recorded S peer e

/-- What a transfer has sent last is a reply. -/
def Replies (t : Transfer S) : Prop := ∀ packet, t.lastPacket = some packet → packet.isReply = true

theorem Says.addressed {t : Transfer S} {packet : Packet} {a : Address} (h : Says t packet a)
    (hr : Replies t) : Addressed t.peer packet a := by
  cases h with
  | reply hp => exact .inl ⟨rfl, hp.isReply⟩
  | again hl => exact .inl ⟨rfl, hr packet hl⟩
  | stranger ha => exact .inr ⟨ha, rfl⟩

/-- From one scene to another, what has been put on record is what a transfer with the given peer
puts there. -/
structure Puts (peer : Address) (s s' : Scene S) : Prop where
  peer_eq : s'.self.peer = peer
  replies : Replies s'.self
  trace : ∃ events, s'.world.trace = events ++ s.world.trace ∧ ∀ e ∈ events, Recorded S peer e

theorem Puts.and {peer : Address} {t : Scene S} (h : Puts peer s t) {e : Event}
    (he : Recorded S peer e) (hp : s'.self.peer = t.self.peer) (hr : Replies s'.self)
    (ht : s'.world.trace = e :: t.world.trace) : Puts peer s s' := by
  obtain ⟨events, htrace, hall⟩ := h.trace
  refine ⟨hp.trans h.peer_eq, hr, e :: events, by rw [ht, htrace]; rfl, ?_⟩
  rintro e' (_ | ⟨_, he'⟩)
  · exact he
  · exact hall e' he'

/-- **Steps put on record what they may.** -/
theorem Steps.puts (hs : Steps terms time s s') (h : Replies s.self) :
    Puts s.self.peer s s' := by
  refine hs.invariant (P := Puts s.self.peer s) ?_ ⟨rfl, h, [], rfl, by simp⟩
  intro t t' step ht
  cases step with
  | log notice hn => exact ht.and (.line hn) rfl ht.replies rfl
  | announce hs =>
      exact ht.and (.announced (ht.peer_eq ▸ hs.addressed ht.replies)) rfl ht.replies rfl
  | send network hs =>
      exact ht.and (.sent (ht.peer_eq ▸ hs.addressed ht.replies)) rfl ht.replies rfl
  | store store reader writer hr =>
      obtain ⟨events, htrace, hall⟩ := ht.trace
      refine ⟨ht.peer_eq, ht.replies, _ ++ events, by simp [htrace]; rfl, ?_⟩
      intro e he
      rcases List.mem_append.1 he with he | he
      · exact .reported hr.reports (List.mem_reverse.1 he)
      · exact hall e he
  | keep hk =>
      refine { ht with replies := ?_ }
      rintro packet ⟨⟩
      exact hk.isReply
  | _ => exact { ht with }

/-! ## How a reaction is guarded -/

/-- How a transfer has failed in the end: with the given failure, or else the file could not be given
up either. -/
def FailsWith (S : Storage) (f f' : Failure) : Prop :=
  f' = f ∨ ∃ file, (S.abort file).result = .error f'

theorem View.failsWith_failing (v : View S) (f : Failure) : FailsWith S f (v.failing f) :=
  (v.failing_eq_or f).imp id fun ⟨_, _, ha⟩ => ⟨_, ha⟩

/-- A failure is dealt with, and the transfer fails. -/
theorem fall_eq_error (f : Failure) (s : Scene S) : ∃ s', fall f s = .error (s.view.failing f) s' ∧
    s'.view = s.view.givenUp ∧ s'.world.network = s.world.network ∧
    Steps False False { s with self := { s.self with phase := .failed } } s' := by
  have hv : Ensures (fall f) s.view (fun _ _ => False)
      (fun f' w => f' = s.view.failing f ∧ w = s.view.givenUp) := .fall ⟨rfl, rfl⟩
  have hv := hv s rfl
  cases hr : fall f s with
  | ok u s' =>
      rw [hr] at hv
      exact hv.elim
  | error f' s' =>
      rw [hr] at hv
      obtain ⟨rfl, hview⟩ := hv
      refine ⟨s', rfl, hview, (Offline.fall f).of_error hr, ?_⟩
      -- What follows the change of the phase is leaving and a failure, whatever that is.
      let s₁ : Scene S := { s with self := { s.self with phase := .failed } }
      have hl : Goes False False (leave (S := S)) s₁ := .leave
      have hb : fall f s = EStateM.bind leave (fun _ => throw f) s₁ := rfl
      rw [hr] at hb
      unfold EStateM.bind at hb
      cases hls : leave s₁ with
      | ok u s₂ =>
          rw [hls] at hb
          injection hb with _ hs
          exact hs ▸ hl.steps_ok hls
      | error f'' s₂ =>
          rw [hls] at hb
          injection hb with _ hs
          exact hs ▸ (hl.steps_error hls).1

theorem guarded_of_error {m : Reaction S Unit} {s s' : Scene S} {f : Failure}
    (h : m s = .error f s') : guarded m s = fall f s' := by
  obtain ⟨s'', hf, -⟩ := fall_eq_error f s'
  have ht : tryCatch m fall s = .error _ s'' := (tryCatch_of_error h).trans hf
  exact (bind_of_error ht).trans hf.symm

theorem guarded_of_ok {m : Reaction S Unit} {s s' : Scene S} {u : Unit} (h : m s = .ok u s') :
    guarded m s = if s'.self.isOver then leave s' else .ok () s' := by
  have ht : tryCatch m fall s = .ok u s' := tryCatch_of_ok h
  refine (bind_of_ok ht).trans ?_
  show (if s'.self.isOver then leave else pure () : Reaction S Unit) s' = _
  split <;> rfl

end Transfer

end Tftp
