import Tftp.Proofs.Ignoring

/-!
# What the transfer of a client depends on

Clients share the storage of a server, its network and its log. A storage keeps them apart if no
client can tell what others have asked of it (`Storage.Apart`). Two scenes of a transfer are `Kin` if
its client cannot tell them apart: the transfer is the same but for the port of its socket, and the
clock, the wish to stop and the client's part of the storage are the same. The log may be another one,
and so may be whatever belongs to others.

A reaction is `Kindred` if it has the same result in all such scenes, shows the client the same, and
does nothing that another client could notice. As a scene is kin to itself, that also says what the
transfers of others do to a client: nothing.
-/

namespace Tftp

/-! ## A storage that keeps its clients apart -/

namespace Effect

/-- An operation of a client on what all clients share. Nobody else can tell that it has been
performed, and the client is answered alike where it cannot tell the states apart. -/
structure IsPrivate {σ α : Type} (Same : Address → σ → σ → Prop) (client : Address)
    (effect : Effect σ α) : Prop where
  others : ∀ other state, other ≠ client → Same other state (effect state).state
  result : ∀ state state', Same client state state' → (effect state).result = (effect state').result
  events : ∀ state state', Same client state state' → (effect state).events = (effect state').events
  state : ∀ state state', Same client state state' →
    Same client (effect state).state (effect state').state

/-- The same of an operation on an open file, if that is the client's. -/
structure IsPrivateOn {σ φ α : Type} (Same : Address → σ → σ → Prop) (Owns : Address → φ → Prop)
    (effect : Effect (σ × φ) α) : Prop where
  owned : ∀ client state file, Owns client file → Owns client (effect (state, file)).state.2
  others : ∀ client other state file, Owns client file → other ≠ client →
    Same other state (effect (state, file)).state.1
  result : ∀ client state state' file, Owns client file → Same client state state' →
    (effect (state, file)).result = (effect (state', file)).result
  events : ∀ client state state' file, Owns client file → Same client state state' →
    (effect (state, file)).events = (effect (state', file)).events
  file : ∀ client state state' file, Owns client file → Same client state state' →
    (effect (state, file)).state.2 = (effect (state', file)).state.2
  state : ∀ client state state' file, Owns client file → Same client state state' →
    Same client (effect (state, file)).state.1 (effect (state', file)).state.1

end Effect

/-- A storage that keeps its clients apart. -/
structure Storage.Apart (S : Storage) where
  /-- A client cannot tell two states apart. -/
  Same : Address → S.State → S.State → Prop
  same : ∀ client, Equivalence (Same client)
  /-- Whose a file is that is open for reading. -/
  Reads : Address → S.Reader → Prop
  /-- Whose a file is that is open for writing. -/
  Writes : Address → S.Writer → Prop
  openForReading : ∀ client filename, Effect.IsPrivate Same client (S.openForReading client filename)
  reads : ∀ client filename state reader size,
    (S.openForReading client filename state).result = .ok (some (reader, size)) →
      Reads client reader
  openForWriting : ∀ client filename declared,
    Effect.IsPrivate Same client (S.openForWriting client filename declared)
  writes : ∀ client filename declared state writer,
    (S.openForWriting client filename declared state).result = .ok (some writer) →
      Writes client writer
  read : ∀ n, Effect.IsPrivateOn Same Reads (S.read n)
  write : ∀ bytes, Effect.IsPrivateOn Same Writes (S.write bytes)
  finish : Effect.IsPrivateOn Same Writes S.finish
  abort : Effect.IsPrivateOn Same Writes S.abort

namespace Storage.Apart

variable {S : Storage} (apart : S.Apart)

theorem source (client : Address) (filename : Bytes) :
    (S.source client filename).IsPrivate apart.Same client := by
  have h := apart.openForReading client filename
  refine ⟨h.others, fun state state' hs => ?_, h.events, h.state⟩
  unfold Storage.source
  dsimp only
  rw [h.result state state' hs]

theorem sink (client : Address) (filename : Bytes) (declared : Option UInt64) :
    (S.sink client filename declared).IsPrivate apart.Same client := by
  have h := apart.openForWriting client filename declared
  refine ⟨h.others, fun state state' hs => ?_, h.events, h.state⟩
  unfold Storage.sink
  dsimp only
  rw [h.result state state' hs]

theorem reads_of_source {client : Address} {filename : Bytes} {state : S.State}
    {reader : S.Reader} {size : Option UInt64}
    (h : (S.source client filename state).result = .ok (reader, size)) :
    apart.Reads client reader := by
  refine apart.reads client filename state reader size ?_
  unfold Storage.source at h
  dsimp only at h
  split at h
  next hr => rw [hr, Except.ok.inj h]
  all_goals cases h

theorem writes_of_sink {client : Address} {filename : Bytes} {declared : Option UInt64}
    {state : S.State} {writer : S.Writer}
    (h : (S.sink client filename declared state).result = .ok writer) :
    apart.Writes client writer := by
  refine apart.writes client filename declared state writer ?_
  unfold Storage.sink at h
  dsimp only at h
  split at h
  next hr => rw [hr, Except.ok.inj h]
  all_goals cases h

end Storage.Apart

/-- A storage in which nothing is shared keeps its clients apart. -/
def Scripted.apart (script : Scripted) : script.storage.Apart where
  Same _ _ _ := True
  same _ := ⟨fun _ => trivial, fun _ => trivial, fun _ _ => trivial⟩
  Reads _ _ := True
  Writes _ _ := True
  openForReading _ _ := ⟨fun _ _ _ => trivial, fun _ _ _ => rfl, fun _ _ _ => rfl,
    fun _ _ _ => trivial⟩
  reads _ _ _ _ _ _ := trivial
  openForWriting _ _ _ := ⟨fun _ _ _ => trivial, fun _ _ _ => rfl, fun _ _ _ => rfl,
    fun _ _ _ => trivial⟩
  writes _ _ _ _ _ _ := trivial
  read _ := ⟨fun _ _ _ _ => trivial, fun _ _ _ _ _ _ => trivial, fun _ _ _ _ _ _ => rfl,
    fun _ _ _ _ _ _ => rfl, fun _ _ _ _ _ _ => rfl, fun _ _ _ _ _ _ => trivial⟩
  write _ := ⟨fun _ _ _ _ => trivial, fun _ _ _ _ _ _ => trivial, fun _ _ _ _ _ _ => rfl,
    fun _ _ _ _ _ _ => rfl, fun _ _ _ _ _ _ => rfl, fun _ _ _ _ _ _ => trivial⟩
  finish := ⟨fun _ _ _ _ => trivial, fun _ _ _ _ _ _ => trivial, fun _ _ _ _ _ _ => rfl,
    fun _ _ _ _ _ _ => rfl, fun _ _ _ _ _ _ => rfl, fun _ _ _ _ _ _ => trivial⟩
  abort := ⟨fun _ _ _ _ => trivial, fun _ _ _ _ _ _ => trivial, fun _ _ _ _ _ _ => rfl,
    fun _ _ _ _ _ _ => rfl, fun _ _ _ _ _ _ => rfl, fun _ _ _ _ _ _ => trivial⟩

/-! ## What a client is shown -/

/-- The event without the port it has been sent from. -/
def Event.anonymous : Event → Event
  | sent sender receiver bytes time => .sent { sender with port := 0 } receiver bytes time
  | e => e

/-- What a client is shown of some events: datagrams to it and calls of the storage. -/
def shown (client : Address) (events : List Event) : List Event :=
  (events.filter (Event.concerns client)).map Event.anonymous

theorem shown_append (client : Address) (a b : List Event) :
    shown client (a ++ b) = shown client a ++ shown client b := by
  rw [shown, List.filter_append, List.map_append]
  rfl

theorem shown_reverse (client : Address) (a : List Event) :
    shown client a.reverse = (shown client a).reverse := by
  rw [shown, List.filter_reverse, List.map_reverse]
  rfl

/-! ## A network without faults -/

namespace Network

variable {network : Network}

theorem perform_of_faultless (h : network.faults = []) (operation : Operation) (context : Bytes) :
    perform operation context network = .ok () network := by
  obtain ⟨faults, nextPort, opened, closed⟩ := network
  subst h
  rfl

/-- Only a datagram that is too long is refused. -/
theorem send_of_faultless (h : network.faults = []) (bytes : Bytes) :
    send bytes network = if maxDatagram < bytes.length then
      .error (.other (ascii "Failed to send data: " ++ Errno.emsgsize.message)) network
    else .ok () network := by
  refine (bind_of_ok (perform_of_faultless h _ _)).trans ?_
  split <;> rfl

theorem beginReceive_of_faultless (h : network.faults = []) :
    beginReceive network = .ok () network := by
  rw [beginReceive_eq, h, Attempt.makeAll]
  obtain ⟨faults, nextPort, opened, closed⟩ := network
  subst h
  rfl

end Network

namespace Transfer

variable {S : Storage}

/-- The transfer on another port. -/
def onPort (t : Transfer S) (port : UInt16) : Transfer S :=
  { t with socket := ⟨{ t.socket.address with port }⟩ }

theorem disguised_onPort (t : Transfer S) (port : UInt16) :
    t.disguised t.config.pollInterval port = t.onPort port := rfl

theorem Inner.onPort {f : Transfer S → Transfer S} (hf : Inner f) (t : Transfer S)
    (port : UInt16) : f (t.onPort port) = (f t).onPort port := by
  have hconfig : (f t).config = t.config := congrArg Errand.config (hf.errand t)
  rw [← disguised_onPort, hf.disguised, ← hconfig, disguised_onPort]

/-- The files that a transfer has open are those of its client. -/
structure Owned (apart : S.Apart) (t : Transfer S) : Prop where
  reader : ∀ reader ∈ t.reader, apart.Reads t.peer reader
  writer : ∀ writer ∈ t.writer, apart.Writes t.peer writer

/-- Scenes that the client of a transfer cannot tell apart, if what has happened in the first since
the world `w` was there is what has happened in the second since the world `v`. No other client can
tell the first from `w`. -/
structure Kin (apart : S.Apart) (client : Address) (w v : World S) (s t : Scene S) : Prop where
  peer : s.self.peer = client
  self : ∃ port, t.self = s.self.onPort port
  owned : s.self.Owned apart
  own : apart.Same client s.world.store t.world.store
  others : ∀ other ≠ client, apart.Same other w.store s.world.store
  clock : t.world.clock = s.world.clock
  stopping : t.world.stopping = s.world.stopping
  faultless : s.world.network.faults = []
  faultless' : t.world.network.faults = []
  shown : ∃ new new', s.world.trace = new ++ w.trace ∧ t.world.trace = new' ++ v.trace ∧
    shown client new = shown client new'

/-- The same result, in scenes that the client cannot tell apart. -/
inductive Coincide {α : Type} (apart : S.Apart) (client : Address) (w v : World S) :
    EStateM.Result Failure (Scene S) α → EStateM.Result Failure (Scene S) α → Prop
  | ok (a : α) {s t : Scene S} : Kin apart client w v s t →
      Coincide apart client w v (.ok a s) (.ok a t)
  | error (f : Failure) {s t : Scene S} : Kin apart client w v s t →
      Coincide apart client w v (.error f s) (.error f t)

/-- A reaction that has the same result wherever its client cannot tell the scenes apart. -/
def Kindred {α : Type} (apart : S.Apart) (m : Reaction S α) : Prop :=
  ∀ ⦃client : Address⦄ ⦃w v : World S⦄ ⦃s t : Scene S⦄, Kin apart client w v s t →
    Coincide apart client w v (m s) (m t)

section

variable {apart : S.Apart} {client : Address} {w v : World S} {s t : Scene S}

namespace Kin

theorem refl (s : Scene S) (owned : s.self.Owned apart) (h : s.world.network.faults = []) :
    Kin apart s.self.peer s.world s.world s s where
  peer := rfl
  self := ⟨s.self.socket.address.port, rfl⟩
  owned := owned
  own := (apart.same _).refl _
  others := fun other _ => (apart.same other).refl _
  clock := rfl
  stopping := rfl
  faultless := h
  faultless' := h
  shown := ⟨[], [], rfl, rfl, rfl⟩

theorem changing (h : Kin apart client w v s t) {f : Transfer S → Transfer S}
    (hf : ∀ u port, f (u.onPort port) = (f u).onPort port) (hp : ∀ u, (f u).peer = u.peer)
    (ho : (f s.self).Owned apart) :
    Kin apart client w v { s with self := f s.self } { t with self := f t.self } where
  peer := (hp _).trans h.peer
  self := by
    obtain ⟨port, he⟩ := h.self
    exact ⟨port, by rw [he, hf]⟩
  owned := ho
  own := h.own
  others := h.others
  clock := h.clock
  stopping := h.stopping
  faultless := h.faultless
  faultless' := h.faultless'
  shown := h.shown

/-- What is put on record shows the client the same. -/
theorem recording (h : Kin apart client w v s t) {events events' : List Event}
    (he : Tftp.shown client events = Tftp.shown client events') : Kin apart client w v
      { s with world := { s.world with trace := events ++ s.world.trace } }
      { t with world := { t.world with trace := events' ++ t.world.trace } } where
  peer := h.peer
  self := h.self
  owned := h.owned
  own := h.own
  others := h.others
  clock := h.clock
  stopping := h.stopping
  faultless := h.faultless
  faultless' := h.faultless'
  shown := by
    obtain ⟨new, new', hs, ht, hn⟩ := h.shown
    refine ⟨events ++ new, events' ++ new', ?_, ?_, ?_⟩
    · rw [hs, List.append_assoc]
    · rw [ht, List.append_assoc]
    · rw [shown_append, shown_append, he, hn]

/-- The transfer and its client's part of the storage change alike, and nobody else notices. -/
theorem storing (h : Kin apart client w v s t) {f : Transfer S → Transfer S}
    (hf : ∀ u port, f (u.onPort port) = (f u).onPort port) (hp : ∀ u, (f u).peer = u.peer)
    (ho : (f s.self).Owned apart) {store store' : S.State} (own : apart.Same client store store')
    (others : ∀ other ≠ client, apart.Same other s.world.store store) (events : List Event) :
    Kin apart client w v
      { self := f s.self
        world := { s.world with store, trace := events.reverse ++ s.world.trace } }
      { self := f t.self
        world := { t.world with store := store', trace := events.reverse ++ t.world.trace } } :=
  { (h.changing hf hp ho).recording (rfl : Tftp.shown client events.reverse = _) with
    own := own
    others := fun other hne => (apart.same other).trans (h.others other hne) (others other hne) }

/-- What is asked of a file of the client is answered alike. -/
theorem calling {φ α : Type} {Owns : Address → φ → Prop} {effect : Effect (S.State × φ) α}
    (h : Kin apart client w v s t) (private' : Effect.IsPrivateOn apart.Same Owns effect) {file : φ}
    (owns : Owns client file) (set : φ → Transfer S → Transfer S)
    (hset : ∀ x u port, set x (u.onPort port) = (set x u).onPort port)
    (hp : ∀ x u, (set x u).peer = u.peer) (ho : ∀ x, Owns client x → (set x s.self).Owned apart) :
    (effect (t.world.store, file)).result = (effect (s.world.store, file)).result ∧
    Kin apart client w v
      { self := set (effect (s.world.store, file)).state.2 s.self
        world := { s.world with
          store := (effect (s.world.store, file)).state.1
          trace := (effect (s.world.store, file)).events.reverse ++ s.world.trace } }
      { self := set (effect (t.world.store, file)).state.2 t.self
        world := { t.world with
          store := (effect (t.world.store, file)).state.1
          trace := (effect (t.world.store, file)).events.reverse ++ t.world.trace } } := by
  refine ⟨(private'.result _ _ _ _ owns h.own).symm, ?_⟩
  rw [← private'.file _ _ _ _ owns h.own, ← private'.events _ _ _ _ owns h.own]
  exact h.storing (hset _) (hp _) (ho _ (private'.owned _ _ _ owns))
    (private'.state _ _ _ _ owns h.own) (fun other hne => private'.others _ _ _ _ owns hne) _

end Kin

/-! ## Rules for building reactions -/

theorem Kin.self_bind {α : Type} (hk : Kin apart client w v s t) {f : Transfer S → Reaction S α}
    (hf : ∀ u port, f (u.onPort port) = f u)
    (h : Coincide apart client w v (f s.self s) (f s.self t)) :
    Coincide apart client w v ((Transfer.self >>= f) s) ((Transfer.self >>= f) t) := by
  obtain ⟨port, he⟩ := hk.self
  show Coincide apart client w v (f s.self s) (f t.self t)
  rw [he, hf]
  exact h

namespace Coincide

variable {α β : Type}

theorem bind {m m' : Reaction S α} {f f' : α → Reaction S β}
    (hm : Coincide apart client w v (m s) (m' t))
    (hf : ∀ a s t, Kin apart client w v s t → Coincide apart client w v (f a s) (f' a t)) :
    Coincide apart client w v ((m >>= f) s) ((m' >>= f') t) := by
  show Coincide apart client w v (EStateM.bind m f s) (EStateM.bind m' f' t)
  unfold EStateM.bind
  generalize m s = r, m' t = r' at hm
  cases hm with
  | ok a h => exact hf a _ _ h
  | error f h => exact .error f h

theorem tryCatch {m m' : Reaction S α} {handler : Failure → Reaction S α}
    (hm : Coincide apart client w v (m s) (m' t)) (hh : ∀ f, Kindred apart (handler f)) :
    Coincide apart client w v (MonadExcept.tryCatch m handler s)
      (MonadExcept.tryCatch m' handler t) := by
  show Coincide apart client w v (EStateM.tryCatch m handler s) (EStateM.tryCatch m' handler t)
  unfold EStateM.tryCatch
  generalize m s = r, m' t = r' at hm
  cases hm with
  | ok a h => exact .ok a h
  | error f h => exact hh f h

end Coincide

namespace Kindred

variable {α β : Type}

theorem pure (a : α) : Kindred apart (Pure.pure a : Reaction S α) := fun _ _ _ _ _ h => .ok a h

theorem throw (f : Failure) : Kindred apart (MonadExcept.throw f : Reaction S α) :=
  fun _ _ _ _ _ h => .error f h

theorem bind {m : Reaction S α} {f : α → Reaction S β} (hm : Kindred apart m)
    (hf : ∀ a, Kindred apart (f a)) : Kindred apart (m >>= f) :=
  fun _ _ _ _ _ h => (hm h).bind fun a _ _ h => hf a h

theorem tryCatch {m : Reaction S α} {handler : Failure → Reaction S α} (hm : Kindred apart m)
    (hh : ∀ f, Kindred apart (handler f)) : Kindred apart (MonadExcept.tryCatch m handler) :=
  fun _ _ _ _ _ h => (hm h).tryCatch hh

/-- What is done next may depend on the transfer, but not on the port of its socket. -/
theorem self_bind {f : Transfer S → Reaction S α} (hf : ∀ u port, f (u.onPort port) = f u)
    (h : ∀ u, Kindred apart (f u)) : Kindred apart (Transfer.self >>= f) :=
  fun _ _ _ _ _ hk => hk.self_bind hf (h _ hk)

theorem now : Kindred apart (Transfer.now (S := S)) := by
  intro client w v s t hk
  show Coincide apart client w v (.ok s.world.clock s) (.ok t.world.clock t)
  rw [hk.clock]
  exact .ok _ hk

theorem stopping : Kindred apart (Transfer.stopping (S := S)) := by
  intro client w v s t hk
  show Coincide apart client w v (.ok s.world.stopping s) (.ok t.world.stopping t)
  rw [hk.stopping]
  exact .ok _ hk

theorem update {f : Transfer S → Transfer S} (hf : Inner f) : Kindred apart (Transfer.update f) := by
  intro client w v s t hk
  have hpeer (u : Transfer S) : (f u).peer = u.peer := congrArg Errand.peer (hf.errand u)
  have hreader : (f s.self).reader = s.self.reader := congrArg Errand.reader (hf.errand s.self)
  have hwriter : (f s.self).writer = s.self.writer := congrArg Errand.writer (hf.errand s.self)
  refine .ok () (hk.changing hf.onPort hpeer ⟨?_, ?_⟩)
  · rw [hreader, hpeer]
    exact hk.owned.reader
  · rw [hwriter, hpeer]
    exact hk.owned.writer

/-! ## The world -/

theorem log (notice : Notice) : Kindred apart (Transfer.log (S := S) notice) := by
  intro client w v s t hk
  have put (s : Scene S) : (if notice.level ≠ .debug ∨ s.world.verbose = true then
      s.put (.logged notice) else s) = { s with world := { s.world with
        trace := (if notice.level ≠ .debug ∨ s.world.verbose = true then [.logged notice] else []) ++
          s.world.trace } } := by
    split <;> rfl
  have none (p : Prop) [Decidable p] :
      shown client (if p then [.logged notice] else []) = [] := by
    split <;> rfl
  rw [log_eq, log_eq, put, put]
  exact .ok () (hk.recording (by rw [none, none]))

theorem beginReceive :
    Kindred apart (liftM (World.onNetwork (S := S) Network.beginReceive) : Reaction S Unit) := by
  intro client w v s t hk
  rw [liftM_eq, liftM_eq]
  unfold World.onNetwork
  rw [Network.beginReceive_of_faultless hk.faultless,
    Network.beginReceive_of_faultless hk.faultless']
  exact .ok () hk

/-- Which port a datagram is sent from does not matter. -/
theorem worldSend (hk : Kin apart client w v s t) (socket : Socket) (port : UInt16)
    (receiver : Address) (bytes : Bytes) : Coincide apart client w v
      ((liftM (World.send (S := S) socket receiver bytes) : Reaction S Unit) s)
      ((liftM (World.send (S := S) ⟨{ socket.address with port }⟩ receiver bytes) :
        Reaction S Unit) t) := by
  rw [liftM_eq, liftM_eq, World.send_eq, World.send_eq, Network.send_of_faultless hk.faultless,
    Network.send_of_faultless hk.faultless']
  by_cases hl : Network.maxDatagram < bytes.length
  · rw [if_pos hl, if_pos hl]
    exact .error _ hk
  · rw [if_neg hl, if_neg hl]
    have he : shown client [.sent socket.address receiver bytes s.world.clock] =
        shown client [.sent { socket.address with port } receiver bytes t.world.clock] := by
      rw [hk.clock]
      by_cases hr : receiver = client <;> simp [shown, Event.concerns, Event.anonymous, hr]
    exact .ok () (hk.recording he)

theorem transmit (packet : Packet) : Kindred apart (Transfer.transmit (S := S) packet) := by
  intro client w v s t hk
  obtain ⟨port, he⟩ := hk.self
  show Coincide apart client w v
    ((Transfer.log (.sending packet s.self.peer) >>= fun _ => liftM
      (World.send (S := S) s.self.socket s.self.peer packet.encode) : Reaction S Unit) s)
    ((Transfer.log (.sending packet t.self.peer) >>= fun _ => liftM
      (World.send (S := S) t.self.socket t.self.peer packet.encode) : Reaction S Unit) t)
  rw [he]
  exact (log _ hk).bind fun _ _ _ hk => worldSend hk _ port _ _

/-! ## Files -/

/-- Opens a file of the client. What is done with it may rely on whose it is. -/
theorem onStore_bind (hk : Kin apart client w v s t) {effect : Effect S.State α}
    (private' : effect.IsPrivate apart.Same client) {f : α → Reaction S β}
    (hf : ∀ a state, (effect state).result = .ok a → ∀ {s t : Scene S},
      Kin apart client w v s t → Coincide apart client w v (f a s) (f a t)) :
    Coincide apart client w v (((liftM (World.onStore effect) : Reaction S α) >>= f) s)
      (((liftM (World.onStore effect) : Reaction S α) >>= f) t) := by
  show Coincide apart client w v (EStateM.bind _ f s) (EStateM.bind _ f t)
  unfold EStateM.bind
  rw [liftM_eq, liftM_eq]
  unfold World.onStore
  have hkin := hk.storing (f := id) (fun _ _ => rfl) (fun _ => rfl) hk.owned
    (private'.state _ _ hk.own) (fun other hne => private'.others other _ hne)
    (effect s.world.store).events
  dsimp only
  rw [← private'.result _ _ hk.own, ← private'.events _ _ hk.own]
  cases hr : (effect s.world.store).result with
  | ok a => exact hf a _ hr hkin
  | error f => exact .error f hkin

theorem readSome (n : Nat) : Kindred apart (Read.readSome (S := S) n) := by
  intro client w v s t hk
  obtain ⟨port, he⟩ := hk.self
  have hreader : t.self.reader = s.self.reader := by rw [he]; rfl
  unfold Read.readSome
  rw [hreader]
  cases hr : s.self.reader with
  | none => exact .ok [] hk
  | some reader =>
      have owns : apart.Reads client reader := hk.peer ▸ hk.owned.reader reader hr
      obtain ⟨hresult, hkin⟩ := hk.calling (apart.read n) owns
        (fun reader u => { u with reader := some reader }) (fun _ _ _ => rfl) (fun _ _ => rfl)
        fun x hx => ⟨fun y hy => Option.some.inj hy ▸ hk.peer ▸ hx, hk.owned.writer⟩
      dsimp only
      rw [hresult]
      cases (S.read n (s.world.store, reader)).result with
      | ok bytes => exact .ok _ hkin
      | error f => exact .error _ hkin

theorem onWriter {effect : Effect (S.State × S.Writer) Unit}
    (private' : Effect.IsPrivateOn apart.Same apart.Writes effect) :
    Kindred apart (Write.onWriter effect) := by
  intro client w v s t hk
  obtain ⟨port, he⟩ := hk.self
  have hwriter : t.self.writer = s.self.writer := by rw [he]; rfl
  unfold Write.onWriter
  rw [hwriter]
  cases hw : s.self.writer with
  | none => exact .ok () hk
  | some writer =>
      have owns : apart.Writes client writer := hk.peer ▸ hk.owned.writer writer hw
      obtain ⟨hresult, hkin⟩ := hk.calling private' owns
        (fun writer u => { u with writer := some writer }) (fun _ _ _ => rfl) (fun _ _ => rfl)
        fun x hx => ⟨hk.owned.reader, fun y hy => Option.some.inj hy ▸ hk.peer ▸ hx⟩
      dsimp only
      rw [hresult]
      cases (effect (s.world.store, writer)).result with
      | ok u => exact .ok () hkin
      | error f => exact .error f hkin

theorem store {effect : Effect (S.State × S.Writer) Unit}
    (private' : Effect.IsPrivateOn apart.Same apart.Writes effect) :
    Kindred apart (Write.store effect) :=
  tryCatch (onWriter private') fun _ => throw _

theorem openReader : Kindred apart (Read.openFile (S := S)) := by
  intro client w v s t hk
  obtain rfl := hk.peer
  refine hk.self_bind (fun _ _ => rfl) (onStore_bind hk (apart.source ..) ?_)
  rintro ⟨reader, fileSize⟩ state hr s t hk
  refine Coincide.bind (.ok () ?_) fun _ _ _ hk => pure fileSize hk
  exact hk.changing (f := fun u => { u with reader := some reader }) (fun _ _ => rfl) (fun _ => rfl)
    ⟨fun y hy => Option.some.inj hy ▸ hk.peer ▸ apart.reads_of_source hr, hk.owned.writer⟩

theorem openWriter : Kindred apart (Write.openFile (S := S)) := by
  intro client w v s t hk
  obtain rfl := hk.peer
  refine hk.self_bind (fun _ _ => rfl) (onStore_bind hk (apart.sink ..) ?_)
  intro writer state hr s t hk
  exact .ok () (hk.changing (f := fun u => { u with writer := some writer }) (fun _ _ => rfl)
    (fun _ => rfl)
    ⟨hk.owned.reader, fun y hy => Option.some.inj hy ▸ hk.peer ▸ apart.writes_of_sink hr⟩)

theorem rejectStranger (sender : Address) :
    Kindred apart (Transfer.rejectStranger (S := S) sender) := by
  refine bind (log _) fun _ client w v s t hk => ?_
  obtain ⟨port, he⟩ := hk.self
  show Coincide apart client w v
    (MonadExcept.tryCatch (liftM (World.send (S := S) s.self.socket sender
      Packet.turnedAway.encode) : Reaction S Unit) _ s)
    (MonadExcept.tryCatch (liftM (World.send (S := S) t.self.socket sender
      Packet.turnedAway.encode) : Reaction S Unit) _ t)
  rw [he]
  exact (worldSend hk _ port _ _).tryCatch fun _ => log _

/-- **Every reaction is kindred.** -/
theorem pervasive (apart : S.Apart) : Pervasive (S := S) (fun m => Kindred apart m) where
  pure := pure
  throw := throw
  bind := bind
  self_bind hf := self_bind fun t port => hf t t.config.pollInterval port
  update := update
  now := now
  stopping := stopping
  log := log
  transmit := transmit
  beginReceive := beginReceive
  openReader := openReader
  read := readSome
  openWriter := openWriter
  write bytes := store (apart.write bytes)
  finish := store apart.finish
  abort := onWriter apart.abort
  tryCatch := tryCatch
  rejectStranger := rejectStranger

end Kindred

/-- Seen from outside. -/
theorem Coincide.outcome {m : Reaction S Unit} (h : Coincide apart client w v (m s) (m t)) :
    s.resultOf m = t.resultOf m ∧ Kin apart client w v (s.after m) (t.after m) := by
  generalize hs : m s = r, ht : m t = r' at h
  cases h with
  | ok u h =>
      obtain ⟨hres, hafter⟩ := Scene.after_of_ok hs
      obtain ⟨hres', hafter'⟩ := Scene.after_of_ok ht
      rw [hres, hres', hafter, hafter']
      exact ⟨rfl, h⟩
  | error f h =>
      obtain ⟨hres, hafter⟩ := Scene.after_of_error hs
      obtain ⟨hres', hafter'⟩ := Scene.after_of_error ht
      rw [hres, hres', hafter, hafter']
      exact ⟨rfl, h⟩

end

end Transfer

end Tftp
