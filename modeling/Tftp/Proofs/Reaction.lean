import Tftp.Proofs.Pieces

/-!
# What a reaction ensures

A reaction changes a transfer and its world and may fail at any send. What matters about it is the
transfer itself, the storage, the clock, the wish to stop, and what has been done; which operations
of the network fail next and what has been logged do not. A `View` is a scene reduced to what
matters.

`Ensures m v Q E` says of a reaction `m` in any scene that looks like `v`: if it succeeds, its
result and the view afterwards satisfy `Q`, and if it fails, its failure and the view afterwards
satisfy `E`. There is one rule for each way to build a reaction and one for each reaction that all
transfers share, so a reaction is understood by applying one rule after the other, and nothing is
unfolded twice.

    bind ─▶ self ─▶ update ─▶ log ─▶ transmit ─▶ catchUp ─▶ settle ─▶ guarded
-/

namespace Tftp

variable {S : Storage}

namespace Event

def isLogged : Event → Bool
  | logged _ => true
  | _ => false

/-- Whether an event is a call that stores something or gives a file up. -/
def isStoring : Event → Bool
  | written _ | notWritten | finished | notFinished | aborted => true
  | _ => false

/-- Whether an event is a datagram handed over to the network. -/
def isSent : Event → Bool
  | sent .. => true
  | _ => false

/-- Whether an event is a line of the log or the opening of a file, as a storage may report it at
any time. -/
def isPlain (e : Event) : Bool := !e.isSent && !e.isStoring

def unlogged (events : List Event) : List Event := events.filter fun e => !e.isLogged

@[simp] theorem unlogged_nil : unlogged [] = [] := rfl

@[simp] theorem unlogged_append (a b : List Event) :
    unlogged (a ++ b) = unlogged a ++ unlogged b :=
  List.filter_append ..

@[simp] theorem unlogged_reverse (a : List Event) : unlogged a.reverse = (unlogged a).reverse :=
  List.filter_reverse ..

theorem mem_unlogged {e : Event} {events : List Event} (h : e ∈ unlogged events) : e ∈ events :=
  (List.mem_filter.mp h).1

end Event

/-- What has been done in a world, oldest first. Log lines do not count. -/
def World.deeds (w : World S) : List Event := (Event.unlogged w.trace).reverse

theorem World.log_eq (notice : Notice) (w : World S) :
    World.log notice w = .ok () (if notice.level ≠ .debug ∨ w.verbose = true then
      { w with trace := .logged notice :: w.trace } else w) := by
  show (if notice.level ≠ .debug ∨ w.verbose = true then World.note (.logged notice)
    else pure ()) w = _
  split <;> rfl

/-- What is done on the network changes nothing else. -/
theorem World.onNetwork_eq_ok {α : Type} {operation : NetworkM α} {a : α} {world world' : World S}
    (h : World.onNetwork operation world = .ok a world') :
    ∃ network, operation world.network = .ok a network ∧ world' = { world with network } := by
  unfold World.onNetwork at h
  cases ho : operation world.network with
  | error f network =>
      rw [ho] at h
      cases h
  | ok a network =>
      rw [ho] at h
      cases h
      exact ⟨network, rfl, rfl⟩

theorem World.send_eq (socket : Socket) (receiver : Address) (bytes : Bytes) (w : World S) :
    World.send socket receiver bytes w =
      match Network.send bytes w.network with
      | .ok _ network => .ok () { w with
          network, trace := .sent socket.address receiver bytes w.clock :: w.trace }
      | .error f network => .error f { w with network } := by
  unfold World.send World.onNetwork
  simp only [bind, EStateM.bind]
  cases Network.send bytes w.network <;> rfl

/-! ## Computations in a state -/

section

variable {σ α β : Type} {m : EStateM Failure σ α} {s s' : σ}

/-- What a computation goes on with when its first part has succeeded. -/
theorem bind_of_ok {f : α → EStateM Failure σ β} {a : α} (h : m s = .ok a s') :
    (m >>= f) s = f a s' := by
  show EStateM.bind m f s = _
  unfold EStateM.bind
  rw [h]

/-- A computation fails as its first part does. -/
theorem bind_of_error {f : α → EStateM Failure σ β} {e : Failure} (h : m s = .error e s') :
    (m >>= f) s = .error e s' := by
  show EStateM.bind m f s = _
  unfold EStateM.bind
  rw [h]

/-- Of a computation that has succeeded both parts have. -/
theorem of_bind_eq_ok {f : α → EStateM Failure σ β} {b : β} {s'' : σ}
    (h : (m >>= f) s = .ok b s'') : ∃ a s', m s = .ok a s' ∧ f a s' = .ok b s'' := by
  cases hm : m s with
  | ok a s' => exact ⟨a, s', rfl, (bind_of_ok hm).symm.trans h⟩
  | error e s' => cases (bind_of_error hm).symm.trans h

theorem tryCatch_of_ok {handler : Failure → EStateM Failure σ α} {a : α} (h : m s = .ok a s') :
    tryCatch m handler s = .ok a s' := by
  show EStateM.tryCatch m handler s = _
  unfold EStateM.tryCatch
  rw [h]

theorem tryCatch_of_error {handler : Failure → EStateM Failure σ α} {e : Failure}
    (h : m s = .error e s') : tryCatch m handler s = handler e s' := by
  show EStateM.tryCatch m handler s = _
  unfold EStateM.tryCatch
  rw [h]
  rfl

end

namespace Transfer

/-- A scene without the network and the log. -/
structure View (S : Storage) where
  self : Transfer S
  store : S.State
  clock : Int
  stopping : Bool
  deeds : List Event

def Scene.view (s : Scene S) : View S where
  self := s.self
  store := s.world.store
  clock := s.world.clock
  stopping := s.world.stopping
  deeds := s.world.deeds

namespace View

/-- The event of a packet that goes to the peer now. -/
def sending (v : View S) (packet : Packet) : Event :=
  .sent v.self.socket.address v.self.peer packet.encode v.clock

def doing (v : View S) (events : List Event) : View S := { v with deeds := v.deeds ++ events }

def changing (v : View S) (f : Transfer S → Transfer S) : View S := { v with self := f v.self }

/-- The view after an operation on the file that is being written. -/
def storing (v : View S) (effect : Effect (S.State × S.Writer) Unit) (writer : S.Writer) :
    View S :=
  let answer := effect (v.store, writer)
  { v with
    self := { v.self with writer := some answer.state.2 }
    store := answer.state.1
    deeds := v.deeds ++ Event.unlogged answer.events }

/-- The view after the transfer has failed: the file that was being written is given up. -/
def givenUp (v : View S) : View S :=
  let v := v.changing fun t => { t with phase := .failed }
  match v.self.writer with
  | some writer => v.storing S.abort writer
  | none => v

end View

/-- What a reaction ensures in every scene with the given view. -/
def Ensures {α : Type} (m : Reaction S α) (v : View S) (Q : α → View S → Prop)
    (E : Failure → View S → Prop) : Prop :=
  ∀ s : Scene S, s.view = v →
    match m s with
    | .ok a s' => Q a s'.view
    | .error f s' => E f s'.view

namespace Ensures

variable {α β : Type} {v : View S} {Q : α → View S → Prop} {R : β → View S → Prop}
  {U : Unit → View S → Prop} {E F : Failure → View S → Prop}

/-! ## Rules for building reactions -/

theorem pure {a : α} (h : Q a v) : Ensures (S := S) (Pure.pure a) v Q E := by
  rintro s rfl
  exact h

theorem throw {f : Failure} (h : E f v) :
    Ensures (S := S) (MonadExcept.throw f : Reaction S α) v Q E := by
  rintro s rfl
  exact h

theorem bind {m : Reaction S α} {f : α → Reaction S β}
    (h : Ensures m v (fun a v' => Ensures (f a) v' R E) E) : Ensures (m >>= f) v R E := by
  rintro s rfl
  have hm := h s rfl
  show match EStateM.bind m f s with | .ok a s' => R a s'.view | .error e s' => E e s'.view
  unfold EStateM.bind
  cases hr : m s with
  | ok a s' =>
      rw [hr] at hm
      exact hm s' rfl
  | error e s' =>
      rw [hr] at hm
      exact hm

theorem tryCatch {m : Reaction S α} {handler : Failure → Reaction S α}
    (h : Ensures m v Q (fun f v' => Ensures (handler f) v' Q E)) :
    Ensures (MonadExcept.tryCatch m handler) v Q E := by
  rintro s rfl
  have hm := h s rfl
  show match EStateM.tryCatch m handler s with
    | .ok a s' => Q a s'.view | .error e s' => E e s'.view
  unfold EStateM.tryCatch
  cases hr : m s with
  | ok a s' =>
      rw [hr] at hm
      exact hm
  | error e s' =>
      rw [hr] at hm
      exact hm s' rfl

theorem mono {m : Reaction S α} {Q' : α → View S → Prop} (h : Ensures m v Q E)
    (ok : ∀ a v', Q a v' → Q' a v') (fails : ∀ f v', E f v' → F f v') : Ensures m v Q' F := by
  rintro s rfl
  have hm := h s rfl
  cases hr : m s with
  | ok a s' =>
      rw [hr] at hm
      exact ok a _ hm
  | error e s' =>
      rw [hr] at hm
      exact fails e _ hm

/-! ## Rules for the scene -/

theorem get {R : Scene S → View S → Prop} (h : ∀ s : Scene S, s.view = v → R s v) :
    Ensures (MonadState.get : Reaction S (Scene S)) v R E := by
  rintro s rfl
  exact h s rfl

theorem self {R : Transfer S → View S → Prop} (h : R v.self v) :
    Ensures Transfer.self v R E := by
  rintro s rfl
  exact h

theorem now {R : Int → View S → Prop} (h : R v.clock v) : Ensures Transfer.now v R E := by
  rintro s rfl
  exact h

theorem update {f : Transfer S → Transfer S} (h : U () (v.changing f)) :
    Ensures (Transfer.update f) v U E := by
  rintro s rfl
  exact h

/-! ## Rules for the world -/

/-- An act in the world, seen from a transfer. -/
theorem act {m : Act S α}
    (h : ∀ s : Scene S, s.view = v →
      match m s.world with
      | .ok a world => Q a ({ s with world } : Scene S).view
      | .error f world => E f ({ s with world } : Scene S).view) :
    Ensures (liftM m : Reaction S α) v Q E := by
  rintro s hs
  have hm := h s hs
  rw [liftM_eq]
  cases hr : m s.world with
  | ok a world =>
      rw [hr] at hm
      exact hm
  | error f world =>
      rw [hr] at hm
      exact hm

/-- What happens on the network only leaves the view as it is, and may fail. -/
theorem onNetwork {operation : NetworkM α} (ok : ∀ a, Q a v) (fails : ∀ f, E f v) :
    Ensures (liftM (World.onNetwork (S := S) operation) : Reaction S α) v Q E := by
  apply act
  rintro s rfl
  unfold World.onNetwork
  cases operation s.world.network with
  | ok a network => exact ok a
  | error f network => exact fails f

theorem log {notice : Notice} (h : U () v) : Ensures (Transfer.log notice) v U E := by
  apply act
  rintro s rfl
  rw [World.log_eq]
  by_cases hl : notice.level ≠ .debug ∨ s.world.verbose = true
  · rw [if_pos hl]
    exact h
  · rw [if_neg hl]
    exact h

theorem onStore {effect : Effect S.State α}
    (h : let answer := effect v.store
      let v' : View S := { v with
        store := answer.state, deeds := v.deeds ++ Event.unlogged answer.events }
      match answer.result with
      | .ok a => Q a v'
      | .error f => E f v') :
    Ensures (liftM (World.onStore (S := S) effect) : Reaction S α) v Q E := by
  apply act
  rintro s rfl
  unfold World.onStore
  cases hr : (effect s.world.store).result with
  | ok a => simpa [hr, Scene.view, World.deeds] using h
  | error f => simpa [hr, Scene.view, World.deeds] using h

end Ensures

end Transfer

end Tftp
