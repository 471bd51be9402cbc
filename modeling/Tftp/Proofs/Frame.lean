import Tftp.Proofs.Composition

/-!
# What a reaction leaves alone

A reaction changes a transfer and its world, but not all of them. Whose transfer it is, in which
direction, on which socket and under which configuration is settled before it begins, and the clock,
the wish to stop and the number of sockets are not for a transfer to change. This part of a scene is
its `Frame`, and every reaction `Keeps` it, whether it fails or not.

There is one rule for each way to build a computation, and one lemma for each operation on the
network, act in the world and elementary reaction. With that the property is pervasive, and the rest
follows.
-/

namespace Tftp

/-- A computation that leaves an aspect of the state as it is, whether it fails or not. -/
def Keeps {σ α β : Type} (aspect : σ → β) (m : EStateM Failure σ α) : Prop :=
  ∀ s, match m s with
    | .ok _ s' => aspect s' = aspect s
    | .error _ s' => aspect s' = aspect s

namespace Keeps

section

variable {σ α β γ : Type} {aspect : σ → γ}

theorem of_ok {m : EStateM Failure σ α} (h : Keeps aspect m) {s s' : σ} {a : α}
    (hr : m s = .ok a s') : aspect s' = aspect s := by
  have h := h s
  rwa [hr] at h

theorem of_error {m : EStateM Failure σ α} (h : Keeps aspect m) {s s' : σ} {f : Failure}
    (hr : m s = .error f s') : aspect s' = aspect s := by
  have h := h s
  rwa [hr] at h

theorem pure (a : α) : Keeps aspect (Pure.pure a : EStateM Failure σ α) := fun _ => rfl

theorem throw (f : Failure) : Keeps aspect (MonadExcept.throw f : EStateM Failure σ α) :=
  fun _ => rfl

theorem get : Keeps aspect (MonadState.get : EStateM Failure σ σ) := fun _ => rfl

/-- What follows may depend on the state. -/
theorem get_bind {f : σ → EStateM Failure σ α}
    (h : ∀ s, match f s s with
      | .ok _ s' => aspect s' = aspect s
      | .error _ s' => aspect s' = aspect s) :
    Keeps aspect (MonadState.get >>= f) := h

theorem bind {m : EStateM Failure σ α} {f : α → EStateM Failure σ β} (hm : Keeps aspect m)
    (hf : ∀ a, Keeps aspect (f a)) : Keeps aspect (m >>= f) := by
  intro s
  simp only [Bind.bind, EStateM.bind]
  cases hr : m s with
  | error e s' => exact hm.of_error hr
  | ok a s' =>
      cases hr' : f a s' with
      | ok b s'' =>
          simp only [hr']
          exact ((hf a).of_ok hr').trans (hm.of_ok hr)
      | error e s'' =>
          simp only [hr']
          exact ((hf a).of_error hr').trans (hm.of_ok hr)

theorem tryCatch {m : EStateM Failure σ α} {handler : Failure → EStateM Failure σ α}
    (hm : Keeps aspect m) (hh : ∀ f, Keeps aspect (handler f)) :
    Keeps aspect (MonadExcept.tryCatch m handler) := by
  intro s
  show match EStateM.tryCatch m handler s with
    | .ok _ s' => aspect s' = aspect s | .error _ s' => aspect s' = aspect s
  unfold EStateM.tryCatch
  cases hr : m s with
  | ok a s' => exact hm.of_ok hr
  | error f s' =>
      show match handler f s' with
        | .ok _ s' => aspect s' = aspect s | .error _ s' => aspect s' = aspect s
      cases hr' : handler f s' with
      | ok a s'' => exact ((hh f).of_ok hr').trans (hm.of_error hr)
      | error e s'' => exact ((hh f).of_error hr').trans (hm.of_error hr)

end

/-! ## The network -/

theorem ask (operation : Operation) : Keeps Network.opened (Network.ask operation) := fun _ => rfl

theorem networkPerform (operation : Operation) (context : Bytes) :
    Keeps Network.opened (Network.perform operation context) := by
  apply bind
  · exact ask operation
  · intro errno?
    cases errno? with
    | none => exact pure _
    | some errno => exact throw _

theorem close : Keeps Network.opened Network.close := fun _ => rfl

theorem networkSend (bytes : Bytes) : Keeps Network.opened (Network.send bytes) := by
  apply bind
  · exact networkPerform _ _
  · intro _
    split
    · exact throw _
    · exact pure _

theorem beginReceive : Keeps Network.opened Network.beginReceive := by
  apply get_bind
  intro network
  dsimp only
  obtain ⟨result, faults⟩ := Attempt.makeAll network.faults
  cases result <;> rfl

theorem bindSocket (addr : Address) : Keeps Network.opened (Network.bindSocket addr) := by
  apply bind
  · exact .tryCatch (.networkPerform _ _) fun _ => .bind .close fun _ => .throw _
  · intro _
    split
    · exact fun _ => rfl
    · exact .pure _

end Keeps

theorem Network.openSocket_eq (addr : Address) (network : Network) :
    Network.openSocket addr network =
      match Network.perform .makeSocket (ascii "Failed to open socket") network with
      | .ok _ made => Network.bindSocket addr { made with opened := made.opened + 1 }
      | .error failure made => .error failure made := by
  unfold Network.openSocket
  simp only [bind, EStateM.bind]
  cases Network.perform .makeSocket (ascii "Failed to open socket") network <;> rfl

/-- The number of sockets grows by one, unless none could be made. -/
theorem Network.opened_openSocket (addr : Address) (network : Network) :
    match Network.openSocket addr network with
    | .ok _ network' => network'.opened = network.opened + 1
    | .error _ network' => network.opened ≤ network'.opened := by
  rw [openSocket_eq]
  cases hm : Network.perform .makeSocket (ascii "Failed to open socket") network with
  | error f made => exact Nat.le_of_eq ((Keeps.networkPerform _ _).of_error hm).symm
  | ok _ made =>
      have hm := (Keeps.networkPerform _ _).of_ok hm
      simp only
      cases hb : Network.bindSocket addr { made with opened := made.opened + 1 } with
      | ok _ bound => exact ((Keeps.bindSocket _).of_ok hb).trans (by simp only [hm])
      | error f bound =>
          have hb := (Keeps.bindSocket _).of_error hb
          simp only at hb ⊢
          omega

/-! ## The world -/

variable {S : Storage}

/-- The part of a world that no transfer changes. -/
structure World.Frame where
  clock : Int
  verbose : Bool
  stopping : Bool
  opened : Nat

def World.frame (w : World S) : World.Frame :=
  ⟨w.clock, w.verbose, w.stopping, w.network.opened⟩

namespace Keeps

variable {α : Type}

theorem note (event : Event) : Keeps World.frame (World.note (S := S) event) := fun _ => rfl

theorem worldLog (notice : Notice) : Keeps World.frame (World.log (S := S) notice) := by
  apply bind get
  intro w
  split
  · exact note _
  · exact pure _

theorem onNetwork {operation : NetworkM α} (h : Keeps Network.opened operation) :
    Keeps World.frame (World.onNetwork (S := S) operation) := by
  intro w
  unfold World.onNetwork
  cases hr : operation w.network with
  | ok a network => simp only [World.frame, h.of_ok hr]
  | error f network => simp only [World.frame, h.of_error hr]

theorem onStore (effect : Effect S.State α) : Keeps World.frame (World.onStore effect) := by
  intro w
  unfold World.onStore
  cases hr : (effect w.store).result <;> simp only [hr] <;> rfl

theorem worldSend (socket : Socket) (receiver : Address) (bytes : Bytes) :
    Keeps World.frame (World.send (S := S) socket receiver bytes) :=
  bind (onNetwork (networkSend bytes)) fun _ => bind get fun _ => note _

end Keeps

/-! ## Reactions -/

namespace Transfer

/-- The part of a scene that no reaction changes. -/
structure Frame where
  direction : Direction
  request : Request
  peer : Address
  socket : Socket
  config : Config
  heedsStop : Bool
  world : World.Frame

def Scene.frame (s : Scene S) : Frame where
  direction := s.self.direction
  request := s.self.request
  peer := s.self.peer
  socket := s.self.socket
  config := s.self.config
  heedsStop := s.self.heedsStop
  world := s.world.frame

/-- A reaction that leaves the frame of its scene alone. -/
abbrev Steady {α : Type} (m : Reaction S α) : Prop := Keeps Scene.frame m

namespace Steady

variable {α : Type}

theorem act {m : Act S α} (h : Keeps World.frame m) : Steady (liftM m : Reaction S α) := by
  intro s
  rw [liftM_eq]
  cases hr : m s.world with
  | ok a world => simp only [Scene.frame, h.of_ok hr]
  | error f world => simp only [Scene.frame, h.of_error hr]

theorem self : Steady (Transfer.self (S := S)) := fun _ => rfl

theorem now : Steady (Transfer.now (S := S)) := fun _ => rfl

theorem log (notice : Notice) : Steady (Transfer.log (S := S) notice) := act (.worldLog notice)

theorem transmit (packet : Packet) : Steady (Transfer.transmit (S := S) packet) :=
  .bind self fun _ => .bind (log _) fun _ => act (.worldSend _ _ _)

theorem openReader : Steady (Read.openFile (S := S)) :=
  .bind self fun _ => .bind (act (.onStore _)) fun _ => .bind (fun _ => rfl) fun _ => .pure _

theorem openWriter : Steady (Write.openFile (S := S)) :=
  .bind self fun _ => .bind (act (.onStore _)) fun _ _ => rfl

theorem readSome (n : Nat) : Steady (Read.readSome (S := S) n) := by
  intro s
  unfold Read.readSome
  cases s.self.reader with
  | none => rfl
  | some reader =>
      simp only
      cases (S.read n (s.world.store, reader)).result <;> rfl

theorem onWriter (effect : Effect (S.State × S.Writer) Unit) : Steady (Write.onWriter effect) := by
  intro s
  unfold Write.onWriter
  cases s.self.writer with
  | none => rfl
  | some writer =>
      simp only
      cases (effect (s.world.store, writer)).result <;> rfl

theorem store (effect : Effect (S.State × S.Writer) Unit) : Steady (Write.store effect) :=
  .tryCatch (onWriter effect) fun _ => .throw _

theorem update {f : Transfer S → Transfer S} (hf : Inner f) : Steady (Transfer.update f) := fun s =>
  congrArg (fun e : Errand S => (⟨e.direction, e.request, e.peer, e.socket, e.config, e.heedsStop,
    s.world.frame⟩ : Frame)) (hf.errand s.self)

theorem pervasive : Pervasive (@Steady S) where
  pure := .pure
  throw := .throw
  bind := .bind
  self_bind _ := .bind self
  update := update
  now := now
  stopping _ := rfl
  log := log
  transmit := transmit
  beginReceive := act (.onNetwork .beginReceive)
  openReader := openReader
  read := readSome
  openWriter := openWriter
  write _ := store _
  finish := store _
  abort := onWriter _
  tryCatch := .tryCatch
  rejectStranger _ := .bind (log _) fun _ => .bind self fun _ =>
    .tryCatch (act (.worldSend _ _ _)) fun _ => log _

theorem turn (reception? : Option Reception) : Steady (guarded (Transfer.turn (S := S) reception?)) :=
  pervasive.turn reception?

theorem begin : Steady (Transfer.begin (S := S)) := begin_eq ▸ turn none

theorem resume (reception : Reception) : Steady (Transfer.resume (S := S) reception) :=
  resume_eq reception ▸ turn (some reception)

end Steady

/-- **A reaction leaves the frame of its scene alone**, seen from the server that performs it. -/
theorem Steady.perform {m : Reaction S Unit} (h : Steady m) {result : Except Failure Unit}
    {t t' : Transfer S} {w w' : World S} (hp : Transfer.perform m t w = (result, t', w')) :
    (⟨t', w'⟩ : Scene S).frame = (⟨t, w⟩ : Scene S).frame := by
  unfold Transfer.perform at hp
  cases hr : m ⟨t, w⟩ with
  | ok a s =>
      rw [hr] at hp
      cases hp
      exact h.of_ok hr
  | error f s =>
      rw [hr] at hp
      cases hp
      exact h.of_error hr

end Transfer

end Tftp
