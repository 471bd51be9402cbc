import Tftp.Proofs.Makeup

/-!
# What a reaction depends on

Two scenes are `Akin` if nobody who matters can tell them apart: the transfer is the same, and so are
the storage, the clock and the wish to stop, and the peer and the storage have been told the same.
They may differ in the log, in what strangers have been sent, and in their networks.

A reaction is `Alike` if it has the same result in all akin scenes and leaves akin scenes behind. For
this the two networks must be indistinct: what one of them refuses the other refuses as well. There
is one rule for each way to build a reaction, and one lemma for each elementary reaction.
-/

namespace Tftp

variable {S : Storage}

/-- Whether an event concerns the peer of a transfer or its storage, and not only the log or
strangers. -/
def Event.concerns (peer : Address) : Event → Bool
  | logged _ => false
  | sent _ receiver _ _ => receiver = peer
  | _ => true

/-- What the peer and the storage have been told, oldest first. -/
def World.told (peer : Address) (w : World S) : List Event :=
  w.trace.reverse.filter (Event.concerns peer)

/-- Whether a receive brings a datagram from somebody else than the peer. -/
def Reception.isForeign (peer : Address) : Reception → Bool
  | datagram sender _ => sender ≠ peer
  | _ => false

namespace Network

/-- Related networks answer an operation alike. If it succeeds, they remain related; if it fails, it
fails in the same way. -/
def Agree (related : Network → Network → Prop) (operation : NetworkM Unit) : Prop :=
  ∀ ⦃n m⦄, related n m →
    (∃ n' m', operation n = .ok () n' ∧ operation m = .ok () m' ∧ related n' m') ∨
    ∃ f n' m', operation n = .error f n' ∧ operation m = .error f m'

/-- A transfer cannot tell related networks apart. -/
structure Indistinct (related : Network → Network → Prop) : Prop where
  send : ∀ bytes, Agree related (send bytes)
  beginReceive : Agree related beginReceive

end Network

namespace Transfer

/-- Scenes that only the log, the strangers and the network can tell apart. In the first scene part
of the past may already have been put on record elsewhere. -/
structure Akin (peer : Address) (past : List Event) (related : Network → Network → Prop)
    (s t : Scene S) : Prop where
  self : s.self = t.self
  store : s.world.store = t.world.store
  clock : s.world.clock = t.world.clock
  stopping : s.world.stopping = t.world.stopping
  told : past ++ s.world.told peer = t.world.told peer
  network : related s.world.network t.world.network

/-- The same result in akin scenes. After a failure the networks do not matter any more. -/
inductive Match {α : Type} (peer : Address) (past : List Event)
    (related : Network → Network → Prop) :
    EStateM.Result Failure (Scene S) α → EStateM.Result Failure (Scene S) α → Prop
  | ok (a : α) {s t : Scene S} : Akin peer past related s t →
      Match peer past related (.ok a s) (.ok a t)
  | error (f : Failure) {s t : Scene S} : Akin peer past (fun _ _ => True) s t →
      Match peer past related (.error f s) (.error f t)

/-- A reaction that has the same result in all akin scenes. -/
def Alike {α : Type} (related : Network → Network → Prop) (m : Reaction S α) : Prop :=
  ∀ ⦃peer : Address⦄ ⦃past : List Event⦄ ⦃s t : Scene S⦄, Akin peer past related s t →
    Match peer past related (m s) (m t)

section

variable {peer : Address} {past : List Event} {related : Network → Network → Prop}
  {s t u : Scene S}

namespace Akin

theorem refl (peer : Address) (hn : related s.world.network s.world.network) :
    Akin peer [] related s s :=
  ⟨rfl, rfl, rfl, rfl, rfl, hn⟩

/-- The networks need not matter. -/
theorem anyway (h : Akin peer past related s t) : Akin peer past (fun _ _ => True) s t :=
  { h with network := trivial }

/-- Nothing that matters has happened in the first scene. -/
theorem after (h : Akin peer past (fun _ _ => True) s t) (hu : Akin peer [] (fun _ _ => True) s u)
    (hn : related u.world.network t.world.network) : Akin peer past related u t where
  self := hu.self.symm.trans h.self
  store := hu.store.symm.trans h.store
  clock := hu.clock.symm.trans h.clock
  stopping := hu.stopping.symm.trans h.stopping
  told := by rw [← hu.told]; exact h.told
  network := hn

/-- Nothing that matters has happened in the second scene. -/
theorem after_right (h : Akin peer past (fun _ _ => True) s t)
    (hu : Akin peer [] (fun _ _ => True) t u) (hn : related s.world.network u.world.network) :
    Akin peer past related s u where
  self := h.self.trans hu.self
  store := h.store.trans hu.store
  clock := h.clock.trans hu.clock
  stopping := h.stopping.trans hu.stopping
  told := h.told.trans hu.told
  network := hn

theorem changing (h : Akin peer past related s t) (f : Transfer S → Transfer S) :
    Akin peer past related { s with self := f s.self } { t with self := f t.self } :=
  { h with self := congrArg f h.self }

/-- The same is done in both scenes. -/
theorem doing (h : Akin peer past related s t) (self : Transfer S) (store : S.State)
    (events : List Event) : Akin peer past related
      { self, world := { s.world with store, trace := events.reverse ++ s.world.trace } }
      { self, world := { t.world with store, trace := events.reverse ++ t.world.trace } } where
  self := rfl
  store := rfl
  clock := h.clock
  stopping := h.stopping
  told := by
    have ht : past ++ s.world.trace.reverse.filter (Event.concerns peer) =
      t.world.trace.reverse.filter (Event.concerns peer) := h.told
    simp only [World.told, List.reverse_append, List.reverse_reverse, List.filter_append]
    rw [← List.append_assoc, ht]
  network := h.network

end Akin

/-! ## Rules for building reactions -/

namespace Match

variable {α β : Type}

theorem bind {m : Reaction S α} {f : α → Reaction S β} (hm : Match peer past related (m s) (m t))
    (hf : ∀ a, Alike related (f a)) : Match peer past related ((m >>= f) s) ((m >>= f) t) := by
  show Match peer past related (EStateM.bind m f s) (EStateM.bind m f t)
  unfold EStateM.bind
  generalize m s = r, m t = r' at hm
  cases hm with
  | ok a h => exact hf a h
  | error f h => exact .error f h

/-- A handler that fails again need not find networks that are related. -/
theorem tryCatch {m : Reaction S α} {handler : Failure → Reaction S α}
    (hm : Match peer past related (m s) (m t))
    (hh : ∀ f, Alike (fun _ _ => True) (handler f)) (fails : ∀ f s a s', handler f s ≠ .ok a s') :
    Match peer past related (MonadExcept.tryCatch m handler s)
      (MonadExcept.tryCatch m handler t) := by
  show Match peer past related (EStateM.tryCatch m handler s) (EStateM.tryCatch m handler t)
  unfold EStateM.tryCatch
  generalize m s = r, m t = r' at hm
  cases hm with
  | ok a h => exact .ok a h
  | @error f s t h =>
      have hh := hh f h
      have hf := fails f s
      show Match peer past related (handler f s) (handler f t)
      generalize handler f s = r, handler f t = r' at hh hf
      cases hh with
      | ok a h => exact absurd rfl (hf a _)
      | error g h => exact .error g h

end Match

namespace Alike

variable {α β : Type}

theorem pure (a : α) : Alike related (Pure.pure a : Reaction S α) := fun _ _ _ _ h => .ok a h

theorem throw (f : Failure) : Alike related (MonadExcept.throw f : Reaction S α) :=
  fun _ _ _ _ h => .error f h.anyway

theorem bind {m : Reaction S α} {f : α → Reaction S β} (hm : Alike related m)
    (hf : ∀ a, Alike related (f a)) : Alike related (m >>= f) :=
  fun _ _ _ _ h => (hm h).bind hf

theorem self : Alike related (Transfer.self (S := S)) := by
  intro peer past s t h
  show Match peer past related (.ok s.self s) (.ok t.self t)
  rw [← h.self]
  exact .ok _ h

theorem now : Alike related (Transfer.now (S := S)) := by
  intro peer past s t h
  show Match peer past related (.ok s.world.clock s) (.ok t.world.clock t)
  rw [← h.clock]
  exact .ok _ h

theorem stopping : Alike related (Transfer.stopping (S := S)) := by
  intro peer past s t h
  show Match peer past related (.ok s.world.stopping s) (.ok t.world.stopping t)
  rw [← h.stopping]
  exact .ok _ h

theorem update (f : Transfer S → Transfer S) : Alike related (Transfer.update f) :=
  fun _ _ _ _ h => .ok () (h.changing f)

/-! ## The world -/

theorem log (notice : Notice) : Alike related (Transfer.log (S := S) notice) := by
  intro peer past s t h
  have put (s : Scene S) : (s.put (.logged notice)).world.told peer = s.world.told peer := by
    simp [World.told, Scene.put, Event.concerns]
  rw [log_eq, log_eq]
  split <;> split
  · exact .ok () { h with told := by rw [put, put]; exact h.told }
  · exact .ok () { h with told := by rw [put]; exact h.told }
  · exact .ok () { h with told := by rw [put]; exact h.told }
  · exact .ok () h

theorem onNetwork {operation : NetworkM Unit} (ho : Network.Agree related operation) :
    Alike related (liftM (World.onNetwork (S := S) operation) : Reaction S Unit) := by
  intro peer past s t h
  rw [liftM_eq, liftM_eq]
  unfold World.onNetwork
  obtain ⟨n, m, hn, hm, hr⟩ | ⟨f, n, m, hn, hm⟩ := ho h.network
  · rw [hn, hm]
    exact .ok () { h with network := hr }
  · rw [hn, hm]
    exact .error f { h with network := trivial }

theorem onStore (effect : Effect S.State α) :
    Alike related (liftM (World.onStore effect) : Reaction S α) := by
  intro peer past s t h
  rw [liftM_eq, liftM_eq]
  unfold World.onStore
  rw [← h.store, ← h.self]
  have hd := h.doing s.self (effect s.world.store).state (effect s.world.store).events
  cases hr : (effect s.world.store).result with
  | ok a =>
      simp only [hr]
      exact .ok a hd
  | error f =>
      simp only [hr]
      exact .error f hd.anyway

theorem worldSend (hi : Network.Indistinct related) (socket : Socket) (receiver : Address)
    (bytes : Bytes) :
    Alike related (liftM (World.send (S := S) socket receiver bytes) : Reaction S Unit) := by
  intro peer past s t h
  rw [liftM_eq, liftM_eq, World.send_eq, World.send_eq]
  obtain ⟨n, m, hn, hm, hr⟩ | ⟨f, n, m, hn, hm⟩ := hi.send bytes h.network
  · rw [hn, hm]
    rw [← h.clock, ← h.self]
    have hd := h.doing s.self s.world.store [.sent socket.address receiver bytes s.world.clock]
    exact .ok () ⟨rfl, h.store, rfl, h.stopping, hd.told, hr⟩
  · rw [hn, hm]
    exact .error f { h with network := trivial }

theorem readSome (n : Nat) : Alike related (Read.readSome (S := S) n) := by
  intro peer past s t h
  unfold Read.readSome
  rw [← h.self, ← h.store]
  cases hr : s.self.reader with
  | none => exact .ok [] h
  | some reader =>
      have hd := h.doing { s.self with reader := some (S.read n (s.world.store, reader)).state.2 }
        (S.read n (s.world.store, reader)).state.1 (S.read n (s.world.store, reader)).events
      dsimp only
      cases (S.read n (s.world.store, reader)).result with
      | ok bytes => exact .ok _ hd
      | error f => exact .error _ hd.anyway

theorem onWriter (effect : Effect (S.State × S.Writer) Unit) :
    Alike related (Write.onWriter effect) := by
  intro peer past s t h
  unfold Write.onWriter
  rw [← h.self, ← h.store]
  cases hw : s.self.writer with
  | none => exact .ok () h
  | some writer =>
      have hd := h.doing { s.self with writer := some (effect (s.world.store, writer)).state.2 }
        (effect (s.world.store, writer)).state.1 (effect (s.world.store, writer)).events
      dsimp only
      cases (effect (s.world.store, writer)).result with
      | ok u => exact .ok () hd
      | error f => exact .error f hd.anyway

theorem store (effect : Effect (S.State × S.Writer) Unit) : Alike related (Write.store effect) :=
  fun _ _ _ _ h => (onWriter effect h).tryCatch (fun _ => throw _) fun _ _ _ _ => nofun

/-- To leave, a transfer needs no network. -/
theorem leave : Alike related (Transfer.leave (S := S)) := by
  apply bind self
  intro t
  split
  · exact bind (onWriter _) fun _ => log _
  · exact log _

theorem fall (f : Failure) : Alike related (Transfer.fall (S := S) f) :=
  bind (update _) fun _ => bind leave fun _ => throw f

/-- **Whatever a transfer does about its peer is the same in akin scenes.** -/
theorem compositional (hi : Network.Indistinct related) :
    Compositional (S := S) (fun m => Alike related m) where
  pure := pure
  throw := throw
  bind := bind
  self_bind _ := bind self
  update _ := update _
  now := now
  stopping := stopping
  log := log
  transmit _ := bind self fun _ => bind (log _) fun _ => worldSend hi _ _ _
  beginReceive := onNetwork hi.beginReceive
  openReader := bind self fun _ => bind (onStore _) fun _ => bind (update _) fun _ => pure _
  read := readSome
  openWriter := bind self fun _ => bind (onStore _) fun _ => update _
  write _ := store _
  finish := store _
  abort := onWriter _

end Alike

/-! ## Turns -/

namespace Match

theorem guarded {m : Reaction S Unit} (hm : Match peer past related (m s) (m t)) :
    Match peer past related (Transfer.guarded m s) (Transfer.guarded m t) := by
  refine bind (tryCatch hm Alike.fall fun f s u s' hs => ?_) fun _ => ?_
  · obtain ⟨s'', hf, -⟩ := fall_eq_error f s
    cases hs.symm.trans hf
  · apply Alike.bind .self
    intro t
    split
    · exact .leave
    · exact .pure _

/-- Seen from outside. -/
theorem outcome {m : Reaction S Unit} (h : Match peer past related (m s) (m t)) :
    s.resultOf m = t.resultOf m ∧ Akin peer past (fun _ _ => True) (s.after m) (t.after m) ∧
    (s.resultOf m = .ok () → related (s.after m).world.network (t.after m).world.network) := by
  generalize hs : m s = r, ht : m t = r' at h
  cases h with
  | ok u h =>
      obtain ⟨hres, hafter⟩ := Scene.after_of_ok hs
      obtain ⟨hres', hafter'⟩ := Scene.after_of_ok ht
      rw [hres, hres', hafter, hafter']
      exact ⟨rfl, h.anyway, fun _ => h.network⟩
  | error f h =>
      obtain ⟨hres, hafter⟩ := Scene.after_of_error hs
      obtain ⟨hres', hafter'⟩ := Scene.after_of_error ht
      rw [hres, hres', hafter, hafter']
      exact ⟨rfl, h, nofun⟩

variable (hi : Network.Indistinct related)

include hi

/-- What a transfer does about what its peer has sent is the same in akin scenes. -/
theorem heed {reception : Reception} (h : Akin peer past related s t)
    (hr : reception.isForeign s.self.peer = false) :
    Match peer past related (Transfer.heed reception s) (Transfer.heed reception t) := by
  unfold Transfer.heed
  cases reception with
  | nothing => exact .ok false h
  | failed errno =>
      dsimp only [Reception.cut, Reception.outcome]
      split
      · exact Alike.pure _ h
      · exact Alike.throw _ h
  | datagram sender bytes =>
      have hs : ¬ sender ≠ s.self.peer := by simpa [Reception.isForeign] using hr
      show Match peer past related
        ((if sender ≠ s.self.peer then _ else _ : Reaction S Bool) s)
        ((if sender ≠ t.self.peer then _ else _ : Reaction S Bool) t)
      rw [← h.self, if_neg hs]
      cases Packet.parse (bytes.take Network.maxDatagram) with
      | error malformed => exact Alike.bind (.log _) (fun _ => .pure _) h
      | ok packet => exact Alike.bind (.log _) (fun _ => (Alike.compositional hi).handle packet) h

/-- **A turn is the same in akin scenes**, unless it is about a datagram from a stranger. -/
theorem turn {reception? : Option Reception} (h : Akin peer past related s t)
    (hr : ∀ reception, reception? = some reception → reception.isForeign s.self.peer = false) :
    Match peer past related (Transfer.guarded (Transfer.turn reception?) s)
      (Transfer.guarded (Transfer.turn reception?) t) := by
  have compositional := Alike.compositional (S := S) hi
  refine guarded (bind ?_ fun _ => compositional.settle)
  cases reception? with
  | none =>
      exact Alike.bind compositional.start
        (fun _ => .bind compositional.rearm fun _ => .pure true) h
  | some reception =>
      refine bind (heed hi h (hr reception rfl)) fun moved => ?_
      cases moved with
      | false => exact .pure false
      | true => exact .bind compositional.advance fun _ => .pure true

end Match

end

end Transfer

end Tftp
