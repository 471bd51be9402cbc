import Tftp.Proofs.Ignoring

/-!
# What the poll interval is for

How long a transfer waits before it looks again whether it is to stop is of no concern to what it
does in between: a reaction that is `PollFree` has the same result under every poll interval, and
leaves the same scene behind.

Every receive asks the network for a time limit and for a datagram. That is where it would show how
many receives there are, so the network must have no fault that makes one of the two fail
(`Network.Hears`). No reaction brings such a fault about.
-/

namespace Tftp

/-! ## Networks in which receives do not fail -/

/-- A fault that is none of a receive. -/
def Fault.SparesReceive (fault : Fault) : Prop :=
  fault.operation ≠ .setLimit ∧ fault.operation ≠ .receive

instance (fault : Fault) : Decidable fault.SparesReceive :=
  inferInstanceAs (Decidable (_ ∧ _))

namespace Network

/-- Every receive waits until something comes or its time is up. -/
def Hears (network : Network) : Prop := ∀ fault ∈ network.faults, fault.SparesReceive

/-- What the faults of a network are about. -/
def kinds (network : Network) : List Operation := network.faults.map Fault.operation

/-- Asking for an operation uses faults up, but they remain faults of the same operations. -/
theorem map_operation_askFaults (operation : Operation) (faults : List Fault) :
    (askFaults operation faults).2.map Fault.operation = faults.map Fault.operation := by
  induction faults with
  | nil => rfl
  | cons fault faults ih =>
      rw [askFaults]
      split
      · split <;> rfl
      · exact congrArg (fault.operation :: ·) ih

/-- Where no fault is of some kind, no operation of that kind fails, and no fault is used up. -/
theorem askFaults_of_ne {operation : Operation} {faults : List Fault}
    (h : ∀ fault ∈ faults, fault.operation ≠ operation) :
    askFaults operation faults = (none, faults) := by
  induction faults with
  | nil => rfl
  | cons first faults ih =>
      rw [askFaults, if_neg fun hf => h first List.mem_cons_self hf.1,
        ih fun fault hf => h fault (List.mem_cons_of_mem _ hf)]

variable {network : Network}

theorem Hears.of_kinds {network' : Network} (h : network.Hears)
    (hk : network'.kinds = network.kinds) : network'.Hears := by
  intro fault hf
  have hm : fault.operation ∈ network.kinds := hk ▸ List.mem_map_of_mem hf
  obtain ⟨before, hb, he⟩ := List.mem_map.1 hm
  rw [Fault.SparesReceive, ← he]
  exact h before hb

theorem Hears.beginReceive (h : network.Hears) : Network.beginReceive network = .ok () network := by
  have hmake : Attempt.make network.faults = (.waits, network.faults) := by
    unfold Attempt.make
    simp only [askFaults_of_ne fun fault hf => (h fault hf).1,
      askFaults_of_ne fun fault hf => (h fault hf).2]
  have hall : Attempt.makeAll network.faults = (.ok (), network.faults) := by
    rw [Attempt.makeAll]
    split <;> simp_all
  rw [beginReceive_eq, hall]

end Network

namespace Keeps

/-- What asking leaves alone is left alone by every operation that asks. -/
theorem kinds_perform (operation : Operation) (context : Bytes) :
    Keeps Network.kinds (Network.perform operation context) := by
  have ask : Keeps Network.kinds (Network.ask operation) := fun network =>
    Network.map_operation_askFaults operation network.faults
  refine .bind ask fun errno? => ?_
  cases errno? with
  | none => exact .pure _
  | some errno => exact .throw _

theorem kinds_send (bytes : Bytes) : Keeps Network.kinds (Network.send bytes) := by
  refine .bind (kinds_perform _ _) fun _ => ?_
  split
  · exact .throw _
  · exact .pure _

theorem kinds_openSocket (addr : Address) : Keeps Network.kinds (Network.openSocket addr) := by
  refine .bind (kinds_perform _ _) fun _ => .bind (fun _ => rfl) fun _ => ?_
  have close : Keeps Network.kinds Network.close := fun _ => rfl
  refine .bind (.tryCatch (kinds_perform _ _) fun _ => .bind close fun _ => .throw _) fun _ => ?_
  split
  · exact fun _ => rfl
  · exact .pure _

end Keeps

namespace Transfer

variable {S : Storage}

/-! ## Another poll interval -/

/-- The transfer under another poll interval. -/
def polling (ms : Nat) (t : Transfer S) : Transfer S :=
  { t with config := { t.config with pollInterval := ms } }

theorem disguised_polling (t : Transfer S) (ms : Nat) :
    t.disguised ms t.socket.address.port = t.polling ms := rfl

theorem Inner.polling {f : Transfer S → Transfer S} (hf : Inner f) (t : Transfer S) (ms : Nat) :
    f (t.polling ms) = (f t).polling ms := by
  have hsocket : (f t).socket = t.socket := congrArg Errand.socket (hf.errand t)
  rw [← disguised_polling, hf.disguised, ← hsocket, disguised_polling]

/-- The scene under another poll interval. -/
def Scene.polling (ms : Nat) (s : Scene S) : Scene S := { s with self := s.self.polling ms }

/-- The same result under another poll interval. -/
inductive Polled {α : Type} (ms : Nat) :
    EStateM.Result Failure (Scene S) α → EStateM.Result Failure (Scene S) α → Prop
  | ok (a : α) {s : Scene S} : s.world.network.Hears → Polled ms (.ok a s) (.ok a (s.polling ms))
  | error (f : Failure) {s : Scene S} : s.world.network.Hears →
      Polled ms (.error f s) (.error f (s.polling ms))

/-- A reaction that has the same result under every poll interval. -/
def PollFree {α : Type} (m : Reaction S α) : Prop :=
  ∀ (ms : Nat) ⦃s : Scene S⦄, s.world.network.Hears → Polled ms (m s) (m (s.polling ms))

namespace PollFree

variable {α β : Type}

/-! ## Rules for building reactions -/

theorem pure (a : α) : PollFree (Pure.pure a : Reaction S α) := fun _ _ h => .ok a h

theorem throw (f : Failure) : PollFree (MonadExcept.throw f : Reaction S α) :=
  fun _ _ h => .error f h

theorem bind {m : Reaction S α} {f : α → Reaction S β} (hm : PollFree m)
    (hf : ∀ a, PollFree (f a)) : PollFree (m >>= f) := by
  intro ms s h
  have hm := hm ms h
  show Polled ms (EStateM.bind m f s) (EStateM.bind m f (s.polling ms))
  unfold EStateM.bind
  generalize m s = r, m (s.polling ms) = r' at hm
  cases hm with
  | ok a h => exact hf a ms h
  | error f h => exact .error f h

theorem tryCatch {m : Reaction S α} {handler : Failure → Reaction S α} (hm : PollFree m)
    (hh : ∀ f, PollFree (handler f)) : PollFree (MonadExcept.tryCatch m handler) := by
  intro ms s h
  have hm := hm ms h
  show Polled ms (EStateM.tryCatch m handler s) (EStateM.tryCatch m handler (s.polling ms))
  unfold EStateM.tryCatch
  generalize m s = r, m (s.polling ms) = r' at hm
  cases hm with
  | ok a h => exact .ok a h
  | error f h => exact hh f ms h

/-- What is done next may depend on the transfer, but not on its poll interval. -/
theorem self_bind {f : Transfer S → Reaction S α} (hf : ∀ t ms, f (t.polling ms) = f t)
    (h : ∀ t, PollFree (f t)) : PollFree (Transfer.self >>= f) := by
  intro ms s hs
  show Polled ms (f s.self s) (f (s.self.polling ms) (s.polling ms))
  rw [hf]
  exact h s.self ms hs

theorem update {f : Transfer S → Transfer S} (hf : ∀ t ms, f (t.polling ms) = (f t).polling ms) :
    PollFree (Transfer.update f) := by
  intro ms s hs
  have he : Transfer.update f (s.polling ms) = .ok () { s with self := f (s.self.polling ms) } := rfl
  rw [he, hf]
  exact .ok () (s := { s with self := f s.self }) hs

/-! ## The world -/

/-- What happens in the world only does not know of the transfer. -/
theorem act {m : Act S α} (h : ∀ w, w.network.Hears → match m w with
    | .ok _ w' => w'.network.Hears
    | .error _ w' => w'.network.Hears) : PollFree (liftM m : Reaction S α) := by
  intro ms s hs
  rw [liftM_eq, liftM_eq]
  have hm := h s.world hs
  show Polled ms _ (match m s.world with
    | .ok a world => .ok a (Scene.polling ms { s with world })
    | .error f world => .error f (Scene.polling ms { s with world }))
  cases hr : m s.world with
  | ok a world =>
      rw [hr] at hm
      exact .ok a hm
  | error f world =>
      rw [hr] at hm
      exact .error f hm

theorem log (notice : Notice) : PollFree (Transfer.log (S := S) notice) := by
  refine act fun w hw => ?_
  rw [World.log_eq]
  dsimp only
  split <;> exact hw

theorem worldSend (socket : Socket) (receiver : Address) (bytes : Bytes) :
    PollFree (liftM (World.send (S := S) socket receiver bytes) : Reaction S Unit) := by
  refine act fun w hw => ?_
  rw [World.send_eq]
  cases hr : Network.send bytes w.network with
  | ok _ network => exact hw.of_kinds ((Keeps.kinds_send bytes).of_ok hr)
  | error f network => exact hw.of_kinds ((Keeps.kinds_send bytes).of_error hr)

theorem beginReceive :
    PollFree (liftM (World.onNetwork (S := S) Network.beginReceive) : Reaction S Unit) := by
  refine act fun w hw => ?_
  unfold World.onNetwork
  rw [hw.beginReceive]
  exact hw

theorem onStore (effect : Effect S.State α) :
    PollFree (liftM (World.onStore effect) : Reaction S α) := by
  refine act fun w hw => ?_
  unfold World.onStore
  dsimp only
  cases (effect w.store).result <;> exact hw

/-! ## Files -/

theorem openReader : PollFree (Read.openFile (S := S)) :=
  self_bind (fun _ _ => rfl) fun _ => bind (onStore _) fun _ => bind (update fun _ _ => rfl) fun _ =>
    pure _

theorem openWriter : PollFree (Write.openFile (S := S)) :=
  self_bind (fun _ _ => rfl) fun _ => bind (onStore _) fun _ => update fun _ _ => rfl

theorem readSome (n : Nat) : PollFree (Read.readSome (S := S) n) := by
  intro ms s hs
  have hsame : (s.polling ms).self.reader = s.self.reader := rfl
  unfold Read.readSome
  rw [hsame]
  cases s.self.reader with
  | none => exact .ok [] hs
  | some reader =>
      dsimp only [Scene.polling]
      cases (S.read n (s.world.store, reader)).result with
      | ok bytes => exact .ok _ hs
      | error f => exact .error _ hs

theorem onWriter (effect : Effect (S.State × S.Writer) Unit) :
    PollFree (Write.onWriter effect) := by
  intro ms s hs
  have hsame : (s.polling ms).self.writer = s.self.writer := rfl
  unfold Write.onWriter
  rw [hsame]
  cases s.self.writer with
  | none => exact .ok () hs
  | some writer =>
      dsimp only [Scene.polling]
      cases (effect (s.world.store, writer)).result with
      | ok u => exact .ok () hs
      | error f => exact .error f hs

theorem store (effect : Effect (S.State × S.Writer) Unit) : PollFree (Write.store effect) :=
  tryCatch (onWriter effect) fun _ => throw _

/-- **No reaction depends on the poll interval.** -/
theorem pervasive : Pervasive (@PollFree S) where
  pure := pure
  throw := throw
  bind := bind
  self_bind hf := self_bind fun t ms => hf t ms t.socket.address.port
  update hf := update hf.polling
  now _ s h := .ok s.world.clock h
  stopping _ s h := .ok s.world.stopping h
  log := log
  transmit _ := self_bind (fun _ _ => rfl) fun _ => bind (log _) fun _ => worldSend _ _ _
  beginReceive := beginReceive
  openReader := openReader
  read := readSome
  openWriter := openWriter
  write _ := store _
  finish := store _
  abort := onWriter _
  tryCatch := tryCatch
  rejectStranger _ := bind (log _) fun _ => self_bind (fun _ _ => rfl) fun _ =>
    tryCatch (worldSend _ _ _) fun _ => log _

end PollFree

/-- Seen from outside. -/
theorem Polled.outcome {ms : Nat} {m : Reaction S Unit} {s : Scene S}
    (h : Polled ms (m s) (m (s.polling ms))) :
    (s.polling ms).resultOf m = s.resultOf m ∧ (s.polling ms).after m = (s.after m).polling ms ∧
      (s.after m).world.network.Hears := by
  generalize hs : m s = r, ht : m (s.polling ms) = r' at h
  cases h with
  | ok u h =>
      obtain ⟨hres, hafter⟩ := Scene.after_of_ok hs
      obtain ⟨hres', hafter'⟩ := Scene.after_of_ok ht
      rw [hres, hres', hafter, hafter']
      exact ⟨rfl, rfl, h⟩
  | error f h =>
      obtain ⟨hres, hafter⟩ := Scene.after_of_error hs
      obtain ⟨hres', hafter'⟩ := Scene.after_of_error ht
      rw [hres, hres', hafter, hafter']
      exact ⟨rfl, rfl, h⟩

end Transfer

end Tftp
