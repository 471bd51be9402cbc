import Tftp.Proofs.Frame
import Tftp.Proofs.Reaction

/-!
# What a reaction ensures on a network

`Ensures` leaves the network out of account: whatever is sent may be refused. Where it matters why a
transfer has failed, the network counts as well. `EnsuresOn n m v Q E` says of the reaction `m` what
`Ensures` says of it, but only in scenes with the network `n`, and `Q` and `E` may speak of the
network afterwards.

The rules are the same ones, except that a send and a receive ask the network that is at hand. What
does neither is `Offline`: it leaves the network alone, and the rules for `Ensures` do for it.
-/

namespace Tftp

/-- A network after a number of datagrams have been handed to it, whether it has taken them or
not. -/
inductive Network.Used (network : Network) : Network → Prop
  | unused : Used network network
  | taken {before after : Network} {bytes : Bytes} : Used network before →
      send bytes before = .ok () after → Used network after
  | refused {before after : Network} {bytes : Bytes} {f : Failure} : Used network before →
      send bytes before = .error f after → Used network after

theorem Network.Used.trans {a b c : Network} (h : a.Used b) (h' : b.Used c) : a.Used c := by
  induction h' with
  | unused => exact h
  | taken _ hs ih => exact .taken ih hs
  | refused _ hs ih => exact .refused ih hs

namespace Transfer

variable {S : Storage} {α β : Type}

/-! ## Leaving the network alone -/

/-- A reaction that does nothing on the network. -/
abbrev Offline (m : Reaction S α) : Prop := Keeps (fun s : Scene S => s.world.network) m

namespace Offline

theorem self : Offline (Transfer.self (S := S)) := fun _ => rfl

theorem update (f : Transfer S → Transfer S) : Offline (Transfer.update f) := fun _ => rfl

theorem log (notice : Notice) : Offline (Transfer.log (S := S) notice) := by
  intro s
  unfold Transfer.log
  rw [liftM_eq, World.log_eq]
  dsimp only
  split <;> rfl

theorem onStore (effect : Effect S.State α) :
    Offline (liftM (World.onStore (S := S) effect) : Reaction S α) := by
  intro s
  rw [liftM_eq]
  unfold World.onStore
  dsimp only
  cases (effect s.world.store).result <;> rfl

theorem readSome (n : Nat) : Offline (Read.readSome (S := S) n) := by
  intro s
  unfold Read.readSome
  cases s.self.reader with
  | none => rfl
  | some reader =>
      dsimp only
      cases (S.read n (s.world.store, reader)).result <;> rfl

theorem fill (n : Nat) (chunks : List Bytes) : Offline (Read.fill (S := S) n chunks) :=
  Read.fill_induction .pure (fun n _ h => .bind (readSome n) h) n chunks

theorem onWriter (effect : Effect (S.State × S.Writer) Unit) : Offline (Write.onWriter effect) := by
  intro s
  unfold Write.onWriter
  cases s.self.writer with
  | none => rfl
  | some writer =>
      dsimp only
      cases (effect (s.world.store, writer)).result <;> rfl

theorem store (effect : Effect (S.State × S.Writer) Unit) : Offline (Write.store effect) :=
  .tryCatch (onWriter effect) fun _ => .throw _

theorem settleTerms (fileSize : Option UInt64) : Offline (Transfer.settleTerms (S := S) fileSize) := by
  refine .bind self fun t => ?_
  split
  · exact .throw _
  · exact .bind (log _) fun _ => update _

theorem leave : Offline (Transfer.leave (S := S)) := by
  refine .bind self fun t => ?_
  split
  · exact .bind (onWriter _) fun _ => log _
  · exact log _

theorem fall (f : Failure) : Offline (Transfer.fall (S := S) f) :=
  .bind (update _) fun _ => .bind leave fun _ => .throw f

end Offline

/-! ## Scenes with a given network -/

/-- What a reaction ensures in every scene with the given view and the given network. -/
def EnsuresOn (n : Network) (m : Reaction S α) (v : View S) (Q : α → View S → Network → Prop)
    (E : Failure → View S → Network → Prop) : Prop :=
  ∀ s : Scene S, s.view = v → s.world.network = n →
    match m s with
    | .ok a s' => Q a s'.view s'.world.network
    | .error f s' => E f s'.view s'.world.network

/-- What is ensured on every network is ensured. -/
theorem Ensures.onEvery {m : Reaction S α} {v : View S} {Q : α → View S → Prop}
    {E : Failure → View S → Prop}
    (h : ∀ n, EnsuresOn n m v (fun a w _ => Q a w) fun f w _ => E f w) : Ensures m v Q E :=
  fun s hs => h s.world.network s hs rfl

theorem Ensures.on {m : Reaction S α} {v : View S} {Q : α → View S → Prop}
    {E : Failure → View S → Prop} (h : Ensures m v Q E) {n : Network} :
    EnsuresOn n m v (fun a w _ => Q a w) fun f w _ => E f w :=
  fun s hs _ => h s hs

namespace EnsuresOn

variable {n : Network} {v : View S} {Q : α → View S → Network → Prop}
  {R : β → View S → Network → Prop} {U : Unit → View S → Network → Prop}
  {E F : Failure → View S → Network → Prop}

theorem pure {a : α} (h : Q a v n) : EnsuresOn n (S := S) (Pure.pure a) v Q E := by
  rintro s rfl rfl
  exact h

theorem throw {f : Failure} (h : E f v n) :
    EnsuresOn n (MonadExcept.throw f : Reaction S α) v Q E := by
  rintro s rfl rfl
  exact h

theorem bind {m : Reaction S α} {f : α → Reaction S β}
    (h : EnsuresOn n m v (fun a v' n' => EnsuresOn n' (f a) v' R E) E) :
    EnsuresOn n (m >>= f) v R E := by
  rintro s rfl rfl
  have hm := h s rfl rfl
  cases hr : m s with
  | ok a s' =>
      rw [hr] at hm
      rw [bind_of_ok hr]
      exact hm s' rfl rfl
  | error e s' =>
      rw [hr] at hm
      rw [bind_of_error hr]
      exact hm

theorem tryCatch {m : Reaction S α} {handler : Failure → Reaction S α}
    (h : EnsuresOn n m v Q (fun f v' n' => EnsuresOn n' (handler f) v' Q E)) :
    EnsuresOn n (MonadExcept.tryCatch m handler) v Q E := by
  rintro s rfl rfl
  have hm := h s rfl rfl
  cases hr : m s with
  | ok a s' =>
      rw [hr] at hm
      rw [tryCatch_of_ok hr]
      exact hm
  | error e s' =>
      rw [hr] at hm
      rw [tryCatch_of_error hr]
      exact hm s' rfl rfl

theorem mono {m : Reaction S α} {Q' : α → View S → Network → Prop} (h : EnsuresOn n m v Q E)
    (ok : ∀ a v' n', Q a v' n' → Q' a v' n') (fails : ∀ f v' n', E f v' n' → F f v' n') :
    EnsuresOn n m v Q' F := by
  rintro s rfl rfl
  have hm := h s rfl rfl
  cases hr : m s with
  | ok a s' =>
      rw [hr] at hm
      exact ok a _ _ hm
  | error e s' =>
      rw [hr] at hm
      exact fails e _ _ hm

/-- What does nothing on the network is dealt with without it. -/
theorem offline {m : Reaction S α} (hm : Offline m)
    (h : Ensures m v (fun a w => Q a w n) fun f w => E f w n) : EnsuresOn n m v Q E := by
  rintro s rfl rfl
  have h := h s rfl
  cases hr : m s with
  | ok a s' =>
      have hn : s'.world.network = s.world.network := hm.of_ok hr
      rw [hr] at h
      dsimp only
      rw [hn]
      exact h
  | error f s' =>
      have hn : s'.world.network = s.world.network := hm.of_error hr
      rw [hr] at h
      dsimp only
      rw [hn]
      exact h

theorem self {R : Transfer S → View S → Network → Prop} (h : R v.self v n) :
    EnsuresOn n Transfer.self v R E := offline .self (.self h)

theorem now {R : Int → View S → Network → Prop} (h : R v.clock v n) :
    EnsuresOn n Transfer.now v R E := offline (fun _ => rfl) (.now h)

theorem get {R : Scene S → View S → Network → Prop} (h : ∀ s : Scene S, s.view = v → R s v n) :
    EnsuresOn n (MonadState.get : Reaction S (Scene S)) v R E := offline .get (.get h)

theorem update {f : Transfer S → Transfer S} (h : U () (v.changing f) n) :
    EnsuresOn n (Transfer.update f) v U E := offline (.update f) (.update h)

theorem log {notice : Notice} (h : U () v n) : EnsuresOn n (Transfer.log notice) v U E :=
  offline (.log notice) (.log h)

/-- What happens on the network only leaves the view as it is. -/
theorem onNetwork {operation : NetworkM α} (ok : ∀ a n', operation n = .ok a n' → Q a v n')
    (fails : ∀ f n', operation n = .error f n' → E f v n') :
    EnsuresOn n (liftM (World.onNetwork (S := S) operation) : Reaction S α) v Q E := by
  rintro s rfl rfl
  rw [liftM_eq]
  unfold World.onNetwork
  cases hr : operation s.world.network with
  | ok a network => exact ok a network hr
  | error f network => exact fails f network hr

/-- A datagram is sent, and a record of it kept, or the network refuses it. -/
theorem worldSend {socket : Socket} {receiver : Address} {bytes : Bytes}
    (ok : ∀ n', Network.send bytes n = .ok () n' →
      U () (v.doing [.sent socket.address receiver bytes v.clock]) n')
    (fails : ∀ f n', Network.send bytes n = .error f n' → E f v n') :
    EnsuresOn n (liftM (World.send (S := S) socket receiver bytes) : Reaction S Unit) v U E := by
  rintro s rfl rfl
  rw [liftM_eq, World.send_eq]
  cases hr : Network.send bytes s.world.network with
  | ok _ network =>
      simpa [Scene.view, View.doing, World.deeds, Event.unlogged, Event.isLogged] using ok network hr
  | error f network => exact fails f network hr

end EnsuresOn

end Transfer

end Tftp
