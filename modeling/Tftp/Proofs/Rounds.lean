import Tftp.Proofs.Ignoring
import Tftp.Proofs.Shutdown

/-!
# The loop of a transfer, round by round

`Transfer.settle` catches up with all the deadlines that have passed and makes receives until one of
them waits. Seen from closer, that is a loop in which the transfer takes one look after the other: at
whether everything is to come to an end, at its deadline, and at whether the next receive waits. Each
round of the loop does one thing only.

    look ──lapsed──▶ look ──idle──▶ look ──waits──▶ …

`settle_of_look` says that the loop is what settling does.
-/

namespace Tftp

/-- All receives are one receive, and the others if it fails for the time being only. -/
theorem Attempt.makeAll_eq (faults : List Fault) : makeAll faults =
    match make faults with
    | (.waits, faults') => (.ok (), faults')
    | (.unlimited errno, faults') => (.error (limitFailure errno), faults')
    | (.fails errno, faults') =>
      if errno.isNothingYet then makeAll faults' else (.error (receiveFailure errno), faults') := by
  rw [makeAll]
  split <;> simp_all

namespace Network

/-- Makes one receive, and says whether it waits. It does not if it fails because nothing is there
yet, or because it has been interrupted. -/
def tryReceive : NetworkM Bool := do
  let network ← get
  let (attempt, faults) := Attempt.make network.faults
  set { network with faults }
  match attempt with
  | .waits => return true
  | .unlimited errno => throw (limitFailure errno)
  | .fails errno => if errno.isNothingYet then return false else throw (receiveFailure errno)

theorem tryReceive_eq (network : Network) : tryReceive network =
    match Attempt.make network.faults with
    | (.waits, faults) => .ok true { network with faults }
    | (.unlimited errno, faults) => .error (limitFailure errno) { network with faults }
    | (.fails errno, faults) =>
      if errno.isNothingYet then .ok false { network with faults }
      else .error (receiveFailure errno) { network with faults } := by
  have hget : (get : NetworkM Network) network = .ok network network := rfl
  refine (bind_of_ok hget).trans ?_
  obtain ⟨attempt, faults⟩ := Attempt.make network.faults
  cases attempt with
  | waits => rfl
  | unlimited errno => rfl
  | fails errno =>
      dsimp only
      cases errno.isNothingYet <;> rfl

/-- Beginning to receive is trying until a receive waits. -/
theorem beginReceive_of_tryReceive (network : Network) : beginReceive network =
    match tryReceive network with
    | .ok true network' => .ok () network'
    | .ok false network' => beginReceive network'
    | .error f network' => .error f network' := by
  rw [beginReceive_eq, tryReceive_eq, Attempt.makeAll_eq]
  obtain ⟨attempt, faults⟩ := Attempt.make network.faults
  cases attempt with
  | waits => rfl
  | unlimited errno => rfl
  | fails errno =>
      dsimp only
      cases errno.isNothingYet with
      | true => simp [beginReceive_eq]
      | false => simp

/-- A receive that has been tried in vain has used up a fault. -/
theorem remainingFaults_of_tryReceive {network network' : Network}
    (h : tryReceive network = .ok false network') :
    remainingFaults network'.faults < remainingFaults network.faults := by
  rw [tryReceive_eq] at h
  split at h
  next => cases h
  next => cases h
  next errno faults hm =>
    split at h
    · cases h
      have hlt := @Attempt.remainingFaults_make network.faults errno (by rw [hm])
      rwa [hm] at hlt
    · cases h

end Network

namespace Transfer

variable {S : Storage}

/-- How often the last packet may still be retransmitted. -/
def retriesLeft (t : Transfer S) : Nat := t.config.maxRetries - t.retries

/-- What a transfer does when its deadline has passed: it retransmits its last packet and puts the
deadline off, unless it has done so often enough. -/
def lapse : Reaction S Unit := do
  let transfer ← self
  if transfer.config.maxRetries ≤ transfer.retries then
    log (.givingUp transfer.peer)
    throw (.transfer .timedOut)
  else
    update fun transfer => { transfer with retries := transfer.retries + 1 }
    log (.retransmitting transfer.peer (transfer.retries + 1))
    resend
    rearm

theorem Compositional.lapse {P : {α : Type} → Reaction S α → Prop} (h : Compositional P) :
    P (Transfer.lapse (S := S)) := by
  refine h.self_bind (fun _ _ _ => rfl) fun t => ?_
  split
  · exact h.bind (h.log _) fun _ => h.throw _
  · exact h.bind (h.update ⟨fun _ _ _ => rfl, fun _ => rfl⟩) fun _ => h.bind (h.log _) fun _ =>
      h.bind h.resend fun _ => h.rearm

/-- What one look comes to. -/
inductive Look
  /-- The deadline had passed, and the last packet has been sent once more. -/
  | lapsed
  /-- There is nothing to receive yet. -/
  | idle
  /-- A receive waits. -/
  | waits
  deriving DecidableEq, Repr

/-- One look of a transfer: whether everything is to come to an end, whether its deadline has passed,
and whether its next receive waits. -/
def look : Reaction S Look := do
  let transfer ← self
  if transfer.heedsStop ∧ (← get).world.stopping then throw (.transfer .serverShutdown)
  else if (← now) < transfer.deadline then
    if ← World.onNetwork (S := S) Network.tryReceive then return .waits else return .idle
  else
    lapse
    return .lapsed

/-! ## What a lapse does -/

theorem Ensures.lapse {v : View S} {U : Unit → View S → Prop} {E : Failure → View S → Prop}
    (again : v.self.retries < v.self.config.maxRetries → U () v.again)
    (givesUp : v.self.config.maxRetries ≤ v.self.retries → E (.transfer .timedOut) v)
    (fails : ∀ f, E f (v.changing fun t => { t with retries := t.retries + 1 })) :
    Ensures Transfer.lapse v U E := by
  refine bind (self ?_)
  split
  next h => exact bind (log (throw (givesUp h)))
  next h => exact bind (update (bind (log (bind (resend (rearm (again (Nat.lt_of_not_le h))) fails)))))

/-- A transfer that has not given up has one retransmission less left, and its deadline is put off. -/
theorem lapse_view {s t : Scene S} (h : lapse s = .ok () t) :
    t.view = s.view.again ∧ s.self.retries < s.self.config.maxRetries := by
  have hv : Ensures lapse s.view
      (fun _ w => w = s.view.again ∧ s.self.retries < s.self.config.maxRetries)
      (fun _ _ => True) :=
    .lapse (fun h => ⟨rfl, h⟩) (fun _ => trivial) fun _ => trivial
  have hv := hv s rfl
  rw [h] at hv
  exact hv

theorem retriesLeft_le (t : Transfer S) : t.retriesLeft ≤ t.config.maxRetries := Nat.sub_le ..

/-- A lapse uses up one retransmission. -/
theorem retriesLeft_of_lapse {s t : Scene S} (h : lapse s = .ok () t) :
    s.self.retriesLeft = t.self.retriesLeft + 1 := by
  obtain ⟨hview, hlt⟩ := lapse_view h
  have hself : t.self = s.view.again.self := congrArg View.self hview
  rw [hself]
  show s.self.config.maxRetries - s.self.retries =
    s.self.config.maxRetries - (s.self.retries + 1) + 1
  omega

/-- Catching up begins with one lapse and goes on from there. -/
theorem catchUp_of_lapse {s : Scene S} (h : s.self.deadline ≤ s.world.clock) :
    catchUp s.self.retriesLeft s =
      match lapse s with
      | .ok _ t => catchUp t.self.retriesLeft t
      | .error f t => .error f t := by
  have hself : self s = .ok s.self s := rfl
  have hlate : ¬ s.world.clock < s.self.deadline := Int.not_lt.2 h
  -- The recursion is on the retransmissions that are left, and a lapse uses up one of them.
  cases hleft : s.self.retriesLeft with
  | zero =>
      have hover : s.self.config.maxRetries ≤ s.self.retries := by
        unfold retriesLeft at hleft
        omega
      have hlapse : lapse s = (do
          log (.givingUp s.self.peer)
          throw (.transfer .timedOut) : Reaction S Unit) s :=
        (bind_of_ok hself).trans (congrFun (if_pos hover) s)
      have hcatch : catchUp 0 s = (do
          log (.givingUp s.self.peer)
          throw (.transfer .timedOut) : Reaction S Unit) s := by
        unfold catchUp
        exact (bind_of_ok hself).trans (congrFun (if_neg hlate) s)
      rw [hlapse, hcatch, bind_of_ok (log_eq _ s)]
      rfl
  | succ left =>
      have hgoesOn : ¬ s.self.config.maxRetries ≤ s.self.retries := by
        unfold retriesLeft at hleft
        omega
      have hlapse : lapse s = (do
          update fun t => { t with retries := t.retries + 1 }
          log (.retransmitting s.self.peer (s.self.retries + 1))
          resend
          rearm : Reaction S Unit) s :=
        (bind_of_ok hself).trans (congrFun (if_neg hgoesOn) s)
      have hcatch : catchUp (left + 1) s = ((do
          update fun t => { t with retries := t.retries + 1 }
          log (.retransmitting s.self.peer (s.self.retries + 1))
          resend
          rearm) >>= fun _ => catchUp left : Reaction S Unit) s := by
        rw [catchUp]
        simp only [bind_assoc]
        exact (bind_of_ok hself).trans (congrFun (if_neg hlate) s)
      rw [hcatch]
      cases hl : lapse s with
      | error f t =>
          rw [hl] at hlapse
          exact bind_of_error hlapse.symm
      | ok u t =>
          have hretries : t.self.retriesLeft = left :=
            Nat.succ.inj ((retriesLeft_of_lapse hl).symm.trans hleft)
          rw [hl] at hlapse
          dsimp only
          rw [hretries]
          exact bind_of_ok hlapse.symm

/-! ## Settling is looking -/

section

variable {s t : Scene S}

theorem look_of_stops (hs : s.view.Stops) : look s = .error (.transfer .serverShutdown) s := by
  have hself : self s = .ok s.self s := rfl
  refine (bind_of_ok hself).trans ?_
  show (if s.self.heedsStop = true ∧ s.world.stopping = true then _ else _ : Reaction S Look) s = _
  rw [if_pos (show s.self.heedsStop = true ∧ s.world.stopping = true from hs)]
  rfl

/-- What a look is at when nothing is to come to an end. -/
theorem look_of_goesOn (hs : ¬ s.view.Stops) : look s =
    if s.world.clock < s.self.deadline then
      match Network.tryReceive s.world.network with
      | .ok waits network =>
        .ok (if waits then .waits else .idle) { s with world := { s.world with network } }
      | .error f network => .error f { s with world := { s.world with network } }
    else
      match lapse s with
      | .ok _ t => .ok .lapsed t
      | .error f t => .error f t := by
  have hself : self s = .ok s.self s := rfl
  refine (bind_of_ok hself).trans ?_
  show (if s.self.heedsStop = true ∧ s.world.stopping = true then _ else _ : Reaction S Look) s = _
  rw [if_neg (show ¬ (s.self.heedsStop = true ∧ s.world.stopping = true) from hs)]
  show (if s.world.clock < s.self.deadline then _ else _ : Reaction S Look) s = _
  split
  · show EStateM.bind _ _ s = _
    unfold EStateM.bind
    rw [liftM_eq]
    unfold World.onNetwork
    cases Network.tryReceive s.world.network with
    | error f network => rfl
    | ok waits network => cases waits <;> rfl
  · cases hl : lapse s with
    | ok u t => exact bind_of_ok hl
    | error f t => exact bind_of_error hl

theorem settle_of_goesOn (ho : s.self.isOver = false) (hs : ¬ s.view.Stops) : settle s =
    match catchUp s.self.retriesLeft s with
    | .ok _ t =>
      match Network.beginReceive t.world.network with
      | .ok _ network => .ok () { t with world := { t.world with network } }
      | .error f network => .error f { t with world := { t.world with network } }
    | .error f t => .error f t := by
  have hself : self s = .ok s.self s := rfl
  refine (bind_of_ok hself).trans ?_
  rw [if_neg (by simp [ho])]
  show (if s.self.heedsStop = true ∧ s.world.stopping = true then _ else _ : Reaction S Unit) s = _
  rw [if_neg (show ¬ (s.self.heedsStop = true ∧ s.world.stopping = true) from hs)]
  show EStateM.bind (catchUp s.self.retriesLeft) _ s = _
  unfold EStateM.bind
  cases catchUp s.self.retriesLeft s with
  | error f t => rfl
  | ok u t =>
      dsimp only
      rw [liftM_eq]
      unfold World.onNetwork
      cases Network.beginReceive t.world.network <;> rfl

theorem catchUp_of_early (left : Nat) (h : s.world.clock < s.self.deadline) :
    catchUp left s = .ok () s := by
  have hself : self s = .ok s.self s := rfl
  unfold catchUp
  exact (bind_of_ok hself).trans (congrFun (if_pos h) s)

/-- A look does not end a transfer, and does not make it stop. -/
theorem look_keeps {kind : Look} (h : look s = .ok kind t) :
    t.self.phase = s.self.phase ∧ ¬ s.view.Stops ∧ ¬ t.view.Stops := by
  by_cases hs : s.view.Stops
  · rw [look_of_stops hs] at h
    cases h
  rw [look_of_goesOn hs] at h
  split at h
  · split at h
    · cases h
      exact ⟨rfl, hs, hs⟩
    · cases h
  · cases hl : lapse s with
    | error f u =>
        rw [hl] at h
        cases h
    | ok u t' =>
        rw [hl] at h
        cases h
        obtain ⟨hview, -⟩ := lapse_view hl
        refine ⟨congrArg (fun v => v.self.phase) hview, hs, ?_⟩
        rw [hview]
        exact hs

/-- **Settling is looking until a receive waits.** -/
theorem settle_of_look (ho : s.self.isOver = false) : settle s =
    match look s with
    | .ok .waits t => .ok () t
    | .ok _ t => settle t
    | .error f t => .error f t := by
  by_cases hs : s.view.Stops
  · rw [look_of_stops hs]
    exact settle_of_stops ho hs
  have looked := fun kind t => @look_keeps S s t kind
  rw [look_of_goesOn hs] at looked ⊢
  rw [settle_of_goesOn ho hs]
  by_cases hd : s.world.clock < s.self.deadline
  · rw [if_pos hd, catchUp_of_early _ hd]
    dsimp only
    rw [Network.beginReceive_of_tryReceive]
    cases Network.tryReceive s.world.network with
    | error f network => rfl
    | ok waits network =>
        cases waits with
        | true => rfl
        | false =>
            -- The next look finds the transfer as it is, with one fault less ahead.
            let t : Scene S := { s with world := { s.world with network } }
            have ht : settle t = _ := settle_of_goesOn (s := t) ho hs
            rw [catchUp_of_early (s := t) _ hd] at ht
            exact ht.symm
  · rw [if_neg hd] at looked ⊢
    rw [catchUp_of_lapse (Int.not_lt.1 hd)]
    cases hl : lapse s with
    | error f t => rfl
    | ok u t =>
        rw [hl] at looked
        obtain ⟨hphase, -, ht⟩ := looked _ _ rfl
        have ho' : t.self.isOver = false := by
          rw [isOver, hphase]
          exact ho
        exact (settle_of_goesOn ho' ht).symm

end

/-! ## Guarded reactions -/

section

variable {m m' : Reaction S Unit} {s s' : Scene S}

/-- What becomes of a guarded reaction depends on what has come of the reaction only. -/
theorem guarded_congr (h : m s = m' s') : guarded m s = guarded m' s' := by
  cases hm : m s with
  | ok u t => rw [guarded_of_ok hm, guarded_of_ok (h.symm.trans hm)]
  | error f t => rw [guarded_of_error hm, guarded_of_error (h.symm.trans hm)]

theorem Scene.after_congr (h : m s = m' s') :
    s.resultOf m = s'.resultOf m' ∧ s.after m = s'.after m' := by
  cases hm : m s with
  | ok u t =>
      obtain ⟨hres, hafter⟩ := Scene.after_of_ok hm
      obtain ⟨hres', hafter'⟩ := Scene.after_of_ok (h.symm.trans hm)
      exact ⟨hres.trans hres'.symm, hafter.trans hafter'.symm⟩
  | error f t =>
      obtain ⟨hres, hafter⟩ := Scene.after_of_error hm
      obtain ⟨hres', hafter'⟩ := Scene.after_of_error (h.symm.trans hm)
      exact ⟨hres.trans hres'.symm, hafter.trans hafter'.symm⟩

/-- A transfer that leaves is over still. -/
theorem isOver_after_leave (ho : s.self.isOver = true)
    (h : s.resultOf leave = .ok ()) : (s.after leave).self.isOver = true := by
  have hleave := Ensures.leave_over (v := s.view) ho s rfl
  cases hl : leave s with
  | ok u t =>
      rw [hl] at hleave
      rw [(Scene.after_of_ok hl).2]
      exact hleave
  | error f t => cases h.symm.trans (Scene.after_of_error hl).1

end

end Transfer

end Tftp
