import Tftp.Proofs.Rounds
import Tftp.Proofs.Slices

/-!
# A rehearsal ends

Whatever the request, the configuration, the storage and the faults of the network are, a transfer
comes to an end after so many rounds of its loop, or else its receive finds the script at its end.

No single quantity gets smaller in each round. A receive uses up some of the script, a receive that is
made in vain uses up a fault, and a lapse uses up one retransmission, but a transfer that moves
forward may retransmit as often as before.

    round         script      faults      retransmissions left
    receives        ↓            ↓ =             any
    idle            =            ↓               =
    lapsed          =            ↓ =             ↓

Only a receive moves a transfer forward, so each millisecond and each datagram of the script is worth
one more than all the retransmissions. `effort` is the sum of the three in that currency.

The loop that reads a block comes to its end as well: each of its rounds but the last reads something.
-/

namespace Tftp

/-! ## Faults are used up only -/

theorem remainingFaults_append (a b : List Fault) :
    remainingFaults (a ++ b) = remainingFaults a + remainingFaults b := by
  induction a with
  | nil => simp [remainingFaults]
  | cons fault a ih => simp [remainingFaults, ih, Nat.add_assoc]

namespace Attempt

theorem remainingFaults_make_le (faults : List Fault) :
    remainingFaults (make faults).2 ≤ remainingFaults faults := by
  have hlimit := remainingFaults_askFaults_le .setLimit faults
  have hreceive := remainingFaults_askFaults_le .receive (askFaults .setLimit faults).2
  unfold make
  split <;> rename_i ha
  · rwa [ha] at hlimit
  · rw [ha] at hlimit hreceive
    split <;> rename_i hb
    · rw [hb] at hreceive
      exact Nat.le_trans hreceive hlimit
    · rw [hb] at hreceive
      exact Nat.le_trans hreceive hlimit

theorem remainingFaults_makeAll_le (faults : List Fault) :
    remainingFaults (makeAll faults).2 ≤ remainingFaults faults := by
  have hmake := remainingFaults_make_le faults
  induction faults using makeAll.induct with
  | case1 faults rest hm =>
      rw [makeAll_eq, hm]
      rwa [hm] at hmake
  | case2 faults errno rest hm =>
      rw [makeAll_eq, hm]
      rwa [hm] at hmake
  | case3 faults errno rest hm _ hn ih =>
      rw [makeAll_eq, hm]
      rw [hm] at hmake
      simp only [hn, if_true]
      exact Nat.le_trans (ih (remainingFaults_make_le rest)) hmake
  | case4 faults errno rest hm _ hn =>
      rw [makeAll_eq, hm]
      rw [hm] at hmake
      simpa [hn] using hmake

end Attempt

namespace Network

theorem remainingFaults_of_tryReceive_le {waits : Bool} {network network' : Network}
    (h : tryReceive network = .ok waits network') :
    remainingFaults network'.faults ≤ remainingFaults network.faults := by
  have hle := Attempt.remainingFaults_make_le network.faults
  rw [tryReceive_eq] at h
  generalize Attempt.make network.faults = made at h hle
  obtain ⟨attempt, faults⟩ := made
  cases attempt with
  | waits =>
      cases h
      exact hle
  | unlimited errno => cases h
  | fails errno =>
      dsimp only at h
      split at h
      · cases h
        exact hle
      · cases h

/-- The same network, with at most so many faults ahead. -/
def Within (most : Nat) (n m : Network) : Prop := n = m ∧ remainingFaults n.faults ≤ most

theorem within_indistinct (most : Nat) : Indistinct (Within most) where
  send := by
    rintro bytes n _ ⟨rfl, hn⟩
    have hle := Nat.le_trans (remainingFaults_askFaults_le .send n.faults) hn
    have hafter := afterSend_eq bytes n
    unfold afterSend at hafter
    cases hs : send bytes n with
    | ok u n' =>
        rw [hs] at hafter
        subst hafter
        exact .inl ⟨_, _, rfl, rfl, rfl, hle⟩
    | error f n' => exact .inr ⟨f, n', n', rfl, rfl⟩
  beginReceive := by
    rintro n _ ⟨rfl, hn⟩
    have hle := Nat.le_trans (Attempt.remainingFaults_makeAll_le n.faults) hn
    rw [beginReceive_eq]
    generalize Attempt.makeAll n.faults = made at hle ⊢
    obtain ⟨result, faults⟩ := made
    cases result with
    | ok u => exact .inl ⟨_, _, rfl, rfl, rfl, hle⟩
    | error f => exact .inr ⟨f, _, _, rfl, rfl⟩

theorem remainingFaults_openSocket {addr : Address} {socket : Socket} {network network' : Network}
    (h : openSocket addr network = .ok socket network') :
    remainingFaults network'.faults ≤ remainingFaults network.faults := by
  rw [openSocket_eq] at h
  have hmake := faults_perform .makeSocket (ascii "Failed to open socket") network
  cases hm : perform .makeSocket (ascii "Failed to open socket") network with
  | error f made =>
      rw [hm] at h
      cases h
  | ok u made =>
      rw [hm] at h hmake
      have hbind : bindSocket addr { made with opened := made.opened + 1 } = .ok socket network' := h
      rw [faults_bindSocket hbind]
      refine Nat.le_trans (remainingFaults_askFaults_le _ _) ?_
      rw [hmake]
      exact remainingFaults_askFaults_le _ _

end Network

namespace Transfer

variable {S : Storage}

namespace Alike

variable {related : Network → Network → Prop}

/-- A reaction that can tell networks apart only by what they refuse does not add a fault. -/
theorem remainingFaults_le {α : Type} {m : Reaction S α} {a : α} {s t : Scene S}
    (hm : ∀ {most}, Network.Indistinct (Network.Within most) → Alike (Network.Within most) m)
    (h : m s = .ok a t) :
    remainingFaults t.world.network.faults ≤ remainingFaults s.world.network.faults := by
  have hs : Network.Within (remainingFaults s.world.network.faults) s.world.network
      s.world.network := ⟨rfl, Nat.le_refl _⟩
  have hmatch := hm (Network.within_indistinct _) (Akin.refl s.self.peer hs)
  rw [h] at hmatch
  cases hmatch with
  | ok _ ht => exact ht.network.2

end Alike

theorem heed_faults {reception : Reception} {moved : Bool} {s t : Scene S}
    (h : heed reception s = .ok moved t) :
    remainingFaults t.world.network.faults ≤ remainingFaults s.world.network.faults := by
  cases hf : reception.isForeign s.self.peer with
  | true =>
      have hi := Reception.isIgnored_of_isForeign hf s.self.direction
      obtain ⟨t', hheed, -, hnet⟩ := heed_ignored hi
      rw [hheed] at h
      cases h
      rw [hnet, hf, if_pos rfl, Network.afterSend_eq]
      exact remainingFaults_askFaults_le _ _
  | false =>
      have hs : Network.Within (remainingFaults s.world.network.faults) s.world.network
          s.world.network := ⟨rfl, Nat.le_refl _⟩
      have hmatch := Match.heed (Network.within_indistinct _) (Akin.refl s.self.peer hs) hf
      rw [h] at hmatch
      cases hmatch with
      | ok _ ht => exact ht.network.2

theorem impulse_faults {reception? : Option Reception} {moved : Bool} {s t : Scene S}
    (h : impulse reception? s = .ok moved t) :
    remainingFaults t.world.network.faults ≤ remainingFaults s.world.network.faults := by
  cases reception? with
  | none =>
      refine Alike.remainingFaults_le (fun hi => ?_) h
      have compositional := Alike.compositional (S := S) hi
      exact .bind compositional.start fun _ => .bind compositional.rearm fun _ => .pure _
  | some reception =>
      obtain ⟨t', hheed, -, -, rfl⟩ := impulse_some h
      have hle := heed_faults hheed
      cases moved <;> exact hle

/-- A look uses up a fault or a retransmission, unless it finds that the receive waits. -/
theorem look_spends {kind : Look} {s t : Scene S} (h : look s = .ok kind t) :
    t.self.config = s.self.config ∧
    remainingFaults t.world.network.faults + t.self.retriesLeft + (if kind = .waits then 0 else 1) ≤
      remainingFaults s.world.network.faults + s.self.retriesLeft := by
  obtain ⟨-, hs, -⟩ := look_keeps h
  rw [look_of_goesOn hs] at h
  -- Before the deadline the look is a receive, and afterwards it is a lapse.
  split at h
  · cases hr : Network.tryReceive s.world.network with
    | error f network =>
        rw [hr] at h
        cases h
    | ok waits network =>
        rw [hr] at h
        cases waits with
        | true =>
            cases h
            have hle := Network.remainingFaults_of_tryReceive_le hr
            refine ⟨rfl, ?_⟩
            simpa using hle
        | false =>
            cases h
            have hlt := Network.remainingFaults_of_tryReceive hr
            refine ⟨rfl, ?_⟩
            simp only [Bool.false_eq_true, if_false, reduceCtorEq]
            omega
  · cases hl : lapse s with
    | error f t' =>
        rw [hl] at h
        cases h
    | ok u t' =>
        have hle := Alike.remainingFaults_le (fun hi => (Alike.compositional hi).lapse) hl
        have hleft := retriesLeft_of_lapse hl
        have hconfig : t'.self.config = s.self.config :=
          congrArg (fun v => v.self.config) (lapse_view hl).1
        rw [hl] at h
        cases h
        simp only [reduceCtorEq, if_false]
        exact ⟨hconfig, by omega⟩

/-! ## The loop that reads a block -/

namespace Read

/-- The loop that reads a block, between two of its rounds. -/
inductive Refill
  /-- So many bytes are to come, and this has been read, the latest first. -/
  | going (missing : Nat) (chunks : List Bytes)
  /-- The block is there. -/
  | full (block : Bytes)
  deriving DecidableEq, Repr

/-- One round of the loop: it reads once, unless all is there. -/
def pass : Refill → Reaction S Refill
  | .full block => return .full block
  | .going missing chunks => do
    if missing = 0 then return .full chunks.reverse.flatten
    let bytes ← readSome missing
    if bytes = [] then return .full chunks.reverse.flatten
    else return .going (missing - bytes.length) (bytes :: chunks)

/-- So many rounds of the loop. -/
def passes : Nat → Refill → Reaction S Refill
  | 0, refill => return refill
  | rounds + 1, refill => do passes rounds (← pass refill)

theorem passes_full (rounds : Nat) (block : Bytes) :
    passes (S := S) rounds (.full block) = pure (.full block) := by
  induction rounds with
  | zero => rfl
  | succ rounds ih =>
      rw [passes, pass, pure_bind]
      exact ih

/-- **A block takes at most one round for each of its bytes**, and one more in which the file ends. -/
theorem passes_eq_fill {rounds missing : Nat} (h : missing < rounds) (chunks : List Bytes) :
    passes (S := S) rounds (.going missing chunks) =
      (fill missing chunks >>= fun block => pure (.full block)) := by
  induction missing, chunks using fill.induct generalizing rounds with
  | case1 chunks =>
      obtain ⟨rounds, rfl⟩ := Nat.exists_eq_succ_of_ne_zero (Nat.ne_zero_of_lt h)
      rw [passes, pass, fill, if_pos rfl, if_pos rfl]
      simp only [pure_bind, passes_full]
  | case2 missing chunks hn ih =>
      obtain ⟨rounds, rfl⟩ := Nat.exists_eq_succ_of_ne_zero (Nat.ne_zero_of_lt h)
      rw [passes, pass, fill, if_neg hn, if_neg hn]
      simp only [bind_assoc]
      congr 1
      funext bytes
      by_cases hb : bytes = []
      · simp only [hb, if_true, dite_true, pure_bind, passes_full]
      · -- What has been read leaves less to come, so the rounds that are left are enough.
        have hlength : 0 < bytes.length := List.length_pos_iff.2 hb
        simp only [hb, if_false, dite_false, pure_bind]
        exact ih bytes hb (by omega)

end Read

end Transfer

/-- How many faults a cue brings about. -/
def Cue.faults : Cue → Nat
  | .fault what => what.count
  | _ => 0

namespace Rehearsal

open Transfer

variable {S : Storage}

/-- Making the socket does not add a fault. -/
theorem remainingFaults_onOpened {socket : Socket} {world world' : World S}
    (h : World.onNetwork (Network.openSocket localhost) world = .ok socket world') :
    remainingFaults world'.network.faults ≤ remainingFaults world.network.faults := by
  obtain ⟨network, hopen, rfl⟩ := World.onNetwork_eq_ok h
  exact Network.remainingFaults_openSocket hopen

/-! ## The loop of a rehearsal -/

/-- The loop of a rehearsal, between two of its rounds. -/
inductive Loop (S : Storage)
  /-- It goes on with the rest of the script. -/
  | goesOn (queue : List Queued) (state : State S)
  /-- It has ended. -/
  | ended (outcome : End × List Queued × State S)

/-- How a rehearsal ends with a last reaction of its transfer. -/
def endsWith (last : Reaction S Unit) (queue : List Queued) (state : State S) :
    End × List Queued × State S :=
  let after := state.scene.after last
  (.ofResult after.self (state.scene.resultOf last), queue, state.at after)

/-- One round of the loop. A transfer that is over leaves. Any other takes a look, and if its receive
waits, it reacts to what the script has for it. -/
def round (queue : List Queued) (state : State S) : Loop S :=
  if state.transfer.isOver then .ended (endsWith leave queue state)
  else
    match look state.scene with
    | .error failure scene => .ended (endsWith (fall failure) queue (state.at scene))
    | .ok .lapsed scene | .ok .idle scene => .goesOn queue (state.at scene)
    | .ok .waits scene =>
      match next (scene.self.limit scene.world.clock) queue (state.at scene) with
      | (none, rest, state) => .ended (.unfinished, rest, state)
      | (some reception, rest, state) =>
        match impulse (some reception) state.scene with
        | .error failure scene => .ended (endsWith (fall failure) rest (state.at scene))
        | .ok _ scene => .goesOn rest (state.at scene)

/-- How the loop is entered: the transfer begins. -/
def enter (queue : List Queued) (state : State S) : Loop S :=
  match impulse none state.scene with
  | .error failure scene => .ended (endsWith (fall failure) queue (state.at scene))
  | .ok _ scene => .goesOn queue (state.at scene)

/-- So many rounds of the loop. -/
def Loop.rounds : Nat → Loop S → Loop S
  | 0, loop => loop
  | _ + 1, ended outcome => ended outcome
  | n + 1, goesOn queue state => (round queue state).rounds n

/-- What the loop comes to. -/
def Loop.outcome : Loop S → End × List Queued × State S
  | goesOn queue state => play (state.scene.resultOf (guarded settle)) queue
      (state.at (state.scene.after (guarded settle)))
  | ended outcome => outcome

/-! ## What one round does -/

section

variable {queue rest : List Queued} {state state' : State S} {waiting : Scene S}
  {reception? : Option Reception}

/-- The receive of a transfer waits, and this is what the script has for it. -/
structure Receives (queue : List Queued) (state : State S) (waiting : Scene S)
    (reception? : Option Reception) (rest : List Queued) (state' : State S) : Prop where
  live : state.transfer.isOver = false
  waits : look state.scene = .ok .waits waiting
  next : next (waiting.self.limit waiting.world.clock) queue (state.at waiting) =
    (reception?, rest, state')

/-- What one round makes of the loop. -/
inductive Round (queue : List Queued) (state : State S) : Loop S → Prop
  /-- The transfer is over. -/
  | leaves : state.transfer.isOver = true →
      Round queue state (.ended (endsWith leave queue state))
  /-- The look goes wrong. -/
  | breaks {f : Failure} {t : Scene S} : state.transfer.isOver = false →
      look state.scene = .error f t →
      Round queue state (.ended (endsWith (fall f) queue (state.at t)))
  /-- There is nothing to wait for yet. -/
  | looks {kind : Look} {t : Scene S} : state.transfer.isOver = false →
      look state.scene = .ok kind t → kind ≠ .waits →
      Round queue state (.goesOn queue (state.at t))
  /-- The script is at its end. -/
  | starves {waiting : Scene S} {rest : List Queued} {state' : State S} :
      Receives queue state waiting none rest state' →
      Round queue state (.ended (.unfinished, rest, state'))
  /-- What has been received makes the transfer fail. -/
  | falls {waiting : Scene S} {reception : Reception} {rest : List Queued} {state' : State S}
      {f : Failure} {t : Scene S} : Receives queue state waiting (some reception) rest state' →
      impulse (some reception) state'.scene = .error f t →
      Round queue state (.ended (endsWith (fall f) rest (state'.at t)))
  /-- The transfer goes on with what has been received. -/
  | reacts {waiting : Scene S} {reception : Reception} {rest : List Queued} {state' : State S}
      {moved : Bool} {t : Scene S} : Receives queue state waiting (some reception) rest state' →
      impulse (some reception) state'.scene = .ok moved t →
      Round queue state (.goesOn rest (state'.at t))

theorem round_cases (queue : List Queued) (state : State S) : Round queue state (round queue state) := by
  unfold round
  by_cases ho : state.transfer.isOver = true
  · rw [if_pos ho]
    exact .leaves ho
  rw [if_neg ho]
  have ho := Bool.eq_false_iff.2 ho
  cases hl : look state.scene with
  | error f t => exact .breaks ho hl
  | ok kind t =>
      cases kind with
      | lapsed => exact .looks ho hl nofun
      | idle => exact .looks ho hl nofun
      | waits =>
          dsimp only
          cases hn : next (t.self.limit t.world.clock) queue (state.at t) with
          | mk reception? played =>
          obtain ⟨rest, state'⟩ := played
          cases reception? with
          | none => exact .starves ⟨ho, hl, hn⟩
          | some reception =>
              dsimp only
              cases hi : impulse (some reception) state'.scene with
              | error f u => exact .falls ⟨ho, hl, hn⟩ hi
              | ok moved u => exact .reacts ⟨ho, hl, hn⟩ hi

theorem Receives.transfer_eq (h : Receives queue state waiting reception? rest state') :
    state'.transfer = waiting.self := by
  have hself := (next_keeps (waiting.self.limit waiting.world.clock) queue (state.at waiting)).1
  rwa [h.next] at hself

/-- While it waits, the transfer is in the phase in which it was. -/
theorem Receives.phase_eq (h : Receives queue state waiting reception? rest state') :
    state'.transfer.phase = state.transfer.phase := by
  rw [h.transfer_eq]
  exact (look_keeps h.waits).1

end

/-! ## The loop is what a rehearsal does -/

section

variable {queue : List Queued} {state : State S}

/-- After its last reaction, a transfer goes on no more. -/
theorem play_endsWith {last : Reaction S Unit}
    (h : state.scene.resultOf last = .ok () → (state.scene.after last).self.isOver = true) :
    play (state.scene.resultOf last) queue (state.at (state.scene.after last)) =
      endsWith last queue state := by
  unfold endsWith
  cases hr : state.scene.resultOf last with
  | error f =>
      rw [play]
      rfl
  | ok u =>
      have ho : (state.at (state.scene.after last)).transfer.isOver = true := h hr
      rw [play, if_pos ho]
      dsimp only
      rw [End.ofResult.eq_def]
      dsimp only
      rw [if_pos (h hr)]

theorem fall_ne_ok {f : Failure} {s : Scene S} : s.resultOf (fall f) ≠ .ok () := by
  obtain ⟨t, hf, -⟩ := fall_eq_error f s
  rw [(Scene.after_of_error hf).1]
  exact nofun

/-- What comes of a guarded reaction that fails. -/
theorem play_of_error {m : Reaction S Unit} {f : Failure} {t : Scene S}
    (h : m state.scene = .error f t) :
    play (state.scene.resultOf (guarded m)) queue (state.at (state.scene.after (guarded m))) =
      endsWith (fall f) queue (state.at t) := by
  have hg : guarded m state.scene = fall f t := guarded_of_error h
  obtain ⟨hres, hafter⟩ := Scene.after_congr hg
  have hends : (state.at t).scene.resultOf (fall f) = .ok () →
      ((state.at t).scene.after (fall f)).self.isOver = true := fun hok => absurd hok fall_ne_ok
  rw [hres, hafter]
  exact play_endsWith hends

/-- What comes of a guarded reaction that is as good as settling in another scene. -/
theorem play_of_settle {m : Reaction S Unit} {t : Scene S} (h : m state.scene = settle t) :
    play (state.scene.resultOf (guarded m)) queue (state.at (state.scene.after (guarded m))) =
      (Loop.goesOn queue (state.at t)).outcome := by
  obtain ⟨hres, hafter⟩ := Scene.after_congr (guarded_congr h)
  rw [hres, hafter]
  rfl

/-- While the receive of a transfer waits, its loop comes to what the turn after it comes to. -/
theorem Receives.outcome_eq {reception? : Option Reception} {waiting : Scene S} {rest : List Queued}
    {state' : State S} : Receives queue state waiting reception? rest state' →
    (Loop.goesOn queue state).outcome =
      match reception? with
      | none => (.unfinished, rest, state')
      | some reception =>
        play (state'.scene.resultOf (resume reception)) rest
          (state'.at (state'.scene.after (resume reception))) := by
  intro h
  have ho : waiting.self.isOver = false := by
    rw [isOver, (look_keeps h.waits).1]
    exact h.live
  have hsettle := settle_of_look (s := state.scene) h.live
  rw [h.waits] at hsettle
  have hg := guarded_of_ok hsettle
  rw [if_neg (Bool.eq_false_iff.1 ho)] at hg
  obtain ⟨hres, hafter⟩ := Scene.after_of_ok hg
  rw [Loop.outcome, hres, hafter]
  cases reception? with
  | none => exact play_of_none ho h.next
  | some reception => exact play_of_some ho h.next

/-- **A round does not change what the loop comes to.** -/
theorem outcome_round (queue : List Queued) (state : State S) :
    (round queue state).outcome = (Loop.goesOn queue state).outcome := by
  have hround := round_cases queue state
  generalize round queue state = loop at hround ⊢
  cases hround with
  | leaves ho =>
      have hg : guarded settle state.scene = leave state.scene := by
        rw [guarded_of_ok (settle_of_over (s := state.scene) ho)]
        exact if_pos ho
      obtain ⟨hres, hafter⟩ := Scene.after_congr hg
      rw [Loop.outcome, Loop.outcome, hres, hafter]
      exact (play_endsWith (isOver_after_leave ho)).symm
  | breaks ho hl =>
      have hlook := settle_of_look (s := state.scene) ho
      rw [hl] at hlook
      exact (play_of_error hlook).symm
  | @looks kind t ho hl hk =>
      have hlook := settle_of_look (s := state.scene) ho
      rw [hl] at hlook
      refine (play_of_settle (t := t) (hlook.trans ?_)).symm
      cases kind with
      | waits => exact absurd rfl hk
      | lapsed | idle => rfl
  | starves h => exact h.outcome_eq.symm
  -- The turn that follows is the impulse and then the loop from where it has led.
  | falls h hi =>
      rw [h.outcome_eq]
      dsimp only
      rw [resume_eq]
      exact (play_of_error (bind_of_error hi)).symm
  | reacts h hi =>
      rw [h.outcome_eq]
      dsimp only
      rw [resume_eq]
      exact (play_of_settle (turn_of_impulse hi)).symm

theorem outcome_rounds (n : Nat) (loop : Loop S) : (loop.rounds n).outcome = loop.outcome := by
  induction n generalizing loop with
  | zero => rfl
  | succ n ih =>
      cases loop with
      | ended outcome => rfl
      | goesOn queue state => exact (ih _).trans (outcome_round queue state)

/-- The loop that has been entered comes to what a rehearsal comes to. -/
theorem outcome_enter (queue : List Queued) (state : State S) : (enter queue state).outcome =
    play (state.scene.resultOf begin) queue (state.at (state.scene.after begin)) := by
  rw [begin_eq]
  unfold enter
  cases hi : impulse none state.scene with
  | error f t => exact (play_of_error (bind_of_error hi)).symm
  | ok moved t => exact (play_of_settle (turn_of_impulse hi)).symm

/-! ## What is left to do -/

/-- How many faults the rest of the script brings about. -/
def faultsIn : List Queued → Nat
  | [] => 0
  | queued :: queue => queued.cue.faults + faultsIn queue

/-- While a receive waits, the faults of the script become faults of the network. -/
theorem next_faults (limit : Nat) (queue : List Queued) (state : State S) :
    faultsIn (next limit queue state).2.1 +
        remainingFaults (next limit queue state).2.2.world.network.faults =
      faultsIn queue + remainingFaults state.world.network.faults := by
  induction limit, queue, state using next_induction with
  | nil limit state => rfl
  | enter limit cue queue state ih =>
      rw [next_enter]
      exact ih
  | pause limit ms queue state ih =>
      rw [next_pause]
      split
      · simp [faultsIn, Cue.faults, State.tick]
      next hlt => exact (ih (Nat.lt_of_not_le hlt)).trans (by simp [faultsIn, Cue.faults, State.tick])
  | raise limit queue state ih =>
      rw [next_raise]
      exact ih.trans (by simp [faultsIn, Cue.faults, State.stop])
  | fault limit fault queue state ih =>
      rw [next_fault]
      refine ih.trans ?_
      simp [faultsIn, Cue.faults, State.addFault, remainingFaults_append, remainingFaults]
      omega
  | drained limit series first brief queue state ih =>
      exact ih.trans (by simp [faultsIn, Cue.faults])
  | datagram | failure | stop | series => simp [next, faultsIn, Cue.faults, State.stop]

/-- How much there is left to do: each piece of the script may be followed by as many
retransmissions as there can be without progress. -/
def effort (queue : List Queued) (state : State S) : Nat :=
  weight queue * (state.transfer.config.maxRetries + 1) +
    (faultsIn queue + remainingFaults state.world.network.faults) + state.transfer.retriesLeft

variable {rest : List Queued} {state' : State S}

/-- A look that finds nothing to wait for leaves less to do. -/
theorem effort_look_lt {kind : Look} {t : Scene S} (hl : look state.scene = .ok kind t)
    (hk : kind ≠ .waits) : effort queue (state.at t) < effort queue state := by
  obtain ⟨hconfig, hspent⟩ := look_spends hl
  have hconfig : t.self.config = state.transfer.config := hconfig
  have hspent : remainingFaults t.world.network.faults + t.self.retriesLeft + 1 ≤
      remainingFaults state.world.network.faults + state.transfer.retriesLeft := by
    rwa [if_neg hk] at hspent
  simp only [effort, State.at, hconfig]
  omega

/-- What has been received pays for all the retransmissions that are to come. -/
theorem Receives.effort_lt {waiting t : Scene S} {reception : Reception} {moved : Bool}
    (h : Receives queue state waiting (some reception) rest state')
    (hi : impulse (some reception) state'.scene = .ok moved t) :
    effort rest (state'.at t) < effort queue state := by
  obtain ⟨hconfig, hspent⟩ := look_spends h.waits
  have hspent : remainingFaults waiting.world.network.faults + waiting.self.retriesLeft ≤
      remainingFaults state.world.network.faults + state.transfer.retriesLeft := hspent
  have hfaults := next_faults (waiting.self.limit waiting.world.clock) queue (state.at waiting)
  rw [h.next] at hfaults
  have hfaults : faultsIn rest + remainingFaults state'.world.network.faults =
      faultsIn queue + remainingFaults waiting.world.network.faults := hfaults
  have hless : remainingFaults t.world.network.faults ≤
      remainingFaults state'.world.network.faults := impulse_faults hi
  have hleft := retriesLeft_le t.self
  have hsame : t.self.config = state.transfer.config :=
    (congrArg Frame.config ((Steady.pervasive.impulse (some reception)).of_ok hi)).trans
      ((congrArg Transfer.config h.transfer_eq).trans hconfig)
  have hweight := weight_next_lt (Network.limit_pos _) h.next
  have hpaid := Nat.mul_le_mul_right (state.transfer.config.maxRetries + 1)
    (Nat.succ_le_of_lt hweight)
  rw [Nat.succ_mul] at hpaid
  rw [hsame] at hleft
  simp only [effort, State.at, hsame]
  omega

/-- **Each round leaves less to do.** -/
theorem effort_round_lt (h : round queue state = .goesOn rest state') :
    effort rest state' < effort queue state := by
  have hround := round_cases queue state
  rw [h] at hround
  cases hround with
  | looks _ hl hk => exact effort_look_lt hl hk
  | reacts hr hi => exact hr.effort_lt hi

/-- After more rounds than there is to do, the loop has ended. -/
theorem rounds_over {n : Nat} (h : effort queue state < n) :
    ∃ outcome, (Loop.goesOn queue state).rounds n = .ended outcome := by
  induction n generalizing queue state with
  | zero => omega
  | succ n ih =>
      rw [Loop.rounds]
      cases hr : round queue state with
      | ended outcome => exact ⟨outcome, by cases n <;> rfl⟩
      | goesOn rest state' =>
          have hlt := effort_round_lt hr
          exact ih (by omega)

end

/-! ## How the loop comes out -/

/-- The ways in which a rehearsal comes out: the transfer is complete, it has failed, or it waits in
a receive that finds the script at its end. -/
inductive Closed : End × List Queued × State S → Prop
  | done {queue : List Queued} {state : State S} :
      state.transfer.phase = .readEnd ∨ state.transfer.phase = .writeEnd →
      Closed (.done, queue, state)
  | failed {f : Failure} {queue : List Queued} {state : State S} :
      state.transfer.phase = .failed → Closed (.failed f, queue, state)
  | unfinished {state : State S} : state.transfer.isOver = false → Closed (.unfinished, [], state)

/-- A transfer whose loop goes on has not failed. -/
def Loop.Sound : Loop S → Prop
  | goesOn _ state => state.transfer.phase ≠ .failed
  | ended outcome => Closed outcome

section

variable {queue : List Queued} {state : State S}

theorem closed_fall (f : Failure) (queue : List Queued) (state : State S) :
    Closed (endsWith (fall f) queue state) := by
  obtain ⟨t, hf, hview, -⟩ := fall_eq_error f state.scene
  obtain ⟨hres, hafter⟩ := Scene.after_of_error hf
  unfold endsWith
  rw [hres, hafter]
  refine .failed ?_
  show t.view.self.phase = .failed
  rw [hview, View.givenUp_phase]

/-- A transfer that is over and has not failed leaves as what it is. -/
theorem closed_leave (queue : List Queued) (ho : state.transfer.isOver = true)
    (hp : state.transfer.phase ≠ .failed) : Closed (endsWith leave queue state) := by
  have hleave := Ensures.leave_unfailed (v := state.scene.view) hp state.scene rfl
  cases hl : leave state.scene with
  | error f t =>
      rw [hl] at hleave
      exact hleave.elim
  | ok u t =>
      rw [hl] at hleave
      obtain ⟨hres, hafter⟩ := Scene.after_of_ok hl
      have hself : t.self = state.transfer := congrArg View.self hleave
      unfold endsWith
      dsimp only
      rw [hres, hafter, End.ofResult.eq_def]
      dsimp only
      rw [hself, if_pos ho]
      refine .done ?_
      show t.self.phase = _ ∨ t.self.phase = _
      rw [hself]
      unfold isOver at ho
      cases hphase : state.transfer.phase <;> simp_all [Phase.isOver]

/-- A receive waits for ever only if the script is at its end. -/
theorem next_none {limit : Nat} {rest : List Queued} {state' : State S}
    (h : next limit queue state = (none, rest, state')) : rest = [] := by
  induction limit, queue, state using next_induction with
  | nil limit state =>
      cases h
      rfl
  | enter limit cue queue state ih =>
      rw [next_enter] at h
      exact ih h
  | pause limit ms queue state ih =>
      rw [next_pause] at h
      split at h
      · cases h
      next hlt => exact ih (Nat.lt_of_not_le hlt) h
  | raise limit queue state ih =>
      rw [next_raise] at h
      exact ih h
  | fault limit fault queue state ih =>
      rw [next_fault] at h
      exact ih h
  | drained limit series first brief queue state ih => exact ih h
  | datagram | failure | stop | series => cases h

theorem ne_failed_of_impulse {reception? : Option Reception} {moved : Bool} {s t : Scene S}
    (h : impulse reception? s = .ok moved t) (hp : s.self.phase ≠ .failed) :
    t.self.phase ≠ .failed := by
  have hsteps := impulse_steps reception? s
  rw [h] at hsteps
  exact hsteps.ne_failed hp

theorem sound_round (hp : state.transfer.phase ≠ .failed) : (round queue state).Sound := by
  have hround := round_cases queue state
  generalize round queue state = loop at hround ⊢
  cases hround with
  | leaves ho => exact closed_leave queue ho hp
  | breaks _ hl => exact closed_fall ..
  | @looks kind t _ hl _ =>
      show t.self.phase ≠ .failed
      rwa [(look_keeps hl).1]
  | starves h =>
      obtain rfl := next_none h.next
      refine .unfinished ?_
      rw [isOver, h.phase_eq]
      exact h.live
  | falls _ hi => exact closed_fall ..
  | reacts h hi => exact ne_failed_of_impulse hi (h.phase_eq ▸ hp)

theorem sound_enter (hp : state.transfer.phase ≠ .failed) : (enter queue state).Sound := by
  unfold enter
  cases hi : impulse none state.scene with
  | error f t => exact closed_fall f queue (state.at t)
  | ok moved t => exact ne_failed_of_impulse hi hp

theorem sound_rounds (n : Nat) {loop : Loop S} (h : loop.Sound) : (loop.rounds n).Sound := by
  induction n generalizing loop with
  | zero => exact h
  | succ n ih =>
      cases loop with
      | ended outcome => exact h
      | goesOn queue state => exact ih (sound_round h)

/-- A loop that has been entered has ended after so many rounds. -/
theorem enter_over (queue : List Queued) (state : State S) : ∃ n outcome,
    n ≤ (weight queue + 1) * (state.transfer.config.maxRetries + 1) +
      (faultsIn queue + remainingFaults state.world.network.faults) ∧
    (enter queue state).rounds n = .ended outcome := by
  unfold enter
  cases hi : impulse none state.scene with
  | error f t => exact ⟨0, _, Nat.zero_le _, rfl⟩
  | ok moved t =>
      have hless := impulse_faults hi
      have hleft := retriesLeft_le t.self
      have hsame : t.self.config = state.transfer.config :=
        congrArg Frame.config ((Steady.pervasive.impulse none).of_ok hi)
      obtain ⟨outcome, hover⟩ := rounds_over (Nat.lt_succ_self (effort queue (state.at t)))
      refine ⟨_, outcome, ?_, hover⟩
      rw [Nat.succ_mul]
      simp only [effort, State.at, State.scene, hsame] at *
      omega

end

/-- **A rehearsal ends.** If there is a socket, then after so many rounds of the loop the transfer is
complete or has failed, or its receive finds the script at its end. The loop that reads a block ends
as well: one round for each byte that is missing, and one more, are as good as all. -/
theorem run_halts (world : World S) (direction : Direction) (request : Request) (peer : Address)
    (config : Config) (heedsStop : Bool) (script : List Cue) :
    ((∃ failure world',
      World.onNetwork (Network.openSocket localhost) world = .error failure world' ∧
      run world direction request peer config heedsStop script = .error failure) ∨
    ∃ socket world' n outcome,
      World.onNetwork (Network.openSocket localhost) world = .ok socket world' ∧
      n ≤ (weight (script.map fun cue => { cue }) + 1) * (config.maxRetries + 1) +
        (faultsIn (script.map fun cue => { cue }) + remainingFaults world.network.faults) ∧
      (enter (script.map fun cue => { cue })
        { transfer := .new S direction request peer socket config heedsStop
          world := world' }).rounds n = .ended outcome ∧
      Closed outcome ∧
      run world direction request peer config heedsStop script =
        .ok (report (.unnegotiated config) outcome)) ∧
    ∀ missing chunks, Read.passes (S := S) (missing + 1) (.going missing chunks) =
      (Read.fill missing chunks >>= fun block => pure (.full block)) := by
  refine ⟨?_, fun missing chunks => Read.passes_eq_fill (Nat.lt_succ_self missing) chunks⟩
  cases hopen : World.onNetwork (Network.openSocket localhost) world with
  | error f world' =>
      refine .inl ⟨f, world', rfl, ?_⟩
      unfold run
      rw [hopen]
  | ok socket world' =>
      let state : State S :=
        { transfer := .new S direction request peer socket config heedsStop, world := world' }
      let queue : List Queued := script.map fun cue => { cue }
      obtain ⟨n, outcome, hn, hover⟩ := enter_over queue state
      have hfaults := remainingFaults_onOpened hopen
      have hsound : ((enter queue state).rounds n).Sound := sound_rounds n (sound_enter nofun)
      have hout : ((enter queue state).rounds n).outcome = _ :=
        (outcome_rounds n _).trans (outcome_enter queue state)
      rw [hover] at hsound hout
      refine .inr ⟨socket, world', n, outcome, rfl, Nat.le_trans hn ?_, hover, hsound, ?_⟩
      · exact Nat.add_le_add_left (Nat.add_le_add_left hfaults _) _
      · unfold run
        rw [hopen, show outcome = _ from hout]
        rfl

end Rehearsal

end Tftp
