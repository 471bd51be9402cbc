import Tftp.Proofs.Outline
import Tftp.Rehearsal

/-!
# A rehearsal is a history

`Rehearsal.run` is the loop in which a transfer lives: it begins, and while it is not over, it goes on
with what its next receive yields. Whatever the script says, what comes of it is a `History`, so
everything that holds of histories holds of rehearsals.

    begin ──▶ next cue ──▶ resume ──▶ next cue ──▶ resume ──▶ …

A transfer goes on only if it has begun. That it has is seen from its phase, which no reaction ever
puts back.
-/

namespace Tftp

namespace Transfer

variable {S : Storage}

/-! ## A transfer that has begun -/

/-- A transfer has begun, and it has not failed. -/
structure Begun (v : View S) : Prop where
  ne_initial : v.self.phase ≠ .initial
  ne_failed : v.self.phase ≠ .failed

theorem View.givenUp_phase (v : View S) : v.givenUp.self.phase = .failed := by
  cases hw : v.self.writer with
  | none => simp [View.givenUp, View.changing, hw]
  | some writer => simp [View.givenUp, View.changing, View.storing, hw]

/-- However a transfer that has begun settles, it is not put back. -/
theorem Begun.settles {v : View S} (h : Begun v) : v.Settles fun w => w.self.phase ≠ .initial where
  ends _ := ⟨h.ne_failed, fun _ _ => h.ne_initial⟩
  live _ v' hr := by
    obtain ⟨k, r, d, rfl⟩ := hr
    refine ⟨h.ne_initial, ?_⟩
    rw [View.givenUp_phase]
    exact nofun

namespace Ensures

variable {v : View S} {packet : Packet}

/-- Nothing is ensured, not even that there is no failure. -/
theorem trivial {α : Type} (m : Reaction S α) : Ensures m v (fun _ _ => True) (fun _ _ => True) := by
  rintro s rfl
  cases m s <;> exact True.intro

/-- What goes on after a reaction of which nothing is known. -/
theorem after_any {α β : Type} {m : Reaction S α} {f : α → Reaction S β} {Q : β → View S → Prop}
    (h : ∀ a w, Ensures (f a) w Q (fun _ _ => True)) :
    Ensures (m >>= f) v Q (fun _ _ => True) :=
  bind (mono (trivial m) (fun a w _ => h a w) (fun _ _ => id))

theorem store_begun {effect : Effect (S.State × S.Writer) Unit} (h : Begun v) :
    Ensures (Write.store effect) v (fun _ => Begun) (fun _ _ => True) := by
  apply tryCatch
  apply onWriter
  · exact fun _ => h
  · intro writer _
    split
    · exact { h with }
    · exact throw True.intro

/-! ## The two directions -/

theorem sendNextBlock_begun : Ensures Read.sendNextBlock v (fun _ => Begun) (fun _ _ => True) := by
  apply bind
  apply self
  apply after_any
  intro payload w
  apply after_any
  intro _ w
  apply bind
  apply self
  apply after_any
  intro _ w
  apply update
  by_cases hl : payload.length < v.self.terms.blockSize.toNat
  · rw [if_pos hl]
    exact ⟨nofun, nofun⟩
  · rw [if_neg hl]
    exact ⟨nofun, nofun⟩

theorem readStart_begun : Ensures Read.start v (fun _ => Begun) (fun _ _ => True) := by
  apply bind
  apply self
  apply after_any
  rintro ⟨reader, fileSize⟩ w
  apply after_any
  intro _ w
  apply after_any
  intro _ w
  apply after_any
  intro _ w
  apply bind
  apply self
  dsimp only
  split
  · apply after_any
    intro _ w
    apply after_any
    intro _ w
    exact update ⟨nofun, nofun⟩
  · exact sendNextBlock_begun

theorem writeStart_begun : Ensures Write.start v (fun _ => Begun) (fun _ _ => True) := by
  rw [Write.start_eq]
  apply after_any
  intro _ w
  apply bind
  apply self
  apply after_any
  intro writer w
  apply after_any
  intro _ w
  apply after_any
  intro _ w
  apply after_any
  intro _ w
  exact update ⟨nofun, nofun⟩

theorem readHandle_begun (h : Begun v) :
    Ensures (Read.handle packet) v (fun _ => Begun) (fun _ _ => True) := by
  cases packet with
  | ack block =>
      apply bind
      apply self
      split
      · exact pure h
      · cases hp : v.self.phase with
        | waitingAfterOack | waitingAck =>
            exact bind (mono sendNextBlock_begun (fun _ _ h => pure h) (fun _ _ => id))
        | waitingLastAck => exact bind (log (bind (update (pure ⟨nofun, nofun⟩))))
        | _ => exact pure h
  | _ => exact pure h

theorem acknowledge_begun (t : Transfer S) (block : UInt16) (payload : Bytes) (h : Begun v) :
    Ensures (Write.acknowledge t block payload) v (fun _ => Begun) (fun _ _ => True) := by
  unfold Write.acknowledge
  split
  · apply after_any
    intro _ w
    apply after_any
    intro _ w
    exact bind (update (bind (log (pure ⟨nofun, nofun⟩))))
  · exact bind (send (bind (update (pure { h with }))) fun _ => True.intro)

theorem writeHandle_begun (h : Begun v) :
    Ensures (Write.handle packet) v (fun _ => Begun) (fun _ _ => True) := by
  cases packet with
  | data block payload =>
      rw [Write.handle_data_eq]
      apply bind
      apply self
      split
      · split
        · exact bind (resend (pure { h with }) fun _ => True.intro)
        · exact pure h
      · unfold Write.take
        split
        · exact throw True.intro
        · have acknowledges (w : View S) (hw : Begun w) := acknowledge_begun v.self block payload hw
          split
          · exact bind (mono (store_begun h) (fun _ => acknowledges) (fun _ _ => id))
          · exact acknowledges v h
  | _ => exact pure h

theorem begin_begun : Ensures Transfer.begin v (fun _ w => w.self.phase ≠ .initial)
    (fun _ w => w.self.phase ≠ .initial) := by
  apply begin
  refine mono (Q := fun _ => Begun) (E := fun _ _ => True) ?_ (fun _ _ => Begun.settles) ?_
  · apply bind
    apply self
    cases v.self.direction with
    | read => exact readStart_begun
    | write => exact writeStart_begun
  · intro _ w _
    rw [View.givenUp_phase]
    exact nofun

theorem resume_begun (h : Begun v) (reception : Reception) :
    Ensures (Transfer.resume reception) v (fun _ w => w.self.phase ≠ .initial)
      (fun _ w => w.self.phase ≠ .initial) := by
  have givenUp : ∀ w : View S, w.givenUp.self.phase ≠ .initial := by
    intro w
    rw [View.givenUp_phase]
    exact nofun
  apply resume
  · exact fun _ => givenUp v
  · exact fun _ events _ => Begun.settles { h with }
  · intro packet _ hne
    refine mono (Q := fun _ => Begun) (E := fun _ _ => True) ?_ (fun _ _ => Begun.settles)
      fun _ w _ => givenUp w
    exact handle hne (fun _ => readHandle_begun h) (fun _ => writeHandle_begun h)

end Ensures

/-- While the receive of a transfer waits, time passes, but no longer than its limit. -/
def Waits (s : Scene S) (world : World S) : Prop :=
  s.world.clock ≤ world.clock ∧ world.clock ≤ s.world.clock + s.self.limit s.world.clock

instance (s : Scene S) (world : World S) : Decidable (Waits s world) :=
  inferInstanceAs (Decidable (_ ∧ _))

end Transfer

/-! ## The loop -/

namespace Rehearsal

open Transfer

variable {S : Storage} {start : Scene S} {history : List Occurrence} {state : State S}

/-- Where a rehearsal is. -/
def State.scene (state : State S) : Scene S := ⟨state.transfer, state.world⟩

/-- The state with another scene. -/
def State.at (state : State S) (scene : Scene S) : State S :=
  { state with transfer := scene.self, world := scene.world }

@[simp] theorem State.scene_at (state : State S) (scene : Scene S) :
    (state.at scene).scene = scene := rfl

/-- Time passes in any parts. -/
theorem State.tick_tick (state : State S) (a b : Nat) :
    (state.tick a).tick b = state.tick (a + b) := by
  simp [State.tick, Int.add_assoc]

/-! ### One receive -/

section

variable (limit : Nat) (queue : List Queued) (state : State S)

/-- A cue of which nothing has been taken yet begins a new record. -/
theorem next_enter (cue : Cue) (taken : Bool) : next limit (⟨cue, taken⟩ :: queue) state =
    next limit (⟨cue, true⟩ :: queue) (if taken then state else state.cut cue.isBrief) := by
  rw [next.eq_def, next.eq_def limit (⟨cue, true⟩ :: queue)]
  rfl

theorem next_pause (ms : Nat) : next limit (⟨.pause ms, true⟩ :: queue) state =
    if limit ≤ ms then (some .nothing, ⟨.pause (ms - limit), true⟩ :: queue, state.tick limit)
    else next (limit - ms) queue (state.tick ms) := by
  rw [next.eq_def]
  rfl

theorem next_raise :
    next limit (⟨.raise, true⟩ :: queue) state = next limit queue state.stop := by
  rw [next.eq_def]
  rfl

theorem next_fault (fault : Fault) : next limit (⟨.fault fault, true⟩ :: queue) state =
    next limit queue (state.addFault fault) := by
  rw [next.eq_def]
  rfl

end

/-- A receive goes through the script up to the cue that ends it. -/
theorem next_induction {motive : Nat → List Queued → State S → Prop}
    (nil : ∀ limit state, motive limit [] state)
    (enter : ∀ limit cue queue state, motive limit (⟨cue, true⟩ :: queue) (state.cut cue.isBrief) →
      motive limit (⟨cue, false⟩ :: queue) state)
    (pause : ∀ limit ms queue state, (ms < limit → motive (limit - ms) queue (state.tick ms)) →
      motive limit (⟨.pause ms, true⟩ :: queue) state)
    (raise : ∀ limit queue state, motive limit queue state.stop →
      motive limit (⟨.raise, true⟩ :: queue) state)
    (fault : ∀ limit fault queue state, motive limit queue (state.addFault fault) →
      motive limit (⟨.fault fault, true⟩ :: queue) state)
    (drained : ∀ limit series first brief queue state, motive limit queue state →
      motive limit (⟨.series series first 0 brief, true⟩ :: queue) state)
    (datagram : ∀ limit sender bytes queue state,
      motive limit (⟨.datagram sender bytes, true⟩ :: queue) state)
    (failure : ∀ limit errno queue state, motive limit (⟨.failure errno, true⟩ :: queue) state)
    (stop : ∀ limit queue state, motive limit (⟨.stop, true⟩ :: queue) state)
    (series : ∀ limit series first count brief queue state,
      motive limit (⟨.series series first (count + 1) brief, true⟩ :: queue) state)
    (limit : Nat) (queue : List Queued) (state : State S) : motive limit queue state := by
  induction queue generalizing limit state with
  | nil => exact nil limit state
  | cons q queue ih =>
      have entered (cue : Cue) (state : State S) : motive limit (⟨cue, true⟩ :: queue) state := by
        cases cue with
        | datagram sender bytes => exact datagram limit sender bytes queue state
        | pause ms => exact pause limit ms queue state fun _ => ih _ _
        | failure errno => exact failure limit errno queue state
        | stop => exact stop limit queue state
        | raise => exact raise limit queue state (ih _ _)
        | fault what => exact fault limit what queue state (ih _ _)
        | series kind first count brief =>
            cases count with
            | zero => exact drained limit kind first brief queue state (ih _ _)
            | succ count => exact series limit kind first count brief queue state
      -- A cue that has been taken in part is treated like one that has just been entered.
      obtain ⟨cue, taken⟩ := q
      cases taken with
      | false => exact enter limit cue queue state (entered cue _)
      | true => exact entered cue state

/-- While a receive waits, nothing happens to the transfer and its storage, and time passes no longer
than the receive may wait. -/
theorem next_keeps (limit : Nat) (queue : List Queued) (state : State S) :
    (next limit queue state).2.2.transfer = state.transfer ∧
    (next limit queue state).2.2.world.store = state.world.store ∧
    state.world.clock ≤ (next limit queue state).2.2.world.clock ∧
    (next limit queue state).2.2.world.clock ≤ state.world.clock + limit := by
  have later (clock : Int) (ms : Nat) : clock ≤ clock + ms := by omega
  induction limit, queue, state using next_induction with
  | nil limit state => exact ⟨rfl, rfl, Int.le_refl _, later _ _⟩
  | enter limit cue queue state ih =>
      rw [next_enter]
      exact ih
  | pause limit ms queue state ih =>
      rw [next_pause]
      split
      · exact ⟨rfl, rfl, later _ _, Int.le_refl _⟩
      next hlt =>
        obtain ⟨hself, hstore, hle, hlimit⟩ := ih (Nat.lt_of_not_le hlt)
        refine ⟨hself, hstore, Int.le_trans (later _ _) hle, Int.le_trans hlimit ?_⟩
        simp only [State.tick]
        omega
  | raise limit queue state ih =>
      rw [next_raise]
      exact ih
  | fault limit fault queue state ih =>
      rw [next_fault]
      exact ih
  | drained limit series first brief queue state ih => exact ih
  | datagram | failure | stop | series => exact ⟨rfl, rfl, Int.le_refl _, later _ _⟩

/-- How a rehearsal ends, by how the last turn of its transfer has ended. -/
def End.ofResult (transfer : Transfer S) : Except Failure Unit → End
  | .error failure => .failed failure
  | .ok () => if transfer.isOver then .done else .unfinished

/-! ### The turns after the receives -/

section

variable {queue rest : List Queued} {state' : State S}

theorem play_over (ho : state.transfer.isOver = true) :
    play (.ok ()) queue state = (.done, queue, state) := by
  rw [play, if_pos ho]

theorem play_of_none (ho : state.transfer.isOver = false)
    (h : next (state.transfer.limit state.world.clock) queue state = (none, rest, state')) :
    play (.ok ()) queue state = (.unfinished, rest, state') := by
  rw [play, if_neg (Bool.eq_false_iff.1 ho)]
  split <;> simp_all

theorem play_of_some {reception : Reception} (ho : state.transfer.isOver = false)
    (h : next (state.transfer.limit state.world.clock) queue state =
      (some reception, rest, state')) :
    play (.ok ()) queue state = play (state'.scene.resultOf (resume reception)) rest
      (state'.at (state'.scene.after (resume reception))) := by
  rw [play, if_neg (Bool.eq_false_iff.1 ho)]
  split <;> simp_all [State.at, State.scene, Scene.resultOf, Scene.after]

end

/-- A rehearsal goes on until its transfer has failed, is over, or waits at the end of the script. -/
theorem play_induction {motive : Except Failure Unit → List Queued → State S → Prop}
    (failed : ∀ failure queue state, motive (.error failure) queue state)
    (done : ∀ queue state, state.transfer.isOver = true → motive (.ok ()) queue state)
    (waits : ∀ queue state rest state', state.transfer.isOver = false →
      next (state.transfer.limit state.world.clock) queue state = (none, rest, state') →
      motive (.ok ()) queue state)
    (resumes : ∀ queue state reception rest state', state.transfer.isOver = false →
      next (state.transfer.limit state.world.clock) queue state = (some reception, rest, state') →
      motive (state'.scene.resultOf (resume reception)) rest
        (state'.at (state'.scene.after (resume reception))) →
      motive (.ok ()) queue state)
    (result : Except Failure Unit) (queue : List Queued) (state : State S) :
    motive result queue state := by
  induction result, queue, state using play.induct with
  | case1 queue state failure => exact failed failure queue state
  | case2 queue state ho => exact done queue state ho
  | case3 queue state ho rest state' hn =>
      exact waits queue state rest state' (Bool.eq_false_iff.2 ho) hn
  | case4 queue state ho reception rest state' hn result transfer world hp _ ih =>
      refine resumes queue state reception rest state' (Bool.eq_false_iff.2 ho) hn ?_
      have hresult : state'.scene.resultOf (resume reception) = result := congrArg (·.1) hp
      have hstate : state'.at (state'.scene.after (resume reception)) =
          { state' with transfer, world } := by
        simp [State.at, Scene.after, State.scene, hp]
      rw [hresult, hstate]
      exact ih

/-- What passes while the transfer waits: time, but nobody touches its storage. -/
structure Passes (s : Scene S) (world : World S) : Prop where
  store : world.store = s.world.store
  waits : Waits s world

/-- **The loop of a rehearsal** keeps what every turn keeps after its receive has waited, whatever
the script says. If the script ends first, the transfer waits. -/
theorem play_rounds (Kept : Except Failure Unit → Scene S → Prop)
    (goesOn : ∀ {s} (world : World S) (reception : Reception), Kept (.ok ()) s →
      s.self.isOver = false → Passes s world →
      Kept (({ s with world } : Scene S).resultOf (resume reception))
        (({ s with world } : Scene S).after (resume reception)))
    (result : Except Failure Unit) (queue : List Queued) (state : State S)
    (h : Kept result state.scene) :
    ∃ result' s, Kept result' s ∧ (play result queue state).1 = .ofResult s.self result' ∧
      (play result queue state).2.2.transfer = s.self ∧
      ((play result queue state).2.2.world = s.world ∨
        s.self.isOver = false ∧ Passes s (play result queue state).2.2.world) := by
  induction result, queue, state using play_induction with
  | failed failure queue state =>
      rw [play]
      exact ⟨_, _, h, rfl, rfl, .inl rfl⟩
  | done queue state ho =>
      rw [play_over ho]
      exact ⟨_, _, h, (if_pos ho).symm, rfl, .inl rfl⟩
  | waits queue state rest state' ho hn =>
      obtain ⟨hself, hstore, hclock⟩ :=
        next_keeps (state.transfer.limit state.world.clock) queue state
      rw [hn] at hself hstore hclock
      rw [play_of_none ho hn]
      exact ⟨_, _, h, (if_neg (Bool.eq_false_iff.1 ho)).symm, hself, .inr ⟨ho, hstore, hclock⟩⟩
  | resumes queue state reception rest state' ho hn ih =>
      obtain ⟨hself, hstore, hclock⟩ :=
        next_keeps (state.transfer.limit state.world.clock) queue state
      rw [hn] at hself hstore hclock
      have hturn := goesOn state'.world reception h ho ⟨hstore, hclock⟩
      rw [show state.scene.self = state'.transfer from hself.symm] at hturn
      rw [play_of_some ho hn]
      exact ih hturn

/-- A rehearsal keeps what the first turn of its transfer brings about and what every turn keeps after
its receive has waited. Up to the first turn nothing has happened to the storage, and no time has
passed. -/
theorem run_rounds (Kept : Scene S → Except Failure Unit → Scene S → Prop)
    (begins : ∀ {start}, start.self.phase = .initial →
      Kept start (start.resultOf begin) (start.after begin))
    (goesOn : ∀ {start s} (world : World S) (reception : Reception), Kept start (.ok ()) s →
      s.self.isOver = false → Passes s world →
      Kept start (({ s with world } : Scene S).resultOf (resume reception))
        (({ s with world } : Scene S).after (resume reception)))
    {world : World S} {direction : Direction} {request : Request} {peer : Address}
    {config : Config} {heedsStop : Bool} {script : List Cue} {report : Report S}
    (h : run world direction request peer config heedsStop script = .ok report) :
    ∃ socket world' result s, world'.store = world.store ∧ world'.clock = world.clock ∧
      Kept ⟨.new S direction request peer socket config heedsStop, world'⟩ result s ∧
      report.ending = .ofResult s.self result ∧ report.transfer = s.self ∧
      report.world.store = s.world.store ∧
      (report.world.clock = s.world.clock ∨ s.self.isOver = false ∧ Waits s report.world) := by
  unfold run at h
  cases hopen : World.onNetwork (Network.openSocket localhost) world with
  | error f world' =>
      rw [hopen] at h
      cases h
  | ok socket world' =>
      have hsame : world'.store = world.store ∧ world'.clock = world.clock := by
        obtain ⟨network, -, rfl⟩ := World.onNetwork_eq_ok hopen
        exact ⟨rfl, rfl⟩
      rw [hopen] at h
      let start : Scene S := ⟨.new S direction request peer socket config heedsStop, world'⟩
      obtain ⟨result, s, hk, hend, hself, hworld⟩ := play_rounds (Kept start) goesOn
        (start.resultOf begin) (script.map fun cue => { cue })
        { transfer := (start.after begin).self, world := (start.after begin).world } (begins rfl)
      have hstore := hworld.elim (congrArg World.store) fun hp => hp.2.store
      have hclock := hworld.imp (congrArg World.clock) fun hp => And.intro hp.1 hp.2.waits
      cases h
      exact ⟨socket, world', result, s, hsame.1, hsame.2, hk, hend, hself, hstore, hclock⟩

/-- A rehearsal keeps what the first turn of its transfer brings about, what every turn keeps and
what nothing that happens meanwhile disturbs. Up to the first turn nothing has happened to the
storage. -/
theorem run_invariant (Kept : Scene S → Except Failure Unit → Scene S → Prop)
    (begins : ∀ {start}, start.self.phase = .initial →
      Kept start (start.resultOf begin) (start.after begin))
    (meanwhile : ∀ {start result s} (world : World S), world.store = s.world.store →
      Kept start result s → Kept start result { s with world })
    (goesOn : ∀ {start s} (reception : Reception), Kept start (.ok ()) s →
      s.self.isOver = false → Kept start (s.resultOf (resume reception)) (s.after (resume reception)))
    {world : World S} {direction : Direction} {request : Request} {peer : Address}
    {config : Config} {heedsStop : Bool} {script : List Cue} {report : Report S}
    (h : run world direction request peer config heedsStop script = .ok report) :
    ∃ socket world' result, world'.store = world.store ∧
      Kept ⟨.new S direction request peer socket config heedsStop, world'⟩ result
        ⟨report.transfer, report.world⟩ ∧
      report.ending = .ofResult report.transfer result := by
  obtain ⟨socket, world', result, s, hstore, -, hk, hend, hself, hstore', -⟩ := run_rounds Kept begins
    (fun world reception hk ho hp => goesOn reception (meanwhile world hp.store hk) ho) h
  refine ⟨socket, world', result, hstore, ?_, hself ▸ hend⟩
  have hk := meanwhile report.world hstore' hk
  rwa [← hself] at hk

/-! ## Rehearsals as histories -/

/-- A transfer lives on, seen from its beginning. -/
def Lives (start : Scene S) (s : Scene S) : Prop :=
  s.self.phase ≠ .initial ∧ ∃ history, History start history s

theorem Lives.meanwhile {start s : Scene S} (world : World S) (hstore : world.store = s.world.store)
    (h : Lives start s) : Lives start { s with world } := by
  obtain ⟨begun, history, h⟩ := h
  exact ⟨begun, _, h.turn (.meanwhile world hstore)⟩

/-- A transfer that has begun and is not over goes on with a turn, and it is not put back. -/
theorem Lives.goesOn {start s : Scene S} (h : Lives start s) (ho : s.self.isOver = false)
    (reception : Reception) : Lives start (s.after (resume reception)) := by
  obtain ⟨begun, history, h⟩ := h
  have hb : Begun s.view := ⟨begun, phase_ne_of_live ho rfl⟩
  have hw : s.self.isWaiting = true := by simp [isWaiting, begun, ho]
  exact ⟨(Ensures.resume_begun hb reception).after, _, h.turn (.resumes reception hw)⟩

/-- **A rehearsal is a history** of the transfer that it begins, and up to then nothing has happened
to the storage. -/
theorem run_history {world : World S} {direction : Direction} {request : Request} {peer : Address}
    {config : Config} {heedsStop : Bool} {script : List Cue} {report : Report S}
    (h : run world direction request peer config heedsStop script = .ok report) :
    ∃ socket world' history, world'.store = world.store ∧
      History ⟨.new S direction request peer socket config heedsStop, world'⟩ history
        ⟨report.transfer, report.world⟩ := by
  obtain ⟨socket, world', _, hstore, ⟨-, history, hh⟩, -⟩ :=
    run_invariant (fun start _ => Lives start)
      (fun hp => ⟨Ensures.begin_begun.after, _, .turn .start (.begins hp)⟩)
      (fun world hs h => h.meanwhile world hs) (fun reception h ho => h.goesOn ho reception) h
  exact ⟨socket, world', history, hstore, hh⟩

/-- **A rehearsal is a session** of the transfer that it begins, and it ends as the last turn has
ended. -/
theorem run_session {world : World S} {direction : Direction} {request : Request} {peer : Address}
    {config : Config} {heedsStop : Bool} {script : List Cue} {report : Report S}
    (h : run world direction request peer config heedsStop script = .ok report) :
    ∃ socket world' events result, world'.store = world.store ∧
      Session ⟨.new S direction request peer socket config heedsStop, world'⟩ events result
        ⟨report.transfer, report.world⟩ ∧
      report.ending = .ofResult report.transfer result := by
  obtain ⟨socket, world', result, hstore, ⟨events, hs⟩, hend⟩ :=
    run_invariant (fun start result s => ∃ events, Session start events result s)
      (fun _ => ⟨_, .begins⟩) (fun world _ ⟨_, hs⟩ => ⟨_, hs.meanwhile world⟩)
      (fun reception ⟨_, hs⟩ ho => ⟨_, hs.resumes reception ho⟩) h
  exact ⟨socket, world', events, result, hstore, hs, hend⟩

end Rehearsal

end Tftp
