import Tftp.Proofs.Polling
import Tftp.Proofs.Shutdown

/-!
# Receives in slices

A transfer could wait for its peer until its deadline in one receive, but then it would not see
meanwhile that it is to stop. So it waits in slices, each no longer than the poll interval. Nobody
can tell: what comes in the middle of a wait is received at the same time however the wait is cut,
and a turn at the end of a slice does nothing, as the deadline still lies ahead.

`Rehearsal.pace` is the loop of a rehearsal with any time limits. The loop that runs is the one with
slices (`play_eq_pace`), and it does what the one that waits until the deadline does
(`pace_slices`). With that the poll interval does not matter at all (`slices_unobservable`).
-/

namespace Tftp

namespace Transfer

variable {S : Storage}

/-- How long a transfer can wait for its peer. -/
def patience (t : Transfer S) (clock : Int) : Int := t.deadline - clock

/-- How long it waits before it looks whether it is to stop. -/
def slice (t : Transfer S) (clock : Int) : Int := min (t.patience clock) t.config.pollInterval

theorem limit_eq (t : Transfer S) (clock : Int) : t.limit clock = Network.limit (t.slice clock) :=
  rfl

end Transfer

/-- A cue that makes no receive fail by a fault, and that asks for an end only where a receive ends:
a transfer that is not told while it waits sees it sooner, the shorter its receives are. -/
def Cue.SparesReceive (cue : Cue) : Prop :=
  cue ≠ .raise ∧ ∀ fault, cue = .fault fault → fault.SparesReceive

namespace Rehearsal

open Transfer

variable {S : Storage} {queue : List Queued} {state : State S}

/-! ## The loop -/

/-- Plays the script as `play` does, but how long the transfer waits is given. -/
def pace (wait : Transfer S → Int → Int) (result : Except Failure Unit) (queue : List Queued)
    (state : State S) : End × List Queued × State S :=
  match result with
  | .error failure => (.failed failure, queue, state)
  | .ok () =>
    if state.transfer.isOver then (.done, queue, state)
    else
      match h : next (Network.limit (wait state.transfer state.world.clock)) queue state with
      | (none, queue, state) => (.unfinished, queue, state)
      | (some reception, rest, state) =>
        let (result, transfer, world) :=
          Transfer.perform (Transfer.resume reception) state.transfer state.world
        have := weight_next_lt (Network.limit_pos _) h
        pace wait result rest { state with transfer, world }
termination_by weight queue

/-- What a rehearsal shows that has come out so. -/
def report (initial : Terms) (outcome : End × List Queued × State S) : Report S :=
  let (ending, queue, state) := outcome
  let state := state.cut false
  { records := state.records.reverse
    unused := queue.countP fun q => !q.taken
    ending, initial
    transfer := state.transfer
    world := state.world }

/-- Begins a transfer and plays the script to it as `run` does, but how long it waits is given. -/
def runPaced (wait : Transfer S → Int → Int) (world : World S) (direction : Direction)
    (request : Request) (peer : Address) (config : Config) (heedsStop : Bool) (script : List Cue) :
    Except Failure (Report S) :=
  match World.onNetwork (Network.openSocket localhost) world with
  | .error failure _ => .error failure
  | .ok socket world =>
    let transfer := Transfer.new S direction request peer socket config heedsStop
    let (result, first, world) := Transfer.perform Transfer.begin transfer world
    .ok (report transfer.terms (pace wait result (script.map fun cue => { cue })
      { transfer := first, world }))

/-- The state after the transfer has gone on with what its receive has brought. -/
def State.resumed (state : State S) (reception : Reception) : State S :=
  { state with
    transfer := (state.scene.after (resume reception)).self
    world := (state.scene.after (resume reception)).world }

section

variable {wait : Transfer S → Int → Int} {rest : List Queued} {state' : State S}

theorem pace_over (ho : state.transfer.isOver = true) :
    pace wait (.ok ()) queue state = (.done, queue, state) := by
  rw [pace, if_pos ho]

theorem pace_of_none (ho : ¬ state.transfer.isOver = true)
    (h : next (Network.limit (wait state.transfer state.world.clock)) queue state =
      (none, rest, state')) :
    pace wait (.ok ()) queue state = (.unfinished, rest, state') := by
  rw [pace, if_neg ho]
  split <;> simp_all

theorem pace_of_some {reception : Reception} (ho : ¬ state.transfer.isOver = true)
    (h : next (Network.limit (wait state.transfer state.world.clock)) queue state =
      (some reception, rest, state')) :
    pace wait (.ok ()) queue state =
      pace wait (state'.scene.resultOf (resume reception)) rest (state'.resumed reception) := by
  rw [pace, if_neg ho]
  split <;> simp_all [State.resumed, Scene.resultOf, Scene.after, State.scene]

end

/-- **The loop of a rehearsal** waits in slices. -/
theorem play_eq_pace (result : Except Failure Unit) (queue : List Queued) (state : State S) :
    play result queue state = pace slice result queue state := by
  induction result, queue, state using play_induction with
  | failed failure queue state => rw [play, pace]
  | done queue state ho => rw [play_over ho, pace_over ho]
  | waits queue state rest state' ho hn =>
      rw [play_of_none ho hn]
      rw [limit_eq] at hn
      rw [pace_of_none (Bool.eq_false_iff.1 ho) hn]
  | resumes queue state reception rest state' ho hn ih =>
      rw [play_of_some ho hn, ih]
      rw [limit_eq] at hn
      rw [pace_of_some (Bool.eq_false_iff.1 ho) hn]
      rfl

theorem run_eq_runPaced (world : World S) (direction : Direction) (request : Request)
    (peer : Address) (config : Config) (heedsStop : Bool) (script : List Cue) :
    run world direction request peer config heedsStop script =
      runPaced slice world direction request peer config heedsStop script := by
  unfold run runPaced
  simp only [play_eq_pace]
  rfl

/-! ## Waiting in two parts -/

/-- While a receive waits, no cue brings about a fault that makes receives fail. -/
theorem next_hears (limit : Nat) (hq : ∀ q ∈ queue, q.cue.SparesReceive)
    (hs : state.world.network.Hears) :
    (∀ q ∈ (next limit queue state).2.1, q.cue.SparesReceive) ∧
      (next limit queue state).2.2.world.network.Hears := by
  -- What is left of a cue brings no fault about.
  have left {queue : List Queued} (cue : Cue) (hrest : ∀ q ∈ queue, q.cue.SparesReceive)
      (hr : cue ≠ .raise) (hc : ∀ fault, cue ≠ .fault fault) :
      ∀ q ∈ (⟨cue, true⟩ :: queue : List Queued), q.cue.SparesReceive :=
    List.forall_mem_cons.2 ⟨⟨hr, fun fault he => absurd he (hc fault)⟩, hrest⟩
  induction limit, queue, state using next_induction with
  | nil limit state => exact ⟨hq, hs⟩
  | enter limit cue queue state ih =>
      rw [next_enter]
      exact ih (List.forall_mem_cons.2 (List.forall_mem_cons.1 hq)) hs
  | pause limit ms queue state ih =>
      have hrest := (List.forall_mem_cons.1 hq).2
      rw [next_pause]
      split
      · exact ⟨left (.pause _) hrest nofun nofun, hs⟩
      next hlt => exact ih (Nat.lt_of_not_le hlt) hrest hs
  | raise limit queue state ih => exact absurd rfl (List.forall_mem_cons.1 hq).1.1
  | fault limit fault queue state ih =>
      obtain ⟨⟨-, hcue⟩, hrest⟩ := List.forall_mem_cons.1 hq
      rw [next_fault]
      refine ih hrest fun other hm => ?_
      rcases List.mem_append.1 hm with hm | hm
      · exact hs other hm
      · exact List.mem_singleton.1 hm ▸ hcue fault rfl
  | drained limit series first brief queue state ih => exact ih (List.forall_mem_cons.1 hq).2 hs
  | datagram | failure | stop => exact ⟨(List.forall_mem_cons.1 hq).2, hs⟩
  | series => exact ⟨left (.series ..) (List.forall_mem_cons.1 hq).2 nofun nofun, hs⟩

/-- What comes while a receive waits is the same if the receive is cut short, unless it is cut short
before anything has come. Then the next receive waits for the rest of the time. -/
theorem next_slice {short long : Nat} (hle : short ≤ long) (queue : List Queued)
    (state : State S) (hq : ∀ q ∈ queue, q.cue.SparesReceive) :
    next short queue state = next long queue state ∨
    ∃ rest state', next short queue state = (some .nothing, rest, state') ∧
      next long queue state = next (long - short) rest state' ∧
      state'.transfer = state.transfer ∧ state'.world.stopping = state.world.stopping ∧
      state'.world.clock = state.world.clock + short := by
  induction short, queue, state using next_induction generalizing long with
  | nil short state => exact .inl rfl
  | enter short cue queue state ih =>
      rw [next_enter, next_enter long]
      exact ih hle (List.forall_mem_cons.2 (List.forall_mem_cons.1 hq))
  | pause short ms queue state ih =>
      rw [next_pause, next_pause long]
      by_cases hs : short ≤ ms
      · -- The short receive ends in this pause.
        refine .inr ⟨⟨.pause (ms - short), true⟩ :: queue, state.tick short, if_pos hs, ?_,
          rfl, rfl, rfl⟩
        rw [next_pause]
        by_cases hl : long ≤ ms
        · have hleft : ms - short - (long - short) = ms - long := by omega
          rw [if_pos hl, if_pos (by omega), State.tick_tick, hleft, Nat.add_sub_cancel' hle]
        · have hleft : long - short - (ms - short) = long - ms := by omega
          rw [if_neg hl, if_neg (by omega), State.tick_tick, hleft, Nat.add_sub_cancel' hs]
      · rw [if_neg hs, if_neg (by omega)]
        have hsub : short - ms ≤ long - ms := by omega
        rcases ih (Nat.lt_of_not_le hs) hsub (List.forall_mem_cons.1 hq).2 with
          he | ⟨rest, state', hr, hl, hself, hstop, hclock⟩
        · exact .inl he
        · refine .inr ⟨rest, state', hr, ?_, hself, hstop, ?_⟩
          · rw [hl]
            congr 1
            omega
          · rw [hclock]
            simp only [State.tick]
            omega
  | raise short queue state ih => exact absurd rfl (List.forall_mem_cons.1 hq).1.1
  | fault short fault queue state ih =>
      rw [next_fault, next_fault long]
      exact ih hle (List.forall_mem_cons.1 hq).2
  | drained short series first brief queue state ih =>
      exact ih hle (List.forall_mem_cons.1 hq).2
  | datagram | failure | stop | series => exact .inl rfl

/-! ## Slices of a wait -/

/-- A turn at the end of a slice does nothing. -/
theorem resume_nothing {s : Scene S} (hp : s.view.Poised) (hs : s.world.network.Hears) :
    s.resultOf (resume .nothing) = .ok () ∧ s.after (resume .nothing) = s := by
  have hsettle : settle s = .ok () s := settle_of_poised hp hs.beginReceive
  have himpulse : impulse (some .nothing) s = .ok false s := rfl
  have hg := guarded_of_ok ((turn_of_impulse himpulse).trans hsettle)
  rw [← resume_eq, if_neg (by rw [show s.self.isOver = false from hp.isOver]; exact nofun)] at hg
  exact Scene.after_of_ok hg

/-- A transfer that has waited is poised as before, as long as its deadline lies ahead. -/
theorem poised_of_waited {state' : State S} (hp : state.scene.view.Poised)
    (hself : state'.transfer = state.transfer)
    (hstop : state'.world.stopping = state.world.stopping)
    (early : state'.world.clock < state.transfer.deadline) : state'.scene.view.Poised := by
  refine ⟨?_, ?_, ?_⟩
  · show state'.transfer.isOver = false
    rw [hself]
    exact hp.isOver
  · show ¬ (state'.transfer.heedsStop = true ∧ state'.world.stopping = true)
    rw [hself, hstop]
    exact hp.goesOn
  · show state'.world.clock < state'.transfer.deadline
    rw [hself]
    exact early

/-- After a turn, no fault makes receives fail that did not before. -/
theorem hears_after {s : Scene S} (hs : s.world.network.Hears) (reception : Reception) :
    (s.after (resume reception)).world.network.Hears := by
  rw [resume_eq]
  exact (PollFree.pervasive.turn (some reception) 0 hs).outcome.2.2

/-- Nor does a fault make receives fail when a socket has been opened. -/
theorem hears_of_openSocket {world world' : World S} {address : Address} {socket : Socket}
    (hears : world.network.Hears)
    (h : World.onNetwork (Network.openSocket address) world = .ok socket world') :
    world'.network.Hears := by
  obtain ⟨network, hopen, rfl⟩ := World.onNetwork_eq_ok h
  exact hears.of_kinds ((Keeps.kinds_openSocket _).of_ok hopen)

/-- After a turn, the transfer is over or can go on waiting, unless the turn has failed. -/
theorem poised_of_turn (reception? : Option Reception) (s : Scene S) :
    s.resultOf (guarded (turn reception?)) = .ok () →
      (s.after (guarded (turn reception?))).self.isOver = true ∨
        (s.after (guarded (turn reception?))).view.Poised :=
  (Ensures.mono (Ensures.turn_poised reception?) (fun _ _ h _ => h) fun _ _ _ => nofun).outcome
    (P := fun result w => result = .ok () → w.self.isOver = true ∨ w.Poised)

section

variable {wait wait' : Transfer S → Int → Int} {queue' : List Queued} {state' : State S}

/-- Where the receive ends in the same way, the loop goes on in the same way. -/
theorem pace_congr (ho : ¬ state.transfer.isOver = true) (ho' : ¬ state'.transfer.isOver = true)
    (hn : next (Network.limit (wait state.transfer state.world.clock)) queue state =
      next (Network.limit (wait' state'.transfer state'.world.clock)) queue' state')
    (goesOn : ∀ reception rest later,
      next (Network.limit (wait state.transfer state.world.clock)) queue state =
        (some reception, rest, later) →
      pace wait (later.scene.resultOf (resume reception)) rest (later.resumed reception) =
        pace wait' (later.scene.resultOf (resume reception)) rest (later.resumed reception)) :
    pace wait (.ok ()) queue state = pace wait' (.ok ()) queue' state' := by
  rcases h : next (Network.limit (wait state.transfer state.world.clock)) queue state with
    ⟨reception?, rest, later⟩
  rw [h] at hn
  cases reception? with
  | none => rw [pace_of_none ho h, pace_of_none ho' hn.symm]
  | some reception =>
      rw [pace_of_some ho h, pace_of_some ho' hn.symm]
      exact goesOn reception rest later h

/-- **A loop that waits in slices** does what one does that waits until the deadline. -/
theorem pace_slices (hw : ∀ t clock, wait t clock ≤ t.patience clock)
    (result : Except Failure Unit) (queue : List Queued) (state : State S)
    (settled : result = .ok () → state.transfer.isOver = true ∨ state.scene.view.Poised)
    (hq : ∀ q ∈ queue, q.cue.SparesReceive) (hs : state.world.network.Hears) :
    pace wait result queue state = pace patience result queue state := by
  induction hn : weight queue using Nat.strongRecOn generalizing result queue state with
  | ind n ih =>
  subst hn
  cases result with
  | error f => rw [pace, pace]
  | ok u =>
  by_cases ho : state.transfer.isOver = true
  · rw [pace_over ho, pace_over ho]
  have hp : state.scene.view.Poised := (settled rfl).resolve_left ho
  have early : state.world.clock < state.transfer.deadline := hp.early
  let short := Network.limit (wait state.transfer state.world.clock)
  let long := Network.limit (state.transfer.patience state.world.clock)
  have hwait := hw state.transfer state.world.clock
  have hle : short ≤ long := by
    simp only [short, long, Network.limit]
    omega
  -- Where the slice does not end before the receive of the other loop does, both go on alike.
  have alike (he : next short queue state = next long queue state) :
      pace wait (.ok ()) queue state = pace patience (.ok ()) queue state := by
    refine pace_congr ho ho he fun reception rest later h => ?_
    have hkeeps := next_hears short hq hs
    rw [show next short queue state = _ from h] at hkeeps
    refine ih _ (weight_next_lt (Network.limit_pos _) h) _ rest _ ?_ hkeeps.1 ?_ rfl
    · have := poised_of_turn (some reception) later.scene
      rwa [← resume_eq] at this
    · exact hears_after hkeeps.2 reception
  rcases Nat.eq_or_lt_of_le hle with heq | hlt
  · exact alike (by rw [heq])
  rcases next_slice hle queue state hq with he | ⟨rest, state', hshort, hlong, hself, hstop, hclock⟩
  · exact alike he
  -- The slice ends first: its turn does nothing, and the deadline lies ahead as before.
  have hkeeps := next_hears short hq hs
  rw [show next short queue state = _ from hshort] at hkeeps
  have hp' : state'.scene.view.Poised := by
    refine poised_of_waited hp hself hstop ?_
    rw [hclock]
    simp only [short, long, Network.limit, patience] at hlt ⊢
    omega
  have ho' : ¬ state'.transfer.isOver = true := by
    rw [hself]
    exact ho
  have hrest : long - short = Network.limit (state'.transfer.patience state'.world.clock) := by
    rw [hself, hclock]
    simp only [short, long, Network.limit, patience] at hlt ⊢
    omega
  obtain ⟨hres, hafter⟩ := resume_nothing hp' hkeeps.2
  have hresumed : state'.resumed .nothing = state' := by
    unfold State.resumed
    rw [hafter]
    rfl
  rw [pace_of_some ho hshort, show state'.scene.resultOf (resume .nothing) = .ok () from hres,
    hresumed, ih _ (weight_next_lt (Network.limit_pos _) hshort) _ rest state' (fun _ => .inr hp')
      hkeeps.1 hkeeps.2 rfl]
  exact (pace_congr ho ho' (hrest ▸ hlong) fun _ _ _ _ => rfl).symm

end

/-! ## Any poll interval -/

/-- The state under another poll interval. -/
def State.polling (ms : Nat) (state : State S) : State S :=
  { state with transfer := state.transfer.polling ms }

/-- The report under another poll interval. -/
def Report.polling (ms : Nat) (report : Report S) : Report S :=
  { report with transfer := report.transfer.polling ms }

theorem next_polling (limit ms : Nat) (queue : List Queued) (state : State S) :
    next limit queue (state.polling ms) =
      Prod.map id (Prod.map id (State.polling ms)) (next limit queue state) := by
  induction limit, queue, state using next_induction with
  | nil limit state => rfl
  | enter limit cue queue state ih =>
      rw [next_enter, next_enter limit _ state]
      exact ih
  | pause limit time queue state ih =>
      rw [next_pause, next_pause limit _ state]
      split
      · rfl
      next hlt => exact ih (Nat.lt_of_not_le hlt)
  | raise limit queue state ih =>
      rw [next_raise, next_raise limit _ state]
      exact ih
  | fault limit fault queue state ih =>
      rw [next_fault, next_fault limit _ state]
      exact ih
  | drained limit series first brief queue state ih => exact ih
  | datagram | failure | stop | series => rfl

/-- A loop that waits until the deadline does not depend on the poll interval. -/
theorem pace_polling (ms : Nat) (result : Except Failure Unit) (queue : List Queued)
    (state : State S) (hq : ∀ q ∈ queue, q.cue.SparesReceive) (hs : state.world.network.Hears) :
    pace patience result queue (state.polling ms) =
      Prod.map id (Prod.map id (State.polling ms)) (pace patience result queue state) := by
  -- By what there is left to play, since a pause that is cut short stays in the script.
  induction hn : weight queue using Nat.strongRecOn generalizing result queue state with
  | ind n ih =>
  subst hn
  cases result with
  | error f =>
      rw [pace, pace]
      rfl
  | ok u =>
  by_cases ho : state.transfer.isOver = true
  · have ho' : (state.polling ms).transfer.isOver = true := ho
    rw [pace_over ho, pace_over ho']
    rfl
  have ho' : ¬ (state.polling ms).transfer.isOver = true := ho
  have hnext := next_polling (Network.limit (state.transfer.patience state.world.clock)) ms queue
    state
  rcases h : next (Network.limit (state.transfer.patience state.world.clock)) queue state with
    ⟨reception?, rest, later⟩
  rw [h] at hnext
  cases reception? with
  | none =>
      rw [pace_of_none ho h, pace_of_none ho' hnext]
      rfl
  | some reception =>
      have hkeeps := next_hears (Network.limit (state.transfer.patience state.world.clock)) hq hs
      rw [h] at hkeeps
      have hturn : (later.polling ms).scene.resultOf (resume reception) =
            later.scene.resultOf (resume reception) ∧
          (later.polling ms).resumed reception = (later.resumed reception).polling ms := by
        obtain ⟨hres, hafter, -⟩ :=
          (PollFree.pervasive.turn (some reception) ms (s := later.scene) hkeeps.2).outcome
        rw [← resume_eq] at hres hafter
        refine ⟨hres, ?_⟩
        unfold State.resumed
        rw [show (later.polling ms).scene = later.scene.polling ms from rfl, hafter]
        rfl
      rw [pace_of_some ho h, pace_of_some ho' hnext, hturn.1, hturn.2]
      exact ih _ (weight_next_lt (Network.limit_pos _) h) _ rest _ hkeeps.1
        (hears_after hkeeps.2 reception) rfl

/-- **The poll interval does not matter.** -/
theorem run_eq_patient (ms : Nat) {world : World S} {script : List Cue}
    (hears : world.network.Hears) (spares : ∀ cue ∈ script, cue.SparesReceive)
    (direction : Direction) (request : Request) (peer : Address) (config : Config)
    (heedsStop : Bool) :
    run world direction request peer { config with pollInterval := ms } heedsStop script =
      (runPaced patience world direction request peer config heedsStop script).map
        (Report.polling ms) := by
  rw [run_eq_runPaced]
  unfold runPaced
  cases hopen : World.onNetwork (Network.openSocket localhost) world with
  | error f world' => rfl
  | ok socket world' =>
      have hs : world'.network.Hears := hears_of_openSocket hears hopen
      let start : Scene S := ⟨.new S direction request peer socket config heedsStop, world'⟩
      obtain ⟨hres, hafter, hs'⟩ := (PollFree.pervasive.turn none ms (s := start) hs).outcome
      have hsettled := poised_of_turn none (start.polling ms)
      rw [← begin_eq] at hres hafter hs' hsettled
      let queue : List Queued := script.map fun cue => { cue }
      have hq : ∀ q ∈ queue, q.cue.SparesReceive := by
        intro q hm
        obtain ⟨cue, hc, rfl⟩ := List.mem_map.1 hm
        exact spares cue hc
      let first : State S :=
        { transfer := (start.after begin).self, world := (start.after begin).world }
      have hpolled : pace slice ((start.polling ms).resultOf begin) queue
          { transfer := ((start.polling ms).after begin).self
            world := ((start.polling ms).after begin).world } =
          Prod.map id (Prod.map id (State.polling ms))
            (pace patience (start.resultOf begin) queue first) := by
        rw [hafter] at hsettled ⊢
        rw [hres] at hsettled ⊢
        rw [← pace_polling ms _ queue first hq hs']
        exact pace_slices (fun t clock => Int.min_le_left _ _) _ queue (first.polling ms) hsettled
          hq hs'
      show Except.ok (report _ (pace slice ((start.polling ms).resultOf begin) queue
        { transfer := ((start.polling ms).after begin).self
          world := ((start.polling ms).after begin).world })) = _
      rw [hpolled]
      rfl

/-! ## What the slices are for -/

/-- A receive begins: the last turn has left the transfer waiting. -/
inductive Listens : Scene S → Prop
  | begins {s : Scene S} : s.resultOf begin = .ok () → (s.after begin).self.isOver = false →
      Listens (s.after begin)
  | resumes {s : Scene S} (reception : Reception) : s.resultOf (resume reception) = .ok () →
      (s.after (resume reception)).self.isOver = false → Listens (s.after (resume reception))

theorem Listens.poised {s : Scene S} (h : Listens s) : s.view.Poised := by
  cases h with
  | @begins s hr ho =>
      rw [begin_eq] at hr ho ⊢
      exact (poised_of_turn none s hr).resolve_left (ne_true_of_eq_false ho)
  | @resumes s reception hr ho =>
      rw [resume_eq] at hr ho ⊢
      exact (poised_of_turn (some reception) s hr).resolve_left (ne_true_of_eq_false ho)

/-- A transfer that is to stop does not wait again after a turn. -/
theorem isOver_of_stops {s : Scene S} (hs : s.view.Stops) {reception : Reception}
    (h : s.resultOf (resume reception) = .ok ()) :
    (s.after (resume reception)).self.isOver = true := by
  have hframe := frame_after (Steady.resume reception) s
  rw [resume_eq] at h hframe ⊢
  refine (poised_of_turn (some reception) s h).resolve_right fun hp => hp.goesOn ?_
  constructor
  · exact (congrArg Frame.heedsStop hframe).trans hs.1
  · exact (congrArg (fun f => f.world.stopping) hframe).trans hs.2

/-- If nothing has come, the transfer fails for that reason, unless the file cannot be given up. -/
theorem fails_of_stops {s : Scene S} (ho : s.self.isOver = false) (hs : s.view.Stops) :
    ∃ f, s.resultOf (resume .nothing) = .error f ∧ FailsWith S (.transfer .serverShutdown) f := by
  have himpulse : impulse (some .nothing) s = .ok false s := rfl
  have hturn := (turn_of_impulse himpulse).trans (settle_of_stops ho hs)
  obtain ⟨s', hfall, -⟩ := fall_eq_error (.transfer .serverShutdown) s
  have hg := (guarded_of_error hturn).trans hfall
  rw [← resume_eq] at hg
  exact ⟨_, (Scene.after_of_error hg).1, s.view.failsWith_failing _⟩

/-- **Slices cannot be observed.** Whatever the poll interval, a rehearsal shows what it would show
if the transfer waited for its peer until its deadline: the same datagrams at the same times, the
same calls of the storage, the same log and the same end. With the poll interval that servers have,
no receive waits for more than 100 milliseconds nor beyond the deadline, and the transfer stops
after the receive during which it has been asked to. -/
theorem slices_unobservable {world : World S} {script : List Cue}
    (hears : world.network.Hears) (spares : ∀ cue ∈ script, cue.SparesReceive)
    (direction : Direction) (request : Request) (peer : Address) (config : Config)
    (heedsStop : Bool) :
    (∀ ms, run world direction request peer { config with pollInterval := ms } heedsStop script =
      (runPaced patience world direction request peer config heedsStop script).map
        (Report.polling ms)) ∧
    ∀ s : Scene S, Listens s → s.self.config.pollInterval = ({} : Config).pollInterval →
      let limit := s.self.limit s.world.clock
      1 ≤ limit ∧ limit ≤ 100 ∧ s.world.clock + limit ≤ s.self.deadline ∧
      (s.self.heedsStop = true → ∀ later : World S, Waits s later → later.stopping = true →
        later.clock ≤ s.world.clock + 100 ∧
        (∀ reception, ({ s with world := later } : Scene S).resultOf (resume reception) = .ok () →
          (({ s with world := later } : Scene S).after (resume reception)).self.isOver = true) ∧
        ∃ f, ({ s with world := later } : Scene S).resultOf (resume .nothing) = .error f ∧
          FailsWith S (.transfer .serverShutdown) f) := by
  refine ⟨fun ms => run_eq_patient ms hears spares direction request peer config heedsStop, ?_⟩
  intro s hl hpoll limit
  have hp := hl.poised
  have hlimit : limit ≤ 100 := by
    have hpoll : s.self.config.pollInterval = 100 := hpoll
    simp only [limit, Transfer.limit, Network.limit, hpoll]
    omega
  refine ⟨Network.limit_pos _, hlimit, limit_le hp.early, fun hheeds later hw hstop => ⟨?_, ?_, ?_⟩⟩
  · have := hw.2
    omega
  · exact fun _ => @isOver_of_stops _ { s with world := later } ⟨hheeds, hstop⟩ _
  · exact @fails_of_stops _ { s with world := later } hp.isOver ⟨hheeds, hstop⟩

/-- A datagram in the fourth slice of a wait, a timeout after that, and another datagram. -/
def unhurried : List Cue :=
  [.pause 350, .datagram ⟨⟨10, 0, 0, 1⟩, 5000⟩ (Packet.data 1 (ascii "12345678")).encode,
    .pause 3000, .fault ⟨.send, .enospc, 1, 1⟩,
    .datagram ⟨⟨10, 0, 0, 1⟩, 5000⟩ (Packet.data 2 (ascii "9")).encode]

/-- Its waits are cut in slices of 7 milliseconds and in slices of 100, and nobody can tell; and when
a transfer that waits is asked to stop, it has failed after 100 milliseconds. -/
theorem slices_unobservable_unhurried :
    let world : World (Scripted.storage {}) := { store := () }
    let request : Request := ⟨ascii "digits", .octet, { blockSize := some 8 }⟩
    let peer : Address := ⟨⟨10, 0, 0, 1⟩, 5000⟩
    let waiting := silent.after begin
    let later := { waiting.world with clock := 100, stopping := true }
    world.network.Hears ∧ (∀ cue ∈ unhurried, cue.SparesReceive) ∧
    (∃ shown, runPaced patience world .write request peer {} true unhurried = .ok shown ∧
      run world .write request peer { pollInterval := 7 } true unhurried = .ok (shown.polling 7) ∧
      run world .write request peer {} true unhurried = .ok (shown.polling 100)) ∧
    Listens waiting ∧ waiting.self.heedsStop = true ∧ Waits waiting later ∧
    ∃ f, ({ waiting with world := later } : Scene _).resultOf (resume .nothing) = .error f := by
  intro world request peer waiting later
  have hears : world.network.Hears := nofun
  have spares : ∀ cue ∈ unhurried, cue.SparesReceive := by
    refine fun cue hc => ⟨fun hr => ?_, ?_⟩
    · simp [hr, unhurried] at hc
    rintro fault rfl
    obtain rfl : fault = ⟨.send, .enospc, 1, 1⟩ := by simpa [unhurried] using hc
    decide
  have h := slices_unobservable hears spares .write request peer {} true
  have listens : Listens waiting := .begins (by decide +kernel) (by decide +kernel)
  have heeds : waiting.self.heedsStop = true := by decide +kernel
  have waits : Waits waiting later := by decide +kernel
  refine ⟨hears, spares, ⟨_, rfl, h.1 7, h.1 100⟩, listens, heeds, waits, ?_⟩
  obtain ⟨-, -, -, stops⟩ := h.2 waiting listens (by decide +kernel)
  obtain ⟨-, -, f, hf, -⟩ := stops heeds later waits rfl
  exact ⟨f, hf⟩

end Rehearsal

end Tftp
