import Tftp.Proofs.Service
import Tftp.Proofs.Schedule

/-!
# Shutting down

When a server has been asked to stop, each of its transfers takes at most one turn more. In that
turn the transfer still does what it does at its beginning, or about the datagram that it has been
waiting for. If it is complete then, it ends as ever. If it is not, it sees that everything is to
come to an end: it receives nothing more, gives up the file that it was receiving, and fails, which
is reported to its client.

The dispatcher hears at most the datagram that it is waiting for, and as every transfer that it waits
for ends, it can return, and then nothing is left.
-/

namespace Tftp

open Transfer

variable {S : Storage}

/-! ## The last turn -/

/-- What a transfer puts on record when it fails: that it leaves, and what giving up the file means
to the storage. -/
def IsFalling (s : Scene S) (e : Event) : Prop :=
  e = .logged (.leaving s.self.peer .failed) ∨
    ∃ writer, s.self.writer = some writer ∧ e ∈ (S.abort (s.world.store, writer)).events

/-- What is put on record while a failure is dealt with. -/
theorem fall_record {f f' : Failure} {s s' : Scene S} (h : fall f s = .error f' s') :
    ∃ quiet : List Event, s'.world.trace = quiet.reverse ++ s.world.trace ∧
      ∀ e ∈ quiet, IsFalling s e := by
  let s₁ : Scene S := { s with self := { s.self with phase := .failed } }
  -- Leaving and failing, once the file has been given up.
  let rest : Reaction S Unit := do
    log (.leaving s.self.peer .failed)
    throw f
  have hrest (t : Scene S) : ∃ t' quiet, rest t = .error f t' ∧
      t'.world.trace = List.reverse quiet ++ t.world.trace ∧ ∀ e ∈ quiet, IsFalling s e := by
    have hr : rest t = .error f _ := bind_of_ok (log_eq ..)
    by_cases hn : (Notice.leaving s.self.peer .failed).level ≠ .debug ∨ t.world.verbose = true
    · rw [if_pos hn] at hr
      exact ⟨_, [.logged (.leaving s.self.peer .failed)], hr, rfl,
        fun e he => .inl (List.mem_singleton.1 he)⟩
    · rw [if_neg hn] at hr
      exact ⟨_, [], hr, rfl, List.forall_mem_nil _⟩
  have hb : fall f s = EStateM.bind (Write.onWriter S.abort) (fun _ => rest) s₁ := by
    show ((do Write.onWriter S.abort; log (.leaving s.self.peer .failed)) >>= fun _ => throw f :
      Reaction S Unit) s₁ = _
    rw [bind_assoc]
    rfl
  unfold EStateM.bind Write.onWriter at hb
  rw [h] at hb
  cases hw : s.self.writer with
  | none =>
      rw [show s₁.self.writer = none from hw] at hb
      obtain ⟨t, quiet, hr, ht, hq⟩ := hrest s₁
      cases hb.trans hr
      exact ⟨quiet, ht, hq⟩
  | some writer =>
      rw [show s₁.self.writer = some writer from hw] at hb
      have habort : ∀ e ∈ (S.abort (s.world.store, writer)).events, IsFalling s e :=
        fun e he => .inr ⟨writer, hw, he⟩
      dsimp only at hb
      cases hres : (S.abort (s₁.world.store, writer)).result with
      | error f'' =>
          rw [hres] at hb
          cases hb
          exact ⟨_, rfl, habort⟩
      | ok u =>
          rw [hres] at hb
          dsimp only at hb
          obtain ⟨t, quiet, hr, ht, hq⟩ := hrest _
          cases hb.trans hr
          refine ⟨(S.abort (s.world.store, writer)).events ++ quiet, ?_, fun e he => ?_⟩
          · rw [ht, List.reverse_append, List.append_assoc]
          · exact (List.mem_append.1 he).elim (habort e) (hq e)

theorem Transfer.Steps.grows {terms time : Prop} {s s' : Scene S} (h : Steps terms time s s') :
    ∃ events : List Event, s'.world.trace = events ++ s.world.trace := by
  refine h.invariant (P := fun s' => ∃ events : List Event,
    s'.world.trace = events ++ s.world.trace) ?_ ⟨[], rfl⟩
  rintro t t' hstep ⟨events, ht⟩
  have one (e : Event) : ∃ events : List Event, e :: t.world.trace = events ++ s.world.trace :=
    ⟨e :: events, by rw [ht]; rfl⟩
  cases hstep with
  | log | announce | send => exact one _
  | store => exact ⟨_ ++ events, by rw [ht, List.append_assoc]⟩
  | _ => exact ⟨events, ht⟩

/-- Whatever comes of an impulse, it goes in steps. -/
theorem impulse_steps (reception? : Option Reception) (s : Scene S) :
    match impulse reception? s with
    | .ok _ s' | .error _ s' => Steps True True s s' := by
  by_cases hg : ∃ reception ∈ reception?, reception.GivesUp s.self.peer
  · obtain ⟨reception, rfl, hg⟩ := hg
    obtain ⟨r, s', hh, hs⟩ := heed_of_givesUp hg
    have hi : impulse (some reception) s = .error (.peer r) s' := bind_of_error hh
    rw [hi]
    exact hs.mono (fun h => h.elim) fun h => h.elim
  · have ht : Goes True True (impulse reception?) s :=
      .impulse (fun _ => trivial) trivial fun reception he hr => hg ⟨reception, he, hr⟩
    cases hr : impulse reception? s with
    | ok moved s' => exact ht.steps_ok hr
    | error f s' => exact (ht.steps_error hr).1

/-- A transfer that is not over and sees that everything is to come to an end fails at once. -/
theorem settle_of_stops {s : Scene S} (ho : s.self.isOver = false) (h : s.view.Stops) :
    settle s = .error (.transfer .serverShutdown) s := by
  have hc : s.self.heedsStop = true ∧ s.world.stopping = true := h
  show (if s.self.isOver then _ else _ : Reaction S Unit) s = _
  rw [if_neg (by simp [ho])]
  refine (bind_of_ok rfl).trans ?_
  dsimp only
  rw [if_pos hc]
  rfl

namespace Passage

/-- In its turn, a transfer comes to a scene where it fails. From there on nothing is put on record
but that the file that it was receiving is given up, that it leaves, and what its client is told. -/
structure Falls (p : Passage S) (s : Scene S) (f : Failure) (lines : List Event) : Prop where
  result : p.result = .error (s.view.failing f)
  givenUp : p.after.view = s.view.givenUp
  network : p.after.world.network = s.world.network
  reported : ∃ quiet report network, lines = p.scene.world.since s.world ++ quiet ++ report ∧
    (∀ e ∈ quiet, IsFalling s e) ∧
    Server.Reported p.after.self p.after.world (s.view.failing f) report network

/-- The last turn of a transfer when everything is to come to an end, with what is put on record in
it. -/
inductive Ends (p : Passage S) (lines : List Event) : Prop
  /-- The transfer fails before it looks. -/
  | fails {f : Failure} {s : Scene S} : impulse p.reception? p.scene = .error f s →
      p.Falls s f lines → Ends p lines
  /-- It is complete, and leaves. -/
  | completes {moved : Bool} {s : Scene S} {quiet : List Event} :
      impulse p.reception? p.scene = .ok moved s →
      s.self.phase = .readEnd ∨ s.self.phase = .writeEnd →
      p.result = .ok () → p.after.view = s.view → lines = p.scene.world.since s.world ++ quiet →
      (∀ e ∈ quiet, e = .logged (.leaving s.self.peer s.self.phase)) → Ends p lines
  /-- It sees that everything is to come to an end. -/
  | seesStop {moved : Bool} {s : Scene S} : impulse p.reception? p.scene = .ok moved s →
      s.self.isOver = false → p.Falls s (.transfer .serverShutdown) lines → Ends p lines

variable {p : Passage S} {s : Scene S}

theorem left_of_error {f : Failure} (h : p.result = .error f) : p.left = none := by
  unfold left waits
  rw [h]
  rfl

theorem left_of_over (ho : p.after.self.isOver = true) : p.left = none := by
  unfold left waits
  cases p.result with
  | error f => rfl
  | ok u => rw [ho]; rfl

/-- A turn that fails. -/
theorem falls {f : Failure} (ht : turn p.reception? p.scene = .error f s)
    (hs : Steps True True p.scene s) (server : Server S) :
    p.left = none ∧ p.Falls s f (p.scene.world.since (server.dealWith p).1.world) := by
  obtain ⟨s', hf, hv, hn, -⟩ := fall_eq_error f s
  obtain ⟨hresult, hafter⟩ := Scene.after_of_error ((guarded_of_error ht).trans hf)
  obtain ⟨quiet, htrace, hquiet⟩ := fall_record hf
  obtain ⟨events, hevents⟩ := hs.grows
  have hresult : p.result = .error (s.view.failing f) := hresult
  have hafter : p.after = s' := hafter
  obtain ⟨report, network, hreport, -, htold⟩ := server.dealWith_trace_of_error hresult
  refine ⟨left_of_error hresult, hresult, hafter ▸ hv, hafter ▸ hn, quiet, report, network, ?_,
    hquiet, hreport⟩
  have hdeal : (server.dealWith p).1.world.trace =
      (report.reverse ++ (quiet.reverse ++ events)) ++ p.scene.world.trace := by
    rw [htold, hafter, htrace, hevents]
    simp only [List.append_assoc]
  rw [World.since_of_trace hdeal, World.since_of_trace hevents]
  simp only [List.reverse_append, List.reverse_reverse]

/-- A turn after which the transfer is complete. -/
theorem completes {u : Unit} (ht : turn p.reception? p.scene = .ok u s)
    (ho : s.self.isOver = true) (hp : s.self.phase ≠ .failed) (hs : Steps True True p.scene s)
    (server : Server S) : p.left = none ∧ p.result = .ok () ∧ p.after.view = s.view ∧
      ∃ quiet, p.scene.world.since (server.dealWith p).1.world =
        p.scene.world.since s.world ++ quiet ∧
        ∀ e ∈ quiet, e = .logged (.leaving s.self.peer s.self.phase) := by
  obtain ⟨events, hevents⟩ := hs.grows
  have hg : guarded (turn p.reception?) p.scene = log (.leaving s.self.peer s.self.phase) s := by
    rw [guarded_of_ok ht, if_pos ho]
    show (if s.self.phase = .failed then _ else _ : Reaction S Unit) s = _
    rw [if_neg hp]
  rw [log_eq] at hg
  obtain ⟨hresult, hafter⟩ := Scene.after_of_ok hg
  have hresult : p.result = .ok () := hresult
  have hview : p.after.view = s.view := by
    rw [show p.after = _ from hafter]
    split <;> rfl
  have hover : p.after.self.isOver = true := (congrArg (fun v => v.self.isOver) hview).trans ho
  have hdeal := server.dealWith_trace_of_ok hresult
  refine ⟨left_of_over hover, hresult, hview, ?_⟩
  by_cases hn : (Notice.leaving s.self.peer s.self.phase).level ≠ .debug ∨ s.world.verbose = true
  · refine ⟨[.logged (.leaving s.self.peer s.self.phase)], ?_, fun e he => List.mem_singleton.1 he⟩
    have htrace : (server.dealWith p).1.world.trace =
        (.logged (.leaving s.self.peer s.self.phase) :: events) ++ p.scene.world.trace := by
      rw [hdeal, show p.after = _ from hafter, if_pos hn, List.cons_append, ← hevents]
      rfl
    rw [World.since_of_trace htrace, World.since_of_trace hevents, List.reverse_cons]
  · refine ⟨[], ?_, List.forall_mem_nil _⟩
    have htrace : (server.dealWith p).1.world.trace = events ++ p.scene.world.trace := by
      rw [hdeal, show p.after = _ from hafter, if_neg hn, hevents]
    rw [World.since_of_trace htrace, World.since_of_trace hevents, List.append_nil]

/-- **When everything is to come to an end, every turn is the last.** -/
theorem ends (hs : p.scene.view.Stops) (hp : p.scene.self.phase ≠ .failed) (server : Server S) :
    p.left = none ∧ p.Ends (p.scene.world.since (server.dealWith p).1.world) := by
  have hsteps := impulse_steps p.reception? p.scene
  cases hi : impulse p.reception? p.scene with
  | error f s =>
      rw [hi] at hsteps
      obtain ⟨hl, hf⟩ := falls (show turn p.reception? p.scene = .error f s from bind_of_error hi)
        hsteps server
      exact ⟨hl, .fails hi hf⟩
  | ok moved s =>
      rw [hi] at hsteps
      have ht := turn_of_impulse hi
      cases ho : s.self.isOver with
      | true =>
          have hphase := hsteps.ne_failed hp
          obtain ⟨hl, hresult, hview, quiet, hlines, hquiet⟩ :=
            completes (ht.trans (settle_of_over ho)) ho hphase hsteps server
          refine ⟨hl, .completes hi ?_ hresult hview hlines hquiet⟩
          unfold Transfer.isOver Phase.isOver at ho
          split at ho <;> simp_all
      | false =>
          have hframe := (Steady.pervasive.impulse p.reception?).of_ok hi
          have hstops : s.view.Stops :=
            ⟨(congrArg Frame.heedsStop hframe).trans hs.1,
              (congrArg (fun f => f.world.stopping) hframe).trans hs.2⟩
          obtain ⟨hl, hf⟩ := falls (ht.trans (settle_of_stops ho hstops)) hsteps server
          exact ⟨hl, .seesStop hi ho hf⟩

/-- A turn only adds to what is on record. -/
theorem grows (p : Passage S) :
    ∃ events : List Event, p.after.world.trace = events ++ p.scene.world.trace := by
  have after {s s' : Scene S} (h : Steps True True p.scene s)
      (h' : ∃ events : List Event, s'.world.trace = events ++ s.world.trace) (ha : p.after = s') :
      ∃ events : List Event, p.after.world.trace = events ++ p.scene.world.trace := by
    obtain ⟨a, hs⟩ := h.grows
    obtain ⟨b, hs'⟩ := h'
    exact ⟨b ++ a, by rw [ha, hs', hs, List.append_assoc]⟩
  have fails {s : Scene S} {f : Failure} (ht : turn p.reception? p.scene = .error f s)
      (h : Steps True True p.scene s) :
      ∃ events : List Event, p.after.world.trace = events ++ p.scene.world.trace := by
    obtain ⟨s', hf, -, -, hs⟩ := fall_eq_error f s
    exact after h hs.grows (Scene.after_of_error ((guarded_of_error ht).trans hf)).2
  have hsteps := impulse_steps p.reception? p.scene
  cases hi : impulse p.reception? p.scene with
  | error f s =>
      rw [hi] at hsteps
      exact fails (bind_of_error hi) hsteps
  | ok moved s =>
      rw [hi] at hsteps
      have ht := turn_of_impulse hi
      have hsettle : Goes True True (Transfer.settle (S := S)) s := .settle trivial
      cases hr : Transfer.settle s with
      | error f s' => exact fails (ht.trans hr) (hsteps.trans (hsettle.steps_error hr).1)
      | ok u s' =>
          have hsteps := hsteps.trans (hsettle.steps_ok hr)
          have hg := guarded_of_ok (ht.trans hr)
          have hleave : Goes True True (leave (S := S)) s' := .leave
          split at hg
          · cases hl : leave s' with
            | ok u s'' =>
                exact after hsteps (hleave.steps_ok hl).grows (Scene.after_of_ok (hg.trans hl)).2
            | error f s'' =>
                exact after hsteps (hleave.steps_error hl).1.grows
                  (Scene.after_of_error (hg.trans hl)).2
          · exact after hsteps ⟨[], rfl⟩ (Scene.after_of_ok hg).2

end Passage

namespace Server

/-! ## Whole runs -/

/-- A transfer turn by turn, with what is left of it. It heeds that everything is to come to an end,
and it waits after each of its turns but the last. -/
structure Heeds (turns : List (Passage S × List Event)) (left : Option (Transfer S)) : Prop where
  ready : ∀ t ∈ left, t.heedsStop = true ∧ t.phase ≠ .failed
  each : ∀ q ∈ turns, q.1.scene.self.heedsStop = true ∧ q.1.scene.self.phase ≠ .failed ∧
    ∃ server : Server S, q.2 = q.1.scene.world.since (server.dealWith q.1).1.world
  last : ∃ (before : List (Passage S × List Event)) (q : Passage S × List Event),
    turns = before ++ [q] ∧ q.1.left = left ∧ ∀ q' ∈ before, q'.1.left ≠ none

theorem heeds_left {p : Passage S} (h : p.scene.self.heedsStop = true) :
    ∀ t ∈ p.left, t.heedsStop = true ∧ t.phase ≠ .failed := by
  intro t ht
  have hframe := frame_after (.turn p.reception?) p.scene
  unfold Passage.left at ht
  split at ht
  next hw =>
    obtain rfl := Option.some.inj ht
    refine ⟨(congrArg Transfer.Frame.heedsStop hframe).trans h, fun hp => ?_⟩
    unfold Passage.waits at hw
    split at hw
    · simp [isOver, hp, Phase.isOver] at hw
    · cases hw
  next => cases ht

theorem Course.heeds {start a : Affairs S} {deeds : List (Deed S)} (run : Course start deeds a)
    (hc : start.Consistent) (ht : start.server.tasks = []) : Lives Heeds deeds a.server := by
  refine run.lives hc ht (fun server assignment socket world hs => ?_)
    (fun server task reception turns h => ?_)
  · obtain ⟨network, rfl⟩ := world_of_askSocket hs
    let p := server.firstPassage assignment socket { server.world with network }
    have hheeds : p.scene.self.heedsStop = true := rfl
    have hphase : p.scene.self.phase ≠ .failed := Phase.noConfusion
    -- Nothing has been put on record while the socket was asked for.
    have hlines : server.world.since (server.dealWith p).1.world =
        p.scene.world.since (server.dealWith p).1.world := by
      generalize server.dealWith p = outcome
      rfl
    refine ⟨heeds_left hheeds, fun q hq => ?_, [], (p, _), rfl, rfl, fun q hq => nomatch hq⟩
    rw [List.mem_singleton.1 hq]
    exact ⟨hheeds, hphase, server, hlines⟩
  · obtain ⟨hheeds, hphase⟩ := h.ready task.transfer rfl
    obtain ⟨before, q, rfl, hleft, hbefore⟩ := h.last
    refine ⟨heeds_left hheeds, fun q' hq => ?_, before ++ [q], _, rfl, rfl, fun q' hq => ?_⟩
    · rcases List.mem_append.1 hq with hq | hq
      · exact h.each q' hq
      · rw [List.mem_singleton.1 hq]
        exact ⟨hheeds, hphase, server, rfl⟩
    · rcases List.mem_append.1 hq with hq | hq
      · exact hbefore q' hq
      · rw [List.mem_singleton.1 hq, hleft]
        exact Option.some_ne_none _

/-- Once a server is to stop, each of its transfers finds that out in its next turn. -/
theorem Course.stops {start a : Affairs S} {deeds : List (Deed S)} (run : Course start deeds a)
    (hs : start.server.world.stopping = true) {p : Passage S} {lines : List Event}
    (hm : Deed.turns p lines ∈ deeds) : p.scene.world.stopping = true := by
  induction run with
  | refl => cases hm
  | step run hstep ih =>
      rcases List.mem_append.1 hm with hm | hm
      · exact ih hm
      · have hs := run.stopping hs
        cases hstep with
        | begins _ hk =>
            obtain ⟨network, rfl⟩ := world_of_askSocket hk
            cases List.mem_singleton.1 hm
            exact hs
        | resumes =>
            cases List.mem_singleton.1 hm
            exact hs
        | hears | lacks => cases List.mem_singleton.1 hm
        | meanwhile => cases hm

theorem mem_turnsOf {deeds : List (Deed S)} {p : Passage S} {lines : List Event} {n : Nat} :
    (p, lines) ∈ turnsOf n deeds ↔ Deed.turns p lines ∈ deeds ∧ p.number = n := by
  unfold turnsOf
  rw [List.mem_filterMap]
  constructor
  · rintro ⟨deed, hm, hd⟩
    cases deed with
    | turns p' lines' =>
        by_cases hn : p'.number = n
        · obtain ⟨rfl, rfl⟩ : p' = p ∧ lines' = lines := by simpa [Deed.turnOf?, hn] using hd
          exact ⟨hm, hn⟩
        · simp [Deed.turnOf?, hn] at hd
    | _ => cases hd
  · rintro ⟨hm, rfl⟩
    exact ⟨_, hm, by simp [Deed.turnOf?]⟩

end Server

end Tftp
