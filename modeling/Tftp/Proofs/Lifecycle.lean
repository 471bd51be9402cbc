import Tftp.Proofs.Contracts
import Tftp.Proofs.Receiving
import Tftp.Storage.Scripted

/-!
# The life of a file that is being received

A transfer that receives a file opens it, writes to it, and at last either finishes it or gives it
up. Failures strike anywhere: in the negotiation, when the file is opened, in a write, in the end, at
any send and in any receive. A `Session` is the transfer from its beginning, as long as no turn has
failed and it is not over, and this module says which calls a session makes:

    open ─▶ write ─▶ … ─▶ write ─▶ finish ─▶ (the last ACK)
             │              │        │             │
             └──────────────┴────────┴─────────────┴──▶ abort, and the session fails
-/

namespace Tftp

namespace Event

/-- Whether an event is a call for a file that is being received. -/
def isCall : Event → Bool
  | openedForWriting .. => true
  | e => e.isStoring

/-- The calls for a file that is being received. -/
def calls (events : List Event) : List Event := events.filter isCall

@[simp] theorem calls_append (a b : List Event) : calls (a ++ b) = calls a ++ calls b :=
  List.filter_append ..

theorem calls_eq_nil {events : List Event} (h : ∀ e ∈ events, e.isCall = false) :
    calls events = [] :=
  List.filter_eq_nil_iff.2 fun e he => by simp [h e he]

end Event

namespace Transfer

variable {S : Storage}

/-! ## The calls between two views -/

namespace View

variable {v v' w : View S} {a b rest : List Event}

/-- Between two views exactly the given calls are made. -/
def Calls (v v' : View S) (calls : List Event) : Prop :=
  ∃ events, v'.deeds = v.deeds ++ events ∧ Event.calls events = calls

/-- Between two views exactly the given calls are made, and then exactly the rest is done. -/
def CallsThen (v v' : View S) (calls rest : List Event) : Prop :=
  ∃ events, v'.deeds = v.deeds ++ (events ++ rest) ∧ Event.calls events = calls

theorem Calls.refl (v : View S) : v.Calls v [] := ⟨[], by simp, rfl⟩

theorem Calls.trans (h : v.Calls v' a) (h' : v'.Calls w b) : v.Calls w (a ++ b) := by
  obtain ⟨ea, ha, rfl⟩ := h
  obtain ⟨eb, hb, rfl⟩ := h'
  exact ⟨ea ++ eb, by rw [hb, ha, List.append_assoc], Event.calls_append ea eb⟩

theorem Calls.callsThen (h : v.Calls w a) : v.CallsThen w a [] := by
  obtain ⟨events, hd, hc⟩ := h
  exact ⟨events, by rw [hd, List.append_nil], hc⟩

theorem CallsThen.append (h : v.CallsThen w a b) (hd : v'.deeds = w.deeds ++ rest) :
    v.CallsThen v' a (b ++ rest) := by
  obtain ⟨events, hw, hc⟩ := h
  exact ⟨events, by simp only [hd, hw, List.append_assoc], hc⟩

theorem Calls.trans_then (h : v.Calls w a) (h' : w.CallsThen v' b rest) :
    v.CallsThen v' (a ++ b) rest := by
  obtain ⟨ea, hw, rfl⟩ := h
  obtain ⟨eb, hd, rfl⟩ := h'
  exact ⟨ea ++ eb, by simp only [hd, hw, List.append_assoc], Event.calls_append ea eb⟩

/-- Without a file there is nothing to give up. -/
theorem Calls.failed (hw : w.self.writer = none) (h : v.Calls w a) : v.Calls w.givenUp a := by
  rw [givenUp_of_none hw]
  exact h

/-- Sending is no call. -/
theorem calls_doing {events : List Event} (h : ∀ e ∈ events, e.isSent = true) :
    v.Calls (v.doing events) [] := by
  refine ⟨events, rfl, Event.calls_eq_nil fun e he => ?_⟩
  have := h e he
  cases e <;> first | rfl | cases this

theorem Calls.sending (h : v.Calls w a) (packet : Packet) :
    v.Calls (w.doing [w.sending packet]) a := by
  have hs : w.Calls (w.doing [w.sending packet]) [] := calls_doing fun e he => by
    obtain rfl := List.mem_singleton.1 he
    rfl
  simpa using h.trans hs

theorem isSent_repetition (v : View S) : ∀ e ∈ v.repetition, e.isSent = true := by
  intro e he
  obtain ⟨packet, -, rfl⟩ := List.mem_map.1 he
  rfl

theorem Repeats.calls (h : v.Repeats v') : v.Calls v' [] := by
  obtain ⟨k, r, d, rfl⟩ := h
  refine calls_doing (v := v) fun e he => ?_
  obtain ⟨l, hl, he⟩ := List.mem_flatten.1 he
  rw [List.eq_of_mem_replicate hl] at he
  exact isSent_repetition v e he

theorem deeds_storing {effect : Effect (S.State × S.Writer) Unit} {writer : S.Writer}
    (h : Event.unlogged (effect (v.store, writer)).events = a) :
    (v.storing effect writer).deeds = v.deeds ++ a := by
  rw [← h]
  rfl

end View

/-! ## A transfer with its file open -/

namespace Write

variable {v w : View S} {f : Failure}

/-- A transfer waits for a block, with its file open. -/
structure Open (t : Transfer S) : Prop where
  direction : t.direction = .write
  phase : t.phase = .waitingData
  writer : ∃ writer, t.writer = some writer

/-- What a transfer does last that fails with its file open: it gives it up, after a call that has
failed or at any other point. After the file has been finished that is so only if the last
acknowledgement has not been taken. -/
inductive Ending (unacknowledged : Prop) : List Event → Prop
  | givenUp : Ending unacknowledged [.aborted]
  | notWritten : Ending unacknowledged [.notWritten, .aborted]
  | notFinished : Ending unacknowledged [.notFinished, .aborted]
  | unacknowledged : unacknowledged → Ending unacknowledged [.finished, .aborted]

/-- Where a transfer stands after a turn, by what it has done since the last write. -/
def Stands (unacknowledged : Failure → Prop) (t : Transfer S) (ending : List Event) :
    Except Failure Unit → Prop
  | .ok () => Open t ∧ ending = [] ∨ t.phase = .writeEnd ∧ ∃ time,
      ending = [.finished, .sent t.socket.address t.peer (Packet.ack t.block).encode time]
  | .error f => t.phase = .failed ∧ Ending (unacknowledged f) ending

/-- Between two views some blocks are written, and then the transfer stands somewhere. -/
def Writes (unacknowledged : Failure → Prop) (v : View S) (result : Except Failure Unit)
    (v' : View S) : Prop :=
  ∃ (written : List Bytes) (ending : List Event),
    v.CallsThen v' (written.map .written) ending ∧ Stands unacknowledged v'.self ending result

/-- The transfer goes on writing, whatever settling makes of it. By then everything that has been
finished has been acknowledged. -/
abbrev GoesOn (v w : View S) : Prop :=
  w.SettlesOr (fun w' => ∀ un, Writes un v (.ok ()) w') fun f w' => ∀ un, Writes un v (.error f) w'

/-- The network fails over the acknowledgement of the given block, and this is what becomes of it. -/
def Refuses (n : Network) (block : UInt16) (n' : Network) (f : Failure) : Prop :=
  Network.send (Packet.ack block).encode n = .error f n'

/-- Giving a file up is one call. -/
theorem writes_givenUp (records : S.Records) {writer : S.Writer} (hw : w.self.writer = some writer)
    {un : Failure → Prop} (written : List Bytes) (last : List Event)
    (hc : v.CallsThen w (written.map .written) last) (he : Ending (un f) (last ++ [.aborted])) :
    Writes un v (.error f) w.givenUp := by
  have hg := View.givenUp_of_some hw
  have ha : w.givenUp.deeds = w.deeds ++ [.aborted] := by
    rw [hg]
    exact View.deeds_storing (records.abort _)
  refine ⟨written, last ++ [.aborted], hc.append ha, ?_⟩
  rw [hg]
  exact ⟨rfl, he⟩

theorem Open.fails (records : S.Records) (h : Open w.self) {un : Failure → Prop}
    (written : List Bytes) (last : List Event) (hc : v.CallsThen w (written.map .written) last)
    (he : Ending (un f) (last ++ [.aborted])) : Writes un v (.error f) w.givenUp := by
  obtain ⟨writer, hw⟩ := h.writer
  exact writes_givenUp records hw written last hc he

/-- However a transfer with its file open settles, it goes on, or it fails and gives the file up. -/
theorem Open.settles (records : S.Records) (h : Open w.self) (written : List Bytes)
    (hc : v.Calls w (written.map .written)) : GoesOn v w where
  ends ho := by
    rw [isOver, h.phase] at ho
    cases ho
  live _ w' hr := by
    obtain ⟨r, d, hself⟩ := hr.self
    have ho : Open w'.self := by
      rw [hself]
      exact { h with }
    have hc : v.CallsThen w' (written.map .written) [] := by
      simpa using (hc.trans hr.calls).callsThen
    exact ⟨fun un => ⟨written, [], hc, .inl ⟨ho, rfl⟩⟩,
      fun f un => ho.fails records written [] hc .givenUp⟩

/-! ## Handling a packet -/

/-- After its payload has been written, a block is acknowledged; the last one is so when the file has
been finished. -/
theorem acknowledge_calls (records : S.Records) (h : Open w.self) (written : List Bytes)
    (hc : v.Calls w (written.map .written)) (t : Transfer S) (block : UInt16)
    (hb : w.self.block = block) (payload : Bytes) (n : Network) :
    EnsuresOn n (Write.acknowledge t block payload) w (fun _ w' _ => GoesOn v w')
      (fun f w' n' => Writes (Refuses n block n') v (.error f) w'.givenUp) := by
  subst hb
  obtain ⟨writer, hw⟩ := h.writer
  have ho : Open (w.storing S.finish writer).self := ⟨h.direction, h.phase, _, rfl⟩
  have hfin := records.finish (w.store, writer)
  unfold Write.acknowledge
  split
  · apply EnsuresOn.bind
    apply EnsuresOn.offline (.store _)
    apply Ensures.store hw
    · intro hr
      rw [hr] at hfin
      have hc := hc.callsThen.append (View.deeds_storing hfin)
      apply EnsuresOn.bind
      apply EnsuresOn.send
      · intro n' _
        apply EnsuresOn.bind
        apply EnsuresOn.update
        apply EnsuresOn.bind
        apply EnsuresOn.log
        apply EnsuresOn.pure
        exact ⟨fun _ => ⟨nofun, fun _ _ _ => ⟨written, _, hc.append rfl, .inr ⟨rfl, _, rfl⟩⟩⟩,
          nofun⟩
      · intro f n' hf
        exact ho.fails records written [.finished] hc (.unacknowledged hf)
    · intro f f' hr
      rw [hr] at hfin
      have hc := hc.callsThen.append (View.deeds_storing hfin)
      exact ho.fails records written [.notFinished] hc .notFinished
  · apply EnsuresOn.bind
    apply EnsuresOn.send
    · intro n' _
      apply EnsuresOn.bind
      apply EnsuresOn.update
      apply EnsuresOn.pure
      exact Open.settles records { h with } written (hc.sending _)
    · exact fun f n' _ => h.fails records written [] hc.callsThen .givenUp

theorem handle_calls (records : S.Records) (h : Open v.self) (packet : Packet) (n : Network) :
    EnsuresOn n (Write.handle packet) v (fun _ w _ => GoesOn v w)
      (fun f w n' => Writes (Refuses n v.self.block n') v (.error f) w.givenUp) := by
  have stays : GoesOn v v := h.settles records [] (.refl v)
  have gives (f : Failure) (un : Failure → Prop) : Writes un v (.error f) v.givenUp :=
    h.fails records [] [] (View.Calls.refl v).callsThen .givenUp
  cases packet with
  | data block payload =>
      rw [Write.handle_data_eq]
      apply EnsuresOn.bind
      apply EnsuresOn.self
      split
      next hb =>
        split
        · apply EnsuresOn.bind
          apply EnsuresOn.resend
          · exact fun _ => EnsuresOn.pure stays
          · intro last n' _ _
            apply EnsuresOn.pure
            exact Open.settles records { h with } [] ((View.Calls.refl v).sending last)
          · exact fun _ f _ _ _ => gives f _
        · exact EnsuresOn.pure stays
      next hb =>
        have hb : v.self.block = block := (not_not.1 hb).symm
        unfold Write.take
        split
        · exact EnsuresOn.throw (gives _ _)
        · split
          · obtain ⟨writer, hw⟩ := h.writer
            have ho : Open (v.storing (S.write payload) writer).self :=
              ⟨h.direction, h.phase, _, rfl⟩
            have hwrite := records.write payload (v.store, writer)
            apply EnsuresOn.bind
            apply EnsuresOn.offline (.store _)
            apply Ensures.store hw
            · intro hr
              rw [hr] at hwrite
              subst hb
              exact acknowledge_calls records ho [payload] ⟨_, View.deeds_storing hwrite, rfl⟩
                v.self _ rfl payload n
            · intro f f' hr
              rw [hr] at hwrite
              have hc := (View.Calls.refl v).callsThen.append (View.deeds_storing hwrite)
              exact ho.fails records [] [.notWritten] hc .notWritten
          · subst hb
            exact acknowledge_calls records h [] (.refl v) v.self _ rfl payload n
  | _ => exact EnsuresOn.pure stays

/-- A file that can be given up without a failure does not change what a transfer fails with. -/
theorem failing_eq (harmless : ∀ file, (S.abort file).result = .ok ()) (v : View S) (f : Failure) :
    v.failing f = f := by
  rcases v.failing_eq_or f with h | ⟨writer, -, h⟩
  · exact h
  · cases h.symm.trans (harmless _)

/-- **A turn of a transfer with its file open.** -/
theorem resume_calls (records : S.Records) (harmless : ∀ file, (S.abort file).result = .ok ())
    (h : Open v.self) (reception : Reception) (n : Network) :
    EnsuresOn n (Transfer.resume reception) v
      (fun _ w n' => Writes (Refuses n v.self.block n') v (.ok ()) w)
      (fun f w n' => Writes (Refuses n v.self.block n') v (.error f) w) := by
  have goesOn {w : View S} (hw : GoesOn v w) : w.SettlesOr (fun w' => ∀ un, Writes un v (.ok ()) w')
      fun f w' => ∀ n', Writes (Refuses n v.self.block n') v (.error f) w' :=
    hw.mono (fun _ => id) fun _ _ hw' n' => hw' _
  suffices turn : EnsuresOn n (Transfer.resume reception) v
      (fun _ w _ => ∀ un, Writes un v (.ok ()) w)
      (fun f w n' => Writes (Refuses n v.self.block n') v (.error f) w) from
    .mono turn (fun _ _ _ hw => hw _) fun _ _ _ => id
  refine .resume (fun _ f => ?_) (fun _ events he => ?_) fun packet _ hne => ?_
  · exact h.fails records [] [] (View.Calls.refl v).callsThen .givenUp
  · refine goesOn (Open.settles records { h with } [] (View.calls_doing fun e hm => ?_))
    obtain ⟨a, b, c, t, rfl, -⟩ := he e hm
    rfl
  · refine .handle hne (fun hd => nomatch hd.symm.trans h.direction) fun _ => ?_
    refine .mono (handle_calls records h packet n) (fun _ _ _ => goesOn) fun f w n' hw => ?_
    rw [failing_eq harmless]
    exact hw

/-! ## Beginning -/

/-- What a transfer has done from its beginning on, with the result of its last turn. Without terms
it makes no call, and without a file only one. -/
def Course (unacknowledged : Failure → Prop) (v : View S) (events : List Event)
    (result : Except Failure Unit) (t : Transfer S) : Prop :=
  match negotiate v.self.request.options v.self.config .write none with
  | .error f => Event.calls events = [] ∧ result = .error f
  | .ok terms =>
    let opened := .openedForWriting v.self.peer v.self.request.filename terms.transferSize
    match (S.sink v.self.peer v.self.request.filename terms.transferSize v.store).result with
    | .error f => Event.calls events = [opened] ∧ result = .error f
    | .ok _ => ∃ (written : List Bytes) (before ending : List Event), events = before ++ ending ∧
      Event.calls before = opened :: written.map .written ∧ Stands unacknowledged t ending result

/-- The file has been opened. -/
theorem opened_calls (opening : S.RecordsOpening) (terms : Terms) (writer : Option S.Writer) :
    v.Calls (v.opened terms writer)
      [.openedForWriting v.self.peer v.self.request.filename terms.transferSize] := by
  refine ⟨_, rfl, ?_⟩
  rw [opening]
  rfl

/-- What beginning makes of a transfer. -/
def Starts (v : View S) (result : Except Failure Unit) (v' : View S) : Prop :=
  ∀ un, ∃ events, v'.deeds = v.deeds ++ events ∧ Course un v events result v'.self

theorem Starts.of_calls {result : Except Failure Unit} {calls : List Event} (h : v.Calls w calls)
    (course : ∀ un events, Event.calls events = calls → Course un v events result w.self) :
    Starts v result w := by
  intro un
  obtain ⟨events, hd, hc⟩ := h
  exact ⟨events, hd, course un events hc⟩

theorem Starts.of_writes (opening : S.RecordsOpening) {terms : Terms} {writer : S.Writer}
    (hn : negotiate v.self.request.options v.self.config .write none = .ok terms)
    (hs : (S.sink v.self.peer v.self.request.filename terms.transferSize v.store).result =
      .ok writer) {result : Except Failure Unit}
    (h : ∀ un, Writes un (v.opened terms (some writer)) result w) : Starts v result w := by
  intro un
  obtain ⟨written, ending, hc, hst⟩ := h un
  obtain ⟨before, hd, hc⟩ := (opened_calls opening terms (some writer)).trans_then hc
  refine ⟨before ++ ending, hd, ?_⟩
  simp only [Course, hn, hs]
  exact ⟨written, before, ending, rfl, hc, hst⟩

/-- With its file open, the transfer answers the request and waits. -/
theorem answer_calls (records : S.Records) (opening : S.RecordsOpening)
    (hd : v.self.direction = .write) {terms : Terms} {writer : S.Writer}
    (hn : negotiate v.self.request.options v.self.config .write none = .ok terms)
    (hs : (S.sink v.self.peer v.self.request.filename terms.transferSize v.store).result =
      .ok writer) :
    Ensures (Write.answer terms) (v.opened terms (some writer))
      (fun _ w => w.SettlesOr (Starts v (.ok ())) fun f => Starts v (.error f))
      (fun f w => Starts v (.error f) w.givenUp) := by
  apply Ensures.bind
  apply Ensures.send
  · apply Ensures.update
    let packet := if terms.oackRequired then Packet.oack terms.oack else .ack 0
    let opened := v.opened terms (some writer)
    have ho := Open.settles records
      (w := ((opened.doing [opened.sending packet]).changing fun t =>
        { t with lastPacket := some packet }).changing fun t =>
        { t with block := 1, phase := .waitingData })
      ⟨hd, rfl, writer, rfl⟩ [] ((View.Calls.refl opened).sending packet)
    exact ho.mono (fun _ => .of_writes opening hn hs) fun _ _ => .of_writes opening hn hs
  · intro f
    apply Starts.of_writes opening hn hs
    intro un
    exact writes_givenUp records rfl [] [] (View.Calls.refl _).callsThen .givenUp

/-- **The first turn of a transfer that receives.** -/
theorem begin_calls (records : S.Records) (opening : S.RecordsOpening)
    (harmless : ∀ file, (S.abort file).result = .ok ()) (hd : v.self.direction = .write)
    (hw : v.self.writer = none) :
    Ensures Transfer.begin v (fun _ => Starts v (.ok ())) (fun f => Starts v (.error f)) := by
  apply Ensures.begin_or
  simp only [failing_eq harmless]
  unfold Transfer.start
  apply Ensures.bind
  apply Ensures.self
  rw [hd]
  dsimp only
  rw [Write.start_eq]
  apply Ensures.bind
  apply Ensures.settleTerms_or
  swap
  · intro f hn
    rw [hd] at hn
    refine Starts.of_calls (View.Calls.failed hw (.refl v)) ?_
    intro un events hc
    simp [Course, hn, hc]
  intro terms hn
  rw [hd] at hn
  apply Ensures.bind
  apply Ensures.self
  apply Ensures.bind
  apply Ensures.onStore
  simp only [View.changing]
  cases hs : (S.sink v.self.peer v.self.request.filename terms.transferSize v.store).result with
  | error f =>
      refine Starts.of_calls (View.Calls.failed hw (opened_calls opening terms none)) ?_
      intro un events hc
      simp [Course, hn, hs, hc]
  | ok writer =>
      apply Ensures.bind
      apply Ensures.update
      apply Ensures.bind
      apply Ensures.log
      exact answer_calls records opening hd hn hs

end Write

/-! ## The calls of a session -/

namespace Write

variable {start s : Scene S} {events : List Event} {result : Except Failure Unit}

/-- The last turn of a session has come to `f` over an acknowledgement: the transfer has sent one for
the block that was due, and the network, as it was then, has not taken it. -/
def Unacknowledged (start : Scene S) (events : List Event) (f : Failure) : Prop :=
  ∃ (earlier : List Event) (s : Scene S) (reception : Reception),
    Session start earlier (.ok ()) s ∧ events = earlier ++ s.deedsOf (resume reception) ∧
    Network.send (Packet.ack s.self.block).encode s.world.network =
      .error f (s.after (resume reception)).world.network

/-- As long as the transfer is not over, its file is open, and what it writes then and what comes of
it goes on with its course. -/
theorem Course.step {un : Failure → Prop} {v : View S} {t : Transfer S}
    (h : Course un v events (.ok ()) t) (ho : t.isOver = false) : Open t ∧
      ∀ {un : Failure → Prop} {result : Except Failure Unit} {t' : Transfer S}
        {written : List Bytes} {more ending : List Event}, Event.calls more = written.map .written →
        Stands un t' ending result → Course un v (events ++ (more ++ ending)) result t' := by
  unfold Course at h ⊢
  cases hn : negotiate v.self.request.options v.self.config .write none with
  | error f =>
      rw [hn] at h
      cases h.2
  | ok terms =>
      rw [hn] at h
      dsimp only at h ⊢
      cases hs : (S.sink v.self.peer v.self.request.filename terms.transferSize v.store).result with
      | error f =>
          rw [hs] at h
          cases h.2
      | ok writer =>
          rw [hs] at h
          obtain ⟨before, done, ending, rfl, hc, ⟨hopen, rfl⟩ | ⟨hp, -⟩⟩ := h
          · refine ⟨hopen, fun {_ _ _ written more ending} hm hst => ?_⟩
            exact ⟨before ++ written, done ++ more, ending, by simp, by simp [hc, hm], hst⟩
          · simp [isOver, hp, Phase.isOver] at ho

theorem Stands.mono {un un' : Failure → Prop} {t : Transfer S} {ending : List Event}
    (h : Stands un t ending result) (hun : ∀ f, un f → un' f) : Stands un' t ending result := by
  cases result with
  | ok u => exact h
  | error f =>
      obtain ⟨hp, he⟩ := h
      refine ⟨hp, ?_⟩
      cases he with
      | givenUp => exact .givenUp
      | notWritten => exact .notWritten
      | notFinished => exact .notFinished
      | unacknowledged h => exact .unacknowledged (hun f h)

/-- **A session takes its course.** -/
theorem course_of_session (records : S.Records) (opening : S.RecordsOpening)
    (harmless : ∀ file, (S.abort file).result = .ok ()) (hd : start.self.direction = .write)
    (hw : start.self.writer = none) (h : Session start events result s) :
    Course (Unacknowledged start events) start.view events result s.self := by
  induction h with
  | begins =>
      have hb : Starts start.view (start.resultOf begin) (start.after begin).view :=
        (begin_calls records opening harmless hd hw).outcome
      obtain ⟨events, hdeeds, course⟩ := hb (Unacknowledged start (start.deedsOf begin))
      rwa [Scene.deedsOf_eq hdeeds] at course ⊢
  | @resumes events s reception session ho ih =>
      obtain ⟨hopen, goesOn⟩ := ih.step ho
      have hr := EnsuresOn.outcome (s := s)
        (P := fun result w n' => Writes (Refuses s.world.network s.self.block n') s.view result w)
        (resume_calls records harmless hopen reception s.world.network)
      obtain ⟨written, ending, ⟨more, hdeeds, hc⟩, hst⟩ := hr
      have course := goesOn hc (hst.mono fun f hf =>
        (⟨events, s, reception, session, rfl, hf⟩ : Unacknowledged start _ f))
      rwa [← Scene.deedsOf_eq hdeeds] at course
  | meanwhile world _ ih => exact ih

/-- **Life of a file that is received.** If the terms cannot be settled, nothing is called, and if
the file cannot be opened, nothing is called after that. Otherwise the blocks are written, and then
the file is finished or given up. A session that fails gives it up, once and last, whatever call or
other failure came before. One that is complete has finished it, once, and then acknowledged the last
block; a file that has been finished is given up only if that acknowledgement has been sent and the
network, as it was then, has not taken it. -/
theorem session_calls {request : Request} {peer : Address} {socket : Socket} {config : Config}
    {heedsStop : Bool} {world : World S} (records : S.Records) (opening : S.RecordsOpening)
    (harmless : ∀ file, (S.abort file).result = .ok ())
    (h : Session ⟨.new S .write request peer socket config heedsStop, world⟩ events result s) :
    (∀ f, negotiate request.options config .write none = .error f →
      Event.calls events = [] ∧ result = .error f) ∧
    ∀ terms, negotiate request.options config .write none = .ok terms →
      let opened := .openedForWriting peer request.filename terms.transferSize
      let answer := (S.sink peer request.filename terms.transferSize world.store).result
      (∀ f, answer = .error f → Event.calls events = [opened] ∧ result = .error f) ∧
      ∀ writer, answer = .ok writer → ∃ (written : List Bytes) (before ending : List Event),
        events = before ++ ending ∧ Event.calls before = opened :: written.map .written ∧
        match result with
        | .ok () => s.self.phase = .waitingData ∧ ending = [] ∨
          s.self.phase = .writeEnd ∧ ∃ time, ending = [.finished,
            .sent s.self.socket.address s.self.peer (Packet.ack s.self.block).encode time]
        | .error f => s.self.phase = .failed ∧ Ending (Unacknowledged
          ⟨.new S .write request peer socket config heedsStop, world⟩ events f) ending := by
  have course := course_of_session records opening harmless rfl rfl h
  unfold Course at course
  dsimp only [Scene.view, new] at course
  refine ⟨fun f hn => ?_, fun terms hn => ⟨fun f hs => ?_, fun writer hs => ?_⟩⟩
  · rw [hn] at course
    exact course
  · rw [hn] at course
    dsimp only at course
    rw [hs] at course
    exact course
  · rw [hn] at course
    dsimp only at course
    rw [hs] at course
    obtain ⟨written, before, ending, he, hc, hst⟩ := course
    refine ⟨written, before, ending, he, hc, ?_⟩
    cases result with
    | ok _ => exact hst.imp (And.imp_left Open.phase) id
    | error f => exact hst

/-- A transfer whose last acknowledgement the network is going to refuse. -/
def unheard : Scene (Scripted.storage {}) where
  self := .new _ .write ⟨ascii "digits", .octet, {}⟩ ⟨⟨10, 0, 0, 1⟩, 5000⟩
    ⟨⟨⟨10, 0, 0, 2⟩, 40000⟩⟩ {} true
  world := { store := (), network := { faults := [⟨.send, ⟨105⟩, 1, 1⟩] } }

/-- The file is complete, and yet it is given up. -/
theorem session_calls_unheard : ∃ events f s, Session unheard events (.error f) s ∧
    Event.calls events = [.openedForWriting unheard.self.peer (ascii "digits") none,
      .written (ascii "0123456789"), .finished, .aborted] ∧
    s.self.phase = .failed ∧ ∃ (written : List Bytes) (before ending : List Event),
      events = before ++ ending ∧ Event.calls before =
        .openedForWriting unheard.self.peer (ascii "digits") none :: written.map .written ∧
      Ending (Unacknowledged unheard events f) ending := by
  let block : Reception :=
    .datagram unheard.self.peer (Packet.data 1 (ascii "0123456789")).encode
  have first : Session unheard _ (unheard.resultOf begin) _ := .begins
  rw [show unheard.resultOf begin = .ok () by decide +kernel] at first
  have second := first.resumes block (by decide +kernel)
  rw [show (unheard.after begin).resultOf (resume block) =
    .error (.other (ascii "Failed to send data: No buffer space available"))
    by decide +kernel] at second
  have course := session_calls (Scripted.records _ rfl) (Scripted.recordsOpening _)
    (fun _ => rfl) second
  obtain ⟨written, before, ending, he, hc, hp, hend⟩ := (course.2 _ rfl).2 _ rfl
  exact ⟨_, _, _, second, by decide +kernel, hp, written, before, ending, he, hc, hend⟩

end Write

end Transfer

end Tftp
