import Tftp.Proofs.Receiving
import Tftp.Proofs.Sending

/-!
# The progress of a transfer

The outlines tell of one transfer what it has said and heard. To follow two transfers that talk to
each other it is enough to know of each how far it is: which packet a sender has out, and how many
blocks a receiver has acknowledged. A turn moves either by one number at most, and only if the packet
has come that permits it. What goes to the peer has the number that the transfer has then.
-/

namespace Tftp

/-! ## Blocks in a sink -/

namespace Storage.Sink

variable {S : Storage}

theorem put (sink : S.Sink) (payload : Bytes) (file : S.State × S.Writer) (hopen : sink.IsOpen file) :
    match (S.put payload file).result with
    | .ok () => sink.IsOpen (S.put payload file).state ∧
      sink.content (S.put payload file).state = sink.content file ++ payload
    | .error _ => sink.content (S.put payload file).state <+: sink.content file ++ payload := by
  by_cases hp : payload = []
  · subst hp
    exact ⟨hopen, (List.append_nil _).symm⟩
  · have hput : S.put payload = S.write payload := if_pos hp
    rw [hput]
    exact sink.write payload file hopen

/-- What a sink holds when a block has been stored, or when that has failed. -/
theorem keep (sink : S.Sink) (payload : Bytes) (isLast : Bool) (file : S.State × S.Writer)
    (hopen : sink.IsOpen file) :
    sink.content (S.keep payload isLast file).state <+: sink.content file ++ payload ∧
    ((S.keep payload isLast file).result = .ok () →
      sink.content (S.keep payload isLast file).state = sink.content file ++ payload ∧
      if isLast then sink.IsFinished (S.keep payload isLast file).state
      else sink.IsOpen (S.keep payload isLast file).state) := by
  have hput := sink.put payload file hopen
  unfold Storage.keep Effect.andThen
  cases hr : (S.put payload file).result with
  | error f =>
      rw [hr] at hput
      simp only [hr]
      exact ⟨hput, nofun⟩
  | ok _ =>
      rw [hr] at hput
      obtain ⟨hopen', hcontent⟩ := hput
      cases isLast with
      | false =>
          rw [← hcontent]
          exact ⟨List.prefix_refl _, fun _ => ⟨rfl, hopen'⟩⟩
      | true =>
          have hfin := sink.finish _ hopen'
          simp only [if_true]
          rw [← hcontent]
          cases hf : (S.finish (S.put payload file).state).result with
          | error f =>
              rw [hf] at hfin
              exact ⟨hfin, nofun⟩
          | ok _ =>
              rw [hf] at hfin
              exact ⟨hfin.2 ▸ List.prefix_refl _, fun _ => hfin.symm⟩

theorem keep_silent (sink : S.Sink) (payload : Bytes) (isLast : Bool) (file : S.State × S.Writer) :
    ∀ e ∈ (S.keep payload isLast file).events, e.isSent = false := by
  have hput : ∀ e ∈ (S.put payload file).events, e.isSent = false := by
    intro e he
    unfold Storage.put at he
    split at he
    · exact (sink.silent file).1 payload e he
    · cases he
  unfold Storage.keep Effect.andThen
  intro e he
  split at he
  · rcases List.mem_append.mp he with he | he
    · exact hput e he
    · split at he
      · exact (sink.silent _).2.1 e he
      · cases he
  · exact hput e he

end Storage.Sink

namespace Transfer

variable {S : Storage}

/-! ## The progress of a transfer that sends -/

namespace Read

/-- How far a transfer is: the number of the packet that is out, or was out last. -/
inductive Progress (source : S.Source) (size : Nat) (content : Bytes) (i : Nat) (v : View S) : Prop
  | fresh : Fresh source size content v → i = 0 → Progress source size content i v
  | sending : Sending source size content i v.self v.store → Progress source size content i v
  | failed : v.self.phase = .failed → i ≤ blockCount size content →
      Progress source size content i v
  | ended : v.self.phase = .readEnd → i = blockCount size content →
      Progress source size content i v

def Acknowledged (v : View S) (i : Nat) (reception : Option Reception) : Prop :=
  ∃ r, reception = some r ∧ Acknowledges v i r

/-- What a turn does: it moves by one number at most, and if it moves, the acknowledgement has come or
the transfer begins. -/
structure Moves (source : S.Source) (size : Nat) (content : Bytes) (i i' : Nat) (v v' : View S)
    (reception : Option Reception) (sent : List Bytes) : Prop where
  progress : Progress source size content i' v'
  peer : v'.self.peer = v.self.peer
  sent : ∃ terms k, sent = List.replicate k (packet terms size content i').encode
  step : i' = i ∨ (i = 0 ∧ i' = 1 ∧ v.self.phase = .initial) ∨
    (i' = i + 1 ∧ Acknowledged v i reception)
  ended : v'.self.phase = .readEnd →
    v.self.phase = .readEnd ∨ i = blockCount size content ∧ Acknowledged v i reception

variable {source : S.Source} {size : Nat} {content : Bytes} {i : Nat} {s s' : Scene S}
  {v v' : View S}

theorem Progress.le (h : Progress source size content i v) : i ≤ blockCount size content := by
  cases h with
  | fresh _ hi =>
      rw [hi]
      exact Nat.zero_le _
  | sending hs => exact hs.high
  | failed _ hi => exact hi
  | ended _ hi => exact Nat.le_of_eq hi

theorem Sending.phase_ne_readEnd (h : Sending source size content i v.self v.store) :
    v.self.phase ≠ .readEnd := by
  intro hp
  have isOver := phaseAt_isOver size content i
  rw [← h.phase, hp] at isOver
  cases isOver

theorem Progress.of_sending (hi : i ≤ blockCount size content)
    (h : Sending source size content i v.self v.store ∨ Failed v.self) :
    Progress source size content i v ∧ v.self.phase ≠ .readEnd := by
  rcases h with hs | hf
  · exact ⟨.sending hs, hs.phase_ne_readEnd⟩
  · refine ⟨.failed hf.phase hi, ?_⟩
    rw [hf.phase]
    exact nofun

theorem Fresh.moves (h : Fresh source size content s.view) :
    ∃ i', Moves source size content 0 i' s.view (s.after begin).view none
      (sentTo s.view.self.peer (s.deedsOf begin)) := by
  obtain ⟨k, hb⟩ := (begins_begin h.direction h.writer h.block h.agreed h.pos h.offers).after
  have hfirst := first_le_one (s.after begin).view.self.terms
  have hle := Nat.le_trans hfirst (@blockCount_pos size content)
  obtain ⟨hprogress, hne⟩ := Progress.of_sending hle (hb.ends.imp_left And.right)
  refine ⟨first (s.after begin).view.self.terms, hprogress, hb.talks.peer, ?_, ?_, ?_⟩
  · exact ⟨_, k, hb.talks.sends.sentTo_deedsOf⟩
  · rcases Nat.le_one_iff_eq_zero_or_eq_one.mp hfirst with h0 | h1
    · exact .inl h0
    · exact .inr (.inl ⟨rfl, h1, h.phase⟩)
  · exact fun hp => absurd hp hne

theorem Sending.moves (h : Sending source size content i s.view.self s.view.store)
    (reception : Reception) :
    ∃ i', Moves source size content i i' s.view (s.after (resume reception)).view (some reception)
      (sentTo s.view.self.peer (s.deedsOf (resume reception))) := by
  obtain ⟨hterms, outcome⟩ := (outcome_resume h reception).after
  cases outcome with
  | waits k ha ht hor =>
      obtain ⟨hprogress, hne⟩ := Progress.of_sending h.high hor
      exact ⟨i, hprogress, ht.peer, ⟨_, k, ht.sends.sentTo_deedsOf⟩, .inl rfl,
        fun hp => absurd hp hne⟩
  | moves k ha hi ht hor =>
      obtain ⟨hprogress, hne⟩ := Progress.of_sending hi hor
      exact ⟨i + 1, hprogress, ht.peer, ⟨_, k + 1, ht.sends.sentTo_deedsOf⟩,
        .inr (.inr ⟨rfl, reception, rfl, ha⟩), fun hp => absurd hp hne⟩
  | stuck ha hi ht hf =>
      obtain ⟨hprogress, hne⟩ : Progress source size content i _ ∧ _ :=
        Progress.of_sending h.high (.inr hf)
      exact ⟨i, hprogress, ht.peer, ⟨s.view.self.terms, 0, ht.sends.sentTo_deedsOf⟩, .inl rfl,
        fun hp => absurd hp hne⟩
  | ends ha hi ht hp =>
      exact ⟨i, .ended hp hi, ht.peer, ⟨s.view.self.terms, 0, ht.sends.sentTo_deedsOf⟩, .inl rfl,
        fun _ => .inr ⟨hi, reception, rfl, ha⟩⟩

theorem Progress.congr (hself : v'.self = v.self) (hstore : v'.store = v.store)
    (h : Progress source size content i v) : Progress source size content i v' := by
  obtain ⟨t, store, _, _, _⟩ := v'
  cases hself
  cases hstore
  cases h with
  | fresh hf hi => exact .fresh { hf with } hi
  | sending hs => exact .sending hs
  | failed hp hi => exact .failed hp hi
  | ended hp hi => exact .ended hp hi

/-- **What a sender makes of any turn.** -/
theorem Progress.moves {reception : Option Reception} {events : List Event}
    (h : Progress source size content i s.view) (turn : Turn s reception events s') :
    ∃ i', Moves source size content i i' s.view s'.view reception
      (sentTo s.view.self.peer events) := by
  cases turn with
  | begins hi =>
      have hi : s.view.self.phase = .initial := hi
      cases h with
      | fresh hf h0 =>
          rw [h0]
          exact hf.moves
      | sending hs => exact absurd (hs.phase.symm.trans hi) (phaseAt_ne_initial _ _ _)
      | failed hp _ => cases hp.symm.trans hi
      | ended hp _ => cases hp.symm.trans hi
  | resumes reception hw =>
      have hw : s.view.self.isWaiting = true := hw
      cases h with
      | fresh hf _ => exact absurd hw (not_isWaiting hf.phase (.inl rfl))
      | sending hs => exact hs.moves reception
      | failed hp _ => exact absurd hw (not_isWaiting hp (.inr rfl))
      | ended hp _ => exact absurd hw (not_isWaiting hp (.inr rfl))
  | meanwhile world hstore =>
      have hself : (Scene.view { s with world }).self = s.view.self := rfl
      exact ⟨i, h.congr hself hstore, rfl, ⟨s.view.self.terms, 0, rfl⟩, .inl rfl, .inl⟩

end Read

/-! ## The progress of a transfer that receives -/

namespace View

variable {v v' w : View S}

theorem storing_sends {effect : Effect (S.State × S.Writer) Unit} {writer : S.Writer}
    (h : ∀ e ∈ (effect (v.store, writer)).events, e.isSent = false) :
    v.Sends (v.storing effect writer) [] := by
  refine ⟨rfl, _, rfl, ?_⟩
  rw [sentTo, List.filterMap_eq_nil_iff]
  intro e he
  have he := h e (Event.mem_unlogged he)
  cases e <;> simp_all [Event.isSent]

theorem givenUp_sends (sink : S.Sink) (v : View S) : v.Sends v.givenUp [] := by
  have hfailed : v.Sends (v.changing fun t => { t with phase := .failed }) [] :=
    ⟨rfl, [], (List.append_nil _).symm, rfl⟩
  cases hw : v.self.writer with
  | none =>
      rw [givenUp_of_none hw]
      exact hfailed
  | some writer =>
      rw [givenUp_of_some hw]
      exact hfailed.trans (storing_sends (sink.silent _).2.2)

theorem givenUp_content (sink : S.Sink) (v : View S) {held : Bytes}
    (h : ∀ writer, v.self.writer = some writer → sink.content (v.store, writer) <+: held) :
    ∀ writer, v.givenUp.self.writer = some writer →
      sink.content (v.givenUp.store, writer) <+: held := by
  intro writer hw
  cases hw' : v.self.writer with
  | none =>
      rw [givenUp_of_none hw'] at hw
      cases hw'.symm.trans hw
  | some file =>
      rw [givenUp_of_some hw'] at hw ⊢
      cases hw
      exact (sink.abort (v.store, file)).trans (h file hw')

end View

namespace Write

/-- How far a transfer is: how many blocks it has acknowledged, and what the sink holds then. -/
inductive Progress (sink : S.Sink) (size : Nat) (content : Bytes) (r : Nat) (v : View S) : Prop
  | fresh : Fresh size v → r = 0 → Progress sink size content r v
  | receiving (writer : S.Writer) : Receiving size r v.self → r < blockCount size content →
      v.self.writer = some writer → sink.IsOpen (v.store, writer) →
      sink.content (v.store, writer) = content.take (r * size) → Progress sink size content r v
  | failed : v.self.phase = .failed → r < blockCount size content →
      (∀ writer, v.self.writer = some writer → sink.content (v.store, writer) <+: content) →
      Progress sink size content r v
  | ended (writer : S.Writer) : v.self.phase = .writeEnd → r = blockCount size content →
      v.self.writer = some writer → sink.IsFinished (v.store, writer) →
      sink.content (v.store, writer) = content → Progress sink size content r v

def Taken (v : View S) (r : Nat) (reception : Option Reception) : Prop :=
  ∃ e payload, reception = some e ∧ Takes v r payload e

/-- What a turn does: it moves by one number at most, and if it moves, the block has come. -/
structure Moves (sink : S.Sink) (size : Nat) (content : Bytes) (r r' : Nat) (v v' : View S)
    (reception : Option Reception) (sent : List Bytes) : Prop where
  progress : Progress sink size content r' v'
  peer : v'.self.peer = v.self.peer
  sent : ∃ terms k, sent = List.replicate k (reply terms r').encode
  step : r' = r ∨ (r' = r + 1 ∧ Taken v r reception)

variable {sink : S.Sink} {size : Nat} {content : Bytes} {r : Nat} {s s' : Scene S} {v v' w : View S}

theorem Progress.le (h : Progress sink size content r v) : r ≤ blockCount size content := by
  cases h with
  | fresh _ hr =>
      rw [hr]
      exact Nat.zero_le _
  | receiving _ _ hr => exact Nat.le_of_lt hr
  | failed _ hr => exact Nat.le_of_lt hr
  | ended _ _ hr => exact Nat.le_of_eq hr

/-- A transfer has failed when it gives up, and it keeps what it has got of the content. -/
theorem Progress.of_givenUp {sent : List Bytes} (said : v.Sends w sent)
    (hr : r < blockCount size content)
    (hc : ∀ writer, w.self.writer = some writer → sink.content (w.store, writer) <+: content) :
    Progress sink size content r w.givenUp ∧ v.Sends w.givenUp sent := by
  refine ⟨.failed (View.givenUp_self w).2.2 hr (View.givenUp_content sink w hc), ?_⟩
  simpa using said.trans (View.givenUp_sends sink w)

theorem Progress.of_givenUp_writer {writer : S.Writer} {sent : List Bytes} (said : v.Sends w sent)
    (hr : r < blockCount size content) (hw : w.self.writer = some writer)
    (hc : sink.content (w.store, writer) <+: content) :
    Progress sink size content r w.givenUp ∧ v.Sends w.givenUp sent := by
  apply of_givenUp said hr
  intro writer' hw'
  obtain rfl : writer = writer' := Option.some.inj (hw.symm.trans hw')
  exact hc

/-- After some talk a transfer goes on receiving, or it has given up. -/
theorem Progress.of_ends {writer : S.Writer} {sent : List Bytes} (said : v.Says w sent)
    (hrec : Receiving size r w.self) (hr : r < blockCount size content)
    (hw : v.self.writer = some writer) (hopen : sink.IsOpen (v.store, writer))
    (hc : sink.content (v.store, writer) = content.take (r * size)) (hends : w.Ends v') :
    Progress sink size content r v' ∧ v.Sends v' sent := by
  rw [← said.store] at hopen hc
  rw [← said.writer] at hw
  rcases hends with rfl | rfl
  · exact ⟨.receiving writer hrec hr hw hopen hc, said.sends⟩
  · exact of_givenUp_writer said.sends hr hw (hc ▸ List.take_prefix ..)

theorem Fresh.moves (sink : S.Sink) (content : Bytes) (h : Fresh size s.view) :
    Moves sink size content 0 0 s.view (s.after begin).view none
      (sentTo s.view.self.peer (s.deedsOf begin)) := by
  have pos := @blockCount_pos size content
  have opened : ∀ terms writer, s.view.Sends (s.view.opened terms writer) [] :=
    fun _ _ => (View.opened_talks (sink.opening _ _ _ _)).sends
  have outcome := (begins_begin h.direction h.writer h.agreed).after
  have on : ∀ {sent}, s.view.Sends (s.after begin).view sent →
      sentTo s.view.self.peer (s.deedsOf begin) = sent := View.Sends.sentTo_deedsOf
  generalize (s.after begin).view = v' at outcome on ⊢
  cases outcome with
  | refused hv =>
      subst hv
      obtain ⟨hprogress, hsends⟩ : Progress sink size content 0 _ ∧ _ :=
        Progress.of_givenUp (View.Talks.refl s.view).sends pos fun _ hw => nomatch h.writer.symm.trans hw
      exact ⟨hprogress, hsends.peer, ⟨s.view.self.terms, 0, on hsends⟩, .inl rfl⟩
  | unopened terms _ hv =>
      subst hv
      obtain ⟨hprogress, hsends⟩ : Progress sink size content 0 _ ∧ _ :=
        Progress.of_givenUp (opened terms none) pos fun _ hw => nomatch hw
      exact ⟨hprogress, hsends.peer, ⟨terms, 0, on hsends⟩, .inl rfl⟩
  | stuck terms writer hopen hv =>
      subst hv
      obtain ⟨-, hc⟩ := sink.opens _ _ _ _ _ hopen
      have hc : sink.content ((s.view.opened terms (some writer)).store, writer) = [] := hc
      obtain ⟨hprogress, hsends⟩ : Progress sink size content 0 _ ∧ _ :=
        Progress.of_givenUp_writer (opened terms (some writer)) pos rfl (hc ▸ List.nil_prefix)
      exact ⟨hprogress, hsends.peer, ⟨terms, 0, on hsends⟩, .inl rfl⟩
  | begins terms writer k w hopen said hrec hends =>
      obtain ⟨hfile, hc⟩ := sink.opens _ _ _ _ _ hopen
      have hc : sink.content ((s.view.opened terms (some writer)).store, writer) =
          content.take (0 * size) := by
        rw [Nat.zero_mul]
        exact hc
      obtain ⟨hprogress, hsends⟩ := Progress.of_ends said hrec pos rfl hfile hc hends
      have hsends := (opened terms (some writer)).trans hsends
      exact ⟨hprogress, hsends.peer, ⟨terms, k + 1, on hsends⟩, .inl rfl⟩

/-- What a transfer makes of a turn while a block is to come, provided that the block is the right
one. -/
theorem Receiving.moves {writer : S.Writer} (pos : 0 < size) (h : Receiving size r s.view.self)
    (hr : r < blockCount size content) (hw : s.view.self.writer = some writer)
    (hopen : sink.IsOpen (s.view.store, writer))
    (hc : sink.content (s.view.store, writer) = content.take (r * size)) (reception : Reception)
    (honest : ∀ payload, Takes s.view r payload reception →
      payload = blockAt size content (r + 1)) :
    ∃ r', Moves sink size content r r' s.view (s.after (resume reception)).view (some reception)
      (sentTo s.view.self.peer (s.deedsOf (resume reception))) := by
  -- What the sink holds when the block that has come is being stored.
  have stored : ∀ {payload}, Takes s.view r payload reception →
      sink.content (s.view.store, writer) ++ payload = content.take ((r + 1) * size) := by
    intro payload ht
    rw [hc, honest payload ht, take_append_blockAt]
  have keeps : ∀ payload isLast,
      s.view.Sends (s.view.storing (S.keep payload isLast) writer) [] :=
    fun payload isLast => View.storing_sends (sink.keep_silent payload isLast _)
  have outcome := (outcome_resume h reception).after
  have on : ∀ {sent}, s.view.Sends (s.after (resume reception)).view sent →
      sentTo s.view.self.peer (s.deedsOf (resume reception)) = sent := View.Sends.sentTo_deedsOf
  generalize (s.after (resume reception)).view = v' at outcome on ⊢
  cases outcome with
  | waits k w hno said hrec hends =>
      obtain ⟨hprogress, hsends⟩ := Progress.of_ends said hrec hr hw hopen hc hends
      exact ⟨r, hprogress, hsends.peer, ⟨_, k, on hsends⟩, .inl rfl⟩
  | refused payload ht hl hv =>
      subst hv
      obtain ⟨hprogress, hsends⟩ : Progress sink size content r _ ∧ _ :=
        Progress.of_givenUp_writer (View.Talks.refl s.view).sends hr hw (hc ▸ List.take_prefix ..)
      exact ⟨r, hprogress, hsends.peer, ⟨s.view.self.terms, 0, on hsends⟩, .inl rfl⟩
  | stuck payload file ht hl hf hv =>
      subst hv
      obtain rfl : writer = file := Option.some.inj (hw.symm.trans hf)
      have hpre := (sink.keep payload (decide (payload.length < size)) _ hopen).1
      rw [stored ht] at hpre
      obtain ⟨hprogress, hsends⟩ : Progress sink size content r _ ∧ _ :=
        Progress.of_givenUp_writer (keeps payload _) hr rfl (hpre.trans (List.take_prefix ..))
      exact ⟨r, hprogress, hsends.peer, ⟨s.view.self.terms, 0, on hsends⟩, .inl rfl⟩
  | takes payload file k w ht hl hf hkeep said hrec hends =>
      obtain rfl : writer = file := Option.some.inj (hw.symm.trans hf)
      obtain ⟨-, hkept⟩ := sink.keep payload false _ hopen
      obtain ⟨hc', hopen'⟩ := hkept hkeep
      rw [stored ht] at hc'
      -- A block that is full is not the last one.
      have hr' : r + 1 < blockCount size content := by
        have hnot := mt (length_blockAt_lt_iff pos (Nat.succ_pos r) hr).mpr
        rw [← honest payload ht, hl] at hnot
        have := hnot (Nat.lt_irrefl _)
        omega
      obtain ⟨hprogress, hsends⟩ := Progress.of_ends said hrec hr' rfl hopen' hc' hends
      have hsends := (keeps payload false).trans hsends
      exact ⟨r + 1, hprogress, hsends.peer, ⟨_, k + 1, on hsends⟩,
        .inr ⟨rfl, reception, payload, rfl, ht⟩⟩
  | ends payload file ht hl hf hkeep said hphase =>
      obtain rfl : writer = file := Option.some.inj (hw.symm.trans hf)
      obtain ⟨-, hkept⟩ := sink.keep payload true _ hopen
      obtain ⟨hc', hfinished⟩ := hkept hkeep
      -- A block that is not full is the last one.
      have hlast : r + 1 = blockCount size content := by
        rw [honest payload ht] at hl
        exact (length_blockAt_lt_iff pos (Nat.succ_pos r) hr).mp hl
      rw [stored ht, hlast, take_blockCount pos] at hc'
      have hprogress : Progress sink size content (r + 1) v' := by
        apply Progress.ended (S.keep payload true (s.view.store, writer)).state.2 hphase hlast
        · exact said.writer
        · rw [said.store]
          exact hfinished
        · rw [said.store]
          exact hc'
      have hsends := (keeps payload true).trans said.sends
      exact ⟨r + 1, hprogress, hsends.peer, ⟨_, 1, on hsends⟩,
        .inr ⟨rfl, reception, payload, rfl, ht⟩⟩

/-- The clock, the network and the log have nothing to do with it. -/
theorem Progress.congr (hself : v'.self = v.self) (hstore : v'.store = v.store)
    (h : Progress sink size content r v) : Progress sink size content r v' := by
  obtain ⟨t, store, _, _, _⟩ := v'
  cases hself
  cases hstore
  cases h with
  | fresh hf hr => exact .fresh { hf with } hr
  | receiving writer hrec hr hw hopen hc => exact .receiving writer hrec hr hw hopen hc
  | failed hp hr hc => exact .failed hp hr hc
  | ended writer hp hr hw hf hc => exact .ended writer hp hr hw hf hc

/-- **What a receiver makes of any turn**, provided that the block that is to come is the right one. -/
theorem Progress.moves {reception : Option Reception} {events : List Event} (pos : 0 < size)
    (h : Progress sink size content r s.view) (turn : Turn s reception events s')
    (honest : r < blockCount size content → ∀ e payload, reception = some e →
      Takes s.view r payload e → payload = blockAt size content (r + 1)) :
    ∃ r', Moves sink size content r r' s.view s'.view reception
      (sentTo s.view.self.peer events) := by
  cases turn with
  | begins hi =>
      have hi : s.view.self.phase = .initial := hi
      cases h with
      | fresh hf h0 =>
          rw [h0]
          exact ⟨0, hf.moves sink content⟩
      | receiving _ hrec _ _ _ _ => cases hrec.phase.symm.trans hi
      | failed hp _ _ => cases hp.symm.trans hi
      | ended _ hp _ _ _ _ => cases hp.symm.trans hi
  | resumes reception hw =>
      have hw : s.view.self.isWaiting = true := hw
      cases h with
      | fresh hf _ => exact absurd hw (not_isWaiting hf.phase (.inl rfl))
      | receiving writer hrec hr hw' hopen hc =>
          exact hrec.moves pos hr hw' hopen hc reception fun payload =>
            honest hr _ payload rfl
      | failed hp _ _ => exact absurd hw (not_isWaiting hp (.inr rfl))
      | ended _ hp _ _ _ _ => exact absurd hw (not_isWaiting hp (.inr rfl))
  | meanwhile world hstore =>
      have hself : (Scene.view { s with world }).self = s.view.self := rfl
      exact ⟨r, h.congr hself hstore, rfl, ⟨s.view.self.terms, 0, rfl⟩, .inl rfl⟩

end Write

end Transfer

end Tftp
