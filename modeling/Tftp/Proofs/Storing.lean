import Tftp.Proofs.Receiving
import Tftp.Proofs.Wire

/-!
# A transfer that receives stores what it is sent

Whatever a transfer that receives takes in, its outline is a transcript: a reply, the block that
comes next, what is stored of it, the next reply, and so on. Every block in it but the last is full,
each is stored once and in order, and it is acknowledged after it has been stored. If the transfer
fails, the transcript breaks off in one of a few ways, and the file is given up.

    sent reply 0, heard block 1, wrote block 1, sent reply 1, heard block 2, …

This needs a storage that keeps a record of what is asked of it (`Storage.Records`).
-/

namespace Tftp

/-! ## The record of a block -/

namespace Storage

variable {S : Storage}

/-- What is stored of a block: its payload, and that it was the last. -/
def stores (payload : Bytes) (isLast : Bool) : List Event :=
  (if payload ≠ [] then [.written payload] else []) ++ (if isLast then [.finished] else [])

/-- What may have been recorded of a block that could not be stored. -/
inductive Unstored (payload : Bytes) (isLast : Bool) : List Event → Prop
  | notWritten : payload ≠ [] → Unstored payload isLast [.notWritten]
  | notFinished : isLast = true → Unstored payload isLast (stores payload false ++ [.notFinished])

theorem Records.put (records : S.Records) (payload : Bytes) (file : S.State × S.Writer) :
    match (S.put payload file).result with
    | .ok () => Event.unlogged (S.put payload file).events = stores payload false
    | .error _ => payload ≠ [] ∧ Event.unlogged (S.put payload file).events = [.notWritten] := by
  by_cases hp : payload = []
  · subst hp
    rfl
  · have hput : S.put payload = S.write payload := if_pos hp
    have hw := records.write payload file
    rw [hput]
    cases hr : (S.write payload file).result with
    | ok _ =>
        rw [hr] at hw
        rw [hw, stores, if_pos hp]
        rfl
    | error f =>
        rw [hr] at hw
        exact ⟨hp, hw⟩

theorem Records.keep (records : S.Records) (payload : Bytes) (isLast : Bool)
    (file : S.State × S.Writer) :
    match (S.keep payload isLast file).result with
    | .ok () => Event.unlogged (S.keep payload isLast file).events = stores payload isLast
    | .error _ => Unstored payload isLast (Event.unlogged (S.keep payload isLast file).events) := by
  have hput := records.put payload file
  unfold Storage.keep Effect.andThen
  cases hr : (S.put payload file).result with
  | error f =>
      rw [hr] at hput
      obtain ⟨hp, he⟩ := hput
      simp only [hr, he]
      exact .notWritten hp
  | ok _ =>
      rw [hr] at hput
      simp only [Event.unlogged_append, hput]
      cases isLast with
      | false => exact List.append_nil _
      | true =>
          have hf := records.finish (S.put payload file).state
          simp only [if_true]
          cases hr : (S.finish (S.put payload file).state).result with
          | ok _ =>
              rw [hr] at hf
              simp [hf, stores]
          | error f =>
              rw [hr] at hf
              simp only [hf]
              exact .notFinished rfl

theorem isStoring_stores {payload : Bytes} {isLast : Bool} :
    ∀ e ∈ stores payload isLast, e.isStoring = true := by
  intro e he
  rcases List.mem_append.mp he with h | h
  · split at h
    · obtain rfl := List.mem_singleton.mp h
      rfl
    · cases h
  · split at h
    · obtain rfl := List.mem_singleton.mp h
      rfl
    · cases h

theorem Unstored.isStoring {payload : Bytes} {isLast : Bool} {events : List Event}
    (h : Unstored payload isLast events) : ∀ e ∈ events, e.isStoring = true := by
  intro e he
  cases h with
  | notWritten _ =>
      obtain rfl := List.mem_singleton.mp he
      rfl
  | notFinished _ =>
      rcases List.mem_append.mp he with h | h
      · exact isStoring_stores e h
      · obtain rfl := List.mem_singleton.mp h
        rfl

end Storage

namespace Transfer

variable {S : Storage}

/-! ## What is told of the storage -/

namespace View

variable {v v' w : View S}

theorem storing_tells {effect : Effect (S.State × S.Writer) Unit} {writer : S.Writer}
    (h : ∀ e ∈ Event.unlogged (effect (v.store, writer)).events, e.isStoring = true) :
    v.Tells (v.storing effect writer) fun told =>
      told.keep ((Event.unlogged (effect (v.store, writer)).events).map .stored) :=
  ⟨rfl, _, rfl, fun _ _ => Telling.foldl_did_storing h⟩

theorem givenUp_tells (records : S.Records) : v.Tells v.givenUp fun told =>
    told.keep (if v.self.writer.isSome then [.stored .aborted] else []) := by
  cases hw : v.self.writer with
  | none =>
      rw [givenUp_of_none hw]
      refine ⟨rfl, [], (List.append_nil _).symm, fun counts told => ?_⟩
      simp [Telling.keep]
  | some writer =>
      rw [givenUp_of_some hw]
      exact ⟨rfl, _, congrArg (v.deeds ++ ·) (records.abort (v.store, writer)), fun _ _ => rfl⟩

end View

namespace Write

/-! ## Transcripts -/

/-- The block that is waited for when so many replies are out. -/
def expects (count : Nat) : Packet → Bool
  | .data block _ => block = UInt16.ofNat count
  | _ => false

/-- A block, what is stored of it, and its acknowledgement. -/
def taking (terms : Terms) (size i : Nat) (payload : Bytes) : List Milestone :=
  .heard (.data (UInt16.ofNat i) payload) ::
    (Storage.stores payload (decide (payload.length < size))).map .stored ++
    [.sent (reply terms i).encode]

/-- The reply to the request, and then each of the given blocks with its acknowledgement. -/
def transcript (terms : Terms) (size : Nat) (blocks : List Bytes) : List Milestone :=
  .sent (reply terms 0).encode ::
    (blocks.zipIdx 1).flatMap fun (payload, i) => taking terms size i payload

/-- How a transcript may break off after so many blocks. -/
inductive Fault (size n : Nat) : List Milestone → Prop
  /-- The transfer has given up while it waited for a block. -/
  | silent : Fault size n []
  /-- The next block was too large. -/
  | oversized (payload : Bytes) : size < payload.length →
      Fault size n [.heard (.data (UInt16.ofNat (n + 1)) payload)]
  /-- The next block could not be stored. -/
  | unstored (payload : Bytes) (events : List Event) : payload.length ≤ size →
      Storage.Unstored payload (decide (payload.length < size)) events →
      Fault size n (.heard (.data (UInt16.ofNat (n + 1)) payload) :: events.map .stored)
  /-- The next block was stored, but its acknowledgement could not be sent. -/
  | unacknowledged (payload : Bytes) : payload.length ≤ size →
      Fault size n (.heard (.data (UInt16.ofNat (n + 1)) payload) ::
        (Storage.stores payload (decide (payload.length < size))).map .stored)

/-- The outline of a transfer that has failed. -/
inductive Broken (terms : Terms) (size : Nat) : List Milestone → Prop
  /-- There was nothing to write to. -/
  | unopened : Broken terms size []
  /-- The request could not be acknowledged. -/
  | unanswered : Broken terms size [.stored .aborted]
  /-- The transcript has broken off after some blocks. -/
  | broken (blocks : List Bytes) (fault : List Milestone) : (∀ b ∈ blocks, b.length = size) →
      Fault size blocks.length fault →
      Broken terms size (transcript terms size blocks ++ fault ++ [.stored .aborted])

variable {terms : Terms} {size : Nat}

theorem transcript_concat (blocks : List Bytes) (payload : Bytes) :
    transcript terms size (blocks ++ [payload]) =
      transcript terms size blocks ++ taking terms size (blocks.length + 1) payload := by
  simp [transcript, List.zipIdx_append, Nat.add_comm]

theorem broken_silent {blocks : List Bytes} (full : ∀ b ∈ blocks, b.length = size) :
    Broken terms size (transcript terms size blocks ++ [.stored .aborted]) := by
  have h : Broken terms size (transcript terms size blocks ++ [] ++ [.stored .aborted]) :=
    .broken blocks [] full .silent
  rwa [List.append_nil] at h

/-- A reply differs from the next one on the wire, also where the numbers wrap around. -/
theorem reply_ne_succ (n : Nat) : (reply terms n).encode ≠ (reply terms (n + 1)).encode := by
  cases n with
  | zero =>
      rw [reply]
      split
      · exact Packet.oack_ne_ack _ _
      · exact fun h => ofNat_ne_succ 0 (Packet.ack_inj h)
  | succ n => exact fun h => ofNat_ne_succ (n + 1) (Packet.ack_inj h)

/-- The outline while the block after the given ones is to come. -/
def toldReceiving (terms : Terms) (size : Nat) (blocks : List Bytes) : Telling where
  last := some (reply terms blocks.length).encode
  count := blocks.length + 1
  milestones := transcript terms size blocks

theorem toldReceiving_concat (blocks : List Bytes) (payload : Bytes) (k : Nat) :
    (List.replicate (k + 1) (reply terms (blocks.length + 1)).encode).foldl Telling.send
      (((toldReceiving terms size blocks).keep
        [.heard (.data (UInt16.ofNat (blocks.length + 1)) payload)]).keep
        ((Storage.stores payload (decide (payload.length < size))).map .stored)) =
    toldReceiving terms size (blocks ++ [payload]) := by
  rw [Telling.foldl_send_new]
  · simp [toldReceiving, Telling.keep, transcript_concat, taking]
  · intro h
    exact reply_ne_succ blocks.length (Option.some.inj h)

/-! ## What holds between two turns -/

/-- How the state of a transfer and the outline of its history belong together. -/
inductive Standing (size : Nat) (peer : Address) (history : List Occurrence) (v : View S) : Prop
  | fresh : Fresh size v → history = [] → Standing size peer history v
  | receiving (blocks : List Bytes) : Receiving size blocks.length v.self →
      (∀ b ∈ blocks, b.length = size) →
      telling peer expects history = toldReceiving v.self.terms size blocks →
      Standing size peer history v
  | failed : v.self.phase = .failed →
      Broken v.self.terms size (outline peer expects history) → Standing size peer history v
  | ended (blocks : List Bytes) (last : Bytes) : v.self.phase = .writeEnd →
      (∀ b ∈ blocks, b.length = size) → last.length < size →
      outline peer expects history = transcript v.self.terms size (blocks ++ [last]) →
      Standing size peer history v

variable {s s' : Scene S} {v v' : View S} {history : List Occurrence} {blocks : List Bytes}

section

variable {w : View S} {told : Telling} {f : Telling → Telling}

/-- A transfer that gives up stands as it should if its outline breaks off as it may. -/
theorem standing_of_givenUp (records : S.Records) (tells : v.Tells w f)
    (on : ∀ g, v.Tells w.givenUp g → telling v.self.peer expects history = g told)
    (hb : Broken w.self.terms size
      ((f told).milestones ++ if w.self.writer.isSome then [.stored .aborted] else [])) :
    v.self.peer = w.givenUp.self.peer ∧ Standing size v.self.peer history w.givenUp := by
  have tells := tells.trans (View.givenUp_tells records)
  obtain ⟨-, hterms, hphase⟩ := View.givenUp_self w
  refine ⟨tells.peer.symm, .failed hphase ?_⟩
  rw [outline, on _ tells, hterms]
  exact hb

/-- A transfer that goes on receiving or gives up stands as it should. -/
theorem Receiving.standing (records : S.Records) (h : Receiving size blocks.length w.self)
    (full : ∀ b ∈ blocks, b.length = size) (tells : v.Tells w f) (hends : w.Ends v')
    (on : ∀ g, v.Tells v' g → telling v.self.peer expects history = g told)
    (hf : f told = toldReceiving w.self.terms size blocks) :
    v.self.peer = v'.self.peer ∧ Standing size v.self.peer history v' := by
  rcases hends with rfl | rfl
  · exact ⟨tells.peer.symm, .receiving blocks h full ((on _ tells).trans hf)⟩
  · apply standing_of_givenUp records tells on
    obtain ⟨file, hfile⟩ := h.writer
    rw [hf, hfile]
    exact broken_silent full

end

theorem Fresh.begins (records : S.Records) (h : Fresh size s.view) :
    s.view.self.peer = (s.after begin).view.self.peer ∧
    Standing size s.view.self.peer (occurrences none (s.deedsOf begin)) (s.after begin).view := by
  have opened : ∀ terms writer, s.view.Tells (s.view.opened terms writer) id :=
    fun _ _ => (View.opened_talks (records.opening _ _ _ _)).tells
  have outcome := (begins_begin h.direction h.writer h.agreed).after
  have on : ∀ g, s.view.Tells (s.after begin).view g → telling s.view.self.peer expects
      (occurrences none (s.deedsOf begin)) = g {} := fun _ tells => tells.telling_begin
  generalize (s.after begin).view = v' at outcome on ⊢
  cases outcome with
  | refused hv =>
      subst hv
      apply standing_of_givenUp records (View.Talks.refl s.view).tells on
      rw [h.writer]
      exact .unopened
  | unopened terms _ hv =>
      subst hv
      exact standing_of_givenUp records (opened terms none) on .unopened
  | stuck terms writer hopen hv =>
      subst hv
      exact standing_of_givenUp records (opened terms (some writer)) on .unanswered
  | begins terms writer k w hopen said hrec hends =>
      have hrec : Receiving size ([] : List Bytes).length w.self := hrec
      apply Receiving.standing records hrec (by simp)
        ((opened terms (some writer)).trans said.tells) hends on
      rw [said.terms]
      exact Telling.foldl_send_new k (by simp)

theorem keep_tells (records : S.Records) (payload : Bytes) (isLast : Bool) (writer : S.Writer) :
    ∃ events, v.Tells (v.storing (S.keep payload isLast) writer)
        (fun told => told.keep (events.map .stored)) ∧
      ((S.keep payload isLast (v.store, writer)).result = .ok () →
        events = Storage.stores payload isLast) ∧
      (events = Storage.stores payload isLast ∨ Storage.Unstored payload isLast events) := by
  have hkeep := records.keep payload isLast (v.store, writer)
  cases hr : (S.keep payload isLast (v.store, writer)).result with
  | ok _ =>
      rw [hr] at hkeep
      refine ⟨_, View.storing_tells ?_, fun _ => hkeep, .inl hkeep⟩
      rw [hkeep]
      exact Storage.isStoring_stores
  | error f =>
      rw [hr] at hkeep
      exact ⟨_, View.storing_tells hkeep.isStoring, (fun h => nomatch h), .inr hkeep⟩

theorem tell_taken {payload : Bytes} {reception : Reception}
    (ht : Takes v blocks.length payload reception) :
    (toldReceiving v.self.terms size blocks).tell v.self.peer expects (.received reception) =
    (toldReceiving v.self.terms size blocks).keep
      [.heard (.data (UInt16.ofNat (blocks.length + 1)) payload)] :=
  Telling.tell_awaited ht (decide_eq_true rfl)

theorem tell_untaken {reception : Reception}
    (hno : ∀ payload, ¬ Takes v blocks.length payload reception) :
    (toldReceiving v.self.terms size blocks).tell v.self.peer expects (.received reception) =
    toldReceiving v.self.terms size blocks := by
  apply Telling.tell_ignored
  intro packet hp
  cases packet with
  | data block payload =>
      apply decide_eq_false
      rintro rfl
      exact hno payload hp
  | _ => rfl

theorem Receiving.resumes (records : S.Records) (h : Receiving size blocks.length s.view.self)
    (full : ∀ b ∈ blocks, b.length = size)
    (told : telling s.view.self.peer expects history = toldReceiving s.view.self.terms size blocks)
    (reception : Reception) :
    s.view.self.peer = (s.after (resume reception)).view.self.peer ∧
    Standing size s.view.self.peer
      (history ++ occurrences (some reception) (s.deedsOf (resume reception)))
      (s.after (resume reception)).view := by
  obtain ⟨file, hfile⟩ := h.writer
  have outcome := (outcome_resume h reception).after
  -- The block comes before what is done about it, so the outline goes on in this order.
  have on : ∀ g, s.view.Tells (s.after (resume reception)).view g →
      telling s.view.self.peer expects
        (history ++ occurrences (some reception) (s.deedsOf (resume reception))) =
      g ((toldReceiving s.view.self.terms size blocks).tell s.view.self.peer expects
        (.received reception)) := by
    intro g tells
    rw [tells.telling_resume, told]
  generalize (s.after (resume reception)).view = v' at outcome on ⊢
  cases outcome with
  | waits k w hno said hrec hends =>
      rw [tell_untaken hno] at on
      apply Receiving.standing records hrec full said.tells hends on
      rw [said.terms]
      exact Telling.foldl_send_repeated k rfl
  | refused payload ht hl hv =>
      subst hv
      rw [tell_taken ht] at on
      apply standing_of_givenUp records (View.Talks.refl s.view).tells on
      rw [hfile]
      exact .broken blocks _ full (.oversized payload hl)
  | stuck payload writer ht hl hw hv =>
      subst hv
      rw [tell_taken ht] at on
      obtain ⟨events, tells, -, hevents⟩ := keep_tells (v := s.view) records payload
        (decide (payload.length < size)) writer
      apply standing_of_givenUp records tells on
      -- Nothing more can be said than that the block was not stored, or was not acknowledged.
      have fault : Fault size blocks.length
          (.heard (.data (UInt16.ofNat (blocks.length + 1)) payload) :: events.map .stored) := by
        rcases hevents with rfl | hu
        · exact .unacknowledged payload hl
        · exact .unstored payload events hl hu
      have hb : Broken s.view.self.terms size _ := .broken blocks _ full fault
      simpa [toldReceiving, Telling.keep, View.storing] using hb
  | takes payload writer k w ht hl hw hkeep said hrec hends =>
      rw [tell_taken ht] at on
      obtain ⟨events, stored, hevents, -⟩ := keep_tells (v := s.view) records payload false writer
      obtain rfl := hevents hkeep
      have full' : ∀ b ∈ blocks ++ [payload], b.length = size :=
        List.forall_mem_append.2 ⟨full, List.forall_mem_singleton.2 hl⟩
      have hrec : Receiving size (blocks ++ [payload]).length w.self := by
        rw [List.length_append]
        exact hrec
      apply Receiving.standing records hrec full' (stored.trans said.tells) hends on
      have hc := @toldReceiving_concat s.view.self.terms size blocks payload k
      -- A full block is stored without finishing the file.
      rw [decide_eq_false (by omega)] at hc
      rw [said.terms]
      exact hc
  | ends payload writer ht hl hw hkeep said hphase =>
      rw [tell_taken ht] at on
      obtain ⟨events, stored, hevents, -⟩ := keep_tells (v := s.view) records payload true writer
      obtain rfl := hevents hkeep
      have tells := stored.trans said.tells
      refine ⟨tells.peer.symm, .ended blocks payload hphase full hl ?_⟩
      have hc := @toldReceiving_concat s.view.self.terms size blocks payload 0
      rw [decide_eq_true hl] at hc
      rw [outline, on _ tells, said.terms]
      exact congrArg Telling.milestones hc

/-! ## Every history -/

/-- The clock, the network, the storage and the log have nothing to do with it. -/
theorem Standing.congr {peer : Address} (hself : v'.self = v.self)
    (h : Standing size peer history v) : Standing size peer history v' := by
  obtain ⟨t, _, _, _, _⟩ := v'
  cases hself
  cases h with
  | fresh hf he => exact .fresh { hf with } he
  | receiving blocks hr full told => exact .receiving blocks hr full told
  | failed hp hb => exact .failed hp hb
  | ended blocks last hp full hl told => exact .ended blocks last hp full hl told

/-- However a history has gone, the transfer and the outline belong together. -/
theorem Fresh.stands {s₀ : Scene S} (records : S.Records) (fresh : Fresh size s₀.view)
    (h : History s₀ history s) : s.view.self.peer = s₀.view.self.peer ∧
      Standing size s₀.view.self.peer history s.view := by
  -- Along the history: `Standing` says which turns a transfer can take, and what they lead to.
  induction h with
  | start => exact ⟨rfl, .fresh fresh rfl⟩
  | @turn history s s' reception events h turn ih =>
      obtain ⟨hpeer, standing⟩ := ih
      rw [← hpeer] at standing ⊢
      cases turn with
      | begins hi =>
          have hi : s.view.self.phase = .initial := hi
          cases standing with
          | fresh hf he =>
              obtain ⟨hp, hs⟩ := hf.begins records
              rw [he]
              exact ⟨hp.symm, hs⟩
          | receiving blocks hr _ _ => cases hr.phase.symm.trans hi
          | failed hp _ => cases hp.symm.trans hi
          | ended blocks last hp _ _ _ => cases hp.symm.trans hi
      | resumes reception hw =>
          have hw : s.view.self.isWaiting = true := hw
          cases standing with
          | fresh hf _ => exact absurd hw (not_isWaiting hf.phase (.inl rfl))
          | receiving blocks hr full told =>
              obtain ⟨hp, hs⟩ := hr.resumes records full told reception
              exact ⟨hp.symm, hs⟩
          | failed hp _ => exact absurd hw (not_isWaiting hp (.inr rfl))
          | ended blocks last hp _ _ _ => exact absurd hw (not_isWaiting hp (.inr rfl))
      | meanwhile world _ =>
          rw [append_occurrences_none]
          have hself : (Scene.view { s with world }).self = s.view.self := rfl
          exact ⟨rfl, standing.congr hself⟩

/-- **A transfer that receives stores what it is sent.** Whatever it takes in, its outline is the
transcript of some blocks, all of them full but the last. As long as the transfer waits, it waits for
the block after these. It is complete when one of them is short, and if it fails, the transcript
breaks off. -/
theorem stores_blocks {request : Request} {peer : Address} {socket : Socket} {config : Config}
    {heedsStop : Bool} {world : World S} {size : Nat} (records : S.Records)
    (agreed : (agreedBlockSize request.options config).toNat = size)
    {history : List Occurrence} {s : Scene S}
    (h : History ⟨.new S .write request peer socket config heedsStop, world⟩ history s) :
    let told := outline peer expects history
    (s.self.phase = .initial → told = []) ∧
    (s.self.isWaiting = true → ∃ blocks, (∀ b ∈ blocks, b.length = size) ∧
      told = transcript s.self.terms size blocks ∧
      s.self.block = UInt16.ofNat (blocks.length + 1)) ∧
    (s.self.phase = .writeEnd → ∃ blocks last, (∀ b ∈ blocks, b.length = size) ∧
      last.length < size ∧ told = transcript s.self.terms size (blocks ++ [last])) ∧
    (s.self.phase = .failed → Broken s.self.terms size told) ∧
    s.self.phase ≠ .readEnd := by
  have fresh : Fresh size
      (⟨.new S .write request peer socket config heedsStop, world⟩ : Scene S).view :=
    ⟨rfl, rfl, rfl, agreed⟩
  obtain ⟨-, standing⟩ := fresh.stands records h
  have standing : Standing size peer history s.view := standing
  cases standing with
  | fresh hf he =>
      have hp : s.self.phase = .initial := hf.phase
      rw [he]
      simp [isWaiting, hp, outline, telling]
  | receiving blocks hr full told =>
      have hp : s.self.phase = .waitingData := hr.phase
      have told := congrArg Telling.milestones told
      simp only [hp, isWaiting]
      exact ⟨by simp, fun _ => ⟨blocks, full, told, hr.block⟩, by simp, by simp, by simp⟩
  | failed hp hb =>
      have hp : s.self.phase = .failed := hp
      simp only [isWaiting, isOver, hp]
      exact ⟨by simp, by simp [Phase.isOver], by simp, fun _ => hb, by simp⟩
  | ended blocks last hp full hl told =>
      have hp : s.self.phase = .writeEnd := hp
      simp only [isWaiting, isOver, hp]
      exact ⟨by simp, by simp [Phase.isOver], fun _ => ⟨blocks, last, full, hl, told⟩, by simp,
        by simp⟩

def tenBytes : Scene (Scripted.storage {}) where
  self := .new _ .write ⟨ascii "digits", .octet, { blockSize := some 8 }⟩ ⟨⟨10, 0, 0, 1⟩, 5000⟩
    ⟨⟨⟨10, 0, 0, 2⟩, 40000⟩⟩ {} true
  world := { store := () }

/-- Ten bytes are stored in two blocks, although one of them comes twice. -/
theorem stores_blocks_tenBytes : ∃ history s, History tenBytes history s ∧
    s.self.phase = .writeEnd ∧ ∃ blocks last, (∀ b ∈ blocks, b.length = 8) ∧ last.length < 8 ∧
      outline tenBytes.self.peer expects history = transcript s.self.terms 8 (blocks ++ [last]) := by
  let block : UInt16 → String → Reception := fun i payload =>
    .datagram tenBytes.self.peer (Packet.data i (ascii payload)).encode
  have h₁ : History tenBytes _ _ := .turn .start (.begins rfl)
  have h₂ := h₁.turn (.resumes (block 1 "01234567") (by decide +kernel))
  have h₃ := h₂.turn (.resumes (block 1 "01234567") (by decide +kernel))
  have h₄ := h₃.turn (.resumes (block 2 "89") (by decide +kernel))
  refine ⟨_, _, h₄, by decide +kernel, ?_⟩
  exact (stores_blocks (Scripted.records _ rfl) rfl h₄).2.2.1 (by decide +kernel)

end Write

end Transfer

end Tftp
