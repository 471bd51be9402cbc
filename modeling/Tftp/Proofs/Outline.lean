import Tftp.Proofs.Turn

/-!
# Histories and their outlines

A `History` is the life of a transfer from some scene on: any number of turns, with a record of
what came in and what was done. What came in may be anything in any order, so a history is full of
repetitions, strangers and packets that come too late.

An outline leaves those out. It keeps a datagram to the peer only if it differs from the one before
it, it keeps a packet of the peer only if it is the one that the transfer waits for, which `counts`
decides from the number of datagrams kept so far, and it keeps every call that stores something.

    history  ──tell──▶  Telling  ──milestones──▶  outline

The outline is a function of what passed on the wire and of the calls alone; it knows nothing of
the state of the transfer.
-/

namespace Tftp.Transfer

variable {S : Storage}

/-! ## Histories -/

/-- What a transfer takes in and what it does. -/
inductive Occurrence
  | received (reception : Reception)
  | did (event : Event)

def occurrences (reception : Option Reception) (events : List Event) : List Occurrence :=
  reception.toList.map .received ++ events.map .did

theorem append_occurrences_none (history : List Occurrence) :
    history ++ occurrences none [] = history :=
  List.append_nil history

/-- The history of a transfer from a scene to a later one: any number of turns. -/
inductive History (start : Scene S) : List Occurrence → Scene S → Prop
  | start : History start [] start
  | turn {history : List Occurrence} {s s' : Scene S} {reception : Option Reception}
      {events : List Event} : History start history s → Turn s reception events s' →
      History start (history ++ occurrences reception events) s'

/-! ## Outlines -/

/-- What an outline keeps. -/
inductive Milestone
  /-- A datagram went to the peer that differs from the one before it. -/
  | sent (bytes : Bytes)
  /-- The peer sent the packet that was waited for. -/
  | heard (packet : Packet)
  /-- Something was stored, or given up. -/
  | stored (event : Event)
  deriving DecidableEq

/-- How far an outline has been told. -/
structure Telling where
  /-- The datagram that went to the peer last. -/
  last : Option Bytes := none
  count : Nat := 0
  milestones : List Milestone := []

namespace Telling

def send (told : Telling) (bytes : Bytes) : Telling :=
  if told.last = some bytes then told
  else ⟨some bytes, told.count + 1, told.milestones ++ [.sent bytes]⟩

def keep (told : Telling) (milestones : List Milestone) : Telling :=
  { told with milestones := told.milestones ++ milestones }

def tell (peer : Address) (counts : Nat → Packet → Bool) (told : Telling) : Occurrence → Telling
  | .received reception =>
    match reception.packetFrom peer with
    | some packet => if counts told.count packet then told.keep [.heard packet] else told
    | none => told
  | .did (.sent _ receiver bytes _) => if receiver = peer then told.send bytes else told
  | .did event => if event.isStoring then told.keep [.stored event] else told

end Telling

def telling (peer : Address) (counts : Nat → Packet → Bool) (history : List Occurrence) : Telling :=
  history.foldl (Telling.tell peer counts) {}

def outline (peer : Address) (counts : Nat → Packet → Bool) (history : List Occurrence) :
    List Milestone :=
  (telling peer counts history).milestones

/-- The datagrams to a peer among some events. -/
def sentTo (peer : Address) (events : List Event) : List Bytes :=
  events.filterMap fun
    | .sent _ receiver bytes _ => if receiver = peer then some bytes else none
    | _ => none

@[simp] theorem sentTo_nil (peer : Address) : sentTo peer [] = [] := rfl

@[simp] theorem sentTo_append (peer : Address) (a b : List Event) :
    sentTo peer (a ++ b) = sentTo peer a ++ sentTo peer b :=
  List.filterMap_append

/-! ## Talking to the peer -/

def Plain (events : List Event) : Prop := ∀ e ∈ events, e.isPlain = true

theorem Plain.append {a b : List Event} (ha : Plain a) (hb : Plain b) : Plain (a ++ b) := by
  intro e he
  rcases List.mem_append.mp he with h | h
  · exact ha e h
  · exact hb e h

theorem Plain.unlogged {events : List Event} (h : Plain events) :
    Plain (Event.unlogged events) :=
  fun e he => h e (Event.mem_unlogged he)

namespace View

/-- Between two views nothing is stored, and exactly the given datagrams go to the peer. -/
structure Talks (v v' : View S) (sent : List Bytes) : Prop where
  peer : v'.self.peer = v.self.peer
  deeds : ∃ events, v'.deeds = v.deeds ++ events ∧ (∀ e ∈ events, e.isStoring = false) ∧
    sentTo v.self.peer events = sent

theorem Talks.refl (v : View S) : v.Talks v [] := ⟨rfl, [], by simp, by simp, rfl⟩

theorem Talks.trans {u v w : View S} {a b : List Bytes} (h : u.Talks v a) (h' : v.Talks w b) :
    u.Talks w (a ++ b) := by
  obtain ⟨hp, ea, ha, qa, rfl⟩ := h
  obtain ⟨hp', eb, hb, qb, rfl⟩ := h'
  refine ⟨hp'.trans hp, ea ++ eb, by rw [hb, ha, List.append_assoc], ?_, ?_⟩
  · intro e he
    rcases List.mem_append.mp he with h | h
    · exact qa e h
    · exact qb e h
  · rw [sentTo_append, hp]

/-- What the transfer notes for itself is not talk. -/
theorem Talks.changing {v v' : View S} {sent : List Bytes} (h : v.Talks v' sent)
    (f : Transfer S → Transfer S) (hf : (f v'.self).peer = v'.self.peer) :
    v.Talks (v'.changing f) sent :=
  ⟨hf.trans h.peer, h.deeds⟩

theorem talks_sending (v : View S) (packet : Packet) :
    v.Talks (v.doing [v.sending packet]) [packet.encode] :=
  ⟨rfl, [v.sending packet], rfl, by simp [sending, Event.isStoring], by simp [sentTo, sending]⟩

/-- What a storage may report at any time says nothing to the peer. -/
theorem plain_talks {v : View S} (store : S.State) {events : List Event} (hp : Plain events) :
    v.Talks { v with store, deeds := v.deeds ++ events } [] := by
  refine ⟨rfl, events, rfl, ?_, ?_⟩
  · intro e he
    have := hp e he
    simp_all [Event.isPlain]
  · rw [sentTo, List.filterMap_eq_nil_iff]
    intro e he
    have := hp e he
    cases e <;> simp_all [Event.isPlain, Event.isSent]

theorem talks_strangers {v : View S} {events : List Event}
    (h : ∀ e ∈ events, ∃ a b c t, e = .sent a b c t ∧ b ≠ v.self.peer) :
    v.Talks (v.doing events) [] := by
  refine ⟨rfl, events, rfl, ?_, ?_⟩
  · intro e he
    obtain ⟨a, b, c, t, rfl, -⟩ := h e he
    rfl
  · rw [sentTo, List.filterMap_eq_nil_iff]
    intro e he
    obtain ⟨a, b, c, t, rfl, hb⟩ := h e he
    exact if_neg hb

theorem Repeats.talks {v v' : View S} {packet : Packet} (h : v.Repeats v')
    (hl : v.self.lastPacket = some packet) : ∃ k, v.Talks v' (List.replicate k packet.encode) := by
  obtain ⟨k, r, d, rfl⟩ := h
  refine ⟨k, rfl, (List.replicate k v.repetition).flatten, rfl, ?_, ?_⟩
  · intro e he
    obtain ⟨l, hl', he⟩ := List.mem_flatten.mp he
    rw [List.eq_of_mem_replicate hl', repetition, hl] at he
    obtain rfl := List.mem_singleton.mp he
    rfl
  · rw [repetition, hl]
    induction k with
    | zero => rfl
    | succ k ih =>
        rw [List.replicate_succ, List.flatten_cons, sentTo_append, ih, List.replicate_succ]
        simp [sentTo, sending]

theorem Repeats.self {v v' : View S} (h : v.Repeats v') :
    ∃ (retries : Nat) (deadline : Int), v'.self = { v.self with retries, deadline } := by
  obtain ⟨k, r, d, rfl⟩ := h
  exact ⟨r, d, rfl⟩

theorem Repeats.store {v v' : View S} (h : v.Repeats v') : v'.store = v.store := by
  obtain ⟨k, r, d, rfl⟩ := h
  rfl

end View

namespace View

/-- Between two views exactly the given datagrams go to the peer, whatever else is done. -/
structure Sends (v v' : View S) (sent : List Bytes) : Prop where
  peer : v'.self.peer = v.self.peer
  deeds : ∃ events, v'.deeds = v.deeds ++ events ∧ sentTo v.self.peer events = sent

variable {v v' w : View S}

theorem Talks.sends {sent : List Bytes} (h : v.Talks v' sent) : v.Sends v' sent := by
  obtain ⟨hp, events, hd, -, hs⟩ := h
  exact ⟨hp, events, hd, hs⟩

theorem Sends.trans {a b : List Bytes} (h : v.Sends v' a) (h' : v'.Sends w b) :
    v.Sends w (a ++ b) := by
  obtain ⟨hp, ea, ha, rfl⟩ := h
  obtain ⟨hp', eb, hb, rfl⟩ := h'
  exact ⟨hp'.trans hp, ea ++ eb, by rw [hb, ha, List.append_assoc], by rw [sentTo_append, hp]⟩

end View

theorem View.Sends.sentTo_deedsOf {s : Scene S} {m : Reaction S Unit} {sent : List Bytes}
    (h : s.view.Sends (s.after m).view sent) : sentTo s.view.self.peer (s.deedsOf m) = sent := by
  obtain ⟨events, hd, hs⟩ := h.deeds
  rw [Scene.deedsOf_eq hd, hs]

/-! ## How an outline goes on -/

namespace Telling

variable {peer : Address} {counts : Nat → Packet → Bool} {told : Telling}

/-- Where nothing is stored, only the datagrams to the peer are told. -/
theorem foldl_did {events : List Event} (quiet : ∀ e ∈ events, e.isStoring = false) :
    (events.map .did).foldl (tell peer counts) told = (sentTo peer events).foldl send told := by
  induction events generalizing told with
  | nil => rfl
  | cons e events ih =>
      have he := quiet e (by simp)
      have ih := fun told => @ih told fun e' h => quiet e' (by simp [h])
      rw [List.map_cons, List.foldl_cons, ih]
      cases e with
      | sent a receiver bytes t =>
          by_cases hr : receiver = peer <;> simp [tell, sentTo, hr]
      | _ => simp_all [tell, sentTo]

theorem foldl_send_repeated {bytes : Bytes} (k : Nat) (h : told.last = some bytes) :
    (List.replicate k bytes).foldl send told = told := by
  induction k with
  | zero => rfl
  | succ k ih => rw [List.replicate_succ, List.foldl_cons, send, if_pos h, ih]

/-- A datagram that is new is told once, however often it is sent. -/
theorem foldl_send_new {bytes : Bytes} (k : Nat) (h : told.last ≠ some bytes) :
    (List.replicate (k + 1) bytes).foldl send told =
      ⟨some bytes, told.count + 1, told.milestones ++ [.sent bytes]⟩ := by
  rw [List.replicate_succ, List.foldl_cons, send, if_neg h, foldl_send_repeated k rfl]

theorem tell_awaited {reception : Reception} {packet : Packet}
    (h : reception.packetFrom peer = some packet) (hc : counts told.count packet = true) :
    told.tell peer counts (.received reception) = told.keep [.heard packet] := by
  simp only [tell, h, hc, if_true]

theorem tell_ignored {reception : Reception}
    (h : ∀ packet, reception.packetFrom peer = some packet → counts told.count packet = false) :
    told.tell peer counts (.received reception) = told := by
  rw [tell]
  split
  next packet hp => rw [h packet hp, if_neg Bool.false_ne_true]
  next => rfl

theorem foldl_did_storing {events : List Event} (h : ∀ e ∈ events, e.isStoring = true) :
    (events.map .did).foldl (tell peer counts) told = told.keep (events.map .stored) := by
  induction events generalizing told with
  | nil => simp [keep]
  | cons e events ih =>
      have he := h e (by simp)
      rw [List.map_cons, List.foldl_cons, ih fun e' h' => h e' (by simp [h'])]
      cases e <;> simp_all [tell, keep, Event.isStoring]

end Telling

/-! ## What a reaction adds to an outline -/

namespace View

/-- What is done between two views continues an outline in the given way. -/
structure Tells (v v' : View S) (continues : Telling → Telling) : Prop where
  peer : v'.self.peer = v.self.peer
  deeds : ∃ events, v'.deeds = v.deeds ++ events ∧ ∀ counts told,
    (events.map .did).foldl (Telling.tell v.self.peer counts) told = continues told

variable {v v' w : View S}

theorem Tells.trans {f g : Telling → Telling} (h : v.Tells v' f) (h' : v'.Tells w g) :
    v.Tells w (g ∘ f) := by
  obtain ⟨hp, events, hd, hf⟩ := h
  obtain ⟨hp', events', hd', hg⟩ := h'
  refine ⟨hp'.trans hp, events ++ events', by rw [hd', hd, List.append_assoc], ?_⟩
  intro counts told
  rw [hp] at hg
  rw [List.map_append, List.foldl_append, hf, hg]
  rfl

/-- Of talk only what goes to the peer is told. -/
theorem Talks.tells {sent : List Bytes} (h : v.Talks v' sent) :
    v.Tells v' (sent.foldl Telling.send) := by
  obtain ⟨hp, events, hd, hq, hs⟩ := h
  refine ⟨hp, events, hd, fun counts told => ?_⟩
  rw [Telling.foldl_did hq, hs]

end View

theorem telling_append (peer : Address) (counts : Nat → Packet → Bool) (a b : List Occurrence) :
    telling peer counts (a ++ b) = b.foldl (Telling.tell peer counts) (telling peer counts a) :=
  List.foldl_append

variable {s : Scene S} {f : Telling → Telling} {counts : Nat → Packet → Bool}

theorem View.Tells.foldl_deedsOf {m : Reaction S Unit} (h : s.view.Tells (s.after m).view f)
    (told : Telling) :
    ((s.deedsOf m).map .did).foldl (Telling.tell s.view.self.peer counts) told = f told := by
  obtain ⟨events, hd, hf⟩ := h.deeds
  rw [Scene.deedsOf_eq hd, hf]

theorem View.Tells.telling_begin (h : s.view.Tells (s.after begin).view f) :
    telling s.view.self.peer counts (occurrences none (s.deedsOf begin)) = f {} :=
  h.foldl_deedsOf _

/-- What comes in is told first, and then what is done about it. -/
theorem View.Tells.telling_resume {reception : Reception} {history : List Occurrence}
    (h : s.view.Tells (s.after (resume reception)).view f) :
    telling s.view.self.peer counts
      (history ++ occurrences (some reception) (s.deedsOf (resume reception))) =
    f ((telling s.view.self.peer counts history).tell s.view.self.peer counts
      (.received reception)) := by
  rw [telling_append, occurrences, List.foldl_append, h.foldl_deedsOf]
  rfl

end Tftp.Transfer
