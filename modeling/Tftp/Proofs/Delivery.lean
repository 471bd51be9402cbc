import Tftp.Proofs.Sending
import Tftp.Proofs.Wire

/-!
# A transfer that sends delivers the file

Whatever a transfer that sends takes in, its outline is the beginning of one fixed list, the plan:
each packet, and then its acknowledgement. The transfer is complete when the outline is all of the
plan, and not before.

    sent 1, heard ACK 1, sent 2, heard ACK 2, …, sent n, heard ACK n

The proof follows the history turn by turn. `Standing` is what holds between two turns.
-/

namespace Tftp.Transfer.Read

variable {S : Storage}

/-! ## The plan -/

/-- The acknowledgement that is waited for when so many packets are out. -/
def awaits (terms : Terms) (count : Nat) (packet : Packet) : Bool :=
  packet = .ack (UInt16.ofNat (first terms + count - 1))

def exchange (terms : Terms) (size : Nat) (content : Bytes) (i : Nat) : List Milestone :=
  [.sent (packet terms size content i).encode, .heard (.ack (UInt16.ofNat i))]

def exchanges (terms : Terms) (size : Nat) (content : Bytes) (n : Nat) : List Milestone :=
  (List.range n).flatMap fun j => exchange terms size content (first terms + j)

/-- How many packets there are, the OACK included. -/
def packetCount (terms : Terms) (size : Nat) (content : Bytes) : Nat :=
  blockCount size content + 1 - first terms

def plan (terms : Terms) (size : Nat) (content : Bytes) : List Milestone :=
  exchanges terms size content (packetCount terms size content)

variable {terms : Terms} {size : Nat} {content : Bytes}

theorem exchanges_succ (n : Nat) : exchanges terms size content (n + 1) =
    exchanges terms size content n ++ exchange terms size content (first terms + n) := by
  rw [exchanges, List.range_succ, List.flatMap_append, List.flatMap_singleton]
  rfl

theorem length_exchanges (n : Nat) : (exchanges terms size content n).length = 2 * n := by
  induction n with
  | zero => rfl
  | succ n ih =>
      rw [exchanges_succ, List.length_append, ih]
      rfl

theorem exchanges_isPrefix {m n : Nat} (h : m ≤ n) :
    exchanges terms size content m <+: exchanges terms size content n := by
  induction h with
  | refl => exact List.prefix_refl _
  | @step n _ ih =>
      rw [exchanges_succ]
      exact ih.trans (List.prefix_append ..)

/-- A part of the plan that is not all of it. -/
structure Unfinished (terms : Terms) (size : Nat) (content : Bytes) (told : List Milestone) :
    Prop where
  isPrefix : told <+: plan terms size content
  ne : told ≠ plan terms size content

theorem Unfinished.of_prefix {told : List Milestone} (h : told <+: plan terms size content)
    (hl : told.length < (plan terms size content).length) : Unfinished terms size content told := by
  refine ⟨h, ?_⟩
  rintro rfl
  exact Nat.lt_irrefl _ hl

theorem unfinished_exchanges {n : Nat} (h : n < packetCount terms size content) :
    Unfinished terms size content (exchanges terms size content n) := by
  apply Unfinished.of_prefix (exchanges_isPrefix (Nat.le_of_lt h))
  rw [plan, length_exchanges, length_exchanges]
  omega

theorem unfinished_sent {n i : Nat} (h : n < packetCount terms size content)
    (hi : i = first terms + n) : Unfinished terms size content
      (exchanges terms size content n ++ [.sent (packet terms size content i).encode]) := by
  subst hi
  apply Unfinished.of_prefix
  · refine List.IsPrefix.trans ?_ (exchanges_isPrefix (Nat.succ_le_of_lt h))
    rw [exchanges_succ, List.prefix_append_right_inj]
    exact ⟨[.heard (.ack (UInt16.ofNat (first terms + n)))], rfl⟩
  · rw [plan, length_exchanges, List.length_append, length_exchanges, List.length_singleton]
    omega

/-- A packet differs from the next one on the wire, also where the numbers wrap around. -/
theorem packet_ne_succ (i : Nat) : (packet terms size content i).encode ≠
    (packet terms size content (i + 1)).encode := by
  cases i with
  | zero => exact Packet.oack_ne_data _ _ _
  | succ i =>
      intro h
      exact ofNat_ne_succ (i + 1) (Packet.data_inj h).1

/-! ## What holds between two turns -/

/-- The outline while packet `i` is out. -/
def toldSending (terms : Terms) (size : Nat) (content : Bytes) (i : Nat) : Telling where
  last := some (packet terms size content i).encode
  count := i + 1 - first terms
  milestones := exchanges terms size content (i - first terms) ++
    [.sent (packet terms size content i).encode]

/-- How the state of a transfer and the outline of its history belong together. -/
inductive Standing (source : S.Source) (size : Nat) (content : Bytes) (peer : Address)
    (history : List Occurrence) (v : View S) : Prop
  | fresh : Fresh source size content v → history = [] →
      Standing source size content peer history v
  | sending (i : Nat) : Sending source size content i v.self v.store →
      telling peer (awaits v.self.terms) history = toldSending v.self.terms size content i →
      Standing source size content peer history v
  | failed : Failed v.self →
      Unfinished v.self.terms size content (outline peer (awaits v.self.terms) history) →
      Standing source size content peer history v
  | ended : v.self.phase = .readEnd →
      outline peer (awaits v.self.terms) history = plan v.self.terms size content →
      Standing source size content peer history v

variable {source : S.Source} {history : List Occurrence} {s s' : Scene S} {i : Nat}

theorem awaits_iff (hi : first terms ≤ i) (packet : Packet) :
    awaits terms (i + 1 - first terms) packet = true ↔ packet = .ack (UInt16.ofNat i) := by
  rw [awaits, decide_eq_true_iff, show first terms + (i + 1 - first terms) - 1 = i by omega]

theorem milestones_keep (hi : first terms ≤ i) :
    ((toldSending terms size content i).keep [.heard (.ack (UInt16.ofNat i))]).milestones =
      exchanges terms size content (i + 1 - first terms) := by
  rw [show i + 1 - first terms = i - first terms + 1 by omega, exchanges_succ,
    show first terms + (i - first terms) = i by omega]
  exact List.append_assoc ..

theorem toldSending_succ (hi : first terms ≤ i) (k : Nat) :
    (List.replicate (k + 1) (packet terms size content (i + 1)).encode).foldl Telling.send
      ((toldSending terms size content i).keep [.heard (.ack (UInt16.ofNat i))]) =
    toldSending terms size content (i + 1) := by
  rw [Telling.foldl_send_new, milestones_keep hi]
  · show Telling.mk _ (i + 1 - first terms + 1) _ = Telling.mk _ (i + 1 + 1 - first terms) _
    rw [show i + 1 - first terms + 1 = i + 1 + 1 - first terms by omega]
  · intro h
    exact packet_ne_succ i (Option.some.inj h)

theorem first_lt_packetCount : 0 < packetCount terms size content := by
  have := first_le_one terms
  have := @blockCount_pos size content
  rw [packetCount]
  omega

theorem foldl_send_first (k : Nat) :
    (List.replicate (k + 1) (packet terms size content (first terms)).encode).foldl Telling.send {} =
      toldSending terms size content (first terms) := by
  rw [Telling.foldl_send_new _ (by simp), toldSending, Nat.sub_self,
    show first terms + 1 - first terms = 1 by omega]
  rfl

theorem unfinished_sending (low : first terms ≤ i) (high : i ≤ blockCount size content) :
    Unfinished terms size content (toldSending terms size content i).milestones := by
  apply unfinished_sent
  · rw [packetCount]
    omega
  · omega

/-- With a packet out a transfer stands as it should, and so does one that fails then. -/
theorem Standing.of_sending {peer : Address} {v : View S} (low : first v.self.terms ≤ i)
    (high : i ≤ blockCount size content)
    (h : Sending source size content i v.self v.store ∨ Failed v.self)
    (told : telling peer (awaits v.self.terms) history = toldSending v.self.terms size content i) :
    Standing source size content peer history v := by
  rcases h with hs | hf
  · exact .sending i hs told
  · apply Standing.failed hf
    rw [outline, told]
    exact unfinished_sending low high

theorem Fresh.begins (h : Fresh source size content s.view) :
    s.view.self.peer = (s.after begin).view.self.peer ∧
    Standing source size content s.view.self.peer (occurrences none (s.deedsOf begin))
      (s.after begin).view := by
  obtain ⟨k, hb⟩ := (begins_begin h.direction h.writer h.block h.agreed h.pos h.offers).after
  refine ⟨hb.talks.peer.symm, ?_⟩
  -- The terms have been settled in this turn, and `awaits` depends on them.
  have told : telling s.view.self.peer (awaits (s.after begin).view.self.terms)
      (occurrences none (s.deedsOf begin)) = _ := hb.talks.tells.telling_begin
  cases k with
  | zero =>
      apply Standing.failed (hb.ends.resolve_left fun h => Nat.lt_irrefl 0 h.1)
      rw [outline, told]
      exact unfinished_exchanges first_lt_packetCount
  | succ k =>
      rw [foldl_send_first] at told
      exact .of_sending (Nat.le_refl _) (Nat.le_trans (first_le_one _) blockCount_pos)
        (hb.ends.imp_left And.right) told

theorem tell_acknowledged {v : View S} {reception : Reception} (low : first v.self.terms ≤ i)
    (h : Acknowledges v i reception) :
    (toldSending v.self.terms size content i).tell v.self.peer (awaits v.self.terms)
      (.received reception) =
    (toldSending v.self.terms size content i).keep [.heard (.ack (UInt16.ofNat i))] :=
  Telling.tell_awaited h ((awaits_iff low _).mpr rfl)

theorem tell_unacknowledged {v : View S} {reception : Reception} (low : first v.self.terms ≤ i)
    (h : ¬ Acknowledges v i reception) :
    (toldSending v.self.terms size content i).tell v.self.peer (awaits v.self.terms)
      (.received reception) =
    toldSending v.self.terms size content i := by
  apply Telling.tell_ignored
  intro packet hp
  rw [Bool.eq_false_iff]
  intro hc
  rw [(awaits_iff low packet).mp hc] at hp
  exact h hp

theorem Sending.resumes (h : Sending source size content i s.view.self s.view.store)
    (told : telling s.view.self.peer (awaits s.view.self.terms) history =
      toldSending s.view.self.terms size content i) (reception : Reception) :
    s.view.self.peer = (s.after (resume reception)).view.self.peer ∧
    Standing source size content s.view.self.peer
      (history ++ occurrences (some reception) (s.deedsOf (resume reception)))
      (s.after (resume reception)).view := by
  obtain ⟨hterms, outcome⟩ := (outcome_resume h reception).after
  have hlow := h.low
  have hlow' : first (s.after (resume reception)).view.self.terms ≤ i := hterms ▸ hlow
  -- The acknowledgement comes before what is done about it, so the outline goes on in this order.
  have on : ∀ sent, s.view.Talks (s.after (resume reception)).view sent →
      telling s.view.self.peer (awaits s.view.self.terms)
        (history ++ occurrences (some reception) (s.deedsOf (resume reception))) =
      sent.foldl Telling.send ((toldSending s.view.self.terms size content i).tell s.view.self.peer
        (awaits s.view.self.terms) (.received reception)) := by
    intro sent ht
    rw [ht.tells.telling_resume, told]
  generalize (s.after (resume reception)).view = v' at outcome hterms hlow' on ⊢
  cases outcome with
  | waits k ha ht hor =>
      have on := on _ ht
      rw [tell_unacknowledged hlow ha, Telling.foldl_send_repeated k rfl, ← hterms] at on
      exact ⟨ht.peer.symm, .of_sending hlow' h.high hor on⟩
  | moves k ha hi ht hor =>
      have on := on _ ht
      rw [tell_acknowledged hlow ha, toldSending_succ hlow, ← hterms] at on
      exact ⟨ht.peer.symm, .of_sending (Nat.le_succ_of_le hlow') hi hor on⟩
  | stuck ha hi ht hf =>
      have on := on _ ht
      rw [tell_acknowledged hlow ha, List.foldl_nil, ← hterms] at on
      refine ⟨ht.peer.symm, .failed hf ?_⟩
      rw [outline, on, milestones_keep hlow']
      apply unfinished_exchanges
      rw [packetCount]
      omega
  | ends ha hi ht hp =>
      have on := on _ ht
      rw [tell_acknowledged hlow ha, List.foldl_nil, ← hterms] at on
      refine ⟨ht.peer.symm, .ended hp ?_⟩
      rw [outline, on, milestones_keep hlow', hi]
      rfl

/-! ## Every history -/

/-- The clock, the network and the log have nothing to do with it. -/
theorem Standing.congr {peer : Address} {v v' : View S} (hself : v'.self = v.self)
    (hstore : v'.store = v.store) (h : Standing source size content peer history v) :
    Standing source size content peer history v' := by
  obtain ⟨t, store, _, _, _⟩ := v'
  cases hself
  cases hstore
  cases h with
  | fresh hf he => exact .fresh { hf with } he
  | sending i hs told => exact .sending i hs told
  | failed hf hu => exact .failed hf hu
  | ended hp told => exact .ended hp told

/-- However a history has gone, the transfer and the outline belong together. -/
theorem Fresh.stands {s₀ : Scene S} (fresh : Fresh source size content s₀.view)
    (h : History s₀ history s) : s.view.self.peer = s₀.view.self.peer ∧
      Standing source size content s₀.view.self.peer history s.view := by
  -- Along the history: `Standing` says which turns a transfer can take, and what they lead to.
  induction h with
  | start => exact ⟨rfl, .fresh fresh rfl⟩
  | @turn history s s' reception events h turn ih =>
      obtain ⟨hpeer, standing⟩ := ih
      rw [← hpeer] at standing ⊢
      cases turn with
      | begins hi =>
          have hi : s.view.self.phase = .initial := hi
          cases standing with
          | fresh hf he =>
              obtain ⟨hp, hs⟩ := hf.begins
              rw [he]
              exact ⟨hp.symm, hs⟩
          | sending i hs _ => exact absurd (hs.phase.symm.trans hi) (phaseAt_ne_initial _ _ _)
          | failed hf _ => cases hf.phase.symm.trans hi
          | ended hp _ => cases hp.symm.trans hi
      | resumes reception hw =>
          have hw : s.view.self.isWaiting = true := hw
          cases standing with
          | fresh hf _ => exact absurd hw (not_isWaiting hf.phase (.inl rfl))
          | sending i hs told =>
              obtain ⟨hp, hs⟩ := hs.resumes told reception
              exact ⟨hp.symm, hs⟩
          | failed hf _ => exact absurd hw (not_isWaiting hf.phase (.inr rfl))
          | ended hp _ => exact absurd hw (not_isWaiting hp (.inr rfl))
      | meanwhile world hstore =>
          rw [append_occurrences_none]
          have hself : (Scene.view { s with world }).self = s.view.self := rfl
          exact ⟨rfl, standing.congr hself hstore⟩

theorem Standing.unfinished_or_complete {peer : Address} {v : View S}
    (h : Standing source size content peer history v) :
    (v.self.phase ≠ .readEnd ∧
      Unfinished v.self.terms size content (outline peer (awaits v.self.terms) history)) ∨
    (v.self.phase = .readEnd ∧
      outline peer (awaits v.self.terms) history = plan v.self.terms size content) := by
  cases h with
  | fresh hf he =>
      left
      rw [hf.phase, he]
      exact ⟨by simp, unfinished_exchanges first_lt_packetCount⟩
  | sending i hs told =>
      left
      rw [outline, told]
      refine ⟨?_, unfinished_sending hs.low hs.high⟩
      intro hp
      have isOver := phaseAt_isOver size content i
      rw [← hs.phase, hp] at isOver
      cases isOver
  | failed hf hu =>
      left
      rw [hf.phase]
      exact ⟨by simp, hu⟩
  | ended hp told => exact .inr ⟨hp, told⟩

/-- **A transfer that sends delivers the file.** Whatever it takes in, its outline is the beginning
of the plan, and it is all of the plan exactly if the transfer is complete. As long as the transfer
waits, it waits for the acknowledgement of the packet that is out. The blocks in the plan make up the
content, and only the last one is not full. -/
theorem delivers_file {source : S.Source} {request : Request} {peer : Address} {socket : Socket}
    {config : Config} {heedsStop : Bool} {world : World S} {size : Nat} {content : Bytes}
    (offers : source.Offers world.store peer request.filename content)
    (agreed : (agreedBlockSize request.options config).toNat = size) (pos : 0 < size)
    {history : List Occurrence} {s : Scene S}
    (h : History ⟨.new S .read request peer socket config heedsStop, world⟩ history s) :
    let told := outline peer (awaits s.self.terms) history
    told <+: plan s.self.terms size content ∧
    (s.self.phase = .readEnd ↔ told = plan s.self.terms size content) ∧
    (s.self.isWaiting = true → ∃ n i, i = first s.self.terms + n ∧ i ≤ blockCount size content ∧
      told = exchanges s.self.terms size content n ++
        [.sent (packet s.self.terms size content i).encode]) ∧
    (∀ i, 1 ≤ i → i ≤ blockCount size content →
      ((blockAt size content i).length < size ↔ i = blockCount size content)) ∧
    (size ∣ content.length → blockAt size content (blockCount size content) = []) ∧
    ((List.range (blockCount size content)).flatMap fun i => blockAt size content (i + 1)) =
      content := by
  have fresh : Fresh source size content
      (⟨.new S .read request peer socket config heedsStop, world⟩ : Scene S).view :=
    ⟨rfl, rfl, rfl, rfl, agreed, pos, offers⟩
  obtain ⟨-, standing⟩ := fresh.stands h
  have standing : Standing source size content peer history s.view := standing
  refine ⟨?_, ?_, ?_, fun i hi hc => length_blockAt_lt_iff pos hi hc, blockAt_blockCount,
    flatMap_blockAt pos⟩
  · rcases standing.unfinished_or_complete with ⟨-, hu⟩ | ⟨-, told⟩
    · exact hu.isPrefix
    · exact told ▸ List.prefix_refl _
  · rcases standing.unfinished_or_complete with ⟨hp, hu⟩ | ⟨hp, told⟩
    · exact ⟨fun h => absurd h hp, fun h => absurd h hu.ne⟩
    · exact ⟨fun _ => told, fun _ => hp⟩
  · intro hw
    have hw : s.view.self.isWaiting = true := hw
    cases standing with
    | fresh hf _ => simp [isWaiting, hf.phase] at hw
    | sending i hs told =>
        refine ⟨i - first s.self.terms, i, (Nat.add_sub_cancel' hs.low).symm, hs.high, ?_⟩
        exact congrArg Telling.milestones told
    | failed hf _ => simp [isWaiting, isOver, hf.phase, Phase.isOver] at hw
    | ended hp _ => simp [isWaiting, isOver, hp, Phase.isOver] at hw

def tenBytes : Scene (Scripted.storage { content := ascii "0123456789", chunk := some 3 }) where
  self := .new _ .read ⟨ascii "digits", .octet, { blockSize := some 8 }⟩ ⟨⟨10, 0, 0, 1⟩, 5000⟩
    ⟨⟨⟨10, 0, 0, 2⟩, 40000⟩⟩ {} true
  world := { store := () }

/-- The OACK and both blocks are delivered, although one ACK comes twice. -/
theorem delivers_file_tenBytes : ∃ history s, History tenBytes history s ∧
    s.self.phase = .readEnd ∧ outline tenBytes.self.peer (awaits s.self.terms) history =
      plan s.self.terms 8 (ascii "0123456789") := by
  let ack : UInt16 → Reception := fun block =>
    .datagram tenBytes.self.peer (Packet.ack block).encode
  have h₁ : History tenBytes _ _ := .turn .start (.begins rfl)
  have h₂ := h₁.turn (.resumes (ack 0) (by decide +kernel))
  have h₃ := h₂.turn (.resumes (ack 0) (by decide +kernel))
  have h₄ := h₃.turn (.resumes (ack 1) (by decide +kernel))
  have h₅ := h₄.turn (.resumes (ack 2) (by decide +kernel))
  refine ⟨_, _, h₅, by decide +kernel, ?_⟩
  exact (delivers_file (Scripted.offers _ (by decide) () _ _) rfl (by decide) h₅).2.1.mp
    (by decide +kernel)

end Tftp.Transfer.Read
