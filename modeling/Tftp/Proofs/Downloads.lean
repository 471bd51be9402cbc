import Mathlib.Data.List.Destutter
import Tftp.Proofs.Delivery
import Tftp.Proofs.Permanence
import Tftp.Proofs.RoundTrip
import Tftp.Proofs.Shutdown

/-!
# Files that are read back

A file that has been received completely is read back by every transfer that begins later, whatever
else the server does meanwhile. What a transfer says to its client is what the server has put on
record about it; a datagram that only repeats the one before it does not count (`payloads`).
-/

namespace Tftp

open Transfer

/-! ## What is said, without repetitions -/

section

variable {α : Type} [DecidableEq α]

theorem destutter'_concat (l : List α) (a x : α) :
    (l ++ [x]).destutter' (· ≠ ·) a = if (a :: l).getLast? = some x then l.destutter' (· ≠ ·) a
      else l.destutter' (· ≠ ·) a ++ [x] := by
  induction l generalizing a with
  | nil => by_cases h : a = x <;> simp [List.destutter', h]
  | cons b l ih =>
      rw [List.cons_append, List.destutter'_cons, List.destutter'_cons, ih b, List.getLast?_cons_cons]
      by_cases h : a = b
      · subst h
        rw [if_neg (not_not.2 rfl), if_neg (not_not.2 rfl), ih a]
      · rw [if_pos h, if_pos h]
        split <;> rfl

/-- An element that is like the one before it is left out. -/
theorem destutter_concat (l : List α) (x : α) :
    (l ++ [x]).destutter (· ≠ ·) = if l.getLast? = some x then l.destutter (· ≠ ·)
      else l.destutter (· ≠ ·) ++ [x] := by
  cases l with
  | nil => rfl
  | cons a l => exact destutter'_concat l a x

end

/-- The payload of a datagram, if it is a block of a file. -/
def payload? (bytes : Bytes) : Option Bytes :=
  match Packet.parse bytes with
  | .ok (.data _ payload) => some payload
  | _ => none

/-- The payloads of the blocks among some datagrams. A datagram that only repeats the one before it
does not count. -/
def payloads (datagrams : List Bytes) : List Bytes :=
  (datagrams.destutter (· ≠ ·)).filterMap payload?

namespace Transfer

/-- The datagram that a milestone tells of, if it went to the peer. -/
def Milestone.sent? : Milestone → Option Bytes
  | sent bytes => some bytes
  | _ => none

/-- The datagrams to a peer in a history. -/
def sentIn (peer : Address) (history : List Occurrence) : List Bytes :=
  history.flatMap fun
    | .did event => sentTo peer [event]
    | .received _ => []

theorem sentIn_append (peer : Address) (a b : List Occurrence) :
    sentIn peer (a ++ b) = sentIn peer a ++ sentIn peer b :=
  List.flatMap_append

theorem sentIn_did (peer : Address) (events : List Event) :
    sentIn peer (events.map .did) = sentTo peer events := by
  induction events with
  | nil => rfl
  | cons e events ih =>
      rw [← List.singleton_append (l := events), sentTo_append, ← ih]
      rfl

theorem sentIn_occurrences (peer : Address) (reception? : Option Reception) (events : List Event) :
    sentIn peer (occurrences reception? events) = sentTo peer events := by
  rw [occurrences, sentIn_append, sentIn_did]
  cases reception? <;> rfl

/-- How far an outline has been told when so much has been sent. -/
structure Telling.Covers (told : Telling) (sent : List Bytes) : Prop where
  last : told.last = sent.getLast?
  sent : told.milestones.filterMap Milestone.sent? = sent.destutter (· ≠ ·)

theorem Telling.Covers.send {told : Telling} {sent : List Bytes} (h : told.Covers sent)
    (bytes : Bytes) : (told.send bytes).Covers (sent ++ [bytes]) := by
  unfold Telling.send
  by_cases hl : told.last = some bytes
  · rw [if_pos hl]
    refine ⟨?_, ?_⟩
    · rw [hl, List.getLast?_concat]
    · rw [destutter_concat, if_pos (h.last ▸ hl), h.sent]
  · rw [if_neg hl]
    refine ⟨?_, ?_⟩
    · rw [List.getLast?_concat]
    · rw [destutter_concat, if_neg (h.last ▸ hl), ← h.sent, List.filterMap_append]
      rfl

/-- Apart from the datagrams to the peer, nothing that is told has been sent. -/
theorem Telling.Covers.keep {told : Telling} {sent : List Bytes} (h : told.Covers sent)
    {milestone : Milestone} (hm : milestone.sent? = none) : (told.keep [milestone]).Covers sent where
  last := h.last
  sent := by
    rw [Telling.keep, List.filterMap_append, h.sent, List.filterMap_cons_none hm]
    exact List.append_nil _

/-- **The datagrams in an outline are those that went to the peer, without repetitions.** -/
theorem telling_covers (peer : Address) (counts : Nat → Packet → Bool)
    (history : List Occurrence) : (telling peer counts history).Covers (sentIn peer history) := by
  -- From the end, as an outline grows there. Only what is sent to the peer adds to it.
  induction history using List.reverseRecOn with
  | nil => exact ⟨rfl, rfl⟩
  | append_singleton history occurrence ih =>
      rw [telling_append, sentIn_append, List.foldl_cons, List.foldl_nil]
      have quiet {told : Telling} (h : told.Covers (sentIn peer history)) :
          told.Covers (sentIn peer history ++ []) := by rwa [List.append_nil]
      cases occurrence with
      | received reception =>
          refine quiet ?_
          unfold Telling.tell
          dsimp only
          split
          · split
            · exact ih.keep rfl
            · exact ih
          · exact ih
      | did event =>
          cases event with
          | sent a receiver bytes t =>
              have hs : sentIn peer [.did (.sent a receiver bytes t)] =
                  if receiver = peer then [bytes] else [] := by
                by_cases hr : receiver = peer <;> simp [sentIn, sentTo, hr]
              rw [hs]
              unfold Telling.tell
              dsimp only
              split
              · exact ih.send bytes
              · exact quiet ih
          | _ =>
              refine quiet ?_
              unfold Telling.tell
              dsimp only
              split
              · exact ih.keep rfl
              · exact ih

namespace Read

variable {S : Storage} {terms : Terms} {size : Nat} {content : Bytes}

/-- The payloads of the packets in a part of the plan make up a part of the content. -/
theorem payloads_exchanges (n : Nat) :
    (((exchanges terms size content n).filterMap Milestone.sent?).filterMap payload?).flatten =
      content.take ((first terms + n - 1) * size) := by
  induction n with
  | zero =>
      have hf := first_le_one terms
      rw [show first terms + 0 - 1 = 0 by omega, Nat.zero_mul]
      rfl
  | succ n ih =>
      have hsent : (exchange terms size content (first terms + n)).filterMap Milestone.sent? =
          [(packet terms size content (first terms + n)).encode] := rfl
      rw [exchanges_succ, List.filterMap_append, List.filterMap_append, List.flatten_append, ih,
        hsent]
      cases hi : first terms + n with
      | zero =>
          -- The OACK has no payload.
          have hnone : payload? (packet terms size content 0).encode = none := by
            unfold payload?
            split
            next block payload hp =>
              obtain ⟨options, ho⟩ := Packet.parse_take_oack (n := (Packet.encode _).length)
                (by rwa [List.take_length])
              cases ho
            next => rfl
          rw [List.filterMap_cons_none hnone, ← Nat.add_assoc, hi]
          simp
      | succ i =>
          have hsome : payload? (packet terms size content (i + 1)).encode =
              some (blockAt size content (i + 1)) := by
            unfold payload?
            rw [packet, Packet.parse_data]
          rw [List.filterMap_cons_some hsome, ← Nat.add_assoc, hi]
          exact (congrArg _ (List.append_nil _)).trans (take_append_blockAt i)

/-- The payloads of the packets in the plan make up the content. -/
theorem payloads_plan (hs : 0 < size) :
    (((plan terms size content).filterMap Milestone.sent?).filterMap payload?).flatten = content := by
  have hf := first_le_one terms
  have hc := @blockCount_pos size content
  rw [plan, payloads_exchanges, packetCount,
    show first terms + (blockCount size content + 1 - first terms) - 1 = blockCount size content by
      omega,
    take_blockCount hs]

/-- **A transfer that is complete has sent the content.** -/
theorem payloads_of_outline {peer : Address} {counts : Nat → Packet → Bool}
    {history : List Occurrence} (hs : 0 < size)
    (h : outline peer counts history = plan terms size content) :
    (payloads (sentIn peer history)).flatten = content := by
  rw [payloads, ← (telling_covers peer counts history).sent]
  rw [show (telling peer counts history).milestones = _ from h]
  exact payloads_plan hs

end Read

end Transfer

/-! ## What a server says for a transfer -/

theorem sentTo_unlogged (peer : Address) (events : List Event) :
    sentTo peer (Event.unlogged events) = sentTo peer events := by
  induction events with
  | nil => rfl
  | cons e events ih =>
      rw [← List.singleton_append (l := events), Event.unlogged_append, sentTo_append,
        sentTo_append, ih]
      cases e <;> rfl

namespace Passage

variable {S : Storage}

/-- A turn that fails is the end of the transfer. -/
theorem failed_of_error {p : Passage S} {f : Failure} (h : p.result = .error f) :
    p.after.self.phase = .failed := by
  cases ht : turn p.reception? p.scene with
  | error f' s =>
      obtain ⟨s', hf, hv, -⟩ := fall_eq_error f' s
      have ha : p.after = s' := (Scene.after_of_error ((guarded_of_error ht).trans hf)).2
      rw [ha, show s'.self = s.view.givenUp.self from congrArg View.self hv]
      exact (View.givenUp_self _).2.2
  | ok u s =>
      have hg := guarded_of_ok ht
      have he : ∀ {s' : Scene S}, guarded (turn p.reception?) p.scene = .ok () s' → False :=
        fun hk => nomatch h.symm.trans (Scene.after_of_ok hk).1
      split at hg
      · have hl : Ensures leave s.view (fun _ _ => True) (fun _ w => w.self.phase = .failed) := by
          refine .leave (fun _ => trivial) fun _ => ?_
          split
          · trivial
          · exact (View.givenUp_self _).2.2
        have hl := hl s rfl
        cases hr : leave s with
        | ok u s' => exact (he (hg.trans hr)).elim
        | error f' s' =>
            rw [hr] at hl
            rw [show p.after = s' from (Scene.after_of_error (hg.trans hr)).2]
            exact hl
      · exact (he hg).elim

theorem sentTo_deedsOf (p : Passage S) {events : List Event}
    (h : p.after.world.trace = events ++ p.scene.world.trace) (peer : Address) :
    sentTo peer (p.scene.deedsOf p.reaction) = sentTo peer events.reverse := by
  have hd : p.after.view.deeds = p.scene.view.deeds ++ (Event.unlogged events).reverse := by
    show (Event.unlogged p.after.world.trace).reverse = _
    rw [h, Event.unlogged_append, List.reverse_append]
    rfl
  rw [Scene.deedsOf_eq hd, ← Event.unlogged_reverse, sentTo_unlogged]

end Passage

namespace Server

variable {S : Storage}

/-- What a client is told about a failure is an ERROR packet. -/
theorem Reported.sentTo {t : Transfer S} {w : World S} {f : Failure} {lines : List Event}
    {network : Network} (h : Reported t w f lines network) (peer : Address) :
    ∀ bytes ∈ sentTo peer lines, bytes = f.packet.encode := by
  have announced : Transfer.sentTo peer (announcement t w f) = [] := by
    unfold announcement
    cases w.verbose <;> rfl
  cases h with
  | silent => exact List.forall_mem_nil _
  | sent =>
      rw [sentTo_append, announced, List.nil_append]
      intro bytes hm
      by_cases hp : t.peer = peer
      · simpa [Transfer.sentTo, hp] using hm
      · simp [Transfer.sentTo, hp] at hm
  | refused =>
      rw [sentTo_append, announced, List.nil_append]
      exact List.forall_mem_nil _

/-- What a server puts on record about a turn: what the transfer says, and a report if it has
failed. -/
theorem sentTo_dealWith (server : Server S) (p : Passage S)
    (hw : p.scene.world.trace = server.world.trace) (peer : Address) :
    ∃ reports, sentTo peer (server.world.since (server.dealWith p).1.world) =
        sentTo peer (p.scene.deedsOf p.reaction) ++ reports ∧
      (∀ bytes ∈ reports, ∃ f : Failure, bytes = f.packet.encode) ∧
      (p.after.self.phase ≠ .failed → reports = []) := by
  obtain ⟨events, htrace⟩ := p.grows
  rw [p.sentTo_deedsOf htrace]
  rw [hw] at htrace
  cases hr : p.result with
  | ok u =>
      rw [World.since_of_trace ((server.dealWith_trace_of_ok hr).trans htrace)]
      exact ⟨[], (List.append_nil _).symm, List.forall_mem_nil _, fun _ => rfl⟩
  | error f =>
      obtain ⟨lines, network, hlines, -, htold⟩ := server.dealWith_trace_of_error hr
      have hdeal : (server.dealWith p).1.world.trace =
          (lines.reverse ++ events) ++ server.world.trace := by
        rw [htold, htrace, List.append_assoc]
      rw [World.since_of_trace hdeal, List.reverse_append, List.reverse_reverse, sentTo_append]
      exact ⟨_, rfl, fun bytes hm => ⟨f, hlines.sentTo peer bytes hm⟩,
        fun hp => absurd (Passage.failed_of_error hr) hp⟩

end Server

namespace Directory

open Read

variable {directory : Directory} {id : Nat} {content : Bytes}

/-! ## Sending a file that stays as it is -/

/-- The size of a file is told if it has been asked for. -/
def TellsSize (content : Bytes) (request : Request) (acknowledged : Options) : Prop :=
  request.options.transferSize = some 0 →
    acknowledged.transferSize = some (UInt64.ofNat content.length)

/-- A transfer that waits while it sends the file `id`, and what it has said since it began with the
view `v`. The disk may change meanwhile, but not this file. -/
structure Supplying (id : Nat) (content : Bytes) (v : View directory.storage) (said : List Bytes)
    (t : Transfer directory.storage) : Prop where
  live : t.isOver = false
  peer : t.peer = v.self.peer
  fetching : Fetching t
  spoken : ∀ bytes ∈ said, IsSaid t.terms bytes
  tells : TellsSize content v.self.request t.terms.oack
  sending : 0 < t.terms.blockSize.toNat → ∃ history i, sentIn v.self.peer history = said ∧
    telling v.self.peer (awaits t.terms) history =
      toldSending t.terms t.terms.blockSize.toNat content i ∧
    ∀ disk : Disk, disk.tree.content id = content →
      Sending (directory.source id content) t.terms.blockSize.toNat content i t disk

/-- What a turn of such a transfer leads to. -/
structure Supplies (id : Nat) (content : Bytes) (v : View directory.storage) (said : List Bytes)
    (w : View directory.storage) : Prop where
  tells : ∀ options, (Packet.oack options).encode ∈ said →
    TellsSize content v.self.request options
  ends : w.self.phase = .readEnd → (payloads said).flatten = content
  waits : w.self.isOver = false → Supplying id content v said w.self

/-- Where nothing depends on the rest of the disk, it may change. -/
theorem sending_of_content {disk disk' : Disk} {size i : Nat} {t : Transfer directory.storage}
    (h : Sending (directory.source id content) size content i t disk)
    (hc : disk'.tree.content id = content) :
    Sending (directory.source id content) size content i t disk' where
  direction := h.direction
  writer := h.writer
  agreed := h.agreed
  pos := h.pos
  block := h.block
  reader := by
    obtain ⟨reader, hr, hh⟩ := h.reader
    exact ⟨reader, hr, hc, hh.id, hh.rest⟩
  low := h.low
  high := h.high
  phase := h.phase
  last := h.last

variable {v w : View directory.storage} {said : List Bytes}

theorem Supplies.of_standing (hpeer : w.self.peer = v.self.peer) (hf : Fetching w.self)
    (hp : Permits w.self.terms w.self.phase) (spoken : ∀ bytes ∈ said, IsSaid w.self.terms bytes)
    (tells : TellsSize content v.self.request w.self.terms.oack)
    (stands : 0 < w.self.terms.blockSize.toNat → ∃ history, sentIn v.self.peer history = said ∧
      (w.self.phase = .initial → history ≠ []) ∧
      Standing (directory.source id content) w.self.terms.blockSize.toNat content v.self.peer history
        w) : Supplies id content v said w where
  tells options hm := by
    rcases spoken _ hm with he | ⟨block, payload, he⟩
    · obtain rfl := Packet.oack_inj he
      exact tells
    · exact absurd he (Packet.oack_ne_data _ _ _)
  ends hend := by
    rcases Nat.eq_zero_or_pos w.self.terms.blockSize.toNat with hz | hz
    · -- Blocks that are empty never come to an end.
      exact absurd hend (hp.2 (UInt16.toNat_inj.1 hz)).2
    · obtain ⟨history, rfl, -, hs⟩ := stands hz
      rcases hs.unfinished_or_complete with ⟨hne, -⟩ | ⟨-, told⟩
      · exact absurd hend hne
      · exact payloads_of_outline hz told
  waits ho := by
    refine ⟨ho, hpeer, hf, spoken, tells, fun hz => ?_⟩
    obtain ⟨history, hsaid, hbegun, hs⟩ := stands hz
    cases hs with
    | fresh hf he => exact absurd he (hbegun hf.phase)
    | sending i hs told => exact ⟨history, i, hsaid, told, fun disk => sending_of_content hs⟩
    | failed hf _ => exact absurd hf.phase (phase_ne_of_live ho rfl)
    | ended hp _ => exact absurd hp (phase_ne_of_live ho rfl)

/-- Who asks for the size of a file is told it. -/
theorem tellsSize_of_settled {terms : Terms}
    (hfile : v.store.tree.file? (Path.join directory.root v.self.request.filename) = some id)
    (h : Settled v terms) : TellsSize (v.store.tree.content id) v.self.request terms.oack := by
  obtain ⟨reader, fileSize, hopen, hterms⟩ := h
  have hopen : (directory.openForReading v.self.peer v.self.request.filename v.store).result.map some =
    .ok (some (reader, fileSize)) := hopen
  cases ho : (directory.openForReading v.self.peer v.self.request.filename v.store).result with
  | error f =>
      rw [ho] at hopen
      cases hopen
  | ok opened =>
      rw [ho] at hopen
      cases hopen
      obtain ⟨-, rfl⟩ := openForReading_file hfile ho
      exact negotiate_transferSize hterms

/-- **The first turn of a transfer that sends a file.** -/
theorem supplies_begin {s : Scene directory.storage} (hd : s.self.direction = .read)
    (hw : s.self.writer = none) (hl : s.self.lastPacket = none) (hp : s.self.phase = .initial)
    (hb : s.self.block = 0)
    (hfile : s.view.store.tree.file? (Path.join directory.root s.self.request.filename) = some id) :
    Supplies id (s.view.store.tree.content id) s.view (sentTo s.self.peer (s.deedsOf begin))
      (s.after begin).view := by
  obtain ⟨terms, hf, h⟩ : Opening s.view (s.after begin).view :=
    (begin_fetches directory.lends hd hw hl hp).after
  obtain ⟨sent, hsends, hsaid⟩ := hf.sends
  have hsent : sentTo s.self.peer (s.deedsOf begin) = sent := hsends.sentTo_deedsOf
  rcases h with hset | ⟨hfailed, hnone⟩
  · obtain rfl := hf.agreed
    have htells := tellsSize_of_settled hfile hset
    have hsize : (s.after begin).view.self.terms.blockSize =
        agreedBlockSize s.self.request.options s.self.config := by
      obtain ⟨reader, fileSize, -, hterms⟩ := hset
      exact negotiate_blockSize hterms
    have hoffers := @offers directory s.view.store id s.self.peer _ hfile
    rw [← hsent] at hsaid
    refine .of_standing hsends.peer hf.fetching hf.phase hsaid htells fun hz => ?_
    have fresh : Fresh (directory.source id (s.view.store.tree.content id))
        (s.after begin).view.self.terms.blockSize.toNat (s.view.store.tree.content id) s.view :=
      ⟨hp, hd, hw, hb, congrArg UInt16.toNat hsize.symm, hz, hoffers⟩
    refine ⟨_, sentIn_occurrences .., fun hi => ?_, fresh.begins.2⟩
    obtain ⟨k, hbegins⟩ := (begins_begin hd hw hb fresh.agreed hz hoffers).after
    rcases hbegins.ends with ⟨-, hs⟩ | hfailed
    · exact absurd (hs.phase.symm.trans hi) (phaseAt_ne_initial _ _ _)
    · cases hfailed.phase.symm.trans hi
  · rw [show sentTo s.self.peer (s.deedsOf begin) = [] from hnone.sentTo_deedsOf]
    refine ⟨fun _ hm => absurd hm List.not_mem_nil, fun he => ?_, fun ho => ?_⟩
    · cases hfailed.symm.trans he
    · exact absurd hfailed (phase_ne_of_live ho rfl)

/-- **A later turn of a transfer that sends a file.** -/
theorem supplies_resume {s : Scene directory.storage} (h : Supplying id content v said s.self)
    (hc : s.view.store.tree.content id = content) (reception : Reception) :
    Supplies id content v (said ++ sentTo v.self.peer (s.deedsOf (resume reception)))
      (s.after (resume reception)).view := by
  have hf : Fetches s.view s.self.terms (s.after (resume reception)).view :=
    (resume_fetches directory.lends reception (h.fetching s.view rfl)
      (phase_ne_of_live h.live rfl)).after
  obtain ⟨sent, hsends, hsaid⟩ := hf.sends
  have hpeer : s.view.self.peer = v.self.peer := h.peer
  have hsent := hsends.sentTo_deedsOf
  rw [hpeer] at hsent
  have hterms := hf.agreed
  refine .of_standing (hsends.peer.trans h.peer) hf.fetching (hterms ▸ hf.phase) ?_
    (hterms ▸ h.tells) ?_
  · rw [hterms, hsent]
    exact fun bytes hm => (List.mem_append.1 hm).elim (h.spoken bytes) (hsaid bytes)
  · rw [hterms]
    intro hz
    obtain ⟨history, i, rfl, told, hs⟩ := h.sending hz
    rw [← hpeer] at told
    have hs' := ((hs s.view.store hc).resumes (s := s) told reception).2
    rw [hpeer] at hs'
    have hbegun : history ++ occurrences (some reception) (s.deedsOf (resume reception)) ≠ [] :=
      List.append_ne_nil_of_right_ne_nil _ (List.cons_ne_nil _ _)
    refine ⟨_, ?_, fun _ => hbegun, hs'⟩
    rw [sentIn_append, sentIn_occurrences]

end Directory

namespace Server

open Directory

variable {directory : Directory} {id : Nat} {content : Bytes}

/-! ## Reading back -/

/-- What a server has said to a client in some turns. -/
def said {S : Storage} (peer : Address) (turns : List (Passage S × List Event)) : List Bytes :=
  sentTo peer (turns.flatMap Prod.snd)

theorem said_concat {S : Storage} (peer : Address) (turns : List (Passage S × List Event))
    (p : Passage S) (lines : List Event) :
    said peer (turns ++ [(p, lines)]) = said peer turns ++ sentTo peer lines := by
  rw [said, List.flatMap_append, sentTo_append, List.flatMap_singleton]
  rfl

/-- A transfer that sends the file `id` and has begun with the view `v`, turn by turn, with what is
left of it. -/
structure Reads (id : Nat) (content : Bytes) (v : View directory.storage)
    (turns : List (Passage directory.storage × List Event))
    (left : Option (Transfer directory.storage)) : Prop where
  tells : ∀ options, (Packet.oack options).encode ∈ said v.self.peer turns →
    TellsSize content v.self.request options
  ends : ∀ turn ∈ turns, turn.1.after.self.phase = .readEnd →
    (payloads (said v.self.peer turns)).flatten = content
  waits : ∀ t ∈ left, Supplying id content v (said v.self.peer turns) t ∧
    ∀ turn ∈ turns, turn.1.after.self.isOver = false

theorem Reads.turn {v : View directory.storage}
    {turns : List (Passage directory.storage × List Event)} {server : Server directory.storage}
    {p : Passage directory.storage} (hw : p.scene.world.trace = server.world.trace)
    (before : ∀ turn ∈ turns, turn.1.after.self.isOver = false)
    (h : Supplies id content v
      (said v.self.peer turns ++ sentTo v.self.peer (p.scene.deedsOf p.reaction)) p.after.view) :
    Reads id content v (turns ++ [(p, server.world.since (server.dealWith p).1.world)]) p.left := by
  obtain ⟨reports, hlines, hreports, hnone⟩ := sentTo_dealWith server p hw v.self.peer
  have hsaid : said v.self.peer (turns ++ [(p, server.world.since (server.dealWith p).1.world)]) =
      said v.self.peer turns ++ sentTo v.self.peer (p.scene.deedsOf p.reaction) ++ reports := by
    rw [said_concat, hlines, List.append_assoc]
  have quiet (hp : p.after.self.phase ≠ .failed) :
      said v.self.peer (turns ++ [(p, server.world.since (server.dealWith p).1.world)]) =
        said v.self.peer turns ++ sentTo v.self.peer (p.scene.deedsOf p.reaction) := by
    rw [hsaid, hnone hp, List.append_nil]
  have last {turn : Passage directory.storage × List Event}
      (hm : turn ∈ turns ++ [(p, server.world.since (server.dealWith p).1.world)])
      (ho : turn.1.after.self.isOver = true) : turn.1 = p := by
    rcases List.mem_append.1 hm with hm | hm
    · cases ho.symm.trans (before turn hm)
    · rw [List.mem_singleton.1 hm]
  refine ⟨fun options hm => ?_, fun turn hm hp => ?_, fun t ht => ?_⟩
  · rw [hsaid] at hm
    rcases List.mem_append.1 hm with hm | hm
    · exact h.tells options hm
    · obtain ⟨f, hf⟩ := hreports _ hm
      exact absurd (Packet.opcode_eq_of_encode_eq hf) (show (6 : UInt16) ≠ 5 by decide)
  · have ht := last hm (by rw [isOver, hp]; rfl)
    rw [ht] at hp
    rw [quiet (by rw [hp]; decide)]
    exact h.ends hp
  · obtain ⟨rfl, ho⟩ := Passage.eq_of_left ht
    rw [quiet (phase_ne_of_live ho rfl)]
    refine ⟨h.waits ho, fun turn hm => ?_⟩
    cases hturn : turn.1.after.self.isOver with
    | false => rfl
    | true =>
        rw [last hm hturn, ho] at hturn
        cases hturn

/-- The file that a path leads to, and its content. -/
structure Keeps (server : Server directory.storage) (path : Bytes) (id : Nat) (content : Bytes) :
    Prop where
  found : server.world.store.tree.file? path = some id
  content : server.world.store.tree.content id = content

/-- **A file that stays as it is can be read back** by every transfer that begins meanwhile. -/
theorem Course.reads {start a : Affairs directory.storage} {deeds : List (Deed directory.storage)}
    {path : Bytes} (hc : start.Consistent) (run : Course start deeds a)
    (keeps : ∀ {deeds' : List (Deed directory.storage)} {b : Affairs directory.storage},
      Course start deeds' b → b.server.Keeps path id content) :
    Lives (fun turns left => ∀ first lines rest, turns = (first, lines) :: rest →
      first.reception? = none → first.scene.self.direction = .read →
      Path.join directory.root first.scene.self.request.filename = path →
      Reads id content first.scene.view turns left) deeds a.server := by
  refine run.lives_under hc (fun task _ first lines rest h => nomatch h) keeps
    (fun b assignment socket world hk hs first lines rest he _ hd hpath => ?_)
    fun b task reception turns hk hm hK first lines rest he hn hd hpath => ?_
  · obtain ⟨rfl, -⟩ := Prod.mk.inj (List.head_eq_of_cons_eq he)
    obtain ⟨network, rfl⟩ := world_of_askSocket hs
    refine @Reads.turn _ _ _ _ [] _ _ rfl (List.forall_mem_nil _) ?_
    have h := supplies_begin
      (s := (b.server.firstPassage assignment socket { b.server.world with network }).scene)
      hd rfl rfl rfl rfl (hpath ▸ hk.found)
    rw [begin_eq] at h
    have hcontent := hk.content
    exact hcontent ▸ h
  · cases turns with
    | nil =>
        obtain ⟨rfl, -⟩ := Prod.mk.inj (List.head_eq_of_cons_eq he)
        cases hn
    | cons turn turns =>
        obtain ⟨rfl, rfl⟩ := List.cons_eq_cons.1 he
        obtain ⟨hw, hlive⟩ := (hK _ _ _ rfl hn hd hpath).waits _ rfl
        refine Reads.turn rfl hlive ?_
        have h := supplies_resume (s := (b.server.nextPassage task reception).scene) hw hk.content
          reception
        rw [resume_eq] at h
        exact h

/-! ## Uploads -/

theorem Lasts.contentAt? {server : Server directory.storage} {path : Bytes}
    (h : server.Lasts path id content) :
    server.world.store.tree.contentAt? path = some content := by
  rw [FileTree.contentAt?, h.found]
  exact congrArg some h.content

/-- A file that has been received completely lasts. -/
theorem Course.lasts {start b : Affairs directory.storage} {deeds : List (Deed directory.storage)}
    (hc : start.Consistent) (ht : start.server.tasks = []) (run : Course start deeds b) {n : Nat}
    {p : Passage directory.storage} {lines : List Event} (hm : (p, lines) ∈ turnsOf n deeds)
    (hp : p.after.self.phase = .writeEnd) :
    ∃ id, ∀ {deeds' : List (Deed directory.storage)} {a : Affairs directory.storage},
      Course b deeds' a →
      a.server.Lasts (Path.join directory.root p.scene.self.request.filename) id
        (taken (turnsOf n deeds)) := by
  obtain ⟨front, back, he⟩ := List.append_of_mem hm
  obtain ⟨rfl, -, writer, hw, -⟩ := (run.filed hc ht).done n front p lines back he hp
  refine ⟨writer.id, fun {deeds' a} later => ?_⟩
  obtain ⟨hnone, -, writer', hw', hl⟩ := ((run.trans later).filed hc ht).done n front p lines
    (turnsOf n deeds') (by rw [turnsOf_append, he]; simp) hp
  obtain rfl := Option.some.inj (hw.symm.trans hw')
  have hr : p.after.self.request = p.scene.self.request := request_after p
  rw [hr] at hl
  rw [he]
  exact hl

/-- A turn in which a transfer comes to have a file open for writing makes this file, and there was
nothing before. -/
def MakesNew (p : Passage directory.storage) : Prop :=
  p.scene.self.writer = none → ∀ writer : FileWriter, p.after.self.writer = some writer →
    writer.path = Path.join directory.root p.scene.self.request.filename ∧
    p.scene.world.store.tree.isThere writer.path = false

theorem makesNew_first (server : Server directory.storage) (assignment : Assignment)
    (socket : Socket) (world : World directory.storage) :
    MakesNew (server.firstPassage assignment socket world) := by
  intro _ writer hw
  cases hd : assignment.direction with
  | write => exact (passes_first server assignment socket world).2 hd writer hw
  | read =>
      obtain ⟨terms, hf, -⟩ :=
        (Read.begin_fetches (v := (server.firstPassage assignment socket world).scene.view)
          directory.lends hd rfl rfl rfl).after
      rw [begin_eq] at hf
      cases hf.writer.symm.trans hw

theorem makesNew_next {server : Server directory.storage} {task : Task directory.storage}
    {written : Bytes} (h : directory.Tended server.world.store written task.transfer)
    (reception : Reception) : MakesNew (server.nextPassage task reception) := by
  intro hnone writer hw
  cases h with
  | reads hf ho =>
      have hf := (Read.resume_fetches (v := (server.nextPassage task reception).scene.view)
        directory.lends reception (hf _ rfl) (phase_ne_of_live ho rfl)).after
      rw [resume_eq] at hf
      cases hf.writer.symm.trans hw
  | writes size n writer' hr hw' hpath hh => cases hnone.symm.trans hw'

/-- No file that is there is ever opened for writing. -/
theorem Course.makesNew {start a : Affairs directory.storage}
    {deeds : List (Deed directory.storage)} (hc : start.Consistent)
    (ht : start.server.tasks = []) (run : Course start deeds a) {n : Nat} :
    ∀ turn ∈ turnsOf n deeds, MakesNew turn.1 := by
  intro turn hm
  have h : Lives (fun turns _ => ∀ turn ∈ turns, MakesNew turn.1) deeds a.server := by
    refine run.lives_under (I := fun b => ∃ deeds, Filed deeds b.server) hc (by simp [ht])
      (fun run => ⟨_, run.filed hc ht⟩) (fun b assignment socket world _ _ turn hm => ?_)
      fun b task reception turns ⟨_, hf⟩ ht hK turn hm => ?_
    · rw [List.mem_singleton.1 hm]
      exact makesNew_first b.server assignment socket world
    · rcases List.mem_append.1 hm with hm | hm
      · exact hK turn hm
      · rw [List.mem_singleton.1 hm]
        exact makesNew_next (hf.tended task ht) reception
  obtain ⟨-, hK⟩ := h.exists_left (List.ne_nil_of_mem hm)
  exact hK turn hm

/-- **A completed upload is permanent and reads back exactly.** When a client has sent a whole file,
the path of its name leads to a file that holds the payloads that the transfer has taken, and so it
does ever after. Every transfer that begins later and sends this file, and comes to its end, has sent
blocks with these payloads, whatever their size; if it has been asked for the size of the file, no
OACK of it tells another. A file is opened for writing only where there was nothing, and no two
transfers have the same file open for writing. -/
theorem uploads_last {setting : Setting directory.storage} {first : Server directory.storage}
    (made : make setting = .ok first) {deeds deeds' : List (Deed directory.storage)}
    {b a : Affairs directory.storage} (run : Course { server := first } deeds b)
    (later : Course b deeds' a) :
    (∀ n p lines, (p, lines) ∈ turnsOf n deeds → p.after.self.phase = .writeEnd →
      let path := Path.join directory.root p.scene.self.request.filename
      let content := taken (turnsOf n deeds)
      b.server.world.store.tree.contentAt? path = some content ∧
      a.server.world.store.tree.contentAt? path = some content ∧
      ∀ m q lines' rest, turnsOf m deeds' = (q, lines') :: rest → q.reception? = none →
        q.scene.self.direction = .read →
        q.scene.self.request.filename = p.scene.self.request.filename →
        let said := said q.scene.self.peer (turnsOf m deeds')
        (∀ turn ∈ turnsOf m deeds', turn.1.after.self.phase = .readEnd →
          (payloads said).flatten = content) ∧
        (q.scene.self.request.options.transferSize = some 0 → ∀ options,
          (Packet.oack options).encode ∈ said →
            options.transferSize = some (UInt64.ofNat content.length))) ∧
    (∀ n p lines, (p, lines) ∈ turnsOf n deeds → p.scene.self.writer = none →
      ∀ writer : FileWriter, p.after.self.writer = some writer →
        writer.path = Path.join directory.root p.scene.self.request.filename ∧
        p.scene.world.store.tree.isThere writer.path = false) ∧
    ∀ task ∈ b.server.tasks, ∀ task' ∈ b.server.tasks, task.number ≠ task'.number →
      ∀ writer writer' : FileWriter, task.transfer.writer = some writer →
        task'.transfer.writer = some writer' → writer.id ≠ writer'.id := by
  have hc := make_consistent made
  obtain ⟨-, ht⟩ := make_empty made
  refine ⟨fun n p lines hm hp => ?_, fun n p lines hm => run.makesNew hc ht (p, lines) hm,
    (run.filed hc ht).apart⟩
  obtain ⟨id, hlasts⟩ := run.lasts hc ht hm hp
  refine ⟨(hlasts .refl).contentAt?, (hlasts later).contentAt?, ?_⟩
  intro m q lines' rest hq hn hd hfilename
  have hreads := later.reads (run.consistent hc)
    fun later => ⟨(hlasts later).found, (hlasts later).content⟩
  obtain ⟨left, hK⟩ := hreads.exists_left (n := m) (by rw [hq]; exact List.cons_ne_nil _ _)
  have hr := hK q lines' rest hq hn hd (by rw [hfilename])
  exact ⟨hr.ends, fun asked options ho => hr.tells options ho asked⟩

/-- A server of an empty directory. -/
def shelf : Server (Directory.storage ⟨ascii "r", .readWrite⟩) where
  socket := ⟨⟨⟨10, 0, 0, 2⟩, 69⟩⟩
  address := ⟨⟨10, 0, 0, 2⟩, 69⟩
  config := {}
  world :=
    { store := { tree := { entries := [([ascii "r"], .directory)] }, space := none }
      network := { opened := 1 }
      trace := [.logged (.starting ⟨⟨10, 0, 0, 2⟩, 69⟩)] }

/-- A client sends the two bytes of a file, and another one reads them back and asks for their
number. -/
theorem uploads_last_shelf : ∃ deeds deeds' b a, Course { server := shelf } deeds b ∧
    Course b deeds' a ∧ taken (turnsOf 1 deeds) = ascii "hi" ∧
    a.server.world.store.tree.contentAt? (ascii "r/f") = some (taken (turnsOf 1 deeds)) ∧
    (payloads (said ⟨⟨10, 0, 0, 3⟩, 5000⟩ (turnsOf 2 deeds'))).flatten =
      taken (turnsOf 1 deeds) ∧
    (∀ options,
      (Packet.oack options).encode ∈ said ⟨⟨10, 0, 0, 3⟩, 5000⟩ (turnsOf 2 deeds') →
        options.transferSize = some 2) := by
  let writer : Address := ⟨⟨10, 0, 0, 1⟩, 5000⟩
  let reader : Address := ⟨⟨10, 0, 0, 3⟩, 5000⟩
  let up : List Move :=
    [.hear writer (Packet.request .write ⟨ascii "f", .octet, {}⟩).encode, .begin,
      .resume 1 (.datagram writer (Packet.data 1 (ascii "hi")).encode)]
  let down : List Move :=
    [.hear reader (Packet.request .read ⟨ascii "f", .octet, { transferSize := some 0 }⟩).encode,
      .begin, .resume 2 (.datagram reader (Packet.ack 0).encode),
      .resume 2 (.datagram reader (Packet.ack 1).encode)]
  have made : make { address := ⟨⟨10, 0, 0, 2⟩, 69⟩, store := some shelf.world.store } =
    .ok shelf := rfl
  let deeds := (({ server := shelf } : Affairs _).moves up).1
  let b := (({ server := shelf } : Affairs _).moves up).2
  have run : Course { server := shelf } deeds b := Affairs.course_moves _ up
  have later : Course b (b.moves down).1 (b.moves down).2 := b.course_moves down
  have received : (turnsOf 1 deeds).any (fun turn => turn.1.after.self.phase = .writeEnd ∧
      turn.1.scene.self.request.filename = ascii "f") = true := by
    decide +kernel
  have began : (turnsOf 2 (b.moves down).1).head?.any (fun turn =>
      turn.1.reception? = none ∧ turn.1.scene.self.direction = .read ∧
      turn.1.scene.self.peer = reader ∧ turn.1.scene.self.request =
        ⟨ascii "f", .octet, { transferSize := some 0 }⟩) = true := by
    decide +kernel
  have sent : (turnsOf 2 (b.moves down).1).any (fun turn =>
      turn.1.after.self.phase = .readEnd) = true := by
    decide +kernel
  have taken : taken (turnsOf 1 deeds) = ascii "hi" := by
    decide +kernel
  obtain ⟨⟨p, lines⟩, hm, hp⟩ := List.any_eq_true.1 received
  obtain ⟨hp, hf⟩ := of_decide_eq_true hp
  obtain ⟨turn, hlast, hend⟩ := List.any_eq_true.1 sent
  obtain ⟨-, hlasts, hreads⟩ := (uploads_last made run later).1 1 p lines hm hp
  refine ⟨deeds, (b.moves down).1, b, (b.moves down).2, run, later, taken, ?_, ?_⟩
  · rw [← hlasts, hf]
    rfl
  · cases hq : turnsOf 2 (b.moves down).1 with
    | nil =>
        rw [hq] at hlast
        cases hlast
    | cons first rest =>
        rw [hq] at began
        obtain ⟨hn, hd, hpeer, hrequest⟩ := of_decide_eq_true (p := _ ∧ _) began
        obtain ⟨hends, htells⟩ := hreads 2 first.1 first.2 rest hq hn hd (by rw [hf, hrequest])
        rw [hpeer, hrequest, taken] at htells
        rw [hpeer] at hends
        rw [← hq]
        exact ⟨hends turn hlast (of_decide_eq_true hend), htells rfl⟩

end Server

end Tftp
