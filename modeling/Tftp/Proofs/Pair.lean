import Tftp.Proofs.Link
import Tftp.Proofs.Progress
import Tftp.Proofs.Wire

/-!
# Two transfers that talk to each other

A transfer that sends and one that receives are each other's peers, and what they send goes over a
link in either direction. `Agreement` is what holds in every state that they can reach: the receiver
is as far as the sender or one block behind it, what is on the way is not older than that, and what
the sink holds is the beginning of the content.

    sender ── packets r … i ──▶ receiver
    sender ◀── replies i - 1 … r ── receiver         r ≤ i ≤ r + 1

Which link it is does not matter, as long as it is `Link.Unambiguous`.
-/

namespace Tftp

open Transfer

/-! ## Runs of two transfers -/

/-- A transfer that sends, one that receives, and the datagrams on the way between them. -/
structure Pair (S R : Storage) where
  sender : Scene S
  receiver : Scene R
  toReceiver : List Bytes := []
  toSender : List Bytes := []

/-- How a receive at one end goes together with the link: it brings a datagram of the other end only
if the link delivers it, and apart from that, anything. -/
inductive Arrives (link : Link) (other : Address) :
    List Bytes → Option Reception → List Bytes → Prop
  | datagram {queue rest : List Bytes} {x : Bytes} : link.Delivers queue x rest →
      Arrives link other queue (some (.datagram other x)) rest
  | other {queue : List Bytes} {reception : Option Reception} :
      (∀ x, reception ≠ some (.datagram other x)) → Arrives link other queue reception queue

theorem Arrives.none {link : Link} {other : Address} {queue : List Bytes} :
    Arrives link other queue none queue :=
  .other fun _ h => nomatch h

namespace Pair

variable {S R : Storage}

/-- One step of two transfers with the addresses `a` and `b`: a turn of one of them, or something
that happens on the way. -/
inductive Step (link : Link) (a b : Address) : Pair S R → Pair S R → Prop
  | sender {p : Pair S R} {s : Scene S} {reception : Option Reception} {events : List Event}
      {rest : List Bytes} : Arrives link b p.toSender reception rest →
      Turn p.sender reception events s →
      Step link a b p { p with
        sender := s, toReceiver := p.toReceiver ++ sentTo b events, toSender := rest }
  | receiver {p : Pair S R} {s : Scene R} {reception : Option Reception} {events : List Event}
      {rest : List Bytes} : Arrives link a p.toReceiver reception rest →
      Turn p.receiver reception events s →
      Step link a b p { p with
        receiver := s, toReceiver := rest, toSender := p.toSender ++ sentTo a events }
  | toReceiver {p : Pair S R} {queue : List Bytes} : link.Drifts p.toReceiver queue →
      Step link a b p { p with toReceiver := queue }
  | toSender {p : Pair S R} {queue : List Bytes} : link.Drifts p.toSender queue →
      Step link a b p { p with toSender := queue }

inductive Reaches (link : Link) (a b : Address) (start : Pair S R) : Pair S R → Prop
  | start : Reaches link a b start start
  | step {p p' : Pair S R} : Reaches link a b start p → Step link a b p p' →
      Reaches link a b start p'

end Pair

/-! ## Reading what arrives -/

theorem Reception.eq_of_packetFrom {reception : Reception} {peer : Address} {packet : Packet}
    (h : reception.packetFrom peer = some packet) : ∃ x, reception = .datagram peer x := by
  cases reception with
  | datagram sender x =>
      by_cases hs : sender = peer
      · exact ⟨x, by rw [hs]⟩
      · simp [packetFrom, cut, hs] at h
  | _ => cases h

theorem Reception.packetFrom_datagram (peer : Address) (x : Bytes) :
    (datagram peer x).packetFrom peer = (Packet.parse (x.take Network.maxDatagram)).toOption :=
  if_pos rfl

/-- The packet with the given number, under some terms. -/
def IsPacket (size : Nat) (content : Bytes) (j : Nat) (x : Bytes) : Prop :=
  ∃ terms, x = (Read.packet terms size content j).encode

/-- The reply with the given number, under some terms. -/
def IsReply (j : Nat) (x : Bytes) : Prop := ∃ terms, x = (Write.reply terms j).encode

theorem packetFrom_oack {peer : Address} {options : Options} {packet : Packet}
    (h : (Reception.datagram peer (Packet.oack options).encode).packetFrom peer = some packet) :
    ∃ options', packet = .oack options' := by
  rw [Reception.packetFrom_datagram] at h
  cases hp : Packet.parse ((Packet.oack options).encode.take Network.maxDatagram) with
  | error e =>
      rw [hp] at h
      cases h
  | ok packet' =>
      rw [hp] at h
      cases h
      exact Packet.parse_take_oack hp

/-- A packet that is read as a block is the block with its number. -/
theorem IsPacket.eq_blockAt {size j : Nat} {content x payload : Bytes} {peer : Address}
    {block : UInt16} (fits : size ≤ 65464) (h : IsPacket size content j x)
    (hd : (Reception.datagram peer x).packetFrom peer = some (.data block payload)) :
    UInt16.ofNat j = block ∧ payload = blockAt size content j := by
  obtain ⟨terms, rfl⟩ := h
  cases j with
  | zero =>
      obtain ⟨options, ho⟩ := packetFrom_oack hd
      cases ho
  | succ j =>
      -- A datagram that is cut short would be read as a shorter block, but this one fits.
      have hl : (Read.packet terms size content (j + 1)).encode.length ≤ Network.maxDatagram := by
        have := @length_blockAt_le size content (j + 1)
        rw [Read.packet, Packet.length_data]
        show _ ≤ 65507
        omega
      rw [Reception.packetFrom_datagram, List.take_of_length_le hl, Read.packet,
        Packet.parse_data] at hd
      cases hd
      exact ⟨rfl, rfl⟩

theorem IsReply.eq_block {j : Nat} {x : Bytes} {peer : Address} {block : UInt16}
    (h : IsReply j x) (hd : (Reception.datagram peer x).packetFrom peer = some (.ack block)) :
    UInt16.ofNat j = block := by
  obtain ⟨terms, rfl⟩ := h
  have hack : ∀ n, (Reception.datagram peer (Packet.ack n).encode).packetFrom peer =
      some (.ack block) → n = block := by
    intro n hd
    rw [Reception.packetFrom_datagram, List.take_of_length_le (by
      show 4 ≤ 65507
      omega), Packet.parse_ack] at hd
    cases hd
    rfl
  cases j with
  | zero =>
      rw [Write.reply] at hd
      split at hd
      · obtain ⟨options, ho⟩ := packetFrom_oack hd
        cases ho
      · exact hack 0 hd
  | succ j => exact hack _ hd

/-! ## What holds in every state -/

namespace Pair

variable {S R : Storage}

/-- What is known about two transfers of which the sender has packet `i` out and the receiver has
acknowledged `r` blocks. -/
structure Agreement {link : Link} {size : Nat} {content : Bytes}
    (u : link.Unambiguous (blockCount size content)) (source : S.Source) (sink : R.Sink)
    (a b : Address) (p : Pair S R) (i r : Nat) : Prop where
  sender : Read.Progress source size content i p.sender.view
  receiver : Write.Progress sink size content r p.receiver.view
  senderPeer : p.sender.view.self.peer = b
  receiverPeer : p.receiver.view.self.peer = a
  low : r ≤ i
  high : i ≤ r + 1
  toReceiver : u.Holds (IsPacket size content) r i p.toReceiver
  toSender : u.Holds IsReply (i - 1) r p.toSender
  ended : p.sender.view.self.phase = .readEnd → r = blockCount size content

variable {link : Link} {size : Nat} {content : Bytes} {u : link.Unambiguous (blockCount size content)}
  {source : S.Source} {sink : R.Sink} {a b : Address} {p : Pair S R} {i r : Nat}

/-- An acknowledgement of the packet that is out has come from the receiver, which has stored the
block. What follows it is no older. -/
theorem Agreement.acknowledged (h : Agreement u source sink a b p i r)
    {reception : Option Reception} {rest : List Bytes}
    (arrives : Arrives link b p.toSender reception rest) :
    u.Holds IsReply (i - 1) r rest ∧
    (Read.Acknowledged p.sender.view i reception → i = r ∧ u.Holds IsReply i r rest) := by
  cases arrives with
  | other hno =>
      refine ⟨h.toSender, ?_⟩
      rintro ⟨e, rfl, ha⟩
      rw [Read.Acknowledges, h.senderPeer] at ha
      obtain ⟨x, rfl⟩ := Reception.eq_of_packetFrom ha
      exact absurd rfl (hno x)
  | datagram hd =>
      obtain ⟨holds, j, hj, hx, hnext⟩ := u.deliver h.toSender hd
      refine ⟨holds, ?_⟩
      rintro ⟨e, he, ha⟩
      cases he
      rw [Read.Acknowledges, h.senderPeer] at ha
      have hlow := h.low
      have hi := h.sender.le
      obtain ⟨rfl, holds'⟩ := hnext i (by omega) (by omega) (by omega) hi (by omega)
        (hx.eq_block ha)
      exact ⟨by omega, holds'⟩

/-- The block that is to come is the right one when it comes. What follows it is no older. -/
theorem Agreement.taken (h : Agreement u source sink a b p i r) (fits : size ≤ 65464)
    {reception : Option Reception} {rest : List Bytes}
    (arrives : Arrives link a p.toReceiver reception rest) :
    u.Holds (IsPacket size content) r i rest ∧
    (r < blockCount size content → ∀ e payload, reception = some e →
      Write.Takes p.receiver.view r payload e → payload = blockAt size content (r + 1) ∧
        r + 1 ≤ i ∧ u.Holds (IsPacket size content) (r + 1) i rest) := by
  cases arrives with
  | other hno =>
      refine ⟨h.toReceiver, ?_⟩
      rintro - e payload rfl ht
      rw [Write.Takes, h.receiverPeer] at ht
      obtain ⟨x, rfl⟩ := Reception.eq_of_packetFrom ht
      exact absurd rfl (hno x)
  | datagram hd =>
      obtain ⟨holds, j, hj, hx, hnext⟩ := u.deliver h.toReceiver hd
      refine ⟨holds, ?_⟩
      intro hr e payload he ht
      cases he
      rw [Write.Takes, h.receiverPeer] at ht
      obtain ⟨hblock, hpayload⟩ := hx.eq_blockAt fits ht
      obtain ⟨rfl, holds'⟩ := hnext (r + 1) (Nat.le_succ r) (Nat.le_refl _) h.high hr h.sender.le
        hblock
      exact ⟨hpayload, hj, holds'⟩

theorem Agreement.senderTurn (h : Agreement u source sink a b p i r) {s : Scene S}
    {reception : Option Reception} {events : List Event} {rest : List Bytes}
    (arrives : Arrives link b p.toSender reception rest) (turn : Turn p.sender reception events s) :
    ∃ i', Agreement u source sink a b { p with
      sender := s, toReceiver := p.toReceiver ++ sentTo b events, toSender := rest } i' r := by
  obtain ⟨holds, acked⟩ := h.acknowledged arrives
  obtain ⟨i', moves⟩ := h.sender.moves turn
  obtain ⟨terms, k, hsent⟩ := moves.sent
  rw [h.senderPeer] at hsent
  have hlow := h.low
  have hhigh := h.high
  -- The sender moves on only when the receiver has what is out, so it gets one block ahead at most.
  have hstep : i ≤ i' ∧ i' ≤ r + 1 ∧ u.Holds IsReply (i' - 1) r rest := by
    rcases moves.step with rfl | ⟨rfl, rfl, -⟩ | ⟨rfl, ha⟩
    · exact ⟨Nat.le_refl _, hhigh, holds⟩
    · exact ⟨Nat.le_succ _, Nat.succ_le_succ (Nat.zero_le _), holds⟩
    · obtain ⟨rfl, holds'⟩ := acked ha
      exact ⟨Nat.le_succ _, Nat.le_refl _, holds'⟩
  obtain ⟨hle, hhigh', holds'⟩ := hstep
  refine ⟨i', moves.progress, h.receiver, moves.peer.trans h.senderPeer, h.receiverPeer,
    Nat.le_trans hlow hle, hhigh', ?_, holds', ?_⟩
  · show u.Holds _ _ _ (p.toReceiver ++ sentTo b events)
    rw [hsent]
    exact u.sendAll h.toReceiver hle (Nat.le_trans hlow hle) ⟨terms, rfl⟩ k
  -- The last acknowledgement comes from a receiver that has everything.
  · intro hp
    rcases moves.ended hp with hp | ⟨hi, ha⟩
    · exact h.ended hp
    · exact (acked ha).1.symm.trans hi

theorem Agreement.receiverTurn (h : Agreement u source sink a b p i r) (pos : 0 < size)
    (fits : size ≤ 65464) {s : Scene R} {reception : Option Reception} {events : List Event}
    {rest : List Bytes} (arrives : Arrives link a p.toReceiver reception rest)
    (turn : Turn p.receiver reception events s) :
    ∃ r', Agreement u source sink a b { p with
      receiver := s, toReceiver := rest, toSender := p.toSender ++ sentTo a events } i r' := by
  obtain ⟨holds, took⟩ := h.taken fits arrives
  obtain ⟨r', moves⟩ := h.receiver.moves pos turn fun hr e payload he ht =>
    (took hr e payload he ht).1
  obtain ⟨terms, k, hsent⟩ := moves.sent
  rw [h.receiverPeer] at hsent
  have hlow := h.low
  have hhigh := h.high
  have hr := moves.progress.le
  -- The receiver takes nothing but what has been sent, so it does not get ahead.
  have hstep : r ≤ r' ∧ r' ≤ i ∧ u.Holds (IsPacket size content) r' i rest := by
    rcases moves.step with rfl | ⟨rfl, e, payload, he, ht⟩
    · exact ⟨Nat.le_refl _, hlow, holds⟩
    · obtain ⟨-, hle, holds'⟩ := took hr e payload he ht
      exact ⟨Nat.le_succ _, hle, holds'⟩
  obtain ⟨hle, hlow', holds'⟩ := hstep
  refine ⟨r', h.sender, moves.progress, h.senderPeer, moves.peer.trans h.receiverPeer, hlow',
    by omega, holds', ?_, ?_⟩
  · show u.Holds _ _ _ (p.toSender ++ sentTo a events)
    rw [hsent]
    exact u.sendAll h.toSender hle (by omega) ⟨terms, rfl⟩ k
  · intro hp
    have := h.ended hp
    omega

theorem Agreement.step (h : Agreement u source sink a b p i r) (pos : 0 < size)
    (fits : size ≤ 65464) {p' : Pair S R} (step : Step link a b p p') :
    ∃ i' r', Agreement u source sink a b p' i' r' := by
  cases step with
  | sender arrives turn =>
      obtain ⟨i', h⟩ := h.senderTurn arrives turn
      exact ⟨i', r, h⟩
  | receiver arrives turn =>
      obtain ⟨r', h⟩ := h.receiverTurn pos fits arrives turn
      exact ⟨i, r', h⟩
  | toReceiver hd => exact ⟨i, r, { h with toReceiver := u.drift h.toReceiver hd }⟩
  | toSender hd => exact ⟨i, r, { h with toSender := u.drift h.toSender hd }⟩

/-! ## What two transfers achieve -/

/-- What two transfers have achieved, wherever they are. -/
structure Faithful (sink : R.Sink) (content : Bytes) (p : Pair S R) : Prop where
  /-- The sink holds the beginning of the content. -/
  begins : ∀ writer, p.receiver.self.writer = some writer →
    sink.content (p.receiver.world.store, writer) <+: content
  /-- It holds all of the content and is finished if the receiver is complete. -/
  complete : p.receiver.self.phase = .writeEnd → ∃ writer, p.receiver.self.writer = some writer ∧
    sink.content (p.receiver.world.store, writer) = content ∧
    sink.IsFinished (p.receiver.world.store, writer)
  /-- The receiver is complete if the sender is. -/
  together : p.sender.self.phase = .readEnd → p.receiver.self.phase = .writeEnd

theorem Agreement.faithful (h : Agreement u source sink a b p i r) : Faithful sink content p := by
  cases h.receiver with
  | fresh hf hr =>
      have hw : p.receiver.self.writer = none := hf.writer
      have hp : p.receiver.self.phase = .initial := hf.phase
      refine ⟨?_, ?_, ?_⟩
      · intro writer hw'
        cases hw.symm.trans hw'
      · intro hp'
        cases hp.symm.trans hp'
      · intro hs
        have := h.ended hs
        have := @blockCount_pos size content
        omega
  | receiving writer hrec hr hw hopen hc =>
      have hp : p.receiver.self.phase = .waitingData := hrec.phase
      refine ⟨?_, ?_, ?_⟩
      · intro writer' hw'
        obtain rfl : writer = writer' := Option.some.inj (hw.symm.trans hw')
        rw [show sink.content (p.receiver.world.store, writer) = _ from hc]
        exact List.take_prefix ..
      · intro hp'
        cases hp.symm.trans hp'
      · intro hs
        have := h.ended hs
        omega
  | failed hp hr hc =>
      refine ⟨hc, ?_, ?_⟩
      · intro hp'
        cases hp.symm.trans hp'
      · intro hs
        have := h.ended hs
        omega
  | ended writer hp hr hw hf hc =>
      refine ⟨?_, fun _ => ⟨writer, hw, hc, hf⟩, fun _ => hp⟩
      intro writer' hw'
      obtain rfl : writer = writer' := Option.some.inj (hw.symm.trans hw')
      have hc : sink.content (p.receiver.world.store, writer) = content := hc
      exact hc ▸ List.prefix_refl _

/-! ## From the beginning -/

/-- One of two parties before its transfer begins. -/
structure Party (S : Storage) where
  address : Address
  request : Request
  config : Config := {}
  heedsStop : Bool := true
  world : World S

def Party.scene (x : Party S) (direction : Direction) (peer : Address) : Scene S :=
  ⟨.new S direction x.request peer ⟨x.address⟩ x.config x.heedsStop, x.world⟩

def Party.blockSize (x : Party S) : Nat := (agreedBlockSize x.request.options x.config).toNat

/-- Two parties that are each other's peers, before anything has happened. -/
def start (x : Party S) (y : Party R) : Pair S R where
  sender := x.scene .read y.address
  receiver := y.scene .write x.address

variable {x : Party S} {y : Party R}

/-- Whatever two parties can reach, they agree. -/
theorem agreement_of_reaches (u : link.Unambiguous (blockCount size content)) (sink : R.Sink)
    (offers : source.Offers x.world.store y.address x.request.filename content)
    (hx : x.blockSize = size) (hy : y.blockSize = size) (pos : 0 < size)
    (reaches : Reaches link x.address y.address (start x y) p) :
    ∃ i r, Agreement u source sink x.address y.address p i r := by
  have fits : size ≤ 65464 := by
    rw [← hx]
    exact agreedBlockSize_le ..
  induction reaches with
  | start =>
      have hsender : Read.Fresh source size content (start x y).sender.view :=
        ⟨rfl, rfl, rfl, rfl, hx, pos, offers⟩
      have hreceiver : Write.Fresh size (start x y).receiver.view := ⟨rfl, rfl, rfl, hy⟩
      exact ⟨0, 0, .fresh hsender rfl, .fresh hreceiver rfl, rfl, rfl, Nat.le_refl _, Nat.zero_le _,
        u.nil, u.nil, nofun⟩
  | step _ step ih =>
      obtain ⟨i, r, h⟩ := ih
      exact h.step pos fits step

/-- **Two transfers agree over an unreliable network.** Datagrams may be lost, repeated, delayed and
reordered, as long as the file has no more blocks than there are block numbers. -/
theorem faithful_unordered (sink : R.Sink)
    (offers : source.Offers x.world.store y.address x.request.filename content)
    (hx : x.blockSize = size) (hy : y.blockSize = size) (pos : 0 < size)
    (few : content.length / size + 1 ≤ 65535)
    (reaches : Reaches .unordered x.address y.address (start x y) p) :
    Faithful sink content p := by
  obtain ⟨i, r, h⟩ := agreement_of_reaches (Link.unorderedUnambiguous few) sink offers hx hy pos
    reaches
  exact h.faithful

/-- **Block numbers may wrap around where the order is kept.** Datagrams may be lost and repeated in
place, and the file may be as long as it likes. -/
theorem faithful_inOrder (sink : R.Sink)
    (offers : source.Offers x.world.store y.address x.request.filename content)
    (hx : x.blockSize = size) (hy : y.blockSize = size) (pos : 0 < size)
    (reaches : Reaches .inOrder x.address y.address (start x y) p) : Faithful sink content p := by
  obtain ⟨i, r, h⟩ := agreement_of_reaches (Link.inOrderUnambiguous _) sink offers hx hy pos reaches
  exact h.faithful

def shelfSender : Party (Storage.shelf (List.replicate 520 65)) where
  address := ⟨⟨10, 0, 0, 1⟩, 40000⟩
  request := ⟨ascii "letters", .octet, { blockSize := some 512 }⟩
  world := { store := () }

def shelfReceiver : Party (Storage.shelf []) where
  address := ⟨⟨10, 0, 0, 2⟩, 40000⟩
  request := ⟨ascii "letters", .octet, {}⟩
  world := { store := () }

theorem faithful_unordered_shelf : ∃ p,
    Reaches .unordered shelfSender.address shelfReceiver.address (start shelfSender shelfReceiver) p ∧
    p.sender.self.phase = .readEnd ∧
    Faithful (Storage.shelfSink []) (List.replicate 520 65) p := by
  let start := start shelfSender shelfReceiver
  have h₁ : Reaches .unordered shelfSender.address shelfReceiver.address start _ :=
    .step .start (.sender .none (.begins rfl))
  have h₂ := h₁.step (.receiver .none (.begins rfl))
  have h₃ := h₂.step (.sender (.datagram (x := (Packet.ack 0).encode) ⟨by decide +kernel, rfl⟩)
    (.resumes _ (by decide +kernel)))
  have h₄ := h₃.step (.receiver
    (.datagram (x := (Packet.data 1 (List.replicate 512 65)).encode) ⟨by decide +kernel, rfl⟩)
    (.resumes _ (by decide +kernel)))
  have h₅ := h₄.step (.sender (.datagram (x := (Packet.ack 1).encode) ⟨by decide +kernel, rfl⟩)
    (.resumes _ (by decide +kernel)))
  have h₆ := h₅.step (.receiver
    (.datagram (x := (Packet.data 2 (List.replicate 8 65)).encode) ⟨by decide +kernel, rfl⟩)
    (.resumes _ (by decide +kernel)))
  have h₇ := h₆.step (.sender (.datagram (x := (Packet.ack 2).encode) ⟨by decide +kernel, rfl⟩)
    (.resumes _ (by decide +kernel)))
  have hx : shelfSender.blockSize = 512 := rfl
  have hy : shelfReceiver.blockSize = 512 := rfl
  have few : (List.replicate 520 65 : Bytes).length / 512 + 1 ≤ 65535 := by
    rw [List.length_replicate]
    decide
  refine ⟨_, h₇, by decide +kernel, ?_⟩
  exact faithful_unordered _ (Storage.shelf_offers _ () _ _) hx hy (by decide) few h₇

theorem faithful_inOrder_shelf : ∃ p,
    Reaches .inOrder shelfSender.address shelfReceiver.address (start shelfSender shelfReceiver) p ∧
    p.sender.self.phase = .readEnd ∧
    Faithful (Storage.shelfSink []) (List.replicate 520 65) p := by
  let start := start shelfSender shelfReceiver
  let ack : UInt16 → Bytes := fun block => (Packet.ack block).encode
  let data : UInt16 → Nat → Bytes := fun block n => (Packet.data block (List.replicate n 65)).encode
  have h₁ : Reaches .inOrder shelfSender.address shelfReceiver.address start _ :=
    .step .start (.sender .none (.begins rfl))
  have h₂ := h₁.step (.receiver .none (.begins rfl))
  have h₃ := h₂.step (.sender (.datagram (show _ = ack 0 :: [] by decide +kernel))
    (.resumes _ (by decide +kernel)))
  -- The OACK gets lost, so that the first block is next, and the first block comes twice.
  have h₄ := h₃.step (.toReceiver (show Link.inOrder.Drifts _ [data 1 512] from
    ⟨[], (Packet.oack { blockSize := some 512 }).encode, [data 1 512], by decide +kernel, .inl rfl⟩))
  have h₅ := h₄.step (.toReceiver (show Link.inOrder.Drifts _ [data 1 512, data 1 512] from
    ⟨[], data 1 512, [], rfl, .inr rfl⟩))
  have h₆ := h₅.step (.receiver (.datagram (show _ = data 1 512 :: [data 1 512] by decide +kernel))
    (.resumes _ (by decide +kernel)))
  have h₇ := h₆.step (.sender (.datagram (show _ = ack 1 :: [] by decide +kernel))
    (.resumes _ (by decide +kernel)))
  have h₈ := h₇.step (.receiver (.datagram (show _ = data 1 512 :: [data 2 8] by decide +kernel))
    (.resumes _ (by decide +kernel)))
  have h₉ := h₈.step (.receiver (.datagram (show _ = data 2 8 :: [] by decide +kernel))
    (.resumes _ (by decide +kernel)))
  have h₁₀ := h₉.step (.sender (.datagram (show _ = ack 1 :: [ack 2] by decide +kernel))
    (.resumes _ (by decide +kernel)))
  have h₁₁ := h₁₀.step (.sender (.datagram (show _ = ack 2 :: [] by decide +kernel))
    (.resumes _ (by decide +kernel)))
  have hx : shelfSender.blockSize = 512 := rfl
  have hy : shelfReceiver.blockSize = 512 := rfl
  refine ⟨_, h₁₁, by decide +kernel, ?_⟩
  exact faithful_inOrder _ (Storage.shelf_offers _ () _ _) hx hy (by decide) h₁₁

end Pair

end Tftp
