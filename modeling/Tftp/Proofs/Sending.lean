import Tftp.Proofs.Blocks
import Tftp.Proofs.Contracts
import Tftp.Proofs.Outline

/-!
# Turns of a transfer that sends

`Sending i` says of a transfer that block `i` of the content is out and that its acknowledgement is
to come; block 0 is the OACK. `Read.Outcome` is all that a turn can make of such a transfer, and
`outcome_resume` proves it. Whatever happens, nothing goes to the peer but copies of one packet.

    start ──▶ Sending first ──▶ … ──▶ Sending i ──▶ Sending (i + 1) ──▶ … ──▶ the end
-/

namespace Tftp

namespace Transfer

variable {S : Storage}

/-! ## Reading -/

namespace View

def reading (v : View S) (reader : S.Reader) (store : S.State) (events : List Event) : View S :=
  { v with
    self := { v.self with reader := some reader }
    store
    deeds := v.deeds ++ events }

theorem reading_self {v : View S} {reader : S.Reader} (h : v.self.reader = some reader) :
    v.reading reader v.store [] = v := by
  obtain ⟨t, _, _, _, _⟩ := v
  obtain ⟨_, _, _, _, _, _, _, _, _, _, _, _, _, _⟩ := t
  cases h
  simp [reading]

end View

namespace Ensures

variable {source : S.Source} {v : View S} {Q : Bytes → View S → Prop}
  {E : Failure → View S → Prop} {reader : S.Reader} {rest : Bytes}

/-- One read. Where no file is open there is nothing to read, and otherwise it is up to the storage
what it brings. -/
theorem readSome_or {n : Nat} (closed : v.self.reader = none → Q [] v)
    (opened : ∀ reader, v.self.reader = some reader →
      let answer := S.read n (v.store, reader)
      let w := v.reading answer.state.2 answer.state.1 (Event.unlogged answer.events)
      match answer.result with
      | .ok bytes => Q (bytes.take n) w
      | .error f => E (.transfer f.report) w) : Ensures (Read.readSome n) v Q E := by
  rintro s rfl
  unfold Read.readSome
  cases hr : s.self.reader with
  | none => exact closed hr
  | some reader =>
      have h := opened reader hr
      cases hres : (S.read n (s.world.store, reader)).result with
      | ok bytes => simpa [hres, Scene.view, View.reading, World.deeds] using h
      | error f => simpa [hres, Scene.view, View.reading, World.deeds] using h

/-- Filling a block keeps what every read keeps, and the block is no longer than it is to be. -/
theorem fill_keeps {I : View S → Prop} {n : Nat} {chunks : List Bytes} (h : I v)
    (reads : ∀ {n v reader}, I v → v.self.reader = some reader →
      let answer := S.read n (v.store, reader)
      I (v.reading answer.state.2 answer.state.1 (Event.unlogged answer.events))) :
    Ensures (Read.fill n chunks) v
      (fun bytes w => bytes.length ≤ chunks.flatten.length + n ∧ I w) (fun _ => I) := by
  induction n, chunks using Read.fill.induct generalizing v with
  | case1 chunks =>
      rw [Read.fill]
      exact pure ⟨by simp, h⟩
  | case2 n chunks hn ih =>
      have once : Ensures (Read.readSome n) v (fun bytes w => bytes.length ≤ n ∧ I w) fun _ => I := by
        refine readSome_or (fun _ => ⟨Nat.zero_le n, h⟩) fun reader hr => ?_
        have hread := reads (n := n) h hr
        dsimp only at hread ⊢
        split
        · exact ⟨List.length_take_le .., hread⟩
        · exact hread
      rw [Read.fill, if_neg hn]
      refine bind (mono once (fun bytes w hw => ?_) fun _ _ => id)
      by_cases hb : bytes = []
      · rw [dif_pos hb]
        exact pure ⟨by simp, hw.2⟩
      · rw [dif_neg hb]
        refine mono (ih bytes hb hw.2) (fun payload w' hw' => ⟨?_, hw'.2⟩) fun _ _ => id
        have hlen := hw'.1
        simp only [List.flatten_cons, List.length_append] at hlen
        omega

/-- One read takes something off what is still to come, unless there is nothing, or it fails. -/
theorem readSome {n : Nat} (hr : v.self.reader = some reader)
    (holds : source.Holds v.store reader rest)
    (ok : ∀ bytes rest' reader' store events, rest = bytes ++ rest' → bytes.length ≤ n →
      (bytes = [] → n = 0 ∨ rest = []) → source.Holds store reader' rest' → Plain events →
      (S.read n (v.store, reader)).result = .ok bytes →
      Q bytes (v.reading reader' store events))
    (fails : ∀ f reader' store events, S.HasFailed f (store, reader') → Plain events →
      E (.transfer f.report) (v.reading reader' store events)) :
    Ensures (Read.readSome n) v Q E := by
  have plain := Plain.unlogged (source.plain n holds)
  refine readSome_or (fun h => nomatch hr.symm.trans h) fun reader' hr' => ?_
  obtain rfl := Option.some.inj (hr.symm.trans hr')
  dsimp only
  cases hres : (S.read n (v.store, reader)).result with
  | ok bytes =>
      obtain ⟨rest', he, hl, hn, hh⟩ := source.read n bytes holds hres
      have h := ok bytes rest' _ _ _ he hl hn hh plain hres
      rwa [← List.take_of_length_le hl] at h
  | error f => exact fails f _ _ _ ⟨n, _, hres, rfl⟩ plain

/-- Filling a block takes the next bytes of the content, however small the pieces are. -/
theorem fill {n : Nat} {chunks : List Bytes} (hr : v.self.reader = some reader)
    (holds : source.Holds v.store reader rest)
    (ok : ∀ reader' store events, source.Holds store reader' (rest.drop n) → Plain events →
      Q (chunks.reverse.flatten ++ rest.take n) (v.reading reader' store events))
    (fails : ∀ f reader' store events, S.HasFailed f (store, reader') → Plain events →
      E (.transfer f.report) (v.reading reader' store events)) :
    Ensures (Read.fill n chunks) v Q E := by
  induction n, chunks using Read.fill.induct generalizing v reader rest with
  | case1 chunks =>
      rw [Read.fill]
      have h := ok reader v.store [] holds (by simp [Plain])
      rw [View.reading_self hr] at h
      refine pure ?_
      simpa using h
  | case2 n chunks hn ih =>
      rw [Read.fill, if_neg hn]
      refine bind (readSome hr holds ?_ fails)
      rintro bytes rest' reader' store events rfl hl hz hh hp -
      -- A read that brings nothing ends the block, and it does so at the end of the content only.
      by_cases hb : bytes = []
      · subst hb
        obtain rfl : rest' = [] := by simpa [hn] using hz rfl
        rw [dif_pos rfl]
        exact pure (by simpa using ok reader' store events (by simpa using hh) hp)
      · rw [dif_neg hb]
        refine ih bytes hb rfl hh ?_ ?_
        · intro reader'' store' events' hh' hp'
          have h := ok reader'' store' (events ++ events') ?_ (hp.append hp')
          · simpa [View.reading, List.take_append, List.take_of_length_le hl] using h
          · simpa [List.drop_append, List.drop_of_length_le hl] using hh'
        · intro f reader'' store' events' hf hp'
          simpa [View.reading] using fails f reader'' store' (events ++ events') hf (hp.append hp')

end Ensures

/-! ## The packets of a reading transfer -/

namespace Read

/-- The number of the first packet: 0 if that is an OACK. -/
def first (terms : Terms) : Nat := if terms.oackRequired then 0 else 1

/-- The packet with the given number: the OACK, and then the blocks of the content. -/
def packet (terms : Terms) (size : Nat) (content : Bytes) : Nat → Packet
  | 0 => .oack terms.oack
  | i + 1 => .data (UInt16.ofNat (i + 1)) (blockAt size content (i + 1))

/-- The phase of a transfer whose packet with the given number is out. -/
def phaseAt (size : Nat) (content : Bytes) : Nat → Phase
  | 0 => .waitingAfterOack
  | i + 1 =>
    if i + 1 < blockCount size content then .waitingAck else .waitingLastAck

theorem first_le_one (terms : Terms) : first terms ≤ 1 := by
  unfold first
  split <;> omega

/-- A transfer that is about to begin: its file is there to be read. -/
structure Fresh (source : S.Source) (size : Nat) (content : Bytes) (v : View S) : Prop where
  phase : v.self.phase = .initial
  direction : v.self.direction = .read
  writer : v.self.writer = none
  block : v.self.block = 0
  agreed : (agreedBlockSize v.self.request.options v.self.config).toNat = size
  pos : 0 < size
  offers : source.Offers v.store v.self.peer v.self.request.filename content

/-- What a transfer and its source have in common when the blocks up to number `i` have been read:
the rest of the content is to come. -/
structure HasRead (source : S.Source) (size : Nat) (content : Bytes) (i : Nat) (t : Transfer S)
    (store : S.State) : Prop where
  direction : t.direction = .read
  writer : t.writer = none
  agreed : t.terms.blockSize.toNat = size
  pos : 0 < size
  block : t.block = UInt16.ofNat i
  reader : ∃ reader, t.reader = some reader ∧
    source.Holds store reader (content.drop (i * size))

/-- The packet with number `i` is out, and its acknowledgement is to come. -/
structure Sending (source : S.Source) (size : Nat) (content : Bytes) (i : Nat) (t : Transfer S)
    (store : S.State) : Prop extends HasRead source size content i t store where
  low : first t.terms ≤ i
  high : i ≤ blockCount size content
  phase : t.phase = phaseAt size content i
  last : t.lastPacket = some (packet t.terms size content i)

structure Failed (t : Transfer S) : Prop where
  direction : t.direction = .read
  phase : t.phase = .failed

variable {source : S.Source} {size : Nat} {content : Bytes} {i : Nat} {v v' : View S} {store : S.State}

theorem phaseAt_isOver (size : Nat) (content : Bytes) (i : Nat) :
    (phaseAt size content i).isOver = false := by
  cases i with
  | zero => rfl
  | succ i =>
      rw [phaseAt]
      split <;> rfl

theorem phaseAt_of_lt (h : i < blockCount size content) :
    phaseAt size content i = .waitingAfterOack ∨ phaseAt size content i = .waitingAck := by
  cases i with
  | zero => exact .inl rfl
  | succ i => exact .inr (if_pos h)

theorem phaseAt_blockCount (size : Nat) (content : Bytes) :
    phaseAt size content (blockCount size content) = .waitingLastAck :=
  if_neg (Nat.lt_irrefl _)

theorem phaseAt_ne_initial (size : Nat) (content : Bytes) (i : Nat) :
    phaseAt size content i ≠ .initial := by
  cases i with
  | zero => simp [phaseAt]
  | succ i =>
      rw [phaseAt]
      split <;> simp

theorem givenUp_talks (hw : v.self.writer = none) : v.Talks v.givenUp [] := by
  have : v.givenUp = v.changing fun t => { t with phase := .failed } := by
    simp [View.givenUp, View.changing, hw]
  rw [this]
  exact ⟨rfl, [], by simp [View.changing], by simp, rfl⟩

theorem givenUp_failed (hd : v.self.direction = .read) (hw : v.self.writer = none) :
    Failed v.givenUp.self ∧ v.givenUp.self.terms = v.self.terms := by
  simp [View.givenUp, View.changing, hw, hd, Failed.mk]

theorem Sending.repeats (h : Sending source size content i v.self v.store) (hr : v.Repeats v') :
    Sending source size content i v'.self v'.store := by
  obtain ⟨k, r, d, rfl⟩ := hr
  exact { h with }

theorem reading_talks {reader : S.Reader} {store : S.State} {events : List Event}
    (hp : Plain events) : v.Talks (v.reading reader store events) [] :=
  (View.plain_talks store hp).changing (fun t => { t with reader := some reader }) rfl

/-- What is being sent stays the same until it is acknowledged, or the transfer fails. -/
theorem Sending.settles {P : View S → Prop} (h : Sending source size content i v.self v.store)
    (hP : ∀ v' k, v.Talks v' (List.replicate k (packet v.self.terms size content i).encode) →
      v'.self.terms = v.self.terms →
      Sending source size content i v'.self v'.store ∨ Failed v'.self → P v') : v.Settles P where
  ends ho := by
    rw [isOver, h.phase, phaseAt_isOver] at ho
    cases ho
  live _ v' hr := by
    obtain ⟨k, ht⟩ := hr.talks h.last
    obtain ⟨r, d, hs⟩ := hr.self
    have hv := h.repeats hr
    have hterms : v'.self.terms = v.self.terms := by rw [hs]
    refine ⟨hP v' k ht hterms (.inl hv), hP _ k ?_ ?_ (.inr ?_)⟩
    · simpa using ht.trans (givenUp_talks hv.writer)
    · rw [(givenUp_failed hv.direction hv.writer).2, hterms]
    · exact (givenUp_failed hv.direction hv.writer).1

end Read

namespace Ensures

variable {source : S.Source} {size : Nat} {content : Bytes} {i : Nat} {v : View S}
  {U : Unit → View S → Prop} {E : Failure → View S → Prop}

open Read

/-- The next block is read and sent, or that fails and nothing is sent. -/
theorem sendNextBlock (h : HasRead source size content i v.self v.store)
    (low : first v.self.terms ≤ i + 1) (high : i < blockCount size content)
    (ok : ∀ v', v.Talks v' [(packet v.self.terms size content (i + 1)).encode] →
      v'.self.terms = v.self.terms → Sending source size content (i + 1) v'.self v'.store → U () v')
    (fails : ∀ f v', v.Talks v' [] → v'.self.terms = v.self.terms → v'.self.direction = .read →
      v'.self.writer = none → E f v') :
    Ensures Read.sendNextBlock v U E := by
  obtain ⟨reader, hr, holds⟩ := h.reader
  apply bind
  apply self
  rw [h.agreed]
  refine bind (fill hr holds ?_ ?_)
  · intro reader' store events hh hp
    have hpay : ([] : List Bytes).reverse.flatten ++ (content.drop (i * size)).take size =
        blockAt size content (i + 1) := by
      simp [blockAt]
    have hpacket : Packet.data (v.self.block + 1) (blockAt size content (i + 1)) =
        packet v.self.terms size content (i + 1) := by
      rw [h.block, ← ofNat_succ, packet]
    -- The length of the block tells whether it is the last one.
    have hphase : (if (blockAt size content (i + 1)).length < size then Phase.waitingLastAck
        else Phase.waitingAck) = phaseAt size content (i + 1) := by
      have hlt := @length_blockAt_lt_iff size content _ h.pos (Nat.succ_pos i) high
      by_cases hi : i + 1 = blockCount size content
      · rw [if_pos (hlt.mpr hi), phaseAt, if_neg (by omega)]
      · rw [if_neg (fun hl => hi (hlt.mp hl)), phaseAt, if_pos (by omega)]
    have hrest : source.Holds store reader' (content.drop ((i + 1) * size)) := by
      rwa [Nat.succ_mul, ← List.drop_drop]
    rw [hpay]
    refine bind (update (bind (self (bind ?_))))
    show Ensures (Transfer.send (.data (v.self.block + 1) _)) _ _ _
    rw [hpacket]
    refine send (update (ok _ ?_ rfl ?_)) fun f => ?_
    · have ht : v.Talks (v.reading reader' store events) [] := reading_talks hp
      exact (((ht.changing _ rfl).trans (View.talks_sending _ _)).changing _ rfl).changing _ rfl
    · exact {
        direction := h.direction
        writer := h.writer
        agreed := h.agreed
        pos := h.pos
        block := (congrArg (· + 1) h.block).trans (ofNat_succ i).symm
        reader := ⟨reader', rfl, hrest⟩
        low := low
        high := high
        phase := hphase
        last := rfl }
    · exact fails f _ ((reading_talks hp).changing _ rfl) rfl h.direction h.writer
  · rintro f reader' store events - hp
    exact fails _ _ (reading_talks hp) rfl h.direction h.writer

theorem handle_ignored {packet : Packet} {P : View S → Prop} (hp : packet ≠ .ack v.self.block)
    (h : P v) : Ensures (Read.handle packet) v (fun _ => P) E := by
  cases packet with
  | ack block =>
      refine bind (self ?_)
      rw [if_pos (fun hb => hp (by rw [hb]))]
      exact pure h
  | _ => exact pure h

end Ensures

/-! ## All that a turn can come to -/

namespace Read

variable {source : S.Source} {size : Nat} {content : Bytes} {i : Nat} {v v' : View S}

/-- Whether a receive brings the acknowledgement of the packet with number `i`. -/
def Acknowledges (v : View S) (i : Nat) (reception : Reception) : Prop :=
  reception.packetFrom v.self.peer = some (.ack (UInt16.ofNat i))

/-- What beginning makes of a transfer: its first packet is out, or it has failed. -/
structure Begins (source : S.Source) (size : Nat) (content : Bytes) (v v' : View S) (k : Nat) :
    Prop where
  talks : v.Talks v'
    (List.replicate k (packet v'.self.terms size content (first v'.self.terms)).encode)
  ends : 0 < k ∧ Sending source size content (first v'.self.terms) v'.self v'.store ∨ Failed v'.self

/-- What a turn makes of a transfer whose packet with number `i` is out. -/
inductive Outcome (source : S.Source) (size : Nat) (content : Bytes) (i : Nat) (v : View S)
    (reception : Reception) (v' : View S) : Prop
  /-- No acknowledgement: the packet goes out again some times. -/
  | waits (k : Nat) : ¬ Acknowledges v i reception →
      v.Talks v' (List.replicate k (packet v.self.terms size content i).encode) →
      Sending source size content i v'.self v'.store ∨ Failed v'.self →
      Outcome source size content i v reception v'
  /-- The next packet goes out at least once. -/
  | moves (k : Nat) : Acknowledges v i reception →
      i < blockCount size content →
      v.Talks v' (List.replicate (k + 1) (packet v.self.terms size content (i + 1)).encode) →
      Sending source size content (i + 1) v'.self v'.store ∨ Failed v'.self →
      Outcome source size content i v reception v'
  /-- The next packet cannot be sent. -/
  | stuck : Acknowledges v i reception → i < blockCount size content →
      v.Talks v' [] → Failed v'.self → Outcome source size content i v reception v'
  /-- That was the last packet. -/
  | ends : Acknowledges v i reception → i = blockCount size content →
      v.Talks v' [] → v'.self.phase = .readEnd → Outcome source size content i v reception v'

theorem Sending.begins {v v' : View S}
    (h : Sending source size content (first v'.self.terms) v'.self v'.store)
    (ht : v.Talks v' [(packet v'.self.terms size content (first v'.self.terms)).encode]) :
    v'.Settles fun w => ∃ k, Begins source size content v w k := by
  apply h.settles
  intro w k htw hw hor
  refine ⟨k + 1, ?_, ?_⟩
  · rw [hw]
    exact ht.trans htw
  · rw [hw]
    exact hor.imp_left fun hs => ⟨Nat.succ_pos _, hs⟩

theorem givenUp_begins {w : View S} (quiet : v.Talks w []) (hd : w.self.direction = .read)
    (hw : w.self.writer = none) : ∃ k, Begins source size content v w.givenUp k :=
  ⟨0, quiet.trans (givenUp_talks hw), .inr (givenUp_failed hd hw).1⟩

/-- Sending the first packet: the OACK if there is one, and the first block if not. -/
theorem firstPacket {w : View S} (quiet : v.Talks w [])
    (h : HasRead source size content 0 w.self w.store) :
    Ensures (if w.self.terms.oackRequired then do
        update fun t => { t with block := 0 }
        send (.oack w.self.terms.oack)
        update fun t => { t with phase := .waitingAfterOack }
      else Read.sendNextBlock) w
      (fun _ v' => v'.Settles fun w => ∃ k, Begins source size content v w k)
      (fun _ v' => ∃ k, Begins source size content v v'.givenUp k) := by
  split
  next ho =>
    have hf : first w.self.terms = 0 := if_pos ho
    have quiet := quiet.changing (fun t => { t with block := 0 }) rfl
    apply Ensures.bind
    apply Ensures.update
    apply Ensures.bind
    apply Ensures.send
    · apply Ensures.update
      apply Sending.begins
      · show Sending source size content (first w.self.terms) _ _
        rw [hf]
        exact { h with
          block := rfl
          low := Nat.le_of_eq hf
          high := Nat.zero_le _
          phase := rfl
          last := rfl }
      · show v.Talks _ [(packet w.self.terms size content (first w.self.terms)).encode]
        rw [hf]
        exact ((quiet.trans (View.talks_sending _ _)).changing _ rfl).changing _ rfl
    · exact fun f => givenUp_begins quiet h.direction h.writer
  next ho =>
    have hf : first w.self.terms = 1 := if_neg ho
    apply Ensures.sendNextBlock h (first_le_one _) blockCount_pos
    · intro v' ht hterms hs
      apply Sending.begins
      · rwa [hterms, hf]
      · rw [hterms, hf]
        exact quiet.trans ht
    · intro f v' ht _ hd hw
      exact givenUp_begins (quiet.trans ht) hd hw

/-- **The first turn of a transfer that sends.** -/
theorem begins_begin (hd : v.self.direction = .read) (hw : v.self.writer = none)
    (hb : v.self.block = 0)
    (agreed : (agreedBlockSize v.self.request.options v.self.config).toNat = size)
    (pos : 0 < size)
    (offers : source.Offers v.store v.self.peer v.self.request.filename content) :
    Ensures Transfer.begin v (fun _ v' => ∃ k, Begins source size content v v' k)
      (fun _ v' => ∃ k, Begins source size content v v' k) := by
  apply Ensures.begin
  unfold Transfer.start
  apply Ensures.bind
  apply Ensures.self
  rw [hd]
  apply Ensures.bind
  apply Ensures.self
  apply Ensures.bind
  apply Ensures.onStore
  have quiet := View.plain_talks (v := v) (S.openForReading v.self.peer v.self.request.filename
    v.store).state (Plain.unlogged offers.plain)
  have holds := offers.opens
  simp only [Storage.source]
  generalize S.openForReading v.self.peer v.self.request.filename v.store = answer at quiet holds ⊢
  obtain ⟨result, store, events⟩ := answer
  rcases result with f | _ | ⟨reader, size⟩
  · exact givenUp_begins quiet hd hw
  · exact givenUp_begins quiet hd hw
  have holds : source.Holds store reader content := holds reader size rfl
  apply Ensures.bind
  apply Ensures.update
  apply Ensures.bind
  apply Ensures.settleTerms
  swap
  · exact fun f => givenUp_begins (quiet.changing _ rfl) hd hw
  intro terms hterms
  have quiet := (quiet.changing (fun t => { t with reader := some reader }) rfl).changing
    (fun t => { t with terms }) rfl
  apply Ensures.bind
  apply Ensures.log
  apply Ensures.bind
  apply Ensures.self
  apply firstPacket quiet
  exact {
    direction := hd
    writer := hw
    agreed := (congrArg UInt16.toNat hterms).trans agreed
    pos := pos
    block := hb
    reader := ⟨reader, rfl, by simpa [View.changing] using holds⟩ }

theorem sendNextBlock_outcome {P : View S → Prop} (h : Sending source size content i v.self v.store)
    (hi : i < blockCount size content)
    (moves : ∀ v' k,
      v.Talks v' (List.replicate (k + 1) (packet v.self.terms size content (i + 1)).encode) →
      v'.self.terms = v.self.terms →
      Sending source size content (i + 1) v'.self v'.store ∨ Failed v'.self → P v')
    (stuck : ∀ v', v.Talks v' [] → v'.self.terms = v.self.terms → Failed v'.self → P v') :
    Ensures (Read.sendNextBlock >>= fun _ => Pure.pure true) v (fun _ v' => v'.Settles P)
      (fun _ v' => P v'.givenUp) := by
  refine .bind (.sendNextBlock h.toHasRead (Nat.le_succ_of_le h.low) hi ?_ ?_)
  · intro v' ht hterms hs
    refine .pure (hs.settles fun w k htw hw hor => moves w k ?_ (hw.trans hterms) hor)
    rw [List.replicate_succ]
    rw [hterms] at htw
    exact ht.trans htw
  · intro f v' ht hterms hd hw
    obtain ⟨hf, hft⟩ := givenUp_failed hd hw
    exact stuck _ (by simpa using ht.trans (givenUp_talks hw)) (hft.trans hterms) hf

/-- What becomes of the acknowledgement that is awaited: the next block goes out, or all has been
delivered. -/
theorem Sending.handle_acknowledged (h : Sending source size content i v.self v.store)
    {reception : Reception} (ha : Acknowledges v i reception) :
    Ensures (Read.handle (.ack (UInt16.ofNat i))) v
      (fun _ v' => v'.Settles fun w =>
        w.self.terms = v.self.terms ∧ Outcome source size content i v reception w)
      (fun _ v' => v'.givenUp.self.terms = v.self.terms ∧
        Outcome source size content i v reception v'.givenUp) := by
  refine .bind (.self ?_)
  rw [if_neg (by simp [h.block]), h.phase]
  rcases Nat.lt_or_ge i (blockCount size content) with hi | hi
  · have hnext := sendNextBlock_outcome
      (P := fun w => w.self.terms = v.self.terms ∧ Outcome source size content i v reception w)
      h hi (fun w k ht hw hor => ⟨hw, .moves k ha hi ht hor⟩)
      (fun w ht hw hf => ⟨hw, .stuck ha hi ht hf⟩)
    -- After the OACK and after a full block the next block goes out.
    rcases phaseAt_of_lt hi with hph | hph
    · rw [hph]
      exact hnext
    · rw [hph]
      exact hnext
  · obtain rfl : i = blockCount size content := Nat.le_antisymm h.high hi
    rw [phaseAt_blockCount]
    refine .bind (.log (.bind (.update (.pure ⟨fun _ => ⟨by simp [View.changing], ?_⟩, ?_⟩))))
    · exact fun r d => ⟨rfl, .ends ha rfl (((View.Talks.refl v).changing _ rfl).changing _ rfl) rfl⟩
    · intro ho
      cases ho

/-- **One turn of a transfer that sends.** Its terms stay as they are, and it comes to one of the
four outcomes. -/
theorem outcome_resume (h : Sending source size content i v.self v.store) (reception : Reception) :
    Ensures (Transfer.resume reception) v
      (fun _ v' => v'.self.terms = v.self.terms ∧ Outcome source size content i v reception v')
      (fun _ v' => v'.self.terms = v.self.terms ∧ Outcome source size content i v reception v') := by
  refine .resume ?_ ?_ ?_
  -- The transfer gives up, nothing of interest has come, or there is a packet to handle.
  · intro he
    obtain ⟨hf, hterms⟩ := givenUp_failed h.direction h.writer
    refine ⟨hterms, .waits 0 ?_ (by simpa using givenUp_talks h.writer) (.inr hf)⟩
    intro ha
    obtain ⟨code, message, h⟩ := he _ ha
    cases h
  · intro hn events he
    have hq := View.talks_strangers he
    have hs : Sending source size content i (v.doing events).self (v.doing events).store := h
    refine hs.settles fun w k ht hw hor => ⟨hw, .waits k ?_ (hq.trans ht) hor⟩
    rw [Acknowledges, hn]
    simp
  · intro p hp hne
    refine .handle hne (fun _ => ?_) (fun hd => nomatch hd.symm.trans h.direction)
    by_cases ha : Acknowledges v i reception
    · obtain rfl : p = .ack (UInt16.ofNat i) := Option.some.inj (hp.symm.trans ha)
      exact h.handle_acknowledged ha
    · apply Ensures.handle_ignored
      · rintro rfl
        rw [h.block] at hp
        exact ha hp
      · exact h.settles fun w k ht hw hs => ⟨hw, .waits k ha ht hs⟩

end Read

end Transfer

end Tftp
