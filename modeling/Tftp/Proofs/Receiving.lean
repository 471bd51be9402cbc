import Tftp.Proofs.Blocks
import Tftp.Proofs.Contracts
import Tftp.Proofs.Outline

/-!
# Turns of a transfer that receives

`Receiving n` says of a transfer that `n` blocks have been stored and acknowledged and that block
`n + 1` is to come; acknowledging no block means to acknowledge the request. `Write.Outcome` is all
that a turn can make of such a transfer, and `outcome_resume` proves it. A block reaches the storage
only if it is the one that is to come and is not too large, and its acknowledgement goes out only
after the storage has taken it.

    start ──▶ Receiving 0 ──▶ … ──▶ Receiving n ──▶ Receiving (n + 1) ──▶ … ──▶ the end
-/

namespace Tftp

/-! ## Storing a block -/

namespace Effect

variable {σ : Type}

def skip : Effect σ Unit := fun state => .pure () state

/-- One operation and then another, which is not made if the first one fails. -/
def andThen (a b : Effect σ Unit) : Effect σ Unit := fun state =>
  match (a state).result with
  | .ok () =>
    { b (a state).state with events := (a state).events ++ (b (a state).state).events }
  | .error _ => a state

end Effect

namespace Storage

/-- Stores a payload. There is nothing to do for an empty one. -/
def put (S : Storage) (payload : Bytes) : Effect (S.State × S.Writer) Unit :=
  if payload ≠ [] then S.write payload else .skip

/-- Stores all there is to store of a block: its payload, and that it was the last. -/
def keep (S : Storage) (payload : Bytes) (isLast : Bool) : Effect (S.State × S.Writer) Unit :=
  (S.put payload).andThen (if isLast then S.finish else .skip)

end Storage

namespace Transfer

variable {S : Storage}

namespace View

variable {v v' w : View S} {writer : S.Writer} {a b : Effect (S.State × S.Writer) Unit}

theorem storing_skip (hw : v.self.writer = some writer) : v.storing .skip writer = v := by
  obtain ⟨t, _, _, _, _⟩ := v
  obtain ⟨_, _, _, _, _, _, _, _, _, _, _, _, _, _⟩ := t
  cases hw
  simp [storing, Effect.skip, Answer.pure]

theorem storing_andThen (h : (a (v.store, writer)).result = .ok ()) :
    (v.storing a writer).storing b (a (v.store, writer)).state.2 =
      v.storing (a.andThen b) writer := by
  simp [storing, Effect.andThen, h]

theorem storing_andThen_error {f : Failure} (h : (a (v.store, writer)).result = .error f) :
    v.storing a writer = v.storing (a.andThen b) writer := by
  simp [storing, Effect.andThen, h]

/-- Between two views a transfer only talks: it leaves the storage alone. -/
structure Says (v v' : View S) (sent : List Bytes) : Prop extends Talks v v' sent where
  store : v'.store = v.store
  writer : v'.self.writer = v.self.writer
  terms : v'.self.terms = v.self.terms

theorem Says.refl (v : View S) : v.Says v [] := ⟨.refl v, rfl, rfl, rfl⟩

theorem Says.trans {x y : List Bytes} (h : v.Says v' x) (h' : v'.Says w y) :
    v.Says w (x ++ y) :=
  ⟨h.toTalks.trans h'.toTalks, h'.store.trans h.store, h'.writer.trans h.writer,
    h'.terms.trans h.terms⟩

theorem Says.changing {sent : List Bytes} (h : v.Says v' sent) (f : Transfer S → Transfer S)
    (hp : (f v'.self).peer = v'.self.peer) (hw : (f v'.self).writer = v'.self.writer)
    (ht : (f v'.self).terms = v'.self.terms) : v.Says (v'.changing f) sent :=
  ⟨h.toTalks.changing f hp, h.store, hw.trans h.writer, ht.trans h.terms⟩

theorem says_sending (v : View S) (packet : Packet) :
    v.Says (v.doing [v.sending packet]) [packet.encode] :=
  ⟨talks_sending v packet, rfl, rfl, rfl⟩

theorem Repeats.says {packet : Packet} (h : v.Repeats v')
    (hl : v.self.lastPacket = some packet) : ∃ k, v.Says v' (List.replicate k packet.encode) := by
  obtain ⟨k, ht⟩ := h.talks hl
  obtain ⟨r, d, hs⟩ := h.self
  exact ⟨k, ht, h.store, by rw [hs], by rw [hs]⟩

/-- The view after a file to write to has been asked for under the given terms. -/
def opened (v : View S) (terms : Terms) (writer : Option S.Writer) : View S :=
  let answer := S.openForWriting v.self.peer v.self.request.filename terms.transferSize v.store
  { v with
    self := { v.self with terms, writer }
    store := answer.state
    deeds := v.deeds ++ Event.unlogged answer.events }

theorem opened_talks {terms : Terms} {opened : Option S.Writer}
    (h : ∀ e ∈ (S.openForWriting v.self.peer v.self.request.filename terms.transferSize
      v.store).events, e.isPlain = true) : v.Talks (v.opened terms opened) [] :=
  (plain_talks _ (Plain.unlogged h)).changing (fun t => { t with terms, writer := opened }) rfl

/-- A transfer goes on, or it gives up. -/
def Ends (v v' : View S) : Prop := v' = v ∨ v' = v.givenUp

theorem givenUp_of_none (hw : v.self.writer = none) :
    v.givenUp = v.changing fun t => { t with phase := .failed } := by
  simp [givenUp, changing, hw]

theorem givenUp_of_some (hw : v.self.writer = some writer) :
    v.givenUp = (v.changing fun t => { t with phase := .failed }).storing S.abort writer := by
  simp [givenUp, changing, hw]

theorem givenUp_self (v : View S) : v.givenUp.self.peer = v.self.peer ∧
    v.givenUp.self.terms = v.self.terms ∧ v.givenUp.self.phase = .failed := by
  cases hw : v.self.writer with
  | none =>
      rw [givenUp_of_none hw]
      exact ⟨rfl, rfl, rfl⟩
  | some writer =>
      rw [givenUp_of_some hw]
      exact ⟨rfl, rfl, rfl⟩

end View

namespace Ensures

variable {v : View S} {U : Unit → View S → Prop} {Q : Bool → View S → Prop}
  {E : Failure → View S → Prop} {writer : S.Writer} {payload : Bytes}

theorem store {effect : Effect (S.State × S.Writer) Unit} (hw : v.self.writer = some writer)
    (ok : (effect (v.store, writer)).result = .ok () → U () (v.storing effect writer))
    (fails : ∀ f f', (effect (v.store, writer)).result = .error f' →
      E f (v.storing effect writer)) : Ensures (Write.store effect) v U E := by
  apply tryCatch
  apply onWriter
  · intro hn
    cases hn.symm.trans hw
  · intro writer' hw'
    obtain rfl : writer = writer' := Option.some.inj (hw.symm.trans hw')
    split
    next hr => exact ok hr
    next f hr => exact throw (fails _ f hr)

/-- What follows when the payload of a block has been stored, or when it had none. -/
theorem acknowledge {t : Transfer S} {block : UInt16}
    (hput : (S.put payload (v.store, writer)).result = .ok ())
    (ok : let isLast := decide (payload.length < t.terms.blockSize.toNat)
      let v' := v.storing (S.keep payload isLast) writer
      (S.keep payload isLast (v.store, writer)).result = .ok () →
      Q true ((v'.doing [v'.sending (.ack block)]).changing fun t =>
        if isLast then { t with lastPacket := some (.ack block), phase := .writeEnd }
        else { t with lastPacket := some (.ack block), block := t.block + 1 }))
    (fails : ∀ f, E f (v.storing
      (S.keep payload (decide (payload.length < t.terms.blockSize.toNat))) writer)) :
    Ensures (Write.acknowledge t block payload) (v.storing (S.put payload) writer) Q E := by
  unfold Write.acknowledge
  by_cases hl : payload.length < t.terms.blockSize.toNat
  · rw [if_pos hl]
    simp only [hl, decide_true, if_true] at ok fails
    have hk : S.keep payload true = (S.put payload).andThen S.finish := rfl
    rw [hk] at ok fails
    rw [← View.storing_andThen hput] at ok fails
    apply bind
    apply store rfl
    · intro hfin
      apply bind
      apply send
      · apply bind
        apply update
        apply bind
        apply log
        apply pure
        apply ok
        simp only [Effect.andThen, hput]
        exact hfin
      · exact fails
    · intro f f' _
      exact fails f
  · rw [if_neg hl]
    simp only [hl, decide_false] at ok fails
    have hk : v.storing (S.keep payload false) writer = v.storing (S.put payload) writer := by
      rw [Storage.keep, ← View.storing_andThen hput]
      exact View.storing_skip rfl
    rw [hk] at ok fails
    apply bind
    apply send
    · apply bind
      apply update
      apply pure
      apply ok
      simp only [Storage.keep, Effect.andThen, hput]
      rfl
    · exact fails

/-- A block that fits is stored and acknowledged. -/
theorem take (hw : v.self.writer = some writer)
    (fits : payload.length ≤ v.self.terms.blockSize.toNat)
    (ok : let isLast := decide (payload.length < v.self.terms.blockSize.toNat)
      let v' := v.storing (S.keep payload isLast) writer
      (S.keep payload isLast (v.store, writer)).result = .ok () →
      Q true ((v'.doing [v'.sending (.ack v.self.block)]).changing fun t =>
        if isLast then { t with lastPacket := some (.ack v.self.block), phase := .writeEnd }
        else { t with lastPacket := some (.ack v.self.block), block := t.block + 1 }))
    (fails : ∀ f, E f (v.storing
      (S.keep payload (decide (payload.length < v.self.terms.blockSize.toNat))) writer)) :
    Ensures (Write.take v.self v.self.block payload) v Q E := by
  unfold Write.take
  rw [if_neg (Nat.not_lt.mpr fits)]
  -- An empty payload is not written, but it is acknowledged like any other.
  have tail := fun hput => acknowledge hput ok fails
  by_cases hp : payload = []
  · have hput : S.put payload = .skip := if_neg (not_not.mpr hp)
    rw [if_neg (not_not.mpr hp)]
    rw [hput, View.storing_skip hw] at tail
    exact tail rfl
  · have hput : S.put payload = S.write payload := if_pos hp
    rw [if_pos hp]
    rw [hput] at tail
    apply bind
    apply store hw
    · exact tail
    · intro f f' hr
      rw [View.storing_andThen_error hr, ← hput]
      exact fails f

end Ensures

/-! ## The state of a receiving transfer -/

namespace Write

/-- The packet that acknowledges so many blocks; no block at all, the request. -/
def reply (terms : Terms) : Nat → Packet
  | 0 => if terms.oackRequired then .oack terms.oack else .ack 0
  | n + 1 => .ack (UInt16.ofNat (n + 1))

structure Fresh (size : Nat) (v : View S) : Prop where
  phase : v.self.phase = .initial
  direction : v.self.direction = .write
  writer : v.self.writer = none
  agreed : (agreedBlockSize v.self.request.options v.self.config).toNat = size

/-- So many blocks have been acknowledged, and the next one is to come. -/
structure Receiving (size n : Nat) (t : Transfer S) : Prop where
  direction : t.direction = .write
  phase : t.phase = .waitingData
  agreed : t.terms.blockSize.toNat = size
  block : t.block = UInt16.ofNat (n + 1)
  last : t.lastPacket = some (reply t.terms n)
  writer : ∃ writer, t.writer = some writer

variable {size n : Nat} {v w : View S}

/-- Whether a receive brings the block that is to come. -/
def Takes (v : View S) (n : Nat) (payload : Bytes) (reception : Reception) : Prop :=
  reception.packetFrom v.self.peer = some (.data (UInt16.ofNat (n + 1)) payload)

def Opens (v : View S) (terms : Terms) (writer : S.Writer) : Prop :=
  (S.openForWriting v.self.peer v.self.request.filename terms.transferSize v.store).result =
    .ok (some writer)

/-- What beginning makes of a transfer. -/
inductive Begins (size : Nat) (v v' : View S) : Prop
  /-- The terms cannot be settled. -/
  | refused : v' = v.givenUp → Begins size v v'
  /-- There is nothing to write to. -/
  | unopened (terms : Terms) : (∀ writer, ¬ Opens v terms writer) →
      v' = (v.opened terms none).givenUp → Begins size v v'
  /-- The request cannot be acknowledged. -/
  | stuck (terms : Terms) (writer : S.Writer) : Opens v terms writer →
      v' = (v.opened terms (some writer)).givenUp → Begins size v v'
  /-- The request is acknowledged at least once. -/
  | begins (terms : Terms) (writer : S.Writer) (k : Nat) (w : View S) : Opens v terms writer →
      (v.opened terms (some writer)).Says w (List.replicate (k + 1) (reply terms 0).encode) →
      Receiving size 0 w.self → w.Ends v' → Begins size v v'

/-- What a turn makes of a transfer that has acknowledged `n` blocks. -/
inductive Outcome (size n : Nat) (v : View S) (reception : Reception) (v' : View S) : Prop
  /-- The block has not come: the last reply goes out again some times. -/
  | waits (k : Nat) (w : View S) : (∀ payload, ¬ Takes v n payload reception) →
      v.Says w (List.replicate k (reply v.self.terms n).encode) → Receiving size n w.self →
      w.Ends v' → Outcome size n v reception v'
  /-- The block is too large. -/
  | refused (payload : Bytes) : Takes v n payload reception → size < payload.length →
      v' = v.givenUp → Outcome size n v reception v'
  /-- The block cannot be stored, or its acknowledgement cannot be sent. -/
  | stuck (payload : Bytes) (writer : S.Writer) : Takes v n payload reception →
      payload.length ≤ size → v.self.writer = some writer →
      v' = (v.storing (S.keep payload (decide (payload.length < size))) writer).givenUp →
      Outcome size n v reception v'
  /-- The block is stored, and then its acknowledgement goes out at least once. -/
  | takes (payload : Bytes) (writer : S.Writer) (k : Nat) (w : View S) :
      Takes v n payload reception → payload.length = size → v.self.writer = some writer →
      (S.keep payload false (v.store, writer)).result = .ok () →
      (v.storing (S.keep payload false) writer).Says w
        (List.replicate (k + 1) (reply v.self.terms (n + 1)).encode) →
      Receiving size (n + 1) w.self → w.Ends v' → Outcome size n v reception v'
  /-- The last block is stored, the file is finished, and then the acknowledgement goes out. -/
  | ends (payload : Bytes) (writer : S.Writer) : Takes v n payload reception →
      payload.length < size → v.self.writer = some writer →
      (S.keep payload true (v.store, writer)).result = .ok () →
      (v.storing (S.keep payload true) writer).Says v' [(reply v.self.terms (n + 1)).encode] →
      v'.self.phase = .writeEnd → Outcome size n v reception v'

/-- What is said stays the same until the next block comes, or the transfer gives up. -/
theorem Receiving.settles {P : View S → Prop} (h : Receiving size n v.self)
    (hP : ∀ w v' k, v.Says w (List.replicate k (reply v.self.terms n).encode) →
      Receiving size n w.self → w.Ends v' → P v') : v.Settles P where
  ends ho := by
    rw [isOver, h.phase] at ho
    cases ho
  live _ v' hr := by
    obtain ⟨k, said⟩ := hr.says h.last
    obtain ⟨r, d, hself⟩ := hr.self
    have hv : Receiving size n v'.self := by
      rw [hself]
      exact { h with }
    exact ⟨hP v' v' k said hv (.inl rfl), hP v' _ k said hv (.inr rfl)⟩

/-- Whatever is not the block that is to come is ignored, or the last packet is sent once more. -/
theorem handle_ignored {packet : Packet} {P : View S → Prop} {E : Failure → View S → Prop}
    (hp : ∀ payload, packet ≠ .data v.self.block payload) (h : P v) (repeats : P (v.doing v.repetition))
    (fails : ∀ f, E f v) : Ensures (Write.handle packet) v (fun _ => P) E := by
  cases packet with
  | data block payload =>
      apply Ensures.bind
      apply Ensures.self
      rw [if_pos]
      · split
        · apply Ensures.bind
          apply Ensures.resend
          · exact Ensures.pure repeats
          · exact fails
        · exact Ensures.pure h
      · rintro rfl
        exact hp payload rfl
  | _ => exact Ensures.pure h

theorem ends_settles {reception : Reception} {payload : Bytes} {writer : S.Writer}
    (ht : Takes v n payload reception) (hs : payload.length < size)
    (hw : v.self.writer = some writer) :
    let v' := v.storing (S.keep payload true) writer
    (S.keep payload true (v.store, writer)).result = .ok () →
      ((v'.doing [v'.sending (.ack (UInt16.ofNat (n + 1)))]).changing fun t =>
        { t with lastPacket := some (.ack (UInt16.ofNat (n + 1))), phase := .writeEnd }).Settles
      (Outcome size n v reception) := by
  intro v' hkeep
  have said := View.says_sending v' (.ack (UInt16.ofNat (n + 1)))
  constructor
  · intro _
    refine ⟨by simp [View.changing], fun r d => ?_⟩
    refine .ends payload writer ht hs hw hkeep ?_ rfl
    exact (said.changing _ rfl rfl rfl).changing _ rfl rfl rfl
  · intro ho
    cases ho

theorem Receiving.takes_settles (h : Receiving size n v.self) {reception : Reception}
    {payload : Bytes} {writer : S.Writer} (ht : Takes v n payload reception)
    (hs : payload.length = size) (hw : v.self.writer = some writer) :
    let v' := v.storing (S.keep payload false) writer
    (S.keep payload false (v.store, writer)).result = .ok () →
      ((v'.doing [v'.sending (.ack (UInt16.ofNat (n + 1)))]).changing fun t =>
        { t with lastPacket := some (.ack (UInt16.ofNat (n + 1))), block := t.block + 1 }).Settles
      (Outcome size n v reception) := by
  intro v' hkeep
  have said := View.says_sending v' (.ack (UInt16.ofNat (n + 1)))
  have hrec : Receiving size (n + 1)
      ((v'.doing [v'.sending (.ack (UInt16.ofNat (n + 1)))]).changing fun t =>
        { t with lastPacket := some (.ack (UInt16.ofNat (n + 1))), block := t.block + 1 }).self := {
    direction := h.direction
    phase := h.phase
    agreed := h.agreed
    block := (congrArg (· + 1) h.block).trans (ofNat_succ (n + 1)).symm
    last := rfl
    writer := ⟨_, rfl⟩ }
  apply hrec.settles
  intro w u k hu hrec' hends
  refine .takes payload writer k w ht hs hw hkeep ?_ hrec' hends
  rw [List.replicate_succ]
  exact (said.changing _ rfl rfl rfl).trans hu

/-- As long as the block that is to come has not come, the last reply may go out again. -/
theorem Receiving.waits {reception : Reception} {k : Nat} (h : Receiving size n w.self)
    (hno : ∀ payload, ¬ Takes v n payload reception)
    (hw : v.Says w (List.replicate k (reply v.self.terms n).encode)) :
    w.Settles (Outcome size n v reception) := by
  apply h.settles
  intro u v' j hu hrec hends
  rw [hw.terms] at hu
  refine .waits (k + j) u hno ?_ hrec hends
  rw [← List.replicate_append_replicate]
  exact hw.trans hu

/-- What becomes of the block that is to come. -/
theorem Receiving.handle_taken (h : Receiving size n v.self) {reception : Reception}
    {payload : Bytes} (ht : Takes v n payload reception) :
    Ensures (Write.handle (.data v.self.block payload)) v
      (fun _ v' => v'.Settles (Outcome size n v reception))
      (fun _ v' => Outcome size n v reception v'.givenUp) := by
  obtain ⟨writer, hw⟩ := h.writer
  rw [Write.handle_data_eq]
  apply Ensures.bind
  apply Ensures.self
  rw [if_neg (fun h => h rfl)]
  rcases Nat.lt_or_ge size payload.length with hl | hl
  · rw [Write.take, if_pos (by rwa [h.agreed])]
    exact Ensures.throw (.refused payload ht hl rfl)
  · apply Ensures.take hw (by rwa [h.agreed])
    · rw [h.agreed, h.block]
      by_cases hs : payload.length < size
      · rw [decide_eq_true hs]
        exact ends_settles ht hs hw
      · rw [decide_eq_false hs]
        exact h.takes_settles ht (Nat.le_antisymm hl (Nat.not_lt.mp hs)) hw
    · intro _
      rw [h.agreed]
      exact .stuck payload writer ht hl hw rfl

/-- What becomes of any other packet. -/
theorem Receiving.handle_other (h : Receiving size n v.self) {reception : Reception}
    {packet : Packet} (hp : reception.packetFrom v.self.peer = some packet)
    (hno : ∀ payload, ¬ Takes v n payload reception) :
    Ensures (Write.handle packet) v (fun _ v' => v'.Settles (Outcome size n v reception))
      (fun _ v' => Outcome size n v reception v'.givenUp) := by
  apply handle_ignored
  · rintro payload rfl
    rw [h.block] at hp
    exact hno payload hp
  · exact h.waits (k := 0) hno (.refl v)
  -- A block from before the one that is to come makes the last reply go out again.
  · refine Receiving.waits (w := v.doing v.repetition) (k := 1) { h with } hno ?_
    rw [View.repetition, h.last]
    exact View.says_sending v _
  · exact fun _ => .waits 0 v hno (.refl v) h (.inr rfl)

/-- **One turn of a transfer that receives.** It comes to one of the five outcomes. -/
theorem outcome_resume (h : Receiving size n v.self) (reception : Reception) :
    Ensures (Transfer.resume reception) v (fun _ v' => Outcome size n v reception v')
      (fun _ v' => Outcome size n v reception v') := by
  apply Ensures.resume
  -- The transfer gives up, nothing of interest has come, or there is a packet to handle.
  · intro he
    refine .waits 0 v ?_ (.refl v) h (.inr rfl)
    intro payload ht
    obtain ⟨code, message, h⟩ := he _ ht
    cases h
  · intro hn events he
    have hno : ∀ payload, ¬ Takes v n payload reception := fun payload ht => by cases hn.symm.trans ht
    exact Receiving.waits (w := v.doing events) (k := 0) h hno
      ⟨View.talks_strangers he, rfl, rfl, rfl⟩
  · intro p hp hne
    refine .handle hne (fun hd => nomatch hd.symm.trans h.direction) (fun _ => ?_)
    by_cases ht : ∃ payload, Takes v n payload reception
    · obtain ⟨payload, ht⟩ := ht
      obtain rfl : p = .data (UInt16.ofNat (n + 1)) payload := Option.some.inj (hp.symm.trans ht)
      rw [← h.block]
      exact h.handle_taken ht
    · exact h.handle_other hp fun payload h => ht ⟨payload, h⟩

/-- With a file to write to the request is answered, and then the first block is to come. -/
theorem answer_begins {terms : Terms} {writer : S.Writer} (hd : v.self.direction = .write)
    (agreed : terms.blockSize.toNat = size) (hopen : Opens v terms writer) :
    Ensures (Write.answer terms) (v.opened terms (some writer))
      (fun _ v' => v'.Settles (Begins size v)) (fun _ v' => Begins size v v'.givenUp) := by
  apply Ensures.bind
  apply Ensures.send
  swap
  · exact fun _ => .stuck terms writer hopen rfl
  apply Ensures.update
  have said := View.says_sending (v.opened terms (some writer)) (reply terms 0)
  have hrec : Receiving size 0 ((((v.opened terms (some writer)).doing
      [(v.opened terms (some writer)).sending (reply terms 0)]).changing fun t =>
      { t with lastPacket := some (reply terms 0) }).changing fun t =>
      { t with block := 1, phase := .waitingData }).self := {
    direction := hd
    phase := rfl
    agreed := agreed
    block := rfl
    last := rfl
    writer := ⟨writer, rfl⟩ }
  apply hrec.settles
  intro w v' k hw hrec' hends
  refine .begins terms writer k w hopen ?_ hrec' hends
  rw [List.replicate_succ]
  exact ((said.changing _ rfl rfl rfl).changing _ rfl rfl rfl).trans hw

/-- **The first turn of a transfer that receives.** -/
theorem begins_begin (hd : v.self.direction = .write) (hw : v.self.writer = none)
    (agreed : (agreedBlockSize v.self.request.options v.self.config).toNat = size) :
    Ensures Transfer.begin v (fun _ => Begins size v) (fun _ => Begins size v) := by
  apply Ensures.begin
  unfold Transfer.start
  apply Ensures.bind
  apply Ensures.self
  rw [hd]
  dsimp only
  rw [Write.start_eq]
  apply Ensures.bind
  apply Ensures.settleTerms
  swap
  · exact fun _ => .refused rfl
  intro terms hterms
  apply Ensures.bind
  apply Ensures.self
  apply Ensures.bind
  apply Ensures.onStore
  have hnone : v.opened terms none = { v.opened terms none with
      self := { v.self with terms } } := by
    unfold View.opened
    rw [← hw]
  simp only [Storage.sink, View.changing]
  rcases hopen : (S.openForWriting v.self.peer v.self.request.filename terms.transferSize
    v.store).result with f | _ | writer
  · exact .unopened terms (fun _ h => by cases hopen.symm.trans h)
      (congrArg View.givenUp hnone.symm)
  · exact .unopened terms (fun _ h => by cases hopen.symm.trans h)
      (congrArg View.givenUp hnone.symm)
  apply Ensures.bind
  apply Ensures.update
  apply Ensures.bind
  apply Ensures.log
  exact answer_begins hd ((congrArg UInt16.toNat hterms).trans agreed) hopen

end Write

end Transfer

end Tftp
