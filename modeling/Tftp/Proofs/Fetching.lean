import Tftp.Proofs.Receiving
import Tftp.Proofs.Sending

/-!
# What a transfer that sends leaves alone

`Sending` follows a transfer block by block, and it needs a source that hands the content out, and
blocks that are not empty. Here is what can be said without either. A transfer that sends a file
leaves the storage alone, if reading does (`Storage.Lends`), and all it ever says to its peer is the
OACK of its terms and DATA (`Read.Fetches`). If its blocks are empty, it never comes to an end.
-/

namespace Tftp

open Transfer

/-- A storage whose state does not change when files are read. -/
structure Storage.Lends (S : Storage) : Prop where
  opening : ∀ peer filename state, (S.openForReading peer filename state).state = state
  openingPlain : ∀ peer filename state, Plain (S.openForReading peer filename state).events
  read : ∀ n file, (S.read n file).state.1 = file.1
  readPlain : ∀ n file, Plain (S.read n file).events

namespace Transfer

variable {S : Storage}

namespace Read

/-- What a transfer under the given terms says to its peer when it sends a file. -/
def IsSaid (terms : Terms) (bytes : Bytes) : Prop :=
  bytes = (Packet.oack terms.oack).encode ∨
    ∃ block payload, bytes = (Packet.data block payload).encode

/-- The phases in which a transfer that sends can be. A block that is empty is not the last one if all
of them are. -/
def Permits (terms : Terms) (phase : Phase) : Prop :=
  phase ≠ .writeEnd ∧
    (terms.blockSize = 0 → phase ≠ .waitingLastAck ∧ phase ≠ .readEnd)

theorem permits_of_ne {terms : Terms} (phase : Phase) (h : phase ≠ .writeEnd)
    (h' : phase ≠ .waitingLastAck) (h'' : phase ≠ .readEnd) : Permits terms phase :=
  ⟨h, fun _ => ⟨h', h''⟩⟩

/-- What a transfer that sends a file is like under the given terms, and what it has done between two
views. -/
structure Fetches (v : View S) (terms : Terms) (w : View S) : Prop where
  store : w.store = v.store
  sends : ∃ sent, v.Sends w sent ∧ ∀ bytes ∈ sent, IsSaid terms bytes
  direction : w.self.direction = .read
  writer : w.self.writer = none
  agreed : w.self.terms = terms
  last : ∀ packet ∈ w.self.lastPacket, IsSaid terms packet.encode
  phase : Permits terms w.self.phase

variable {v w : View S} {terms : Terms}

namespace Fetches

theorem refl (hd : v.self.direction = .read) (hw : v.self.writer = none)
    (hl : ∀ packet ∈ v.self.lastPacket, IsSaid v.self.terms packet.encode)
    (hp : Permits v.self.terms v.self.phase) : Fetches v v.self.terms v :=
  ⟨rfl, ⟨[], (View.Talks.refl v).sends, List.forall_mem_nil _⟩, hd, hw, rfl, hl, hp⟩

/-- What a transfer notes for itself is of no account. -/
theorem changing (h : Fetches v terms w) (f : Transfer S → Transfer S)
    (hp : (f w.self).peer = w.self.peer) (hd : (f w.self).direction = w.self.direction)
    (hw : (f w.self).writer = w.self.writer) (ht : (f w.self).terms = w.self.terms)
    (hl : (f w.self).lastPacket = w.self.lastPacket) (hphase : Permits terms (f w.self).phase) :
    Fetches v terms (w.changing f) where
  store := h.store
  sends := by
    obtain ⟨sent, hs, hsaid⟩ := h.sends
    exact ⟨sent, ⟨hp.trans hs.peer, hs.deeds⟩, hsaid⟩
  direction := hd.trans h.direction
  writer := hw.trans h.writer
  agreed := ht.trans h.agreed
  last := hl ▸ h.last
  phase := hphase

theorem sending (h : Fetches v terms w) {packet : Packet} (hs : IsSaid terms packet.encode) :
    Fetches v terms
      ((w.doing [w.sending packet]).changing fun t => { t with lastPacket := some packet }) where
  store := h.store
  sends := by
    obtain ⟨sent, hsends, hsaid⟩ := h.sends
    have htalk := (View.talks_sending w packet).changing
      (fun t => { t with lastPacket := some packet }) rfl
    refine ⟨_, hsends.trans htalk.sends, fun bytes hm => ?_⟩
    rcases List.mem_append.1 hm with hm | hm
    · exact hsaid bytes hm
    · exact List.mem_singleton.1 hm ▸ hs
  direction := h.direction
  writer := h.writer
  agreed := h.agreed
  last packet' hm := by
    obtain rfl := Option.some.inj hm
    exact hs
  phase := h.phase

/-- What a storage reports says nothing to the peer. -/
theorem plain (h : Fetches v terms w) {events : List Event} (hp : Plain events) :
    Fetches v terms (w.doing events) where
  store := h.store
  sends := by
    obtain ⟨sent, hsends, hsaid⟩ := h.sends
    exact ⟨_, hsends.trans (View.plain_talks (v := w) w.store hp).sends, by simpa using hsaid⟩
  direction := h.direction
  writer := h.writer
  agreed := h.agreed
  last := h.last
  phase := h.phase

theorem strangers (h : Fetches v terms w) {events : List Event}
    (he : ∀ e ∈ events, ∃ a b c t, e = .sent a b c t ∧ b ≠ w.self.peer) :
    Fetches v terms (w.doing events) where
  store := h.store
  sends := by
    obtain ⟨sent, hsends, hsaid⟩ := h.sends
    exact ⟨_, hsends.trans (View.talks_strangers he).sends, by simpa using hsaid⟩
  direction := h.direction
  writer := h.writer
  agreed := h.agreed
  last := h.last
  phase := h.phase

theorem repeats {w' : View S} (h : Fetches v terms w) (hr : w.Repeats w') :
    Fetches v terms w' := by
  have hs : ∃ sent, w.Sends w' sent ∧ ∀ bytes ∈ sent, IsSaid terms bytes := by
    cases hl : w.self.lastPacket with
    | none =>
        obtain ⟨k, r, d, rfl⟩ := hr
        refine ⟨[], ⟨rfl, _, rfl, ?_⟩, List.forall_mem_nil _⟩
        have : w.repetition = [] := by rw [View.repetition, hl]; rfl
        rw [this]
        have hnil : (List.replicate k ([] : List Event)).flatten = [] := by simp
        rw [hnil]
        rfl
    | some packet =>
        obtain ⟨k, ht⟩ := hr.talks hl
        refine ⟨_, ht.sends, fun bytes hm => ?_⟩
        rw [List.eq_of_mem_replicate hm]
        exact h.last packet hl
  obtain ⟨sent, hsends, hsaid⟩ := h.sends
  obtain ⟨sent', hsends', hsaid'⟩ := hs
  obtain ⟨r, d, hself⟩ := hr.self
  exact {
    store := hr.store.trans h.store
    sends := ⟨_, hsends.trans hsends', fun bytes hm =>
      (List.mem_append.1 hm).elim (hsaid bytes) (hsaid' bytes)⟩
    direction := by rw [hself]; exact h.direction
    writer := by rw [hself]; exact h.writer
    agreed := by rw [hself]; exact h.agreed
    last := by rw [hself]; exact h.last
    phase := by rw [hself]; exact h.phase }

theorem givenUp (h : Fetches v terms w) : Fetches v terms w.givenUp := by
  rw [View.givenUp_of_none h.writer]
  exact h.changing _ rfl rfl rfl rfl rfl (permits_of_ne .failed (by decide) (by decide) (by decide))

/-- A transfer that goes on may repeat what it has said, or give up. -/
theorem settles (h : Fetches v terms w) (hp : w.self.phase ≠ .failed) :
    w.Settles (Fetches v terms) where
  ends _ := ⟨hp, fun _ _ => h.changing _ rfl rfl rfl rfl rfl h.phase⟩
  live _ _ hr := ⟨h.repeats hr, (h.repeats hr).givenUp⟩

end Fetches

/-- A transfer that sends a file, wherever it is looked at. -/
def Fetching (t : Transfer S) : Prop := ∀ v : View S, v.self = t → Fetches v t.terms v

theorem Fetches.fetching (h : Fetches v terms w) : Fetching w.self := by
  intro u hu
  obtain ⟨-, -, hd, hw, rfl, hl, hp⟩ := h
  rw [← hu] at hd hw hl hp ⊢
  exact .refl hd hw hl hp

/-! ## Reading -/

/-- Filling a block changes nothing but the file that is open. -/
theorem fill_fetches (lends : S.Lends) {n : Nat} {chunks : List Bytes} {Q : Bytes → View S → Prop}
    {E : Failure → View S → Prop} (h : Fetches v terms w)
    (ok : ∀ payload w', Fetches v terms w' → Q payload w')
    (fails : ∀ f w', Fetches v terms w' → E f w') : Ensures (Read.fill n chunks) w Q E := by
  refine .mono (.fill_keeps h fun {n w reader} h _ => ?_) (fun payload w' hw => ok payload w' hw.2) fails
  have hf := (h.plain (lends.readPlain n (w.store, reader)).unlogged).changing
    (fun t => { t with reader := some (S.read n (w.store, reader)).state.2 })
    rfl rfl rfl rfl rfl h.phase
  have hstore : (S.read n (w.store, reader)).state.1 = w.store := lends.read n (w.store, reader)
  dsimp only
  rw [hstore]
  exact hf

theorem sendNextBlock_fetches (lends : S.Lends) (h : Fetches v terms w) :
    Ensures Read.sendNextBlock w
      (fun _ w' => w'.self.phase ≠ .failed ∧ Fetches v terms w') (fun _ => Fetches v terms) := by
  refine .bind (.self (.bind (fill_fetches lends h (fun payload w' h' => ?_) fun _ _ => id)))
  refine .bind (.update (.bind (.self (.bind ?_))))
  have hb : Fetches v terms (w'.changing fun t => { t with block := t.block + 1 }) :=
    h'.changing _ rfl rfl rfl rfl rfl h'.phase
  refine .send (.update ⟨?_, ?_⟩) fun _ => hb
  · show (if _ then _ else _) ≠ _
    split <;> exact nofun
  · refine (hb.sending (.inr ⟨_, _, rfl⟩)).changing _ rfl rfl rfl rfl rfl ⟨?_, fun hz => ?_⟩
    · show (if _ then _ else _) ≠ _
      split <;> exact nofun
    · have hsize : w.self.terms.blockSize.toNat = 0 := by
        rw [h.agreed, hz]
        rfl
      show (if payload.length < w.self.terms.blockSize.toNat then _ else _) ≠ _ ∧ _
      rw [hsize, if_neg (Nat.not_lt_zero _)]
      exact ⟨nofun, nofun⟩

theorem handle_fetches (lends : S.Lends) (packet : Packet) (h : Fetches v terms w)
    (hp : w.self.phase ≠ .failed) :
    Ensures (Read.handle packet) w (fun _ w' => w'.Settles (Fetches v terms))
      (fun _ w' => Fetches v terms w'.givenUp) := by
  have next : Ensures (Read.sendNextBlock >>= fun _ => Pure.pure true) w
      (fun _ w' => w'.Settles (Fetches v terms)) (fun _ w' => Fetches v terms w'.givenUp) :=
    .bind (.mono (sendNextBlock_fetches lends h) (fun _ w' h' => .pure (h'.2.settles h'.1))
      fun _ _ h' => h'.givenUp)
  cases packet with
  | ack block =>
      refine .bind (.self ?_)
      split
      · exact .pure (h.settles hp)
      · split
        · exact next
        · exact next
        next hphase =>
          refine .bind (.log (.bind (.update (.pure (Fetches.settles ?_ nofun)))))
          exact h.changing _ rfl rfl rfl rfl rfl
            ⟨nofun, fun hz => absurd hphase (h.phase.2 hz).1⟩
        · exact .pure (h.settles hp)
  | _ => exact .pure (h.settles hp)

/-- **A turn of a transfer that sends leaves the storage alone.** -/
theorem resume_fetches (lends : S.Lends) (reception : Reception) (h : Fetches v v.self.terms v)
    (hp : v.self.phase ≠ .failed) :
    Ensures (Transfer.resume reception) v (fun _ => Fetches v v.self.terms)
      (fun _ => Fetches v v.self.terms) := by
  refine .resume (fun _ => h.givenUp) (fun _ events he => (h.strangers he).settles hp) ?_
  intro packet _ hne
  exact .handle hne (fun _ => handle_fetches lends packet h hp)
    fun hd => nomatch hd.symm.trans h.direction

/-! ## Beginning -/

/-- The terms have been settled with the size of the file, if that is known. -/
def Settled (v : View S) (terms : Terms) : Prop :=
  ∃ reader fileSize,
    (S.openForReading v.self.peer v.self.request.filename v.store).result =
      .ok (some (reader, fileSize)) ∧
    negotiate v.self.request.options v.self.config .read fileSize = .ok terms

/-- What beginning makes of a transfer that is to send a file: its terms have been settled, or nothing
has been said. -/
def Opening (v w : View S) : Prop :=
  ∃ terms, Fetches v terms w ∧ (Settled v terms ∨ w.self.phase = .failed ∧ v.Sends w [])

/-- As long as nothing has been said, the transfer may be given up. -/
theorem Opening.of_refused (h : Fetches v w.self.terms w) (hs : v.Sends w []) :
    Opening v w.givenUp := by
  refine ⟨w.self.terms, h.givenUp, .inr ⟨(View.givenUp_self w).2.2, ?_⟩⟩
  rw [View.givenUp_of_none h.writer]
  exact ⟨hs.peer, hs.deeds⟩

/-- Once the terms have been settled, the transfer goes on under these. -/
theorem Settled.goes (settled : Settled v terms) (h : Fetches v terms w)
    (hp : w.self.phase ≠ .failed) : w.Settles (Opening v) :=
  have hs := h.settles hp
  { ends := fun ho => ⟨(hs.ends ho).1, fun r d => ⟨terms, (hs.ends ho).2 r d, .inl settled⟩⟩
    live := fun ho w' hr =>
      ⟨⟨terms, (hs.live ho w' hr).1, .inl settled⟩, ⟨terms, (hs.live ho w' hr).2, .inl settled⟩⟩ }

theorem Settled.givenUp (settled : Settled v terms) (h : Fetches v terms w) :
    Opening v w.givenUp := ⟨terms, h.givenUp, .inl settled⟩

/-- Under the terms that have been settled the request is answered. -/
theorem answer_fetches (lends : S.Lends) (settled : Settled v terms) (h : Fetches v terms w) :
    Ensures (Read.answer terms) w (fun _ w' => w'.Settles (Opening v))
      (fun _ w' => Opening v w'.givenUp) := by
  unfold Read.answer
  split
  · have hb := h.changing (fun t => { t with block := 0 }) rfl rfl rfl rfl rfl h.phase
    have hne : Phase.waitingAfterOack ≠ .failed := by decide
    refine .bind (.update (.bind (.send (.update (settled.goes ?_ hne)) fun _ => ?_)))
    · exact (hb.sending (.inl rfl)).changing _ rfl rfl rfl rfl rfl
        (permits_of_ne .waitingAfterOack (by decide) (by decide) (by decide))
    · exact settled.givenUp hb
  · exact .mono (sendNextBlock_fetches lends h) (fun _ _ h' => settled.goes h'.2 h'.1)
      fun _ _ h' => settled.givenUp h'

/-- **The first turn of a transfer that sends leaves the storage alone.** -/
theorem begin_fetches (lends : S.Lends) (hd : v.self.direction = .read)
    (hw : v.self.writer = none) (hl : v.self.lastPacket = none) (hp : v.self.phase = .initial) :
    Ensures Transfer.begin v (fun _ => Opening v) (fun _ => Opening v) := by
  have start : Fetches v v.self.terms v :=
    .refl hd hw (by simp [hl]) (hp ▸ permits_of_ne .initial (by decide) (by decide) (by decide))
  have opening := (lends.openingPlain v.self.peer v.self.request.filename v.store).unlogged
  have hopened := start.plain opening
  have hquiet := (View.plain_talks (v := v) v.store opening).sends
  have hstore := lends.opening v.self.peer v.self.request.filename v.store
  apply Ensures.begin
  unfold Transfer.start
  refine .bind (.self ?_)
  rw [hd]
  dsimp only
  rw [Read.start_eq]
  refine .bind (.self (.bind (.onStore ?_)))
  simp only [Storage.source, hstore]
  rcases hres : (S.openForReading v.self.peer v.self.request.filename v.store).result with
    f | _ | ⟨reader, fileSize⟩
  · exact .of_refused hopened hquiet
  · exact .of_refused hopened hquiet
  have hread := hopened.changing (fun t => { t with reader := some reader })
    rfl rfl rfl rfl rfl hopened.phase
  refine .bind (.update (.bind (.settleTerms_or (fun terms hterms => ?_) fun f _ => ?_)))
  swap
  · exact .of_refused hread ⟨hquiet.peer, hquiet.deeds⟩
  refine .bind (.log (.bind (.self (answer_fetches lends ⟨reader, fileSize, hres, ?_⟩ ?_))))
  · rwa [← hd]
  -- Nothing has been said yet, so the terms can still be any.
  · exact {
      store := rfl
      sends := ⟨[], ⟨hquiet.peer, hquiet.deeds⟩, List.forall_mem_nil _⟩
      direction := hd
      writer := hw
      agreed := rfl
      last := by
        intro packet hm
        have hm : packet ∈ v.self.lastPacket := hm
        rw [hl] at hm
        cases hm
      phase := hp ▸ permits_of_ne .initial (by decide) (by decide) (by decide) }

end Read

end Transfer

end Tftp
