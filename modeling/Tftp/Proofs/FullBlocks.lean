import Tftp.Proofs.Downloads

/-!
# All blocks but the last are full

Whatever a storage hands out, a transfer that sends a file goes on with another block only after one
that is full. `Pours` is the invariant: of the blocks that have been sent all but the last are full,
and so is the last one as long as another may follow. It needs no content of the file, so it also
holds of files that change while they are read; it only needs a storage that says nothing to the peer
(`Storage.Lends`).
-/

namespace Tftp.Transfer

variable {S : Storage}

section

variable {v w : View S} {sent : List Bytes}

theorem View.Sends.changing (h : v.Sends w sent) (f : Transfer S → Transfer S)
    (hf : (f w.self).peer = w.self.peer) : v.Sends (w.changing f) sent := ⟨hf.trans h.peer, h.deeds⟩

theorem View.Sends.sending (h : v.Sends w sent) (packet : Packet) :
    v.Sends (w.doing [w.sending packet]) (sent ++ [packet.encode]) :=
  h.trans (View.talks_sending w packet).sends

end

/-! ## The blocks among some datagrams -/

theorem payload?_eq_some_iff {bytes payload : Bytes} :
    payload? bytes = some payload ↔ ∃ block, bytes = (Packet.data block payload).encode := by
  unfold payload?
  constructor
  · intro h
    split at h
    next block payload' hp =>
      obtain rfl := Option.some.inj h
      obtain ⟨body, rfl, hb⟩ := Packet.parse_eq_ok_iff.1 hp
      cases hb
      exact ⟨block, rfl⟩
    next => cases h
  · rintro ⟨block, rfl⟩
    rw [Packet.parse_data]

/-- Only DATA has a payload. -/
theorem payload?_eq_none {packet : Packet} (h : packet.opcode ≠ 3) : payload? packet.encode = none := by
  rw [Option.eq_none_iff_forall_ne_some]
  intro payload hp
  obtain ⟨block, he⟩ := payload?_eq_some_iff.1 hp
  exact h (Packet.opcode_eq_of_encode_eq he)

theorem payloads_concat (sent : List Bytes) (bytes : Bytes) : payloads (sent ++ [bytes]) =
    if sent.getLast? = some bytes then payloads sent
    else payloads sent ++ (payload? bytes).toList := by
  unfold payloads
  rw [destutter_concat]
  split
  · rfl
  · rw [List.filterMap_append]
    cases h : payload? bytes <;> simp [h]

theorem payloads_repeated {sent : List Bytes} {bytes : Bytes} (h : sent.getLast? = some bytes)
    (k : Nat) : payloads (sent ++ List.replicate k bytes) = payloads sent ∧
      (sent ++ List.replicate k bytes).getLast? = some bytes := by
  induction k with
  | zero => simpa using h
  | succ k ih =>
      rw [List.replicate_succ', ← List.append_assoc, payloads_concat, if_pos ih.2,
        List.getLast?_concat]
      exact ⟨ih.1, rfl⟩

/-- What has no payload is not among the blocks. -/
theorem payloads_append_of_none {sent more : List Bytes}
    (h : ∀ bytes ∈ more, payload? bytes = none) : payloads (sent ++ more) = payloads sent := by
  induction more using List.reverseRecOn with
  | nil => rw [List.append_nil]
  | append_singleton more bytes ih =>
      rw [← List.append_assoc, payloads_concat,
        ih fun b hb => h b (List.mem_append_left _ hb), h bytes (by simp)]
      simp

namespace Read

/-! ## What is known of the blocks -/

/-- A transfer that sends a file, and what it has sent so far. All blocks but the last are full, and
so is the last if another one may follow. -/
structure Pours (sent : List Bytes) (t : Transfer S) : Prop where
  direction : t.direction = .read
  writer : t.writer = none
  last : t.lastPacket.map Packet.encode = sent.getLast?
  full : ∀ payload ∈ (payloads sent).dropLast, payload.length = t.terms.blockSize.toNat
  goesOn : t.phase = .waitingAfterOack ∨ t.phase = .waitingAck →
    ∀ payload ∈ payloads sent, payload.length = t.terms.blockSize.toNat

variable {sent : List Bytes} {t t' : Transfer S}

namespace Pours

theorem nil (hd : t.direction = .read) (hw : t.writer = none) (hl : t.lastPacket = none) :
    Pours [] t :=
  ⟨hd, hw, by rw [hl]; rfl, List.forall_mem_nil _, fun _ => List.forall_mem_nil _⟩

/-- What a transfer notes for itself is of no account. -/
theorem congr (h : Pours sent t) (hd : t'.direction = t.direction) (hw : t'.writer = t.writer)
    (hl : t'.lastPacket = t.lastPacket) (ht : t'.terms = t.terms)
    (hp : t'.phase = .waitingAfterOack ∨ t'.phase = .waitingAck →
      t.phase = .waitingAfterOack ∨ t.phase = .waitingAck) : Pours sent t' where
  direction := hd.trans h.direction
  writer := hw.trans h.writer
  last := hl ▸ h.last
  full := ht ▸ h.full
  goesOn hphase := ht ▸ h.goesOn (hp hphase)

theorem repeated (h : Pours sent t) {packet : Packet} (hl : t.lastPacket = some packet) (k : Nat) :
    Pours (sent ++ List.replicate k packet.encode) t := by
  have hlast : sent.getLast? = some packet.encode := by rw [← h.last, hl]; rfl
  obtain ⟨hp, hg⟩ := payloads_repeated hlast k
  exact ⟨h.direction, h.writer, by rw [hg, hl]; rfl, hp ▸ h.full, hp ▸ h.goesOn⟩

/-- The acknowledgement of options is no block. -/
theorem oack (h : Pours sent t) (options : Options) (hnone : payloads sent = []) :
    Pours (sent ++ [(Packet.oack options).encode])
      { t with lastPacket := some (.oack options), phase := .waitingAfterOack } := by
  have hp : payloads (sent ++ [(Packet.oack options).encode]) = [] := by
    rw [payloads_append_of_none fun bytes hb => ?_, hnone]
    rw [List.mem_singleton.1 hb]
    exact payload?_eq_none (show (6 : UInt16) ≠ 3 by decide)
  refine ⟨h.direction, h.writer, by rw [List.getLast?_concat]; rfl, ?_, fun _ => ?_⟩
  · rw [hp]
    exact List.forall_mem_nil _
  · rw [hp]
    exact List.forall_mem_nil _

/-- After full blocks one more block is sent. -/
theorem data (h : Pours sent t) (full : ∀ payload ∈ payloads sent, payload.length =
      t.terms.blockSize.toNat) (block : UInt16) {payload : Bytes}
    (hle : payload.length ≤ t.terms.blockSize.toNat) :
    Pours (sent ++ [(Packet.data block payload).encode])
      { t with
        lastPacket := some (.data block payload)
        phase := if payload.length < t.terms.blockSize.toNat then .waitingLastAck
          else .waitingAck } := by
  have hpayload : payload? (Packet.data block payload).encode = some payload :=
    payload?_eq_some_iff.2 ⟨block, rfl⟩
  have hp := payloads_concat sent (Packet.data block payload).encode
  rw [hpayload] at hp
  refine ⟨h.direction, h.writer, by rw [List.getLast?_concat]; rfl, fun p hm => ?_, fun hphase => ?_⟩
  · rw [hp] at hm
    split at hm
    · exact full p ((List.dropLast_sublist _).subset hm)
    · exact full p (by simpa using hm)
  · have hfull : payload.length = t.terms.blockSize.toNat := by
      by_contra hne
      rw [if_pos (by omega)] at hphase
      simp at hphase
    rw [hp]
    split
    · exact full
    · intro p hm
      rcases List.mem_append.1 hm with hm | hm
      · exact full p hm
      · rw [List.mem_singleton.1 hm]
        exact hfull

end Pours

/-! ## The reactions -/

/-- From one view to another, the transfer keeps to it. -/
def Pouring (v : View S) (before : List Bytes) (w : View S) : Prop :=
  ∃ sent, v.Sends w sent ∧ Pours (before ++ sent) w.self

variable {v w w' : View S} {before : List Bytes}

namespace Pouring

theorem start (h : Pours before v.self) : Pouring v before v :=
  ⟨[], (View.Talks.refl v).sends, by rwa [List.append_nil]⟩

theorem talks (h : Pouring v before w) (ht : w.Talks w' [])
    (hp : ∀ sent, Pours sent w.self → Pours sent w'.self) : Pouring v before w' := by
  obtain ⟨sent, hs, hpours⟩ := h
  exact ⟨sent ++ [], hs.trans ht.sends, by rw [List.append_nil]; exact hp _ hpours⟩

theorem changing (h : Pouring v before w) (f : Transfer S → Transfer S)
    (hpeer : (f w.self).peer = w.self.peer)
    (hp : ∀ sent, Pours sent w.self → Pours sent (f w.self)) : Pouring v before (w.changing f) :=
  h.talks ((View.Talks.refl w).changing f hpeer) hp

theorem repeats (h : Pouring v before w) (hr : w.Repeats w') : Pouring v before w' := by
  obtain ⟨sent, hs, hpours⟩ := h
  obtain ⟨retries, deadline, hself⟩ := hr.self
  have same {sent : List Bytes} (hp : Pours sent w.self) : Pours sent w'.self := by
    rw [hself]
    exact hp.congr rfl rfl rfl rfl id
  cases hl : w.self.lastPacket with
  | none =>
      -- There is nothing to repeat.
      obtain ⟨k, r, d, rfl⟩ := hr
      have hnil : (List.replicate k w.repetition).flatten = [] := by
        simp [View.repetition, hl]
      refine ⟨sent, ⟨hs.peer, ?_⟩, same hpours⟩
      obtain ⟨events, hd, he⟩ := hs.deeds
      exact ⟨events, by simpa [View.changing, View.doing, hnil] using hd, he⟩
  | some packet =>
      obtain ⟨k, ht⟩ := hr.talks hl
      refine ⟨_, hs.trans ht.sends, ?_⟩
      rw [← List.append_assoc]
      exact same (hpours.repeated hl k)

theorem givenUp (h : Pouring v before w) : Pouring v before w.givenUp := by
  have hw : w.self.writer = none := by
    obtain ⟨sent, -, hp⟩ := h
    exact hp.writer
  rw [View.givenUp_of_none hw]
  exact h.changing _ rfl fun sent hp => hp.congr rfl rfl rfl rfl (by simp)

theorem settles (h : Pouring v before w) (hp : w.self.phase ≠ .failed) :
    w.Settles (Pouring v before) where
  ends _ := ⟨hp, fun _ _ => h.changing _ rfl fun _ hp => hp.congr rfl rfl rfl rfl id⟩
  live _ _ hr := ⟨h.repeats hr, (h.repeats hr).givenUp⟩

end Pouring

/-- Filling a block says nothing, and it changes nothing but the file that is open. -/
theorem fill_quiet (lends : S.Lends) {n : Nat} {chunks : List Bytes} {Q : Bytes → View S → Prop}
    {E : Failure → View S → Prop}
    (ok : ∀ payload reader w', payload.length ≤ chunks.flatten.length + n → w.Talks w' [] →
      w'.self = { w.self with reader } → Q payload w')
    (fails : ∀ f reader w', w.Talks w' [] → w'.self = { w.self with reader } → E f w') :
    Ensures (Read.fill n chunks) w Q E := by
  -- Every read leaves the transfer as it was, but for its reader.
  have kept : Ensures (Read.fill n chunks) w
      (fun payload w' => payload.length ≤ chunks.flatten.length + n ∧
        w.Talks w' [] ∧ ∃ reader, w'.self = { w.self with reader })
      fun _ w' => w.Talks w' [] ∧ ∃ reader, w'.self = { w.self with reader } := by
    refine .fill_keeps ⟨.refl w, w.self.reader, rfl⟩ fun {n v reader} h _ => ?_
    obtain ⟨ht, reader', hself⟩ := h
    have hread := (View.plain_talks (v := v) (S.read n (v.store, reader)).state.1
      (lends.readPlain n (v.store, reader)).unlogged).changing
      (fun t => { t with reader := some (S.read n (v.store, reader)).state.2 }) rfl
    refine ⟨ht.trans hread, some (S.read n (v.store, reader)).state.2, ?_⟩
    show { v.self with reader := some (S.read n (v.store, reader)).state.2 } = _
    rw [hself]
  refine .mono kept (fun payload w' hw => ?_) fun f w' hw => ?_
  · obtain ⟨hle, ht, reader, hself⟩ := hw
    exact ok payload reader w' hle ht hself
  · obtain ⟨ht, reader, hself⟩ := hw
    exact fails f reader w' ht hself

/-- All blocks that have been sent are full. -/
def Filled (v : View S) (before : List Bytes) (w : View S) : Prop :=
  ∃ sent, v.Sends w sent ∧ Pours (before ++ sent) w.self ∧
    ∀ payload ∈ payloads (before ++ sent), payload.length = w.self.terms.blockSize.toNat

theorem Pouring.filled (h : Pouring v before w)
    (hp : w.self.phase = .waitingAfterOack ∨ w.self.phase = .waitingAck) : Filled v before w := by
  obtain ⟨sent, hs, hpours⟩ := h
  exact ⟨sent, hs, hpours, hpours.goesOn hp⟩

/-- **Another block** is sent after full ones only. -/
theorem sendNextBlock_pours (lends : S.Lends) (h : Filled v before w) :
    Ensures Read.sendNextBlock w
      (fun _ w' => w'.self.phase ≠ .failed ∧ Pouring v before w')
      (fun _ w' => Pouring v before w'.givenUp) := by
  obtain ⟨sent, hs, hpours, hfull⟩ := h
  have reading (reader : Option S.Reader) (block : UInt16) :
      Pours (before ++ sent) { w.self with reader, block } := hpours.congr rfl rfl rfl rfl id
  have quiet {reader : Option S.Reader} {w' : View S} (ht : w.Talks w' [])
      (hself : w'.self = { w.self with reader }) :
      v.Sends w' sent ∧ Pours (before ++ sent) w'.self := by
    have hs' := hs.trans ht.sends
    rw [List.append_nil] at hs'
    rw [hself]
    exact ⟨hs', reading reader w.self.block⟩
  refine .bind (.self (.bind (fill_quiet lends (fun payload reader w' hle ht hself => ?_)
    fun f reader w' ht hself => Pouring.givenUp ⟨sent, quiet ht hself⟩)))
  rw [List.flatten_nil, List.length_nil, Nat.zero_add] at hle
  obtain ⟨hs', hpours'⟩ := quiet ht hself
  have hcounted : Pouring v before (w'.changing fun t => { t with block := t.block + 1 }) :=
    ⟨sent, hs'.changing _ rfl, hpours'.congr rfl rfl rfl rfl id⟩
  refine .bind (.update (.bind (.self (.bind (.send (.update ⟨?_, ?_⟩) fun f => hcounted.givenUp)))))
  · show (if _ then _ else _) ≠ _
    split <;> exact nofun
  · refine ⟨_, (((hs'.changing _ rfl).sending _).changing _ rfl).changing _ rfl, ?_⟩
    have hd := (reading reader (w'.self.block + 1)).data hfull (w'.self.block + 1) hle
    rw [← List.append_assoc]
    simpa [View.changing, View.doing, hself] using hd

theorem handle_pours (lends : S.Lends) (packet : Packet) (h : Pouring v before w)
    (hp : w.self.phase ≠ .failed) :
    Ensures (Read.handle packet) w (fun _ w' => w'.Settles (Pouring v before))
      (fun _ w' => Pouring v before w'.givenUp) := by
  have next (hphase : w.self.phase = .waitingAfterOack ∨ w.self.phase = .waitingAck) :
      Ensures (Read.sendNextBlock >>= fun _ => Pure.pure true) w
        (fun _ w' => w'.Settles (Pouring v before)) (fun _ w' => Pouring v before w'.givenUp) :=
    .bind (.mono (sendNextBlock_pours lends (h.filled hphase))
      (fun _ w' h' => .pure (h'.2.settles h'.1)) fun _ _ => id)
  cases packet with
  | ack block =>
      refine .bind (.self ?_)
      split
      · exact .pure (h.settles hp)
      · split
        next hphase => exact next (.inl hphase)
        next hphase => exact next (.inr hphase)
        · refine .bind (.log (.bind (.update (.pure (Pouring.settles ?_ nofun)))))
          exact h.changing _ rfl fun _ hp => hp.congr rfl rfl rfl rfl (by simp)
        · exact .pure (h.settles hp)
  | _ => exact .pure (h.settles hp)

/-- A later turn of a transfer that sends a file. -/
theorem resume_pours (lends : S.Lends) (reception : Reception) (h : Pours before v.self)
    (hp : v.self.phase ≠ .failed) :
    Ensures (Transfer.resume reception) v (fun _ => Pouring v before)
      (fun _ => Pouring v before) := by
  have start := Pouring.start h
  refine .resume (fun _ => start.givenUp) (fun _ events he => Pouring.settles ?_ hp) ?_
  · exact start.talks (View.talks_strangers he) fun _ => id
  · intro packet _ hne
    exact .handle hne (fun _ => handle_pours lends packet start hp)
      fun hd => nomatch hd.symm.trans h.direction

/-- The first turn of a transfer that sends a file. -/
theorem begin_pours (lends : S.Lends) (hd : v.self.direction = .read)
    (hw : v.self.writer = none) (hl : v.self.lastPacket = none) :
    Ensures Transfer.begin v (fun _ => Pouring v []) (fun _ => Pouring v []) := by
  -- As long as nothing has been said, all that has been said is in order.
  have silent {w : View S} (hs : v.Sends w []) (hd : w.self.direction = .read)
      (hw : w.self.writer = none) (hl : w.self.lastPacket = none) : Filled v [] w :=
    ⟨[], hs, .nil hd hw hl, List.forall_mem_nil _⟩
  have refused {w : View S} (h : Filled v [] w) : Pouring v [] w.givenUp := by
    obtain ⟨sent, hs, hp, -⟩ := h
    exact Pouring.givenUp ⟨sent, hs, hp⟩
  have hopened := (View.plain_talks (v := v) v.store
    (lends.openingPlain v.self.peer v.self.request.filename v.store).unlogged).sends
  have hstore := lends.opening v.self.peer v.self.request.filename v.store
  apply Ensures.begin
  unfold Transfer.start
  refine .bind (.self ?_)
  rw [hd]
  refine .bind (.self (.bind (.onStore ?_)))
  simp only [Storage.source, hstore]
  rcases hres : (S.openForReading v.self.peer v.self.request.filename v.store).result with
    f | _ | ⟨reader, fileSize⟩
  · exact refused (silent hopened hd hw hl)
  · exact refused (silent hopened hd hw hl)
  have hread := hopened.changing (fun t => { t with reader := some reader }) rfl
  refine .bind (.update (.bind (.settleTerms_or (fun terms _ => ?_)
    fun f _ => refused (silent hread hd hw hl))))
  have hterms := hread.changing (fun t => { t with terms }) rfl
  refine .bind (.log (.bind (.self ?_)))
  show Ensures (if terms.oackRequired then _ else _) _ _ _
  split
  · have waits : Phase.waitingAfterOack ≠ .failed := by decide
    refine .bind (.update (.bind (.send (.update (Pouring.settles ?_ waits)) fun f => ?_)))
    · refine ⟨_, (((hterms.changing _ rfl).sending _).changing _ rfl).changing _ rfl, ?_⟩
      have hp : Pours [] { v.self with reader := some reader, terms, block := 0 } := .nil hd hw hl
      exact hp.oack terms.oack rfl
    · exact refused (silent (hterms.changing _ rfl) hd hw hl)
  · exact .mono (sendNextBlock_pours lends (silent hterms hd hw hl))
      (fun _ w h => h.2.settles h.1) fun _ _ => id

/-- What has been said in a turn is what has been put on record. -/
theorem Pouring.pours {s : Scene S} {m : Reaction S Unit}
    (h : Pouring s.view before (s.after m).view) :
    Pours (before ++ sentTo s.self.peer (s.deedsOf m)) (s.after m).self := by
  obtain ⟨sent, hs, hp⟩ := h
  have hsent : sentTo s.self.peer (s.deedsOf m) = sent := hs.sentTo_deedsOf
  rw [hsent]
  exact hp

end Read

end Tftp.Transfer
