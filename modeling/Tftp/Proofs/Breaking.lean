import Tftp.Proofs.Downloads

/-!
# Files that cannot be read to their end

A source `Breaks` if it fails where its content ends. A transfer that sends such a file must not let
the failure look like the end of the file: it sends the full blocks of what it can read, and never a
shorter one.

A source that breaks cannot be told from one that goes on (`Source.continued`), whatever it goes on
with. So all that is known of a transfer that delivers a file holds, and it holds for every
continuation at once; what depends on none is within what can be read (`isPrefix_of_plans`). What
remains is the turn in which the failure is hit: `Filling` is all that can become of it.
-/

namespace Tftp

/-! ## Sources that break -/

namespace Storage.Source

variable {S : Storage}

/-- Where the content ends, reading fails. -/
def Breaks (source : S.Source) : Prop :=
  ∀ {state reader} n, 0 < n → source.Holds state reader [] →
    ∃ f, (S.read n (state, reader)).result = .error f

variable {source : S.Source}

/-- A source that breaks, taken for one that goes on. -/
def continued (source : S.Source) (breaks : source.Breaks) (more : Bytes) : S.Source where
  Holds state reader rest := ∃ held, source.Holds state reader held ∧ rest = held ++ more
  plain := by
    rintro state reader _ n ⟨held, hh, rfl⟩
    exact source.plain n hh
  read := by
    rintro state reader _ n bytes ⟨held, hh, rfl⟩ hb
    obtain ⟨rest, rfl, hl, hz, hh'⟩ := source.read n bytes hh hb
    refine ⟨rest ++ more, List.append_assoc .., hl, fun he => .inl ?_, rest, hh', rfl⟩
    -- A read that brings nothing has not come to the end, where it would have failed.
    rcases hz he with h0 | hend
    · exact h0
    · by_contra hn
      rw [hend] at hh
      obtain ⟨f, hf⟩ := breaks n (Nat.pos_of_ne_zero hn) hh
      cases hb.symm.trans hf

theorem offers_continued {breaks : source.Breaks} {store : S.State} {peer : Address}
    {filename content : Bytes} (h : source.Offers store peer filename content) (more : Bytes) :
    (source.continued breaks more).Offers store peer filename (content ++ more) where
  plain := h.plain
  opens reader size hr := ⟨content, h.opens reader size hr, rfl⟩

end Storage.Source

namespace Scripted

variable (script : Scripted)

variable {k : Nat} (state : Unit) {reader : Reader}

theorem read_of_ge (hk : script.failReadAt = some k) (n : Nat) (hp : k ≤ reader.position) :
    script.read n (state, reader) = { result := .error script.failure, state := (state, reader) } := by
  unfold read
  dsimp only
  rw [hk]
  exact if_pos hp

/-- Before the position where reading fails, a read goes at most up to there. -/
theorem read_of_lt (h : script.chunk ≠ some 0) (hk : script.failReadAt = some k) (n : Nat)
    (hp : reader.position < k) : ∃ m, m ≤ n ∧ m ≤ k - reader.position ∧ (m = 0 → n = 0) ∧
      script.read n (state, reader) =
        { result := .ok (reader.rest.take m)
          state := (state, ⟨reader.position + (reader.rest.take m).length, reader.rest.drop m⟩) } := by
  obtain ⟨hle, hz⟩ := script.chunk_le h n
  unfold read
  dsimp only
  rw [hk]
  exact ⟨_, Nat.le_trans (Nat.min_le_left ..) hle, Nat.min_le_right .., fun h0 => hz (by omega),
    if_neg (Nat.not_le.2 hp)⟩

/-- What can be read of a scripted storage that fails at some position. -/
def brokenSource (h : script.chunk ≠ some 0) (hk : script.failReadAt = some k) :
    script.storage.Source where
  Holds _ reader rest := reader.position + rest.length = k ∧ rest <+: reader.rest
  plain n _ := (script.source h).plain n rfl
  read := by
    rintro state reader rest n bytes ⟨hlen, more, hmore⟩ hb
    rcases Nat.lt_or_ge reader.position k with hp | hp
    · obtain ⟨m, hn, hm, hz, hr⟩ := script.read_of_lt state h hk n hp
      rw [show script.storage.read n (state, reader) = _ from hr] at hb ⊢
      cases hb
      have hm : m ≤ rest.length := by omega
      rw [← hmore, List.take_append_of_le_length hm, List.drop_append_of_le_length hm]
      refine ⟨rest.drop m, (List.take_append_drop m rest).symm, ?_, fun hnil => ?_, ?_,
        List.prefix_append ..⟩
      · rw [List.length_take]
        omega
      · exact (List.take_eq_nil_iff.1 hnil).imp_left hz
      · show reader.position + (rest.take m).length + (rest.drop m).length = k
        rw [List.length_take, List.length_drop]
        omega
    · rw [show script.storage.read n (state, reader) = _ from script.read_of_ge state hk n hp] at hb
      cases hb

theorem brokenSource_breaks {h : script.chunk ≠ some 0} {hk : script.failReadAt = some k} :
    (script.brokenSource h hk).Breaks := by
  rintro state reader n - ⟨hlen, -⟩
  refine ⟨script.failure, ?_⟩
  exact congrArg Answer.result (script.read_of_ge state hk n (by simpa using hlen.ge))

theorem brokenSource_offers {h : script.chunk ≠ some 0} {hk : script.failReadAt = some k}
    (hle : k ≤ script.content.length) (store : Unit) (peer : Address) (filename : Bytes) :
    (script.brokenSource h hk).Offers store peer filename (script.content.take k) where
  plain := (script.offers h store peer filename).plain
  opens reader size hr := by
    have hheld : reader = ⟨0, script.content⟩ := by
      rw [result_openForReading] at hr
      split at hr
      · cases hr
      · split at hr <;> cases hr
        rfl
    rw [hheld]
    refine ⟨?_, List.take_prefix ..⟩
    rw [Nat.zero_add, List.length_take, Nat.min_eq_left hle]

end Scripted

namespace Transfer

variable {S : Storage}

/-! ## A block that cannot be filled -/

namespace Ensures

variable {source : S.Source} {v : View S} {reader : S.Reader} {rest : Bytes}
  {Q : Bytes → View S → Prop} {E : Failure → View S → Prop}

/-- A block that is longer than what can be read cannot be filled. -/
theorem fill_breaks (breaks : source.Breaks) {n : Nat} {chunks : List Bytes}
    (hr : v.self.reader = some reader) (holds : source.Holds v.store reader rest)
    (short : rest.length < n)
    (fails : ∀ f reader' store events, S.HasFailed f (store, reader') → Plain events →
      E (.transfer f.report) (v.reading reader' store events)) :
    Ensures (Read.fill n chunks) v Q E := by
  induction n, chunks using Read.fill.induct generalizing v reader rest with
  | case1 chunks => exact absurd short (Nat.not_lt_zero _)
  | case2 n chunks hn ih =>
      rw [Read.fill, if_neg hn]
      refine bind (readSome hr holds ?_ fails)
      rintro bytes rest' reader' store events rfl hl hz hh hp hres
      by_cases hb : bytes = []
      · -- Nothing has been read, but that is no end.
        subst hb
        obtain rfl : rest' = [] := by simpa [hn] using hz rfl
        obtain ⟨f, hf⟩ := breaks n (Nat.pos_of_ne_zero hn) holds
        cases hres.symm.trans hf
      · rw [dif_neg hb]
        rw [List.length_append] at short
        refine ih bytes hb rfl hh (by omega) ?_
        intro f reader'' store' events' hf hp'
        simpa [View.reading] using fails f reader'' store' (events ++ events') hf (hp.append hp')

end Ensures

namespace Read

/-! ## What does not depend on how a source goes on -/

variable {terms : Terms} {size : Nat} {content : Bytes} {i n : Nat}

/-- How many blocks a content fills. -/
def fullBlocks (size : Nat) (content : Bytes) : Nat := content.length / size

/-- The packets that carry the full blocks of a content, the OACK included, each with its
acknowledgement. -/
def fullExchanges (terms : Terms) (size : Nat) (content : Bytes) : List Milestone :=
  exchanges terms size content (fullBlocks size content + 1 - first terms)

theorem mul_fullBlocks_le : fullBlocks size content * size ≤ content.length :=
  Nat.div_mul_le_self ..

theorem length_lt_fullBlocks_succ (content : Bytes) (pos : 0 < size) :
    content.length < (fullBlocks size content + 1) * size := by
  rw [Nat.mul_comm]
  exact Nat.lt_mul_div_succ content.length pos

theorem le_fullBlocks_iff (pos : 0 < size) : i ≤ fullBlocks size content ↔ i * size ≤ content.length :=
  Nat.le_div_iff_mul_le pos

theorem length_blockAt_of_le (hi : 1 ≤ i) (hle : i * size ≤ content.length) :
    (blockAt size content i).length = size := by
  obtain ⟨j, rfl⟩ : ∃ j, i = j + 1 := ⟨i - 1, by omega⟩
  rw [Nat.succ_mul] at hle
  rw [length_blockAt, Nat.add_sub_cancel]
  omega

theorem blockAt_append (hi : 1 ≤ i) (hle : i * size ≤ content.length) (more : Bytes) :
    blockAt size (content ++ more) i = blockAt size content i := by
  obtain ⟨j, rfl⟩ : ∃ j, i = j + 1 := ⟨i - 1, by omega⟩
  rw [Nat.succ_mul] at hle
  rw [blockAt, blockAt, Nat.add_sub_cancel, List.drop_append_of_le_length (by omega),
    List.take_append_of_le_length (by rw [List.length_drop]; omega)]

theorem packet_append (hle : i * size ≤ content.length) (more : Bytes) :
    packet terms size (content ++ more) i = packet terms size content i := by
  cases i with
  | zero => rfl
  | succ i => rw [packet, packet, blockAt_append (Nat.succ_pos i) hle]

/-- As long as the blocks are full, a content is not told from one that goes on. -/
theorem exchanges_append (pos : 0 < size) (hn : n ≤ fullBlocks size content + 1 - first terms)
    (more : Bytes) :
    exchanges terms size (content ++ more) n = exchanges terms size content n := by
  induction n with
  | zero => rfl
  | succ n ih =>
      have hle : (first terms + n) * size ≤ content.length :=
        (le_fullBlocks_iff pos).1 (by omega)
      rw [exchanges_succ, exchanges_succ, ih (by omega), exchange, exchange, packet_append hle]

/-- What a source goes on with for the sake of the argument. -/
def padding (size : Nat) (byte : UInt8) : Bytes := List.replicate size byte

theorem fullBlocks_padded (content : Bytes) (pos : 0 < size) (byte : UInt8) :
    fullBlocks size (content ++ padding size byte) = fullBlocks size content + 1 := by
  rw [fullBlocks, List.length_append, padding, List.length_replicate, Nat.add_div_right _ pos]
  rfl

/-- The first block that is not full shows how the source goes on. -/
theorem blockAt_padded_inj (pos : 0 < size) {a b : UInt8}
    (h : blockAt size (content ++ padding size a) (fullBlocks size content + 1) =
      blockAt size (content ++ padding size b) (fullBlocks size content + 1)) : a = b := by
  have hle : fullBlocks size content * size ≤ content.length := mul_fullBlocks_le
  have hlt := length_lt_fullBlocks_succ content pos
  rw [Nat.succ_mul] at hlt
  have last (byte : UInt8) : (blockAt size (content ++ padding size byte)
      (fullBlocks size content + 1)).getLast? = some byte := by
    rw [blockAt, Nat.add_sub_cancel, List.drop_append_of_le_length hle, List.take_append,
      List.take_of_length_le (by rw [List.length_drop]; omega), padding, List.take_replicate,
      List.getLast?_append, List.getLast?_replicate, if_neg (by rw [List.length_drop]; omega)]
    rfl
  have := (last a).symm.trans ((congrArg List.getLast? h).trans (last b))
  exact Option.some.inj this

/-- **What fits every continuation is full blocks only.** -/
theorem isPrefix_of_plans (pos : 0 < size) {told : List Milestone}
    (h : ∀ byte, told <+: plan terms size (content ++ padding size byte)) :
    told <+: fullExchanges terms size content := by
  have hfirst := first_le_one terms
  -- Both plans go on with the first block that is not full.
  have next (byte : UInt8) : fullExchanges terms size content ++
      [.sent (packet terms size (content ++ padding size byte)
        (fullBlocks size content + 1)).encode] <+:
        plan terms size (content ++ padding size byte) := by
    have hcount : fullBlocks size content + 1 - first terms + 1 ≤
        packetCount terms size (content ++ padding size byte) := by
      have := fullBlocks_padded content pos byte
      rw [packetCount, blockCount]
      rw [fullBlocks] at this
      omega
    refine List.IsPrefix.trans ?_ (exchanges_isPrefix hcount)
    rw [exchanges_succ, exchanges_append pos (Nat.le_refl _), fullExchanges,
      show first terms + (fullBlocks size content + 1 - first terms) =
        fullBlocks size content + 1 by omega, List.prefix_append_right_inj]
    exact ⟨[_], rfl⟩
  rcases Nat.lt_or_ge (fullExchanges terms size content).length told.length with hl | hl
  · have within (byte : UInt8) := List.prefix_of_prefix_length_le (next byte) (h byte)
      (by rw [List.length_append, List.length_singleton]; exact hl)
    have heq := List.prefix_of_prefix_length_le (within 0) (within 1) (by simp)
    have heq := List.append_cancel_left (heq.eq_of_length (by simp))
    have hbytes := (Packet.data_inj (Milestone.sent.inj (List.cons.inj heq).1)).2
    exact absurd (blockAt_padded_inj pos hbytes) (by decide)
  · exact List.prefix_of_prefix_length_le (h 0)
      ((List.prefix_append _ _).trans (next 0)) hl

/-! ## What is sent of a file that breaks -/

section

variable {source : S.Source} {breaks : source.Breaks} {terms : Terms} {size : Nat} {content : Bytes}
  {i : Nat} {t : Transfer S} {store : S.State} {peer : Address} {history : List Occurrence}
  {v : View S}

/-- A transfer that sends a file that breaks, taken for one of a file that goes on. -/
theorem Fresh.continued (fresh : Fresh source size content v) (breaks : source.Breaks) (more : Bytes) :
    Fresh (source.continued breaks more) size (content ++ more) v :=
  { fresh with offers := Storage.Source.offers_continued fresh.offers more }

/-- No more blocks are read than can be filled. -/
theorem HasRead.within (h : HasRead (source.continued breaks (padding size 0)) size
      (content ++ padding size 0) i t store) :
    HasRead source size content i t store ∧ i ≤ fullBlocks size content := by
  obtain ⟨reader, hr, held, hh, he⟩ := h.reader
  have hlen := congrArg List.length he
  rw [List.length_drop, List.length_append, List.length_append, padding, List.length_replicate]
    at hlen
  have pos := h.pos
  have hle : i * size ≤ content.length := by omega
  rw [List.drop_append_of_le_length hle] at he
  obtain rfl := List.append_cancel_right he
  exact ⟨{ h with reader := ⟨reader, hr, hh⟩ }, (le_fullBlocks_iff pos).2 hle⟩

/-- What holds of a transfer of a file that breaks, between two turns. -/
structure Confined (source : S.Source) (size : Nat) (content : Bytes) (peer : Address)
    (history : List Occurrence) (v : View S) : Prop where
  peer_eq : v.self.peer = peer
  told : outline peer (awaits v.self.terms) history <+: fullExchanges v.self.terms size content
  phase : v.self.phase ≠ .waitingLastAck ∧ v.self.phase ≠ .readEnd
  waits : v.self.isWaiting = true → ∃ i, first v.self.terms ≤ i ∧ i ≤ fullBlocks size content ∧
    (v.self.phase = .waitingAfterOack ∨ v.self.phase = .waitingAck) ∧
    HasRead source size content i v.self v.store ∧
    outline peer (awaits v.self.terms) history =
      exchanges v.self.terms size content (i - first v.self.terms) ++
        [.sent (packet v.self.terms size content i).encode]

theorem length_fullExchanges_lt (pos : 0 < size) (byte : UInt8) :
    (fullExchanges terms size content).length <
      (plan terms size (content ++ padding size byte)).length := by
  have := fullBlocks_padded content pos byte
  have := first_le_one terms
  have hcount : blockCount size (content ++ padding size byte) =
      fullBlocks size (content ++ padding size byte) + 1 := rfl
  rw [fullExchanges, plan, length_exchanges, length_exchanges, packetCount]
  omega

/-- **However its history has gone, a transfer of a file that breaks is confined to what can be
read.** -/
theorem Fresh.confined {s₀ s : Scene S} (fresh : Fresh source size content s₀.view)
    (breaks : source.Breaks) (h : History s₀ history s) :
    Confined source size content s₀.view.self.peer history s.view := by
  have pos := fresh.pos
  have stands (byte : UInt8) := (fresh.continued breaks (padding size byte)).stands h
  have told : outline s₀.view.self.peer (awaits s.view.self.terms) history <+:
      fullExchanges s.view.self.terms size content := by
    refine isPrefix_of_plans pos fun byte => ?_
    rcases (stands byte).2.unfinished_or_complete with ⟨-, hu⟩ | ⟨-, he⟩
    · exact hu.isPrefix
    · exact he ▸ List.prefix_refl _
  obtain ⟨hpeer, standing⟩ := stands 0
  cases standing with
  | fresh hf _ =>
      have hp : s.view.self.phase = .initial := hf.phase
      exact ⟨hpeer, told, by simp [hp], by simp [isWaiting, hp]⟩
  | failed hf _ =>
      have hp : s.view.self.phase = .failed := hf.phase
      exact ⟨hpeer, told, by simp [hp], by simp [isWaiting, isOver, hp, Phase.isOver]⟩
  | ended _ he =>
      have := told.length_le
      rw [he] at this
      exact absurd (length_fullExchanges_lt pos 0) (Nat.not_lt.2 this)
  | sending i hs hi =>
      obtain ⟨hread, hle⟩ := hs.toHasRead.within
      have hlow := hs.low
      -- Of the file that goes on this is not the last block.
      have hlt : i < blockCount size (content ++ padding size 0) := by
        have := fullBlocks_padded content pos 0
        exact Nat.lt_succ_of_le (by rw [← fullBlocks]; omega)
      have hp : s.view.self.phase = .waitingAfterOack ∨ s.view.self.phase = .waitingAck :=
        hs.phase ▸ phaseAt_of_lt hlt
      have hpacket : packet s.view.self.terms size (content ++ padding size 0) i = _ :=
        packet_append ((le_fullBlocks_iff pos).1 hle) (padding size 0)
      refine ⟨hpeer, told, ?_, fun _ => ⟨i, hlow, hle, hp, hread, ?_⟩⟩
      · rcases hp with hp | hp <;> simp [hp]
      · rw [outline, hi, toldSending, hpacket, exchanges_append pos (by omega)]

end

end Read

/-! ## Where a transfer breaks off -/

namespace Ensures

variable {v : View S} {U : Unit → View S → Prop} {E : Failure → View S → Prop}

/-- A transfer that writes no file has none to give up. -/
theorem leave_idle (hw : v.self.writer = none) (ok : U () v) : Ensures Transfer.leave v U E := by
  refine bind (self ?_)
  split
  · exact bind (onWriter (fun _ => log ok) fun writer hw' => nomatch hw.symm.trans hw')
  · exact log ok

/-- So it fails as its reaction does. -/
theorem guarded_idle {m : Reaction S Unit} {P : Except Failure Unit → View S → Prop}
    (h : Ensures m v (fun _ w => w.self.writer = none ∧ P (.ok ()) w) (fun f w =>
      w.self.writer = none ∧ P (.error f) (w.changing fun t => { t with phase := .failed }))) :
    Ensures (Transfer.guarded m) v (fun _ => P (.ok ())) (fun f => P (.error f)) := by
  refine bind (tryCatch (mono h ?_ ?_))
  · rintro ⟨⟩ w ⟨hw, hP⟩
    refine bind (self ?_)
    split
    · exact leave_idle hw hP
    · exact pure hP
  · rintro f w ⟨hw, hP⟩
    exact bind (update (bind (leave_idle hw (throw hP))))

end Ensures

namespace Read

variable {source : S.Source} {terms : Terms} {size : Nat} {content : Bytes} {i : Nat} {v : View S}

/-- What can become of a turn in which block `i + 1` is to be sent. -/
inductive Filling (size : Nat) (content : Bytes) (i : Nat) (v : View S)
    (result : Except Failure Unit) (w : View S) : Prop
  /-- A read fails. What has been read of the block goes nowhere, the block is not counted, and the
  transfer fails as the read has failed. -/
  | breaks (f : Failure) (reader : S.Reader) : w.self.reader = some reader →
      S.HasFailed f (w.store, reader) → result = .error (.transfer f.report) →
      v.Talks w [] → w.self.block = v.self.block → w.self.phase = .failed →
      Filling size content i v result w
  /-- There is enough to fill the block. -/
  | fills : i < fullBlocks size content → w.self.block = UInt16.ofNat (i + 1) →
      Filling size content i v result w

/-- A block that has been filled stays so until the turn ends. -/
theorem settle_filled {w : View S} (hi : i < fullBlocks size content)
    (hw : w.self.writer = none) (hb : w.self.block = UInt16.ofNat (i + 1)) :
    Ensures Transfer.settle w
      (fun _ w' => w'.self.writer = none ∧ Filling size content i v (.ok ()) w')
      (fun f w' => w'.self.writer = none ∧ Filling size content i v (.error f)
        (w'.changing fun t => { t with phase := .failed })) := by
  have repeated {w' : View S} (hr : w.Repeats w') : w'.self.writer = none ∧
      w'.self.block = UInt16.ofNat (i + 1) := by
    obtain ⟨retries, deadline, hs⟩ := hr.self
    rw [hs]
    exact ⟨hw, hb⟩
  exact .settle (fun _ hr => ⟨(repeated hr).1, .fills hi (repeated hr).2⟩)
    fun _ _ hr => ⟨(repeated hr).1, .fills hi (repeated hr).2⟩

/-- The next block is filled, or a read fails. -/
theorem sendNextBlock_fills {w : View S} (breaks : source.Breaks)
    (h : HasRead source size content i w.self w.store) (hi : i ≤ fullBlocks size content)
    (quiet : v.Talks w []) (hb : w.self.block = v.self.block) :
    Ensures Read.sendNextBlock w
      (fun _ w' => i < fullBlocks size content ∧ w'.self.writer = none ∧
        w'.self.block = UInt16.ofNat (i + 1))
      (fun f w' => w'.self.writer = none ∧ Filling size content i v (.error f)
        (w'.changing fun t => { t with phase := .failed })) := by
  obtain ⟨reader, hr, holds⟩ := h.reader
  have hle : i * size ≤ content.length := (le_fullBlocks_iff h.pos).1 hi
  refine .bind (.self ?_)
  rw [h.agreed]
  have fails (f : Failure) (reader' : S.Reader) (store : S.State) (events : List Event)
      (hf : S.HasFailed f (store, reader')) (hp : Plain events) :
      (w.reading reader' store events).self.writer = none ∧ Filling size content i v
        (.error (.transfer f.report)) ((w.reading reader' store events).changing fun t =>
          { t with phase := .failed }) :=
    ⟨h.writer, .breaks f reader' rfl hf rfl ((quiet.trans (reading_talks hp)).changing _ rfl) hb rfl⟩
  rcases Nat.lt_or_ge (content.drop (i * size)).length size with hlt | hge
  · exact .bind (.fill_breaks breaks hr holds hlt fails)
  · have hi : i < fullBlocks size content := by
      rw [List.length_drop] at hge
      exact (le_fullBlocks_iff h.pos).2 (by rw [Nat.succ_mul]; omega)
    have hblock : w.self.block + 1 = UInt16.ofNat (i + 1) :=
      (congrArg (· + 1) h.block).trans (ofNat_succ i).symm
    refine .bind (.fill hr holds (fun reader' store events _ _ => ?_) fails)
    refine .bind (.update (.bind (.self (.bind (.send (.update ?_) fun f => ?_)))))
    · exact ⟨hi, h.writer, hblock⟩
    · exact ⟨h.writer, .fills hi hblock⟩

/-- The acknowledgement of a packet makes a transfer go on with the next block. -/
theorem resume_fills (breaks : source.Breaks) (h : HasRead source size content i v.self v.store)
    (hi : i ≤ fullBlocks size content)
    (hphase : v.self.phase = .waitingAfterOack ∨ v.self.phase = .waitingAck)
    {reception : Reception} (ha : Acknowledges v i reception) :
    Ensures (Transfer.resume reception) v (fun _ => Filling size content i v (.ok ()))
      (fun f => Filling size content i v (.error f)) := by
  rw [resume_eq]
  refine .guarded_idle (.bind (.bind (.heed ?_ ?_ ?_ ?_)))
  · intro f hf
    cases ha.symm.trans (Reception.packetFrom_of_failed hf)
  · intro code message hp
    cases ha.symm.trans hp
  · intro hn
    cases ha.symm.trans hn
  · intro p hp hne
    obtain rfl := Option.some.inj (hp.symm.trans ha)
    refine .handle hne (fun _ => .bind (.self ?_)) fun hd => nomatch hd.symm.trans h.direction
    rw [if_neg (by simp [h.block])]
    -- After the OACK and after a full block it is the same.
    rcases hphase with hphase | hphase <;> rw [hphase] <;>
      exact .bind (.mono (sendNextBlock_fills breaks h hi (.refl v) rfl) (fun _ w ⟨hi, hw, hb⟩ =>
        .pure (.bind (.bind (.update (.rearm (.pure (settle_filled hi hw hb))))))) fun _ _ => id)

/-- A transfer that does not have to wait for the acknowledgement of an OACK begins with the first
block. -/
theorem begin_fills (breaks : source.Breaks) (fresh : Fresh source size content v)
    {reader : S.Reader} {fileSize : Option UInt64}
    (opened : (S.openForReading v.self.peer v.self.request.filename v.store).result =
      .ok (some (reader, fileSize)))
    (settled : negotiate v.self.request.options v.self.config .read fileSize = .ok terms)
    (plain : terms.oackRequired = false) :
    Ensures Transfer.begin v (fun _ => Filling size content 0 v (.ok ()))
      (fun f => Filling size content 0 v (.error f)) := by
  rw [begin_eq]
  refine .guarded_idle (.bind (.bind ?_))
  unfold Transfer.start
  refine .bind (.self ?_)
  rw [fresh.direction]
  refine .bind (.self (.bind (.onStore ?_)))
  -- The file is opened and the terms are settled as assumed, so the first block is what is next.
  have quiet := View.plain_talks (v := v) (S.openForReading v.self.peer v.self.request.filename
    v.store).state (Plain.unlogged fresh.offers.plain)
  have holds := fresh.offers.opens reader fileSize opened
  simp only [Storage.source, opened]
  refine .bind (.update (.bind (.settleTerms_or (fun terms' hn => ?_) fun f hf => ?_)))
  · have hn : negotiate v.self.request.options v.self.config v.self.direction fileSize =
      .ok terms' := hn
    rw [fresh.direction, settled] at hn
    cases hn
    have agreed := (congrArg UInt16.toNat (negotiate_blockSize settled)).trans fresh.agreed
    refine .bind (.log (.bind (.self ?_)))
    rw [if_neg (by simp [View.changing, plain])]
    refine .mono (sendNextBlock_fills breaks ?_ (Nat.zero_le _)
      ((quiet.changing _ rfl).changing _ rfl) rfl) ?_ fun _ _ => id
    case refine_2 =>
      rintro _ w ⟨hi, hw, hb⟩
      exact .bind (.rearm (.pure (settle_filled hi hw hb)))
    exact {
      direction := fresh.direction
      writer := fresh.writer
      agreed := agreed
      pos := fresh.pos
      block := fresh.block
      reader := ⟨reader, rfl, by simpa [View.changing] using holds⟩ }
  · have hf : negotiate v.self.request.options v.self.config v.self.direction fileSize =
      .error f := hf
    rw [fresh.direction, settled] at hf
    cases hf

end Read

/-! ## Every history -/

theorem mem_destutter_of_mem {α : Type} [DecidableEq α] {l : List α} {x : α} (h : x ∈ l) :
    x ∈ l.destutter (· ≠ ·) := by
  induction l using List.reverseRecOn with
  | nil => exact h
  | append_singleton l y ih =>
      rw [destutter_concat]
      split
      next hl =>
        rcases List.mem_append.1 h with h | h
        · exact ih h
        · exact ih (List.mem_singleton.1 h ▸ List.mem_of_getLast? hl)
      next =>
        rcases List.mem_append.1 h with h | h
        · exact List.mem_append_left _ (ih h)
        · exact List.mem_append_right _ h

/-- Every datagram to the peer is in the outline. -/
theorem mem_outline_of_sent {peer : Address} {counts : Nat → Packet → Bool}
    {history : List Occurrence} {bytes : Bytes} (h : bytes ∈ sentIn peer history) :
    Milestone.sent bytes ∈ outline peer counts history := by
  have h := mem_destutter_of_mem h
  rw [← (telling_covers peer counts history).sent] at h
  obtain ⟨milestone, hm, hs⟩ := List.mem_filterMap.1 h
  cases milestone <;> cases hs
  exact hm

namespace Read

variable {source : S.Source} {size : Nat} {content : Bytes}

/-- The blocks in a part of the plan, as they come out of the datagrams. -/
theorem data_of_mem_exchanges {terms : Terms} {n : Nat} {bytes payload : Bytes} {number : UInt16}
    (hm : Milestone.sent bytes ∈ exchanges terms size content n)
    (hp : Packet.parse bytes = .ok (.data number payload)) :
    ∃ i, 1 ≤ i ∧ i < first terms + n ∧ number = UInt16.ofNat i ∧
      payload = blockAt size content i := by
  obtain ⟨j, hj, hm⟩ := List.mem_flatMap.1 hm
  have hj := List.mem_range.1 hj
  obtain rfl : bytes = (packet terms size content (first terms + j)).encode := by
    simpa [exchange] using hm
  cases hi : first terms + j with
  | zero =>
      rw [hi, packet, ← List.take_length (l := Packet.encode _)] at hp
      obtain ⟨options, ho⟩ := Packet.parse_take_oack hp
      cases ho
  | succ i =>
      rw [hi, packet, Packet.parse_data] at hp
      cases hp
      exact ⟨i + 1, by omega, by omega, rfl, rfl⟩

/-- **A file that cannot be read to its end never looks complete.** Whatever a transfer takes in
that sends such a file, its outline is the beginning of the full blocks of what can be read, every
block that it sends is one of them, and it comes neither to its last block nor to its end. When the
packet that is out is acknowledged, and at the beginning if there is no OACK, the next block is
filled, of which there is none after the last full one; or else a read fails, and the transfer fails
as the read has failed, without sending what has been read. -/
theorem breaks_off (breaks : source.Breaks) {request : Request} {peer : Address} {socket : Socket}
    {config : Config} {heedsStop : Bool} {world : World S}
    (offers : source.Offers world.store peer request.filename content)
    (agreed : (agreedBlockSize request.options config).toNat = size) (pos : 0 < size) :
    let start : Scene S := ⟨.new S .read request peer socket config heedsStop, world⟩
    (∀ reader fileSize terms,
      (S.openForReading peer request.filename world.store).result = .ok (some (reader, fileSize)) →
      negotiate request.options config .read fileSize = .ok terms → terms.oackRequired = false →
      Filling size content 0 start.view (start.resultOf begin) (start.after begin).view) ∧
    ∀ {history : List Occurrence} {s : Scene S}, History start history s →
      let told := outline peer (awaits s.self.terms) history
      told <+: fullExchanges s.self.terms size content ∧
      (∀ bytes ∈ sentIn peer history, ∀ number payload,
        Packet.parse bytes = .ok (.data number payload) →
        payload.length = size ∧ ∃ i, 1 ≤ i ∧ i ≤ fullBlocks size content ∧
          number = UInt16.ofNat i ∧ payload = blockAt size content i) ∧
      s.self.phase ≠ .waitingLastAck ∧ s.self.phase ≠ .readEnd ∧
      (s.self.isWaiting = true → ∃ i, first s.self.terms ≤ i ∧ i ≤ fullBlocks size content ∧
        told = exchanges s.self.terms size content (i - first s.self.terms) ++
          [.sent (packet s.self.terms size content i).encode] ∧
        ∀ reception : Reception, reception.packetFrom peer = some (.ack (UInt16.ofNat i)) →
          Filling size content i s.view (s.resultOf (resume reception))
            (s.after (resume reception)).view) := by
  intro start
  have fresh : Fresh source size content start.view := ⟨rfl, rfl, rfl, rfl, agreed, pos, offers⟩
  refine ⟨fun reader fileSize terms opened settled plain =>
    (begin_fills breaks fresh opened settled plain).outcome, fun {history s} h => ?_⟩
  have confined := fresh.confined breaks h
  refine ⟨confined.told, fun bytes hb number payload hp => ?_, confined.phase.1, confined.phase.2,
    fun hw => ?_⟩
  · have hm : Milestone.sent bytes ∈ outline peer (awaits s.self.terms) history :=
      mem_outline_of_sent hb
    obtain ⟨i, hlow, hi, rfl, rfl⟩ := data_of_mem_exchanges (confined.told.subset hm) hp
    have hfirst := first_le_one s.self.terms
    have hi : i ≤ fullBlocks size content := by
      have hi : i < first s.self.terms + (fullBlocks size content + 1 - first s.self.terms) := hi
      omega
    exact ⟨length_blockAt_of_le hlow ((le_fullBlocks_iff pos).1 hi), i, hlow, hi, rfl, rfl⟩
  · obtain ⟨i, hlow, hi, hphase, hread, htold⟩ := confined.waits hw
    refine ⟨i, hlow, hi, htold, fun reception hr => ?_⟩
    have ha : Acknowledges s.view i reception := by rwa [Acknowledges, confined.peer_eq]
    exact (resume_fills breaks hread hi hphase ha).outcome

/-- A file of twenty bytes of which only twelve can be read, five at a time. -/
def twelveOfTwenty : Scripted where
  content := ascii "0123456789abcdefghij"
  chunk := some 5
  failReadAt := some 12

def halfway (options : Options) : Scene twelveOfTwenty.storage where
  self := .new _ .read ⟨ascii "digits", .octet, options⟩ ⟨⟨10, 0, 0, 1⟩, 5000⟩
    ⟨⟨⟨10, 0, 0, 2⟩, 40000⟩⟩ {} true
  world := { store := () }

/-- In blocks of eight bytes the first one is sent, and then the second one cannot be filled. In
blocks of the usual size that is already so of the first one. -/
theorem breaks_off_halfway :
    (∃ history s, History (halfway { blockSize := some 8 }) history s ∧
      Filling 8 (ascii "0123456789ab") 1 s.view
        (s.resultOf (resume (.datagram ⟨⟨10, 0, 0, 1⟩, 5000⟩ (Packet.ack 1).encode)))
        (s.after (resume (.datagram ⟨⟨10, 0, 0, 1⟩, 5000⟩ (Packet.ack 1).encode))).view ∧
      fullBlocks 8 (ascii "0123456789ab") = 1) ∧
    Filling 512 (ascii "0123456789ab") 0 (halfway {}).view ((halfway {}).resultOf begin)
      ((halfway {}).after begin).view := by
  have breaks : (twelveOfTwenty.brokenSource (by decide) rfl).Breaks :=
    twelveOfTwenty.brokenSource_breaks
  have offers (options : Options) : (twelveOfTwenty.brokenSource (by decide) rfl).Offers _ _ _ _ :=
    twelveOfTwenty.brokenSource_offers (by decide) () (halfway options).self.peer
      (halfway options).self.request.filename
  constructor
  · have h₁ : History (halfway { blockSize := some 8 }) _ _ := .turn .start (.begins rfl)
    have h₂ := h₁.turn (.resumes (.datagram ⟨⟨10, 0, 0, 1⟩, 5000⟩ (Packet.ack 0).encode)
      (by decide +kernel))
    refine ⟨_, _, h₂, ?_, rfl⟩
    obtain ⟨-, -, -, -, hw⟩ := (breaks_off breaks (offers _) rfl (by decide)).2 h₂
    obtain ⟨i, -, -, htold, hf⟩ := hw (by decide +kernel)
    have hi := (congrArg List.length htold).symm.trans (show _ = 3 by decide +kernel)
    rw [List.length_append, length_exchanges, List.length_singleton,
      show first _ = 0 by decide +kernel] at hi
    obtain rfl : i = 1 := by omega
    exact hf _ (by decide +kernel)
  · exact (breaks_off breaks (offers {}) rfl (by decide)).1 _ none _ rfl rfl rfl

end Read

end Transfer

end Tftp
