import Tftp.Proofs.Commitment
import Tftp.Proofs.Emission
import Tftp.Proofs.FullBlocks

/-!
# Every transfer keeps its measures

The blocks that a server sends for a transfer are measured by the terms of this transfer, and these
have been negotiated under the configuration with which the server was made. `Restrained` is what a
transfer preserves from turn to turn, and `Course.measured` says it of all transfers at all times: no
block is longer than the block size, and all but the last are full.
-/

namespace Tftp.Server

open Transfer

variable {S : Storage}

/-! ## The configuration stays -/

theorem config_act (server : Server S) (act : Act S Unit) :
    (server.act act).config = server.config := by
  unfold Server.act
  split <;> rfl

theorem config_accept (server : Server S) (sender : Address) (bytes : Bytes) :
    (server.accept sender bytes).2.config = server.config := by
  obtain ⟨registry, faults, lines, he, -⟩ := accept_noted server sender bytes
  rw [he]

theorem config_dealWith (server : Server S) (p : Passage S) :
    (server.dealWith p).1.config = server.config := by
  have ended (server : Server S) (peer : Address) :
      ((server.act (World.onNetwork Network.close)).dismiss peer).config = server.config :=
    config_act ..
  unfold dealWith Server.settle
  cases p.result with
  | error f => exact (ended ..).trans (config_act ..)
  | ok u =>
      dsimp only
      split
      · exact ended ..
      · rfl

theorem config_launch (server : Server S) (assignment : Assignment) :
    (server.launch assignment).config = server.config := by
  cases h : server.askSocket with
  | ok socket world =>
      rw [launch_of_ok assignment h]
      exact config_dealWith ..
  | error f world =>
      unfold launch
      rw [commence_of_error assignment h]
      exact config_act { server with world } _

/-- Nothing that a server does changes its configuration. -/
theorem Course.config {start a : Affairs S} {deeds : List (Deed S)} (run : Course start deeds a) :
    a.server.config = start.server.config := by
  induction run with
  | refl => rfl
  | step _ hstep ih =>
      refine Eq.trans ?_ ih
      cases hstep with
      | hears sender bytes => exact config_accept ..
      | lacks | begins => exact config_launch ..
      | resumes reception =>
          rw [resume_eq_dealWith]
          exact config_dealWith ..
      | meanwhile => rfl

theorem mem_sentTo_iff {peer : Address} {events : List Event} {bytes : Bytes} :
    bytes ∈ sentTo peer events ↔ ∃ sender time, .sent sender peer bytes time ∈ events := by
  unfold sentTo
  rw [List.mem_filterMap]
  constructor
  · rintro ⟨e, he, hb⟩
    cases e with
    | sent sender receiver bytes' time =>
        obtain ⟨rfl, ⟨⟩⟩ := Option.ite_none_right_eq_some.1 hb
        exact ⟨sender, time, he⟩
    | _ => cases hb
  · rintro ⟨sender, time, he⟩
    exact ⟨_, he, if_pos rfl⟩

/-- Of what a transfer keeps to, that which goes to its client is owed. -/
theorem owed_of_kept (coded : S.Coded) {t : Transfer S} {events : List Event}
    (h : ∀ e ∈ events, Kept t e) :
    ∀ bytes ∈ sentTo t.peer events, ∃ packet, Owes t packet ∧ bytes = packet.encode := by
  intro bytes hm
  obtain ⟨sender, time, he⟩ := mem_sentTo_iff.1 hm
  generalize hp : t.peer = peer at he
  cases h _ he with
  | said _ _ ho => exact ⟨_, ho, rfl⟩
  | stranger _ _ _ hne => exact absurd hp.symm hne
  | asked ha hm => cases (coded.silent ha.reports _ hm).symm.trans rfl

/-- Only who sends a file owes blocks, and none is longer than the block size. -/
theorem length_of_owes {t : Transfer S} {packet : Packet} (ho : Owes t packet) {payload : Bytes}
    (hp : payload? packet.encode = some payload) :
    t.direction = .read ∧ payload.length ≤ t.terms.blockSize.toNat := by
  cases packet with
  | data block payload' =>
      obtain rfl := Option.some.inj ((payload?_eq_some_iff.2 ⟨block, rfl⟩).symm.trans hp)
      exact ho
  | ack block =>
      have hnone : payload? (Packet.ack block).encode = none :=
        payload?_eq_none (show (4 : UInt16) ≠ 3 by decide)
      cases hnone.symm.trans hp
  | oack options =>
      have hnone : payload? (Packet.oack options).encode = none :=
        payload?_eq_none (show (6 : UInt16) ≠ 3 by decide)
      cases hnone.symm.trans hp
  | _ => cases ho

/-- A transfer that has said so much to its client, and has kept to its terms. -/
structure Restrained (peer : Address) (terms : Terms) (said : List Bytes) (t : Transfer S) :
    Prop where
  peer : t.peer = peer
  terms : t.terms = terms
  last : ∀ packet, t.lastPacket = some packet → Owes t packet
  owed : ∀ bytes ∈ said, ∃ packet, Owes t packet ∧ bytes = packet.encode
  pours : t.direction = .read → Read.Pours said t

namespace Restrained

variable {peer : Address} {terms : Terms} {said : List Bytes} {t : Transfer S} {s : Scene S}

/-- The first turn of a transfer. -/
theorem begins (coded : S.Coded) (lends : S.Lends) (hw : s.self.writer = none)
    (hl : s.self.lastPacket = none) : Restrained s.self.peer (s.after begin).self.terms
      (sentTo s.self.peer (s.deedsOf begin)) (s.after begin).self := by
  have h := begin_committed hl
  refine ⟨h.peer, rfl, h.last, ?_, fun hd => ?_⟩
  · rw [← h.peer]
    exact owed_of_kept coded h.kept
  · exact (Read.begin_pours lends (v := s.view) (h.direction.symm.trans hd) hw hl).after.pours

/-- A later turn of a transfer. -/
theorem resumes (coded : S.Coded) (lends : S.Lends) (h : Restrained peer terms said s.self)
    (hp : s.self.phase ≠ .failed) (reception : Reception) :
    Restrained peer terms (said ++ sentTo peer (s.deedsOf (Transfer.resume reception)))
      (s.after (Transfer.resume reception)).self := by
  -- What the transfer has owed before it still owes, as it is bound to the same terms.
  have hc := resume_continues h.last reception
  have back := hc.bond.symm
  have hb := hc.bond
  simp only [bond, Prod.mk.injEq] at hb
  obtain ⟨hd, -, hpeer, -, hterms⟩ := hb
  obtain ⟨events, ht, he⟩ := hc.trace
  refine ⟨hpeer.trans h.peer, hterms.trans h.terms,
    fun packet hl => (hc.last packet hl).congr back, fun bytes hm => ?_, fun hr => ?_⟩
  · have owed : ∃ packet, Owes s.self packet ∧ bytes = packet.encode := by
      rcases List.mem_append.1 hm with hm | hm
      · exact h.owed bytes hm
      · rw [← h.peer] at hm
        exact owed_of_kept coded (fun e hm => he e (mem_of_deedsOf ht e hm)) bytes hm
    obtain ⟨packet, ho, rfl⟩ := owed
    exact ⟨packet, ho.congr back, rfl⟩
  · rw [← h.peer]
    have hpours := h.pours (hd.symm.trans hr)
    exact (Read.resume_pours lends reception (v := s.view) hpours hp).after.pours

/-- No block is longer than the block size. -/
theorem fits (h : Restrained peer terms said t) {block : UInt16} {payload : Bytes}
    (hm : (Packet.data block payload).encode ∈ said) :
    payload.length ≤ terms.blockSize.toNat := by
  obtain ⟨packet, ho, he⟩ := h.owed _ hm
  rw [← h.terms]
  exact (length_of_owes ho (payload?_eq_some_iff.2 ⟨block, he.symm⟩)).2

/-- All blocks but the last are full. -/
theorem full (h : Restrained peer terms said t) :
    ∀ payload ∈ (payloads said).dropLast, payload.length = terms.blockSize.toNat := by
  cases hd : t.direction with
  | read => exact h.terms ▸ (h.pours hd).full
  | write =>
      -- Who receives a file sends no blocks.
      have hnone : payloads ([] ++ said) = [] := by
        refine payloads_append_of_none fun bytes hm => ?_
        obtain ⟨packet, ho, rfl⟩ := h.owed bytes hm
        rw [Option.eq_none_iff_forall_ne_some]
        intro payload hp
        cases hd.symm.trans (length_of_owes ho hp).1
      rw [show payloads said = [] from hnone]
      exact List.forall_mem_nil _

end Restrained

/-! ## Turn by turn -/

/-- The turns of the transfer `t`, measured by its terms. -/
structure Measured (config : Config) (t : Transfer S) (terms : Terms)
    (turns : List (Passage S × List Event)) : Prop where
  /-- The terms have been negotiated, unless the transfer has failed before. -/
  settled : terms = .unnegotiated config ∨
    ∃ fileSize, negotiate t.request.options config t.direction fileSize = .ok terms
  /-- The transfer keeps to its terms. -/
  kept : ∀ turn ∈ turns, turn.1.after.self.terms = terms
  /-- No block is longer than the block size. -/
  fits : ∀ block payload, (Packet.data block payload).encode ∈ said t.peer turns →
    payload.length ≤ terms.blockSize.toNat
  /-- All blocks but the last are full. -/
  full : ∀ payload ∈ (payloads (said t.peer turns)).dropLast,
    payload.length = terms.blockSize.toNat

/-- One more turn of a transfer. -/
theorem Measured.turn {config : Config} {t : Transfer S} {terms : Terms} (server : Server S)
    (turns : List (Passage S × List Event)) {p : Passage S}
    (hw : p.scene.world.trace = server.world.trace)
    (settled : terms = .unnegotiated config ∨
      ∃ fileSize, negotiate t.request.options config t.direction fileSize = .ok terms)
    (kept : ∀ turn ∈ turns, turn.1.after.self.terms = terms)
    (h : Restrained t.peer terms (said t.peer turns ++ sentTo t.peer (p.scene.deedsOf p.reaction))
      p.after.self) :
    let turns := turns ++ [(p, server.world.since (server.dealWith p).1.world)]
    Measured config t terms turns ∧ ∀ t' ∈ p.left, Restrained t.peer terms (said t.peer turns) t' ∧
      t'.phase ≠ .failed := by
  obtain ⟨reports, hlines, hreports, hnone⟩ := sentTo_dealWith server p hw t.peer
  have hsaid : said t.peer (turns ++ [(p, server.world.since (server.dealWith p).1.world)]) =
      said t.peer turns ++ sentTo t.peer (p.scene.deedsOf p.reaction) ++ reports := by
    rw [said_concat, hlines, List.append_assoc]
  refine ⟨⟨settled, fun turn hm => ?_, fun block payload hm => ?_, ?_⟩, fun t' ht => ?_⟩
  · rcases List.mem_append.1 hm with hm | hm
    · exact kept turn hm
    · rw [List.mem_singleton.1 hm]
      exact h.terms
  · rw [hsaid] at hm
    rcases List.mem_append.1 hm with hm | hm
    · exact h.fits hm
    · obtain ⟨f, hf⟩ := hreports _ hm
      exact absurd (Packet.opcode_eq_of_encode_eq hf) (show (3 : UInt16) ≠ 5 by decide)
  · -- A report is no block.
    rw [hsaid, payloads_append_of_none fun bytes hm => ?_]
    · exact h.full
    · obtain ⟨f, rfl⟩ := hreports bytes hm
      exact payload?_eq_none (show (5 : UInt16) ≠ 3 by decide)
  · obtain ⟨rfl, ho⟩ := Passage.eq_of_left ht
    have hp : p.after.self.phase ≠ .failed := phase_ne_of_live ho rfl
    rw [hsaid, hnone hp, List.append_nil]
    exact ⟨h, hp⟩

end Tftp.Server
