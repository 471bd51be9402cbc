import Tftp.Proofs.FullBlocks
import Tftp.Proofs.Rounds

/-!
# What a transfer has to deal with

A transfer deals with one matter after the other: it starts, its deadline passes, and its receives
end. An `Item` is one such matter, with the scene in which the transfer has to deal with it. What goes
to the peer then depends on the kind of the item only: a packet that is new, the last packet once
more, or nothing.

    start ──fresh──▶ timeout ──again──▶ reception ──fresh──▶ reception ──quiet──▶ …

This holds for every storage that sends nothing itself (`Storage.Mute`).
-/

namespace Tftp

/-- A storage sends nothing to anybody. -/
def Storage.Mute (S : Storage) : Prop :=
  ∀ {events}, S.Reports events → ∀ e ∈ events, e.isSent = false

theorem Storage.Mute.of_silent {S : Storage}
    (h : ∀ {events}, S.Reports events → ∀ e ∈ events, e.isOutgoing = false) : S.Mute := by
  intro events hr e he
  have he := h hr e he
  cases e with
  | sent => cases he
  | _ => rfl

theorem Scripted.mute (script : Scripted) : script.storage.Mute :=
  Storage.Mute.of_silent Scripted.silent

theorem Directory.mute (directory : Directory) : directory.storage.Mute :=
  Storage.Mute.of_silent Directory.silent

namespace Transfer

variable {S : Storage}

theorem sentTo_of_unsent {events : List Event} (peer : Address)
    (h : ∀ e ∈ events, e.isSent = false) : sentTo peer events = [] := by
  rw [sentTo, List.filterMap_eq_nil_iff]
  intro e he
  have he := h e he
  cases e <;> simp_all [Event.isSent]

/-! ## Datagrams to the peer -/

namespace View

variable {u v w : View S} {sent : List Bytes}

theorem Sends.refl (v : View S) : v.Sends v [] := (Talks.refl v).sends

/-- The datagrams of the last packet, if there is one. -/
def lastSent (v : View S) : List Bytes := v.self.lastPacket.toList.map Packet.encode

theorem sends_repetition (v : View S) : v.Sends (v.doing v.repetition) v.lastSent := by
  refine ⟨rfl, v.repetition, rfl, ?_⟩
  unfold repetition lastSent
  cases v.self.lastPacket with
  | none => rfl
  | some packet => simp [sentTo, sending]

/-- Nothing goes to the peer, and the transfer stays in its phase. -/
structure Hush (v w : View S) : Prop where
  sends : v.Sends w []
  phase : w.self.phase = v.self.phase

theorem Hush.refl (v : View S) : v.Hush v := ⟨.refl v, rfl⟩

theorem Hush.trans (h : u.Hush v) (h' : v.Hush w) : u.Hush w :=
  ⟨h.sends.trans h'.sends, h'.phase.trans h.phase⟩

theorem Hush.changing (h : u.Hush v) (f : Transfer S → Transfer S)
    (hpeer : (f v.self).peer = v.self.peer) (hphase : (f v.self).phase = v.self.phase) :
    u.Hush (v.changing f) :=
  ⟨h.sends.changing f hpeer, hphase.trans h.phase⟩

/-- A packet goes to the peer that is the last packet from now on. -/
structure Renews (v w : View S) : Prop where
  sends : ∃ packet, w.self.lastPacket = some packet ∧ v.Sends w [packet.encode]
  phase : w.self.phase ≠ .readEnd

/-- A packet that goes to the peer is kept, and then the transfer may change its phase. -/
theorem Hush.renews (h : u.Hush v) (packet : Packet) (f : Transfer S → Transfer S)
    (hpeer : ∀ t, (f t).peer = t.peer) (hlast : ∀ t, (f t).lastPacket = t.lastPacket)
    (hphase : (f { v.self with lastPacket := some packet }).phase ≠ .readEnd) :
    u.Renews (((v.doing [v.sending packet]).changing fun t => { t with lastPacket := packet }).changing
      f) where
  sends := ⟨packet, hlast _, ((h.sends.sending packet).changing _ rfl).changing f (hpeer _)⟩
  phase := hphase

end View

/-! ## What a mute storage does -/

section

variable (mute : S.Mute) {u v : View S}

include mute

theorem View.Hush.calling {events : List Event} (h : u.Hush v) (hr : S.Reports events)
    (t : Transfer S) (store : S.State) (hpeer : t.peer = v.self.peer)
    (hphase : t.phase = v.self.phase) :
    u.Hush { v with self := t, store, deeds := v.deeds ++ Event.unlogged events } := by
  have hnone := sentTo_of_unsent v.self.peer fun e he => mute hr e (Event.mem_unlogged he)
  exact h.trans ⟨⟨hpeer, _, rfl, hnone⟩, hphase⟩

theorem givenUp_hushed (v : View S) : v.Sends v.givenUp [] := by
  have hfailed : v.Sends (v.changing fun t => { t with phase := .failed }) [] :=
    (View.Sends.refl v).changing _ rfl
  cases hw : v.self.writer with
  | none =>
      rw [View.givenUp_of_none hw]
      exact hfailed
  | some writer =>
      rw [View.givenUp_of_some hw]
      have hnone := sentTo_of_unsent v.self.peer fun e he =>
        mute (.call .abort (v.store, writer)) e (Event.mem_unlogged he)
      exact hfailed.trans ⟨rfl, _, rfl, hnone⟩

namespace Ensures

theorem onStore_hushed {α : Type} {effect : Effect S.State α} (h : u.Hush v)
    (hr : ∀ store, S.Reports (effect store).events) :
    Ensures (liftM (World.onStore (S := S) effect) : Reaction S α) v (fun _ => u.Hush)
      (fun _ => u.Hush) := by
  apply onStore
  have hcall := h.calling mute (hr v.store) v.self (effect v.store).state rfl rfl
  dsimp only
  split
  · exact hcall
  · exact hcall

theorem fill_hushed (n : Nat) (chunks : List Bytes) (h : u.Hush v) :
    Ensures (Read.fill n chunks) v (fun _ => u.Hush) (fun _ => u.Hush) := by
  refine mono (fill_keeps h fun {n v reader} h _ => ?_) (fun _ _ => And.right) fun _ _ => id
  exact h.calling mute (.read n (v.store, reader))
    { v.self with reader := some (S.read n (v.store, reader)).state.2 }
    (S.read n (v.store, reader)).state.1 rfl rfl

theorem store_hushed (call : Storage.Call) (h : u.Hush v) :
    Ensures (Write.store (S := S) call.effect) v (fun _ => u.Hush) (fun _ => u.Hush) := by
  refine tryCatch (onWriter (fun _ => h) fun writer _ => ?_)
  have hcall := h.calling mute (.call call (v.store, writer))
    { v.self with writer := some (call.effect (v.store, writer)).state.2 }
    (call.effect (v.store, writer)).state.1 rfl rfl
  split
  · exact hcall
  · exact throw hcall

end Ensures

end

/-! ## A transfer that starts -/

section

variable (mute : S.Mute) {u v : View S}

include mute

theorem sendNextBlock_renews (h : u.Hush v) : Ensures Read.sendNextBlock v (fun _ => u.Renews)
    (fun _ w => u.Sends w []) := by
  refine .bind (.self (.bind (.mono (.fill_hushed mute _ _ h) (fun payload w hw => ?_)
    fun _ _ hw => hw.sends)))
  have hcount := hw.changing (fun t => { t with block := t.block + 1 }) rfl rfl
  refine .bind (.update (.bind (.self (.bind (.send (.update ?_) fun _ => hcount.sends)))))
  refine hcount.renews _ _ (fun _ => rfl) (fun _ => rfl) ?_
  show (if _ then Phase.waitingLastAck else .waitingAck) ≠ .readEnd
  split <;> exact nofun

theorem readStart_renews (v : View S) : Ensures Read.start v (fun _ => v.Renews)
    (fun _ w => v.Sends w []) := by
  refine .bind (.self (.bind (.mono (.onStore_hushed mute (.refl v)
    fun store => .openForReading _ _ store) ?_ fun _ _ hw => hw.sends)))
  intro opened w hw
  have hopen := hw.changing (fun t => { t with reader := some opened.1 }) rfl rfl
  refine .bind (.update (.bind (.settleTerms_or (fun terms _ => ?_) fun _ _ => hopen.sends)))
  have hagreed := hopen.changing (fun t => { t with terms }) rfl rfl
  refine .bind (.log (.bind (.self ?_)))
  dsimp only
  split
  · have hcount := hagreed.changing (fun t => { t with block := 0 }) rfl rfl
    refine .bind (.update (.bind (.send (.update ?_) fun _ => hcount.sends)))
    exact hcount.renews _ _ (fun _ => rfl) (fun _ => rfl) nofun
  · exact sendNextBlock_renews mute hagreed

theorem writeStart_renews (v : View S) : Ensures Write.start v (fun _ => v.Renews)
    (fun _ w => v.Sends w []) := by
  rw [Write.start_eq]
  refine .bind (.settleTerms_or (fun terms _ => ?_) fun _ _ => .refl v)
  have hagreed := (View.Hush.refl v).changing (fun t => { t with terms }) rfl rfl
  refine .bind (.self (.bind (.mono (.onStore_hushed mute hagreed
    fun store => .openForWriting _ _ _ store) (fun writer w hw => ?_) fun _ _ hw => hw.sends)))
  have hopen := hw.changing (fun t => { t with writer := some writer }) rfl rfl
  refine .bind (.update (.bind (.log (.bind (.send (.update ?_) fun _ => hopen.sends)))))
  exact hopen.renews _ _ (fun _ => rfl) (fun _ => rfl) nofun

/-- A transfer that starts sends its first packet, and one that cannot sends nothing. -/
theorem start_renews (v : View S) : Ensures Transfer.start v (fun _ => v.Renews)
    (fun _ w => v.Sends w []) := by
  refine .bind (.self ?_)
  cases v.self.direction with
  | read => exact readStart_renews mute v
  | write => exact writeStart_renews mute v

end

/-! ## A transfer that handles a packet -/

/-- Whether a packet is a block that the transfer has had before. -/
def hasHad (t : Transfer S) : Packet → Bool
  | .data block _ => t.direction = .write ∧ (block - t.block).toInt16 < 0
  | _ => false

/-- A block lies behind if the difference is negative as a signed number. -/
theorem Write.isBehind_eq (block expected : UInt16) :
    isBehind block expected = decide ((block - expected).toInt16 < 0) := by
  unfold isBehind
  generalize block - expected = d
  have hsigned : d.toInt16.toInt = d.toBitVec.toInt := rfl
  have hlt := d.toNat_lt
  rw [decide_eq_decide, Int16.lt_iff_toInt_lt, UInt16.le_iff_toNat_le, hsigned,
    BitVec.toInt_eq_toNat_cond, UInt16.toNat_toBitVec]
  show 32768 ≤ d.toNat ↔ _
  split <;> simp <;> omega

/-- What becomes of a transfer that handles something, depending on whether it has had it before and
on whether this moves it forward. -/
inductive View.Answers (v : View S) : Bool → Bool → View S → Prop
  /-- It goes on with a new packet. -/
  | renews {w : View S} : v.Renews w → Answers v false true w
  /-- The whole file has been sent. -/
  | ends {w : View S} : w.self.phase = .readEnd → v.Sends w [] → Answers v false true w
  /-- It stays what it is, and at most it says again what it has said. -/
  | stays {had : Bool} {w : View S} : w.self = v.self → w.store = v.store →
      v.Sends w (if had then v.lastSent else []) → Answers v had false w

/-- A transfer that fails says nothing any more, and over what it has had before it fails only if the
network at hand does not take the last packet. -/
def View.Refuses (v : View S) (n : Network) (had : Bool) (f : Failure) (w : View S) (n' : Network) :
    Prop :=
  v.Sends w [] ∧ (had = true → ∃ packet, v.self.lastPacket = some packet ∧
    Network.send packet.encode n = .error f n')

/-- What has not come before is dealt with whatever the network does. -/
theorem Ensures.answers {m : Reaction S Bool} {v : View S}
    (h : Ensures m v (v.Answers false) fun _ w => v.Sends w []) (n : Network) :
    EnsuresOn n m v (fun moved w _ => v.Answers false moved w) (v.Refuses n false) :=
  .mono h.on (fun _ _ _ => id) fun _ _ _ hw => ⟨hw, nofun⟩

/-- Whether a receive brings a block that the transfer has had before. -/
def hasHadIn (t : Transfer S) (reception : Reception) : Bool :=
  (reception.packetFrom t.peer).any t.hasHad

section

variable (mute : S.Mute) {v : View S} {packet : Packet}

include mute

theorem readHandle_answers : Ensures (Read.handle packet) v (v.Answers false)
    (fun _ w => v.Sends w []) := by
  have stays : v.Answers false false v := .stays rfl rfl (.refl v)
  have moves : Ensures (Read.sendNextBlock >>= fun _ => pure true) v (v.Answers false)
      (fun _ w => v.Sends w []) :=
    .bind (.mono (sendNextBlock_renews mute (.refl v)) (fun _ _ hw => .pure (.renews hw))
      fun _ _ => id)
  cases packet with
  | ack block =>
      refine .bind (.self ?_)
      split
      · exact .pure stays
      · split
        · exact moves
        · exact moves
        · refine .bind (.log (.bind (.update (.pure (.ends rfl ?_)))))
          exact (View.Sends.refl v).changing _ rfl
        · exact .pure stays
  | _ => exact .pure stays

theorem acknowledge_answers {w : View S} (hw : v.Hush w) (hp : v.self.phase ≠ .readEnd)
    (t : Transfer S) (block : UInt16) (payload : Bytes) :
    Ensures (Write.acknowledge t block payload) w (v.Answers false) (fun _ w => v.Sends w []) := by
  unfold Write.acknowledge
  split
  · refine .bind (.mono (.store_hushed mute .finish hw) (fun _ w' hw' => ?_)
      fun _ w' hw' => hw'.sends)
    refine .bind (.send (.bind (.update (.bind (.log (.pure (.renews ?_)))))) fun _ => hw'.sends)
    exact hw'.renews _ _ (fun _ => rfl) (fun _ => rfl) nofun
  · refine .bind (.send (.bind (.update (.pure (.renews ?_)))) fun _ => hw.sends)
    refine hw.renews _ _ (fun _ => rfl) (fun _ => rfl) ?_
    show w.self.phase ≠ .readEnd
    rw [hw.phase]
    exact hp

/-- The block that is to come has not come before. -/
theorem take_answers (hp : v.self.phase ≠ .readEnd) (t : Transfer S) (block : UInt16)
    (payload : Bytes) :
    Ensures (Write.take t block payload) v (v.Answers false) (fun _ w => v.Sends w []) := by
  unfold Write.take
  split
  · exact .throw (.refl v)
  · split
    · exact .bind (.mono (.store_hushed mute (.write payload) (.refl v))
        (fun _ w hw => acknowledge_answers mute hw hp t block payload) fun _ w hw => hw.sends)
    · exact acknowledge_answers mute (.refl v) hp t block payload

theorem writeHandle_answers (n : Network) (hd : v.self.direction = .write)
    (hp : v.self.phase ≠ .readEnd) :
    EnsuresOn n (Write.handle packet) v (fun moved w _ => v.Answers (v.self.hasHad packet) moved w)
      (v.Refuses n (v.self.hasHad packet)) := by
  have stays : v.Answers false false v := .stays rfl rfl (.refl v)
  cases packet with
  | data block payload =>
      have had : v.self.hasHad (.data block payload) = Write.isBehind block v.self.block := by
        simp [hasHad, hd, Write.isBehind_eq]
      rw [had, Write.handle_data_eq]
      refine .bind (.self ?_)
      split
      next hne =>
        cases hb : Write.isBehind block v.self.block with
        | true =>
            rw [if_pos rfl]
            refine .bind (.resend (fun hl => .pure (.stays rfl rfl ?_)) (fun last n' hl _ => ?_)
              fun last f n' hl hs => ⟨.refl v, fun _ => ⟨last, hl, hs⟩⟩)
            · simp [View.lastSent, hl, View.Sends.refl]
            · refine .pure (.stays rfl rfl ?_)
              simpa [View.repetition, hl] using v.sends_repetition
        | false =>
            rw [if_neg Bool.false_ne_true]
            exact .bind (.pure (.pure stays))
      next heq =>
        have hnot : Write.isBehind block v.self.block = false := by
          rw [of_not_not heq, Write.isBehind_eq]
          simp
        rw [hnot]
        exact (take_answers mute hp v.self block payload).answers n
  | _ => exact .pure stays

theorem handle_answers (n : Network) (hne : ∀ code message, packet ≠ .error code message)
    (hp : v.self.phase ≠ .readEnd) :
    EnsuresOn n (Transfer.handle packet) v
      (fun moved w _ => v.Answers (v.self.hasHad packet) moved w)
      (v.Refuses n (v.self.hasHad packet)) := by
  refine .handle hne (fun hd => ?_) fun hd => writeHandle_answers mute n hd hp
  have had : v.self.hasHad packet = false := by
    cases packet <;> simp [hasHad, hd]
  rw [had]
  exact (readHandle_answers mute).answers n

theorem heed_answers (n : Network) (reception : Reception) (hp : v.self.phase ≠ .readEnd) :
    EnsuresOn n (Transfer.heed reception) v
      (fun moved w _ => v.Answers (v.self.hasHadIn reception) moved w)
      (v.Refuses n (v.self.hasHadIn reception)) := by
  apply EnsuresOn.heed
  · intro f hf
    simp [View.Refuses, hasHadIn, Reception.packetFrom_of_failed hf, View.Sends.refl]
  · intro code message hf
    simp [View.Refuses, hasHadIn, hf, hasHad, View.Sends.refl]
  · intro hnone events n' hstrangers _
    have hsends : v.Sends (v.doing events) [] := by
      apply View.Talks.sends
      apply View.talks_strangers
      intro e he
      exact hstrangers e he
    have hhad : v.self.hasHadIn reception = false := by simp [hasHadIn, hnone]
    rw [hhad]
    exact .stays rfl rfl hsends
  · intro packet hsome hne
    have hhad : v.self.hasHadIn reception = v.self.hasHad packet := by simp [hasHadIn, hsome]
    rw [hhad]
    exact handle_answers mute n hne hp

end

/-! ## Items -/

/-- What a transfer may have to deal with. -/
inductive Matter
  /-- It starts. -/
  | start
  /-- Its deadline has passed. -/
  | timeout
  /-- Its receive has ended. -/
  | reception (reception : Reception)
  deriving DecidableEq, Repr

/-- What a transfer does about it; says whether it has moved forward. -/
def Matter.react : Matter → Reaction S Bool
  | start => impulse none
  | timeout => do
    lapse
    return false
  | reception r => impulse (some r)

/-- One matter, and where the transfer is when it has to deal with it. -/
structure Item (S : Storage) where
  matter : Matter
  scene : Scene S

namespace Item

variable {item : Item S} {moved : Bool} {s : Scene S} {f : Failure}

/-- Whether the transfer moves forward, if it does not fail. -/
def moved? (item : Item S) : Option Bool :=
  match item.matter.react item.scene with
  | .ok moved _ => some moved
  | .error .. => none

/-- Where the transfer is then. -/
def after (item : Item S) : Scene S :=
  match item.matter.react item.scene with
  | .ok _ s | .error _ s => s

/-- The transfer fails over it with the given failure. -/
def Fails (item : Item S) (f : Failure) : Prop := ∃ s, item.matter.react item.scene = .error f s

/-- The transfer would send its last packet once more, but the network that it has then does not take
it, and the transfer fails with that. -/
def Unheard (item : Item S) : Prop :=
  ∃ packet f, item.scene.self.lastPacket = some packet ∧
    Network.send packet.encode item.scene.world.network = .error f item.after.world.network ∧
    item.Fails f

/-- The datagrams that go to the peer meanwhile. -/
def sent (item : Item S) : List Bytes :=
  sentTo item.scene.self.peer (item.after.world.deeds.drop item.scene.world.deeds.length)

/-- What an item means for the peer. -/
inductive Kind
  /-- It is sent a new packet. -/
  | fresh
  /-- It is sent the last packet once more. -/
  | again
  /-- It is sent nothing. -/
  | quiet
  deriving DecidableEq, Repr

/-- A start is fresh, and so is every packet that moves the transfer forward, but for the one that ends
a read. A timeout brings the last packet again, and so does a block that the transfer has had before.
Anything else is quiet, and so is everything that makes the transfer fail. -/
def kind (item : Item S) : Kind :=
  match item.matter, item.moved? with
  | _, none => .quiet
  | .start, some _ => .fresh
  | .timeout, some _ => .again
  | .reception _, some true => if item.after.self.phase = .readEnd then .quiet else .fresh
  | .reception reception, some false =>
    if item.scene.self.hasHadIn reception then .again else .quiet

theorem moved?_of_ok (item : Item S) (h : item.matter.react item.scene = .ok moved s) :
    item.moved? = some moved ∧ item.after = s := by
  unfold moved? after
  rw [h]
  exact ⟨rfl, rfl⟩

theorem moved?_of_error (item : Item S) (h : item.matter.react item.scene = .error f s) :
    item.moved? = none ∧ item.after = s := by
  unfold moved? after
  rw [h]
  exact ⟨rfl, rfl⟩

theorem react_of_moved? (h : item.moved? = some moved) :
    item.matter.react item.scene = .ok moved item.after := by
  cases hr : item.matter.react item.scene with
  | ok moved' s =>
      obtain ⟨hmoved, hafter⟩ := moved?_of_ok item hr
      rw [hafter, Option.some.inj (hmoved.symm.trans h)]
  | error f s => cases (moved?_of_error item hr).1.symm.trans h

/-- What is known of the reaction is known of where the transfer is then. -/
theorem of_ensuresOn (item : Item S) {P : Bool → View S → Network → Prop}
    {Q : Failure → View S → Network → Prop}
    (h : EnsuresOn item.scene.world.network item.matter.react item.scene.view P Q) :
    (∃ moved, item.moved? = some moved ∧ P moved item.after.view item.after.world.network) ∨
      ∃ f, item.moved? = none ∧ item.Fails f ∧ Q f item.after.view item.after.world.network := by
  have h := h item.scene rfl rfl
  cases hr : item.matter.react item.scene with
  | ok moved s =>
      obtain ⟨hmoved, rfl⟩ := moved?_of_ok item hr
      rw [hr] at h
      exact .inl ⟨moved, hmoved, h⟩
  | error f s =>
      obtain ⟨hmoved, rfl⟩ := moved?_of_error item hr
      rw [hr] at h
      exact .inr ⟨f, hmoved, ⟨_, hr⟩, h⟩

theorem of_ensures (item : Item S) {P : Bool → View S → Prop} {Q : Failure → View S → Prop}
    (h : Ensures item.matter.react item.scene.view P Q) :
    (∃ moved, item.moved? = some moved ∧ P moved item.after.view) ∨
      ∃ f, item.moved? = none ∧ item.Fails f ∧ Q f item.after.view := of_ensuresOn item h.on

theorem kind_eq_fresh_iff : item.kind = .fresh ↔
    (item.matter = .start ∧ item.moved?.isSome) ∨
      ∃ reception, item.matter = .reception reception ∧ item.moved? = some true ∧
        item.after.self.phase ≠ .readEnd := by
  unfold kind
  split <;> grind

theorem kind_eq_again_iff : item.kind = .again ↔
    (item.matter = .timeout ∧ item.moved?.isSome) ∨
      ∃ reception, item.matter = .reception reception ∧ item.moved? = some false ∧
        item.scene.self.hasHadIn reception = true := by
  unfold kind
  split <;> grind

/-- What is sent meanwhile is told by the deeds. -/
theorem sent_eq {sent : List Bytes} (h : item.scene.view.Sends item.after.view sent) :
    item.sent = sent := by
  obtain ⟨events, hd, hs⟩ := h.deeds
  have hd : item.after.world.deeds = item.scene.world.deeds ++ events := hd
  unfold Item.sent
  rw [hd, List.drop_left]
  exact hs

end Item

/-! ## What is sent about an item -/

section

variable {v w : View S} {had moved : Bool}

theorem View.Renews.changing (h : v.Renews w) (f : Transfer S → Transfer S)
    (hpeer : (f w.self).peer = w.self.peer) (hlast : (f w.self).lastPacket = w.self.lastPacket)
    (hphase : (f w.self).phase = w.self.phase) : v.Renews (w.changing f) where
  sends := by
    obtain ⟨packet, hl, hs⟩ := h.sends
    exact ⟨packet, hlast.trans hl, hs.changing f hpeer⟩
  phase := hphase.trans_ne h.phase

/-- Progress puts the deadline off, and nothing else. -/
theorem View.Answers.rearmed (h : v.Answers had true w) (retries : Nat) (deadline : Int) :
    v.Answers had true (w.changing fun t => { t with retries, deadline }) := by
  cases h with
  | renews h => exact .renews (h.changing _ rfl rfl rfl)
  | ends hphase h => exact .ends hphase (h.changing _ rfl)

variable (mute : S.Mute)

include mute

theorem impulse_renews (v : View S) : Ensures (Transfer.impulse none) v
    (fun moved w => moved = true ∧ v.Renews w) (fun _ w => v.Sends w []) := by
  refine .bind (.mono (start_renews mute v) (fun _ w hw => ?_) fun _ _ => id)
  exact .bind (.rearm (.pure ⟨rfl, hw.changing _ rfl rfl rfl⟩))

theorem impulse_answers (n : Network) (reception : Reception) (hp : v.self.phase ≠ .readEnd) :
    EnsuresOn n (Transfer.impulse (some reception)) v
      (fun moved w _ => v.Answers (v.self.hasHadIn reception) moved w ∧
        (moved = true → w.self.retries = 0))
      (v.Refuses n (v.self.hasHadIn reception)) := by
  refine .bind (.mono (heed_answers mute n reception hp) (fun moved w n' hw => ?_) fun _ _ _ => id)
  cases moved with
  | false => exact .pure ⟨hw, nofun⟩
  | true => exact .bind (.bind (.update (.rearm (.pure ⟨hw.rearmed 0 _, fun _ => rfl⟩))))

omit mute

theorem timeout_repeats (v : View S) : Ensures Matter.timeout.react v
    (fun _ w => v.Sends w v.lastSent ∧ w.self.lastPacket = v.self.lastPacket)
    (fun _ w => v.Sends w []) :=
  .bind (.lapse (fun _ => .pure ⟨v.sends_repetition.changing _ rfl, rfl⟩) (fun _ => .refl v)
    fun _ => (View.Sends.refl v).changing _ rfl)

end

namespace Item

variable {item : Item S}

/-- What the peer is sent, according to the kind of the item. -/
structure Accounted (item : Item S) : Prop where
  sends : item.scene.view.Sends item.after.view item.sent
  fresh : item.kind = .fresh →
    ∃ packet, item.after.self.lastPacket = some packet ∧ item.sent = [packet.encode]
  again : item.kind = .again → item.sent = item.scene.view.lastSent ∧
    item.after.self.lastPacket = item.scene.self.lastPacket
  quiet : item.kind = .quiet → item.sent = []

section

variable {sent : List Bytes} (h : item.scene.view.Sends item.after.view sent)

include h

theorem accounted_fresh {packet : Packet} (hk : item.kind = .fresh)
    (hl : item.after.self.lastPacket = some packet) (hs : sent = [packet.encode]) :
    item.Accounted where
  sends := by rwa [sent_eq h]
  fresh _ := ⟨packet, hl, (sent_eq h).trans hs⟩
  again hk' := nomatch hk.symm.trans hk'
  quiet hk' := nomatch hk.symm.trans hk'

theorem accounted_again (hk : item.kind = .again) (hs : sent = item.scene.view.lastSent)
    (hl : item.after.self.lastPacket = item.scene.self.lastPacket) : item.Accounted where
  sends := by rwa [sent_eq h]
  fresh hk' := nomatch hk.symm.trans hk'
  again _ := ⟨(sent_eq h).trans hs, hl⟩
  quiet hk' := nomatch hk.symm.trans hk'

theorem accounted_quiet (hk : item.kind = .quiet) (hs : sent = []) : item.Accounted where
  sends := by rwa [sent_eq h]
  fresh hk' := nomatch hk.symm.trans hk'
  again hk' := nomatch hk.symm.trans hk'
  quiet _ := (sent_eq h).trans hs

end

theorem start_accounted (mute : S.Mute) (hm : item.matter = .start) : item.Accounted := by
  have hreact : item.matter.react = impulse (S := S) none := congrArg Matter.react hm
  rcases of_ensures item (hreact ▸ impulse_renews mute item.scene.view) with
    ⟨moved, hmoved, -, hrenews⟩ | ⟨f, hmoved, -, hsends⟩
  · obtain ⟨packet, hl, hsends⟩ := hrenews.sends
    exact accounted_fresh hsends (by simp [kind, hm, hmoved]) hl rfl
  · exact accounted_quiet hsends (by simp [kind, hmoved]) rfl

theorem timeout_accounted (hm : item.matter = .timeout) : item.Accounted := by
  rcases of_ensures item (hm ▸ timeout_repeats item.scene.view) with
    ⟨moved, hmoved, hsends, hl⟩ | ⟨f, hmoved, -, hsends⟩
  · exact accounted_again hsends (by simp [kind, hm, hmoved]) rfl hl
  · exact accounted_quiet hsends (by simp [kind, hmoved]) rfl

section

variable (mute : S.Mute) {reception : Reception} (hm : item.matter = .reception reception)
  (hp : item.scene.self.phase ≠ .readEnd)

include mute hm hp

/-- What becomes of a transfer when a receive has ended. -/
theorem answers :
    (∃ moved, item.moved? = some moved ∧
      item.scene.view.Answers (item.scene.self.hasHadIn reception) moved item.after.view ∧
      (moved = true → item.after.self.retries = 0)) ∨
    ∃ f, item.moved? = none ∧ item.Fails f ∧
      item.scene.view.Refuses item.scene.world.network (item.scene.self.hasHadIn reception) f
        item.after.view item.after.world.network := by
  have hreact : item.matter.react = impulse (S := S) (some reception) := congrArg Matter.react hm
  exact of_ensuresOn item (hreact ▸ impulse_answers mute _ reception hp)

theorem reception_accounted : item.Accounted := by
  rcases answers mute hm hp with ⟨moved, hmoved, hanswers, -⟩ | ⟨f, hmoved, -, hsends, -⟩
  · generalize hhad : item.scene.self.hasHadIn reception = had at hanswers
    cases hanswers with
    | renews hrenews =>
        obtain ⟨packet, hl, hsends⟩ := hrenews.sends
        have hphase : item.after.self.phase ≠ .readEnd := hrenews.phase
        exact accounted_fresh hsends (by simp [kind, hm, hmoved, hphase]) hl rfl
    | ends hphase hsends =>
        have hphase : item.after.self.phase = .readEnd := hphase
        exact accounted_quiet hsends (by simp [kind, hm, hmoved, hphase]) rfl
    | stays hself _ hsends =>
        have hlast := congrArg Transfer.lastPacket hself
        cases had with
        | true => exact accounted_again hsends (by simp [kind, hm, hmoved, hhad]) rfl hlast
        | false => exact accounted_quiet hsends (by simp [kind, hm, hmoved, hhad]) rfl
  · exact accounted_quiet hsends (by simp [kind, hmoved]) rfl

/-- **A transfer that does not move forward stays what it is**, with the files that it has open. -/
theorem stays (h : item.moved? = some false) :
    item.after.self = item.scene.self ∧ item.after.world.store = item.scene.world.store := by
  rcases answers mute hm hp with ⟨moved, hmoved, hanswers, -⟩ | ⟨f, hmoved, -⟩
  · obtain rfl := Option.some.inj (hmoved.symm.trans h)
    generalize item.scene.self.hasHadIn reception = had at hanswers
    cases hanswers with
    | stays hself hstore _ => exact ⟨hself, hstore⟩
  · cases hmoved.symm.trans h

/-- Progress makes the transfer count anew. -/
theorem retries_of_moved (h : item.moved? = some true) : item.after.self.retries = 0 := by
  rcases answers mute hm hp with ⟨moved, hmoved, -, hretries⟩ | ⟨f, hmoved, -⟩
  · exact hretries (Option.some.inj (hmoved.symm.trans h))
  · cases hmoved.symm.trans h

/-- A block that the transfer has had before brings the last packet again, unless it is the last
packet that the network does not take: then the transfer fails with that. -/
theorem again_of_hasHad (hhad : item.scene.self.hasHadIn reception = true) :
    item.kind = .again ∨ item.Unheard := by
  have hanswers := answers mute hm hp
  rw [hhad] at hanswers
  rcases hanswers with ⟨moved, hmoved, hanswers, -⟩ | ⟨f, -, hfails, -, hnetwork⟩
  · cases hanswers with
    | stays => exact .inl (by simp [kind, hm, hmoved, hhad])
  · obtain ⟨packet, hl, hs⟩ := hnetwork rfl
    exact .inr ⟨packet, f, hl, hs, hfails⟩

end

/-- **What goes to the peer about an item** depends on its kind. -/
theorem accounted (mute : S.Mute) (item : Item S) (hp : item.scene.self.phase ≠ .readEnd) :
    item.Accounted := by
  cases hm : item.matter with
  | start => exact start_accounted mute hm
  | timeout => exact timeout_accounted hm
  | reception reception => exact reception_accounted mute hm hp

/-- A transfer that sends a file has no use for blocks. -/
theorem hasHadIn_of_read {t : Transfer S} (hd : t.direction = .read) (reception : Reception) :
    t.hasHadIn reception = false := by
  unfold hasHadIn
  cases reception.packetFrom t.peer with
  | none => rfl
  | some packet => cases packet <;> simp [hasHad, hd]

/-- **An ACK of another block** than the one that was sent last does not move a read forward. -/
theorem moved?_of_stale {reception : Reception} {block : UInt16}
    (hm : item.matter = .reception reception) (hd : item.scene.self.direction = .read)
    (hp : reception.packetFrom item.scene.self.peer = some (.ack block))
    (hne : block ≠ item.scene.self.block) : item.moved? = some false := by
  have hs : Ensures (impulse (some reception)) item.scene.view (fun moved _ => moved = false)
      (fun _ _ => False) := by
    refine .bind (.heed (fun f hf => ?_) (fun code message he => ?_) (fun hnone _ _ => ?_) ?_)
    · cases (Reception.packetFrom_of_failed hf).symm.trans hp
    · cases he.symm.trans hp
    · cases hnone.symm.trans hp
    · intro packet hpacket hproper
      obtain rfl := Option.some.inj (hpacket.symm.trans hp)
      refine .handle hproper (fun _ => .bind (.self ?_)) fun hw => ?_
      · rw [if_pos (show block ≠ item.scene.view.self.block from hne)]
        exact .pure (.pure rfl)
      · cases hw.symm.trans hd
  rcases of_ensures item (by rwa [hm]) with ⟨moved, hmoved, rfl⟩ | ⟨f, -, -, hfalse⟩
  · exact hmoved
  · exact hfalse.elim

/-! ## How often a packet has been repeated -/

/-- A timeout that does not fail the transfer counts as one retransmission more. -/
theorem retries_of_timeout {moved : Bool} (hm : item.matter = .timeout)
    (h : item.moved? = some moved) :
    item.after.self.retries = item.scene.self.retries + 1 ∧
      item.scene.self.retries < item.scene.self.config.maxRetries := by
  have hr := react_of_moved? h
  rw [hm] at hr
  obtain ⟨u, t, hl, hpure⟩ := of_bind_eq_ok hr
  cases hpure
  obtain ⟨hview, hlt⟩ := lapse_view hl
  have hself : item.after.self = item.scene.view.again.self := congrArg View.self hview
  rw [hself]
  exact ⟨rfl, hlt⟩

theorem retries_of_start {moved : Bool} (hm : item.matter = .start)
    (hz : item.scene.self.retries = 0) (h : item.moved? = some moved) :
    item.after.self.retries = 0 := by
  have hr := react_of_moved? h
  rw [hm] at hr
  exact (impulse_begin hr hz).1.retries_eq

/-- Who a transfer is and how it is configured does not change. -/
theorem frame_after (item : Item S) : item.after.frame = item.scene.frame := by
  have steady : Steady (S := S) item.matter.react := by
    cases item.matter with
    | start => exact Steady.pervasive.impulse none
    | timeout => exact .bind Steady.pervasive.lapse fun _ => .pure _
    | reception reception => exact Steady.pervasive.impulse (some reception)
  unfold after
  cases hr : item.matter.react item.scene with
  | ok moved t => exact steady.of_ok hr
  | error f t => exact steady.of_error hr

end Item

end Transfer

end Tftp
