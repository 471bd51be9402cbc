import Mathlib.Data.List.Chain
import Tftp.Proofs.Dealings
import Tftp.Proofs.Halting

/-!
# The account of a transfer

Every datagram that goes to the peer is accounted for. A `Ledger` is a transfer from its beginning
with all the items that it has dealt with, in their order: each turn begins with one, and while the
transfer settles, each timeout is another. The items hang together: a transfer goes on with each of
them as the one before has left it (`Item.Precedes`).

    ⟨start⟩ ─▶ ⟨timeout⟩ ─▶ ⟨reception⟩ ─▶ ⟨timeout⟩ ─▶ ⟨timeout⟩ ─▶ …

What is sent again is the last packet, and `Ledger.balanced` says that this is always the packet that
has been new the last time. A transfer that sends a file retransmits because of timeouts only, so no
packet of it goes out more often than the configuration allows.
-/

namespace Tftp

namespace Transfer

variable {S : Storage}

/-! ## The items of a turn -/

/-- The timeouts that a transfer has to deal with until its deadline lies ahead, if it may retransmit
so often before it gives up. -/
def timeouts (left : Nat) (s : Scene S) : List (Item S) :=
  if s.world.clock < s.self.deadline then []
  else ⟨.timeout, s⟩ :: match left, lapse s with
    | left + 1, .ok _ s' => timeouts left s'
    | _, _ => []

/-- The timeouts that a transfer has to deal with when it settles. -/
def settling (s : Scene S) : List (Item S) :=
  if s.self.isOver then []
  else if s.self.heedsStop ∧ s.world.stopping then []
  else timeouts s.self.retriesLeft s

/-- What a turn begins with. -/
def Matter.of : Option Reception → Matter
  | none => .start
  | some r => .reception r

/-- What a transfer has to deal with in a turn: what the turn begins with, and then timeouts. -/
def dealings (reception? : Option Reception) (s : Scene S) : List (Item S) :=
  ⟨.of reception?, s⟩ :: match impulse reception? s with
    | .ok _ s' => settling s'
    | .error .. => []

/-- A transfer from its beginning, with the items that it has dealt with and what it has done so far,
how its last turn has ended, and the scene after it. -/
inductive Ledger (start : Scene S) :
    List (Item S) → List Event → Except Failure Unit → Scene S → Prop
  | begins : Ledger start (dealings none start) (start.deedsOf begin) (start.resultOf begin)
      (start.after begin)
  | resumes {items : List (Item S)} {events : List Event} {s : Scene S} (reception : Reception) :
      Ledger start items events (.ok ()) s → s.self.isOver = false →
      Ledger start (items ++ dealings (some reception) s) (events ++ s.deedsOf (resume reception))
        (s.resultOf (resume reception)) (s.after (resume reception))
  /-- In between anything happens to its world. -/
  | meanwhile {items : List (Item S)} {events : List Event} {result : Except Failure Unit}
      {s : Scene S} (world : World S) : Ledger start items events result s →
      Ledger start items events result { s with world }

/-- Every session has a ledger. -/
theorem Session.ledger {start s : Scene S} {events : List Event} {result : Except Failure Unit}
    (h : Session start events result s) : ∃ items, Ledger start items events result s := by
  induction h with
  | begins => exact ⟨_, .begins⟩
  | resumes reception _ ho ih =>
      obtain ⟨items, hl⟩ := ih
      exact ⟨_, hl.resumes reception ho⟩
  | meanwhile world _ ih =>
      obtain ⟨items, hl⟩ := ih
      exact ⟨items, hl.meanwhile world⟩

/-! ## Items hang together -/

/-- After an item that has not made it fail, the transfer is the given one. -/
structure Item.LeadsTo (item : Item S) (t : Transfer S) : Prop where
  succeeds : ∃ moved, item.moved? = some moved
  self : item.after.self = t

/-- A transfer that is not over goes on with an item as the one before has left it. -/
structure Item.Precedes (a b : Item S) : Prop where
  leads : a.LeadsTo b.scene.self
  isOver : b.scene.self.isOver = false
  matter : b.matter ≠ .start

/-- What becomes of a transfer that goes on after an item: it deals with the others, and nothing goes
to the peer but about them. -/
structure Pursues (first : Item S) (items : List (Item S)) (s : Scene S)
    (result : Except Failure Unit) (t : Scene S) : Prop where
  sends : s.view.Sends t.view (items.flatMap Item.sent)
  chain : (first :: items).IsChain Item.Precedes
  leads : result = .ok () → ∀ last ∈ (first :: items).getLast?, last.LeadsTo t.self

theorem Pursues.nil {first : Item S} {s t : Scene S} {result : Except Failure Unit}
    (h : s.view.Sends t.view []) (hl : result = .ok () → first.LeadsTo t.self) :
    Pursues first [] s result t where
  sends := h
  chain := .singleton first
  leads hr last hm := by
    obtain rfl := Option.some.inj hm
    exact hl hr

section

variable {first : Item S} {s : Scene S}

theorem timeouts_of_lapse {t : Scene S} (left : Nat) (hd : s.self.deadline ≤ s.world.clock)
    (h : lapse s = .ok () t) : timeouts (left + 1) s = ⟨.timeout, s⟩ :: timeouts left t := by
  rw [timeouts.eq_def, if_neg (Int.not_lt.2 hd)]
  simp only [h]

theorem timeouts_of_error {f : Failure} {t : Scene S} (left : Nat)
    (hd : s.self.deadline ≤ s.world.clock) (h : lapse s = .error f t) :
    timeouts left s = [⟨.timeout, s⟩] := by
  rw [timeouts.eq_def, if_neg (Int.not_lt.2 hd)]
  simp only [h]

/-- A transfer whose deadline has passed goes on with a timeout. -/
theorem precedes_timeout (hf : first.LeadsTo s.self) (ho : s.self.isOver = false) :
    first.Precedes ⟨.timeout, s⟩ := ⟨hf, ho, nofun⟩

/-- **Catching up** is dealing with timeouts. -/
theorem catchUp_pursues (hf : first.LeadsTo s.self) (ho : s.self.isOver = false) :
    Pursues first (timeouts s.self.retriesLeft s) s
      (s.resultOf (catchUp s.self.retriesLeft)) (s.after (catchUp s.self.retriesLeft)) := by
  induction hleft : s.self.retriesLeft using Nat.strong_induction_on generalizing first s with
  | h left ih =>
      rcases Int.lt_or_le s.world.clock s.self.deadline with hd | hd
      · obtain ⟨-, hafter⟩ := Scene.after_of_ok (catchUp_of_early _ hd)
        rw [timeouts.eq_def, if_pos hd, hafter]
        exact .nil (.refl _) fun _ => hf
      have hcatch := catchUp_of_lapse hd
      have haccount : Item.Accounted ⟨.timeout, s⟩ := Item.timeout_accounted rfl
      have hsends := haccount.sends
      cases hl : lapse s with
      | error f t =>
          rw [hl, hleft] at hcatch
          obtain ⟨hres, hafter⟩ := Scene.after_of_error hcatch
          obtain ⟨-, htimeout⟩ := Item.moved?_of_error ⟨.timeout, s⟩ (bind_of_error hl)
          rw [htimeout] at hsends
          rw [timeouts_of_error _ hd hl, hres, hafter]
          refine ⟨?_, .cons_cons (precedes_timeout hf ho) (.singleton _), nofun⟩
          simpa using hsends
      | ok u t =>
          -- The deadline has been put off, and the others follow from there.
          have hless := retriesLeft_of_lapse hl
          have hphase : t.self.phase = s.self.phase :=
            congrArg (fun v => v.self.phase) (lapse_view hl).1
          have ho' : t.self.isOver = false := by
            rw [isOver, hphase]
            exact ho
          obtain ⟨hmoved, htimeout⟩ := Item.moved?_of_ok ⟨.timeout, s⟩ (bind_of_ok hl)
          rw [htimeout] at hsends
          rw [hl, hleft] at hcatch
          obtain ⟨hres, hafter⟩ := Scene.after_congr hcatch
          have hleads : Item.LeadsTo ⟨.timeout, s⟩ t.self :=
            ⟨⟨_, hmoved⟩, congrArg Scene.self htimeout⟩
          have hrest := ih t.self.retriesLeft (by omega) hleads ho' rfl
          rw [hres, hafter, ← hleft, hless, timeouts_of_lapse _ hd hl]
          refine ⟨?_, .cons_cons (precedes_timeout hf ho) hrest.chain, hrest.leads⟩
          simpa using hsends.trans hrest.sends

theorem settle_pursues (hf : first.LeadsTo s.self) :
    Pursues first (settling s) s (s.resultOf settle) (s.after settle) := by
  unfold settling
  by_cases ho : s.self.isOver = true
  · obtain ⟨-, hafter⟩ := Scene.after_of_ok (settle_of_over ho)
    rw [if_pos ho, hafter]
    exact .nil (.refl _) fun _ => hf
  rw [if_neg ho]
  have ho := Bool.eq_false_iff.2 ho
  by_cases hs : s.view.Stops
  · obtain ⟨hres, hafter⟩ := Scene.after_of_error (settle_of_stops ho hs)
    rw [if_pos (show s.self.heedsStop = true ∧ s.world.stopping = true from hs), hres, hafter]
    exact .nil (.refl _) nofun
  rw [if_neg (show ¬ (s.self.heedsStop = true ∧ s.world.stopping = true) from hs)]
  have hcatch := catchUp_pursues hf ho
  have hsettle := settle_of_goesOn ho hs
  cases hc : catchUp s.self.retriesLeft s with
  | error f t =>
      rw [hc] at hsettle
      obtain ⟨hres, hafter⟩ := Scene.after_congr (hsettle.trans hc.symm)
      rw [hres, hafter]
      exact hcatch
  | ok u t =>
      obtain ⟨hres, hafter⟩ := Scene.after_of_ok hc
      rw [hres, hafter] at hcatch
      rw [hc] at hsettle
      -- Nobody but the network notices that the next receive begins.
      have begun (network : Network) (result : Except Failure Unit) : Pursues first
          (timeouts s.self.retriesLeft s) s result { t with world := { t.world with network } } :=
        ⟨hcatch.sends, hcatch.chain, fun _ => hcatch.leads rfl⟩
      dsimp only at hsettle
      cases hb : Network.beginReceive t.world.network with
      | ok u network =>
          rw [hb] at hsettle
          obtain ⟨hres, hafter⟩ := Scene.after_of_ok hsettle
          rw [hres, hafter]
          exact begun network _
      | error f network =>
          rw [hb] at hsettle
          obtain ⟨hres, hafter⟩ := Scene.after_of_error hsettle
          rw [hres, hafter]
          exact begun network _

end

/-! ## Turns -/

/-- What a turn says of its items: nothing goes to the peer but about them, and if the transfer waits
after it, then as the last of them has left it. -/
structure Deals (items : List (Item S)) (s : Scene S) (result : Except Failure Unit) (t : Scene S) :
    Prop where
  sends : s.view.Sends t.view (items.flatMap Item.sent)
  chain : items.IsChain Item.Precedes
  leads : result = .ok () → t.self.isOver = false → ∀ last ∈ items.getLast?, last.LeadsTo t.self

/-- A transfer that waits after a reaction has not been touched since. -/
theorem after_of_waits {s : Scene S} {m : Reaction S Unit}
    (hr : s.resultOf (guarded m) = .ok ())
    (ho : (s.after (guarded m)).self.isOver = false) :
    s.resultOf m = .ok () ∧ s.after (guarded m) = s.after m := by
  cases hm : m s with
  | error f t =>
      obtain ⟨t', hf, -⟩ := fall_eq_error f t
      cases hr.symm.trans (Scene.after_of_error ((guarded_of_error hm).trans hf)).1
  | ok u t =>
      obtain ⟨hres, hafter⟩ := Scene.after_of_ok hm
      have hg := guarded_of_ok hm
      split at hg
      next hover =>
        obtain ⟨hresult, hleft⟩ := Scene.after_congr hg
        rw [hleft, isOver_after_leave hover (hresult.symm.trans hr)] at ho
        cases ho
      next => exact ⟨hres, (Scene.after_of_ok hg).2.trans hafter.symm⟩

section

variable (mute : S.Mute) {s : Scene S}

include mute

/-- A transfer leaves in silence. -/
theorem leave_hushed (v : View S) : Ensures Transfer.leave v (fun _ w => v.Sends w [])
    (fun _ w => v.Sends w []) := by
  refine .leave (fun _ => .refl v) fun _ => ?_
  split <;> exact givenUp_hushed mute v

/-- What comes of a reaction in the end goes without saying anything to the peer. -/
theorem guarded_hushed {m : Reaction S Unit} {sent : List Bytes}
    (h : s.view.Sends (s.after m).view sent) : s.view.Sends (s.after (guarded m)).view sent := by
  have quiet {t t' : Scene S} (ht : s.view.Sends t.view sent) (ht' : t.view.Sends t'.view []) :
      s.view.Sends t'.view sent := by
    simpa using ht.trans ht'
  cases hm : m s with
  | error f t =>
      obtain ⟨t', hf, hview, -⟩ := fall_eq_error f t
      rw [(Scene.after_of_error hm).2] at h
      rw [(Scene.after_of_error ((guarded_of_error hm).trans hf)).2]
      refine quiet h ?_
      rw [hview]
      exact givenUp_hushed mute t.view
  | ok u t =>
      have hg := guarded_of_ok hm
      rw [(Scene.after_of_ok hm).2] at h
      split at hg
      · obtain ⟨-, hafter⟩ := Scene.after_congr hg
        rw [hafter]
        exact quiet h (leave_hushed mute t.view).after
      · rwa [(Scene.after_of_ok hg).2]

/-- **A turn** is dealing with its items. -/
theorem turn_deals (reception? : Option Reception) (hp : s.self.phase ≠ .readEnd) :
    Deals (dealings reception? s) s (s.resultOf (guarded (turn reception?)))
      (s.after (guarded (turn reception?))) := by
  have haccount := Item.accounted mute ⟨.of reception?, s⟩ hp
  have hreact : (Matter.of reception?).react = impulse (S := S) reception? := by
    cases reception? <;> rfl
  unfold dealings
  cases hi : impulse reception? s with
  | error f t =>
      -- There is nothing to settle any more.
      obtain ⟨-, hafter⟩ := Item.moved?_of_error ⟨.of reception?, s⟩
        ((congrFun hreact s).trans hi)
      have ht : turn reception? s = .error f t := bind_of_error hi
      obtain ⟨hres, hturn⟩ := Scene.after_of_error ht
      refine ⟨guarded_hushed mute ?_, .singleton _, fun hok ho => ?_⟩
      · rw [hturn, ← hafter]
        simpa using haccount.sends
      · cases hres.symm.trans (after_of_waits hok ho).1
  | ok moved t =>
      obtain ⟨hmoved, hafter⟩ := Item.moved?_of_ok ⟨.of reception?, s⟩
        ((congrFun hreact s).trans hi)
      have hleads : Item.LeadsTo ⟨.of reception?, s⟩ t.self :=
        ⟨⟨moved, hmoved⟩, congrArg Scene.self hafter⟩
      have hsettle := settle_pursues hleads
      obtain ⟨hres, hturn⟩ := Scene.after_congr (turn_of_impulse hi)
      refine ⟨guarded_hushed mute ?_, hsettle.chain, fun hok ho => ?_⟩
      · have hsends := haccount.sends
        rw [hafter] at hsends
        rw [hturn]
        simpa using hsends.trans hsettle.sends
      · obtain ⟨hok', hsame⟩ := after_of_waits hok ho
        rw [hsame, hturn]
        exact hsettle.leads (hres.symm.trans hok')

end

/-! ## Ledgers -/

/-- What a ledger says of its items. -/
structure Ledger.Kept (start : Scene S) (items : List (Item S)) (events : List Event)
    (result : Except Failure Unit) (s : Scene S) : Prop where
  peer : s.self.peer = start.self.peer
  sent : sentTo start.self.peer events = items.flatMap Item.sent
  starts : items.head? = some ⟨.start, start⟩
  chain : items.IsChain Item.Precedes
  leads : result = .ok () → s.self.isOver = false → ∀ last ∈ items.getLast?, last.LeadsTo s.self

variable {start s : Scene S} {items : List (Item S)} {events : List Event}
  {result : Except Failure Unit}

/-- **A ledger is kept in order.** -/
theorem Ledger.kept (mute : S.Mute) (hp : start.self.phase = .initial)
    (h : Ledger start items events result s) : Kept start items events result s := by
  -- The items of a turn follow those before it, and the last one says what the transfer awaits.
  induction h with
  | begins =>
      have hdeals := turn_deals mute (s := start) none (by simp [hp])
      rw [← begin_eq] at hdeals
      exact {
        peer := hdeals.sends.peer
        sent := hdeals.sends.sentTo_deedsOf
        starts := rfl
        chain := hdeals.chain
        leads := hdeals.leads }
  | @resumes items events s reception _ ho ih =>
      have hdeals := turn_deals mute (some reception)
        (phase_ne_of_live ho (show Phase.isOver .readEnd = true from rfl))
      rw [← resume_eq] at hdeals
      refine ⟨hdeals.sends.peer.trans ih.peer, ?_, ?_, ?_, fun hok ho' last hm => ?_⟩
      · have hsent := hdeals.sends.sentTo_deedsOf
        rw [show s.view.self.peer = start.self.peer from ih.peer] at hsent
        rw [sentTo_append, ih.sent, hsent, List.flatMap_append]
      · rw [List.head?_append, ih.starts, Option.some_or]
      · -- The turn begins with the transfer as the last item has left it.
        refine List.isChain_append.2 ⟨ih.chain, hdeals.chain, fun last hm first hf => ?_⟩
        obtain rfl := Option.some.inj hf
        exact ⟨ih.leads rfl ho last hm, ho, nofun⟩
      · have hne : dealings (some reception) s ≠ [] := List.cons_ne_nil _ _
        rw [List.getLast?_append_of_ne_nil _ hne] at hm
        exact hdeals.leads hok ho' last hm
  | meanwhile world _ ih => exact { ih with }

/-! ## What is repeated -/

/-- The datagram that has been new the last time. -/
def lastFresh (items : List (Item S)) : Option Bytes :=
  ((items.filter fun item => item.kind = .fresh).flatMap Item.sent).getLast?

theorem lastFresh_concat {item : Item S} {bytes : Bytes} (hk : item.kind = .fresh)
    (hs : item.sent = [bytes]) (items : List (Item S)) :
    lastFresh (items ++ [item]) = some bytes := by
  simp [lastFresh, List.filter_append, hk, hs]

theorem lastFresh_concat_of_ne {item : Item S} (hk : item.kind ≠ .fresh) (items : List (Item S)) :
    lastFresh (items ++ [item]) = lastFresh items := by
  simp [lastFresh, List.filter_append, hk]

/-- What is sent again is the last packet. -/
theorem Item.sent_of_again (mute : S.Mute) {item : Item S} {packet : Packet}
    (hp : item.scene.self.phase ≠ .readEnd) (hk : item.kind = .again)
    (hl : item.scene.self.lastPacket = some packet) : item.sent = [packet.encode] := by
  have hl : item.scene.view.self.lastPacket = some packet := hl
  rw [((item.accounted mute hp).again hk).1]
  simp [View.lastSent, hl]

/-- A transfer that goes on after something quiet is what it was before. -/
theorem Item.self_of_quiet (mute : S.Mute) {item : Item S} {t : Transfer S}
    (hp : item.scene.self.phase ≠ .readEnd) (hk : item.kind = .quiet) (hl : item.LeadsTo t)
    (ho : t.isOver = false) : t = item.scene.self := by
  obtain ⟨⟨moved, hmoved⟩, rfl⟩ := hl
  cases hm : item.matter with
  | start => simp [kind, hm, hmoved] at hk
  | timeout => simp [kind, hm, hmoved] at hk
  | reception reception =>
      cases moved with
      | false => exact (stays mute hm hp hmoved).1
      | true =>
          -- Only the end of a read is quiet and moves the transfer forward.
          have hphase : item.after.self.phase = .readEnd := by
            by_contra hne
            simp [kind, hm, hmoved, hne] at hk
          cases (phase_ne_of_live ho (show Phase.isOver .readEnd = true from rfl)) hphase

/-- An item comes up after the others: it is the start, or the last of them precedes it. -/
inductive Thread (start : Scene S) : List (Item S) → Item S → Prop
  | start : Thread start [] ⟨.start, start⟩
  | next {before : List (Item S)} {last item : Item S} : Thread start before last →
      last.Precedes item → Thread start (before ++ [last]) item

namespace Thread

variable {before after : List (Item S)} {item : Item S}

/-- Every item of a chain comes up after those before it. -/
theorem of_chain (hs : (before ++ item :: after).head? = some ⟨.start, start⟩)
    (hc : (before ++ item :: after).IsChain Item.Precedes) : Thread start before item := by
  induction before using List.reverseRecOn generalizing item after with
  | nil =>
      obtain rfl := Option.some.inj hs
      exact .start
  | append_singleton before last ih =>
      rw [List.append_assoc] at hs hc
      exact .next (ih hs hc) (List.isChain_append_cons_cons.1 hc).2.1

theorem matter_ne (h : Thread start before item) (hne : before ≠ []) : item.matter ≠ .start := by
  cases h with
  | start => exact (hne rfl).elim
  | next _ hprec => exact hprec.matter

/-- Who a transfer is and how it is configured does not change. -/
theorem owner (h : Thread start before item) :
    item.scene.self.direction = start.self.direction ∧ item.scene.self.peer = start.self.peer ∧
      item.scene.self.config = start.self.config := by
  induction h with
  | start => exact ⟨rfl, rfl, rfl⟩
  | @next before last item _ hprec ih =>
      have hframe := last.frame_after
      rw [← hprec.leads.self]
      exact ⟨(congrArg Frame.direction hframe).trans ih.1,
        (congrArg Frame.peer hframe).trans ih.2.1, (congrArg Frame.config hframe).trans ih.2.2⟩

section

variable (mute : S.Mute)

include mute

/-- **The last packet is what has been new the last time.** -/
theorem lastFresh_eq (h : Thread start before item) {t : Transfer S} (hl : item.LeadsTo t)
    (ho : t.isOver = false) :
    ∃ packet, t.lastPacket = some packet ∧ lastFresh (before ++ [item]) = some packet.encode := by
  induction h generalizing t with
  | start =>
      obtain ⟨⟨moved, hmoved⟩, rfl⟩ := hl
      have hk : (⟨.start, start⟩ : Item S).kind = .fresh := by simp [Item.kind, hmoved]
      obtain ⟨packet, hlast, hsent⟩ := (Item.start_accounted mute rfl).fresh hk
      exact ⟨packet, hlast, lastFresh_concat hk hsent []⟩
  | @next before last item _ hprec ih =>
      obtain ⟨packet, hlast, hfresh⟩ := ih hprec.leads hprec.isOver
      have hp : item.scene.self.phase ≠ .readEnd := phase_ne_of_live hprec.isOver rfl
      have haccount := item.accounted mute hp
      -- Only what is fresh replaces the last packet, and only that counts as fresh.
      cases hk : item.kind with
      | fresh =>
          obtain ⟨packet', hlast', hsent⟩ := haccount.fresh hk
          rw [← hl.self]
          exact ⟨packet', hlast', lastFresh_concat hk hsent _⟩
      | again =>
          refine ⟨packet, ?_, ?_⟩
          · rw [← hl.self, (haccount.again hk).2]
            exact hlast
          · rwa [lastFresh_concat_of_ne (by simp [hk])]
      | quiet =>
          refine ⟨packet, ?_, ?_⟩
          · rw [Item.self_of_quiet mute hp hk hl ho]
            exact hlast
          · rwa [lastFresh_concat_of_ne (by simp [hk])]

variable (hnew : start.self.phase = .initial)

include hnew

omit mute in
theorem phase_ne (h : Thread start before item) : item.scene.self.phase ≠ .readEnd := by
  cases h with
  | start =>
      rw [hnew]
      exact nofun
  | next _ hprec => exact phase_ne_of_live hprec.isOver rfl

/-- **What is sent again** is what has been new the last time. -/
theorem sent_again (h : Thread start before item) (hk : item.kind = .again) :
    ∃ bytes, lastFresh before = some bytes ∧ item.sent = [bytes] := by
  have hp := h.phase_ne hnew
  cases h with
  | start => simp [Item.kind_eq_again_iff] at hk
  | next hbefore hprec =>
      obtain ⟨packet, hlast, hfresh⟩ := hbefore.lastFresh_eq mute hprec.leads hprec.isOver
      exact ⟨packet.encode, hfresh, Item.sent_of_again mute hp hk hlast⟩

omit mute hnew in
/-- What a read sends again, it sends because of a timeout. -/
theorem retries_of_again (hread : start.self.direction = .read) (h : Thread start before item)
    (hk : item.kind = .again) : item.after.self.retries = item.scene.self.retries + 1 ∧
      item.scene.self.retries < start.self.config.maxRetries := by
  obtain ⟨hdirection, -, hconfig⟩ := h.owner
  rw [← hconfig]
  rcases Item.kind_eq_again_iff.1 hk with ⟨hm, hmoved⟩ | ⟨reception, -, -, hhad⟩
  · obtain ⟨moved, hmoved⟩ := Option.isSome_iff_exists.1 hmoved
    exact Item.retries_of_timeout hm hmoved
  · cases hhad.symm.trans (Item.hasHadIn_of_read (hdirection.trans hread) reception)

/-- What a read sends about an item that is not fresh, it sends again, and counts it. -/
theorem repeats (hread : start.self.direction = .read) (h : Thread start before item)
    (hne : item.kind ≠ .fresh) {packet : Packet} (hl : item.scene.self.lastPacket = some packet)
    (hle : item.scene.self.retries ≤ start.self.config.maxRetries) :
    ∃ k, item.sent = List.replicate k packet.encode ∧
      item.scene.self.retries + k ≤ start.self.config.maxRetries ∧
      ∀ t, item.LeadsTo t → t.isOver = false →
        t.lastPacket = some packet ∧ t.retries = item.scene.self.retries + k := by
  have hp := h.phase_ne hnew
  have haccount := item.accounted mute hp
  cases hk : item.kind with
  | fresh => cases hne hk
  | again =>
      obtain ⟨hnext, hlt⟩ := h.retries_of_again hread hk
      refine ⟨1, Item.sent_of_again mute hp hk hl, hlt, ?_⟩
      rintro - ⟨-, rfl⟩ -
      exact ⟨(haccount.again hk).2.trans hl, hnext⟩
  | quiet =>
      refine ⟨0, haccount.quiet hk, hle, fun t hleads ho => ?_⟩
      rw [Item.self_of_quiet mute hp hk hleads ho]
      exact ⟨hl, rfl⟩

variable (hzero : start.self.retries = 0)

include hzero

/-- A transfer counts anew with each packet that is new. -/
theorem retries_of_fresh (h : Thread start before item) (hk : item.kind = .fresh) :
    item.after.self.retries = 0 := by
  rcases Item.kind_eq_fresh_iff.1 hk with ⟨hm, hmoved⟩ | ⟨reception, hm, hmoved, -⟩
  · obtain ⟨moved, hmoved⟩ := Option.isSome_iff_exists.1 hmoved
    cases h with
    | start => exact Item.retries_of_start rfl hzero hmoved
    | next _ hprec => cases hprec.matter hm
  · exact Item.retries_of_moved mute hm (h.phase_ne hnew) hmoved

/-- **How often a read sends a packet.** Since a packet has been new, it has gone to the peer once,
and then as often again as the transfer has counted. -/
theorem sent_since (hread : start.self.direction = .read) {old since : List (Item S)}
    {first : Item S} (hs : (old ++ first :: since).head? = some ⟨.start, start⟩)
    (hc : (old ++ first :: since).IsChain Item.Precedes) (hk : first.kind = .fresh)
    (hold : ∀ other ∈ since, other.kind ≠ .fresh) :
    ∃ packet k, k ≤ start.self.config.maxRetries ∧
      (first :: since).flatMap Item.sent = List.replicate (k + 1) packet.encode ∧
      ∀ last ∈ (first :: since).getLast?, ∀ t, last.LeadsTo t → t.isOver = false →
        t.lastPacket = some packet ∧ t.retries = k := by
  induction since using List.reverseRecOn with
  | nil =>
      have hthread := of_chain hs hc
      obtain ⟨packet, hlast, hsent⟩ := (first.accounted mute (hthread.phase_ne hnew)).fresh hk
      refine ⟨packet, 0, Nat.zero_le _, by simp [hsent], ?_⟩
      rintro last hm - ⟨-, rfl⟩ -
      obtain rfl := Option.some.inj hm
      exact ⟨hlast, hthread.retries_of_fresh mute hnew hzero hk⟩
  | append_singleton since other ih =>
      have hsplit : old ++ first :: (since ++ [other]) = old ++ first :: since ++ [other] := by simp
      rw [hsplit] at hs hc
      have hthread := of_chain hs hc
      obtain ⟨hc, -, hprec⟩ := List.isChain_append.1 hc
      obtain ⟨packet, k, hle, hsent, hleads⟩ := ih (by simpa using hs) hc
        fun other hm => hold other (by simp [hm])
      -- What the others have left is what this one finds.
      have hlast := List.getLast?_eq_some_getLast (List.cons_ne_nil first since)
      have hprec := hprec _ (by rw [List.getLast?_append_of_ne_nil _ (by simp), hlast]; rfl) other rfl
      obtain ⟨hpacket, rfl⟩ := hleads _ hlast _ hprec.leads hprec.isOver
      obtain ⟨more, hmore, hle, hnext⟩ :=
        hthread.repeats mute hnew hread (hold other (by simp)) hpacket hle
      refine ⟨packet, other.scene.self.retries + more, hle, ?_, fun last hm => ?_⟩
      · rw [← List.cons_append, List.flatMap_append, hsent, List.flatMap_singleton, hmore,
          List.replicate_append_replicate, Nat.add_right_comm]
      · rw [← List.cons_append, List.getLast?_concat] at hm
        obtain rfl := Option.some.inj hm
        exact hnext

end

end Thread

namespace Ledger.Kept

variable {before after : List (Item S)} {item : Item S}

theorem thread (h : Kept start items events result s) (hs : items = before ++ item :: after) :
    Thread start before item := .of_chain (hs ▸ h.starts) (hs ▸ h.chain)

theorem thread_of_mem (h : Kept start items events result s) (hm : item ∈ items) :
    ∃ before, Thread start before item := by
  obtain ⟨before, after, hs⟩ := List.append_of_mem hm
  exact ⟨before, h.thread hs⟩

end Ledger.Kept

/-! ## The balance -/

/-- Every datagram that goes to the peer is accounted for. -/
structure Balanced (start : Scene S) (items : List (Item S)) (events : List Event) : Prop where
  /-- The peer is sent what it is sent about the items, and nothing else. -/
  all : sentTo start.self.peer events = items.flatMap Item.sent
  /-- The transfer starts once. -/
  starts : ∃ rest, items = ⟨.start, start⟩ :: rest ∧ ∀ item ∈ rest, item.matter ≠ .start
  /-- A start brings one new packet, and so does each packet that moves the transfer forward, but for
  the one that ends a read. -/
  fresh : ∀ item ∈ items, item.kind = .fresh →
    ∃ packet, item.after.self.lastPacket = some packet ∧ item.sent = [packet.encode]
  /-- A timeout brings one retransmission, byte for byte what has been new the last time. So does a
  block that has been there before. -/
  again : ∀ {before item after}, items = before ++ item :: after → item.kind = .again →
    ∃ bytes, lastFresh before = some bytes ∧ item.sent = [bytes]
  /-- Nothing else brings anything, nor does what makes the transfer fail. -/
  quiet : ∀ item ∈ items, item.kind = .quiet → item.sent = []
  /-- Whenever a block has been there before, there is a retransmission, unless the network does not
  take it. -/
  repeated : ∀ item ∈ items, ∀ reception, item.matter = .reception reception →
    item.scene.self.hasHadIn reception = true → item.kind = .again ∨ item.Unheard
  /-- An ACK of another block than the last one neither moves a read forward nor brings anything. -/
  stale : start.self.direction = .read → ∀ item ∈ items, ∀ reception block,
    item.matter = .reception reception →
    reception.packetFrom start.self.peer = some (.ack block) → block ≠ item.scene.self.block →
    item.moved? = some false ∧ item.sent = []
  /-- So what a read sends goes out once, and then at most as often again as is configured. -/
  bounded : start.self.direction = .read → ∀ {old first since later},
    items = old ++ first :: since ++ later → first.kind = .fresh →
    (∀ item ∈ since, item.kind ≠ .fresh) →
    ∃ (packet : Packet) (k : Nat), k ≤ start.self.config.maxRetries ∧
      (first :: since).flatMap Item.sent = List.replicate (k + 1) packet.encode
  /-- What does not move the transfer forward changes nothing about it and its files. -/
  unmoved : ∀ item ∈ items, ∀ reception, item.matter = .reception reception →
    item.moved? = some false →
    item.after.self = item.scene.self ∧ item.after.world.store = item.scene.world.store

/-- A read that does not move forward is quiet, unless it is because of a timeout. -/
theorem Item.quiet_of_read {item : Item S} {reception : Reception}
    (hd : item.scene.self.direction = .read) (hm : item.matter = .reception reception)
    (h : item.moved? = some false) : item.kind = .quiet := by
  simp [kind, hm, h, hasHadIn_of_read hd]

section

variable (mute : S.Mute) {direction : Direction} {request : Request} {peer : Address}
  {socket : Socket} {config : Config} {heedsStop : Bool} {world : World S}

include mute

/-- **A ledger is balanced.** -/
theorem Ledger.balanced
    (h : Ledger ⟨.new S direction request peer socket config heedsStop, world⟩ items events result s) :
    Balanced ⟨.new S direction request peer socket config heedsStop, world⟩ items events := by
  have hkept := h.kept mute rfl
  have phase {item} (hm : item ∈ items) : item.scene.self.phase ≠ .readEnd := by
    obtain ⟨before, ht⟩ := hkept.thread_of_mem hm
    exact ht.phase_ne rfl
  refine {
    all := hkept.sent
    starts := ?_
    fresh := fun item hm => (item.accounted mute (phase hm)).fresh
    again := fun hs hk => (hkept.thread hs).sent_again mute rfl hk
    quiet := fun item hm => (item.accounted mute (phase hm)).quiet
    repeated := fun item hm reception hmatter => Item.again_of_hasHad mute hmatter (phase hm)
    stale := fun hread item hm reception block hmatter hpacket hne => ?_
    bounded := fun hread old first since later hs hk hold => ?_
    unmoved := fun item hm reception hmatter => Item.stays mute hmatter (phase hm) }
  · obtain ⟨rest, rfl⟩ := List.head?_eq_some_iff.1 hkept.starts
    refine ⟨rest, rfl, fun item hm => ?_⟩
    obtain ⟨before, after, rfl⟩ := List.append_of_mem hm
    exact (hkept.thread (List.cons_append).symm).matter_ne (List.cons_ne_nil _ _)
  · obtain ⟨before, ht⟩ := hkept.thread_of_mem hm
    obtain ⟨hdirection, hpeer, -⟩ := ht.owner
    have hmoved := Item.moved?_of_stale hmatter (hdirection.trans hread) (hpeer ▸ hpacket) hne
    have hk := Item.quiet_of_read (hdirection.trans hread) hmatter hmoved
    exact ⟨hmoved, (item.accounted mute (phase hm)).quiet hk⟩
  · have hstarts := hkept.starts
    have hchain := hkept.chain
    rw [hs] at hstarts hchain
    obtain ⟨packet, k, hle, hsent, -⟩ := Thread.sent_since mute rfl rfl hread
      (by simpa using hstarts) (List.isChain_append.1 hchain).1 hk hold
    exact ⟨packet, k, hle, hsent⟩

/-- **Every datagram to the peer is accounted for**, in every session of a transfer, and every
retransmission is faithful. -/
theorem Session.accounts_balance
    (h : Session ⟨.new S direction request peer socket config heedsStop, world⟩ events result s) :
    ∃ items,
      Ledger ⟨.new S direction request peer socket config heedsStop, world⟩ items events result s ∧
      Balanced ⟨.new S direction request peer socket config heedsStop, world⟩ items events := by
  obtain ⟨items, hl⟩ := h.ledger
  exact ⟨items, hl, hl.balanced mute⟩

end

/-- A client that asks for a file to be received in blocks of eight bytes. -/
def uploading : Scene (Scripted.storage {}) where
  self := .new _ .write ⟨ascii "digits", .octet, { blockSize := some 8 }⟩ ⟨⟨10, 0, 0, 1⟩, 5000⟩
    ⟨⟨⟨10, 0, 0, 2⟩, 40000⟩⟩ { timeout := 100 } true
  world := { store := () }

/-- Each of the two first blocks comes, and after each the first one comes once more. Then a block
comes that is not due yet, and then nothing any more. -/
theorem Session.accounts_balance_uploading : (Scripted.storage {}).Mute ∧ ∃ events s,
    Session uploading events (.ok ()) s ∧
    sentTo uploading.self.peer events = [(Packet.oack { blockSize := some 8 }).encode,
      (Packet.ack 1).encode, (Packet.ack 1).encode, (Packet.ack 2).encode, (Packet.ack 2).encode,
      (Packet.ack 2).encode] ∧
    ∃ items, Ledger uploading items events (.ok ()) s ∧ Balanced uploading items events := by
  let block (number : UInt16) : Reception :=
    .datagram uploading.self.peer (Packet.data number (List.replicate 8 0)).encode
  let after (s : Scene (Scripted.storage {})) (number : UInt16) := s.after (resume (block number))
  have began : Session uploading _ (uploading.resultOf begin) _ := .begins
  rw [show uploading.resultOf begin = .ok () by decide +kernel] at began
  let first := uploading.after begin
  have stored := began.resumes (block 1) (by decide +kernel)
  rw [show first.resultOf (resume (block 1)) = .ok () by decide +kernel] at stored
  have repeated := stored.resumes (block 1) (by decide +kernel)
  rw [show (after first 1).resultOf (resume (block 1)) = .ok () by decide +kernel] at repeated
  let second := after (after first 1) 1
  have continued := repeated.resumes (block 2) (by decide +kernel)
  rw [show second.resultOf (resume (block 2)) = .ok () by decide +kernel] at continued
  have belated := continued.resumes (block 1) (by decide +kernel)
  rw [show (after second 2).resultOf (resume (block 1)) = .ok () by decide +kernel] at belated
  let third := after (after second 2) 1
  have early := belated.resumes (block 4) (by decide +kernel)
  rw [show third.resultOf (resume (block 4)) = .ok () by decide +kernel] at early
  let fourth := after third 4
  let late : Scene (Scripted.storage {}) :=
    { fourth with world := { fourth.world with clock := fourth.world.clock + 100 } }
  have lapsed := (early.meanwhile late.world).resumes .nothing (by decide +kernel)
  rw [show late.resultOf (resume .nothing) = .ok () by decide +kernel] at lapsed
  exact ⟨Scripted.mute {}, _, _, lapsed, by decide +kernel,
    Session.accounts_balance (Scripted.mute {}) lapsed⟩

end Transfer

/-! ## Rehearsals -/

namespace Rehearsal

open Transfer

variable {S : Storage}

/-- What a turn says to the peer is put on record after what is there. -/
theorem sentTo_trace (reception? : Option Reception) (s : Scene S) (peer : Address) :
    sentTo peer (s.after (guarded (turn reception?))).world.trace.reverse =
      sentTo peer s.world.trace.reverse ++
        sentTo peer (s.deedsOf (guarded (turn reception?))) := by
  let p : Passage S := ⟨0, reception?, s⟩
  obtain ⟨events, h⟩ := p.grows
  have hdeeds : sentTo peer (s.deedsOf (guarded (turn reception?))) = sentTo peer events.reverse :=
    p.sentTo_deedsOf h peer
  have h : (s.after (guarded (turn reception?))).world.trace = events ++ s.world.trace := h
  rw [hdeeds, h, List.reverse_append, sentTo_append]

/-- What is on record so far, in records that are closed and in the one that is open. -/
def State.recorded (state : State S) : List Event :=
  state.records.reverse.flatMap Record.events ++ state.world.trace.reverse

theorem State.recorded_cut (state : State S) (brief : Bool) :
    (state.cut brief).recorded = state.recorded := by
  simp [recorded, cut]

/-- While a receive waits, nothing is put on record. -/
theorem next_recorded (limit : Nat) (queue : List Queued) (state : State S) :
    (next limit queue state).2.2.recorded = state.recorded := by
  induction limit, queue, state using next_induction with
  | nil limit state => rfl
  | enter limit cue queue state ih =>
      rw [next_enter]
      exact ih.trans (state.recorded_cut cue.isBrief)
  | pause limit ms queue state ih =>
      rw [next_pause]
      split
      · rfl
      next hlt => exact ih (Nat.lt_of_not_le hlt)
  | raise limit queue state ih =>
      rw [next_raise]
      exact ih
  | fault limit fault queue state ih =>
      rw [next_fault]
      exact ih
  | drained limit series first brief queue state ih => exact ih
  | datagram | failure | stop | series => rfl

/-- A ledger of a rehearsal: the peer has been sent what is on record. -/
def Booked (start : Scene S) (result : Except Failure Unit) (state : State S) : Prop :=
  ∃ items events, Ledger start items events result state.scene ∧
    sentTo start.self.peer state.recorded =
      sentTo start.self.peer start.world.trace.reverse ++ sentTo start.self.peer events

section

variable {start : Scene S} {state : State S}

theorem Booked.waits (h : Booked start (.ok ()) state) (limit : Nat) (queue : List Queued) :
    Booked start (.ok ()) (next limit queue state).2.2 := by
  obtain ⟨items, events, hl, hrec⟩ := h
  obtain ⟨hself, -⟩ := next_keeps limit queue state
  refine ⟨items, events, ?_, (congrArg _ (next_recorded limit queue state)).trans hrec⟩
  have hl := hl.meanwhile (next limit queue state).2.2.world
  rwa [show state.scene.self = _ from hself.symm] at hl

theorem Booked.resumes (h : Booked start (.ok ()) state) (ho : state.transfer.isOver = false)
    (reception : Reception) : Booked start (state.scene.resultOf (resume reception))
      (state.at (state.scene.after (resume reception))) := by
  obtain ⟨items, events, hl, hrec⟩ := h
  refine ⟨_, _, hl.resumes reception ho, ?_⟩
  have htrace := sentTo_trace (some reception) state.scene start.self.peer
  rw [← resume_eq] at htrace
  unfold State.recorded at hrec ⊢
  rw [sentTo_append] at hrec
  rw [sentTo_append, sentTo_append, ← List.append_assoc, ← hrec, List.append_assoc]
  exact congrArg _ htrace

/-- **A rehearsal goes by the book.** -/
theorem play_booked {result : Except Failure Unit} (queue : List Queued)
    (h : Booked start result state) : ∃ result', Booked start result' (play result queue state).2.2 ∧
      (play result queue state).1 = .ofResult (play result queue state).2.2.transfer result' := by
  induction result, queue, state using play_induction with
  | failed failure queue state =>
      rw [play]
      exact ⟨_, h, rfl⟩
  | done queue state ho =>
      rw [play_over ho]
      exact ⟨_, h, (if_pos ho).symm⟩
  | waits queue state rest state' ho hn =>
      have hwaits := h.waits (state.transfer.limit state.world.clock) queue
      obtain ⟨hself, -⟩ := next_keeps (state.transfer.limit state.world.clock) queue state
      rw [hn] at hwaits hself
      have ho' : state'.transfer.isOver = false := by rwa [show state'.transfer = _ from hself]
      rw [play_of_none ho hn]
      exact ⟨_, hwaits, (if_neg (Bool.eq_false_iff.1 ho')).symm⟩
  | resumes queue state reception rest state' ho hn ih =>
      have hwaits := h.waits (state.transfer.limit state.world.clock) queue
      obtain ⟨hself, -⟩ := next_keeps (state.transfer.limit state.world.clock) queue state
      rw [hn] at hwaits hself
      have ho' : state'.transfer.isOver = false := by rwa [show state'.transfer = _ from hself]
      rw [play_of_some ho hn]
      exact ih (hwaits.resumes ho' reception)

end

/-- **What a report shows is accounted for**: besides what had been sent before, the peer has been sent
what its items say. -/
theorem run_accounts (mute : S.Mute) {world : World S} {direction : Direction} {request : Request}
    {peer : Address} {config : Config} {heedsStop : Bool} {script : List Cue} {report : Report S}
    (h : run world direction request peer config heedsStop script = .ok report) :
    ∃ socket world' items events result,
      Ledger ⟨.new S direction request peer socket config heedsStop, world'⟩ items events result
        ⟨report.transfer, report.world⟩ ∧
      Balanced ⟨.new S direction request peer socket config heedsStop, world'⟩ items events ∧
      report.ending = .ofResult report.transfer result ∧
      sentTo peer (report.records.flatMap Record.events) =
        sentTo peer world.trace.reverse ++ items.flatMap Item.sent := by
  unfold run at h
  cases hopen : World.onNetwork (Network.openSocket localhost) world with
  | error f world' =>
      rw [hopen] at h
      cases h
  | ok socket world' =>
      have htrace : world'.trace = world.trace := by
        obtain ⟨network, -, rfl⟩ := World.onNetwork_eq_ok hopen
        rfl
      rw [hopen] at h
      let start : Scene S := ⟨.new S direction request peer socket config heedsStop, world'⟩
      have hbegun : Booked start (start.resultOf begin)
          { transfer := (start.after begin).self, world := (start.after begin).world } := by
        refine ⟨_, _, .begins, ?_⟩
        have hbegin := sentTo_trace none start peer
        rwa [← begin_eq] at hbegin
      obtain ⟨result, ⟨items, events, hl, hrec⟩, hend⟩ :=
        play_booked (script.map fun cue => { cue }) hbegun
      -- The report closes the last record.
      rw [← State.recorded_cut _ false] at hrec
      have hbalanced := hl.balanced mute
      cases h
      refine ⟨socket, world', items, events, result, hl.meanwhile _, hbalanced, hend, ?_⟩
      rw [← show sentTo peer events = items.flatMap Item.sent from hbalanced.all, ← htrace]
      exact (congrArg (sentTo peer) (List.append_nil _).symm).trans hrec

end Rehearsal

end Tftp
