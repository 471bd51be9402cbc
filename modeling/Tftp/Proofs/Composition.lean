import Tftp.Proofs.Pieces

/-!
# What a reaction has from its parts

Much of what is true of every reaction is true because it is true of the parts: that it leaves the
socket alone, that it does not depend on the log, or that another client does not notice it. A
property is `Compositional` if it holds of each elementary reaction and passes from the parts of a
reaction to the whole. Such a property holds of whatever a transfer does, which is shown here once
for all of them.

    transmit ─▶ send ─▶ fill ─▶ sendNextBlock ─▶ start, handle ─▶ catchUp ─▶ settle
-/

namespace Tftp.Transfer

variable {S : Storage}

/-- The same transfer under another poll interval, and with its socket on another port. Only the
network has to do with these. -/
def disguised (t : Transfer S) (ms : Nat) (port : UInt16) : Transfer S :=
  { t with
    config := { t.config with pollInterval := ms }
    socket := ⟨{ t.socket.address with port }⟩ }

/-- What a transfer has to do, and with which files. -/
structure Errand (S : Storage) where
  direction : Direction
  request : Request
  peer : Address
  socket : Socket
  config : Config
  heedsStop : Bool
  reader : Option S.Reader
  writer : Option S.Writer

def errand (t : Transfer S) : Errand S where
  direction := t.direction
  request := t.request
  peer := t.peer
  socket := t.socket
  config := t.config
  heedsStop := t.heedsStop
  reader := t.reader
  writer := t.writer

/-- A change of nothing but how far a transfer has come. -/
structure Inner (f : Transfer S → Transfer S) : Prop where
  disguised : ∀ t ms port, f (t.disguised ms port) = (f t).disguised ms port
  errand : ∀ t, (f t).errand = t.errand

theorem Inner.reaching (phase : Phase) : Inner fun t : Transfer S => { t with phase } :=
  ⟨fun _ _ _ => rfl, fun _ => rfl⟩

theorem Inner.counting : Inner fun t : Transfer S => { t with block := t.block + 1 } :=
  ⟨fun _ _ _ => rfl, fun _ => rfl⟩

/-- A property of each elementary reaction that passes from the parts of a reaction to the whole. -/
structure Compositional (P : {α : Type} → Reaction S α → Prop) : Prop where
  pure : ∀ {α : Type} (a : α), P (Pure.pure a)
  throw : ∀ {α : Type} (f : Failure), P (MonadExcept.throw f : Reaction S α)
  bind : ∀ {α β : Type} {m : Reaction S α} {next : α → Reaction S β}, P m →
    (∀ a, P (next a)) → P (m >>= next)
  /-- What is done next may depend on the transfer, but not on what concerns the network only. -/
  self_bind : ∀ {α : Type} {next : Transfer S → Reaction S α},
    (∀ t ms port, next (t.disguised ms port) = next t) → (∀ t, P (next t)) →
      P (Transfer.self >>= next)
  update : ∀ {f : Transfer S → Transfer S}, Inner f → P (Transfer.update f)
  now : P (Transfer.now (S := S))
  stopping : P (Transfer.stopping (S := S))
  log : ∀ notice, P (Transfer.log (S := S) notice)
  transmit : ∀ packet, P (Transfer.transmit (S := S) packet)
  beginReceive : P (liftM (World.onNetwork (S := S) Network.beginReceive) : Reaction S Unit)
  openReader : P (Read.openFile (S := S))
  read : ∀ n, P (Read.readSome (S := S) n)
  openWriter : P (Write.openFile (S := S))
  write : ∀ bytes, P (Write.store (S.write bytes))
  finish : P (Write.store S.finish)
  abort : P (Write.onWriter S.abort)

namespace Compositional

variable {P : {α : Type} → Reaction S α → Prop} (h : Compositional P)

include h

theorem send (packet : Packet) : P (Transfer.send (S := S) packet) :=
  h.bind (h.transmit packet) fun _ => h.update ⟨fun _ _ _ => rfl, fun _ => rfl⟩

theorem resend : P (Transfer.resend (S := S)) := by
  refine h.self_bind (fun _ _ _ => rfl) fun t => ?_
  cases t.lastPacket with
  | none => exact h.pure _
  | some packet => exact h.transmit packet

theorem settleTerms (fileSize : Option UInt64) : P (Transfer.settleTerms (S := S) fileSize) := by
  refine h.self_bind (fun _ _ _ => rfl) fun t => ?_
  cases negotiate t.request.options t.config t.direction fileSize with
  | error f => exact h.throw f
  | ok terms => exact h.bind (h.log _) fun _ => h.update ⟨fun _ _ _ => rfl, fun _ => rfl⟩

theorem rearm : P (Transfer.rearm (S := S)) :=
  h.bind h.now fun _ => h.update ⟨fun _ _ _ => rfl, fun _ => rfl⟩

/-! ## Sending a file -/

theorem fill (n : Nat) (chunks : List Bytes) : P (Read.fill (S := S) n chunks) :=
  Read.fill_induction (fun _ => h.pure _) (fun n _ hm => h.bind (h.read n) hm) n chunks

theorem sendNextBlock : P (Read.sendNextBlock (S := S)) := by
  apply h.self_bind (fun _ _ _ => rfl)
  intro t
  apply h.bind (h.fill _ _)
  intro payload
  apply h.bind (h.update .counting)
  intro _
  apply h.self_bind (fun _ _ _ => rfl)
  intro t
  exact h.bind (h.send _) fun _ => h.update (.reaching _)

theorem readAnswer (terms : Terms) : P (Read.answer (S := S) terms) := by
  unfold Read.answer
  split
  · refine h.bind (h.update ⟨fun _ _ _ => rfl, fun _ => rfl⟩) fun _ => ?_
    exact h.bind (h.send _) fun _ => h.update (.reaching _)
  · exact h.sendNextBlock

theorem readStart : P (Read.start (S := S)) := by
  rw [Read.start_eq_openFile]
  apply h.self_bind (fun _ _ _ => rfl)
  intro t
  apply h.bind h.openReader
  intro fileSize
  apply h.bind (h.settleTerms fileSize)
  intro _
  apply h.bind (h.log _)
  intro _
  exact h.self_bind (fun _ _ _ => rfl) fun t => h.readAnswer t.terms

theorem readHandle (packet : Packet) : P (Read.handle (S := S) packet) := by
  cases packet with
  | ack block =>
      refine h.self_bind (fun _ _ _ => rfl) fun t => ?_
      split
      · exact h.pure _
      · cases t.phase with
        | waitingAfterOack | waitingAck => exact h.bind h.sendNextBlock fun _ => h.pure _
        | waitingLastAck =>
            exact h.bind (h.log _) fun _ => h.bind (h.update (.reaching _)) fun _ => h.pure _
        | _ => exact h.pure _
  | _ => exact h.pure _

/-! ## Receiving a file -/

theorem writeAnswer (terms : Terms) : P (Write.answer (S := S) terms) :=
  h.bind (h.send _) fun _ => h.update ⟨fun _ _ _ => rfl, fun _ => rfl⟩

theorem writeStart : P (Write.start (S := S)) := by
  rw [Write.start_eq_openFile]
  apply h.bind (h.settleTerms none)
  intro _
  apply h.self_bind (fun _ _ _ => rfl)
  intro t
  apply h.bind h.openWriter
  intro _
  exact h.bind (h.log _) fun _ => h.writeAnswer t.terms

theorem acknowledge (t : Transfer S) (block : UInt16) (payload : Bytes) :
    P (Write.acknowledge t block payload) := by
  unfold Write.acknowledge
  split
  · apply h.bind h.finish
    intro _
    apply h.bind (h.send _)
    intro _
    exact h.bind (h.update (.reaching _)) fun _ => h.bind (h.log _) fun _ => h.pure _
  · exact h.bind (h.send _) fun _ => h.bind (h.update .counting) fun _ => h.pure _

theorem take (t : Transfer S) (block : UInt16) (payload : Bytes) :
    P (Write.take t block payload) := by
  unfold Write.take
  split
  · exact h.throw _
  · split
    · exact h.bind (h.write payload) fun _ => h.acknowledge t block payload
    · exact h.acknowledge t block payload

theorem writeHandle (packet : Packet) : P (Write.handle (S := S) packet) := by
  cases packet with
  | data block payload =>
      rw [Write.handle_data_eq]
      refine h.self_bind (fun _ _ _ => rfl) fun t => ?_
      split
      · split
        · exact h.bind h.resend fun _ => h.pure _
        · exact h.pure _
      · exact h.take t block payload
  | _ => exact h.pure _

/-! ## Running a transfer -/

theorem catchUp (left : Nat) : P (Transfer.catchUp (S := S) left) := by
  -- The recursion is on the retransmissions that are left, and each of them is a reaction like any.
  induction left with
  | zero =>
      refine h.self_bind (fun _ _ _ => rfl) fun t => h.bind h.now fun time => ?_
      split
      · exact h.pure _
      · exact h.bind (h.log _) fun _ => h.throw _
  | succ left ih =>
      refine h.self_bind (fun _ _ _ => rfl) fun t => h.bind h.now fun time => ?_
      split
      · exact h.pure _
      · refine h.bind (h.update ⟨fun _ _ _ => rfl, fun _ => rfl⟩) fun _ => ?_
        apply h.bind (h.log _)
        intro _
        exact h.bind h.resend fun _ => h.bind h.rearm fun _ => ih

theorem settle : P (Transfer.settle (S := S)) := by
  rw [settle_eq]
  refine h.self_bind (fun _ _ _ => rfl) fun t => ?_
  split
  · exact h.pure _
  · refine h.bind h.stopping fun stopping => ?_
    -- The rest stands after both cases, though it is never reached after a failure.
    have waits := h.bind (h.catchUp (t.config.maxRetries - t.retries)) fun _ => h.beginReceive
    split
    · exact h.bind (h.throw _) fun _ => waits
    · exact waits

theorem start : P (Transfer.start (S := S)) := by
  refine h.self_bind (fun _ _ _ => rfl) fun t => ?_
  cases t.direction with
  | read => exact h.readStart
  | write => exact h.writeStart

theorem handle (packet : Packet) : P (Transfer.handle (S := S) packet) := by
  unfold Transfer.handle
  split
  · exact h.throw _
  · refine h.self_bind (fun _ _ _ => rfl) fun t => ?_
    cases t.direction with
    | read => exact h.readHandle packet
    | write => exact h.writeHandle packet

theorem leave : P (Transfer.leave (S := S)) := by
  refine h.self_bind (fun _ _ _ => rfl) fun t => ?_
  split
  · exact h.bind h.abort fun _ => h.log _
  · exact h.log _

theorem fall (f : Failure) : P (Transfer.fall (S := S) f) :=
  h.bind (h.update (.reaching _)) fun _ => h.bind h.leave fun _ => h.throw f

theorem advance : P (Transfer.advance (S := S)) :=
  h.bind (h.update ⟨fun _ _ _ => rfl, fun _ => rfl⟩) fun _ => h.rearm

end Compositional

/-! ## Turns -/

/-- A compositional property that also passes to what deals with a failure or with a stranger. -/
structure Pervasive (P : {α : Type} → Reaction S α → Prop) : Prop extends Compositional P where
  tryCatch : ∀ {α : Type} {m : Reaction S α} {handler : Failure → Reaction S α}, P m →
    (∀ f, P (handler f)) → P (MonadExcept.tryCatch m handler)
  rejectStranger : ∀ sender, P (Transfer.rejectStranger (S := S) sender)

namespace Pervasive

variable {P : {α : Type} → Reaction S α → Prop} (h : Pervasive P)

include h

theorem heed (reception : Reception) : P (Transfer.heed (S := S) reception) := by
  unfold Transfer.heed
  cases (reception.cut Network.maxDatagram).outcome with
  | error f => exact h.throw f
  | ok datagram? =>
      cases datagram? with
      | none => exact h.pure false
      | some datagram =>
          refine h.self_bind (fun _ _ _ => rfl) fun t => ?_
          split
          · exact h.bind (h.rejectStranger _) fun _ => h.pure _
          · cases Packet.parse datagram.2 with
            | error malformed => exact h.bind (h.log _) fun _ => h.pure _
            | ok packet => exact h.bind (h.log _) fun _ => h.handle packet

theorem impulse (reception? : Option Reception) :
    P (Transfer.impulse (S := S) reception?) := by
  cases reception? with
  | none => exact h.bind h.start fun _ => h.bind h.rearm fun _ => h.pure true
  | some reception =>
      refine h.bind (h.heed reception) fun moved => ?_
      cases moved with
      | false => exact h.pure false
      | true => exact h.bind h.advance fun _ => h.pure true

theorem guarded {m : Reaction S Unit} (hm : P m) : P (Transfer.guarded m) := by
  rw [guarded_eq]
  refine h.bind (h.tryCatch hm h.fall) fun _ => h.self_bind (fun _ _ _ => rfl) fun t => ?_
  split
  · exact h.leave
  · exact h.pure _

/-- **A turn has every pervasive property.** -/
theorem turn (reception? : Option Reception) :
    P (Transfer.guarded (Transfer.turn (S := S) reception?)) :=
  h.guarded (h.bind (h.impulse reception?) fun _ => h.settle)

end Pervasive

end Tftp.Transfer
