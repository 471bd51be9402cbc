import Tftp.Transfer.Run

/-!
# The pieces of a reaction

The longest reactions of a transfer are those to a request and to a block. What is said about them
mostly concerns one of their pieces: the file that is opened, the packet that answers the request, and
the acknowledgement of a block whose payload has been stored. A turn has pieces as well: its impulse,
the settling after it, and what remains to be done about a failure. Here these pieces have names of
their own, and each reaction is put together from them.
-/

namespace Tftp.Transfer

variable {S : Storage}

namespace Read

/-- Answers the request, with the OACK or with the first block. -/
def answer (terms : Terms) : Reaction S Unit :=
  if terms.oackRequired then do
    update fun transfer => { transfer with block := 0 }
    send (.oack terms.oack)
    update fun transfer => { transfer with phase := .waitingAfterOack }
  else sendNextBlock

theorem start_eq : start (S := S) = (do
    let transfer ← self
    let (reader, fileSize) ← World.onStore (S.source transfer.peer transfer.request.filename)
    update fun transfer => { transfer with reader := some reader }
    settleTerms fileSize
    log (.started .read transfer.request.filename transfer.peer transfer.request.mode)
    answer (← self).terms) := rfl

/-- Opens the file; says how long it is, if that is known. -/
def openFile : Reaction S (Option UInt64) := do
  let transfer ← self
  let (reader, fileSize) ← World.onStore (S.source transfer.peer transfer.request.filename)
  update fun transfer => { transfer with reader := some reader }
  return fileSize

theorem start_eq_openFile : start (S := S) = (do
    let transfer ← self
    let fileSize ← openFile
    settleTerms fileSize
    log (.started .read transfer.request.filename transfer.peer transfer.request.mode)
    answer (← self).terms) := by
  funext s
  rw [start_eq]
  simp only [openFile, bind_assoc]
  rfl

/-- A block is filled by one read after the other, so what holds of a read and what follows it holds of
the whole. -/
theorem fill_induction {P : Reaction S Bytes → Prop} (done : ∀ bytes, P (pure bytes))
    (more : ∀ n next, (∀ bytes, P (next bytes)) → P (readSome n >>= next)) (n : Nat)
    (chunks : List Bytes) : P (fill n chunks) := by
  induction n, chunks using fill.induct with
  | case1 chunks =>
      rw [fill]
      exact done _
  | case2 n chunks hn ih =>
      rw [fill, if_neg hn]
      refine more n _ fun bytes => ?_
      by_cases hb : bytes = []
      · rw [dif_pos hb]
        exact done _
      · rw [dif_neg hb]
        exact ih bytes hb

end Read

namespace Write

/-- Answers the request, with the OACK or as block 0. -/
def answer (terms : Terms) : Reaction S Unit := do
  send (if terms.oackRequired then .oack terms.oack else .ack 0)
  update fun transfer => { transfer with block := 1, phase := .waitingData }

theorem start_eq : start (S := S) = (do
    settleTerms none
    let transfer ← self
    let writer ← World.onStore
      (S.sink transfer.peer transfer.request.filename transfer.terms.transferSize)
    update fun transfer => { transfer with writer := some writer }
    log (.started .write transfer.request.filename transfer.peer transfer.request.mode)
    answer transfer.terms) := by
  unfold start answer
  congr 1
  funext _
  congr 1
  funext transfer
  cases h : transfer.terms.oackRequired <;> rfl

/-- Opens the file. -/
def openFile : Reaction S Unit := do
  let transfer ← self
  let writer ← World.onStore
    (S.sink transfer.peer transfer.request.filename transfer.terms.transferSize)
  update fun transfer => { transfer with writer := some writer }

theorem start_eq_openFile : start (S := S) = (do
    settleTerms none
    let transfer ← self
    openFile
    log (.started .write transfer.request.filename transfer.peer transfer.request.mode)
    answer transfer.terms) := by
  funext s
  rw [start_eq]
  simp only [openFile, bind_assoc]
  rfl

/-- Acknowledges a block whose payload has been stored. The last block is acknowledged when the file
has been finished. -/
def acknowledge (transfer : Transfer S) (block : UInt16) (payload : Bytes) : Reaction S Bool := do
  if payload.length < transfer.terms.blockSize.toNat then
    store S.finish
    send (.ack block)
    update fun transfer => { transfer with phase := .writeEnd }
    log (.completed .write transfer.request.filename transfer.peer)
  else
    send (.ack block)
    update fun transfer => { transfer with block := transfer.block + 1 }
  return true

/-- Takes the block that is to come. -/
def take (transfer : Transfer S) (block : UInt16) (payload : Bytes) : Reaction S Bool :=
  if transfer.terms.blockSize.toNat < payload.length then throw (.transfer .oversizedBlock)
  else if payload ≠ [] then do
    store (S.write payload)
    acknowledge transfer block payload
  else acknowledge transfer block payload

theorem handle_data_eq (block : UInt16) (payload : Bytes) :
    handle (S := S) (.data block payload) = (do
      let transfer ← self
      if block ≠ transfer.block then
        if isBehind block transfer.block then resend
        return false
      else take transfer block payload) := rfl

end Write

/-! ## Settling and failing -/

/-- Whether everything is to come to an end. -/
def stopping : Reaction S Bool := return (← get).world.stopping

theorem settle_eq : settle (S := S) = (do
    let transfer ← self
    if transfer.isOver then return
    let stopping ← stopping
    if transfer.heedsStop ∧ stopping then throw (.transfer .serverShutdown)
    catchUp (transfer.config.maxRetries - transfer.retries)
    World.onNetwork (S := S) Network.beginReceive) := rfl

/-- What remains to be done about a failure: the file that was being received is given up. -/
def fall (f : Failure) : Reaction S Unit := do
  update fun t => { t with phase := .failed }
  leave
  throw f

theorem guarded_eq (reaction : Reaction S Unit) : guarded reaction = (do
    tryCatch reaction fall
    if (← self).isOver then leave) := rfl

/-! ## What a turn is made of -/

/-- What a transfer does about what its receive has brought. Says whether the transfer has moved
forward. -/
def heed (reception : Reception) : Reaction S Bool := do
  match (reception.cut Network.maxDatagram).outcome with
  | .error failure => throw failure
  | .ok none => return false
  | .ok (some (sender, bytes)) =>
    if sender ≠ (← self).peer then
      rejectStranger sender
      return false
    else
      match Packet.parse bytes with
      | .error malformed =>
        log (.malformed sender malformed.message)
        return false
      | .ok packet =>
        log (.received packet sender)
        handle packet

/-- Puts the deadline off, and counts the retransmissions anew. -/
def advance : Reaction S Unit := do
  update fun transfer => { transfer with retries := 0 }
  rearm

/-- What a turn begins with: what the transfer does when it begins, or about what its receive has
brought. Says whether the transfer has moved forward. -/
def impulse : Option Reception → Reaction S Bool
  | none => do
    start
    rearm
    return true
  | some reception => do
    let moved ← heed reception
    if moved then advance
    return moved

/-- A turn, but for what becomes of its failure. -/
def turn (reception? : Option Reception) : Reaction S Unit := do
  let _ ← impulse reception?
  settle

theorem begin_eq : begin (S := S) = guarded (turn none) := by
  unfold begin turn impulse
  simp

theorem resume_eq (reception : Reception) :
    resume (S := S) reception = guarded (turn (some reception)) := by
  unfold resume turn impulse heed
  dsimp only
  generalize (reception.cut Network.maxDatagram).outcome = outcome
  congr 1
  cases outcome with
  | error failure => rfl
  | ok datagram? =>
      cases datagram? with
      | none => simp
      | some datagram =>
          obtain ⟨sender, bytes⟩ := datagram
          simp only [receive, bind_assoc]
          congr 1
          funext transfer
          by_cases hs : sender = transfer.peer
          · rw [if_neg (Decidable.not_not.2 hs), if_neg (Decidable.not_not.2 hs)]
            cases Packet.parse bytes with
            | error malformed => simp
            | ok packet =>
                simp only [bind_assoc]
                congr 1
                funext _
                congr 1
                funext moved
                cases moved <;> simp [advance]
          · rw [if_pos hs, if_pos hs]
            simp

end Tftp.Transfer
