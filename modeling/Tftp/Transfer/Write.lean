import Tftp.Transfer

/-!
# Receiving a file

A write transfer stores the blocks it receives, in the order of their numbers, and acknowledges each
when it has been stored; the request itself is acknowledged by an OACK or as block 0. A block
shorter than the block size is the last: it is acknowledged when the file has been finished.

A block that lies behind the expected one was sent again because its acknowledgement got lost, so
the last packet is sent once more. A block ahead of the expected one is ignored. Numbers wrap
around, and a block lies behind if the distance back to it is the shorter one.
-/

namespace Tftp.Transfer.Write

variable {S : Storage}

/-- Performs an operation on the open file. A report for the peer is passed on as it is, and any
other failure means that the file could not be stored. -/
def onWriter (effect : Effect (S.State × S.Writer) Unit) : Reaction S Unit := fun scene =>
  match scene.self.writer with
  | none => .ok () scene
  | some writer =>
    let answer := effect (scene.world.store, writer)
    let scene : Scene S :=
      { self := { scene.self with writer := some answer.state.2 }
        world := { scene.world with
          store := answer.state.1
          trace := answer.events.reverse ++ scene.world.trace } }
    match answer.result with
    | .ok () => .ok () scene
    | .error failure => .error failure scene

/-- A failure to store something, as the transfer passes it on. -/
def storing (failure : Failure) : Failure :=
  match failure with
  | .transfer _ | .peer _ => failure
  | _ => .transfer (.notStored failure.message)

/-- Performs an operation on the open file that stores something. -/
def store (effect : Effect (S.State × S.Writer) Unit) : Reaction S Unit :=
  tryCatch (onWriter effect) fun failure => throw (storing failure)

/-- Whether a block lies behind the expected one. -/
def isBehind (block expected : UInt16) : Bool := 32768 ≤ block - expected

/-- Settles the terms, opens the file and acknowledges the request. -/
def start : Reaction S Unit := do
  settleTerms none
  let transfer ← self
  let writer ← World.onStore
    (S.sink transfer.peer transfer.request.filename transfer.terms.transferSize)
  update fun transfer => { transfer with writer := some writer }
  log (.started .write transfer.request.filename transfer.peer transfer.request.mode)
  if transfer.terms.oackRequired then send (.oack transfer.terms.oack) else send (.ack 0)
  update fun transfer => { transfer with block := 1, phase := .waitingData }

/-- Reacts to a packet of the peer; says whether it moved the transfer forward. -/
def handle : Packet → Reaction S Bool
  | .data block payload => do
    let transfer ← self
    let size := transfer.terms.blockSize.toNat
    if block ≠ transfer.block then
      if isBehind block transfer.block then resend
      return false
    if size < payload.length then throw (.transfer .oversizedBlock)
    if payload ≠ [] then store (S.write payload)
    if payload.length < size then
      store S.finish
      send (.ack block)
      update fun transfer => { transfer with phase := .writeEnd }
      log (.completed .write transfer.request.filename transfer.peer)
    else
      send (.ack block)
      update fun transfer => { transfer with block := transfer.block + 1 }
    return true
  | _ => return false

end Tftp.Transfer.Write
