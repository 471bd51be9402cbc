import Tftp.Transfer

/-!
# Sending a file

A read transfer sends the file in blocks of the agreed size. The last block is the first one that is
shorter, so it is empty if the size of the file is a multiple of the block size. Each block is sent
when the one before it has been acknowledged; the first is sent at once, or when the OACK has been
acknowledged as block 0. Any packet but the ACK of the block that was sent last is ignored.
-/

namespace Tftp.Transfer.Read

variable {S : Storage}

/-- Reads once from the open file, at most so many bytes. -/
def readSome (n : Nat) : Reaction S Bytes := fun scene =>
  match scene.self.reader with
  | none => .ok [] scene
  | some reader =>
    let answer := S.read n (scene.world.store, reader)
    let scene : Scene S :=
      { self := { scene.self with reader := some answer.state.2 }
        world := { scene.world with
          store := answer.state.1
          trace := answer.events.reverse ++ scene.world.trace } }
    match answer.result with
    | .ok bytes => .ok (bytes.take n) scene
    | .error failure => .error (.transfer failure.report) scene

/-- Reads until so many bytes are there or the file ends. `chunks` is what has been read, the latest
first. -/
def fill (n : Nat) (chunks : List Bytes) : Reaction S Bytes := do
  if n = 0 then return chunks.reverse.flatten
  let bytes ← readSome n
  if h : bytes = [] then return chunks.reverse.flatten
  else
    have := List.length_pos_iff.2 h
    fill (n - bytes.length) (bytes :: chunks)
termination_by n
decreasing_by omega

def sendNextBlock : Reaction S Unit := do
  let size := (← self).terms.blockSize.toNat
  let payload ← fill size []
  update fun transfer => { transfer with block := transfer.block + 1 }
  send (.data (← self).block payload)
  let phase := if payload.length < size then Phase.waitingLastAck else .waitingAck
  update fun transfer => { transfer with phase }

/-- Opens the file, settles the terms and sends the first packet. -/
def start : Reaction S Unit := do
  let transfer ← self
  let (reader, fileSize) ← World.onStore (S.source transfer.peer transfer.request.filename)
  update fun transfer => { transfer with reader := some reader }
  settleTerms fileSize
  log (.started .read transfer.request.filename transfer.peer transfer.request.mode)
  let terms := (← self).terms
  if terms.oackRequired then
    update fun transfer => { transfer with block := 0 }
    send (.oack terms.oack)
    update fun transfer => { transfer with phase := .waitingAfterOack }
  else
    sendNextBlock

/-- Reacts to a packet of the peer; says whether it moved the transfer forward. -/
def handle : Packet → Reaction S Bool
  | .ack block => do
    let transfer ← self
    if block ≠ transfer.block then return false
    match transfer.phase with
    | .waitingAfterOack | .waitingAck =>
      sendNextBlock
      return true
    | .waitingLastAck =>
      log (.completed .read transfer.request.filename transfer.peer)
      update fun transfer => { transfer with phase := .readEnd }
      return true
    | _ => return false
  | _ => return false

end Tftp.Transfer.Read
