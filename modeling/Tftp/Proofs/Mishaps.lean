import Tftp.Proofs.Commitment
import Tftp.Proofs.Receiving
import Tftp.Proofs.Sending
import Tftp.Proofs.Shutdown

/-!
# What a client is told about a failure

A transfer fails for three kinds of reasons. It meets with a `Mishap`: its file cannot be opened or
read or stored, there is none, its options are not acceptable, or a block is too long. Its client
itself has given it up. Or it is interrupted: the client does not answer any more, everything is to
come to an end, or the network fails.

Whether a transfer meets with a mishap in a turn, and with which, is decided by the storage, the
options and the packet that has come in. `Transfer.mishap?` says so without running the turn, and
the code of the report depends on that alone: `Mishap.code` if there is a mishap, and the code for
what is not defined otherwise.
-/

namespace Tftp

/-! ## Mishaps and their codes -/

/-- Where a transfer fails of its own accord, and with what. -/
inductive Mishap
  /-- The file could not be opened. -/
  | opening (f : Failure)
  /-- There is nothing to read from, or nothing to write to. -/
  | nothing
  /-- The options of the request are not acceptable. -/
  | options
  /-- The file could not be read on. -/
  | reading (f : Failure)
  /-- The block that was expected is too long. -/
  | oversized
  /-- A block could not be stored, or the file could not be finished. -/
  | storing (f : Failure)
  deriving DecidableEq, Repr

/-- The code that stands for an error number of the system. The rows are `ENOENT` and `ENOTDIR`, then
`EPERM`, `EACCES` and `EROFS`, then `EEXIST`, then `EFBIG`, `ENOSPC` and `EDQUOT`. -/
def Errno.standsFor (e : Errno) : ErrorCode :=
  match e.number with
  | 2 | 20 => .fileNotFound
  | 1 | 13 | 30 => .accessViolation
  | 17 => .fileExists
  | 27 | 28 | 122 => .diskFull
  | _ => .notDefined

/-- The code that a failure brings with it: its own, or the one that stands for its error number if
the system has numbered it. -/
def Failure.ownCode : Failure → ErrorCode
  | transfer r | peer r => r.code
  | system errno .generic _ | system errno .system _ => errno.standsFor
  | fileSystem errno .generic _ _ | fileSystem errno .system _ _ => errno.standsFor
  | _ => .notDefined

namespace Mishap

/-- The code that the client is told. A failure to store something has no say in it, whatever its
error number, unless it is a report already. -/
def code : Mishap → ErrorCode
  | opening f | reading f => f.ownCode
  | nothing => .notDefined
  | options => .invalidOptions
  | oversized => .illegalOperation
  | storing (.transfer r) => r.code
  | storing _ => .diskFull

/-- The code with which a transfer fails, if it does. -/
def codeOf : Option Mishap → ErrorCode
  | some m => m.code
  | none => .notDefined

/-- What comes of storing something. -/
def ofStoring : Except Failure Unit → Option Mishap
  | .error f => some (.storing f)
  | .ok () => none

/-- What a transfer that has met with the mishap fails with: a report with its code. -/
def Becomes (m : Mishap) (f : Failure) : Prop := ∃ r, f = .transfer r ∧ r.code = m.code

end Mishap

theorem Errno.code_eq (e : Errno) : e.code = e.standsFor := by
  obtain ⟨number⟩ := e
  unfold standsFor
  split <;>
    simp_all [code, enoent, enotdir, eacces, eperm, erofs, eexist, enospc, edquot, efbig]

theorem Failure.report_code (f : Failure) : f.report.code = f.ownCode := by
  cases f with
  | system errno category | fileSystem errno category =>
      cases category with
      | stream => rfl
      | _ => exact errno.code_eq
  | _ => rfl

/-- A failure to store something is passed on as a report, unless it is in the name of the peer. -/
theorem Mishap.storing_becomes {f : Failure} (h : ∀ r, f ≠ .peer r) :
    (storing f).Becomes (Transfer.Write.storing f) := by
  cases f with
  | transfer r => exact ⟨r, rfl, rfl⟩
  | peer r => exact absurd rfl (h r)
  | _ => exact ⟨_, rfl, rfl⟩

namespace Storage

variable (S : Storage)

/-- The failure of the reads that fill a block of so many bytes, if one of them fails. They go on
until the block is full or the file ends. -/
def fillFailure? (n : Nat) (file : S.State × S.Reader) : Option Failure :=
  if n = 0 then none
  else
    let answer := S.read n file
    match answer.result with
    | .error f => some f
    | .ok bytes =>
      if bytes.length = 0 then none else fillFailure? (n - bytes.length) answer.state
termination_by n

end Storage

namespace Transfer

variable {S : Storage}

/-- The mishap with which a transfer meets when it reads its next block. -/
def blockMishap? (t : Transfer S) (store : S.State) : Option Mishap :=
  (t.reader.bind fun reader =>
    S.fillFailure? t.terms.blockSize.toNat (store, reader)).map .reading

/-- The mishap with which a transfer meets when it begins to read: its options are looked at when
the file is open, and if there is nothing to agree upon, the first block is read at once. -/
def readStartMishap? (t : Transfer S) (store : S.State) : Option Mishap :=
  let answer := S.openForReading t.peer t.request.filename store
  match answer.result with
  | .error f => some (.opening f)
  | .ok none => some .nothing
  | .ok (some (reader, fileSize)) =>
    match negotiate t.request.options t.config t.direction fileSize with
    | .error _ => some .options
    | .ok terms =>
      if terms.oackRequired then none
      else { t with reader := some reader, terms }.blockMishap? answer.state

/-- The mishap with which a transfer meets when it begins to write: its options are looked at before
the file is opened. -/
def writeStartMishap? (t : Transfer S) (store : S.State) : Option Mishap :=
  match negotiate t.request.options t.config t.direction none with
  | .error _ => some .options
  | .ok terms =>
    match (S.openForWriting t.peer t.request.filename terms.transferSize store).result with
    | .error f => some (.opening f)
    | .ok none => some .nothing
    | .ok (some _) => none

/-- The mishap with which a transfer that reads meets about an acknowledgement: if it is for the
last block that has been sent, the next one is read. -/
def ackMishap? (t : Transfer S) (store : S.State) (block : UInt16) : Option Mishap :=
  if block = t.block ∧ (t.phase = .waitingAfterOack ∨ t.phase = .waitingAck) then
    t.blockMishap? store
  else none

/-- The mishap with which a transfer that writes meets about a block: if it is the expected one, it
is stored, unless it is too long. -/
def dataMishap? (t : Transfer S) (store : S.State) (block : UInt16) (payload : Bytes) :
    Option Mishap :=
  if block ≠ t.block then none
  else if t.terms.blockSize.toNat < payload.length then some .oversized
  else t.writer.bind fun writer => Mishap.ofStoring <|
    (S.keep payload (decide (payload.length < t.terms.blockSize.toNat)) (store, writer)).result

/-- The mishap with which a transfer meets in a turn. -/
def mishap? (t : Transfer S) (store : S.State) : Option Reception → Option Mishap
  | none =>
    match t.direction with
    | .read => t.readStartMishap? store
    | .write => t.writeStartMishap? store
  | some reception =>
    match t.direction, reception.packetFrom t.peer with
    | .read, some (.ack block) => t.ackMishap? store block
    | .write, some (.data block payload) => t.dataMishap? store block payload
    | _, _ => none

/-- What interrupts a transfer in a turn that begins on the network `n`, and with what it fails then:
its client has not answered often enough, everything is to come to an end, its receive has failed, or
the network does not take a datagram or lets it make no other receive. `w` is the view and `n'` the
network when it fails. -/
inductive Interruption (n : Network) (reception? : Option Reception) (w : View S) (n' : Network) :
    Failure → Prop
  | timedOut : w.self.config.maxRetries ≤ w.self.retries → w.self.deadline ≤ w.clock →
      Interruption n reception? w n' (.transfer .timedOut)
  | stopped : w.Stops → Interruption n reception? w n' (.transfer .serverShutdown)
  | refused {network : Network} {packet : Packet} {f : Failure} : n.Used network →
      Network.send packet.encode network = .error f n' → Interruption n reception? w n' f
  | deaf {network : Network} {f : Failure} : n.Used network →
      Network.beginReceive network = .error f n' → Interruption n reception? w n' f
  | receive {reception : Reception} {f : Failure} : reception ∈ reception? →
      (reception.cut Network.maxDatagram).outcome = .error f → Interruption n reception? w n' f

/-- A failure is what becomes of the mishap, if there is one, and an interruption otherwise. -/
def Befalls (n : Network) (reception? : Option Reception) :
    Option Mishap → View S → Network → Failure → Prop
  | some m => fun _ _ => m.Becomes
  | none => Interruption n reception?

section

variable {n n' : Network} {reception? : Option Reception} {w : View S} {m? : Option Mishap}
  {f : Failure}

/-- What has come before is left out of account. -/
theorem Interruption.before {n₀ : Network} (hn : n₀.Used n)
    (h : Interruption n none w n' f) : Interruption n₀ reception? w n' f := by
  cases h with
  | timedOut hr hd => exact .timedOut hr hd
  | stopped hs => exact .stopped hs
  | refused hu hs => exact .refused (hn.trans hu) hs
  | deaf hu hb => exact .deaf (hn.trans hu) hb
  | receive hm => cases hm

theorem Interruption.eq_other_or (h : Interruption n reception? w n' f) :
    f = .transfer .timedOut ∨ f = .transfer .serverShutdown ∨ ∃ message, f = .other message := by
  cases h with
  | timedOut => exact .inl rfl
  | stopped => exact .inr (.inl rfl)
  | refused _ hs => exact .inr (.inr (Network.send_eq_error hs))
  | deaf _ hb => exact .inr (.inr (Network.beginReceive_eq_error hb))
  | @receive reception _ _ h =>
      unfold Reception.outcome at h
      split at h
      · cases h
      · cases h
      · split at h <;> cases h
        exact .inr (.inr ⟨_, rfl⟩)

/-- The code of a failure is that of the mishap, and the client does not know of it. -/
theorem Befalls.code (h : Befalls n reception? m? w n' f) :
    f.isFromPeer = false ∧ f.transferCode = Mishap.codeOf m? := by
  cases m? with
  | some m =>
      obtain ⟨r, rfl, hr⟩ := h
      exact ⟨rfl, hr⟩
  | none =>
      obtain rfl | rfl | ⟨message, rfl⟩ := Interruption.eq_other_or h <;> exact ⟨rfl, rfl⟩

theorem befalls_of_becomes {m : Mishap} (hm : m? = some m) (h : m.Becomes f) :
    Befalls n reception? m? w n' f := by
  subst hm
  exact h

/-- Where nothing has gone wrong in the storage, the network may refuse what is sent. -/
theorem befalls_of_refused (h : m? = none) {packet : Packet}
    (hs : Network.send packet.encode n = .error f n') : Befalls n reception? m? w n' f := by
  subst h
  exact .refused .unused hs

end

/-! ## Turns and their mishaps -/

/-- A reaction succeeds only where there is no mishap, and where there is one, it fails with what
becomes of that. -/
abbrev Meets {α : Type} (n : Network) (m : Reaction S α) (v : View S)
    (reception? : Option Reception) (m? : Option Mishap) : Prop :=
  EnsuresOn n m v (fun _ _ n' => m? = none ∧ n.Used n') fun f w n' =>
    Befalls n reception? m? w n' f

section

variable {n : Network} {v : View S} {reception? : Option Reception}

theorem fill_meets (count : Nat) (chunks : List Bytes) :
    let m? := (v.self.reader.bind fun reader =>
      S.fillFailure? count (v.store, reader)).map Mishap.reading
    Ensures (Read.fill count chunks) v (fun _ _ => m? = none)
      fun f _ => ∃ m, m? = some m ∧ m.Becomes f := by
  induction count, chunks using Read.fill.induct generalizing v with
  | case1 chunks =>
      rw [Read.fill]
      refine .pure ?_
      cases v.self.reader with
      | none => rfl
      | some reader =>
          rw [Option.bind_some, Storage.fillFailure?]
          rfl
  | case2 count chunks hn ih =>
      rw [Read.fill, if_neg hn]
      refine .bind (.readSome_or (fun hr => ?_) fun reader hr => ?_)
      · rw [dif_pos rfl, hr]
        exact .pure rfl
      rw [hr, Option.bind_some, Storage.fillFailure?, if_neg hn]
      dsimp only
      cases hres : (S.read count (v.store, reader)).result with
      | error f => exact ⟨_, rfl, f.report, rfl, f.report_code⟩
      | ok bytes =>
          -- The part of the bytes that is taken is empty just if they are.
          have hlen : (bytes.take count).length = min count bytes.length := List.length_take ..
          dsimp only
          by_cases hb : bytes.length = 0
          · rw [if_pos hb, dif_pos (List.length_eq_zero_iff.1 (by omega))]
            exact .pure rfl
          · have hb' : bytes.take count ≠ [] := fun h =>
              hb (by rw [h] at hlen; simp at hlen; omega)
            rw [if_neg hb, dif_neg hb',
              show count - bytes.length = count - (bytes.take count).length by omega]
            exact ih _ hb'

theorem sendNextBlock_meets :
    Meets n Read.sendNextBlock v reception? (v.self.blockMishap? v.store) := by
  refine .bind (.self (.bind (.offline (.fill _ _) (.mono (fill_meets _ []) ?_ ?_))))
  · intro payload w h
    refine .bind (.update (.bind (.self (.bind (.send (fun _ hs => ?_) fun _ _ hs => ?_)))))
    · exact .update ⟨h, .taken .unused hs⟩
    · exact befalls_of_refused h hs
  · rintro f w ⟨m, hm, hf⟩
    exact befalls_of_becomes hm hf

theorem readStart_meets : Meets n Read.start v reception? (v.self.readStartMishap? v.store) := by
  unfold readStartMishap?
  refine .bind (.self (.bind (.offline (.onStore _) (.onStore ?_))))
  unfold Storage.source
  dsimp only
  cases (S.openForReading v.self.peer v.self.request.filename v.store).result with
  | error f => exact ⟨f.report, rfl, f.report_code⟩
  | ok opened =>
    cases opened with
    | none => exact ⟨_, rfl, rfl⟩
    | some opened =>
      obtain ⟨reader, fileSize⟩ := opened
      refine .bind (.update (.bind (.offline (.settleTerms _) (.settleTerms_or
        (fun terms hn => ?_) fun f hn => ?_))))
      · replace hn : negotiate v.self.request.options v.self.config v.self.direction fileSize =
          .ok terms := hn
        dsimp only
        rw [hn]
        refine .bind (.log (.bind (.self ?_)))
        dsimp only [View.changing]
        split
        · exact .bind (.update (.bind (.send (fun _ hs => .update ⟨rfl, .taken .unused hs⟩)
            fun _ _ => befalls_of_refused rfl)))
        · exact sendNextBlock_meets
      · replace hn : negotiate v.self.request.options v.self.config v.self.direction fileSize =
          .error f := hn
        dsimp only
        rw [hn]
        exact invalidOptions_of_negotiate hn

theorem writeStart_meets : Meets n Write.start v reception? (v.self.writeStartMishap? v.store) := by
  unfold writeStartMishap?
  rw [Write.start_eq]
  refine .bind (.offline (.settleTerms _) (.settleTerms_or (fun terms hn => ?_) fun f hn => ?_))
  · rw [hn]
    refine .bind (.self (.bind (.offline (.onStore _) (.onStore ?_))))
    unfold Storage.sink
    dsimp only [View.changing]
    cases (S.openForWriting v.self.peer v.self.request.filename terms.transferSize
        v.store).result with
    | error f => exact ⟨f.report, rfl, f.report_code⟩
    | ok opened =>
      cases opened with
      | none => exact ⟨_, rfl, rfl⟩
      | some writer =>
        refine .bind (.update (.bind (.log ?_)))
        exact .bind (.send (fun _ hs => .update ⟨rfl, .taken .unused hs⟩)
          fun _ _ => befalls_of_refused rfl)
  · rw [hn]
    exact invalidOptions_of_negotiate hn

theorem readHandle_ack_meets (block : UInt16) :
    Meets n (Read.handle (.ack block)) v reception? (v.self.ackMishap? v.store block) := by
  unfold ackMishap?
  refine .bind (.self ?_)
  by_cases hb : block = v.self.block
  · rw [if_neg (Decidable.not_not.2 hb)]
    cases hp : v.self.phase with
    | waitingAfterOack | waitingAck =>
        dsimp only
        rw [if_pos ⟨hb, by simp⟩]
        exact .bind (.mono sendNextBlock_meets (fun _ _ _ h => .pure h) fun _ _ _ => id)
    | waitingLastAck =>
        dsimp only
        rw [if_neg (by simp)]
        exact .bind (.log (.bind (.update (.pure ⟨rfl, .unused⟩))))
    | _ =>
        dsimp only
        rw [if_neg (by simp)]
        exact .pure ⟨rfl, .unused⟩
  · rw [if_pos hb, if_neg fun h => hb h.1]
    exact .pure ⟨rfl, .unused⟩

/-- Storing fails as a mishap, and otherwise it leaves what the storage makes of the file. -/
theorem Ensures.storing_or (discreet : S.Discreet) (call : Storage.Call)
    {U : Unit → View S → Prop} {E : Failure → View S → Prop}
    (none : v.self.writer = none → U () v)
    (some : ∀ writer, v.self.writer = some writer →
      match (call.effect (v.store, writer)).result with
      | .ok () => U () (v.storing call.effect writer)
      | .error f => ∀ f', (Mishap.storing f).Becomes f' → E f' (v.storing call.effect writer)) :
    Ensures (Write.store call.effect) v U E := by
  refine .tryCatch (.onWriter none fun writer hw => ?_)
  have h := some writer hw
  cases hres : (call.effect (v.store, writer)).result with
  | ok u =>
      rw [hres] at h
      exact h
  | error f =>
      rw [hres] at h
      refine .throw (h _ (Mishap.storing_becomes fun r hf => ?_))
      exact discreet.own call (v.store, writer) r (hf ▸ hres)

/-- What follows when the payload of a block has been stored, or when there was none. -/
theorem acknowledge_meets (discreet : S.Discreet) (t : Transfer S) (block : UInt16)
    (payload : Bytes) :
    Meets n (Write.acknowledge t block payload) v reception?
      (v.self.writer.bind fun writer => Mishap.ofStoring
        ((if decide (payload.length < t.terms.blockSize.toNat) then S.finish else .skip)
          (v.store, writer)).result) := by
  unfold Write.acknowledge
  by_cases hl : payload.length < t.terms.blockSize.toNat
  · rw [if_pos hl]
    simp only [hl, decide_true, if_true]
    have done (w : View S) {m? : Option Mishap} (h : m? = none) :
        Meets n (do
          Transfer.send (.ack block)
          Transfer.update fun t => { t with phase := .writeEnd }
          Transfer.log (.completed .write t.request.filename t.peer)
          return true) w reception? m? :=
      .bind (.send (fun _ hs => .bind (.update (.bind (.log (.pure ⟨h, .taken .unused hs⟩)))))
        fun _ _ => befalls_of_refused h)
    refine .bind (.offline (.store _) (.storing_or discreet .finish (fun hw => done v ?_)
      fun writer hw => ?_))
    · rw [hw]
      rfl
    rw [hw, Option.bind_some]
    cases hres : (S.finish (v.store, writer)).result with
    | ok u =>
        rw [show (Storage.Call.finish.effect (v.store, writer)).result = _ from hres]
        exact done _ rfl
    | error f =>
        rw [show (Storage.Call.finish.effect (v.store, writer)).result = _ from hres]
        exact fun f' h => h
  · rw [if_neg hl]
    have hnone : (v.self.writer.bind fun writer => Mishap.ofStoring
        ((if decide (payload.length < t.terms.blockSize.toNat) then S.finish else .skip)
          (v.store, writer)).result) = none := by
      rw [decide_eq_false hl]
      cases v.self.writer <;> rfl
    rw [hnone]
    exact .bind (.send (fun _ hs => .bind (.update (.pure ⟨rfl, .taken .unused hs⟩)))
      fun _ _ => befalls_of_refused rfl)

theorem writeHandle_data_meets (discreet : S.Discreet) (block : UInt16) (payload : Bytes) :
    Meets n (Write.handle (.data block payload)) v reception?
      (v.self.dataMishap? v.store block payload) := by
  unfold dataMishap?
  rw [Write.handle_data_eq]
  refine .bind (.self ?_)
  by_cases hb : block = v.self.block
  · rw [if_neg (Decidable.not_not.2 hb), if_neg (Decidable.not_not.2 hb)]
    unfold Write.take
    by_cases hlong : v.self.terms.blockSize.toNat < payload.length
    · rw [if_pos hlong, if_pos hlong]
      exact .throw ⟨_, rfl, rfl⟩
    rw [if_neg hlong, if_neg hlong]
    have tail (w : View S) : Meets n _ w reception? _ :=
      acknowledge_meets discreet v.self block payload
    by_cases hp : payload = []
    · rw [if_neg (not_not.2 hp)]
      have hput : S.put payload = .skip := if_neg (not_not.2 hp)
      unfold Storage.keep
      rw [hput]
      exact tail v
    · rw [if_pos hp]
      have hput : S.put payload = S.write payload := if_pos hp
      unfold Storage.keep
      rw [hput]
      refine .bind (.offline (.store _) (.storing_or discreet (.write payload) (fun hw => ?_)
        fun writer hw => ?_))
      · have h := tail v
        rw [hw] at h ⊢
        exact h
      · rw [hw, Option.bind_some]
        unfold Effect.andThen
        cases hres : (S.write payload (v.store, writer)).result with
        | ok u =>
            rw [show ((Storage.Call.write payload).effect (v.store, writer)).result = _ from hres]
            exact tail (v.storing (S.write payload) writer)
        | error f =>
            rw [show ((Storage.Call.write payload).effect (v.store, writer)).result = _ from hres]
            dsimp only
            rw [hres]
            exact fun f' h => h
  · rw [if_pos hb, if_pos hb]
    split
    · refine .bind (.resend (fun _ => .pure ⟨rfl, .unused⟩) (fun packet n' _ hs => ?_) ?_)
      · exact .pure ⟨rfl, .taken .unused hs⟩
      · exact fun packet f n' _ hs => befalls_of_refused rfl hs
    · exact .pure ⟨rfl, .unused⟩

/-! ### Settling -/

theorem catchUp_interrupted (left : Nat) {n : Network} {v : View S}
    (hleft : v.self.config.maxRetries ≤ v.self.retries + left) :
    EnsuresOn n (catchUp left) v (fun _ _ n' => n.Used n')
      fun f w n' => Interruption n none w n' f := by
  induction left generalizing n v with
  | zero =>
      by_cases h : v.clock < v.self.deadline
      · exact .catchUp_early 0 h .unused
      · exact .catchUp_zero (Int.not_lt.1 h) (.timedOut hleft (Int.not_lt.1 h))
  | succ left ih =>
      have hleft : v.again.self.config.maxRetries ≤ v.again.self.retries + left := by
        show v.self.config.maxRetries ≤ v.self.retries + 1 + left
        omega
      by_cases h : v.clock < v.self.deadline
      · exact .catchUp_early _ h .unused
      · refine .catchUp_succ (Int.not_lt.1 h) (fun _ => ih hleft) (fun packet n' _ hs => ?_)
          fun packet f n' _ hs => .refused .unused hs
        have hn : n.Used n' := .taken .unused hs
        exact .mono (ih hleft) (fun _ _ _ => hn.trans) fun _ _ _ => .before hn

/-- While a transfer settles it may be interrupted. -/
theorem settle_interrupted : EnsuresOn n settle v (fun _ _ _ => True)
    fun f w n' => Interruption n none w n' f := by
  cases ho : v.self.isOver with
  | true => exact .settle_over ho trivial
  | false =>
      refine .settle ho .stopped fun _ => ?_
      refine .mono (catchUp_interrupted _ (by omega)) (fun _ w n' hn => ?_) fun _ _ _ => id
      exact ⟨fun _ _ => trivial, fun f n'' hb => .deaf hn hb⟩

/-! ### Turns -/

theorem start_meets : Meets n start v reception? (v.self.mishap? v.store none) := by
  unfold mishap?
  refine .bind (.self ?_)
  cases v.self.direction with
  | read => exact readStart_meets
  | write => exact writeStart_meets

theorem heed_meets (discreet : S.Discreet) {reception : Reception}
    (stays : ¬ reception.GivesUp v.self.peer) :
    Meets n (heed reception) v (some reception) (v.self.mishap? v.store (some reception)) := by
  have quiet (h : reception.packetFrom v.self.peer = none) :
      v.self.mishap? v.store (some reception) = none := by
    unfold mishap?
    dsimp only
    rw [h]
    cases v.self.direction <;> rfl
  refine .heed (fun f hf => ?_) (fun code message hp => ?_)
    (fun hn events n' _ hu => ⟨quiet hn, hu⟩) fun packet hp he => .handle he (fun hd => ?_) fun hd => ?_
  · rw [quiet (Reception.packetFrom_of_failed hf)]
    exact .receive rfl hf
  · exact absurd ⟨code, message, hp⟩ stays
  · unfold mishap?
    dsimp only
    rw [hp, hd]
    cases packet with
    | ack block => exact readHandle_ack_meets block
    | _ => exact .pure ⟨rfl, .unused⟩
  · unfold mishap?
    dsimp only
    rw [hp, hd]
    cases packet with
    | data block payload => exact writeHandle_data_meets discreet block payload
    | _ => exact .pure ⟨rfl, .unused⟩

theorem impulse_meets (discreet : S.Discreet)
    (stays : ¬ ∃ reception ∈ reception?, reception.GivesUp v.self.peer) :
    Meets n (impulse reception?) v reception? (v.self.mishap? v.store reception?) := by
  cases reception? with
  | none =>
      exact .bind (.mono start_meets (fun _ _ _ h => .bind (.rearm (.pure h))) fun _ _ _ => id)
  | some reception =>
      have stays : ¬ reception.GivesUp v.self.peer := fun h => stays ⟨reception, rfl, h⟩
      refine .bind (.mono (heed_meets discreet stays) (fun moved w n' h => ?_) fun _ _ _ => id)
      cases moved with
      | true => exact .bind (.bind (.update (.rearm (.pure h))))
      | false => exact .pure h

/-- **A turn meets with its mishap.** It fails if there is one, with what becomes of that, and
otherwise it is only an interruption that makes it fail. -/
theorem turn_meets (discreet : S.Discreet)
    (stays : ¬ ∃ reception ∈ reception?, reception.GivesUp v.self.peer) :
    EnsuresOn n (turn reception?) v (fun _ _ _ => v.self.mishap? v.store reception? = none)
      fun f w n' => Befalls n reception? (v.self.mishap? v.store reception?) w n' f := by
  refine .bind (.mono (impulse_meets discreet stays) (fun _ w n' h => ?_) fun _ _ _ => id)
  obtain ⟨hm, hn⟩ := h
  rw [hm]
  exact .mono settle_interrupted (fun _ _ _ _ => rfl) fun _ _ _ => .before hn

end

end Transfer

open Transfer

/-! ## Reports -/

namespace Passage

variable {S : Storage} {p : Passage S}

/-- The mishap with which a transfer meets in its turn. -/
def mishap? (p : Passage S) : Option Mishap :=
  p.scene.self.mishap? p.scene.world.store p.reception?

/-- What the turn of a transfer comes to, before its failure is dealt with. -/
theorem meets (discreet : S.Discreet)
    (stays : ¬ ∃ reception ∈ p.reception?, reception.GivesUp p.scene.self.peer) :
    match turn p.reception? p.scene with
    | .ok _ _ => p.mishap? = none
    | .error f s =>
      Befalls p.scene.world.network p.reception? p.mishap? s.view s.world.network f := by
  have h := turn_meets discreet stays p.scene rfl rfl
  cases ht : turn p.reception? p.scene with
  | ok u s =>
      rw [ht] at h
      exact h
  | error f s =>
      rw [ht] at h
      exact h

/-- How a transfer fails in a turn of which the given lines are on record. -/
structure Fails (p : Passage S) (f : Failure) (lines : List Event) : Prop where
  /-- Nothing is left of the transfer. -/
  left : p.left = none
  /-- The code of what has gone wrong is the one of the mishap, and without a mishap the transfer
  has been interrupted. It fails with that, unless the file cannot be given up. -/
  cause : ∃ cause s, turn p.reception? p.scene = .error cause s ∧
    cause.transferCode = Mishap.codeOf p.mishap? ∧
    (p.mishap? = none →
      Interruption p.scene.world.network p.reception? s.view s.world.network cause) ∧
    f = s.view.failing cause
  /-- The client does not know of it. There is nothing on record that it could take for a report,
  and then there is the report. -/
  reported : f.isFromPeer = false ∧ ∃ before report network, lines = before ++ report ∧
    (∀ e ∈ before, ¬ e.IsReportTo p.scene.self.peer) ∧
    Server.Reported p.after.self p.after.world f report network
  /-- Nothing that goes wrong with the report goes any further. -/
  contained : ∃ world, Server.report f p.after.self p.after.world = .ok () world

/-- A transfer does not fail in the name of its peer when the peer has not given it up. -/
theorem isFromPeer_failing (discreet : S.Discreet) {v : View S} {f : Failure}
    (hf : f.isFromPeer = false) : (v.failing f).isFromPeer = false := by
  rcases v.failing_eq_or f with h | ⟨writer, -, ha⟩
  · rw [h]
    exact hf
  · cases hr : v.failing f with
    | peer r => exact absurd (hr ▸ ha) (discreet.own .abort (v.store, writer) r)
    | _ => rfl

/-- **What becomes of a turn.** -/
theorem outcome (discreet : S.Discreet) (hp : p.scene.self.phase ≠ .failed)
    (hr : Replies p.scene.self)
    (stays : ¬ ∃ reception ∈ p.reception?, reception.GivesUp p.scene.self.peer)
    (server : Server S) :
    let lines := p.scene.world.since (server.dealWith p).1.world
    match p.result with
    | .ok () => p.mishap? = none ∧ ∀ e ∈ lines, ¬ e.IsReportTo p.scene.self.peer
    | .error f => p.Fails f lines := by
  intro lines
  have hmeets := p.meets discreet stays
  obtain ⟨hputs, -, hend⟩ := turn_ends discreet p.reception? hp hr
  obtain ⟨events, htrace, hall⟩ := hputs.trace
  have htrace : p.after.world.trace = events ++ p.scene.world.trace := htrace
  have hquiet : ∀ e ∈ events.reverse, ¬ e.IsReportTo p.scene.self.peer :=
    fun e he => (hall e (List.mem_reverse.1 he)).not_report discreet
  have hend : Ended (p.scene.resultOf (turn p.reception?)) p.result p.after := hend
  -- The record is what the turn itself has put there and the report that follows a failure.
  cases ht : turn p.reception? p.scene with
  | ok u s =>
      rw [ht] at hmeets
      rw [(Scene.after_of_ok ht).1] at hend
      cases hres : p.result with
      | ok u =>
          refine ⟨hmeets, ?_⟩
          rw [show lines = _ from
            World.since_of_trace ((server.dealWith_trace_of_ok hres).trans htrace)]
          exact hquiet
      | error f =>
          rw [hres] at hend
          cases hend
  | error cause s =>
      rw [ht] at hmeets
      obtain ⟨s', hf, -⟩ := fall_eq_error cause s
      have hres : p.result = .error (s.view.failing cause) :=
        (Scene.after_of_error ((guarded_of_error ht).trans hf)).1
      obtain ⟨report, network, hreport, -, htold⟩ := server.dealWith_trace_of_error hres
      rw [hres]
      obtain ⟨hknown, hcode⟩ := hmeets.code
      have hdeal : (server.dealWith p).1.world.trace =
          (report.reverse ++ events) ++ p.scene.world.trace := by
        rw [htold, htrace, List.append_assoc]
      have hlines : lines = events.reverse ++ report := by
        rw [show lines = _ from World.since_of_trace hdeal, List.reverse_append,
          List.reverse_reverse]
      obtain ⟨_, _, -, hcontained⟩ :=
        Server.report_reported (s.view.failing cause) p.after.self p.after.world
      refine ⟨left_of_error hres, ⟨cause, s, ht, hcode, fun hn => ?_, rfl⟩,
        ⟨isFromPeer_failing discreet hknown, _, report, network, hlines, hquiet, hreport⟩,
        _, hcontained⟩
      rwa [hn] at hmeets

end Passage

namespace Server

variable {S : Storage}

/-- A transfer turn by turn: what it would send again is a reply, and it has not failed before. -/
structure Replying (turns : List (Passage S × List Event)) (left : Option (Transfer S)) : Prop where
  waits : ∀ t ∈ left, t.phase ≠ .failed ∧ Replies t
  each : ∀ q ∈ turns, Replies q.1.scene.self

theorem replying_left (discreet : S.Discreet) {p : Passage S} (hp : p.scene.self.phase ≠ .failed)
    (hr : Replies p.scene.self) : ∀ t ∈ p.left, t.phase ≠ .failed ∧ Replies t := by
  intro t ht
  obtain ⟨rfl, ho⟩ := Passage.eq_of_left ht
  obtain ⟨hputs, -⟩ := turn_ends discreet p.reception? hp hr
  exact ⟨phase_ne_of_live ho rfl, hputs.replies⟩

theorem Course.replying (discreet : S.Discreet) {start a : Affairs S} {deeds : List (Deed S)}
    (run : Course start deeds a) (hc : start.Consistent) (ht : start.server.tasks = []) :
    Lives Replying deeds a.server := by
  refine run.lives hc ht (fun server assignment socket world _ => ?_)
    fun server task reception turns h => ?_
  · let p := server.firstPassage assignment socket world
    have hr : Replies p.scene.self := nofun
    refine ⟨replying_left discreet (p := p) Phase.noConfusion hr, fun q hq => ?_⟩
    rw [List.mem_singleton.1 hq]
    exact hr
  · obtain ⟨hp, hr⟩ := h.waits task.transfer rfl
    let p := server.nextPassage task reception
    refine ⟨replying_left discreet (p := p) hp hr, fun q hq => ?_⟩
    rcases List.mem_append.1 hq with hq | hq
    · exact h.each q hq
    · rw [List.mem_singleton.1 hq]
      exact hr

/-- **What a client is told depends only on where and what has failed.** Take a turn of a transfer
in whatever a server does, in which its client does not give it up. If the transfer meets with a
mishap, it fails, and its report has the code of the mishap. If it fails otherwise, it has been
interrupted, and the code is the one for what is not defined. Only a failure to give the file up
takes the place of either. The report is the only one, it is the last thing that is on record about
the transfer, and nothing that goes wrong with it goes any further. A transfer that does not fail
reports nothing. -/
theorem reports_mishaps (discreet : S.Discreet) {setting : Setting S} {first : Server S}
    (made : make setting = .ok first) {deeds : List (Deed S)} {a : Affairs S}
    (run : Course { server := first } deeds a) {p : Passage S} {lines : List Event}
    (taken : Deed.turns p lines ∈ deeds)
    (stays : ¬ ∃ reception ∈ p.reception?, reception.GivesUp p.scene.self.peer) :
    match p.result with
    | .ok () => p.mishap? = none ∧ ∀ e ∈ lines, ¬ e.IsReportTo p.scene.self.peer
    | .error f => p.Fails f lines := by
  have hc := make_consistent made
  obtain ⟨-, ht⟩ := make_empty made
  have hmem : (p, lines) ∈ turnsOf p.number deeds := mem_turnsOf.2 ⟨taken, rfl⟩
  obtain ⟨_, heeds⟩ := (run.heeds hc ht).exists_left (List.ne_nil_of_mem hmem)
  obtain ⟨_, replying⟩ := (run.replying discreet hc ht).exists_left (List.ne_nil_of_mem hmem)
  obtain ⟨-, hphase, server, hlines⟩ := heeds.each _ hmem
  rw [show lines = _ from hlines]
  exact Passage.outcome discreet hphase (replying.each _ hmem) stays server

/-- Nothing can be opened here: the file system is read-only. -/
def sealed : Scripted := { openFailure := some (.system ⟨30⟩ .system none) }

/-- Nothing can be written here: the permission for it is missing. -/
def unwritable : Scripted := { failWrite := some 0, failure := .system ⟨13⟩ .generic none }

/-- A server on which nothing can be stored. -/
def readOnly (script : Scripted) : Server script.storage where
  socket := ⟨⟨⟨10, 0, 0, 2⟩, 69⟩⟩
  address := ⟨⟨10, 0, 0, 2⟩, 69⟩
  config := {}
  world :=
    { store := (), network := { opened := 1 }
      trace := [.logged (.starting ⟨⟨10, 0, 0, 2⟩, 69⟩)] }

/-- Where the file cannot be opened, the client learns that it has no access. Where it cannot be
written, the client learns that the disk is full, and nothing about the permission. -/
theorem reports_mishaps_readOnly :
    (∃ deeds a p lines f, Course { server := readOnly sealed } deeds a ∧
      Deed.turns p lines ∈ deeds ∧ p.mishap? = some (.opening (.system ⟨30⟩ .system none)) ∧
      p.result = .error f ∧ f.transferCode = .accessViolation ∧ p.Fails f lines) ∧
    ∃ deeds a p lines f, Course { server := readOnly unwritable } deeds a ∧
      Deed.turns p lines ∈ deeds ∧ p.mishap? = some (.storing (.system ⟨13⟩ .generic none)) ∧
      p.result = .error f ∧ f.transferCode = .diskFull ∧ p.Fails f lines := by
  let client : Address := ⟨⟨10, 0, 0, 1⟩, 5000⟩
  let request := Packet.request .write ⟨ascii "up", .octet, {}⟩
  constructor
  · let start : Affairs sealed.storage := { server := readOnly sealed }
    let moves : List Move := [.hear client request.encode, .begin]
    have made : make { address := ⟨⟨10, 0, 0, 2⟩, 69⟩, store := some () } = .ok start.server := rfl
    have run := start.course_moves moves
    let q := (turnsOf 1 (start.moves moves).1).get ⟨0, by decide +kernel⟩
    have taken : Deed.turns q.1 q.2 ∈ (start.moves moves).1 := (mem_turnsOf.1 (List.get_mem ..)).1
    have stays : ¬ ∃ reception ∈ q.1.reception?, reception.GivesUp q.1.scene.self.peer := by
      rw [show q.1.reception? = none by decide +kernel]
      rintro ⟨reception, hr, -⟩
      cases hr
    have result : q.1.result = .error (.transfer (Failure.report (.system ⟨30⟩ .system none))) := by
      decide +kernel
    have h := reports_mishaps (Scripted.discreet (by simp [sealed])) made run taken stays
    rw [result] at h
    exact ⟨_, _, q.1, q.2, _, run, taken, by decide +kernel, result, rfl, h⟩
  · let packet := Packet.data 1 (ascii "abc")
    let block : Reception := .datagram client packet.encode
    let start : Affairs unwritable.storage := { server := readOnly unwritable }
    let moves : List Move := [.hear client request.encode, .begin, .resume 1 block]
    have made : make { address := ⟨⟨10, 0, 0, 2⟩, 69⟩, store := some () } = .ok start.server := rfl
    have run := start.course_moves moves
    -- The second turn of the transfer is the one in which the block has come.
    let q := (turnsOf 1 (start.moves moves).1).get ⟨1, by decide +kernel⟩
    have taken : Deed.turns q.1 q.2 ∈ (start.moves moves).1 := (mem_turnsOf.1 (List.get_mem ..)).1
    have stays : ¬ ∃ reception ∈ q.1.reception?, reception.GivesUp q.1.scene.self.peer := by
      rintro ⟨reception, hr, code, message, hp⟩
      rw [show q.1.reception? = some block by decide +kernel] at hr
      obtain rfl := Option.some.inj hr
      have hb : block.packetFrom q.1.scene.self.peer = some packet := by decide +kernel
      exact nomatch (Option.some.inj (hb.symm.trans hp) : Packet.data _ _ = .error code message)
    have result : q.1.result = .error (.transfer (.notStored (Errno.message ⟨13⟩))) := by
      decide +kernel
    have h := reports_mishaps (Scripted.discreet (by simp [unwritable])) made run taken stays
    rw [result] at h
    exact ⟨_, _, q.1, q.2, _, run, taken, by decide +kernel, result, rfl, h⟩

end Server

end Tftp
