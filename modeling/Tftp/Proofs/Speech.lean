import Tftp.Proofs.Codes

/-!
# What a transfer says

Everything that a transfer hands over to the network goes to its client, or it tells a stranger that
this is not their transfer. To its client it says things in a certain order: it acknowledges options,
as often as it likes, if it has any to acknowledge, and from then on it sends blocks or acknowledges
them. `Orderly` is the language of what may be said, and `Speaking` the invariant of a transfer
that is in the middle of it.

`Utters m t said Q E` says of a reaction `m` of the transfer `t` which has said so much: it goes on to
say something, and then, as it succeeds or fails, `Q` or `E` holds of the transfer and of all that has
been said. There is one rule for each way to build a reaction, as there is for `Ensures`; but there
the log does not count, and here the lines that announce a packet do.
-/

namespace Tftp

/-! ## Outgoing events -/

/-- An event hands a packet over to the network, or says that this is going to be done. -/
inductive Event.Carries (socket : Socket) (packet : Packet) (a : Address) : Event → Prop
  | announced : Carries socket packet a (.logged (.sending packet a))
  | sent (time : Int) : Carries socket packet a (.sent socket.address a packet.encode time)

/-- What events say to a peer, in their order. Anybody else is only told that this is not their
transfer. -/
inductive Speaks (socket : Socket) (peer : Address) : List Event → List Packet → Prop
  | nil : Speaks socket peer [] []
  | silent {e : Event} {events : List Event} {packets : List Packet} : e.isOutgoing = false →
      Speaks socket peer events packets → Speaks socket peer (e :: events) packets
  | stranger {e : Event} {events : List Event} {packets : List Packet} {a : Address} : a ≠ peer →
      e.Carries socket .turnedAway a → Speaks socket peer events packets →
      Speaks socket peer (e :: events) packets
  | peer {e : Event} {events : List Event} {packet : Packet} {packets : List Packet} :
      e.Carries socket packet peer → Speaks socket peer events packets →
      Speaks socket peer (e :: events) (packet :: packets)

namespace Speaks

variable {socket : Socket} {peer : Address} {a b : List Event} {packets packets' : List Packet}

theorem append (h : Speaks socket peer a packets) (h' : Speaks socket peer b packets') :
    Speaks socket peer (a ++ b) (packets ++ packets') := by
  induction h with
  | nil => exact h'
  | silent he _ ih => exact .silent he ih
  | stranger ha he _ ih => exact .stranger ha he ih
  | peer he _ ih => exact .peer he ih

theorem of_silent (h : ∀ e ∈ a, e.isOutgoing = false) : Speaks socket peer a [] := by
  induction a with
  | nil => exact .nil
  | cons e a ih => exact .silent (h e List.mem_cons_self) (ih fun e he => h e (.tail _ he))

/-- Whatever is outgoing is said to the peer, or turns a stranger away. -/
theorem carries (h : Speaks socket peer a packets) {e : Event} (he : e ∈ a)
    (ho : e.isOutgoing = true) : (∃ packet ∈ packets, e.Carries socket packet peer) ∨
      ∃ stranger, stranger ≠ peer ∧ e.Carries socket .turnedAway stranger := by
  induction h with
  | nil => cases he
  | silent hs _ ih =>
      rcases List.mem_cons.1 he with rfl | he
      · cases hs.symm.trans ho
      · exact ih he
  | stranger ha hc _ ih =>
      rcases List.mem_cons.1 he with rfl | he
      · exact .inr ⟨_, ha, hc⟩
      · exact ih he
  | peer hc _ ih =>
      rcases List.mem_cons.1 he with rfl | he
      · exact .inl ⟨_, List.mem_cons_self, hc⟩
      · rcases ih he with ⟨packet, hp, h⟩ | h
        · exact .inl ⟨packet, .tail _ hp, h⟩
        · exact .inr h

end Speaks

/-! ## What may be said -/

/-- A packet of a transfer in the given direction that carries a block of at most the given size, or
acknowledges one. -/
def Packet.Fits (direction : Direction) (size : UInt16) : Packet → Prop
  | data _ payload => direction = .read ∧ payload.length ≤ size.toNat
  | ack _ => direction = .write
  | _ => False

/-- Options that are acknowledged so many times, and the packets after that. No block is longer than
the size that is acknowledged, or if none is, than the one that goes without saying. -/
structure Discourse (direction : Direction) (requested agreed : Options) (times : Nat)
    (blocks : List Packet) : Prop where
  agrees : times = 0 ↔ agreed = {}
  asked : ∀ name, agreed.value? name ≠ none → requested.value? name ≠ none
  fits : ∀ packet ∈ blocks,
    packet.Fits direction (agreed.blockSize.getD Terms.defaultBlockSize)

/-- What a transfer in the given direction may say to a client who has asked for the given
options. -/
def Orderly (direction : Direction) (requested : Options) (said : List Packet) : Prop :=
  ∃ agreed times blocks, said = List.replicate times (.oack agreed) ++ blocks ∧
    Discourse direction requested agreed times blocks

/-- Only what has been asked for is acknowledged, and an OACK is not empty. The size of a block is
the one that is acknowledged, if one is. -/
structure Terms.Follows (terms : Terms) (requested : Options) : Prop where
  nonempty : terms.oackRequired = true → terms.oack ≠ {}
  asked : ∀ name, terms.oack.value? name ≠ none → requested.value? name ≠ none
  size : terms.blockSize = terms.oack.blockSize.getD defaultBlockSize
  unsized : terms.oackRequired = false → terms.oack.blockSize = none

namespace Terms.Follows

variable {terms terms' : Terms} {requested : Options} {config : Config}

theorem withBlockSize (h : terms.Follows requested)
    (ht : terms.withBlockSize config requested = .ok terms') : terms'.Follows requested := by
  unfold Terms.withBlockSize at ht
  split at ht
  next size hs _ =>
    split at ht
    · cases ht
    · cases ht
      refine ⟨fun _ he => Option.some_ne_none _ (congrArg Options.blockSize he),
        fun name hn => ?_, rfl, Bool.noConfusion⟩
      cases name with
      | blockSize => simp [Options.value?, hs]
      | timeout => exact h.asked .timeout hn
      | transferSize => exact h.asked .transferSize hn
  next =>
    cases ht
    exact h

theorem withTimeout (h : terms.Follows requested)
    (ht : terms.withTimeout config requested = .ok terms') : terms'.Follows requested := by
  unfold Terms.withTimeout at ht
  split at ht
  next seconds hs _ =>
    split at ht
    · cases ht
    · cases ht
      refine ⟨fun _ he => Option.some_ne_none _ (congrArg Options.timeout he),
        fun name hn => ?_, h.size, Bool.noConfusion⟩
      cases name with
      | blockSize => exact h.asked .blockSize hn
      | timeout => simp [Options.value?, hs]
      | transferSize => exact h.asked .transferSize hn
  next =>
    cases ht
    exact h

theorem withTransferSize (h : terms.Follows requested) (direction : Direction)
    (fileSize : Option UInt64) :
    (terms.withTransferSize direction fileSize requested).Follows requested := by
  have asked {declared : UInt64} (size : UInt64) (hd : requested.transferSize = some declared)
      (name : OptionName)
      (hn : ({ terms.oack with transferSize := some size } : Options).value? name ≠ none) :
      requested.value? name ≠ none := by
    cases name with
    | blockSize => exact h.asked .blockSize hn
    | timeout => exact h.asked .timeout hn
    | transferSize => simp [Options.value?, hd]
  have stated {size : UInt64} : { terms.oack with transferSize := some size } ≠ ({} : Options) :=
    fun he => Option.some_ne_none _ (congrArg Options.transferSize he)
  unfold Terms.withTransferSize
  split
  next hd =>
    split
    · exact ⟨fun _ => stated, asked _ hd, h.size, Bool.noConfusion⟩
    · exact h
  next hd =>
    exact ⟨fun _ => stated, asked _ hd, h.size, h.unsized⟩
  next => exact h

end Terms.Follows

theorem negotiate_follows {requested : Options} {config : Config} {direction : Direction}
    {fileSize : Option UInt64} {terms : Terms}
    (h : negotiate requested config direction fileSize = .ok terms) : terms.Follows requested := by
  have start : (Terms.unnegotiated config).Follows requested :=
    ⟨nofun, fun name hn => absurd (Options.value?_empty name) hn, rfl, fun _ => rfl⟩
  unfold negotiate at h
  simp only [bind, Except.bind] at h
  split at h
  · cases h
  next sized hs =>
    split at h
    · cases h
    next timed ht =>
      cases h
      exact ((start.withBlockSize hs).withTimeout ht).withTransferSize direction fileSize

namespace Transfer

variable {S : Storage}

/-! ## What a reaction utters -/

/-- From one scene to another, what has been said to the peer is added. -/
def Adds (s s' : Scene S) (said said' : List Packet) : Prop :=
  s'.self.socket = s.self.socket ∧ s'.self.peer = s.self.peer ∧ ∃ events packets,
    s'.world.trace = events.reverse ++ s.world.trace ∧
    Speaks s.self.socket s.self.peer events packets ∧ said' = said ++ packets

theorem Adds.refl (s : Scene S) (said : List Packet) : Adds s s said said :=
  ⟨rfl, rfl, [], [], rfl, .nil, (List.append_nil said).symm⟩

theorem Adds.trans {s s' s'' : Scene S} {said said' said'' : List Packet}
    (h : Adds s s' said said') (h' : Adds s' s'' said' said'') : Adds s s'' said said'' := by
  obtain ⟨hs, hp, events, packets, ht, hsp, rfl⟩ := h
  obtain ⟨hs', hp', events', packets', ht', hsp', rfl⟩ := h'
  rw [hs, hp] at hsp'
  refine ⟨hs'.trans hs, hp'.trans hp, events ++ events', packets ++ packets', ?_,
    hsp.append hsp', List.append_assoc ..⟩
  rw [ht', ht, List.reverse_append, List.append_assoc]

/-- What a reaction of a transfer says, and what holds of the transfer and of all that has been said
then. -/
def Utters {α : Type} (m : Reaction S α) (t : Transfer S) (said : List Packet)
    (Q : α → Transfer S → List Packet → Prop) (E : Failure → Transfer S → List Packet → Prop) :
    Prop :=
  ∀ s : Scene S, s.self = t →
    match m s with
    | .ok a s' => ∃ said', Adds s s' said said' ∧ Q a s'.self said'
    | .error f s' => ∃ said', Adds s s' said said' ∧ E f s'.self said'

namespace Utters

variable {α β : Type} {t : Transfer S} {said : List Packet}
  {Q : α → Transfer S → List Packet → Prop} {R : β → Transfer S → List Packet → Prop}
  {U : Unit → Transfer S → List Packet → Prop} {E F : Failure → Transfer S → List Packet → Prop}

/-! ### Rules for building reactions -/

theorem pure {a : α} (h : Q a t said) : Utters (Pure.pure a : Reaction S α) t said Q E := by
  rintro s rfl
  exact ⟨said, .refl s said, h⟩

theorem throw {f : Failure} (h : E f t said) :
    Utters (MonadExcept.throw f : Reaction S α) t said Q E := by
  rintro s rfl
  exact ⟨said, .refl s said, h⟩

theorem bind {m : Reaction S α} {f : α → Reaction S β}
    (h : Utters m t said (fun a t' said' => Utters (f a) t' said' R E) E) :
    Utters (m >>= f) t said R E := by
  rintro s rfl
  have hm := h s rfl
  cases hr : m s with
  | ok a s' =>
      rw [hr] at hm
      obtain ⟨said', hadds, hf⟩ := hm
      rw [bind_of_ok hr]
      have hf := hf s' rfl
      cases hr' : f a s' with
      | ok b s'' =>
          rw [hr'] at hf
          obtain ⟨said'', hadds', hR⟩ := hf
          exact ⟨said'', hadds.trans hadds', hR⟩
      | error e s'' =>
          rw [hr'] at hf
          obtain ⟨said'', hadds', hE⟩ := hf
          exact ⟨said'', hadds.trans hadds', hE⟩
  | error e s' =>
      rw [hr] at hm
      rwa [bind_of_error hr]

theorem tryCatch {m : Reaction S α} {handler : Failure → Reaction S α}
    (h : Utters m t said Q (fun f t' said' => Utters (handler f) t' said' Q E)) :
    Utters (MonadExcept.tryCatch m handler) t said Q E := by
  rintro s rfl
  have hm := h s rfl
  cases hr : m s with
  | ok a s' =>
      rw [hr] at hm
      rwa [tryCatch_of_ok hr]
  | error e s' =>
      rw [hr] at hm
      obtain ⟨said', hadds, hh⟩ := hm
      rw [tryCatch_of_error hr]
      have hh := hh s' rfl
      cases hr' : handler e s' with
      | ok a s'' =>
          rw [hr'] at hh
          obtain ⟨said'', hadds', hQ⟩ := hh
          exact ⟨said'', hadds.trans hadds', hQ⟩
      | error f s'' =>
          rw [hr'] at hh
          obtain ⟨said'', hadds', hE⟩ := hh
          exact ⟨said'', hadds.trans hadds', hE⟩

theorem mono {m : Reaction S α} {Q' : α → Transfer S → List Packet → Prop}
    (h : Utters m t said Q E) (ok : ∀ a t' said', Q a t' said' → Q' a t' said')
    (fails : ∀ f t' said', E f t' said' → F f t' said') : Utters m t said Q' F := by
  rintro s rfl
  have hm := h s rfl
  cases hr : m s with
  | ok a s' =>
      rw [hr] at hm
      obtain ⟨said', hadds, hQ⟩ := hm
      exact ⟨said', hadds, ok _ _ _ hQ⟩
  | error f s' =>
      rw [hr] at hm
      obtain ⟨said', hadds, hE⟩ := hm
      exact ⟨said', hadds, fails _ _ _ hE⟩

theorem self {R : Transfer S → Transfer S → List Packet → Prop} (h : R t t said) :
    Utters Transfer.self t said R E := by
  rintro s rfl
  exact ⟨said, .refl s said, h⟩

theorem now {R : Int → Transfer S → List Packet → Prop} (h : ∀ time, R time t said) :
    Utters Transfer.now t said R E := by
  rintro s rfl
  exact ⟨said, .refl s said, h _⟩

theorem get {R : Scene S → Transfer S → List Packet → Prop} (h : ∀ s, R s t said) :
    Utters (MonadState.get : Reaction S (Scene S)) t said R E := by
  rintro s rfl
  exact ⟨said, .refl s said, h s⟩

theorem update {f : Transfer S → Transfer S} (h : U () (f t) said)
    (hs : (f t).socket = t.socket) (hp : (f t).peer = t.peer) :
    Utters (Transfer.update f) t said U E := by
  rintro s rfl
  exact ⟨said, ⟨hs, hp, [], [], rfl, .nil, (List.append_nil said).symm⟩, h⟩

/-! ### The log and the network -/

/-- What is put on record without being outgoing. -/
theorem adds_silent {s s' : Scene S} (events : List Event)
    (ht : s'.world.trace = events.reverse ++ s.world.trace)
    (he : ∀ e ∈ events, e.isOutgoing = false) (said : List Packet)
    (hs : s'.self.socket = s.self.socket) (hp : s'.self.peer = s.self.peer) :
    Adds s s' said said :=
  ⟨hs, hp, events, [], ht, .of_silent he, (List.append_nil said).symm⟩

theorem log {notice : Notice} (hn : announces notice = false) (h : U () t said) :
    Utters (Transfer.log notice) t said U E := by
  rintro s rfl
  rw [log_eq]
  dsimp only
  split
  · refine ⟨said, adds_silent [.logged notice] rfl ?_ said rfl rfl, h⟩
    intro e he
    rw [List.mem_singleton.1 he]
    cases notice <;> first | rfl | cases hn
  · exact ⟨said, .refl s said, h⟩

/-- A line that announces a packet is only printed when the log is verbose. -/
theorem log_sending {packet : Packet} {a : Address} {packets : List Packet}
    (hc : ∀ e : Event, e.Carries t.socket packet a → Speaks t.socket t.peer [e] packets)
    (quiet : U () t said) (printed : U () t (said ++ packets)) :
    Utters (Transfer.log (.sending packet a)) t said U E := by
  rintro s rfl
  rw [log_eq]
  dsimp only
  split
  · exact ⟨_, ⟨rfl, rfl, _, _, rfl, hc _ .announced, rfl⟩, printed⟩
  · exact ⟨said, .refl s said, quiet⟩

theorem worldSend {packet : Packet} {a : Address} {packets : List Packet}
    (hc : ∀ e : Event, e.Carries t.socket packet a → Speaks t.socket t.peer [e] packets)
    (ok : U () t (said ++ packets)) (fails : ∀ message, E (.other message) t said) :
    Utters (liftM (World.send (S := S) t.socket a packet.encode) : Reaction S Unit) t said U E := by
  rintro s rfl
  rw [liftM_eq, World.send_eq]
  cases hr : Network.send packet.encode s.world.network with
  | ok _ network => exact ⟨_, ⟨rfl, rfl, _, _, rfl, hc _ (.sent _), rfl⟩, ok⟩
  | error f network =>
      obtain ⟨message, rfl⟩ := Network.send_eq_error hr
      exact ⟨said, adds_silent [] rfl (List.forall_mem_nil _) said rfl rfl, fails message⟩

theorem transmit {packet : Packet} (ok : ∀ n, U () t (said ++ List.replicate (n + 1) packet))
    (fails : ∀ n message, E (.other message) t (said ++ List.replicate n packet)) :
    Utters (Transfer.transmit packet) t said U E := by
  have hc (e : Event) (he : e.Carries t.socket packet t.peer) :
      Speaks t.socket t.peer [e] [packet] := .peer he .nil
  refine bind (self (bind (log_sending hc (worldSend hc (ok 0) fun message => ?_)
    (worldSend hc ?_ (fails 1)))))
  · simpa using fails 0 message
  · simpa using ok 1

theorem send {packet : Packet}
    (ok : ∀ n, U () { t with lastPacket := some packet } (said ++ List.replicate (n + 1) packet))
    (fails : ∀ n message, E (.other message) t (said ++ List.replicate n packet)) :
    Utters (Transfer.send packet) t said U E :=
  bind (transmit (fun n => update (ok n) rfl rfl) fails)

theorem onNetwork {operation : NetworkM α} (ok : ∀ a, Q a t said)
    (fails : ∀ f network network', operation network = .error f network' → E f t said) :
    Utters (liftM (World.onNetwork (S := S) operation) : Reaction S α) t said Q E := by
  rintro s rfl
  rw [liftM_eq, World.onNetwork]
  cases hr : operation s.world.network with
  | ok a network => exact ⟨said, adds_silent [] rfl (List.forall_mem_nil _) said rfl rfl, ok a⟩
  | error f network =>
      exact ⟨said, adds_silent [] rfl (List.forall_mem_nil _) said rfl rfl, fails f _ _ hr⟩

theorem rearm (h : ∀ deadline, U () { t with deadline } said) :
    Utters Transfer.rearm t said U E :=
  bind (now fun _ => update (h _) rfl rfl)

theorem settleTerms {fileSize : Option UInt64}
    (ok : ∀ terms, terms.Follows t.request.options → U () { t with terms } said)
    (fails : ∀ r : Report, r.code.value ≤ 8 → E (.transfer r) t said) :
    Utters (Transfer.settleTerms fileSize) t said U E := by
  refine bind (self ?_)
  cases hn : negotiate t.request.options t.config t.direction fileSize with
  | error f =>
      obtain ⟨r, rfl, hr⟩ := negotiate_code hn
      exact throw (fails r hr)
  | ok terms => exact bind (log rfl (update (ok terms (negotiate_follows hn)) rfl rfl))

/-! ### The storage -/

section

variable (coded : S.Coded)

include coded

theorem onStore {σ : Type} {effect : Effect S.State σ} {Q : σ → Transfer S → List Packet → Prop}
    (hr : ∀ store, S.Reports (effect store).events) (ok : ∀ a, Q a t said)
    (fails : ∀ store f, (effect store).result = .error f → E f t said) :
    Utters (liftM (World.onStore (S := S) effect) : Reaction S σ) t said Q E := by
  rintro s rfl
  have hadds := coded.silent (hr s.world.store)
  rw [liftM_eq, World.onStore]
  cases he : (effect s.world.store).result with
  | ok a => exact ⟨said, adds_silent _ rfl hadds said rfl rfl, ok a⟩
  | error f => exact ⟨said, adds_silent _ rfl hadds said rfl rfl, fails _ f he⟩

theorem source {peer : Address} {filename : Bytes}
    {Q : S.Reader × Option UInt64 → Transfer S → List Packet → Prop} (ok : ∀ a, Q a t said)
    (fails : ∀ f : Failure, f.Coded → E f t said) :
    Utters (liftM (World.onStore (S.source peer filename)) : Reaction S _) t said Q E := by
  refine onStore coded (fun store => .openForReading peer filename store) ok fun store f hf => ?_
  unfold Storage.source at hf
  dsimp only at hf
  split at hf <;> cases hf
  · exact fails _ (Failure.coded_transfer (show ErrorCode.notDefined.value ≤ 8 by decide))
  next hr => exact fails _ (coded.reading hr).report

theorem sink {peer : Address} {filename : Bytes} {declared : Option UInt64}
    {Q : S.Writer → Transfer S → List Packet → Prop} (ok : ∀ a, Q a t said)
    (fails : ∀ f : Failure, f.Coded → E f t said) :
    Utters (liftM (World.onStore (S.sink peer filename declared)) : Reaction S _) t said Q E := by
  refine onStore coded (fun store => .openForWriting peer filename declared store) ok
    fun store f hf => ?_
  unfold Storage.sink at hf
  dsimp only at hf
  split at hf <;> cases hf
  · exact fails _ (Failure.coded_transfer (show ErrorCode.notDefined.value ≤ 8 by decide))
  next hr => exact fails _ (coded.writing hr).report

theorem readSome {n : Nat} {Q : Bytes → Transfer S → List Packet → Prop}
    (ok : ∀ bytes reader, bytes.length ≤ n → Q bytes { t with reader } said)
    (fails : ∀ f reader, f.Coded → E f { t with reader } said) :
    Utters (Read.readSome n) t said Q E := by
  rintro s rfl
  unfold Read.readSome
  cases hr : s.self.reader with
  | none =>
      have h := ok [] s.self.reader (Nat.zero_le n)
      exact ⟨said, .refl s said, h⟩
  | some reader =>
      have hadds := coded.silent (.read n (s.world.store, reader))
      dsimp only
      cases he : (S.read n (s.world.store, reader)).result with
      | ok bytes =>
          exact ⟨said, adds_silent _ rfl hadds said rfl rfl, ok _ _ (List.length_take_le ..)⟩
      | error f =>
          exact ⟨said, adds_silent _ rfl hadds said rfl rfl, fails _ _ (coded.read he).report⟩

theorem fill {n : Nat} {chunks : List Bytes} {Q : Bytes → Transfer S → List Packet → Prop}
    (ok : ∀ bytes reader, bytes.length ≤ chunks.flatten.length + n → Q bytes { t with reader } said)
    (fails : ∀ f reader, f.Coded → E f { t with reader } said) :
    Utters (Read.fill n chunks) t said Q E := by
  induction n, chunks using Read.fill.induct generalizing t with
  | case1 chunks =>
      rw [Read.fill]
      exact pure (ok _ t.reader (by simp))
  | case2 n chunks hn ih =>
      rw [Read.fill, if_neg hn]
      refine bind (readSome coded (fun bytes reader hle => ?_) fails)
      split
      next => exact pure (ok _ reader (by simp))
      next hb =>
        refine ih bytes hb (t := { t with reader }) (fun bytes' reader' hle' => ok _ _ ?_)
          fun f reader' hf => fails f reader' hf
        simp only [List.flatten_cons, List.length_append] at hle'
        omega

theorem onCall (call : Storage.Call) (ok : ∀ writer, U () { t with writer } said)
    (fails : ∀ f writer, f.Coded → E f { t with writer } said) :
    Utters (Write.onWriter (S := S) call.effect) t said U E := by
  rintro s rfl
  unfold Write.onWriter
  cases hw : s.self.writer with
  | none => exact ⟨said, .refl s said, ok s.self.writer⟩
  | some writer =>
      have hadds := coded.silent (.call call (s.world.store, writer))
      dsimp only
      cases he : (call.effect (s.world.store, writer)).result with
      | ok _ => exact ⟨said, adds_silent _ rfl hadds said rfl rfl, ok _⟩
      | error f => exact ⟨said, adds_silent _ rfl hadds said rfl rfl, fails _ _ (coded.call he)⟩

theorem store (call : Storage.Call) (ok : ∀ writer, U () { t with writer } said)
    (fails : ∀ f writer, f.Coded → E f { t with writer } said) :
    Utters (Write.store (S := S) call.effect) t said U E := by
  refine tryCatch (onCall coded call ok fun f writer hf => throw (fails _ writer ?_))
  unfold Write.storing
  split
  · exact hf
  · exact hf
  · exact Failure.coded_transfer (show ErrorCode.diskFull.value ≤ 8 by decide)

end

/-! ### Strangers -/

theorem rejectStranger {sender : Address} (hs : sender ≠ t.peer) (ok : U () t said) :
    Utters (Transfer.rejectStranger sender) t said U E := by
  have hc (e : Event) (he : e.Carries t.socket .turnedAway sender) :
      Speaks t.socket t.peer [e] [] := .stranger hs he .nil
  have rest : Utters (do
      let t ← Transfer.self
      MonadExcept.tryCatch
        (liftM (World.send (S := S) t.socket sender Packet.turnedAway.encode) : Reaction S Unit)
        fun failure => Transfer.log (.reportNotSent sender failure.message)) t said U E := by
    refine bind (self (tryCatch (worldSend hc (by simpa using ok) fun message => ?_)))
    exact log rfl ok
  refine bind (log_sending hc rest ?_)
  rw [List.append_nil]
  exact rest

end Utters

/-! ## Speaking in order -/

/-- A transfer that has said so much and may go on: what it would say again is what it has said last. -/
def Speaking (direction : Direction) (requested : Options) (t : Transfer S) (said : List Packet) :
    Prop :=
  t.direction = direction ∧ ∃ agreed times blocks,
    said = List.replicate times (.oack agreed) ++ blocks ∧
    Discourse direction requested agreed times blocks ∧
    t.terms.blockSize = agreed.blockSize.getD Terms.defaultBlockSize ∧
    ∀ packet, t.lastPacket = some packet →
      packet ∈ blocks ∨ blocks = [] ∧ times ≠ 0 ∧ packet = .oack agreed

/-- A transfer that has failed has said what it may, and it has a code to be reported with. -/
def Broken (direction : Direction) (requested : Options) (f : Failure) (_ : Transfer S)
    (said : List Packet) : Prop := f.Coded ∧ Orderly direction requested said

namespace Speaking

variable {direction : Direction} {requested : Options} {t : Transfer S} {said : List Packet}

theorem orderly (h : Speaking direction requested t said) : Orderly direction requested said := by
  obtain ⟨-, agreed, times, blocks, hs, hd, -⟩ := h
  exact ⟨agreed, times, blocks, hs, hd⟩

theorem broken (h : Speaking direction requested t said) {f : Failure} (hf : f.Coded)
    (t' : Transfer S) : Broken direction requested f t' said := ⟨hf, h.orderly⟩

/-- The last packet is sent again. -/
theorem again (h : Speaking direction requested t said) {packet : Packet}
    (hl : t.lastPacket = some packet) (n : Nat) :
    Speaking direction requested t (said ++ List.replicate n packet) := by
  obtain ⟨hdir, agreed, times, blocks, rfl, hd, hsize, hlast⟩ := h
  rcases hlast packet hl with hm | ⟨rfl, ht, rfl⟩
  · refine ⟨hdir, agreed, times, blocks ++ List.replicate n packet, List.append_assoc ..,
      { hd with fits := fun p hp => ?_ }, hsize, fun p hp => ?_⟩
    · rcases List.mem_append.1 hp with hp | hp
      · exact hd.fits p hp
      · rw [List.eq_of_mem_replicate hp]
        exact hd.fits packet hm
    · rcases hlast p hp with hm | ⟨rfl, -⟩
      · exact .inl (List.mem_append_left _ hm)
      · cases hm
  · refine ⟨hdir, agreed, times + n, [], by simp, { hd with agrees := ?_ }, hsize, fun p hp => ?_⟩
    · have := hd.agrees
      constructor
      · omega
      · exact fun he => absurd (this.2 he) ht
    · obtain rfl := Option.some.inj (hl.symm.trans hp)
      exact .inr ⟨rfl, by omega, rfl⟩

/-- A new packet is sent, or it is tried to. -/
theorem goes_on (h : Speaking direction requested t said) {packet : Packet}
    (hp : packet.Fits direction t.terms.blockSize) (n : Nat) :
    Orderly direction requested (said ++ List.replicate n packet) ∧
      Speaking direction requested { t with lastPacket := some packet }
        (said ++ List.replicate (n + 1) packet) := by
  obtain ⟨hdir, agreed, times, blocks, rfl, hd, hsize, -⟩ := h
  have hd (n : Nat) :
      Discourse direction requested agreed times (blocks ++ List.replicate n packet) := by
    refine { hd with fits := fun p hm => ?_ }
    rcases List.mem_append.1 hm with hm | hm
    · exact hd.fits p hm
    · rw [List.eq_of_mem_replicate hm, ← hsize]
      exact hp
  refine ⟨⟨agreed, times, _, List.append_assoc .., hd n⟩,
    hdir, agreed, times, _, List.append_assoc .., hd (n + 1), hsize, fun p hl => .inl ?_⟩
  obtain rfl := Option.some.inj hl
  simp

end Speaking

/-! ## The reactions -/

section

variable {direction : Direction} {requested : Options} {t : Transfer S} {said : List Packet}

theorem resend_utters (t : Transfer S) (h : Speaking direction requested t said) :
    Utters (Transfer.resend (S := S)) t said (fun _ => Speaking direction requested)
      (Broken direction requested) := by
  refine .bind (.self ?_)
  cases hl : t.lastPacket with
  | none => exact .pure h
  | some packet =>
      exact .transmit (fun n => h.again hl (n + 1))
        fun n message => (h.again hl n).broken (Failure.coded_other message) t

/-- Sends a new packet and keeps it. -/
theorem send_utters (t : Transfer S) (h : Speaking direction requested t said) (packet : Packet)
    (hp : packet.Fits direction t.terms.blockSize) :
    Utters (Transfer.send packet) t said
      (fun _ t' said' => t' = { t with lastPacket := some packet } ∧
        Speaking direction requested t' said') (Broken direction requested) :=
  .send (fun n => ⟨rfl, (h.goes_on hp n).2⟩)
    fun n message => ⟨Failure.coded_other message, (h.goes_on hp n).1⟩

/-- The terms are settled before anything is said, and if options are acknowledged, it is with the
first packet. -/
theorem sendOack_utters (t : Transfer S) (hd : t.direction = direction)
    (hf : t.terms.Follows requested) (ho : t.terms.oackRequired = true) :
    Utters (Transfer.send (.oack t.terms.oack)) t [] (fun _ t' said' =>
      t' = { t with lastPacket := some (.oack t.terms.oack) } ∧ Speaking direction requested t' said')
      (Broken direction requested) := by
  have discourse (n : Nat) : Discourse direction requested t.terms.oack (n + 1) [] :=
    ⟨by simp [hf.nonempty ho], hf.asked, fun _ h => nomatch h⟩
  refine .send (fun n => ?_) fun n message => ⟨Failure.coded_other message, ?_⟩
  · exact ⟨rfl, hd, t.terms.oack, n + 1, [], by simp, discourse n, hf.size, fun p hp =>
      .inr ⟨rfl, by omega, (Option.some.inj hp).symm⟩⟩
  · cases n with
    | zero => exact ⟨{}, 0, [], rfl, by simp, fun _ h => absurd (Options.value?_empty _) h, List.forall_mem_nil _⟩
    | succ n => exact ⟨t.terms.oack, n + 1, [], by simp, discourse n⟩

/-- A transfer that has no options to acknowledge may begin with a block. -/
theorem speaking_nil (hd : t.direction = direction) (hf : t.terms.Follows requested)
    (ho : t.terms.oackRequired = false) (hl : t.lastPacket = none) :
    Speaking direction requested t [] := by
  refine ⟨hd, {}, 0, [], rfl, ⟨by simp, fun _ h => absurd (Options.value?_empty _) h, List.forall_mem_nil _⟩, ?_,
    fun p hp => nomatch hl.symm.trans hp⟩
  rw [hf.size, hf.unsized ho]

/-- A transfer that has said nothing yet. -/
theorem broken_nil {f : Failure} (hf : f.Coded) (t : Transfer S) :
    Broken direction requested f t [] :=
  ⟨hf, {}, 0, [], rfl, by simp, fun _ h => absurd (Options.value?_empty _) h, List.forall_mem_nil _⟩

section

variable (coded : S.Coded)

include coded

theorem sendNextBlock_utters (h : Speaking .read requested t said) :
    Utters (Read.sendNextBlock (S := S)) t said (fun _ => Speaking .read requested)
      (Broken .read requested) := by
  refine .bind (.self (.bind (.fill coded (fun payload reader hle => ?_)
    fun f reader hf => h.broken hf _)))
  rw [List.flatten_nil, List.length_nil, Nat.zero_add] at hle
  have sends := send_utters { t with reader, block := t.block + 1 } h (.data (t.block + 1) payload)
    ⟨rfl, hle⟩
  refine .bind (.update (.bind (.self (.bind (.mono sends ?_ fun _ _ _ => id)))) rfl rfl)
  rintro _ _ said' ⟨rfl, h'⟩
  exact .update h' rfl rfl

theorem readStart_utters (hd : t.direction = .read) (hr : t.request.options = requested)
    (hl : t.lastPacket = none) :
    Utters (Read.start (S := S)) t [] (fun _ => Speaking .read requested)
      (Broken .read requested) := by
  refine .bind (.self (.bind (.source coded (fun opened => ?_) fun f hf => broken_nil hf _)))
  refine .bind (.update (.bind (.settleTerms (fun terms hf => ?_)
    fun r hcode => broken_nil (Failure.coded_transfer hcode) _)) rfl rfl)
  refine .bind (.log rfl (.bind (.self ?_)))
  rw [show ({ t with reader := some opened.1 } : Transfer S).request.options = requested from hr]
    at hf
  dsimp only
  split
  next ho =>
    have sends := sendOack_utters { t with reader := some opened.1, terms, block := 0 } hd hf ho
    refine .bind (.update (.bind (.mono sends ?_ fun _ _ _ => id)) rfl rfl)
    rintro _ _ said' ⟨rfl, h'⟩
    exact .update h' rfl rfl
  next ho =>
    exact sendNextBlock_utters coded (speaking_nil hd hf (Bool.eq_false_iff.2 ho) hl)

theorem writeStart_utters (hd : t.direction = .write) (hr : t.request.options = requested)
    (hl : t.lastPacket = none) :
    Utters (Write.start (S := S)) t [] (fun _ => Speaking .write requested)
      (Broken .write requested) := by
  refine .bind (.settleTerms (fun terms hf => ?_)
    fun r hcode => broken_nil (Failure.coded_transfer hcode) _)
  refine .bind (.self (.bind (.sink coded (fun writer => ?_) fun f hf => broken_nil hf _)))
  refine .bind (.update (.bind (.log rfl ?_)) rfl rfl)
  rw [hr] at hf
  dsimp only
  split
  next ho =>
    have sends := sendOack_utters { t with terms, writer := some writer } hd hf ho
    refine .bind (.mono sends ?_ fun _ _ _ => id)
    rintro _ _ said' ⟨rfl, h'⟩
    exact .update h' rfl rfl
  next ho =>
    refine .bind (.mono (send_utters { t with terms, writer := some writer }
      (speaking_nil hd hf (Bool.eq_false_iff.2 ho) hl) (.ack 0) rfl) ?_ fun _ _ _ => id)
    rintro _ _ said' ⟨rfl, h'⟩
    exact .update h' rfl rfl

theorem readHandle_utters (packet : Packet) (h : Speaking .read requested t said) :
    Utters (Read.handle (S := S) packet) t said (fun _ => Speaking .read requested)
      (Broken .read requested) := by
  have next : Utters (do
      Read.sendNextBlock (S := S)
      return true) t said (fun _ => Speaking .read requested) (Broken .read requested) :=
    .bind (.mono (sendNextBlock_utters coded h) (fun _ _ _ h' => .pure h') fun _ _ _ => id)
  cases packet with
  | ack block =>
      refine .bind (.self ?_)
      split
      · exact .pure h
      · split
        · exact next
        · exact next
        · exact .bind (.log rfl (.bind (.update (.pure h) rfl rfl)))
        · exact .pure h
  | _ => exact .pure h

/-- Whatever the write before has made of the file, the block is acknowledged. -/
theorem acknowledge_utters (u : Transfer S) (block : UInt16) (payload : Bytes)
    (writer : Option S.Writer) (h : Speaking .write requested t said) :
    Utters (Write.acknowledge u block payload) { t with writer } said
      (fun _ => Speaking .write requested) (Broken .write requested) := by
  have acks (writer : Option S.Writer) : Utters (Transfer.send (.ack block))
      { t with writer } said (fun _ t' said' =>
        t' = { t with writer, lastPacket := some (.ack block) } ∧
          Speaking .write requested t' said') (Broken .write requested) :=
    send_utters { t with writer } h (.ack block) rfl
  unfold Write.acknowledge
  split
  · refine .bind (.store coded .finish (fun writer => ?_) fun f writer hf => h.broken hf _)
    refine .bind (.mono (acks writer) ?_ fun _ _ _ => id)
    rintro _ _ said' ⟨rfl, h'⟩
    exact .bind (.update (.bind (.log rfl (.pure h'))) rfl rfl)
  · refine .bind (.mono (acks writer) ?_ fun _ _ _ => id)
    rintro _ _ said' ⟨rfl, h'⟩
    exact .bind (.update (.pure h') rfl rfl)

theorem writeHandle_utters (packet : Packet) (h : Speaking .write requested t said) :
    Utters (Write.handle (S := S) packet) t said (fun _ => Speaking .write requested)
      (Broken .write requested) := by
  cases packet with
  | data block payload =>
      rw [Write.handle_data_eq]
      refine .bind (.self ?_)
      split
      · split
        · exact .bind (.mono (resend_utters t h) (fun _ _ _ h' => .pure h') fun _ _ _ => id)
        · exact .pure h
      · unfold Write.take
        split
        · exact .throw (h.broken (Failure.coded_transfer (by decide)) t)
        · split
          · exact .bind (.store coded (.write payload)
              (fun writer => acknowledge_utters coded t block payload writer h)
              fun f writer hf => h.broken hf _)
          · exact acknowledge_utters coded t block payload t.writer h
  | _ => exact .pure h

theorem start_utters (hd : t.direction = direction) (hr : t.request.options = requested)
    (hl : t.lastPacket = none) :
    Utters (Transfer.start (S := S)) t [] (fun _ => Speaking direction requested)
      (Broken direction requested) := by
  refine .bind (.self ?_)
  cases direction with
  | read =>
      rw [hd]
      exact readStart_utters coded hd hr hl
  | write =>
      rw [hd]
      exact writeStart_utters coded hd hr hl

theorem handle_utters {packet : Packet} (hp : packet.WellFormed)
    (h : Speaking direction requested t said) :
    Utters (Transfer.handle (S := S) packet) t said (fun _ => Speaking direction requested)
      (Broken direction requested) := by
  have hd := h.1
  unfold Transfer.handle
  split
  next code message =>
    refine .throw (h.broken ?_ t)
    rintro r (hr | hr) <;> cases hr
    exact hp.1
  next =>
    refine .bind (.self ?_)
    cases direction with
    | read =>
        rw [hd]
        exact readHandle_utters coded packet h
    | write =>
        rw [hd]
        exact writeHandle_utters coded packet h

theorem heed_utters (reception : Reception) (h : Speaking direction requested t said) :
    Utters (Transfer.heed (S := S) reception) t said (fun _ => Speaking direction requested)
      (Broken direction requested) := by
  unfold Transfer.heed
  cases reception.cut Network.maxDatagram with
  | nothing => exact .pure h
  | failed errno =>
      simp only [Reception.outcome]
      split
      next f hf =>
        split at hf <;> cases hf
        exact .throw (h.broken (Failure.coded_other _) t)
      next => exact .pure h
      next hf => split at hf <;> cases hf
  | datagram sender bytes =>
      refine .bind (.self ?_)
      split
      next hs => exact .bind (.rejectStranger hs (.pure h))
      next =>
        cases hp : Packet.parse bytes with
        | error malformed => exact .bind (.log rfl (.pure h))
        | ok packet =>
            obtain ⟨body, -, hb⟩ := Packet.parse_eq_ok_iff.1 hp
            exact .bind (.log rfl (handle_utters coded hb.wellFormed h))

theorem impulse_utters {reception? : Option Reception}
    (hn : reception? = none → said = [] ∧ t.direction = direction ∧
      t.request.options = requested ∧ t.lastPacket = none)
    (hs : reception? ≠ none → Speaking direction requested t said) :
    Utters (Transfer.impulse (S := S) reception?) t said (fun _ => Speaking direction requested)
      (Broken direction requested) := by
  cases reception? with
  | none =>
      obtain ⟨rfl, hd, hr, hl⟩ := hn rfl
      refine .bind (.mono (start_utters coded hd hr hl) (fun _ t' said' h => ?_) fun _ _ _ => id)
      exact .bind (.rearm fun _ => .pure h)
  | some reception =>
      refine .bind (.mono (heed_utters coded reception (hs (Option.some_ne_none _))) ?_
        fun _ _ _ => id)
      intro moved t' said' h
      cases moved with
      | true => exact .bind (.bind (.update (.rearm fun _ => .pure h) rfl rfl))
      | false => exact .pure h

omit coded in
theorem catchUp_utters (left : Nat) (h : Speaking direction requested t said) :
    Utters (Transfer.catchUp (S := S) left) t said (fun _ => Speaking direction requested)
      (Broken direction requested) := by
  induction left generalizing t said with
  | zero =>
      refine .bind (.self (.bind (.now fun time => ?_)))
      split
      · exact .pure h
      · exact .bind (.log rfl (.throw (h.broken (Failure.coded_transfer (by decide)) t)))
  | succ left ih =>
      refine .bind (.self (.bind (.now fun time => ?_)))
      split
      · exact .pure h
      · refine .bind (.update (.bind (.log rfl (.bind ?_))) rfl rfl)
        have sends := resend_utters { t with retries := t.retries + 1 } h
        refine .mono sends (fun _ t' said' h' => ?_) fun _ _ _ => id
        exact .bind (.rearm fun deadline => ih (t := { t' with deadline }) h')

omit coded in
theorem settle_utters (h : Speaking direction requested t said) :
    Utters (Transfer.settle (S := S)) t said (fun _ => Speaking direction requested)
      (Broken direction requested) := by
  refine .bind (.self ?_)
  split
  · exact .pure h
  · refine .bind (.get fun s => ?_)
    split
    · exact .bind (.throw (h.broken (Failure.coded_transfer (by decide)) t))
    · refine .bind (.mono (catchUp_utters _ h) (fun _ t' said' h' => ?_) fun _ _ _ => id)
      refine .onNetwork (fun _ => h') fun f network network' hf => ?_
      obtain ⟨message, rfl⟩ := Network.beginReceive_eq_error hf
      exact h'.broken (Failure.coded_other message) t'

/-- A transfer leaves in silence. -/
theorem leave_utters {U : Unit → Transfer S → List Packet → Prop}
    {E : Failure → Transfer S → List Packet → Prop} (ok : ∀ writer, U () { t with writer } said)
    (fails : ∀ f writer, f.Coded → E f { t with writer } said) :
    Utters (Transfer.leave (S := S)) t said U E := by
  refine .bind (.self ?_)
  split
  · exact .bind (.onCall coded .abort (fun writer => .log rfl (ok writer)) fails)
  · exact .log rfl (ok t.writer)

/-- **A transfer speaks in order**, turn after turn. -/
theorem turn_utters {reception? : Option Reception}
    (hn : reception? = none → said = [] ∧ t.direction = direction ∧
      t.request.options = requested ∧ t.lastPacket = none)
    (hs : reception? ≠ none → Speaking direction requested t said) :
    Utters (guarded (turn (S := S) reception?)) t said (fun _ => Speaking direction requested)
      (Broken direction requested) := by
  refine .bind (.tryCatch (.mono (.bind (.mono (impulse_utters coded hn hs)
    (fun _ _ _ h => settle_utters h) fun _ _ _ => id)) ?_ ?_))
  · intro _ t' said' h
    refine .bind (.self ?_)
    split
    · exact leave_utters coded (fun _ => h) fun f writer hf => h.broken hf _
    · exact .pure h
  · intro f t' said' h
    exact .bind (.update (.bind (leave_utters coded (fun _ => .throw h)
      fun f' writer hf => ⟨hf, h.2⟩)) rfl rfl)

end

end

end Transfer

end Tftp
