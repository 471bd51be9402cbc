import Tftp.Proofs.Speech
import Tftp.Proofs.Wire

/-!
# What is acknowledged is what is used

A negotiation turns the options of a request into the terms of a transfer. `Terms.Settled` says what
each of the terms is to be, and `negotiate_cases` that they are settled in this way unless a block
size is asked for that is `TooSmall` or a timeout that is `TooShort`.

A transfer settles its terms once, before it says anything, and keeps to them: the options that it
acknowledges are those of its terms, and a file that is received is opened with the size that the
terms have. `Continues` is what all steps preserve once the terms are settled, and `Session.committed`
follows a session from its beginning.

    start ──settle──▶ Committed ──Steps──▶ Committed ──Steps──▶ …
-/

namespace Tftp

/-! ## What a negotiation comes to -/

/-- A block size below 8 is asked for, and it is not ignored. -/
def Options.TooSmall (requested : Options) (config : Config) : Prop :=
  ∃ size, requested.blockSize = some size ∧ config.ignoreBlockSize = false ∧ size.toNat < 8

/-- A timeout of zero is asked for, and it is not ignored. -/
def Options.TooShort (requested : Options) (config : Config) : Prop :=
  requested.timeout = some 0 ∧ config.ignoreTimeout = false

/-- The block size is the one that is asked for, unless that is too large, and it is acknowledged. -/
structure AgreesOnBlockSize (requested : Options) (config : Config) (blockSize : UInt16)
    (oacked : Option UInt16) : Prop where
  heeded : ∀ size, requested.blockSize = some size → config.ignoreBlockSize = false →
    blockSize.toNat = min (min size.toNat 65464) (config.blockSizeLimit.elim 65464 UInt16.toNat) ∧
    oacked = some blockSize
  unheeded : requested.blockSize = none ∨ config.ignoreBlockSize = true →
    blockSize = 512 ∧ oacked = none

/-- The timeout is the one that is asked for, and it is acknowledged. -/
structure AgreesOnTimeout (requested : Options) (config : Config) (timeout : Int)
    (oacked : Option UInt8) : Prop where
  heeded : ∀ seconds, requested.timeout = some seconds → config.ignoreTimeout = false →
    timeout = 1000 * seconds.toNat ∧ oacked = some seconds
  unheeded : requested.timeout = none ∨ config.ignoreTimeout = true →
    timeout = config.timeout ∧ oacked = none

/-- How the terms of a transfer follow from what is asked for, from the configuration, the direction,
and the size of the file if it is known. -/
structure Terms.Settled (requested : Options) (config : Config) (direction : Direction)
    (fileSize : Option UInt64) (terms : Terms) : Prop where
  blockSize : AgreesOnBlockSize requested config terms.blockSize terms.oack.blockSize
  timeout : AgreesOnTimeout requested config terms.timeout terms.oack.timeout
  transferSize : terms.transferSize = match direction with
    | .read => if requested.transferSize = some 0 then fileSize else none
    | .write => requested.transferSize
  oacked : terms.oack.transferSize = terms.transferSize
  required : terms.oackRequired = true ↔ terms.oack.blockSize.isSome ∨ terms.oack.timeout.isSome ∨
    direction = .read ∧ terms.oack.transferSize.isSome

/-- An option is heeded if it is there and not ignored. -/
theorem heeded_or {α : Type} (option : Option α) (ignored : Bool) :
    (∃ a, option = some a ∧ ignored = false) ∨ (option = none ∨ ignored = true) := by
  cases option with
  | none => exact .inr (.inl rfl)
  | some a =>
      cases ignored with
      | false => exact .inl ⟨a, rfl, rfl⟩
      | true => exact .inr (.inr rfl)

theorem toNat_capBlockSize (config : Config) (size : UInt16) :
    (config.capBlockSize size).toNat =
      min (min size.toNat 65464) (config.blockSizeLimit.elim 65464 UInt16.toNat) := by
  have toNat_min (a b : UInt16) : (min a b).toNat = min a.toNat b.toNat := by
    show (if a ≤ b then a else b).toNat = _
    simp only [UInt16.le_iff_toNat_le]
    split <;> omega
  have hmax : (min size Terms.maxBlockSize).toNat = min size.toNat 65464 := toNat_min ..
  unfold Config.capBlockSize
  cases config.blockSizeLimit with
  | none =>
      show (min size Terms.maxBlockSize).toNat = min _ 65464
      omega
  | some limit => exact (toNat_min ..).trans (by rw [hmax]; rfl)

namespace Terms

variable {requested : Options} {config : Config}

/-- Settling the block size. -/
theorem withBlockSize_cases (requested : Options) (config : Config) :
    (requested.TooSmall config ∧ ∃ r, r.code = .invalidOptions ∧
      (unnegotiated config).withBlockSize config requested = .error (.transfer r)) ∨
    (¬ requested.TooSmall config ∧ ∃ blockSize oacked,
      AgreesOnBlockSize requested config blockSize oacked ∧
      (unnegotiated config).withBlockSize config requested = .ok {
        blockSize, timeout := config.timeout
        oack := { blockSize := oacked }, oackRequired := oacked.isSome }) := by
  have hlt (size : UInt16) : size < minBlockSize ↔ size.toNat < 8 := UInt16.lt_iff_toNat_lt
  unfold withBlockSize
  rcases heeded_or requested.blockSize config.ignoreBlockSize with ⟨size, hs, hi⟩ | hu
  · have heeds (size' : UInt16) (hs' : requested.blockSize = some size') : size' = size :=
      Option.some.inj (hs'.symm.trans hs)
    rw [hs, hi]
    simp only [hlt]
    by_cases h8 : size.toNat < 8
    · rw [if_pos h8]
      exact .inl ⟨⟨size, hs, hi, h8⟩, _, rfl, rfl⟩
    · rw [if_neg h8]
      refine .inr ⟨?_, config.capBlockSize size, _, ⟨?_, ?_⟩, rfl⟩
      · rintro ⟨size', hs', -, hlt⟩
        exact h8 (heeds size' hs' ▸ hlt)
      · rintro size' hs' -
        rw [heeds size' hs']
        exact ⟨toNat_capBlockSize config size, rfl⟩
      · rintro (h | h)
        · cases hs.symm.trans h
        · cases hi.symm.trans h
  · have unheeded {size : UInt16} (hs : requested.blockSize = some size)
        (hi : config.ignoreBlockSize = false) : False := by
      simp [hs, hi] at hu
    refine .inr ⟨fun ⟨size, hs, hi, _⟩ => unheeded hs hi, 512, none,
      ⟨fun size hs hi => (unheeded hs hi).elim, fun _ => ⟨rfl, rfl⟩⟩, ?_⟩
    split
    next hs hi => exact (unheeded hs hi).elim
    next => rfl

/-- Settling the timeout. -/
theorem withTimeout_cases (requested : Options) (config : Config) (blockSize : UInt16)
    (acked : Option UInt16) :
    let sized : Terms := {
      blockSize, timeout := config.timeout
      oack := { blockSize := acked }, oackRequired := acked.isSome }
    (requested.TooShort config ∧ ∃ r, r.code = .invalidOptions ∧
      sized.withTimeout config requested = .error (.transfer r)) ∨
    (¬ requested.TooShort config ∧ ∃ timeout oacked,
      AgreesOnTimeout requested config timeout oacked ∧
      sized.withTimeout config requested = .ok {
        blockSize, timeout
        oack := { blockSize := acked, timeout := oacked }
        oackRequired := acked.isSome || oacked.isSome }) := by
  unfold withTimeout
  rcases heeded_or requested.timeout config.ignoreTimeout with ⟨seconds, hs, hi⟩ | hu
  · have heeds (seconds' : UInt8) (hs' : requested.timeout = some seconds') :
        seconds' = seconds := Option.some.inj (hs'.symm.trans hs)
    rw [hs, hi]
    by_cases h0 : seconds = 0
    · subst h0
      exact .inl ⟨⟨hs, hi⟩, _, rfl, rfl⟩
    · refine .inr ⟨fun ⟨hs', _⟩ => h0 (heeds 0 hs').symm, 1000 * seconds.toNat, some seconds,
        ⟨?_, ?_⟩, ?_⟩
      · rintro seconds' hs' -
        rw [heeds seconds' hs']
        exact ⟨rfl, rfl⟩
      · rintro (h | h)
        · cases hs.symm.trans h
        · cases hi.symm.trans h
      · simp [h0]
  · have unheeded {seconds : UInt8} (hs : requested.timeout = some seconds)
        (hi : config.ignoreTimeout = false) : False := by
      simp [hs, hi] at hu
    refine .inr ⟨fun ⟨hs, hi⟩ => unheeded hs hi, config.timeout, none,
      ⟨fun seconds hs hi => (unheeded hs hi).elim, fun _ => ⟨rfl, rfl⟩⟩, ?_⟩
    split
    next hs hi => exact (unheeded hs hi).elim
    next => simp

/-- Settling the size of the file comes last. -/
theorem withTransferSize_settled {blockSize : UInt16} {timeout : Int} {acked : Option UInt16}
    {oacked : Option UInt8} (hb : AgreesOnBlockSize requested config blockSize acked)
    (ht : AgreesOnTimeout requested config timeout oacked) (direction : Direction)
    (fileSize : Option UInt64) :
    ({ blockSize, timeout, oack := { blockSize := acked, timeout := oacked }
       oackRequired := acked.isSome || oacked.isSome : Terms }.withTransferSize direction fileSize
        requested).Settled requested config direction fileSize := by
  unfold withTransferSize
  cases hr : requested.transferSize with
  | none => cases direction <;> exact ⟨hb, ht, by simp [hr], rfl, by simp⟩
  | some asked =>
      cases direction with
      | write => exact ⟨hb, ht, hr.symm, rfl, by simp⟩
      | read =>
          -- A reader is told the size if it has asked for it and the size is known.
          cases fileSize with
          | none => exact ⟨hb, ht, by simp, rfl, by simp⟩
          | some size =>
              dsimp only
              split
              next h0 => exact ⟨hb, ht, by simp [hr, h0], rfl, by simp⟩
              next h0 => exact ⟨hb, ht, by simp [hr, h0], rfl, by simp⟩

end Terms

/-- **What a negotiation comes to.** It fails with a report about the options if what is asked for
is too small, and otherwise it settles the terms. -/
theorem negotiate_cases (requested : Options) (config : Config) (direction : Direction)
    (fileSize : Option UInt64) :
    ((requested.TooSmall config ∨ requested.TooShort config) ∧ ∃ r, r.code = .invalidOptions ∧
      negotiate requested config direction fileSize = .error (.transfer r)) ∨
    (¬ (requested.TooSmall config ∨ requested.TooShort config) ∧ ∃ terms,
      negotiate requested config direction fileSize = .ok terms ∧
      terms.Settled requested config direction fileSize) := by
  unfold negotiate
  rcases Terms.withBlockSize_cases requested config with
    ⟨hsmall, r, hr, hs⟩ | ⟨hsmall, blockSize, acked, hb, hs⟩
  · exact .inl ⟨.inl hsmall, r, hr, by rw [hs]; rfl⟩
  rw [hs]
  rcases Terms.withTimeout_cases requested config blockSize acked with
    ⟨hshort, r, hr, ht⟩ | ⟨hshort, timeout, oacked, hagrees, ht⟩
  · exact .inl ⟨.inr hshort, r, hr, by simp only [bind, Except.bind, ht]⟩
  refine .inr ⟨fun h => h.elim hsmall hshort, _, by simp only [bind, Except.bind, ht]; rfl, ?_⟩
  exact Terms.withTransferSize_settled hb hagrees direction fileSize

section

variable {requested : Options} {config : Config} {direction : Direction} {fileSize : Option UInt64}

theorem exists_negotiate_eq_error_iff :
    (∃ f, negotiate requested config direction fileSize = .error f) ↔
      requested.TooSmall config ∨ requested.TooShort config := by
  rcases negotiate_cases requested config direction fileSize with
    ⟨hbad, r, -, hn⟩ | ⟨hgood, terms, hn, -⟩
  · exact ⟨fun _ => hbad, fun _ => ⟨_, hn⟩⟩
  · refine ⟨?_, fun hbad => absurd hbad hgood⟩
    rintro ⟨f, hf⟩
    cases hn.symm.trans hf

theorem invalidOptions_of_negotiate {f : Failure}
    (hf : negotiate requested config direction fileSize = .error f) :
    ∃ r, f = .transfer r ∧ r.code = .invalidOptions := by
  rcases negotiate_cases requested config direction fileSize with
    ⟨-, r, hr, hn⟩ | ⟨-, terms, hn, -⟩
  · exact ⟨r, Except.error.inj (hf.symm.trans hn), hr⟩
  · cases hn.symm.trans hf

theorem settled_of_negotiate {terms : Terms}
    (ht : negotiate requested config direction fileSize = .ok terms) :
    terms.Settled requested config direction fileSize := by
  rcases negotiate_cases requested config direction fileSize with
    ⟨-, r, -, hn⟩ | ⟨-, settled, hn, hs⟩
  · cases hn.symm.trans ht
  · rwa [Except.ok.inj (ht.symm.trans hn)]

/-- A file that is to be written has the size that has been declared. -/
theorem transferSize_of_negotiate {terms : Terms}
    (ht : negotiate requested config .write fileSize = .ok terms) :
    terms.transferSize = requested.transferSize :=
  (settled_of_negotiate ht).transferSize

end

namespace Transfer

variable {S : Storage}

/-! ## What is kept -/

/-- Something that a transfer puts on record while it keeps to its terms. -/
inductive Kept (t : Transfer S) : Event → Prop
  | logged (notice : Notice) : Kept t (.logged notice)
  | said {packet : Packet} (sender : Address) (time : Int) : Owes t packet →
      Kept t (.sent sender t.peer packet.encode time)
  | stranger {a : Address} (sender : Address) (bytes : Bytes) (time : Int) : a ≠ t.peer →
      Kept t (.sent sender a bytes time)
  | asked {events : List Event} {e : Event} : Asks t events → e ∈ events → Kept t e

/-- Whose transfer it is, what it is about and what has been agreed to: all that a transfer has to
keep to. -/
def bond (t : Transfer S) : Direction × Request × Address × Config × Terms :=
  (t.direction, t.request, t.peer, t.config, t.terms)

section

variable {t t' : Transfer S} (h : t'.bond = t.bond)

include h

theorem Owes.congr {packet : Packet} (ho : Owes t' packet) : Owes t packet := by
  simp only [bond, Prod.mk.injEq] at h
  obtain ⟨hd, -, -, -, ht⟩ := h
  cases packet with
  | data block payload => exact ⟨hd ▸ ho.1, ht ▸ ho.2⟩
  | ack block => exact hd.symm.trans ho
  | oack agreed => exact ⟨ht ▸ ho.1, ht ▸ ho.2⟩
  | _ => cases ho

theorem Asks.congr {events : List Event} (ha : Asks t' events) : Asks t events := by
  simp only [bond, Prod.mk.injEq] at h
  obtain ⟨hd, hr, hp, hc, ht⟩ := h
  cases ha with
  | openForReading state hdir =>
      rw [hp, hr]
      exact .openForReading state (hd.symm.trans hdir)
  | openForWriting state hdir hagreed =>
      rw [HasAgreed, hd, hr, hc, ht] at hagreed
      rw [hp, hr, ht]
      exact .openForWriting state (hd.symm.trans hdir) hagreed
  | read n file hdir => exact .read n file (hd.symm.trans hdir)
  | call call file => exact .call call file

theorem Kept.congr {e : Event} (hk : Kept t' e) : Kept t e := by
  have hp : t'.peer = t.peer := congrArg (fun b => b.2.2.1) h
  cases hk with
  | logged notice => exact .logged notice
  | said sender time ho =>
      rw [hp]
      exact .said sender time (ho.congr h)
  | stranger sender bytes time ha => exact .stranger sender bytes time (hp ▸ ha)
  | asked ha he => exact .asked (ha.congr h) he

end

/-- One scene comes after another one, and in between the transfer has kept to its terms. -/
structure Continues (s s' : Scene S) : Prop where
  bond : s'.self.bond = s.self.bond
  last : ∀ packet, s'.self.lastPacket = some packet → Owes s.self packet
  trace : ∃ events, s'.world.trace = events ++ s.world.trace ∧ ∀ e ∈ events, Kept s.self e

namespace Continues

variable {s s' s'' : Scene S}

theorem refl (h : ∀ packet, s.self.lastPacket = some packet → Owes s.self packet) :
    Continues s s := ⟨rfl, h, [], rfl, List.forall_mem_nil _⟩

theorem trans (h : Continues s s') (h' : Continues s' s'') : Continues s s'' := by
  obtain ⟨events, ht, he⟩ := h.trace
  obtain ⟨events', ht', he'⟩ := h'.trace
  refine ⟨h'.bond.trans h.bond, fun packet hl => (h'.last packet hl).congr h.bond,
    events' ++ events, by rw [ht', ht, List.append_assoc], fun e hm => ?_⟩
  exact (List.mem_append.1 hm).elim (fun hm => (he' e hm).congr h.bond) (he e)

end Continues

/-- **Steps keep to the terms**, once these are settled. -/
theorem Steps.continues {time : Prop} {s s' : Scene S} (hs : Steps False time s s')
    (hl : ∀ packet, s.self.lastPacket = some packet → Owes s.self packet) : Continues s s' := by
  refine hs.invariant (P := Continues s) ?_ (.refl hl)
  intro t t' step h
  have hp : t.self.peer = s.self.peer := congrArg (fun b => b.2.2.1) h.bond
  -- Of what may be said nothing but a reply goes to the peer.
  have saying {packet : Packet} {a sender : Address} {time : Int} (hs : Says t.self packet a) :
      Kept s.self (.sent sender a packet.encode time) := by
    cases hs with
    | reply ho =>
        rw [hp]
        exact .said sender time (ho.congr h.bond)
    | again hlast =>
        rw [hp]
        exact .said sender time (h.last packet hlast)
    | stranger ha => exact .stranger sender _ time (hp ▸ ha)
  have one {e : Event} (he : Kept s.self e) : ∃ events, e :: t.world.trace = events ++ s.world.trace ∧
      ∀ e ∈ events, Kept s.self e := by
    obtain ⟨events, ht, hall⟩ := h.trace
    exact ⟨e :: events, by rw [ht]; rfl, List.forall_mem_cons.2 ⟨he, hall⟩⟩
  cases step with
  | log notice _ => exact { h with trace := one (.logged notice) }
  | announce _ => exact { h with trace := one (.logged _) }
  | send network hs => exact { h with trace := one (saying hs) }
  | store store reader writer ha =>
      obtain ⟨events, ht, hall⟩ := h.trace
      refine { h with trace := ⟨_ ++ events, by rw [ht, List.append_assoc], fun e he => ?_⟩ }
      rcases List.mem_append.1 he with he | he
      · exact .asked (ha.congr h.bond) (List.mem_reverse.1 he)
      · exact hall e he
  | keep ho =>
      refine { h with last := ?_ }
      rintro packet ⟨⟩
      exact ho.congr h.bond
  | agree _ _ hf => exact hf.elim
  | _ => exact { h with }

/-! ## Settling the terms -/

/-- The terms have been negotiated; for a file that is read, with the size that its source has. -/
def Negotiated (start : Scene S) (terms : Terms) : Prop :=
  let t := start.self
  ∃ fileSize, negotiate t.request.options t.config t.direction fileSize = .ok terms ∧
    (t.direction = .read → ∃ reader,
      (S.source t.peer t.request.filename start.world.store).result = .ok (reader, fileSize))

/-- One scene comes after another one, and in between nothing has been said. -/
structure Prepares (s t : Scene S) : Prop where
  direction : t.self.direction = s.self.direction
  request : t.self.request = s.self.request
  peer : t.self.peer = s.self.peer
  config : t.self.config = s.self.config
  last : t.self.lastPacket = s.self.lastPacket
  trace : ∃ events, t.world.trace = events ++ s.world.trace ∧ ∀ e ∈ events, Kept t.self e

theorem onStore_eq {α : Type} (effect : Effect S.State α) (s : Scene S) :
    (liftM (World.onStore (S := S) effect) : Reaction S α) s =
      let answer := effect s.world.store
      let s' : Scene S := { s with world := { s.world with
        store := answer.state, trace := answer.events.reverse ++ s.world.trace } }
      match answer.result with
      | .ok a => .ok a s'
      | .error f => .error f s' := by
  rw [liftM_eq]
  unfold World.onStore
  cases hr : (effect s.world.store).result <;> simp only [hr]

theorem settleTerms_eq (fileSize : Option UInt64) (s : Scene S) : settleTerms fileSize s =
    match negotiate s.self.request.options s.self.config s.self.direction fileSize with
    | .error f => .error f s
    | .ok terms =>
      let logged := if (Notice.negotiated terms).level ≠ .debug ∨ s.world.verbose = true then
        s.put (.logged (.negotiated terms)) else s
      .ok () { logged with self := { logged.self with terms } } := by
  show (match negotiate s.self.request.options s.self.config s.self.direction fileSize with
      | .error failure => throw failure
      | .ok terms => do
        log (.negotiated terms)
        update fun t => { t with terms } : Reaction S Unit) s = _
  cases negotiate s.self.request.options s.self.config s.self.direction fileSize with
  | error f => rfl
  | ok terms => exact (bind_of_ok (log_eq ..)).trans rfl

/-- When the terms have been settled, nothing has been said. -/
theorem Prepares.settle {s t : Scene S} (h : Prepares s t)
    (hk : ∀ terms, ∃ events, t.world.trace = events ++ s.world.trace ∧
      ∀ e ∈ events, Kept { t.self with terms } e) (fileSize : Option UInt64) :
    (∃ f, settleTerms fileSize t = .error f t) ∨ ∃ terms t', settleTerms fileSize t = .ok () t' ∧
      negotiate s.self.request.options s.self.config s.self.direction fileSize = .ok terms ∧
      t'.self = { t.self with terms } ∧ Prepares s t' := by
  rw [settleTerms_eq, h.request, h.config, h.direction]
  cases negotiate s.self.request.options s.self.config s.self.direction fileSize with
  | error f => exact .inl ⟨f, rfl⟩
  | ok terms =>
      obtain ⟨events, ht, he⟩ := hk terms
      refine .inr ⟨terms, _, rfl, rfl, ?_, ?_⟩
      · dsimp only
        split <;> rfl
      · dsimp only
        split
        · exact { h with
            trace := ⟨_ :: events, congrArg _ ht, List.forall_mem_cons.2 ⟨.logged _, he⟩⟩ }
        · exact { h with trace := ⟨events, ht, he⟩ }

/-- The scene after the storage has been asked for a file to send. -/
def Scene.opening (s : Scene S) (reader : Option S.Reader) : Scene S :=
  let answer := S.openForReading s.self.peer s.self.request.filename s.world.store
  { self := { s.self with reader }
    world := { s.world with
      store := answer.state, trace := answer.events.reverse ++ s.world.trace } }

/-- A transfer that sends opens its file first, and then it settles the terms. -/
theorem readStart_eq (s : Scene S) : Read.start s =
    match (S.source s.self.peer s.self.request.filename s.world.store).result with
    | .error f => .error f (s.opening s.self.reader)
    | .ok (reader, fileSize) => (do
        settleTerms fileSize
        log (.started .read s.self.request.filename s.self.peer s.self.request.mode)
        Read.answer (← self).terms) (s.opening (some reader)) := by
  have hs := onStore_eq (S.source s.self.peer s.self.request.filename) s
  dsimp only at hs
  rw [Read.start_eq]
  cases hr : (S.source s.self.peer s.self.request.filename s.world.store).result with
  | error f =>
      rw [hr] at hs
      exact (bind_of_ok rfl).trans (bind_of_error hs)
  | ok opened =>
      rw [hr] at hs
      exact (bind_of_ok rfl).trans ((bind_of_ok hs).trans rfl)

/-- What the storage reports about a file to send does not depend on the terms. -/
theorem kept_opening {s : Scene S} (hd : s.self.direction = .read) (reader : Option S.Reader)
    (terms : Terms) : ∃ events, (s.opening reader).world.trace = events ++ s.world.trace ∧
      ∀ e ∈ events, Kept { (s.opening reader).self with terms } e := by
  refine ⟨_, rfl, fun e he => ?_⟩
  have ha : Asks { (s.opening reader).self with terms } _ := .openForReading s.world.store hd
  exact .asked ha (List.mem_reverse.1 he)

/-- **The terms are settled once**, and before anything is said. A transfer that does not get so far
keeps the terms it had. -/
theorem start_prepares (s : Scene S) : ∃ t, Prepares s t ∧
    ((∃ f, start s = .error f t) ∧ t.self.terms = s.self.terms ∨
      Negotiated s t.self.terms ∧
        match start s with
        | .ok _ s' | .error _ s' => Steps False False t s') := by
  -- What is left to do when the terms are settled goes in steps.
  have goes {m : Reaction S Unit} {t : Scene S} (h : Goes False False m t) :
      match m t with | .ok _ s' | .error _ s' => Steps False False t s' := by
    cases hr : m t with
    | ok _ s' => exact h.steps_ok hr
    | error f s' => exact (h.steps_error hr).1
  have hstart : start s = (match s.self.direction with
    | .read => Read.start | .write => Write.start : Reaction S Unit) s := rfl
  cases hd : s.self.direction with
  | write =>
      simp only [hd] at hstart
      rw [hstart, Write.start_eq]
      have h : Prepares s s := ⟨rfl, rfl, rfl, rfl, rfl, [], rfl, List.forall_mem_nil _⟩
      rcases h.settle (fun _ => ⟨[], rfl, List.forall_mem_nil _⟩) none with
        ⟨f, hf⟩ | ⟨terms, t, ht, hn, hself, h⟩
      · exact ⟨s, h, .inl ⟨⟨f, bind_of_error hf⟩, rfl⟩⟩
      · refine ⟨t, h, .inr ⟨⟨none, ?_, fun hr => nomatch hd.symm.trans hr⟩, ?_⟩⟩
        · rw [hself]
          exact hn
        · rw [bind_of_ok ht]
          refine goes (.writeFirst (h.direction.trans hd) ⟨none, ?_⟩)
          rw [h.request, h.config, h.direction, hself]
          exact hn
  | read =>
      simp only [hd] at hstart
      have prepares (reader : Option S.Reader) : Prepares s (s.opening reader) :=
        ⟨rfl, rfl, rfl, rfl, rfl, kept_opening hd reader s.self.terms⟩
      rw [hstart, readStart_eq]
      cases hr : (S.source s.self.peer s.self.request.filename s.world.store).result with
      | error f => exact ⟨_, prepares s.self.reader, .inl ⟨⟨f, rfl⟩, rfl⟩⟩
      | ok opened =>
          obtain ⟨reader, fileSize⟩ := opened
          dsimp only
          rcases (prepares (some reader)).settle (kept_opening hd (some reader)) fileSize with
            ⟨f, hf⟩ | ⟨terms, t, ht, hn, hself, h⟩
          · exact ⟨_, prepares (some reader), .inl ⟨⟨f, bind_of_error hf⟩, rfl⟩⟩
          · refine ⟨t, h, .inr ⟨⟨fileSize, ?_, fun _ => ⟨reader, hr⟩⟩, ?_⟩⟩
            · rw [hself]
              exact hn
            · rw [bind_of_ok ht]
              exact goes (.readFirst (h.direction.trans hd) rfl)

/-! ## Sessions -/

/-- A session has settled its terms, unless it has failed before that, and since then it keeps to
them. -/
structure Committed (start : Scene S) (events : List Event) (s : Scene S) : Prop where
  direction : s.self.direction = start.self.direction
  request : s.self.request = start.self.request
  peer : s.self.peer = start.self.peer
  config : s.self.config = start.self.config
  terms : s.self.terms = start.self.terms ∨ Negotiated start s.self.terms
  last : ∀ packet, s.self.lastPacket = some packet → Owes s.self packet
  kept : ∀ e ∈ events, Kept s.self e

section

variable {s t : Scene S}

theorem Goes.continues {time : Prop} {m : Reaction S Unit} (h : Goes False time m s)
    (hl : ∀ packet, s.self.lastPacket = some packet → Owes s.self packet) :
    match m s with
    | .ok _ s' | .error _ s' => Continues s s' := by
  cases hr : m s with
  | ok _ s' => exact (h.steps_ok hr).continues hl
  | error f s' => exact (h.steps_error hr).1.continues hl

/-- Leaving and failing are no breach. -/
theorem Continues.guarded {m : Reaction S Unit}
    (h : match m s with | .ok _ s' | .error _ s' => Continues t s') :
    Continues t (s.after (Transfer.guarded m)) := by
  cases hr : m s with
  | ok u s' =>
      rw [hr] at h
      have hg := guarded_of_ok hr
      split at hg
      · have hleave := @Goes.continues _ s' False leave .leave fun packet hp =>
          (h.last packet hp).congr h.bond.symm
        cases hl : leave s' with
        | ok u s'' =>
            rw [hl] at hg hleave
            rw [(Scene.after_of_ok hg).2]
            exact h.trans hleave
        | error f s'' =>
            rw [hl] at hg hleave
            rw [(Scene.after_of_error hg).2]
            exact h.trans hleave
      · rw [(Scene.after_of_ok hg).2]
        exact h
  | error f s' =>
      rw [hr] at h
      obtain ⟨s'', hf, -, -, hsteps⟩ := fall_eq_error f s'
      rw [(Scene.after_of_error ((guarded_of_error hr).trans hf)).2]
      have hfailed : Continues t { s' with self := { s'.self with phase := .failed } } := { h with }
      refine hfailed.trans (hsteps.continues fun packet hp => ?_)
      exact (hfailed.last packet hp).congr hfailed.bond.symm

theorem mem_of_deedsOf {m : Reaction S Unit} {events : List Event}
    (ht : (s.after m).world.trace = events ++ s.world.trace) : ∀ e ∈ s.deedsOf m, e ∈ events := by
  have hd : (s.after m).view.deeds = s.view.deeds ++ (Event.unlogged events).reverse := by
    show (Event.unlogged (s.after m).world.trace).reverse = _
    rw [ht, Event.unlogged_append, List.reverse_append]
    rfl
  rw [Scene.deedsOf_eq hd]
  exact fun e hm => Event.mem_unlogged (List.mem_reverse.1 hm)

/-- What has been prepared goes on. -/
theorem Prepares.committed (h : Prepares s t) {m : Reaction S Unit}
    (terms : t.self.terms = s.self.terms ∨ Negotiated s t.self.terms)
    (hc : Continues t (s.after m)) : Committed s (s.deedsOf m) (s.after m) := by
  have hb := hc.bond
  have back : t.self.bond = (s.after m).self.bond := hb.symm
  simp only [bond, Prod.mk.injEq] at hb
  obtain ⟨hd, hr, hp, hconfig, hterms⟩ := hb
  obtain ⟨events, ht, he⟩ := h.trace
  obtain ⟨events', ht', he'⟩ := hc.trace
  refine ⟨hd.trans h.direction, hr.trans h.request, hp.trans h.peer, hconfig.trans h.config,
    hterms ▸ terms,
    fun packet hlast => (hc.last packet hlast).congr back, fun e hm => ?_⟩
  have hm : e ∈ events' ++ events := mem_of_deedsOf (by rw [ht', ht, List.append_assoc]) e hm
  exact (List.mem_append.1 hm).elim (fun hm => (he' e hm).congr back)
    fun hm => (he e hm).congr back

theorem begin_committed (hl : s.self.lastPacket = none) :
    Committed s (s.deedsOf begin) (s.after begin) := by
  obtain ⟨t, h, hstart⟩ := start_prepares s
  have hlast : ∀ packet, t.self.lastPacket = some packet → Owes t.self packet :=
    fun packet hp => nomatch (h.last.trans hl).symm.trans hp
  refine h.committed ?_ (Continues.guarded (m := do start; rearm; settle) ?_)
  · exact hstart.imp And.right And.left
  rcases hstart with ⟨⟨f, hf⟩, -⟩ | ⟨-, hsteps⟩
  · rw [bind_of_error hf]
    exact .refl hlast
  · cases hr : start s with
    | error f s' =>
        rw [hr] at hsteps
        rw [bind_of_error hr]
        exact hsteps.continues hlast
    | ok u s' =>
        rw [hr] at hsteps
        rw [bind_of_ok hr]
        have hc := hsteps.continues hlast
        have hgoes : Goes False True (do rearm; settle : Reaction S Unit) s' :=
          .bind (.rearm trivial) fun _ _ => .settle trivial
        have hrest := hgoes.continues fun packet hp => (hc.last packet hp).congr hc.bond.symm
        cases hr' : (do rearm; settle : Reaction S Unit) s' with
        | ok u s'' =>
            rw [hr'] at hrest
            exact hc.trans hrest
        | error f s'' =>
            rw [hr'] at hrest
            exact hc.trans hrest

/-- A transfer that has settled its terms keeps to them, whatever its receives bring. -/
theorem resume_continues (hl : ∀ packet, s.self.lastPacket = some packet → Owes s.self packet)
    (reception : Reception) : Continues s (s.after (resume reception)) := by
  rw [resume_eq]
  apply Continues.guarded
  by_cases hg : reception.GivesUp s.self.peer
  · obtain ⟨r, s', hh, hsteps⟩ := heed_of_givesUp hg
    have ht : turn (some reception) s = .error (.peer r) s' := bind_of_error (bind_of_error hh)
    rw [ht]
    exact hsteps.continues hl
  · refine @Goes.continues _ _ True _ (.turn (fun h => nomatch h) trivial fun reception' hr => ?_) hl
    rwa [← Option.some.inj hr]

variable {start : Scene S} {events : List Event} {result : Except Failure Unit}

/-- **A session keeps to the terms that it has settled.** -/
theorem Session.committed (hl : start.self.lastPacket = none)
    (h : Session start events result s) : Committed start events s := by
  induction h with
  | begins => exact begin_committed hl
  | @resumes events s reception _ _ ih =>
      have hc := resume_continues ih.last reception
      have hb := hc.bond
      have back := hb.symm
      simp only [bond, Prod.mk.injEq] at hb
      obtain ⟨hd, hr, hp, hconfig, hterms⟩ := hb
      obtain ⟨more, ht, he⟩ := hc.trace
      refine ⟨hd.trans ih.direction, hr.trans ih.request, hp.trans ih.peer,
        hconfig.trans ih.config, hterms ▸ ih.terms,
        fun packet hlast => (hc.last packet hlast).congr back, fun e hm => ?_⟩
      refine (List.mem_append.1 hm).elim (fun hm => (ih.kept e hm).congr back) fun hm => ?_
      exact (he e (mem_of_deedsOf ht e hm)).congr back
  | meanwhile world _ ih => exact { ih with }

end

/-! ## Opening the file that is to be written -/

/-- Since a view, something has been done. -/
def View.Since (v : View S) (e : Event) (w : View S) : Prop := ∃ a b, w.deeds = v.deeds ++ a ++ e :: b

namespace View.Since

variable {v w : View S} {e : Event}

theorem append (h : v.Since e w) {w' : View S} {more : List Event}
    (hd : w'.deeds = w.deeds ++ more) : v.Since e w' := by
  obtain ⟨a, b, hw⟩ := h
  exact ⟨a, b ++ more, by rw [hd, hw]; simp⟩

theorem givenUp (h : v.Since e w) : v.Since e w.givenUp := by
  cases hw : w.self.writer with
  | none =>
      simp only [View.givenUp, hw, View.changing]
      exact h
  | some writer =>
      simp only [View.givenUp, hw, View.changing]
      exact h.append rfl

/-- What has been done has been done, however the transfer settles. -/
theorem settles (h : v.Since e w) (hp : w.self.isOver = false) : w.Settles (v.Since e) where
  ends ho := nomatch ho.symm.trans hp
  live _ w' hr := by
    obtain ⟨k, r, d, rfl⟩ := hr
    have h' : v.Since e ((w.doing (List.replicate k w.repetition).flatten).changing fun t =>
        { t with retries := r, deadline := d }) := h.append rfl
    exact ⟨h', h'.givenUp⟩

end View.Since

/-- A transfer that receives opens its file as soon as the terms are settled. -/
theorem begin_opens (opening : S.RecordsOpening) {v : View S} (hd : v.self.direction = .write)
    {terms : Terms}
    (hn : negotiate v.self.request.options v.self.config .write none = .ok terms) :
    let e := .openedForWriting v.self.peer v.self.request.filename terms.transferSize
    Ensures begin v (fun _ => v.Since e) (fun _ => v.Since e) := by
  intro e
  apply Ensures.begin
  unfold start
  apply Ensures.bind
  apply Ensures.self
  rw [hd]
  dsimp only
  rw [Write.start_eq]
  apply Ensures.bind
  apply Ensures.settleTerms_or
  · intro terms' hn'
    rw [hd] at hn'
    obtain rfl := Except.ok.inj (hn.symm.trans hn')
    apply Ensures.bind
    apply Ensures.self
    apply Ensures.bind
    apply Ensures.onStore
    have hopen := opening v.self.peer v.self.request.filename terms.transferSize v.store
    dsimp only [View.changing, Storage.sink]
    rw [hopen]
    -- Whatever comes of it, the call is on record.
    generalize S.openForWriting v.self.peer v.self.request.filename terms.transferSize v.store =
      answer
    have since (self : Transfer S) : v.Since e
        { v with self, store := answer.state, deeds := v.deeds ++ [e] } := ⟨[], [], by simp⟩
    split
    · apply Ensures.bind
      apply Ensures.update
      apply Ensures.bind
      apply Ensures.log
      apply Ensures.bind
      apply Ensures.send
      · apply Ensures.update
        exact View.Since.settles ((since _).append rfl) rfl
      · exact fun _ => (since _).givenUp
    · exact (since _).givenUp
  · intro f hn'
    rw [hd] at hn'
    cases hn.symm.trans hn'

/-- What is done in the first turn is part of every session. -/
theorem Session.opens (opening : S.RecordsOpening) {start s : Scene S} {events : List Event}
    {result : Except Failure Unit} (hd : start.self.direction = .write) {terms : Terms}
    (hn : negotiate start.self.request.options start.self.config .write none = .ok terms)
    (h : Session start events result s) :
    .openedForWriting start.self.peer start.self.request.filename terms.transferSize ∈ events := by
  induction h with
  | begins =>
      obtain ⟨a, b, hdeeds⟩ := (begin_opens opening (v := start.view) hd hn).after
      rw [List.append_assoc] at hdeeds
      rw [Scene.deedsOf_eq hdeeds]
      exact List.mem_append_right a List.mem_cons_self
  | resumes _ _ _ ih => exact List.mem_append_left _ ih
  | meanwhile _ _ ih => exact ih

/-! ## What a session acknowledges and opens -/

variable {start s : Scene S} {events : List Event}

/-- Of what goes to the peer, only the options of the terms can be read as an OACK. -/
theorem Committed.acknowledges (silent : ∀ {events}, S.Reports events → ∀ e ∈ events,
      e.isOutgoing = false) (h : Committed start events s) {sender : Address} {agreed : Options}
    {time : Int} (he : .sent sender s.self.peer (Packet.oack agreed).encode time ∈ events) :
    s.self.terms.oackRequired = true ∧ agreed = s.self.terms.oack := by
  have hk := h.kept _ he
  generalize hb : (Packet.oack agreed).encode = bytes at hk
  cases hk with
  | @said packet _ _ ho =>
      cases packet with
      | oack options =>
          rw [Packet.oack_inj hb]
          exact ho
      | data block payload => exact (Packet.oack_ne_data _ _ _ hb).elim
      | ack block => exact (Packet.oack_ne_ack _ _ hb).elim
      | _ => cases ho
  | stranger _ _ _ ha => exact (ha rfl).elim
  | asked ha hm => cases silent ha.reports _ hm

/-- What is asked of the storage for a file that is received shows that no other file is opened. -/
theorem Committed.opens (records : S.Records) (opening : S.RecordsOpening)
    (h : Committed start events s) (hd : s.self.direction = .write) {peer : Address}
    {filename : Bytes} {declared : Option UInt64}
    (he : .openedForWriting peer filename declared ∈ events) :
    peer = s.self.peer ∧ filename = s.self.request.filename ∧
      declared = s.self.terms.transferSize ∧ HasAgreed s.self := by
  cases h.kept _ he with
  | @asked reported _ ha hm =>
      have hm : Event.openedForWriting peer filename declared ∈ Event.unlogged reported :=
        List.mem_filter.2 ⟨hm, rfl⟩
      cases ha with
      | openForReading _ hr => cases hd.symm.trans hr
      | read _ _ hr => cases hd.symm.trans hr
      | openForWriting _ _ hagreed =>
          rw [opening] at hm
          cases List.mem_singleton.1 hm
          exact ⟨rfl, rfl, rfl, hagreed⟩
      | call call file =>
          -- Of a call only its own record is kept.
          have hcall : ∃ e, Event.unlogged (call.effect file).events = [e] ∧ e.isStoring = true := by
            cases call with
            | write payload =>
                have hw := records.write payload file
                split at hw
                · exact ⟨_, hw, rfl⟩
                · exact ⟨_, hw, rfl⟩
            | finish =>
                have hf := records.finish file
                split at hf
                · exact ⟨_, hf, rfl⟩
                · exact ⟨_, hf, rfl⟩
            | abort => exact ⟨_, records.abort file, rfl⟩
          obtain ⟨e, hone, hs⟩ := hcall
          rw [hone] at hm
          cases List.mem_singleton.1 hm
          cases hs

end Transfer

/-! ## The whole of it -/

/-- **Only what is asked for and what is used is acknowledged.** A negotiation fails, with a report
about the options, exactly if a block size or a timeout is asked for that is too small and is not
ignored, and otherwise the terms are settled by what is asked for: what is acknowledged is what has
been asked for and what holds from then on. A session acknowledges nothing but the options of its
terms, which have been negotiated with the size that its source has; there is at least one of them,
and each has been asked for. A session that receives a file opens it with the size that has been
declared, and no other file. -/
theorem acknowledges_agreed (requested : Options) (config : Config) (direction : Direction)
    (fileSize : Option UInt64) :
    let negotiated := negotiate requested config direction fileSize
    let tooSmall := (∃ size, requested.blockSize = some size ∧ config.ignoreBlockSize = false ∧
      size.toNat < 8) ∨ requested.timeout = some 0 ∧ config.ignoreTimeout = false
    ((∃ f, negotiated = .error f) ↔ tooSmall) ∧
    (∀ f, negotiated = .error f → ∃ r, f = .transfer r ∧ r.code = .invalidOptions) ∧
    (∀ terms, negotiated = .ok terms → terms.Settled requested config direction fileSize ∧
      ∀ name, terms.oack.value? name ≠ none → requested.value? name ≠ none) ∧
    ∀ {S : Storage} {request : Request} {peer : Address} {socket : Socket} {heedsStop : Bool}
      {world : World S} {events : List Event} {result : Except Failure Unit} {s : Transfer.Scene S},
      request.options = requested →
      Transfer.Session ⟨.new S direction request peer socket config heedsStop, world⟩ events result
        s →
      ((∀ {reported}, S.Reports reported → ∀ e ∈ reported, e.isOutgoing = false) →
        ∀ sender agreed time, .sent sender peer (Packet.oack agreed).encode time ∈ events →
          agreed = s.self.terms.oack ∧ agreed ≠ {} ∧
          (∀ name, agreed.value? name ≠ none → requested.value? name ≠ none) ∧
          ∃ size, negotiate requested config direction size = .ok s.self.terms ∧
            (direction = .read → ∃ reader,
              (S.source peer request.filename world.store).result = .ok (reader, size))) ∧
      (direction = .write → S.Records → S.RecordsOpening →
        (¬ tooSmall → .openedForWriting peer request.filename requested.transferSize ∈ events) ∧
        ∀ a filename declared, .openedForWriting a filename declared ∈ events →
          a = peer ∧ filename = request.filename ∧ declared = requested.transferSize) := by
  intro negotiated tooSmall
  refine ⟨exists_negotiate_eq_error_iff, fun f hf => invalidOptions_of_negotiate hf,
    fun terms ht => ⟨settled_of_negotiate ht, (negotiate_follows ht).asked⟩, ?_⟩
  rintro S request peer socket heedsStop world events result s rfl run
  have committed := run.committed rfl
  refine ⟨fun silent sender agreed time he => ?_, ?_⟩
  · rw [show peer = s.self.peer from committed.peer.symm] at he
    obtain ⟨ho, rfl⟩ := committed.acknowledges silent he
    rcases committed.terms with ht | ⟨size, hn, hsize⟩
    · -- Nothing has been negotiated, and then no acknowledgement is owed.
      rw [ht] at ho
      cases ho
    · have hn : negotiate request.options config direction size = .ok s.self.terms := hn
      have hf := negotiate_follows hn
      exact ⟨rfl, hf.nonempty ho, hf.asked, size, hn, hsize⟩
  · rintro rfl records opening
    refine ⟨fun hgood => ?_, fun a filename declared he => ?_⟩
    · cases hn : negotiate request.options config .write none with
      | error f => exact absurd (exists_negotiate_eq_error_iff.1 ⟨f, hn⟩) hgood
      | ok terms =>
          have ho := run.opens opening rfl hn
          rwa [transferSize_of_negotiate hn] at ho
    · obtain ⟨hp, hfile, hsize, size, hn⟩ :=
        committed.opens records opening committed.direction he
      rw [committed.request, committed.config, committed.direction] at hn
      exact ⟨hp.trans committed.peer, hfile.trans (congrArg _ committed.request),
        hsize.trans (transferSize_of_negotiate hn)⟩

/-- A client wants to write ten bytes, in blocks that are as large as can be. -/
def declaring : Transfer.Scene (Scripted.storage {}) where
  self := .new _ .write ⟨ascii "digits", .octet, ⟨some 65500, some 2, some 10⟩⟩
    ⟨⟨10, 0, 0, 1⟩, 5000⟩ ⟨⟨⟨10, 0, 0, 2⟩, 40000⟩⟩ {} true
  world := { store := () }

/-- The OACK has the largest block size that there is, and the file is opened with the size that has
been declared. -/
theorem acknowledges_agreed_declaring : ∃ events s, Transfer.Session declaring events (.ok ()) s ∧
    .sent declaring.self.socket.address declaring.self.peer
      (Packet.oack ⟨some 65464, some 2, some 10⟩).encode 0 ∈ events ∧
    (⟨some 65464, some 2, some 10⟩ : Options) = s.self.terms.oack ∧
    .openedForWriting declaring.self.peer (ascii "digits") (some 10) ∈ events := by
  have run : Transfer.Session declaring _ (declaring.resultOf Transfer.begin) _ := .begins
  rw [show declaring.resultOf Transfer.begin = .ok () by decide +kernel] at run
  have sent : Event.sent declaring.self.socket.address declaring.self.peer
      (Packet.oack ⟨some 65464, some 2, some 10⟩).encode 0 ∈
        declaring.deedsOf Transfer.begin := by decide +kernel
  have kept := (acknowledges_agreed ⟨some 65500, some 2, some 10⟩ {} .write none).2.2.2 rfl run
  have fitting : ¬ ((∃ size : UInt16, some 65500 = some size ∧ false = false ∧ size.toNat < 8) ∨
      (some 2 : Option UInt8) = some 0 ∧ false = false) := by
    rintro (⟨size, hs, -, hlt⟩ | ⟨hs, -⟩)
    · cases hs
      exact absurd hlt (by decide)
    · cases hs
  exact ⟨_, _, run, sent, (kept.1 Scripted.silent _ _ _ sent).1,
    (kept.2 rfl (Scripted.records _ rfl) (Scripted.recordsOpening _)).1 fitting⟩

end Tftp
