import Tftp.Proofs.Frame
import Tftp.Proofs.Likeness

/-!
# A network that does not count

Faults count the operations that they let pass and make fail, so what becomes of one datagram may
depend on how many others have been sent. A network is `Steadfast` as far as somebody can tell who
knows of `k` more datagrams only: receives begin, and the next datagrams all have the same fate,
however many of the `k` come first.
-/

namespace Tftp

namespace Fault

/-- No receive notices the fault: at most it makes one fail that is made again at once. -/
def LetsReceive (fault : Fault) : Prop :=
  match fault.operation with
  | .setLimit => fault.count = 0
  | .receive => fault.count = 0 ∨ fault.errno.isNothingYet = true
  | _ => True

/-- No datagram is refused because of the fault. -/
def LetsSend (fault : Fault) : Prop := fault.operation = .send → fault.count = 0

/-- What becomes of the next datagram, and of that after up to `k` others: nothing stands in their
way, or they are all refused for the same reason. -/
inductive Answer (k : Nat) : Option Errno → List Fault → Prop
  | free : Answer k none []
  | refused {count : Nat} (errno : Errno) (faults : List Fault) : k < count →
      Answer k (some errno) (⟨.send, errno, 0, count⟩ :: faults)
  | later {answer : Option Errno} {fault : Fault} {faults : List Fault} : fault.LetsSend →
      Answer k answer faults → Answer k answer (fault :: faults)

namespace Answer

variable {k : Nat} {answer : Option Errno} {faults : List Fault}

theorem mono {l : Nat} (hl : l ≤ k) (h : Answer k answer faults) : Answer l answer faults := by
  induction h with
  | free => exact .free
  | refused errno faults hk => exact .refused errno faults (Nat.lt_of_le_of_lt hl hk)
  | later hf _ ih => exact .later hf ih

/-- A fault that comes later decides if there is none before. -/
theorem append {answer' : Option Errno} {faults' : List Fault} (h : Answer k answer faults)
    (h' : Answer k answer' faults') : Answer k (answer.or answer') (faults ++ faults') := by
  induction h with
  | free => exact h'
  | refused errno faults hk => exact .refused errno _ hk
  | later hf _ ih => exact .later hf ih

/-- Operations of other kinds do not matter. -/
theorem ask {operation : Operation} (hop : operation ≠ .send) (h : Answer k answer faults) :
    Answer k answer (askFaults operation faults).2 := by
  induction h with
  | free => exact .free
  | @refused count errno faults hk =>
      have hne : ¬ (Operation.send = operation ∧ 0 < count) := fun h => hop h.1.symm
      rw [askFaults, if_neg hne]
      exact .refused errno _ hk
  | later hf hl ih =>
      rw [askFaults]
      split
      next hop' =>
        -- The fault that is used up is of another kind than the datagrams.
        split
        · exact .later (fun hs => absurd (hop'.1.symm.trans hs) hop) hl
        · exact .later (fun hs => absurd (hop'.1.symm.trans hs) hop) hl
      next => exact .later hf ih

/-- The next datagram has the fate foretold. -/
theorem ask_send (h : Answer k answer faults) : (askFaults .send faults).1 = answer := by
  induction h with
  | free => rfl
  | @refused count errno faults hk =>
      have hlive : Operation.send = .send ∧ 0 < count := ⟨rfl, Nat.zero_lt_of_lt hk⟩
      rw [askFaults, if_pos hlive]
      rfl
  | @later answer fault faults hf _ ih =>
      have hdead : ¬ (fault.operation = .send ∧ 0 < fault.count) :=
        fun h => Nat.ne_of_gt h.2 (hf h.1)
      rw [askFaults, if_neg hdead]
      exact ih

/-- After one datagram, that of the others is foretold still. -/
theorem after_send (h : Answer (k + 1) answer faults) :
    Answer k answer (askFaults .send faults).2 := by
  induction h with
  | free => exact .free
  | @refused count errno faults hk =>
      have hlive : Operation.send = .send ∧ 0 < count := ⟨rfl, Nat.zero_lt_of_lt hk⟩
      rw [askFaults, if_pos hlive]
      exact .refused errno faults (Nat.lt_sub_of_add_lt hk)
  | @later answer fault faults hf _ ih =>
      have hdead : ¬ (fault.operation = .send ∧ 0 < fault.count) :=
        fun h => Nat.ne_of_gt h.2 (hf h.1)
      rw [askFaults, if_neg hdead]
      exact .later hf ih

/-- As long as nothing stands in their way, datagrams do not change that. -/
theorem after_send_free (h : Answer k none faults) : Answer k none (askFaults .send faults).2 := by
  generalize ha : none = answer at h
  induction h with
  | free => exact .free
  | refused => cases ha
  | @later answer fault faults hf _ ih =>
      have hdead : ¬ (fault.operation = .send ∧ 0 < fault.count) :=
        fun h => Nat.ne_of_gt h.2 (hf h.1)
      rw [askFaults, if_neg hdead]
      exact .later hf (ih ha)

/-- A fault that refuses a single datagram is used up by the next one. -/
theorem after_refused (errno : Errno) (h : Answer (k + 1) answer faults) :
    Answer k answer (askFaults .send (faults ++ [⟨.send, errno, 0, 1⟩])).2 := by
  induction h with
  | free => exact .later (fun _ => rfl) .free
  | @refused count errno faults hk =>
      have hlive : Operation.send = .send ∧ 0 < count := ⟨rfl, Nat.zero_lt_of_lt hk⟩
      rw [List.cons_append, askFaults, if_pos hlive]
      exact .refused errno _ (Nat.lt_sub_of_add_lt hk)
  | @later answer fault faults hf _ ih =>
      have hdead : ¬ (fault.operation = .send ∧ 0 < fault.count) :=
        fun h => Nat.ne_of_gt h.2 (hf h.1)
      rw [List.cons_append, askFaults, if_neg hdead]
      exact .later hf ih

end Answer

/-! ## Receives -/

variable {faults : List Fault}

theorem letsReceive_ask (operation : Operation) (h : ∀ fault ∈ faults, fault.LetsReceive) :
    ∀ fault ∈ (askFaults operation faults).2, fault.LetsReceive := by
  induction faults with
  | nil => exact h
  | cons fault faults ih =>
      obtain ⟨hf, hfaults⟩ := List.forall_mem_cons.1 h
      rw [askFaults]
      split
      next hlive =>
        -- Only a fault with something left to fail is changed, and of those only some receives are.
        have hf' (skip count : Nat) : LetsReceive { fault with skip, count } := by
          unfold LetsReceive at hf ⊢
          split at hf
          next hop => simp_all
          next hop =>
            simp only [hop]
            exact .inr (hf.resolve_left (Nat.ne_of_gt hlive.2))
          next => trivial
        split
        · exact List.forall_mem_cons.2 ⟨hf' _ _, hfaults⟩
        · exact List.forall_mem_cons.2 ⟨hf' _ _, hfaults⟩
      next => exact List.forall_mem_cons.2 ⟨hf, ih hfaults⟩

theorem ask_setLimit (h : ∀ fault ∈ faults, fault.LetsReceive) :
    (askFaults .setLimit faults).1 = none := by
  induction faults with
  | nil => rfl
  | cons fault faults ih =>
      obtain ⟨hf, hfaults⟩ := List.forall_mem_cons.1 h
      have hdead : ¬ (fault.operation = .setLimit ∧ 0 < fault.count) := by
        rintro ⟨hop, hc⟩
        simp only [LetsReceive, hop] at hf
        omega
      rw [askFaults, if_neg hdead]
      exact ih hfaults

theorem ask_receive (h : ∀ fault ∈ faults, fault.LetsReceive) {errno : Errno}
    (hr : (askFaults .receive faults).1 = some errno) : errno.isNothingYet = true := by
  induction faults with
  | nil => cases hr
  | cons fault faults ih =>
      obtain ⟨hf, hfaults⟩ := List.forall_mem_cons.1 h
      rw [askFaults] at hr
      split at hr
      next hlive =>
        split at hr
        · cases hr
        · cases hr
          simp only [LetsReceive, hlive.1] at hf
          exact hf.resolve_left (Nat.ne_of_gt hlive.2)
      next => exact ih hfaults hr

end Fault

/-! ## Networks -/

namespace Network

/-- Receives begin, and the fate of the next datagram does not depend on how many of `k` others come
first. -/
structure Steadfast (answer : Option Errno) (k : Nat) (network : Network) : Prop where
  receives : ∀ fault ∈ network.faults, fault.LetsReceive
  sends : Fault.Answer k answer network.faults

namespace Steadfast

variable {answer : Option Errno} {k : Nat} {network : Network}

theorem mono {l : Nat} (hl : l ≤ k) (h : network.Steadfast answer k) : network.Steadfast answer l :=
  ⟨h.receives, h.sends.mono hl⟩

theorem congr {network' : Network} (hf : network'.faults = network.faults)
    (h : network.Steadfast answer k) : network'.Steadfast answer k :=
  ⟨hf ▸ h.receives, hf ▸ h.sends⟩

/-- A further fault that makes no difference between one datagram and the next. -/
theorem addFault {answer' : Option Errno} {fault : Fault} (h : network.Steadfast answer k)
    (hr : fault.LetsReceive) (hs : Fault.Answer k answer' [fault]) :
    Steadfast (answer.or answer') k { network with faults := network.faults ++ [fault] } where
  receives := by
    intro fault' hm
    rcases List.mem_append.1 hm with hm | hm
    · exact h.receives _ hm
    · exact List.mem_singleton.1 hm ▸ hr
  sends := h.sends.append hs

theorem ask {operation : Operation} (hop : operation ≠ .send) (h : network.Steadfast answer k) :
    Steadfast answer k { network with faults := (askFaults operation network.faults).2 } :=
  ⟨Fault.letsReceive_ask operation h.receives, h.sends.ask hop⟩

/-- Receives are made until one of them waits. -/
theorem makeAll {faults : List Fault} (hr : ∀ fault ∈ faults, fault.LetsReceive)
    (hs : Fault.Answer k answer faults) : ∃ faults', Attempt.makeAll faults = (.ok (), faults') ∧
      (∀ fault ∈ faults', fault.LetsReceive) ∧ Fault.Answer k answer faults' := by
  -- One attempt: it does not fail for good, and the faults that are left are as harmless.
  have made : ∀ {faults : List Fault}, (∀ fault ∈ faults, fault.LetsReceive) →
      Fault.Answer k answer faults → (∀ errno, (Attempt.make faults).1 ≠ .unlimited errno) ∧
      (∀ errno, (Attempt.make faults).1 = .fails errno → errno.isNothingYet = true) ∧
      (∀ fault ∈ (Attempt.make faults).2, fault.LetsReceive) ∧
      Fault.Answer k answer (Attempt.make faults).2 := by
    intro faults hr hs
    have hlimit := Fault.ask_setLimit hr
    have hr' := Fault.letsReceive_ask .setLimit hr
    have hne : Operation.setLimit ≠ .send := nofun
    have hs' := hs.ask hne
    unfold Attempt.make
    generalize askFaults .setLimit faults = asked at hlimit hr' hs' ⊢
    obtain ⟨_, faults₁⟩ := asked
    cases hlimit
    have hnothing := @Fault.ask_receive faults₁ hr'
    have hr'' := Fault.letsReceive_ask .receive hr'
    have hne : Operation.receive ≠ .send := nofun
    have hs'' := hs'.ask hne
    dsimp only at hnothing hr'' hs'' ⊢
    generalize askFaults .receive faults₁ = asked at hnothing hr'' hs'' ⊢
    obtain ⟨errno?, faults₂⟩ := asked
    cases errno? with
    | none => exact ⟨nofun, nofun, hr'', hs''⟩
    | some errno =>
        refine ⟨nofun, ?_, hr'', hs''⟩
        rintro _ ⟨⟩
        exact hnothing rfl
  induction faults using Attempt.makeAll.induct with
  | case1 faults rest hm =>
      obtain ⟨-, -, hr', hs'⟩ := made hr hs
      rw [hm] at hr' hs'
      refine ⟨rest, ?_, hr', hs'⟩
      rw [Attempt.makeAll]
      split <;> simp_all
  | case2 faults errno rest hm => exact absurd (by rw [hm]) ((made hr hs).1 errno)
  | case3 faults errno rest hm _ hn ih =>
      obtain ⟨-, -, hr', hs'⟩ := made hr hs
      rw [hm] at hr' hs'
      rw [Attempt.makeAll]
      split <;> simp_all
  | case4 faults errno rest hm _ hn =>
      exact absurd ((made hr hs).2.1 errno (by rw [hm])) hn

theorem beginReceive (h : network.Steadfast answer k) : ∃ network',
    Network.beginReceive network = .ok () network' ∧ network'.Steadfast answer k := by
  obtain ⟨faults, hm, hr, hs⟩ := makeAll h.receives h.sends
  rw [beginReceive_eq, hm]
  exact ⟨_, rfl, hr, hs⟩

end Steadfast

/-- An operation uses up faults of its own kind only. -/
theorem perform_eq (operation : Operation) (context : Bytes) (network : Network) :
    perform operation context network = match askFaults operation network.faults with
    | (none, faults) => .ok () { network with faults }
    | (some errno, faults) =>
      .error (.other (context ++ ascii ": " ++ errno.message)) { network with faults } := by
  have hask : ask operation network = .ok (askFaults operation network.faults).1
    { network with faults := (askFaults operation network.faults).2 } := rfl
  refine (bind_of_ok hask).trans ?_
  obtain ⟨errno?, faults⟩ := askFaults operation network.faults
  cases errno? <;> rfl

theorem send_eq (bytes : Bytes) (network : Network) : send bytes network =
    match askFaults .send network.faults with
    | (none, faults) =>
      if maxDatagram < bytes.length then
        .error (.other (ascii "Failed to send data: " ++ Errno.emsgsize.message))
          { network with faults }
      else .ok () { network with faults }
    | (some errno, faults) =>
      .error (.other (ascii "Failed to send data" ++ ascii ": " ++ errno.message))
        { network with faults } := by
  have hperform := perform_eq .send (ascii "Failed to send data") network
  unfold send
  generalize askFaults .send network.faults = asked at hperform ⊢
  obtain ⟨errno?, faults⟩ := asked
  cases errno? with
  | none =>
      refine (bind_of_ok hperform).trans ?_
      by_cases hl : maxDatagram < bytes.length
      · rw [if_pos hl]
        exact (if_pos hl).symm
      · rw [if_neg hl]
        exact (if_neg hl).symm
  | some errno => exact bind_of_error hperform

/-- The network after a datagram, whether it has been taken or not. -/
def afterSend (bytes : Bytes) (network : Network) : Network :=
  match send bytes network with
  | .ok _ network' => network'
  | .error _ network' => network'

theorem afterSend_eq (bytes : Bytes) (network : Network) : afterSend bytes network =
    { network with faults := (askFaults .send network.faults).2 } := by
  unfold afterSend
  rw [send_eq]
  obtain ⟨errno?, faults⟩ := askFaults .send network.faults
  cases errno? with
  | none =>
      by_cases hl : maxDatagram < bytes.length
      · simp only [if_pos hl]
      · simp only [if_neg hl]
  | some errno => rfl

namespace Steadfast

variable {answer : Option Errno} {k : Nat} {network : Network}

/-- One of the others has come. -/
theorem afterSend (bytes : Bytes) (h : network.Steadfast answer (k + 1)) :
    (network.afterSend bytes).Steadfast answer k := by
  rw [afterSend_eq]
  exact ⟨Fault.letsReceive_ask .send h.receives, h.sends.after_send⟩

/-- One of the others has come, and it alone has been refused. -/
theorem afterSend_refused (bytes : Bytes) (errno : Errno) (h : network.Steadfast answer (k + 1)) :
    (Network.afterSend bytes { network with
      faults := network.faults ++ [⟨.send, errno, 0, 1⟩] }).Steadfast answer k := by
  rw [afterSend_eq]
  refine ⟨Fault.letsReceive_ask .send ?_, h.sends.after_refused errno⟩
  intro fault hm
  rcases List.mem_append.1 hm with hm | hm
  · exact h.receives _ hm
  · rw [List.mem_singleton.1 hm]
    exact trivial

end Steadfast

theorem faults_perform (operation : Operation) (context : Bytes) (network : Network) :
    match perform operation context network with
    | .ok _ network' => network'.faults = (askFaults operation network.faults).2
    | .error _ network' => network'.faults = (askFaults operation network.faults).2 := by
  rw [perform_eq]
  obtain ⟨errno?, faults⟩ := askFaults operation network.faults
  cases errno? <;> rfl

theorem faults_bindSocket {addr : Address} {socket : Socket} {network network' : Network}
    (h : bindSocket addr network = .ok socket network') :
    network'.faults = (askFaults .bind network.faults).2 := by
  let context := ascii "Failed to bind socket to " ++ addr.text
  have hp := faults_perform .bind context network
  unfold bindSocket at h
  cases hb : perform .bind context network with
  | error f bound =>
      have hclosed : (tryCatch (perform .bind context) fun f => do close; throw f : NetworkM Unit)
        network = .error f { bound with closed := bound.closed + 1 } := tryCatch_of_error hb
      cases (bind_of_error hclosed).symm.trans h
  | ok u bound =>
      rw [hb] at hp
      have hbound : (tryCatch (perform .bind context) fun f => do close; throw f : NetworkM Unit)
        network = .ok u bound := tryCatch_of_ok hb
      have h := (bind_of_ok hbound).symm.trans h
      split at h
      · cases h
        exact hp
      · cases h
        exact hp

/-- Making a socket does not change what becomes of datagrams. -/
theorem Steadfast.openSocket {answer : Option Errno} {k : Nat} {addr : Address} {socket : Socket}
    {network network' : Network} (h : network.Steadfast answer k)
    (ho : Network.openSocket addr network = .ok socket network') : network'.Steadfast answer k := by
  rw [openSocket_eq] at ho
  have hmake := faults_perform .makeSocket (ascii "Failed to open socket") network
  cases hm : perform .makeSocket (ascii "Failed to open socket") network with
  | error f made =>
      rw [hm] at ho
      cases ho
  | ok u made =>
      rw [hm] at ho hmake
      have hbind : bindSocket addr { made with opened := made.opened + 1 } = .ok socket network' := ho
      have hbind := faults_bindSocket hbind
      have hne : Operation.makeSocket ≠ .send := nofun
      have hmade : made.Steadfast answer k := (h.ask hne).congr hmake
      have hne : Operation.bind ≠ .send := nofun
      exact (hmade.ask hne).congr hbind

/-- Two networks that answer in the same way. -/
def Level (k : Nat) (n m : Network) : Prop := ∃ answer, n.Steadfast answer k ∧ m.Steadfast answer k

theorem Level.mono {k l : Nat} {n m : Network} (hl : l ≤ k) (h : Level k n m) : Level l n m :=
  h.imp fun _ h => ⟨h.1.mono hl, h.2.mono hl⟩

/-- **Networks that answer in the same way are indistinct.** -/
theorem level_indistinct (k : Nat) : Indistinct (Level k) where
  send := by
    rintro bytes n m ⟨answer, hn, hm⟩
    rw [send_eq, send_eq]
    have han := hn.sends.ask_send
    have ham := hm.sends.ask_send
    have hrn := Fault.letsReceive_ask .send hn.receives
    have hrm := Fault.letsReceive_ask .send hm.receives
    cases answer with
    | none =>
        have hsn := hn.sends.after_send_free
        have hsm := hm.sends.after_send_free
        generalize askFaults .send n.faults = asked at *
        generalize askFaults .send m.faults = asked' at *
        obtain ⟨_, faults⟩ := asked
        obtain ⟨_, faults'⟩ := asked'
        cases han
        cases ham
        dsimp only
        split
        · exact .inr ⟨_, _, _, rfl, rfl⟩
        · exact .inl ⟨_, _, rfl, rfl, none, ⟨hrn, hsn⟩, hrm, hsm⟩
    | some errno =>
        generalize askFaults .send n.faults = asked at *
        generalize askFaults .send m.faults = asked' at *
        obtain ⟨_, faults⟩ := asked
        obtain ⟨_, faults'⟩ := asked'
        cases han
        cases ham
        exact .inr ⟨_, _, _, rfl, rfl⟩
  beginReceive := by
    rintro n m ⟨answer, hn, hm⟩
    obtain ⟨n', hn', hsn⟩ := hn.beginReceive
    obtain ⟨m', hm', hsm⟩ := hm.beginReceive
    exact .inl ⟨n', m', hn', hm', answer, hsn, hsm⟩

end Network

end Tftp
