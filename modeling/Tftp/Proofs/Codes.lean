import Tftp.Proofs.Reporting
import Tftp.Proofs.RoundTrip

/-!
# Failures that can be reported

The report about a failure can be read by the client if it has a code that the protocol defines, and
a text without a NUL. The text never has one. The code is one of the server's own, unless the storage
has chosen it; a storage is `Coded` if it chooses only codes that the protocol defines. A scripted
storage is, if its script is, and so is a directory.
-/

namespace Tftp

/-! ## Codes -/

/-- A failure has one of the codes that the protocol defines, if it has any. -/
def Failure.Coded (f : Failure) : Prop := ∀ r, f = .transfer r ∨ f = .peer r → r.code.value ≤ 8

/-- A storage sends nothing to anybody, and it fails with the codes that the protocol defines. -/
structure Storage.Coded (S : Storage) : Prop where
  silent : ∀ {events}, S.Reports events → ∀ e ∈ events, e.isOutgoing = false
  reading : ∀ {peer filename state f},
    (S.openForReading peer filename state).result = .error f → f.Coded
  writing : ∀ {peer filename declared state f},
    (S.openForWriting peer filename declared state).result = .error f → f.Coded
  read : ∀ {n file f}, (S.read n file).result = .error f → f.Coded
  call : ∀ {call : Storage.Call} {file : S.State × S.Writer} {f},
    (call.effect file).result = .error f → f.Coded

theorem Errno.code_le (e : Errno) : e.code.value ≤ 8 := by
  unfold Errno.code
  repeat' split
  all_goals decide

namespace Failure

theorem coded_other (message : Bytes) : (other message).Coded := by
  rintro r (h | h) <;> cases h

theorem coded_transfer {r : Report} (h : r.code.value ≤ 8) : (transfer r).Coded := by
  rintro r' (h' | h') <;> cases h'
  exact h

/-- What is reported about a failure has a code as well. -/
theorem Coded.report {f : Failure} (h : f.Coded) : (transfer f.report).Coded := by
  have undefined : ErrorCode.notDefined.value ≤ 8 := by decide
  apply coded_transfer
  cases f with
  | transfer r => exact h r (.inl rfl)
  | peer r => exact h r (.inr rfl)
  | system errno category _ | fileSystem errno category _ _ =>
      cases category with
      | stream => exact undefined
      | _ => exact errno.code_le
  | _ => exact undefined

end Failure

theorem Scripted.opened_eq_error {script : Scripted} {α : Type} {event : Event} {file : α}
    {state : Unit} {f : Failure} (h : (script.opened event file state).result = .error f) :
    script.openFailure = some f := by
  unfold opened at h
  dsimp only at h
  split at h
  next failure hf =>
    rw [hf, Except.error.inj h]
  next => cases h

/-- A scripted storage has codes, if those with which it is told to fail are some. -/
theorem Scripted.coded {script : Scripted} (hf : script.failure.Coded)
    (ho : ∀ f ∈ script.openFailure, f.Coded) : script.storage.Coded where
  silent := silent
  reading := by
    intro peer filename state f h
    exact ho f (opened_eq_error h)
  writing := by
    intro peer filename declared state f h
    exact ho f (opened_eq_error h)
  read := by
    intro n file f h
    have h : (script.read n file).result = .error f := h
    rcases script.read_answers n file with ha | ⟨_, _, ha⟩ <;> rw [ha] at h <;> cases h
    exact hf
  call := by
    intro call file f h
    cases call with
    | write bytes =>
        have h : (script.write bytes file).result = .error f := h
        rcases script.write_answers bytes file with ha | ⟨_, ha⟩ <;> rw [ha] at h <;> cases h
        exact hf
    | finish =>
        have h : (script.finish file).result = .error f := h
        rcases script.finish_answers file with ⟨ha, -⟩ | ha | ha <;> rw [ha] at h <;> cases h
        exact hf
    | abort => cases h

theorem FileWriter.outcome_coded {state : FileTree × FileWriter} {f : Failure}
    (h : (outcome state).result = .error f) : f.Coded := by
  rcases outcome_answers state with ha | ha <;> rw [ha] at h <;> cases h
  exact Failure.coded_transfer (by decide)

theorem eq_error_of_map {ε α β : Type} {g : α → β} {x : Except ε α} {e : ε}
    (h : x.map g = .error e) : x = .error e := by
  cases x with
  | ok a => cases h
  | error e' => exact congrArg _ (Except.error.inj h)

/-- A directory fails with the codes that the protocol defines. -/
theorem Directory.coded (directory : Directory) : directory.storage.Coded where
  silent := silent
  reading := by
    intro peer filename disk f h
    have h : (directory.openForReading peer filename disk).result = .error f :=
      eq_error_of_map h
    have codes : ∀ r ∈ [Report.readingNotAllowed, .accessViolation, .fileNotFound],
        r.code.value ≤ 8 := by decide
    rcases directory.openForReading_answers peer filename disk with
      ⟨r, hr, ha⟩ | ⟨_, _, -, -, ha⟩ <;> rw [ha] at h <;> cases h
    exact Failure.coded_transfer (codes r hr)
  writing := by
    intro peer filename declared disk f h
    have h : (directory.openForWriting peer filename declared disk).result = .error f :=
      eq_error_of_map h
    have codes : ∀ r ∈ [Report.writingNotAllowed, .accessViolation, .fileExists, .diskFull],
        r.code.value ≤ 8 := by decide
    rcases directory.openForWriting_answers peer filename declared disk with
      ⟨r, hr, ha⟩ | ⟨_, -, -, ha⟩ <;> rw [ha] at h
    · cases h
      exact Failure.coded_transfer (codes r hr)
    · unfold Disk.onTree FileWriter.make at h
      dsimp only at h
      split at h <;> cases h
      exact Failure.coded_transfer (by decide)
  read := by
    intro n file f h
    have h : (FileReader.read n (file.1.tree, file.2)).result = .error f := h
    rcases FileReader.read_answers n (file.1.tree, file.2) with ⟨_, ha⟩ | ⟨_, _, ha⟩ <;>
      rw [ha] at h <;> cases h
    exact Failure.coded_other _
  call := by
    intro call file f h
    cases call with
    | write bytes => exact FileWriter.outcome_coded h
    | finish => exact FileWriter.outcome_coded h
    | abort =>
        have h : (FileWriter.abort (file.1.tree, file.2)).result = .error f := h
        rcases FileWriter.abort_answers (file.1.tree, file.2) with ⟨_, -, ha⟩ | ⟨-, ha⟩ <;>
          rw [ha] at h <;> cases h

/-- A negotiation fails with a code that the protocol defines. -/
theorem negotiate_code {requested : Options} {config : Config} {direction : Direction}
    {fileSize : Option UInt64} {f : Failure}
    (h : negotiate requested config direction fileSize = .error f) :
    ∃ r, f = .transfer r ∧ r.code.value ≤ 8 := by
  unfold negotiate at h
  simp only [bind, Except.bind] at h
  split at h
  next f' hs =>
    cases h
    unfold Terms.withBlockSize at hs
    split at hs
    · split at hs <;> cases hs
      exact ⟨_, rfl, show ErrorCode.invalidOptions.value ≤ 8 by decide⟩
    · cases hs
  next sized _ =>
    split at h
    next f' ht =>
      cases h
      unfold Terms.withTimeout at ht
      split at ht
      · split at ht <;> cases ht
        exact ⟨_, rfl, by decide⟩
      · cases ht
    next => cases h

/-! ## Texts -/

/-- The bytes of a text are those of its characters. A literal is taken apart by unification here,
which is faster than decoding it. -/
theorem not_mem_ascii {chars : List Char} (h : (chars.all fun c => c.toNat % 256 != 0) = true) :
    0 ∉ ascii (String.ofList chars) := by
  rw [ascii, String.toList_ofList]
  intro hm
  obtain ⟨c, hc, he⟩ := List.mem_map.1 hm
  have hne := List.all_eq_true.1 h c hc
  have hz : c.toNat % 256 = 0 := by simpa using congrArg UInt8.toNat he
  simp [hz] at hne

namespace Errno

theorem not_mem_table : ∀ entry ∈ table, 0 ∉ ascii entry.2.2 := by
  unfold table
  repeat refine List.forall_mem_cons.2 ⟨not_mem_ascii rfl, ?_⟩
  exact List.forall_mem_nil _

theorem not_mem_message (e : Errno) : 0 ∉ e.message := by
  unfold message
  split
  · decide
  · split
    next text hf => exact not_mem_table _ (List.mem_of_find?_eq_some hf)
    next =>
      rw [List.mem_append, not_or]
      refine ⟨by decide, ?_⟩
      have digits (n : Nat) : 0 ∉ Decimal.print n :=
        Decimal.not_mem_of_isNumber (Decimal.isNumber_print n)
      unfold Decimal.printInt
      split
      · rw [List.mem_cons, not_or]
        exact ⟨by decide, digits _⟩
      · exact digits _

end Errno

namespace Failure

/-- The wording of a failure ends before its first NUL. -/
theorem not_mem_message (f : Failure) : 0 ∉ f.message := by
  have unknown : 0 ∉ ascii "Unknown error" := by decide
  cases f with
  | system errno category context? =>
      cases context? with
      | none =>
          cases category with
          | stream => exact unknown
          | _ => exact errno.not_mem_message
      | some context => exact not_mem_beforeNul _
  | outOfMemory => decide
  | _ => exact not_mem_beforeNul _

theorem Coded.wellFormed_packet {f : Failure} (h : f.Coded) : f.packet.WellFormed := by
  have undefined : ErrorCode.notDefined.value ≤ 8 := by decide
  refine ⟨?_, f.not_mem_message⟩
  cases f with
  | transfer r => exact h r (.inl rfl)
  | _ => exact undefined

end Failure

end Tftp
