import Tftp.Failure
import Tftp.Proofs.OptionList
import Tftp.Proofs.Wire

/-!
# The grammar of datagrams

A datagram is the opcode of its packet and a body. `Packet.Body` says what the body of a packet may
be; it leaves open what the parser is tolerant of: letter case, leading zeros, the order of options,
options that are not negotiated, unknown error codes, and bytes after the message of an ERROR.

    RRQ, WRQ    filename 0 mode 0 options
    DATA        block payload
    ACK         block
    ERROR       code message 0 anything
    OACK        options

The parser accepts exactly the datagrams of this form, and it reads them as the packets that they
are datagrams of (`Packet.parse_word_eq_ok_iff`). If it refuses one, it says whether that is because
of an option (`Packet.blamesOption_iff`).
-/

namespace Tftp

/-! ## Modes -/

namespace Mode

theorem ofName?_eq_some_iff {s : Bytes} {mode : Mode} :
    ofName? s = some mode ↔ mode ≠ .other ∧ lower s = mode.name := by
  have h₁ : octet.name ≠ netascii.name := by decide
  have h₂ : mail.name ≠ netascii.name := by decide
  have h₃ : mail.name ≠ octet.name := by decide
  unfold ofName?
  cases mode <;> grind

/-- The name of a mode has no NUL in it, whatever its letter case. -/
theorem not_mem_of_lower {s : Bytes} {mode : Mode} (h : lower s = mode.name) : 0 ∉ s := by
  intro h0
  have hm : lowerByte 0 ∈ lower s := List.mem_map_of_mem h0
  rw [h] at hm
  revert hm
  cases mode <;> decide

end Mode

/-! ## Words -/

theorem word_wordOf (high low : UInt8) : word (wordOf high low) = [high, low] := by
  have hh := high.toNat_lt
  have hl := low.toNat_lt
  have hw : (wordOf high low).toNat = high.toNat * 256 + low.toNat := by
    rw [wordOf, UInt16.toNat_ofNat']
    omega
  rw [word, hw, show (high.toNat * 256 + low.toNat) / 256 = high.toNat by omega,
    show (high.toNat * 256 + low.toNat) % 256 = low.toNat by omega, UInt8.ofNat_toNat,
    UInt8.ofNat_toNat]

theorem word_append_inj {a b : UInt16} {s t : Bytes} :
    word a ++ s = word b ++ t ↔ a = b ∧ s = t := by
  constructor
  · intro h
    obtain ⟨hw, hs⟩ := List.append_inj h rfl
    obtain ⟨hh, hl⟩ := List.cons.inj hw
    refine ⟨?_, hs⟩
    rw [← wordOf_word a, ← wordOf_word b, hh, (List.cons.inj hl).1]
  · rintro ⟨rfl, rfl⟩
    rfl

/-- Two bytes or more are a word and what follows it. -/
theorem exists_word_of_two_le {s : Bytes} (h : 2 ≤ s.length) : ∃ w t, s = word w ++ t :=
  match s, h with
  | high :: low :: t, _ => ⟨wordOf high low, t, by rw [word_wordOf]; rfl⟩

namespace Packet

/-! ## Bodies -/

/-- How a request begins: the name of a file and the name of a mode. -/
structure Heading (filename : Bytes) (mode : Mode) (s : Bytes) : Prop where
  name_ne_nil : filename ≠ []
  name_ends : 0 ∉ filename
  mode_ne_other : mode ≠ .other
  eq : ∃ modeName, lower modeName = mode.name ∧ s = terminated filename ++ terminated modeName

/-- What follows the opcode in a datagram of a packet. -/
inductive Body : Packet → Bytes → Prop
  | request (direction : Direction) {filename heading s : Bytes} {mode : Mode}
      {pairs : List (Bytes × Bytes)} {options : Options} : Heading filename mode heading →
      OptionList s pairs → options.StatedBy pairs →
      Body (.request direction { filename, mode, options }) (heading ++ s)
  | data (block : UInt16) (payload : Bytes) : Body (.data block payload) (word block ++ payload)
  | ack (block : UInt16) : Body (.ack block) (word block)
  | error (code : UInt16) {message : Bytes} (rest : Bytes) : 0 ∉ message →
      Body (.error (if code ≤ 8 then ⟨code⟩ else .notDefined) message)
        (word code ++ (terminated message ++ rest))
  | oack {s : Bytes} {pairs : List (Bytes × Bytes)} {options : Options} : OptionList s pairs →
      options.StatedBy pairs → Body (.oack options) s

/-- A datagram of a request or an OACK that is as it should be up to an option. -/
inductive BadOptions : Bytes → Prop
  | request {w : UInt16} {filename heading s : Bytes} {mode : Mode} : w = 1 ∨ w = 2 →
      Heading filename mode heading → BadOption s → BadOptions (word w ++ (heading ++ s))
  | oack {s : Bytes} : BadOption s → BadOptions (word 6 ++ s)

/-! ## Reading requests -/

/-- The direction of a request by its opcode. -/
def directionOf (w : UInt16) : Direction := if w = 1 then .read else .write

theorem parseRequest_heading {filename heading : Bytes} {mode : Mode}
    (h : Heading filename mode heading) (w : UInt16) (s : Bytes) :
    parseRequest (word w ++ (heading ++ s)) = (Options.parse {} s).map fun options =>
      .request (directionOf w) { filename, mode, options } := by
  obtain ⟨hn, h0, hm, modeName, hmode, rfl⟩ := h
  have h₁ : splitNul (terminated filename ++ terminated modeName ++ s) =
      some (filename, terminated modeName ++ s) := by
    rw [List.append_assoc]
    exact splitNul_terminated h0 _
  have h₂ := splitNul_terminated (Mode.not_mem_of_lower hmode) s
  have hl : 2 ≤ (terminated filename ++ terminated modeName ++ s).length := by
    simp only [terminated, List.length_append, List.length_singleton]
    omega
  generalize terminated filename ++ terminated modeName ++ s = t at h₁ hl ⊢
  obtain ⟨start, t, rfl⟩ := exists_word_of_two_le hl
  change splitNul (_ :: _ :: t) = _ at h₁
  show parseRequest (_ :: _ :: _ :: _ :: t) = _
  simp only [parseRequest, h₁, hn, if_false, h₂, Mode.ofName?_eq_some_iff.2 ⟨hm, hmode⟩,
    wordOf_word]
  rfl

/-- A request begins as it should, or this is the fault that is reported. -/
theorem parseRequest_cases (w : UInt16) (s : Bytes) :
    (∃ filename mode heading t, Heading filename mode heading ∧ s = heading ++ t) ∨
    ∃ m, parseRequest (word w ++ s) = .error m ∧ m.isOption = false := by
  match s with
  | [] => exact .inr ⟨.shortRequest, rfl, rfl⟩
  | [_] => exact .inr ⟨.shortRequest, rfl, rfl⟩
  | a :: b :: s =>
    show _ ∨ ∃ m, parseRequest (_ :: _ :: a :: b :: s) = _ ∧ _
    cases h₁ : splitNul (a :: b :: s) with
    | none => exact .inr ⟨.badFilename, by simp only [parseRequest, h₁], rfl⟩
    | some split =>
      obtain ⟨filename, t⟩ := split
      by_cases hn : filename = []
      · exact .inr ⟨.badFilename, by simp only [parseRequest, h₁, hn, if_true], rfl⟩
      cases h₂ : splitNul t with
      | none => exact .inr ⟨.badMode, by simp only [parseRequest, h₁, hn, if_false, h₂], rfl⟩
      | some split =>
        obtain ⟨modeName, u⟩ := split
        cases h₃ : Mode.ofName? modeName with
        | none => exact .inr ⟨.badMode, by simp only [parseRequest, h₁, hn, if_false, h₂, h₃], rfl⟩
        | some mode =>
          obtain ⟨h0, hs⟩ := eq_terminated_of_splitNul h₁
          obtain ⟨-, rfl⟩ := eq_terminated_of_splitNul h₂
          obtain ⟨hm, hmode⟩ := Mode.ofName?_eq_some_iff.1 h₃
          refine .inl ⟨filename, mode, terminated filename ++ terminated modeName, u,
            ⟨hn, h0, hm, modeName, hmode, rfl⟩, ?_⟩
          rw [hs, List.append_assoc]

theorem parseRequest_eq_ok_iff {w : UInt16} {s : Bytes} {p : Packet} :
    parseRequest (word w ++ s) = .ok p ↔
      ∃ what, p = .request (directionOf w) what ∧ Body p s := by
  constructor
  · intro h
    rcases parseRequest_cases w s with ⟨filename, mode, heading, t, hh, rfl⟩ | ⟨m, hm, -⟩
    · rw [parseRequest_heading hh] at h
      cases ho : Options.parse {} t with
      | error m =>
        rw [ho] at h
        cases h
      | ok options =>
        rw [ho] at h
        cases h
        obtain ⟨pairs, hl, stated⟩ := Options.parse_eq_ok_iff.1 ho
        exact ⟨_, rfl, .request _ hh hl stated⟩
    · rw [hm] at h
      cases h
  · rintro ⟨what, rfl, hb⟩
    cases hb with
    | request direction hh hl stated =>
      rw [parseRequest_heading hh, Options.parse_eq_ok_iff.2 ⟨_, hl, stated⟩]
      rfl

theorem parseRequest_blamesOption_iff {w : UInt16} {s : Bytes} :
    BlamesOption (parseRequest (word w ++ s)) ↔ ∃ filename mode heading t,
      Heading filename mode heading ∧ BadOption t ∧ s = heading ++ t := by
  constructor
  · intro h
    rcases parseRequest_cases w s with ⟨filename, mode, heading, t, hh, rfl⟩ | ⟨m, hm, ho⟩
    · rw [parseRequest_heading hh, blamesOption_map_iff, Options.blamesOption_iff] at h
      exact ⟨filename, mode, heading, t, hh, h, rfl⟩
    · simp [hm, ho] at h
  · rintro ⟨filename, mode, heading, t, hh, hb, rfl⟩
    rw [parseRequest_heading hh, blamesOption_map_iff]
    exact Options.blamesOption_iff.2 hb

/-! ## Reading the other packets -/

theorem parseData_eq_ok_iff {w : UInt16} {s : Bytes} {p : Packet} :
    parseData (word w ++ s) = .ok p ↔ ∃ block payload, p = .data block payload ∧ Body p s := by
  constructor
  · intro h
    match s with
    | [] => cases h
    | [_] => cases h
    | high :: low :: payload =>
      cases h
      refine ⟨_, _, rfl, ?_⟩
      have hb := Body.data (wordOf high low) payload
      rwa [word_wordOf] at hb
  · rintro ⟨block, payload, rfl, ⟨⟩⟩
    show Except.ok (data (wordOf _ _) payload) = _
    rw [wordOf_word]

theorem parseAck_eq_ok_iff {w : UInt16} {s : Bytes} {p : Packet} :
    parseAck (word w ++ s) = .ok p ↔ ∃ block, p = .ack block ∧ Body p s := by
  constructor
  · intro h
    match s with
    | [] => cases h
    | [_] => cases h
    | [high, low] =>
      cases h
      refine ⟨_, rfl, ?_⟩
      have hb := Body.ack (wordOf high low)
      rwa [word_wordOf] at hb
    | _ :: _ :: _ :: _ => cases h
  · rintro ⟨block, rfl, ⟨⟩⟩
    show Except.ok (ack (wordOf _ _)) = _
    rw [wordOf_word]

theorem parseError_word (w code : UInt16) {s : Bytes} (h : s ≠ []) :
    parseError (word w ++ (word code ++ s)) = match splitNul s with
      | none => .error .badErrorMessage
      | some (message, _) =>
        .ok (.error (if code ≤ 8 then ⟨code⟩ else .notDefined) message) := by
  obtain ⟨a, s, rfl⟩ := List.exists_cons_of_ne_nil h
  show parseError (_ :: _ :: _ :: _ :: a :: s) = _
  cases hs : splitNul (a :: s) <;> simp only [parseError, hs, wordOf_word]

theorem parseError_eq_ok_iff {w : UInt16} {s : Bytes} {p : Packet} :
    parseError (word w ++ s) = .ok p ↔ ∃ code message, p = .error code message ∧ Body p s := by
  constructor
  · intro h
    rcases s with _ | ⟨high, _ | ⟨low, _ | ⟨a, t⟩⟩⟩
    · cases h
    · cases h
    · cases h
    · have hw : high :: low :: a :: t = word (wordOf high low) ++ a :: t := by
        rw [word_wordOf]
        rfl
      rw [hw] at h ⊢
      rw [parseError_word w _ (List.cons_ne_nil a t)] at h
      cases hs : splitNul (a :: t) with
      | none =>
        rw [hs] at h
        cases h
      | some split =>
        obtain ⟨message, rest⟩ := split
        rw [hs] at h
        cases h
        obtain ⟨h0, ht⟩ := eq_terminated_of_splitNul hs
        rw [ht]
        exact ⟨_, _, rfl, .error _ rest h0⟩
  · rintro ⟨code, message, rfl, hb⟩
    cases hb with
    | error code rest h0 =>
      rw [parseError_word w code (by simp [terminated]), splitNul_terminated h0 rest]

theorem parseOack_eq_ok_iff {w : UInt16} {s : Bytes} {p : Packet} :
    parseOack (word w ++ s) = .ok p ↔ ∃ options, p = .oack options ∧ Body p s := by
  show (Options.parse {} s).map oack = _ ↔ _
  constructor
  · intro h
    cases ho : Options.parse {} s with
    | error m =>
      rw [ho] at h
      cases h
    | ok options =>
      rw [ho] at h
      cases h
      obtain ⟨pairs, hl, stated⟩ := Options.parse_eq_ok_iff.1 ho
      exact ⟨options, rfl, .oack hl stated⟩
  · rintro ⟨options, rfl, hb⟩
    cases hb with
    | oack hl stated =>
      rw [Options.parse_eq_ok_iff.2 ⟨_, hl, stated⟩]
      rfl

/-! ## Reading datagrams -/

/-- **A datagram is read as a packet exactly if it is one of this packet.** -/
theorem parse_word_eq_ok_iff {w : UInt16} {s : Bytes} {p : Packet} :
    parse (word w ++ s) = .ok p ↔ w = p.opcode ∧ Body p s := by
  have opcode_eq : ∀ n : UInt16, w.toNat = n.toNat → w = n := fun n => UInt16.toNat_inj.1
  rw [parse_word]
  split
  next hw =>
    obtain rfl : w = 1 := opcode_eq 1 hw
    rw [parseRequest_eq_ok_iff]
    rcases p with ⟨_ | _, _⟩ | _ | _ | _ | _ <;> simp [opcode, directionOf]
  next hw =>
    obtain rfl : w = 2 := opcode_eq 2 hw
    rw [parseRequest_eq_ok_iff]
    rcases p with ⟨_ | _, _⟩ | _ | _ | _ | _ <;> simp [opcode, directionOf]
  next hw =>
    obtain rfl : w = 3 := opcode_eq 3 hw
    rw [parseData_eq_ok_iff]
    rcases p with ⟨_ | _, _⟩ | _ | _ | _ | _ <;> simp [opcode]
  next hw =>
    obtain rfl : w = 4 := opcode_eq 4 hw
    rw [parseAck_eq_ok_iff]
    rcases p with ⟨_ | _, _⟩ | _ | _ | _ | _ <;> simp [opcode]
  next hw =>
    obtain rfl : w = 5 := opcode_eq 5 hw
    rw [parseError_eq_ok_iff]
    rcases p with ⟨_ | _, _⟩ | _ | _ | _ | _ <;> simp [opcode]
  next hw =>
    obtain rfl : w = 6 := opcode_eq 6 hw
    rw [parseOack_eq_ok_iff]
    rcases p with ⟨_ | _, _⟩ | _ | _ | _ | _ <;> simp [opcode]
  next h₁ h₂ h₃ h₄ h₅ h₆ =>
    have hw : w ≠ p.opcode := by
      rintro rfl
      rcases p with ⟨_ | _, _⟩ | _ | _ | _ | _
      · exact h₁ rfl
      · exact h₂ rfl
      · exact h₃ rfl
      · exact h₄ rfl
      · exact h₅ rfl
      · exact h₆ rfl
    simp [hw]

theorem badOptions_word_iff {w : UInt16} {s : Bytes} : BadOptions (word w ++ s) ↔
    ((w = 1 ∨ w = 2) ∧
      ∃ filename mode heading t, Heading filename mode heading ∧ BadOption t ∧ s = heading ++ t) ∨
    (w = 6 ∧ BadOption s) := by
  constructor
  · generalize hb : word w ++ s = b
    intro h
    cases h with
    | request hw hh hbad =>
      obtain ⟨rfl, rfl⟩ := word_append_inj.1 hb
      exact .inl ⟨hw, _, _, _, _, hh, hbad, rfl⟩
    | oack hbad =>
      obtain ⟨rfl, rfl⟩ := word_append_inj.1 hb
      exact .inr ⟨rfl, hbad⟩
  · rintro (⟨hw, _, _, _, _, hh, hbad, rfl⟩ | ⟨rfl, hbad⟩)
    · exact .request hw hh hbad
    · exact .oack hbad

theorem not_blamesOption_parseData (s : Bytes) : ¬ BlamesOption (parseData s) := by
  unfold parseData
  split <;> simp [Malformed.isOption]

theorem not_blamesOption_parseAck (s : Bytes) : ¬ BlamesOption (parseAck s) := by
  unfold parseAck
  split <;> simp [Malformed.isOption]

theorem not_blamesOption_parseError (s : Bytes) : ¬ BlamesOption (parseError s) := by
  unfold parseError
  split
  · split <;> simp [Malformed.isOption]
  · simp [Malformed.isOption]

theorem parseOack_blamesOption_iff {w : UInt16} {s : Bytes} :
    BlamesOption (parseOack (word w ++ s)) ↔ BadOption s := by
  show BlamesOption ((Options.parse {} s).map oack) ↔ _
  rw [blamesOption_map_iff, Options.blamesOption_iff]

theorem BadOptions.two_le_length {b : Bytes} (h : BadOptions b) : 2 ≤ b.length := by
  cases h <;> simp [word]

/-- **An option is blamed exactly if the datagram is as it should be up to there.** -/
theorem blamesOption_iff {b : Bytes} : BlamesOption (parse b) ↔ BadOptions b := by
  by_cases hl : 2 ≤ b.length
  · obtain ⟨w, s, rfl⟩ := exists_word_of_two_le hl
    rw [badOptions_word_iff, parse_word]
    split
    next hw =>
      obtain rfl : w = 1 := UInt16.toNat_inj.1 hw
      simp [parseRequest_blamesOption_iff]
    next hw =>
      obtain rfl : w = 2 := UInt16.toNat_inj.1 hw
      simp [parseRequest_blamesOption_iff]
    next hw =>
      obtain rfl : w = 3 := UInt16.toNat_inj.1 hw
      simp [not_blamesOption_parseData]
    next hw =>
      obtain rfl : w = 4 := UInt16.toNat_inj.1 hw
      simp [not_blamesOption_parseAck]
    next hw =>
      obtain rfl : w = 5 := UInt16.toNat_inj.1 hw
      simp [not_blamesOption_parseError]
    next hw =>
      obtain rfl : w = 6 := UInt16.toNat_inj.1 hw
      simp [parseOack_blamesOption_iff]
    next h₁ h₂ _ _ _ h₆ =>
      have hw : w ≠ 1 ∧ w ≠ 2 ∧ w ≠ 6 := by
        refine ⟨?_, ?_, ?_⟩ <;> rintro rfl
        · exact h₁ rfl
        · exact h₂ rfl
        · exact h₆ rfl
      simp [hw, Malformed.isOption]
  · refine ⟨fun h => ?_, fun h => absurd h.two_le_length hl⟩
    match b with
    | [] | [_] => simp [parse, Malformed.isOption] at h
    | _ :: _ :: _ => simp at hl

theorem parse_eq_ok_iff {b : Bytes} {p : Packet} :
    parse b = .ok p ↔ ∃ body, b = word p.opcode ++ body ∧ Body p body := by
  constructor
  · intro h
    have hl : 2 ≤ b.length := by
      match b with
      | [] | [_] => cases h
      | _ :: _ :: _ => simp
    obtain ⟨w, s, rfl⟩ := exists_word_of_two_le hl
    obtain ⟨rfl, hb⟩ := parse_word_eq_ok_iff.1 h
    exact ⟨s, rfl, hb⟩
  · rintro ⟨body, rfl, hb⟩
    exact parse_word_eq_ok_iff.2 ⟨rfl, hb⟩

/-- **The parser accepts the grammar and nothing else.** What it reads are the parts of the datagram.
What it refuses, it refuses because of an option if the first fault is in one, and as malformed
otherwise. -/
theorem parse_grammar (b : Bytes) :
    (∀ p, parse b = .ok p ↔ ∃ body, b = word p.opcode ++ body ∧ Body p body) ∧
    ((∃ m, parse b = .error m ∧ m.failure = .badOption m.message) ↔ BadOptions b) ∧
    ((∃ m, parse b = .error m ∧ m.failure = .malformed m.message) ↔
      ¬ BadOptions b ∧ ¬ ∃ p body, b = word p.opcode ++ body ∧ Body p body) := by
  refine ⟨fun p => parse_eq_ok_iff, ?_, ?_⟩
  · rw [← blamesOption_iff]
    simp only [BlamesOption, Malformed.failure]
    refine exists_congr fun m => and_congr_right fun _ => ?_
    cases m.isOption <;> simp
  · simp only [← parse_eq_ok_iff, ← blamesOption_iff]
    cases parse b with
    | ok p => simp
    | error m => cases h : m.isOption <;> simp [h, Malformed.failure]

end Packet

end Tftp
