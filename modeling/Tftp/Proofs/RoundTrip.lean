import Tftp.Proofs.Grammar

/-!
# Packets that are read back

A packet can be put together from any fields, but not every packet comes back from the wire as it was
sent. `Packet.WellFormed` says which ones do: a text must not contain the NUL that ends it on the
wire, a request needs the name of a file and one of the three modes, and an error code must be one of
those that the protocol defines. Nothing can be wrong with a DATA, an ACK or an OACK.
-/

namespace Tftp

/-! ## Options -/

namespace OptionName

variable {a b : OptionName}

theorem lower_text (name : OptionName) : lower name.text = name.text := by
  cases name <;> decide

theorem text_ne_nil (name : OptionName) : name.text ≠ [] := by
  cases name <;> decide

theorem not_mem_text (name : OptionName) : 0 ∉ name.text := by
  cases name <;> decide

theorem valuesIn_append (name : OptionName) (pairs more : List (Bytes × Bytes)) :
    name.valuesIn (pairs ++ more) = name.valuesIn pairs ++ name.valuesIn more := by
  simp [valuesIn]

end OptionName

namespace Options

/-- The pair of an option that is present. -/
def pair (o : Options) (name : OptionName) : List (Bytes × Bytes) :=
  ((o.value? name).map fun n => (name.text, Decimal.print n)).toList

theorem pairs_eq (o : Options) :
    o.pairs = o.pair .blockSize ++ o.pair .timeout ++ o.pair .transferSize := by
  simp only [pairs, pair, value?, Option.map_map]
  rfl

theorem mem_pairs {o : Options} {pair : Bytes × Bytes} (h : pair ∈ o.pairs) :
    ∃ name n, o.value? name = some n ∧ pair = (OptionName.text name, Decimal.print n) := by
  have mem : ∀ name, pair ∈ o.pair name →
      ∃ n, o.value? name = some n ∧ pair = (OptionName.text name, Decimal.print n) := by
    intro name h
    obtain ⟨n, hn, he⟩ := Option.map_eq_some_iff.1 (Option.mem_toList.1 h)
    exact ⟨n, hn, he.symm⟩
  rw [pairs_eq, List.mem_append, List.mem_append] at h
  rcases h with (h | h) | h
  · exact ⟨_, mem _ h⟩
  · exact ⟨_, mem _ h⟩
  · exact ⟨_, mem _ h⟩

theorem optionList_flatMap {pairs : List (Bytes × Bytes)}
    (h : ∀ pair ∈ pairs, pair.1 ≠ [] ∧ 0 ∉ pair.1 ∧ 0 ∉ pair.2) :
    OptionList (pairs.flatMap fun (name, value) => terminated name ++ terminated value) pairs := by
  induction pairs with
  | nil => exact .nil
  | cons pair pairs ih =>
    obtain ⟨hn, h0, hv⟩ := h pair (by simp)
    exact .cons hn h0 hv (ih fun p hp => h p (by simp [hp]))

theorem optionList_encode (o : Options) : OptionList o.encode o.pairs := by
  apply optionList_flatMap
  intro pair hp
  obtain ⟨name, n, -, rfl⟩ := mem_pairs hp
  exact ⟨name.text_ne_nil, name.not_mem_text, Decimal.not_mem_of_isNumber (Decimal.isNumber_print n)⟩

theorem valuesIn_pair (o : Options) (name other : OptionName) :
    other.valuesIn (o.pair name) =
      if other = name then ((o.value? name).map Decimal.print).toList else [] := by
  cases h : o.value? name with
  | none => simp [pair, h, OptionName.valuesIn]
  | some n =>
    simp only [pair, h, Option.map_some, Option.toList_some]
    split
    next hn =>
      subst hn
      rw [OptionName.valuesIn_cons_of_eq (OptionName.lower_text _)]
      rfl
    next hn =>
      rw [OptionName.valuesIn_cons_of_ne]
      · rfl
      · rw [OptionName.lower_text]
        exact fun h => hn (OptionName.text_inj h.symm)

theorem valuesIn_pairs (o : Options) (name : OptionName) :
    name.valuesIn o.pairs = ((o.value? name).map Decimal.print).toList := by
  rw [pairs_eq, OptionName.valuesIn_append, OptionName.valuesIn_append]
  simp only [valuesIn_pair]
  cases name <;> simp

/-- The pairs of options state these options. -/
theorem statedBy_pairs (o : Options) : o.StatedBy o.pairs := by
  intro name
  rw [valuesIn_pairs]
  cases h : o.value? name with
  | none => rfl
  | some n =>
    show name.Admits (Decimal.print n) ∧ some n = some (Decimal.read (Decimal.print n))
    rw [OptionName.Admits, Decimal.read_print]
    exact ⟨⟨Decimal.isNumber_print n, value?_le h⟩, rfl⟩

end Options

/-! ## Packets -/

namespace Packet

/-- A packet that can be sent and read back. -/
def WellFormed : Packet → Prop
  | request _ what => what.filename ≠ [] ∧ 0 ∉ what.filename ∧ what.mode ≠ .other
  | error code message => code.value ≤ 8 ∧ 0 ∉ message
  | data .. | ack _ | oack _ => True

instance : DecidablePred WellFormed
  | request .. => inferInstanceAs (Decidable (_ ∧ _ ∧ _))
  | error .. => inferInstanceAs (Decidable (_ ∧ _))
  | data .. | ack _ | oack _ => inferInstanceAs (Decidable True)

/-- The parser never produces a packet that is not well formed. -/
theorem Body.wellFormed {p : Packet} {s : Bytes} (h : Body p s) : p.WellFormed := by
  cases h with
  | request direction hh _ _ => exact ⟨hh.name_ne_nil, hh.name_ends, hh.mode_ne_other⟩
  | error code rest h0 =>
    refine ⟨?_, h0⟩
    split
    · assumption
    · decide
  | data | ack | oack => trivial

theorem lower_name {mode : Mode} : lower mode.name = mode.name := by
  cases mode <;> decide

/-- What is written of a packet that is well formed has the form of a datagram of this packet. -/
theorem WellFormed.exists_body {p : Packet} (h : p.WellFormed) :
    ∃ body, p.encode = word p.opcode ++ body ∧ Body p body := by
  refine ⟨_, rfl, ?_⟩
  cases p with
  | request direction what =>
    obtain ⟨hn, h0, hm⟩ := h
    exact .request direction ⟨hn, h0, hm, _, lower_name, rfl⟩ what.options.optionList_encode
      what.options.statedBy_pairs
  | data block payload => exact .data block payload
  | ack block => exact .ack block
  | error code message =>
    obtain ⟨hc, h0⟩ := h
    have hb := Body.error code.value [] h0
    rw [if_pos hc, List.append_nil] at hb
    exact hb
  | oack options => exact .oack options.optionList_encode options.statedBy_pairs

/-- **A packet is read back as it was sent exactly if it is well formed.** -/
theorem parse_encode_eq_ok_iff (p : Packet) : parse p.encode = .ok p ↔ p.WellFormed := by
  constructor
  · intro h
    obtain ⟨body, -, hb⟩ := parse_eq_ok_iff.1 h
    exact hb.wellFormed
  · exact fun h => parse_eq_ok_iff.2 h.exists_body

theorem oack_inj {a b : Options} (h : (oack a).encode = (oack b).encode) : a = b := by
  have ha := (parse_encode_eq_ok_iff (oack a)).2 trivial
  have hb := (parse_encode_eq_ok_iff (oack b)).2 trivial
  rw [h, hb] at ha
  injection ha with ha
  injection ha with ha
  exact ha.symm

end Packet

end Tftp
