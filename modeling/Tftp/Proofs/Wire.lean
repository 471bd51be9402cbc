import Tftp.Packet.Parse

/-!
# Packets of a transfer on the wire

DATA and ACK are read back as what was written. An OACK is never taken for one of these, not even
if its end has been cut off, so no two kinds of packet can be confused.
-/

namespace Tftp

/-! ## Words -/

theorem wordOf_word (w : UInt16) :
    wordOf (UInt8.ofNat (w.toNat / 256)) (UInt8.ofNat (w.toNat % 256)) = w := by
  have hw : w.toNat < 65536 := w.toNat_lt
  have high : (UInt8.ofNat (w.toNat / 256)).toNat = w.toNat / 256 := by
    rw [UInt8.toNat_ofNat']
    omega
  have low : (UInt8.ofNat (w.toNat % 256)).toNat = w.toNat % 256 := by
    rw [UInt8.toNat_ofNat']
    omega
  rw [wordOf, high, low, Nat.div_add_mod']
  exact UInt16.ofNat_toNat

namespace Packet

/-! ## Reading back -/

/-- The packet of a datagram is read as its opcode tells. -/
theorem parse_word (w : UInt16) (s : Bytes) :
    parse (word w ++ s) = match w.toNat with
      | 1 | 2 => parseRequest (word w ++ s)
      | 3 => parseData (word w ++ s)
      | 4 => parseAck (word w ++ s)
      | 5 => parseError (word w ++ s)
      | 6 => parseOack (word w ++ s)
      | _ => .error .unknownOpcode := by
  show parse (_ :: _ :: s) = _
  rw [parse, wordOf_word]
  rfl

@[simp] theorem parse_data (block : UInt16) (payload : Bytes) :
    parse (data block payload).encode = .ok (data block payload) := by
  show parse (word 3 ++ (word block ++ payload)) = _
  rw [parse_word]
  show Except.ok (data (wordOf _ _) payload) = _
  rw [wordOf_word]

@[simp] theorem parse_ack (block : UInt16) : parse (ack block).encode = .ok (ack block) := by
  show parse (word 4 ++ word block) = _
  rw [parse_word]
  show Except.ok (ack (wordOf _ _)) = _
  rw [wordOf_word]

theorem encode_oack (options : Options) : (oack options).encode = 0 :: 6 :: options.encode := by
  show word 6 ++ options.encode = _
  rw [show word 6 = [0, 6] by decide]
  rfl

/-- What is left of an OACK is read as an OACK, or not at all. -/
theorem parse_take_oack {options : Options} {n : Nat} {packet : Packet}
    (h : parse ((oack options).encode.take n) = .ok packet) : ∃ options', packet = oack options' := by
  rw [encode_oack] at h
  match n with
  | 0 => cases h
  | 1 => cases h
  | n + 2 =>
    have h : (Options.parse {} (options.encode.take n)).map oack = .ok packet := h
    cases ho : Options.parse {} (options.encode.take n) with
    | error e =>
      rw [ho] at h
      cases h
    | ok options' =>
      rw [ho] at h
      cases h
      exact ⟨options', rfl⟩

/-! ## Telling packets apart -/

/-- Packets that are written alike have the same opcode. -/
theorem opcode_eq_of_encode_eq {p q : Packet} (h : p.encode = q.encode) : p.opcode = q.opcode := by
  have h : word p.opcode = word q.opcode := congrArg (List.take 2) h
  injection h with high h
  injection h with low _
  rw [← wordOf_word p.opcode, high, low, wordOf_word]

theorem length_data (block : UInt16) (payload : Bytes) :
    (data block payload).encode.length = payload.length + 4 := by
  show (word 3 ++ (word block ++ payload)).length = _
  simp only [List.length_append, word, List.length_cons, List.length_nil]
  omega

theorem data_inj {a b : UInt16} {x y : Bytes} (h : (data a x).encode = (data b y).encode) :
    a = b ∧ x = y := by
  have h := congrArg parse h
  rw [parse_data, parse_data] at h
  injection h with h
  injection h with hb hp
  exact ⟨hb, hp⟩

theorem ack_inj {a b : UInt16} (h : (ack a).encode = (ack b).encode) : a = b := by
  have h := congrArg parse h
  rw [parse_ack, parse_ack] at h
  injection h with h
  injection h

theorem oack_ne_data (options : Options) (block : UInt16) (payload : Bytes) :
    (oack options).encode ≠ (data block payload).encode := by
  intro h
  rw [encode_oack] at h
  have h : (0 : UInt8) :: 6 :: options.encode = word 3 ++ (word block ++ payload) := h
  rw [show word 3 = [0, 3] by decide] at h
  injection h with _ h
  injection h with h
  cases h

theorem oack_ne_ack (options : Options) (block : UInt16) :
    (oack options).encode ≠ (ack block).encode := by
  intro h
  rw [encode_oack] at h
  have h : (0 : UInt8) :: 6 :: options.encode = word 4 ++ word block := h
  rw [show word 4 = [0, 4] by decide] at h
  injection h with _ h
  injection h with h
  cases h

end Packet

end Tftp
