import Mathlib.Data.List.Induction
import Tftp.Proofs.RoundTrip

/-!
# Normal forms of datagrams

The parser is more tolerant than what is written: many datagrams are read as the same packet. One
of them is the one that is written for it, its normal form. To normalize a datagram is to read it
and to write what has been read.

    datagram ──parse──▶ packet ──encode──▶ normal form

Each kind of redundancy can only make a datagram longer. Letter case does not change the length of a
text, leading zeros add to a number, and an option that is not negotiated is left out
(`Options.length_add_le`). So no datagram with the same meaning is shorter than the normal form, and
a DATA or an ACK, in which nothing is redundant, is the normal form itself.
-/

namespace Tftp

/-! ## Numbers -/

namespace Decimal

theorem length_print_of_lt {n : Nat} (h : n < 10) : (print n).length = 1 := by
  rw [print, if_pos h]
  rfl

theorem length_print_of_le {n : Nat} (h : 10 ≤ n) :
    (print n).length = (print (n / 10)).length + 1 := by
  rw [print, if_neg (Nat.not_lt.2 h), List.length_append]
  rfl

theorem toNat_sub_lt_of_isDigit {b : UInt8} (h : isDigit b = true) : b.toNat - 48 < 10 := by
  simp only [isDigit, Bool.and_eq_true, decide_eq_true_eq, UInt8.le_iff_toNat_le] at h
  have h57 : b.toNat ≤ 57 := h.2
  omega

/-- A string of digits is at least as long as the number that it denotes. -/
theorem length_print_read_le {s : Bytes} (h : isNumber s = true) :
    (print (read s)).length ≤ s.length := by
  induction s using List.reverseRecOn with
  | nil => cases h
  | append_singleton s b ih =>
      have hall : s.all isDigit = true ∧ isDigit b = true := by
        simpa [isNumber] using h
      have hb := toNat_sub_lt_of_isDigit hall.2
      rw [read_concat, List.length_append, List.length_singleton]
      rcases Nat.lt_or_ge (10 * read s + (b.toNat - 48)) 10 with hlt | hge
      · rw [length_print_of_lt hlt]
        exact Nat.le_add_left ..
      · -- The digits in front denote the tens, and there are some, or the number would be smaller.
        have hs : s ≠ [] := by
          rintro rfl
          have hzero : read [] = 0 := rfl
          omega
        have htens : (10 * read s + (b.toNat - 48)) / 10 = read s := by omega
        have hn : isNumber s = true := by simp [isNumber, hs, hall.1]
        rw [length_print_of_le hge, htens]
        exact Nat.succ_le_succ (ih hn)

end Decimal

/-! ## Options -/

theorem length_terminated (text : Bytes) : (terminated text).length = text.length + 1 := by
  simp [terminated]

theorem length_lower (text : Bytes) : (lower text).length = text.length := by
  simp [lower]

namespace Options

variable {o o' : Options}

/-- What an option takes up in a datagram, if it is there. -/
def width (o : Options) (name : OptionName) : Nat :=
  (o.value? name).elim 0 fun n => (terminated name.text ++ terminated (Decimal.print n)).length

theorem length_encode (o : Options) :
    o.encode.length = o.width .blockSize + o.width .timeout + o.width .transferSize := by
  have hpair : ∀ name, ((o.pair name).flatMap fun pair =>
      terminated pair.1 ++ terminated pair.2).length = o.width name := by
    intro name
    cases h : o.value? name with
    | none => simp [pair, width, h]
    | some n => simp [pair, width, h]
  have hencode : o.encode =
      o.pairs.flatMap fun pair => terminated pair.1 ++ terminated pair.2 := rfl
  rw [hencode, pairs_eq, List.flatMap_append, List.flatMap_append, List.length_append,
    List.length_append, hpair, hpair, hpair]

/-- An option that is added takes up what it has to, and the others take up what they did. -/
theorem length_encode_set {name : OptionName} {n : Nat} (h : o.value? name = none)
    (hn : n ≤ name.limit) : (o.set name n).encode.length =
      o.encode.length + (terminated name.text ++ terminated (Decimal.print n)).length := by
  have hself : (o.set name n).width name =
      (terminated name.text ++ terminated (Decimal.print n)).length := by
    rw [width, value?_set_self o hn]
    rfl
  have hnone : o.width name = 0 := by
    rw [width, h]
    rfl
  have hother : ∀ other, other ≠ name → (o.set name n).width other = o.width other := by
    intro other hne
    rw [width, width, value?_set_of_ne o n hne]
  rw [length_encode, length_encode]
  cases name with
  | blockSize =>
      rw [hself, hnone, hother .timeout nofun, hother .transferSize nofun]
      omega
  | timeout =>
      rw [hself, hnone, hother .blockSize nofun, hother .transferSize nofun]
      omega
  | transferSize =>
      rw [hself, hnone, hother .blockSize nofun, hother .timeout nofun]
      omega

/-- What a pair adds to the options takes up no more than the pair does. -/
theorem length_add_le {name value : Bytes} (h : o.add (lower name) value = .ok o') :
    o'.encode.length ≤ o.encode.length + (terminated name ++ terminated value).length := by
  by_cases hk : ∃ known : OptionName, lower name = known.text
  · obtain ⟨known, hk⟩ := hk
    rw [hk, add_text_eq_ok_iff] at h
    obtain ⟨hnone, ⟨hnumber, hlimit⟩, rfl⟩ := h
    have hname : known.text.length = name.length := by rw [← hk, length_lower]
    have hvalue := Decimal.length_print_read_le hnumber
    rw [length_encode_set hnone hlimit]
    simp only [List.length_append, length_terminated]
    omega
  · rw [add_unknown o value fun known hn => hk ⟨known, hn⟩] at h
    obtain rfl := Except.ok.inj h
    exact Nat.le_add_right ..

/-- So do the pairs of a list, one after the other. -/
theorem length_addAll_le {s : Bytes} {pairs : List (Bytes × Bytes)} (hl : OptionList s pairs)
    (h : o.addAll pairs = .ok o') : o'.encode.length ≤ o.encode.length + s.length := by
  induction hl generalizing o with
  | nil =>
      obtain rfl := Except.ok.inj h
      exact Nat.le_add_right ..
  | @cons name value rest pairs hn h0 hv hrest ih =>
      rw [addAll_cons] at h
      cases ha : o.add (lower name) value with
      | error m =>
          rw [ha] at h
          cases h
      | ok o₁ =>
          rw [ha] at h
          have hfirst := length_add_le ha
          have hothers := ih h
          rw [List.length_append]
          omega

/-- Options are nowhere stated more briefly than they are written. -/
theorem StatedBy.length_encode_le {s : Bytes} {pairs : List (Bytes × Bytes)}
    (h : o.StatedBy pairs) (hl : OptionList s pairs) : o.encode.length ≤ s.length := by
  have hall : addAll {} pairs = .ok o := addAll_eq_ok_iff.2 (extends_empty_iff.2 h)
  have hempty : ({} : Options).encode.length = 0 := rfl
  have hle := length_addAll_le hl hall
  rwa [hempty, Nat.zero_add] at hle

end Options

/-! ## Packets -/

namespace Packet

theorem Heading.length_eq {filename heading : Bytes} {mode : Mode}
    (h : Heading filename mode heading) :
    (terminated filename ++ terminated mode.name).length = heading.length := by
  obtain ⟨modeName, hmode, rfl⟩ := h.eq
  have hname : mode.name.length = modeName.length := by rw [← hmode, length_lower]
  simp only [List.length_append, length_terminated, hname]

/-- A packet has no datagram that is shorter than the one that is written for it. -/
theorem Body.length_encode_le {p : Packet} {body : Bytes} (h : Body p body) :
    p.encode.length ≤ (word p.opcode ++ body).length := by
  unfold encode
  rw [List.length_append, List.length_append]
  refine Nat.add_le_add_left ?_ _
  cases h with
  | request direction hh hl stated =>
      have hheading := hh.length_eq
      have hoptions := stated.length_encode_le hl
      dsimp only
      rw [List.length_append, hheading, List.length_append]
      exact Nat.add_le_add_left hoptions _
  | data block payload => exact Nat.le_refl _
  | ack block => exact Nat.le_refl _
  | error code rest h0 =>
      dsimp only
      rw [List.length_append, List.length_append, List.length_append]
      exact Nat.add_le_add (Nat.le_refl _) (Nat.le_add_right ..)
  | oack hl stated => exact stated.length_encode_le hl

/-- The normal form of a datagram: what is written for the packet that it is read as. -/
def normalize (b : Bytes) : Except Malformed Bytes := (parse b).map encode

/-- **Reading normalizes.** What is written for a packet that has been read is read as the same
packet again, so to normalize twice is to normalize once. It is never longer than what has been
read, and it is the same if that was a DATA or an ACK. -/
theorem parse_normalizes {b : Bytes} {p : Packet} (h : parse b = .ok p) :
    parse p.encode = .ok p ∧ (normalize b >>= normalize) = normalize b ∧
    p.encode.length ≤ b.length ∧
    (∀ block payload, p = .data block payload → p.encode = b) ∧
    (∀ block, p = .ack block → p.encode = b) := by
  obtain ⟨body, rfl, hb⟩ := parse_eq_ok_iff.1 h
  have hagain : parse p.encode = .ok p := (parse_encode_eq_ok_iff p).2 hb.wellFormed
  have hnormal : normalize (word p.opcode ++ body) = .ok p.encode := by
    rw [normalize, h]
    rfl
  have hidem : normalize p.encode = .ok p.encode := by
    rw [normalize, hagain]
    rfl
  refine ⟨hagain, ?_, hb.length_encode_le, ?_, ?_⟩
  · rw [hnormal]
    exact hidem
  · rintro block payload rfl
    cases hb
    rfl
  · rintro block rfl
    cases hb
    rfl

/-- A request in which there is much that need not be there: upper case, an option that is not
negotiated, options in another order, and leading zeros. -/
def wordy : Bytes :=
  word 2 ++ (terminated (ascii "log") ++ terminated (ascii "OCTET") ++
    (terminated (ascii "TSize") ++ terminated (ascii "007") ++
      (terminated (ascii "color") ++ terminated (ascii "red") ++
        (terminated (ascii "BLKSIZE") ++ terminated (ascii "0512")))))

theorem parse_normalizes_wordy :
    let p : Packet := .request .write
      ⟨ascii "log", .octet, { blockSize := some 512, transferSize := some 7 }⟩
    parse wordy = .ok p ∧ parse p.encode = .ok p ∧ p.encode.length < wordy.length := by
  intro p
  have h : parse wordy = .ok p := by decide +kernel
  exact ⟨h, (parse_normalizes h).1, by decide +kernel⟩

end Packet

end Tftp
