/-!
# Bytes

Datagrams, file contents, file names and log lines are all strings of bytes, and nothing in the
protocol gives them an encoding beyond ASCII. This file has the few operations on them that the
protocol needs:

* `ascii` — the bytes of an ASCII literal;
* `lower` — ASCII lower case, the only case folding the protocol knows;
* `splitNul` — cutting a NUL-terminated text off the front;
* `beforeNul` — what is left of a text once it has been passed on as a NUL-terminated one;
* `fields` — cutting a text at every occurrence of a separator.
-/

namespace Tftp

/-- A string of bytes: a datagram, the content of a file, or a text. -/
abbrev Bytes := List UInt8

/-- The bytes of an ASCII text. -/
def ascii (s : String) : Bytes := s.toList.map fun c => UInt8.ofNat c.toNat

/-- Whether a byte is an ASCII decimal digit. -/
def isDigit (b : UInt8) : Bool := 48 ≤ b && b ≤ 57

/-- ASCII lower case of one byte; every other byte stays. -/
def lowerByte (b : UInt8) : UInt8 := if 65 ≤ b && b ≤ 90 then b + 32 else b

/-- ASCII lower case of a text. -/
def lower (s : Bytes) : Bytes := s.map lowerByte

/-- The text before the first NUL; all of it when there is none. -/
def beforeNul (s : Bytes) : Bytes := s.takeWhile (· != 0)

theorem not_mem_beforeNul (s : Bytes) : 0 ∉ beforeNul s := by
  induction s with
  | nil => exact List.not_mem_nil
  | cons c s ih =>
      by_cases hc : c = 0
      · simp [beforeNul, hc]
      · simpa [beforeNul, hc, Ne.symm hc] using ih

theorem beforeNul_of_not_mem {s : Bytes} (h : 0 ∉ s) : beforeNul s = s := by
  induction s with
  | nil => rfl
  | cons c s ih =>
      have hc : c ≠ 0 := fun hc => h (by simp [hc])
      simpa [beforeNul, hc] using ih fun hs => h (List.mem_cons_of_mem _ hs)

/-- What comes after a NUL does not matter. -/
theorem beforeNul_append {a : Bytes} (h : 0 ∈ a) (b : Bytes) : beforeNul (a ++ b) = beforeNul a := by
  induction a with
  | nil => cases h
  | cons c a ih =>
      by_cases hc : c = 0
      · simp [beforeNul, hc]
      · have ha : (0 : UInt8) ∈ a := (List.mem_cons.1 h).resolve_left (Ne.symm hc)
        simpa [beforeNul, hc] using ih ha

/-- Splits a NUL-terminated text off the front: the text and what follows its terminator.
There is none when no NUL occurs. -/
def splitNul : Bytes → Option (Bytes × Bytes)
  | [] => none
  | b :: s =>
    if b = 0 then some ([], s)
    else (splitNul s).map fun (text, rest) => (b :: text, rest)

/-- What is split off and its terminator are no longer there afterwards. -/
theorem splitNul_length {s text rest : Bytes} (h : splitNul s = some (text, rest)) :
    text.length + rest.length + 1 = s.length := by
  induction s generalizing text with
  | nil => simp [splitNul] at h
  | cons b s ih =>
    rw [splitNul] at h
    split at h
    · simp only [Option.some.injEq, Prod.mk.injEq] at h
      obtain ⟨rfl, rfl⟩ := h
      simp
    · obtain ⟨⟨text', rest'⟩, hs, he⟩ := Option.map_eq_some_iff.1 h
      simp only [Prod.mk.injEq] at he
      obtain ⟨rfl, rfl⟩ := he
      have := ih hs
      simp only [List.length_cons]
      omega

/-- A text is split off exactly where its terminator stands. -/
theorem splitNul_eq_some_iff {s text rest : Bytes} :
    splitNul s = some (text, rest) ↔ 0 ∉ text ∧ s = text ++ 0 :: rest := by
  induction s generalizing text with
  | nil => simp [splitNul]
  | cons b s ih =>
    rw [splitNul]
    split
    next hb => cases text <;> simp_all [eq_comm]
    next hb =>
      rw [Option.map_eq_some_iff]
      constructor
      · rintro ⟨⟨text', rest'⟩, hs, he⟩
        obtain ⟨rfl, rfl⟩ := Prod.mk.inj he
        obtain ⟨hn, rfl⟩ := ih.1 hs
        simp [hn, Ne.symm hb]
      · rintro ⟨hn, he⟩
        cases text with
        | nil => simp_all
        | cons c text =>
          obtain ⟨rfl, rfl⟩ := List.cons.inj he
          exact ⟨(text, rest), ih.2 ⟨fun h => hn (List.mem_cons_of_mem _ h), rfl⟩, rfl⟩

/-- The fields of a text between occurrences of a separator; a text without one is one field. -/
def fields (separator : UInt8) : Bytes → List Bytes
  | [] => [[]]
  | b :: s =>
    if b = separator then [] :: fields separator s
    else match fields separator s with
      | [] => [[b]]
      | first :: more => (b :: first) :: more

end Tftp
