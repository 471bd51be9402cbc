import Tftp.Bytes

/-!
# Decimal numbers

Numbers travel in option values, addresses, log lines and command-line arguments as ASCII decimal
text.

* `Decimal.print` — the digits of a natural number, without leading zeros;
* `Decimal.read` — the number a string of digits denotes, leading zeros allowed;
* `Decimal.signed?` — a number as the command line accepts it: leading blanks and a sign are
  allowed, anything after the digits is not.
-/

namespace Tftp.Decimal

/-- The ASCII digit of a number below ten. -/
def digit (d : Nat) : UInt8 := UInt8.ofNat (48 + d)

/-- The decimal digits of a number, without leading zeros. -/
def print (n : Nat) : Bytes :=
  if n < 10 then [digit n] else print (n / 10) ++ [digit (n % 10)]

/-- The decimal text of an integer, with a minus sign when it is negative. -/
def printInt (i : Int) : Bytes :=
  if i < 0 then 45 :: print i.natAbs else print i.natAbs

/-- The number denoted by a string of digits, most significant first. -/
def read (s : Bytes) : Nat := s.foldl (fun n b => 10 * n + (b.toNat - 48)) 0

/-- Whether a text is one or more digits and nothing else. -/
def isNumber (s : Bytes) : Bool := !s.isEmpty && s.all isDigit

theorem toNat_digit {d : Nat} (h : d < 10) : (digit d).toNat = 48 + d := by
  rw [digit, UInt8.toNat_ofNat']
  omega

theorem isDigit_digit {d : Nat} (h : d < 10) : isDigit (digit d) = true := by
  have := toNat_digit h
  simp only [isDigit, Bool.and_eq_true, decide_eq_true_eq, UInt8.le_iff_toNat_le, this]
  constructor
  · show 48 ≤ 48 + d
    omega
  · show 48 + d ≤ 57
    omega

theorem read_concat (s : Bytes) (b : UInt8) : read (s ++ [b]) = 10 * read s + (b.toNat - 48) := by
  simp [read]

theorem print_ne_nil (n : Nat) : print n ≠ [] := by
  rw [print]
  split <;> simp

theorem all_isDigit_print (n : Nat) : (print n).all isDigit = true := by
  fun_induction print n with
  | case1 n h => simp [isDigit_digit h]
  | case2 n h ih => simp [ih, isDigit_digit (Nat.mod_lt n (by decide : 10 > 0))]

@[simp] theorem isNumber_print (n : Nat) : isNumber (print n) = true := by
  simp [isNumber, print_ne_nil, all_isDigit_print]

/-- What is printed is read back. -/
@[simp] theorem read_print (n : Nat) : read (print n) = n := by
  fun_induction print n with
  | case1 n h =>
    have := toNat_digit h
    simp only [read, List.foldl_cons, List.foldl_nil]
    omega
  | case2 n h ih =>
    have := toNat_digit (Nat.mod_lt n (by decide : 10 > 0))
    rw [read_concat, ih]
    omega

/-- There is no NUL in a number. -/
theorem not_mem_of_isNumber {s : Bytes} (h : isNumber s = true) : 0 ∉ s := by
  intro h0
  rw [isNumber, Bool.and_eq_true, List.all_eq_true] at h
  exact absurd (h.2 0 h0) (by decide)

/-- Whether a byte counts as blank in front of a number. -/
def isBlank (b : UInt8) : Bool := b == 32 || (9 ≤ b && b ≤ 13)

/-- Reads a number with optional leading blanks and sign; there is none if anything else occurs or
if the number does not fit into 64 bits with sign. -/
def signed? (s : Bytes) : Option Int :=
  let s := s.dropWhile isBlank
  let (negative, digits) := match s with
    | 45 :: s => (true, s)
    | 43 :: s => (false, s)
    | s => (false, s)
  if isNumber digits then
    let i : Int := if negative then -(read digits : Int) else read digits
    if -9223372036854775808 ≤ i ∧ i ≤ 9223372036854775807 then some i else none
  else none

end Tftp.Decimal
