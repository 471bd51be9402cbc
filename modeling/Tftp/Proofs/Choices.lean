import Mathlib.Data.List.Induction
import Tftp.Proofs.Arguments

/-!
# What the options of a command line come to

An option that takes a number takes it within bounds only (`Takes`). Of an option that is given more
than once the last value counts, and `Follows` says how each part of a command line depends on all the
options that are given. Both together are `parse_cases`: either a command line can be understood, its
options may have their values and there is a root directory, and then the line follows from them; or
there is a complaint.
-/

namespace Tftp.CommandLine

variable {line line' : CommandLine}

/-! ## The values of options -/

/-- A text stands for a number within bounds. -/
def Denotes (lo hi : Nat) (text : Bytes) (n : Nat) : Prop :=
  Decimal.Numeral text n ∧ lo ≤ n ∧ n ≤ hi

theorem number?_eq_some_iff {lo hi n : Nat} {text : Bytes} (hh : hi ≤ 9223372036854775807) :
    number? lo hi text = some n ↔ Denotes lo hi text n := by
  unfold number? Denotes
  constructor
  · intro h
    cases hs : Decimal.signed? text with
    | none => simp [hs] at h
    | some i =>
        obtain ⟨hn, -⟩ := Decimal.signed?_eq_some_iff.1 hs
        simp only [hs, Option.ite_none_right_eq_some, Option.some.injEq] at h
        obtain ⟨⟨hlo, hhi⟩, rfl⟩ := h
        have hi : (i.toNat : Int) = i := Int.toNat_of_nonneg (by omega)
        exact ⟨hi.symm ▸ hn, by omega, by omega⟩
  · rintro ⟨hn, hlo, hhi⟩
    have hs := Decimal.signed?_eq_some_iff.2 ⟨hn, by omega, by omega⟩
    simp only [hs]
    rw [if_pos (by omega), Int.toNat_natCast]

/-- Between which bounds the value of an option has to be, if it is a number. -/
def bounds? : Flag → Option (Nat × Nat)
  | .port => some (1, 65535)
  | .timeout => some (1, 255)
  | .blockSizeLimit => some (8, 65464)
  | .retries => some (0, 1000000)
  | _ => none

/-- An option may have the given value. -/
def Takes (flag : Flag) (value : Bytes) : Prop :=
  ∀ lo hi, bounds? flag = some (lo, hi) → ∃ n, Denotes lo hi value n

/-- What the last of the options says about something, if one of them does. -/
def latest? {α : Type} (says? : Choice → Option α) (choices : List Choice) : Option α :=
  (choices.filterMap says?).getLast?

theorem latest?_concat {α : Type} (says? : Choice → Option α) (choices : List Choice)
    (choice : Choice) : latest? says? (choices ++ [choice]) =
      (says? choice).or (latest? says? choices) := by
  unfold latest?
  rw [List.filterMap_append, List.getLast?_append]
  cases h : says? choice <;> simp [h]

/-- The value that is given for an option. -/
def valueOf? (flag : Flag) (choice : Choice) : Option Bytes :=
  if choice.1 = flag then some choice.2 else none

/-- The access that is asked for by an option. -/
def access? (choice : Choice) : Option Access :=
  match choice.1 with
  | .readOnly => some .readOnly
  | .writeOnly => some .writeOnly
  | _ => none

/-- The number that is given last for an option, if it is given. -/
inductive Gives (flag : Flag) (lo hi : Nat) (choices : List Choice) : Option Nat → Prop
  | default : latest? (valueOf? flag) choices = none → Gives flag lo hi choices none
  | value {text : Bytes} {n : Nat} : latest? (valueOf? flag) choices = some text →
      Denotes lo hi text n → Gives flag lo hi choices (some n)

/-- How a command line follows from the options that are given. -/
structure Follows (choices : List Choice) (line : CommandLine) : Prop where
  port : ∃ n?, Gives .port 1 65535 choices n? ∧ line.port.toNat = n?.getD 69
  address : line.address = (latest? (valueOf? .address) choices).getD (ascii "0.0.0.0")
  timeout : ∃ n?, Gives .timeout 1 255 choices n? ∧
    line.config.timeout = (n?.elim 3000 fun n => 1000 * n : Nat)
  blockSizeLimit : Gives .blockSizeLimit 8 65464 choices
    (line.config.blockSizeLimit.map UInt16.toNat)
  retries : ∃ n?, Gives .retries 0 1000000 choices n? ∧ line.config.maxRetries = n?.getD 100
  ignoreTimeout : line.config.ignoreTimeout = (latest? (valueOf? .ignoreTimeout) choices).isSome
  ignoreBlockSize :
    line.config.ignoreBlockSize = (latest? (valueOf? .ignoreBlockSize) choices).isSome
  access : line.access = (latest? access? choices).getD .readWrite
  verbose : line.verbose = (latest? (valueOf? .verbose) choices).isSome
  pollInterval : line.config.pollInterval = 100

section

variable {choices : List Choice} {flag : Flag} {value : Bytes} {lo hi : Nat} {n? : Option Nat}

/-- An option says nothing about another one. -/
theorem latest?_other {other : Flag} (h : flag ≠ other) :
    latest? (valueOf? other) (choices ++ [(flag, value)]) = latest? (valueOf? other) choices := by
  rw [latest?_concat, valueOf?, if_neg h]
  rfl

theorem latest?_same : latest? (valueOf? flag) (choices ++ [(flag, value)]) = some value := by
  rw [latest?_concat, valueOf?, if_pos rfl]
  rfl

theorem Gives.other {other : Flag} (h : Gives other lo hi choices n?) (hne : flag ≠ other) :
    Gives other lo hi (choices ++ [(flag, value)]) n? := by
  cases h with
  | default hl => exact .default ((latest?_other hne).trans hl)
  | value hl hd => exact .value ((latest?_other hne).trans hl) hd

theorem Gives.same {n : Nat} (h : Denotes lo hi value n) :
    Gives flag lo hi (choices ++ [(flag, value)]) (some n) :=
  .value latest?_same h

/-- A number that has been taken for the value of an option. -/
theorem of_number?_eq_ok {ok : Nat → CommandLine} {complaint : Complaint}
    (hh : hi ≤ 9223372036854775807) (h : (match number? lo hi value with
      | some n => Except.ok (ok n)
      | none => .error complaint) = .ok line') : ∃ n, Denotes lo hi value n ∧ line' = ok n := by
  cases hn : number? lo hi value with
  | none => simp [hn] at h
  | some n =>
      rw [hn] at h
      exact ⟨n, (number?_eq_some_iff hh).1 hn, (Except.ok.inj h).symm⟩

/-- A number that fits into 16 bits is not truncated. -/
theorem toNat_ofNat_of_denotes {n : Nat} (h : Denotes lo hi value n) (hh : hi ≤ 65535) :
    (UInt16.ofNat n).toNat = n := by
  obtain ⟨-, -, hn⟩ := h
  rw [UInt16.toNat_ofNat']
  omega

/-- **One more option**, and the command line still follows from all of them. -/
theorem Follows.set (h : Follows choices line) (hs : line.set flag value = .ok line') :
    Follows (choices ++ [(flag, value)]) line' := by
  -- One option is of no account for what the others say.
  have port (hne : flag ≠ .port) : ∃ n?, Gives .port 1 65535 (choices ++ [(flag, value)]) n? ∧
      line.port.toNat = n?.getD 69 := h.port.imp fun _ => .imp_left (·.other hne)
  have timeout (hne : flag ≠ .timeout) : ∃ n?, Gives .timeout 1 255 (choices ++ [(flag, value)]) n? ∧
      line.config.timeout = (n?.elim 3000 fun n => 1000 * n : Nat) :=
    h.timeout.imp fun _ => .imp_left (·.other hne)
  have limit (hne : flag ≠ .blockSizeLimit) : Gives .blockSizeLimit 8 65464
      (choices ++ [(flag, value)]) (line.config.blockSizeLimit.map UInt16.toNat) :=
    h.blockSizeLimit.other hne
  have retries (hne : flag ≠ .retries) : ∃ n?, Gives .retries 0 1000000 (choices ++ [(flag, value)])
      n? ∧ line.config.maxRetries = n?.getD 100 := h.retries.imp fun _ => .imp_left (·.other hne)
  have kept {α : Type} {other : Flag} {x : α} {f : Option Bytes → α}
      (hx : x = f (latest? (valueOf? other) choices)) (hne : flag ≠ other) :
      x = f (latest? (valueOf? other) (choices ++ [(flag, value)])) := by
    rw [latest?_other hne]
    exact hx
  have address := @kept _ .address _ (·.getD (ascii "0.0.0.0")) h.address
  have ignoreTimeout := @kept _ .ignoreTimeout _ Option.isSome h.ignoreTimeout
  have ignoreBlockSize := @kept _ .ignoreBlockSize _ Option.isSome h.ignoreBlockSize
  have verbose := @kept _ .verbose _ Option.isSome h.verbose
  have access (hne : access? (flag, value) = none) :
      line.access = (latest? access? (choices ++ [(flag, value)])).getD .readWrite := by
    rw [latest?_concat, hne]
    exact h.access
  have last {α : Type} (f : Option Bytes → α) :
      f (some value) = f (latest? (valueOf? flag) (choices ++ [(flag, value)])) := by
    rw [latest?_same]
  cases flag with
  | port =>
      obtain ⟨n, hd, rfl⟩ := of_number?_eq_ok (by decide) hs
      exact ⟨⟨some n, .same hd, toNat_ofNat_of_denotes hd (by decide)⟩, address nofun,
        timeout nofun, limit nofun, retries nofun, ignoreTimeout nofun, ignoreBlockSize nofun,
        access rfl, verbose nofun, h.pollInterval⟩
  | address =>
      cases hs
      exact ⟨port nofun, last (·.getD (ascii "0.0.0.0")), timeout nofun, limit nofun, retries nofun,
        ignoreTimeout nofun, ignoreBlockSize nofun, access rfl, verbose nofun, h.pollInterval⟩
  | timeout =>
      obtain ⟨n, hd, rfl⟩ := of_number?_eq_ok (by decide) hs
      exact ⟨port nofun, address nofun, ⟨some n, .same hd, rfl⟩, limit nofun, retries nofun,
        ignoreTimeout nofun, ignoreBlockSize nofun, access rfl, verbose nofun, h.pollInterval⟩
  | blockSizeLimit =>
      obtain ⟨n, hd, rfl⟩ := of_number?_eq_ok (by decide) hs
      have limit : Gives .blockSizeLimit 8 65464 (choices ++ [(.blockSizeLimit, value)])
          (some (UInt16.ofNat n).toNat) := by
        rw [toNat_ofNat_of_denotes hd (by decide)]
        exact .same hd
      exact ⟨port nofun, address nofun, timeout nofun, limit,
        retries nofun, ignoreTimeout nofun, ignoreBlockSize nofun, access rfl, verbose nofun,
        h.pollInterval⟩
  | retries =>
      obtain ⟨n, hd, rfl⟩ := of_number?_eq_ok (by decide) hs
      exact ⟨port nofun, address nofun, timeout nofun, limit nofun, ⟨some n, .same hd, rfl⟩,
        ignoreTimeout nofun, ignoreBlockSize nofun, access rfl, verbose nofun, h.pollInterval⟩
  | ignoreTimeout =>
      cases hs
      exact ⟨port nofun, address nofun, timeout nofun, limit nofun, retries nofun,
        last Option.isSome, ignoreBlockSize nofun, access rfl, verbose nofun, h.pollInterval⟩
  | ignoreBlockSize =>
      cases hs
      exact ⟨port nofun, address nofun, timeout nofun, limit nofun, retries nofun,
        ignoreTimeout nofun, last Option.isSome, access rfl, verbose nofun, h.pollInterval⟩
  | readOnly =>
      cases hs
      exact ⟨port nofun, address nofun, timeout nofun, limit nofun, retries nofun,
        ignoreTimeout nofun, ignoreBlockSize nofun, by rw [latest?_concat]; rfl, verbose nofun,
        h.pollInterval⟩
  | writeOnly =>
      cases hs
      exact ⟨port nofun, address nofun, timeout nofun, limit nofun, retries nofun,
        ignoreTimeout nofun, ignoreBlockSize nofun, by rw [latest?_concat]; rfl, verbose nofun,
        h.pollInterval⟩
  | verbose =>
      cases hs
      exact ⟨port nofun, address nofun, timeout nofun, limit nofun, retries nofun,
        ignoreTimeout nofun, ignoreBlockSize nofun, access rfl, last Option.isSome, h.pollInterval⟩

end

theorem Follows.withOperands {choices : List Choice} (h : Follows choices line)
    (operands : List Bytes) : Follows choices (line.withOperands operands) := { h with }

end Tftp.CommandLine
