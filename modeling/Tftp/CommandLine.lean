import Tftp.Directory

/-!
# The command line

The arguments of the program are options and operands, in any order. An option has a letter, a name,
or both. Letters may be written together after one dash. A name stands after two dashes and may be
cut short as long as it is clear which one is meant. The value of an option follows in the same
argument, a name being separated from it by `=`, or else is the next argument, whatever that looks
like. All that follows `--` are operands, and so is a dash alone.

The first operand is the root directory, and there must be one. Options are taken in their order, so
of an option that is given twice the last value counts, and the first mistake is the one complained
about.
-/

namespace Tftp

/-- An option of the command line. -/
inductive Flag
  | port
  | address
  | timeout
  | blockSizeLimit
  | retries
  | ignoreTimeout
  | ignoreBlockSize
  | readOnly
  | writeOnly
  | verbose
  deriving DecidableEq, Repr

namespace Flag

def all : List Flag :=
  [port, address, timeout, blockSizeLimit, retries, ignoreTimeout, ignoreBlockSize, readOnly,
    writeOnly, verbose]

def letter? : Flag → Option UInt8
  | port => some 112
  | address => some 97
  | timeout => some 116
  | blockSizeLimit => some 98
  | retries => some 114
  | verbose => some 118
  | _ => none

def name : Flag → Bytes
  | port => ascii "port"
  | address => ascii "address"
  | timeout => ascii "timeout"
  | blockSizeLimit => ascii "blksize-limit"
  | retries => ascii "retries"
  | ignoreTimeout => ascii "ignore-client-timeout"
  | ignoreBlockSize => ascii "ignore-client-blksize"
  | readOnly => ascii "read-only"
  | writeOnly => ascii "write-only"
  | verbose => ascii "verbose"

def takesValue : Flag → Bool
  | port | address | timeout | blockSizeLimit | retries => true
  | _ => false

def ofLetter? (letter : UInt8) : Option Flag := all.find? fun flag => flag.letter? == some letter

/-- The option that is meant by a name, which may be cut short. -/
def ofName? (text : Bytes) : Option Flag :=
  match all.find? fun flag => flag.name == text with
  | some flag => some flag
  | none =>
    match all.filter fun flag => text.isPrefixOf flag.name with
    | [flag] => some flag
    | _ => none

end Flag

/-- What is wrong with a command line. -/
inductive Complaint
  /-- There is no such option, or it has a value where it must not have one, or none where it must.
  -/
  | badOption
  | badPort
  | badTimeout
  | badBlockSizeLimit
  | badRetries
  /-- There is no root directory. -/
  | noRoot
  deriving DecidableEq, Repr

namespace Complaint

/-- What is said about a mistake. -/
def notices (complaint : Complaint) (program : Bytes) : List Notice :=
  let said : List Notice := match complaint with
    | badOption => []
    | badPort => [.badPort]
    | badTimeout => [.badTimeout]
    | badBlockSizeLimit => [.badBlockSizeLimit]
    | badRetries => [.badRetries]
    | noRoot => [.noRoot]
  said ++ [.usage program]

end Complaint

/-- What a command line says. -/
structure CommandLine where
  port : UInt16 := 69
  address : Bytes := ascii "0.0.0.0"
  config : Config := {}
  access : Access := .readWrite
  verbose : Bool := false
  operands : List Bytes := []
  deriving DecidableEq, Repr

namespace CommandLine

/-- A number within bounds. -/
def number? (lo hi : Nat) (text : Bytes) : Option Nat :=
  match Decimal.signed? text with
  | some i => if (lo : Int) ≤ i ∧ i ≤ hi then some i.toNat else none
  | none => none

/-- Takes an option with its value; the value of an option that has none is of no account. -/
def set (line : CommandLine) (flag : Flag) (value : Bytes) : Except Complaint CommandLine :=
  let config := line.config
  match flag with
  | .port =>
    match number? 1 65535 value with
    | some n => .ok { line with port := UInt16.ofNat n }
    | none => .error .badPort
  | .address => .ok { line with address := value }
  | .timeout =>
    match number? 1 255 value with
    | some n => .ok { line with config := { config with timeout := 1000 * n } }
    | none => .error .badTimeout
  | .blockSizeLimit =>
    match number? Terms.minBlockSize.toNat Terms.maxBlockSize.toNat value with
    | some n => .ok { line with config := { config with blockSizeLimit := some (UInt16.ofNat n) } }
    | none => .error .badBlockSizeLimit
  | .retries =>
    match number? 0 1000000 value with
    | some n => .ok { line with config := { config with maxRetries := n } }
    | none => .error .badRetries
  | .ignoreTimeout => .ok { line with config := { config with ignoreTimeout := true } }
  | .ignoreBlockSize => .ok { line with config := { config with ignoreBlockSize := true } }
  | .readOnly => .ok { line with access := .readOnly }
  | .writeOnly => .ok { line with access := .writeOnly }
  | .verbose => .ok { line with verbose := true }

/-- Takes the letters of an argument. An option whose value is not among them is left over. -/
def takeLetters (line : CommandLine) : Bytes → Except Complaint (CommandLine × Option Flag)
  | [] => return (line, none)
  | letter :: rest => do
    let some flag := Flag.ofLetter? letter | throw .badOption
    if !flag.takesValue then takeLetters (← line.set flag []) rest
    else if rest = [] then return (line, some flag)
    else return (← line.set flag rest, none)

/-- Takes the name of an option, with its value if it is there. An option whose value is not there
is left over. -/
def takeName (line : CommandLine) (text : Bytes) :
    Except Complaint (CommandLine × Option Flag) := do
  let isPart (b : UInt8) : Bool := b != 61
  let some flag := Flag.ofName? (text.takeWhile isPart) | throw .badOption
  match flag.takesValue, text.dropWhile isPart with
  | true, _ :: value => return (← line.set flag value, none)
  | true, [] => return (line, some flag)
  | false, [] => return (← line.set flag [], none)
  | false, _ => throw .badOption

/-- Takes one argument. An option whose value is not there is left over. -/
def takeArgument (line : CommandLine) (argument : Bytes) :
    Except Complaint (CommandLine × Option Flag) :=
  match argument with
  | 45 :: 45 :: text => line.takeName text
  | 45 :: letter :: letters => line.takeLetters (letter :: letters)
  | operand => .ok ({ line with operands := line.operands ++ [operand] }, none)

/-- Takes the arguments one after the other. -/
def takeAll (line : CommandLine) : List Bytes → Except Complaint CommandLine
  | [] => return line
  | argument :: rest => do
    if argument = ascii "--" then return { line with operands := line.operands ++ rest }
    match ← line.takeArgument argument with
    | (line, none) => takeAll line rest
    | (line, some flag) =>
      match rest with
      | [] => throw .badOption
      | value :: rest => takeAll (← line.set flag value) rest

/-- What the arguments say, and the root directory. An argument ends before its first NUL. -/
def parse (arguments : List Bytes) : Except Complaint (CommandLine × Bytes) := do
  let line ← takeAll {} (arguments.map beforeNul)
  match line.operands with
  | [] => throw .noRoot
  | root :: _ => return (line, root)

end CommandLine

end Tftp
