import Tftp.Packet.Encode

/-!
# Reading packets

`Packet.parse` reads a datagram as a packet or says what is wrong with it. It is more tolerant than
`Packet.encode` is: letter case of modes and option names does not matter, option values may have
leading zeros, options may come in any order, unknown options are skipped, an unknown error code
counts as code 0, and bytes after the message of an ERROR are ignored.

A request is read from left to right and the first fault found is the one reported: file name, mode,
then each option in turn, first its name, then that it has a value, then that it has not occurred
before, then the value itself.
-/

namespace Tftp

/-- The options that are negotiated. -/
inductive OptionName
  | blockSize
  | timeout
  | transferSize
  deriving DecidableEq, Repr

namespace OptionName

/-- The name on the wire. -/
def text : OptionName → Bytes
  | blockSize => Options.blockSizeName
  | timeout => Options.timeoutName
  | transferSize => Options.transferSizeName

end OptionName

/-- Why a datagram is not a packet. -/
inductive Malformed
  /-- There are no two bytes of opcode. -/
  | noOpcode
  /-- The opcode is none of the six. -/
  | unknownOpcode
  /-- A request of less than four bytes. -/
  | shortRequest
  /-- The file name is empty or does not end. -/
  | badFilename
  /-- The mode is empty, does not end or is none of the three. -/
  | badMode
  /-- An option name is empty or does not end. -/
  | badOptionName
  /-- The value of an option does not end. -/
  | missingValue (name : Bytes)
  /-- A known option occurs a second time. -/
  | repeatedOption
  /-- The value of a known option is not a number. -/
  | notANumber (name : OptionName)
  /-- The value of a known option is too large for it. -/
  | outOfRange (name : OptionName)
  /-- A DATA without a block number. -/
  | shortData
  /-- An ACK that is not four bytes. -/
  | badAckSize
  /-- An ERROR without a code and a text. -/
  | shortError
  /-- The message of an ERROR does not end. -/
  | badErrorMessage
  /-- An OACK without an opcode. -/
  | shortOack
  deriving DecidableEq, Repr

namespace Malformed

/-- Whether the fault is in the value of a known option, or in how often it occurs. -/
def isOption : Malformed → Bool
  | repeatedOption | notANumber _ | outOfRange _ => true
  | _ => false

/-- The wording of a fault. -/
def message : Malformed → Bytes
  | noOpcode => ascii "Buffer too short to determine opcode"
  | unknownOpcode => ascii "Unknown or unhandled TFTP opcode"
  | shortRequest => ascii "Buffer too short for request packet"
  | badFilename => ascii "Invalid filename"
  | badMode => ascii "Invalid mode"
  | badOptionName => ascii "Invalid option name"
  | missingValue name => ascii "Missing value of option " ++ name
  | repeatedOption => ascii "Option occurs multiple times"
  | notANumber name => ascii "Invalid value of option " ++ name.text
  | outOfRange name => ascii "Value of option " ++ name.text ++ ascii " is out of range"
  | shortData => ascii "Buffer too short for DATA packet"
  | badAckSize => ascii "Buffer size for ACK packet must be 4"
  | shortError => ascii "Buffer too short for ERROR packet"
  | badErrorMessage => ascii "Invalid error message"
  | shortOack => ascii "Buffer too short for OACK packet"

end Malformed

/-- The word of two bytes, most significant first. -/
def wordOf (high low : UInt8) : UInt16 := UInt16.ofNat (high.toNat * 256 + low.toNat)

namespace Options

/-- The number an option value denotes, if it is at most `limit`. -/
def number (name : OptionName) (limit : Nat) (value : Bytes) : Except Malformed Nat :=
  if !Decimal.isNumber value then throw (.notANumber name)
  else if Decimal.read value ≤ limit then return Decimal.read value
  else throw (.outOfRange name)

/-- Takes one more option into account. The name is in lower case already; an unknown one changes
nothing. -/
def add (o : Options) (name value : Bytes) : Except Malformed Options := do
  if name = blockSizeName then
    if o.blockSize.isSome then throw .repeatedOption
    let n ← number .blockSize 65535 value
    return { o with blockSize := some (UInt16.ofNat n) }
  else if name = timeoutName then
    if o.timeout.isSome then throw .repeatedOption
    let n ← number .timeout 255 value
    return { o with timeout := some (UInt8.ofNat n) }
  else if name = transferSizeName then
    if o.transferSize.isSome then throw .repeatedOption
    let n ← number .transferSize 18446744073709551615 value
    return { o with transferSize := some (UInt64.ofNat n) }
  else
    return o

/-- Reads option pairs to the end of the datagram, on top of those read before. -/
def parse (o : Options) (s : Bytes) : Except Malformed Options :=
  if s = [] then .ok o
  else match hn : splitNul s with
    | none => .error .badOptionName
    | some (name, s') =>
      if name = [] then .error .badOptionName
      else match hv : splitNul s' with
        | none => .error (.missingValue (lower name))
        | some (value, rest) =>
          match o.add (lower name) value with
          | .error e => .error e
          | .ok o =>
            have := splitNul_length hn
            have := splitNul_length hv
            parse o rest
termination_by s.length
decreasing_by omega

end Options

namespace Packet

/-- Reads a request; anything but the opcode of a read request makes it a write request. -/
def parseRequest : Bytes → Except Malformed Packet
  | high :: low :: s@(_ :: _ :: _) =>
    match splitNul s with
    | none => .error .badFilename
    | some (filename, s) =>
      if filename = [] then .error .badFilename
      else match splitNul s with
        | none => .error .badMode
        | some (mode, s) =>
          match Mode.ofName? mode with
          | none => .error .badMode
          | some mode => do
            let options ← Options.parse {} s
            let direction := if wordOf high low = 1 then Direction.read else .write
            return .request direction { filename, mode, options }
  | _ => .error .shortRequest

/-- Reads a DATA, whatever its opcode. -/
def parseData : Bytes → Except Malformed Packet
  | _ :: _ :: high :: low :: payload => .ok (.data (wordOf high low) payload)
  | _ => .error .shortData

/-- Reads an ACK, whatever its opcode. -/
def parseAck : Bytes → Except Malformed Packet
  | [_, _, high, low] => .ok (.ack (wordOf high low))
  | _ => .error .badAckSize

/-- Reads an ERROR, whatever its opcode. A code above 8 counts as 0. -/
def parseError : Bytes → Except Malformed Packet
  | _ :: _ :: high :: low :: s@(_ :: _) =>
    match splitNul s with
    | none => .error .badErrorMessage
    | some (message, _) =>
      let code := wordOf high low
      .ok (.error (if code ≤ 8 then ⟨code⟩ else .notDefined) message)
  | _ => .error .shortError

/-- Reads an OACK, whatever its opcode. -/
def parseOack : Bytes → Except Malformed Packet
  | _ :: _ :: s => (Options.parse {} s).map .oack
  | _ => .error .shortOack

/-- Reads a datagram as the packet that its opcode announces. -/
def parse : Bytes → Except Malformed Packet
  | s@(high :: low :: _) =>
    match (wordOf high low).toNat with
    | 1 | 2 => parseRequest s
    | 3 => parseData s
    | 4 => parseAck s
    | 5 => parseError s
    | 6 => parseOack s
    | _ => .error .unknownOpcode
  | _ => .error .noOpcode

end Packet

end Tftp
