import Tftp.FileTree.Listing
import Tftp.Server.Rehearsal

/-!
# Scripts as text

A script is written one item a line, with blanks between the words: what there is in the tree of
files before the program starts, and then what happens to it. Bytes are written in hexadecimal
digits and may be left out if there are none.

    dir PATH                  listen ADDRESS BYTES
    file PATH BYTES           packet NUMBER ADDRESS BYTES
    link PATH TARGET          wait MILLISECONDS
    remove PATH               stop

`Event.line?` writes what happens.
-/

namespace Tftp

namespace Hex

/-- The value of a hexadecimal digit. -/
def value? (b : UInt8) : Option UInt8 :=
  if isDigit b then some (b - 48)
  else if 97 ≤ b ∧ b ≤ 102 then some (b - 87)
  else none

/-- The hexadecimal digit of a number below sixteen. -/
def digit (n : UInt8) : UInt8 := if n < 10 then 48 + n else 87 + n

/-- Two digits for every byte. -/
def encode (bytes : Bytes) : Bytes := bytes.flatMap fun b => [digit (b / 16), digit (b % 16)]

/-- Reads two digits for every byte. -/
def decode? : Bytes → Option Bytes
  | [] => some []
  | [_] => none
  | a :: b :: rest => do some ((16 * (← value? a) + (← value? b)) :: (← decode? rest))

end Hex

namespace Script

/-- A number in decimal digits. -/
def number? (word : Bytes) : Option Nat :=
  if Decimal.isNumber word then some (Decimal.read word) else none

/-- An address written as `a.b.c.d:port`. -/
def address? (word : Bytes) : Option Address :=
  match fields 58 word with
  | [ip, port] => do
    let port ← number? port
    if port < 65536 then some ⟨← Ip.ofText? ip, UInt16.ofNat port⟩ else none
  | _ => none

/-- A line about the tree of files. -/
def change? (line : Bytes) : Option Change :=
  match fields 32 line with
  | [] => none
  | word :: words =>
    if word = ascii "dir" then
      match words with
      | [path] => some (.put path .directory)
      | _ => none
    else if word = ascii "file" then
      match words with
      | [path] => some (.put path (.file []))
      | [path, bytes] => do some (.put path (.file (← Hex.decode? bytes)))
      | _ => none
    else if word = ascii "link" then
      match words with
      | [path, target] => some (.put path (.link target))
      | _ => none
    else if word = ascii "remove" then
      match words with
      | [path] => some (.clear path)
      | _ => none
    else none

/-- A line about what happens. -/
def cue? (line : Bytes) : Option Server.Cue :=
  match fields 32 line with
  | [] => none
  | word :: words =>
    if word = ascii "listen" then
      match words with
      | [sender] => do some (.request (← address? sender) [])
      | [sender, bytes] => do some (.request (← address? sender) (← Hex.decode? bytes))
      | _ => none
    else if word = ascii "packet" then
      match words with
      | [number, sender] => do
        some (.transfer (← number? number) (.datagram (← address? sender) []))
      | [number, sender, bytes] => do
        let reception := Reception.datagram (← address? sender) (← Hex.decode? bytes)
        some (.transfer (← number? number) reception)
      | _ => none
    else if word = ascii "wait" then
      match words with
      | [ms] => do some (.pause (← number? ms))
      | _ => none
    else if line = ascii "stop" then some .stop
    else none

end Script

namespace Event

/-- Whether an event belongs to what has gone wrong. -/
def isError : Event → Bool
  | logged notice => notice.level = .error
  | _ => false

/-- What is written about an event; of what a storage keeps a record of, nothing is. -/
def line? : Event → Option Bytes
  | logged notice => some notice.text
  | sent sender receiver bytes time =>
    some (Decimal.printInt time ++ ascii " ms: " ++ sender.text ++ ascii " > " ++ receiver.text ++
      ascii ": " ++ Hex.encode bytes)
  | lost number => some (ascii "Nobody receives on socket " ++ Decimal.print number)
  | _ => none

end Event

end Tftp
