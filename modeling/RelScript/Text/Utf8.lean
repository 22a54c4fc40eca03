/-!
Bytes and text. Valid UTF-8 reads as the text it encodes; elsewhere each longest run of bytes that
begins a character and cannot be completed reads as one replacement character.
-/

namespace RelScript.Text

/-- The character shown for bytes that are no text. -/
def replacement : Char := '\ufffd'

/-- Whether the byte continues a character. -/
def isContinuation (b : UInt8) : Bool := 0x80 ≤ b && b ≤ 0xbf

/-- The second bytes that may follow the first byte of a character of three or four bytes. -/
def isSecond (first b : UInt8) : Bool :=
  if first = 0xe0 then 0xa0 ≤ b && b ≤ 0xbf
  else if first = 0xed then 0x80 ≤ b && b ≤ 0x9f
  else if first = 0xf0 then 0x90 ≤ b && b ≤ 0xbf
  else if first = 0xf4 then 0x80 ≤ b && b ≤ 0x8f
  else isContinuation b

/-- Number of bytes after the first one of a character; none if no character starts so. -/
def tailLength? (first : UInt8) : Option Nat :=
  if first < 0x80 then some 0
  else if 0xc2 ≤ first && first ≤ 0xdf then some 1
  else if 0xe0 ≤ first && first ≤ 0xef then some 2
  else if 0xf0 ≤ first && first ≤ 0xf4 then some 3
  else none

/-- How many of the next `count` bytes continue the character that `first` begins. -/
def goodTail (first : UInt8) (count : Nat) (rest : List UInt8) : Nat :=
  match count, rest with
  | 0, _ => 0
  | _ + 1, [] => 0
  | count + 1, b :: rest =>
    if isSecond first b then 1 + ((rest.take count).takeWhile isContinuation).length else 0

/-- The character with the given first byte and tail. -/
def assemble (first : UInt8) (tail : List UInt8) : Char :=
  let lead := match tail.length with
    | 0 => first.toNat
    | 1 => first.toNat % 0x20
    | 2 => first.toNat % 0x10
    | _ => first.toNat % 0x08
  Char.ofNat (tail.foldl (fun n b => n * 0x40 + b.toNat % 0x40) lead)

/-- Reads characters, replacing what is no text. -/
def decodeChars : List UInt8 → List Char
  | [] => []
  | first :: rest =>
    match tailLength? first with
    | none => replacement :: decodeChars rest
    | some count =>
      let good := goodTail first count rest
      let c := if good = count then assemble first (rest.take count) else replacement
      c :: decodeChars (rest.drop good)
  termination_by bytes => bytes.length

/-- The text of some bytes, with replacement characters for what is no text. -/
def decodeLossy (bytes : ByteArray) : String :=
  match String.fromUTF8? bytes with
  | some text => text
  | none => String.ofList (decodeChars bytes.toList)

end RelScript.Text
