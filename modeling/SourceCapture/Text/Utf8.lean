/-
Reading bytes as text whatever they are. Well-formed parts read as themselves; every
longest part that starts a character without finishing it, and every byte that starts none,
reads as one replacement character.
-/

namespace SourceCapture.Text

/-- The character that stands for bytes that are no text. -/
def replacement : Char := '\ufffd'

/-- The bytes that may follow a first byte: how many, and the range of the first of them.
There is no answer for a byte that starts no longer character. -/
def continuation? (first : Nat) : Option (Nat × Nat × Nat) :=
  if 0xC2 ≤ first && first ≤ 0xDF then some (1, 0x80, 0xBF)
  else if first = 0xE0 then some (2, 0xA0, 0xBF)
  else if first = 0xED then some (2, 0x80, 0x9F)
  else if 0xE1 ≤ first && first ≤ 0xEF then some (2, 0x80, 0xBF)
  else if first = 0xF0 then some (3, 0x90, 0xBF)
  else if 0xF1 ≤ first && first ≤ 0xF3 then some (3, 0x80, 0xBF)
  else if first = 0xF4 then some (3, 0x80, 0x8F)
  else none

/-- Reads bytes as text. A character under way is given by the bits read so far, the number
of bytes that are missing, and the range in which the next of them must lie. -/
def decodeFrom (pending : Option (Nat × Nat × Nat × Nat)) : List UInt8 → List Char
  | [] => if pending.isSome then [replacement] else []
  | byte :: rest =>
    let value := byte.toNat
    let start : List Char × Option (Nat × Nat × Nat × Nat) :=
      if value < 0x80 then ([Char.ofNat value], none)
      else match continuation? value with
        | some (1, low, high) => ([], some (value % 0x20, 1, low, high))
        | some (2, low, high) => ([], some (value % 0x10, 2, low, high))
        | some (count, low, high) => ([], some (value % 0x08, count, low, high))
        | none => ([replacement], none)
    match pending with
    | none => start.1 ++ decodeFrom start.2 rest
    | some (bits, missing, low, high) =>
      if low ≤ value && value ≤ high then
        let extended := 64 * bits + value % 64
        if missing ≤ 1 then Char.ofNat extended :: decodeFrom none rest
        else decodeFrom (some (extended, missing - 1, 0x80, 0xBF)) rest
      else replacement :: (start.1 ++ decodeFrom start.2 rest)

/-- The text that bytes read as. -/
def decodeLossy (bytes : ByteArray) : String := String.ofList (decodeFrom none bytes.toList)

end SourceCapture.Text
