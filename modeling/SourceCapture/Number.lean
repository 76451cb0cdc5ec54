/-
Reading whole numbers. A reader names what is wrong with a text that it refuses: nothing
to read, a character that is no digit, or a value past the limit, whichever it meets
first from the left.
-/

namespace SourceCapture

/-- Why a text is no number. -/
inductive NumberError where
  | empty
  | invalidDigit
  | tooLarge
  deriving Repr, DecidableEq

namespace NumberError

/-- The wording of the error. -/
def message : NumberError → String
  | .empty => "cannot parse integer from empty string"
  | .invalidDigit => "invalid digit found in string"
  | .tooLarge => "number too large to fit in target type"

end NumberError

namespace Number

/-- The largest unsigned number of 64 bits. -/
def unsignedLimit : Nat := Nat.pow 2 64 - 1

/-- One more than the largest signed number of 64 bits. Its negative is the least one. -/
def signedEnd : Nat := Nat.pow 2 63

/-- The value of a digit in a radix of at most 36, in either case of the letters. -/
def digitValue? (radix : Nat) (char : Char) : Option Nat :=
  let code := char.toNat
  let value :=
    if 48 ≤ code && code ≤ 57 then code - 48
    else if 97 ≤ code && code ≤ 122 then code - 87
    else if 65 ≤ code && code ≤ 90 then code - 55
    else radix
  if value < radix then some value else none

/-- Reads the digits after those that have the value `value`, up to the limit. -/
def readDigits (radix limit value : Nat) : List Char → Except NumberError Nat
  | [] => .ok value
  | char :: rest =>
    match digitValue? radix char with
    | none => .error .invalidDigit
    | some digit =>
      let next := value * radix + digit
      if limit < next then .error .tooLarge else readDigits radix limit next rest

/-- Reads an unsigned number. One plus sign may precede the digits. -/
def readUnsigned (radix limit : Nat) : List Char → Except NumberError Nat
  | [] => .error .empty
  | ['+'] => .error .invalidDigit
  | '+' :: digits => readDigits radix limit 0 digits
  | digits => readDigits radix limit 0 digits

/-- Reads a number of 64 bits with an optional sign. -/
def readSigned? (radix : Nat) : List Char → Option Int
  | '-' :: digits =>
    if digits.isEmpty then none
    else match readDigits radix signedEnd 0 digits with
      | .ok value => some (-value)
      | .error _ => none
  | text =>
    match readUnsigned radix (signedEnd - 1) text with
    | .ok value => some value
    | .error _ => none

end Number

end SourceCapture
