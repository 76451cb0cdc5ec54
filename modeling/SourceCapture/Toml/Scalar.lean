/-
The scalars of TOML that are written without quotes: booleans, numbers and dates. Each is a
word of letters, digits and a few signs, so the word is cut out first and then read as a
whole.
-/

import SourceCapture.Number
import SourceCapture.Text.Pieces
import SourceCapture.Toml.Table

namespace SourceCapture.Toml

/-- The characters of a word. -/
def isWordChar (char : Char) : Bool :=
  char.isAlphanum || char = '+' || char = '-' || char = '_' || char = '.' || char = ':'

/-! ### Digits -/

/-- Whether a text is digits, with single underscores between them. -/
def isDigitRun (isDigit : Char → Bool) : List Char → Bool
  | [] => false
  | [char] => isDigit char
  | char :: '_' :: rest => isDigit char && isDigitRun isDigit rest
  | char :: rest => isDigit char && isDigitRun isDigit rest

/-- The text without underscores. -/
def withoutUnderscores (text : List Char) : List Char := text.filter (· ≠ '_')

/-- The text without a sign in front. -/
def withoutSign : List Char → List Char
  | '+' :: rest => rest
  | '-' :: rest => rest
  | text => text

/-- Whether a text is a decimal number without a sign and without needless zeros. -/
def isDecimal (text : List Char) : Bool :=
  isDigitRun Char.isDigit text && (text.head? ≠ some '0' || text.length = 1)

/-! ### Integers -/

/-- Reads an integer of 64 bits. A radix other than ten has a prefix and no sign. -/
def readInteger? (word : List Char) : Option Int :=
  let inRadix := fun (radix : Nat) (digits : List Char) =>
    let isDigit := fun char => (Number.digitValue? radix char).isSome
    if isDigitRun isDigit digits then Number.readSigned? radix (withoutUnderscores digits)
    else none
  match word with
  | '0' :: 'x' :: digits => inRadix 16 digits
  | '0' :: 'o' :: digits => inRadix 8 digits
  | '0' :: 'b' :: digits => inRadix 2 digits
  | _ =>
    if isDecimal (withoutSign word) then Number.readSigned? 10 (withoutUnderscores word) else none

/-! ### Fractional numbers -/

/-- The least value that is too large for a fraction of 64 bits. -/
def fractionLimit : Nat := Nat.pow 2 1024 - Nat.pow 2 970

/-- Whether a decimal number, digits times a power of ten, reaches the limit. Far from the
limit the number of digits tells. -/
def reachesLimit (digits : Nat) (exponent : Int) : Bool :=
  if digits = 0 then false
  else
    let magnitude : Int := (Nat.toDigits 10 digits).length + exponent
    if magnitude ≤ 308 then false
    else if 310 ≤ magnitude then true
    else if 0 ≤ exponent then fractionLimit ≤ digits * Nat.pow 10 exponent.toNat
    else fractionLimit * Nat.pow 10 (-exponent).toNat ≤ digits

/-- The value of decimal digits. -/
def digitsValue (digits : List Char) : Nat :=
  digits.foldl (fun value char => 10 * value + (char.toNat - '0'.toNat)) 0

/-- The whole part, the digits after the point and the exponent of a fractional number
without a sign. At least one of the latter two must be there. -/
def splitFraction? (text : List Char) : Option (List Char × List Char × Int) :=
  let isMark := fun char => char = 'e' || char = 'E'
  let mantissa := text.takeWhile (!isMark ·)
  let whole := mantissa.takeWhile (· ≠ '.')
  let point := mantissa.dropWhile (· ≠ '.')
  let power := text.dropWhile (!isMark ·)
  let isPoint := point.isEmpty || isDigitRun Char.isDigit point.tail
  let isPower := power.isEmpty || isDigitRun Char.isDigit (withoutSign power.tail)
  if isDecimal whole && isPoint && isPower && !(point.isEmpty && power.isEmpty) then
    let size : Int := digitsValue (withoutUnderscores (withoutSign power.tail))
    let exponent := if power.tail.head? = some '-' then -size else size
    some (withoutUnderscores whole, withoutUnderscores point.tail, exponent)
  else none

/-- Whether a word is a fractional number. One that is too large is none, unless it is
negative. -/
def isFraction (word : List Char) : Bool :=
  let bare := withoutSign word
  if bare = "inf".toList || bare = "nan".toList then true
  else match splitFraction? bare with
    | some (whole, point, exponent) =>
      word.head? = some '-' ||
        !reachesLimit (digitsValue (whole ++ point)) (exponent - point.length)
    | none => false

/-! ### Dates and times -/

/-- The value of exactly `count` digits, and what follows them. -/
def readDigits? (count : Nat) (text : List Char) : Option (Nat × List Char) :=
  let digits := text.take count
  if digits.length = count && digits.all Char.isDigit then
    some (digitsValue digits, text.drop count)
  else none

/-- What follows a character. -/
def skip? (char : Char) (text : List Char) : Option (List Char) :=
  Text.stripStart? [char] text

/-- The number of days of a month. -/
def daysIn (year month : Nat) : Nat :=
  if month = 2 then
    if year % 4 = 0 && (year % 100 ≠ 0 || year % 400 = 0) then 29 else 28
  else if [4, 6, 9, 11].contains month then 30
  else 31

/-- What follows a date. -/
def afterDate? (text : List Char) : Option (List Char) := do
  let (year, rest) ← readDigits? 4 text
  let (month, rest) ← readDigits? 2 (← skip? '-' rest)
  let (day, rest) ← readDigits? 2 (← skip? '-' rest)
  if 1 ≤ month && month ≤ 12 && 1 ≤ day && day ≤ daysIn year month then some rest else none

/-- What follows a time of day. A leap second is one. -/
def afterTime? (text : List Char) : Option (List Char) := do
  let (hour, rest) ← readDigits? 2 text
  let (minute, rest) ← readDigits? 2 (← skip? ':' rest)
  let (second, rest) ← readDigits? 2 (← skip? ':' rest)
  if hour ≤ 23 && minute ≤ 59 && second ≤ 60 then
    match rest with
    | '.' :: digit :: more => if digit.isDigit then some (more.dropWhile Char.isDigit) else none
    | _ => some rest
  else none

/-- Whether a text is a distance from universal time. -/
def isOffset : List Char → Bool
  | ['Z'] => true
  | ['z'] => true
  | sign :: rest =>
    (sign = '+' || sign = '-') &&
      match readDigits? 2 rest with
      | some (hour, ':' :: minutes) =>
        match readDigits? 2 minutes with
        | some (minute, []) => hour ≤ 23 && minute ≤ 59
        | _ => false
      | _ => false
  | [] => false

/-- Whether a text is a time of day, with or without its distance from universal time. -/
def isTimeWithOffset (text : List Char) : Bool :=
  match afterTime? text with
  | some rest => rest.isEmpty || isOffset rest
  | none => false

/-- Whether a word is a date. -/
def isDate (word : List Char) : Bool := afterDate? word = some []

/-- Whether a word is a date with a time, or a time of day alone. -/
def isMoment (word : List Char) : Bool :=
  match afterDate? word with
  | some (mark :: time) => (mark = 'T' || mark = 't') && isTimeWithOffset time
  | some [] => false
  | none => afterTime? word = some []

/-! ### Words -/

/-- The scalar that a word writes. -/
def ofWord? (word : List Char) : Option Value :=
  if word = "true".toList then some (.bool true)
  else if word = "false".toList then some (.bool false)
  else match readInteger? word with
    | some value => some (.integer value)
    | none =>
      if isFraction word then some (.fraction (String.ofList word))
      else if isDate word || isMoment word then some (.date (String.ofList word))
      else none

/-- Reads a scalar at the start of a text. A date may go on with a time after one blank. -/
def readWord? (text : List Char) : Option (Value × List Char) :=
  let word := text.takeWhile isWordChar
  let rest := text.dropWhile isWordChar
  match rest with
  | ' ' :: digit :: more =>
    if isDate word && digit.isDigit then
      let time := (digit :: more).takeWhile isWordChar
      if isTimeWithOffset time then
        some (.date (String.ofList (word ++ ' ' :: time)), (digit :: more).dropWhile isWordChar)
      else none
    else (ofWord? word).map (·, rest)
  | _ => (ofWord? word).map (·, rest)

end SourceCapture.Toml
