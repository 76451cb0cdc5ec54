/-
White space, and taking it off the ends of a text. Texts are lists of characters
here and below, so that a claim about a text is a claim about a list.
-/

namespace SourceCapture.Text

/-- The characters with the Unicode property `White_Space`. -/
def isBlank (char : Char) : Bool :=
  let code := char.toNat
  (0x09 ≤ code && code ≤ 0x0D) || code == 0x20 || code == 0x85 || code == 0xA0 ||
    code == 0x1680 || (0x2000 ≤ code && code ≤ 0x200A) || code == 0x2028 || code == 0x2029 ||
    code == 0x202F || code == 0x205F || code == 0x3000

theorem isBlank_newline : isBlank '\n' = true := by decide

/-- Every character of the text is white space. -/
def allBlank (text : List Char) : Bool := text.all isBlank

/-- The text without the characters at its end that satisfy the test. -/
def dropEndWhile (test : Char → Bool) (text : List Char) : List Char :=
  (text.reverse.dropWhile test).reverse

/-- The text without the characters at either end that satisfy the test. -/
def stripWhile (test : Char → Bool) (text : List Char) : List Char :=
  dropEndWhile test (text.dropWhile test)

/-- The text without the white space at its start. -/
def trimStart (text : List Char) : List Char := text.dropWhile isBlank

/-- The text without the white space at its end. -/
def trimEnd (text : List Char) : List Char := dropEndWhile isBlank text

/-- The text without the white space at both ends. -/
def trim (text : List Char) : List Char := trimEnd (trimStart text)

/-- The text without any white space. -/
def removeBlanks (text : List Char) : List Char := text.filter (!isBlank ·)

@[simp] theorem trimStart_nil : trimStart [] = [] := rfl

@[simp] theorem trimEnd_nil : trimEnd [] = [] := rfl

end SourceCapture.Text
