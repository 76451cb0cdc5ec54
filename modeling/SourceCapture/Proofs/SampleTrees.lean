/-
Short ways to write down the syntax tree of a small file, for the files at which general
results are looked at. Nodes are given with the offsets at which they start and stop.
-/

import SourceCapture.Tree

namespace SourceCapture.Tree

/-- A token that is only spelled. -/
def token (spelling : String) (start stop : Nat) : Tree :=
  .node spelling false ⟨start, stop⟩ none []

/-- A named node without children. -/
def leaf (kind : String) (start stop : Nat) : Tree := .node kind true ⟨start, stop⟩ none []

/-- A named node with children. -/
def branch (kind : String) (start stop : Nat) (children : List Tree) : Tree :=
  .node kind true ⟨start, stop⟩ none children

/-- The header `package p` at the start of a file, for a package of one character. -/
def packageHeader : Tree :=
  branch "package_header" 0 9
    [token "package" 0 7, branch "qualified_identifier" 8 9 [leaf "identifier" 8 9]]

/-- The import of a name of the library, which takes that many characters. -/
def libraryImport (start length : Nat) : Tree :=
  branch "import" start (start + 34 + length) [
    token "import" start (start + 6),
    branch "qualified_identifier" (start + 7) (start + 34 + length) [
      leaf "identifier" (start + 7) (start + 10),
      token "." (start + 10) (start + 11),
      leaf "identifier" (start + 11) (start + 17),
      token "." (start + 17) (start + 18),
      leaf "identifier" (start + 18) (start + 23),
      token "." (start + 23) (start + 24),
      leaf "identifier" (start + 24) (start + 33),
      token "." (start + 33) (start + 34),
      leaf "identifier" (start + 34) (start + 34 + length)]]

/-- The class `@CaptureSource class N`, for a name of one character, with that many characters
between the annotation and the class. -/
def annotatedClass (start gap : Nat) : Tree :=
  branch "class_declaration" start (start + 21 + gap) [
    branch "modifiers" start (start + 14) [
      branch "annotation" start (start + 14) [
        token "@" start (start + 1),
        branch "user_type" (start + 1) (start + 14) [leaf "identifier" (start + 1) (start + 14)]]],
    token "class" (start + 14 + gap) (start + 19 + gap),
    leaf "identifier" (start + 20 + gap) (start + 21 + gap)]

/-- The constant `const val N = V`, for a name and a value of one character each. -/
def constant (start : Nat) (valueKind : String) : Tree :=
  branch "property_declaration" start (start + 15) [
    branch "modifiers" start (start + 5)
      [branch "property_modifier" start (start + 5) [token "const" start (start + 5)]],
    token "val" (start + 6) (start + 9),
    branch "variable_declaration" (start + 10) (start + 11)
      [leaf "identifier" (start + 10) (start + 11)],
    token "=" (start + 12) (start + 13),
    leaf valueKind (start + 14) (start + 15)]

/-- The import of all names of the library. -/
def wholeLibraryImport (start : Nat) : Tree :=
  branch "import" start (start + 35) [
    token "import" start (start + 6),
    branch "qualified_identifier" (start + 7) (start + 33) [
      leaf "identifier" (start + 7) (start + 10),
      token "." (start + 10) (start + 11),
      leaf "identifier" (start + 11) (start + 17),
      token "." (start + 17) (start + 18),
      leaf "identifier" (start + 18) (start + 23),
      token "." (start + 23) (start + 24),
      leaf "identifier" (start + 24) (start + 33)],
    token "." (start + 33) (start + 34),
    token "*" (start + 34) (start + 35)]

/-- The interface `fun interface N : Capturable<N>`, for a name of one character, that starts at
`declared` behind its modifiers. -/
def capturableInterface (start declared : Nat) (modifiers : List Tree) : Tree :=
  branch "class_declaration" start (declared + 31) (modifiers ++ [
    token "fun" declared (declared + 3),
    token "interface" (declared + 4) (declared + 13),
    leaf "identifier" (declared + 14) (declared + 15),
    token ":" (declared + 16) (declared + 17),
    branch "delegation_specifiers" (declared + 18) (declared + 31) [
      branch "delegation_specifier" (declared + 18) (declared + 31) [
        branch "user_type" (declared + 18) (declared + 31) [
          leaf "identifier" (declared + 18) (declared + 28),
          branch "type_arguments" (declared + 28) (declared + 31) [
            token "<" (declared + 28) (declared + 29),
            branch "type_projection" (declared + 29) (declared + 30) [
              branch "user_type" (declared + 29) (declared + 30)
                [leaf "identifier" (declared + 29) (declared + 30)]],
            token ">" (declared + 30) (declared + 31)]]]]])

/-- The annotation `@Converters(n)`, for a name of one character. -/
def convertersNote (start : Nat) : Tree :=
  branch "modifiers" start (start + 14) [
    branch "annotation" start (start + 14) [
      token "@" start (start + 1),
      branch "constructor_invocation" (start + 1) (start + 14) [
        branch "user_type" (start + 1) (start + 11) [leaf "identifier" (start + 1) (start + 11)],
        branch "value_arguments" (start + 11) (start + 14) [
          token "(" (start + 11) (start + 12),
          branch "value_argument" (start + 12) (start + 13)
            [leaf "identifier" (start + 12) (start + 13)],
          token ")" (start + 13) (start + 14)]]]]

/-- The block `{ V }`, for a number of one character. -/
def blockLiteral (start : Nat) : Tree :=
  branch "lambda_literal" start (start + 5) [
    token "\x7b" start (start + 1),
    leaf "number_literal" (start + 2) (start + 3),
    token "\x7d" (start + 4) (start + 5)]

/-- The call `N { V }`, for a name and a number of one character each. -/
def blockCall (start : Nat) : Tree :=
  branch "call_expression" start (start + 7) [
    leaf "identifier" start (start + 1),
    branch "annotated_lambda" (start + 2) (start + 7) [blockLiteral (start + 2)]]

end SourceCapture.Tree
