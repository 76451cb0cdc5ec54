/-
The constants of a file. Their definitions may refer to each other in any order, so they are
folded in passes: each pass folds what can be folded with the values so far, and the passes
end when one of them folds nothing. Constants that only refer to each other are never folded.
-/

import SourceCapture.Header

namespace SourceCapture

/-- The definition of a constant. -/
structure ConstDefinition where
  fqn : String
  /-- The classes around it, innermost first. -/
  enclosing : List String
  initializer : Tree

namespace ConstDefinition

/-- Whether a property is declared as a constant. -/
def isConst (content : List Char) (property : Tree) : Bool :=
  (property.modifiers content).words.contains "const"

/-- The definition that a property is, if it is a constant with an initial value. -/
def ofProperty? (site : Site) (property : Tree) : Option ConstDefinition :=
  if isConst site.content property then
    match property.propertyName? site.content, property.initializer? with
    | some name, some initializer => some ⟨site.qualify name, site.enclosing, initializer⟩
    | _, _ => none
  else none

mutual

/-- The definitions below a node. Functions hold none, and neither do classes without a
name. -/
def listBelow (site : Site) : Tree → List ConstDefinition
  | .node _ _ _ _ children => listAmong site children

/-- The definitions at or below the named ones of some nodes. -/
def listAmong (site : Site) : List Tree → List ConstDefinition
  | [] => []
  | first :: rest =>
    let here :=
      if !first.isNamed then []
      else if first.isClassLike then
        match first.declarationName? site.content with
        | some name => listBelow (site.inside (site.qualify name)) first
        | none => []
      else if first.kind = "property_declaration" then (ofProperty? site first).toList
      else if first.kind = "function_declaration" then []
      else listBelow site first
    here ++ listAmong site rest

end

end ConstDefinition

namespace Site

/-- The value of a definition, with the constants of the site visible. -/
def valueOf (site : Site) (definition : ConstDefinition) : Const :=
  { site with enclosing := definition.enclosing }.evaluate definition.initializer

/-- Folds a definition, unless its name has a value. -/
def foldDefinition (site : Site) (definition : ConstDefinition) : Site :=
  if site.constants.contains definition.fqn then site
  else
    let value := site.valueOf definition
    if value.isConstant then
      { site with constants := site.constants.insert definition.fqn value }
    else site

/-- Folds what can be folded, one definition after the other. -/
def foldPass (site : Site) (definitions : List ConstDefinition) : Site :=
  definitions.foldl foldDefinition site

/-- Folds in passes until one of them folds nothing, in at most `passes` of them. -/
def foldPasses (definitions : List ConstDefinition) : Nat → Site → Site
  | 0, site => site
  | passes + 1, site =>
    let after := site.foldPass definitions
    if after.constants.size = site.constants.size then after
    else foldPasses definitions passes after

/-- Folds all definitions. Every pass but the last folds one at least, which bounds the
number of passes. -/
def foldAll (site : Site) (definitions : List ConstDefinition) : Site :=
  foldPasses definitions (definitions.length + 1) site

end Site

/-- The constants of a file with their values, sorted by name. -/
def constantsOf (site : Site) (root : Tree) : List (String × Const) :=
  (site.foldAll (ConstDefinition.listBelow site root)).constants.entries.mergeSort
    fun left right => !decide (right.1 < left.1)

end SourceCapture
