/-
Views of one place that differ in what is known of other files. Which declarations a file
holds, and under which names, can be told from the file alone.
-/

import SourceCapture.FileConstants

namespace SourceCapture.Site

/-- Two views of one place, which can differ in what is known of other files. -/
structure SamePlace (site other : Site) : Prop where
  content : site.content = other.content
  scope : site.scope = other.scope
  enclosing : site.enclosing = other.enclosing

namespace SamePlace

variable {site other : Site}

theorem qualify (same : site.SamePlace other) (name : String) :
    site.qualify name = other.qualify name := by
  rw [Site.qualify, Site.qualify, same.enclosing, same.scope]

theorem inside (same : site.SamePlace other) (fqn : String) :
    (site.inside fqn).SamePlace (other.inside fqn) :=
  ⟨same.content, same.scope, congrArg (fqn :: ·) same.enclosing⟩

/-! ### Definitions of constants -/

theorem ofProperty? (same : site.SamePlace other) (property : Tree) :
    ConstDefinition.ofProperty? site property = ConstDefinition.ofProperty? other property := by
  simp only [ConstDefinition.ofProperty?, same.content, same.qualify, same.enclosing]

mutual

theorem listBelow {site other : Site} (same : site.SamePlace other) : ∀ tree : Tree,
    ConstDefinition.listBelow site tree = ConstDefinition.listBelow other tree
  | .node _ _ _ _ children => by
    rw [ConstDefinition.listBelow, ConstDefinition.listBelow, same.listAmong children]

theorem listAmong {site other : Site} (same : site.SamePlace other) : ∀ trees : List Tree,
    ConstDefinition.listAmong site trees = ConstDefinition.listAmong other trees
  | [] => rfl
  | first :: rest => by
    have inner : ∀ name, ConstDefinition.listBelow (site.inside (site.qualify name)) first =
        ConstDefinition.listBelow (other.inside (other.qualify name)) first := by
      intro name
      rw [same.qualify]
      exact (same.inside _).listBelow first
    simp only [ConstDefinition.listAmong, inner, same.content, same.ofProperty?,
      same.listBelow first, same.listAmong rest]

end

end SamePlace

end SourceCapture.Site
