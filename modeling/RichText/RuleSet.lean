import RichText.Rule

/-!
Rule sets: the rules of one direction, by tag.

Three keys are no tags. The rule of `^` runs on every element before the rule of its tag, that of `$` after
it, and that of `$$` after its children.
-/

namespace RichText

/-- The rules of one direction. -/
structure RuleSet (κ σ : Type) where
  /-- Element rules by lower-case tag or reserved key; each key has one rule. -/
  elements : List (String × ElementRule κ σ) := []
  /-- The rule of every text node. -/
  text : Option (TextRule κ σ) := none

namespace RuleSet

variable {κ σ : Type}

/-- The key of the rule that runs before the rule of the tag. -/
def beforeElement : String := "^"

/-- The key of the rule that runs after the rule of the tag and before the children. -/
def afterElement : String := "$"

/-- The key of the rule that runs after the children. -/
def afterChildren : String := "$$"

/-- The rule of a key. -/
def element? (rules : RuleSet κ σ) (key : String) : Option (ElementRule κ σ) := rules.elements.lookup key

/-- Gives a key its rule, in place of an earlier one. -/
def withElement (rules : RuleSet κ σ) (key : String) (rule : ElementRule κ σ) : RuleSet κ σ :=
  { rules with elements := Keyed.put key rule rules.elements }

/-- Sets the rule of the text nodes. -/
def withText (rules : RuleSet κ σ) (rule : TextRule κ σ) : RuleSet κ σ := { rules with text := some rule }

/-- Whether there are no rules at all. -/
def isEmpty (rules : RuleSet κ σ) : Bool := rules.elements.isEmpty && rules.text.isNone

/-- The keys in ascending order of their code points. -/
def keys (rules : RuleSet κ σ) : List String :=
  (rules.elements.map Prod.fst).mergeSort fun a b => decide (a ≤ b)

/-- A summary of the set: its keys, and whether it has a text rule. -/
def summary (rules : RuleSet κ σ) : String :=
  "FilterRuleSet \x7b elements: [" ++ ", ".intercalate (rules.keys.map Text.quote) ++ "], text: "
    ++ toString rules.text.isSome ++ " \x7d"

/-- The element rules that run on an element with this tag before its children, in order. -/
def opening (rules : RuleSet κ σ) (tag : String) : List (ElementRule κ σ) :=
  [beforeElement, tag, afterElement].filterMap rules.element?

/-- The element rules that run after the children. -/
def closing (rules : RuleSet κ σ) : List (ElementRule κ σ) := (rules.element? afterChildren).toList

end RuleSet

end RichText
