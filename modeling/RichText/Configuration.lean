import RichText.RuleSet

/-!
Two-way configurations and their compilation.

A configuration has one entry per data tag: how the element is written to data, and how it is rendered back
to the view. A custom configuration is layered over a default one: for one tag, the rule that comes later
runs and may run the earlier one. Several data tags may be rendered to one view tag. Their view rules are
then kept apart by origin, and all run, one after another, when that tag is met.
-/

namespace RichText

/-- How an element is rendered back to the view. -/
inductive ElementView (κ σ : Type) where
  /-- To the tag it has in the data. -/
  | same (rule : ElementRule κ σ)
  /-- To other tags, each with a rule. -/
  | targets (rules : List (String × ElementRule κ σ))

/-- The configuration of one data tag. -/
structure ElementEntry (κ σ : Type) where
  toData : Option (ElementRule κ σ) := none
  toView : Option (ElementView κ σ) := none

namespace ElementEntry

variable {κ σ : Type}

/-- Sets the rule for writing data. -/
def withToData (entry : ElementEntry κ σ) (rule : ElementRule κ σ) : ElementEntry κ σ :=
  { entry with toData := some rule }

/-- Sets the rule for rendering to the same tag. -/
def withToView (entry : ElementEntry κ σ) (rule : ElementRule κ σ) : ElementEntry κ σ :=
  { entry with toView := some (.same rule) }

/-- Adds a rule for rendering to another tag. -/
def withTarget (entry : ElementEntry κ σ) (tag : String) (rule : ElementRule κ σ) : ElementEntry κ σ :=
  match entry.toView with
  | some (.targets rules) => { entry with toView := some (.targets (rules ++ [(tag, rule)])) }
  | _ => { entry with toView := some (.targets [(tag, rule)]) }

end ElementEntry

/-- The configuration of text nodes. -/
structure TextEntry (κ σ : Type) where
  toData : Option (TextRule κ σ) := none
  toView : Option (TextRule κ σ) := none

/-- A two-way configuration, by lower-case data tag or reserved key. A key may have several entries. -/
structure Configuration (κ σ : Type) where
  elements : List (String × ElementEntry κ σ) := []
  text : Option (TextEntry κ σ) := none

/-- The compiled rule sets of both directions. -/
structure Compiled (κ σ : Type) where
  toData : RuleSet κ σ
  toView : RuleSet κ σ

/-- Where a view rule comes from. -/
inductive Origin where
  /-- From the data tag whose data rule it reverts. -/
  | tag (key : String)
  /-- From an entry for a key that has no data rule. -/
  | unbound
  deriving DecidableEq, Repr

/-- View rules by target tag and then by origin, both in the order of their first rule. -/
abbrev Buckets (κ σ : Type) := List (String × List (Origin × ElementRule κ σ))

variable {κ σ : Type}

/-- Layers a rule over the one that is there. -/
def layer {P : Type} (rule : Rule κ σ P) : Option (Rule κ σ P) → Rule κ σ P
  | some parent => Rule.chain parent rule
  | none => rule

/-- Adds a view rule, over the earlier ones of the same target and origin. -/
def Buckets.add (buckets : Buckets κ σ) (target : String) (origin : Origin) (rule : ElementRule κ σ) :
    Buckets κ σ :=
  Keyed.alter target (fun present => Keyed.alter origin (layer rule) (present.getD [])) buckets

/-- One rule per target, which runs those of all origins in order. -/
def Buckets.rules (buckets : Buckets κ σ) : List (String × ElementRule κ σ) :=
  buckets.map fun (target, origins) => (target, Rule.sequence (origins.map Prod.snd))

namespace Configuration

/-- What the entries read so far have been compiled to. -/
structure Progress (κ σ : Type) where
  toData : List (String × ElementRule κ σ) := []
  toDataText : Option (TextRule κ σ) := none
  toView : Buckets κ σ := []
  toViewText : Option (TextRule κ σ) := none

namespace Progress

/-- The origin of the view rules of a key: its tag, if an entry so far has a data rule for it. -/
def originOf (progress : Progress κ σ) (key : String) : Origin :=
  if (progress.toData.lookup key).isSome then .tag key else .unbound

/-- Compiles the data rule of an entry. -/
def addToData (progress : Progress κ σ) (key : String) : Option (ElementRule κ σ) → Progress κ σ
  | some rule => { progress with toData := Keyed.alter key (layer rule) progress.toData }
  | none => progress

/-- Compiles the view rules of an entry. -/
def addToView (progress : Progress κ σ) (key : String) : Option (ElementView κ σ) → Progress κ σ
  | some (.same rule) =>
    { progress with toView := progress.toView.add key (progress.originOf key) rule }
  | some (.targets rules) =>
    { progress with
      toView := rules.foldl (fun buckets (target, rule) =>
        buckets.add target (progress.originOf key) rule) progress.toView }
  | none => progress

/-- Compiles one entry. -/
def addEntry (progress : Progress κ σ) (key : String) (entry : ElementEntry κ σ) : Progress κ σ :=
  (progress.addToData key entry.toData).addToView key entry.toView

/-- Layers a text rule over the one that is there; without a new one that one stays. -/
def layerText (present new : Option (TextRule κ σ)) : Option (TextRule κ σ) :=
  match new with
  | some rule => some (layer rule present)
  | none => present

/-- Compiles the entries of a configuration over those compiled so far. -/
def add (progress : Progress κ σ) (configuration : Configuration κ σ) : Progress κ σ :=
  let progress := configuration.elements.foldl (fun p (key, entry) => p.addEntry key entry) progress
  match configuration.text with
  | none => progress
  | some text =>
    { progress with
      toDataText := layerText progress.toDataText text.toData
      toViewText := layerText progress.toViewText text.toView }

/-- The rule sets of what was compiled. -/
def finish (progress : Progress κ σ) : Compiled κ σ where
  toData := { elements := progress.toData, text := progress.toDataText }
  toView := { elements := progress.toView.rules, text := progress.toViewText }

end Progress

/-- Compiles a custom configuration over a default one. -/
def compile (custom default : Option (Configuration κ σ)) : Compiled κ σ :=
  (([default, custom].filterMap id).foldl Progress.add {}).finish

end Configuration

end RichText
