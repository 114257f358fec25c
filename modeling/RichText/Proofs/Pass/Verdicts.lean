import RichText.Filter
import RichText.Proofs.Pass.Visiting
import RichText.Proofs.Tree.Contents

/-!
Rewriting a forest by verdicts on its elements.

A verdict says what becomes of the elements of one tag. `Forest.rewrite` carries verdicts out on a forest of
contents, by recursion on the forest alone. `Regular` forests are those on which a pass does the same in place.
-/

namespace RichText

open RichText.Tree

variable {verdicts : String → Option Verdict} {prunes : Bool} {space : String}

/-- What becomes of the elements of a tag. -/
inductive Verdict where
  | rename (name : String)
  | remove
  | unwrap
  deriving DecidableEq, Repr

/-- The rule that carries out a verdict. -/
def Verdict.rule {κ σ : Type} : Verdict → ElementRule κ σ
  | rename name => Rule.renameTo name
  | remove => Rule.removeElement
  | unwrap => Rule.unwrapElement

/-- The rules of `f` are those of the verdicts, together with the removal of empty elements after their children
if `prunes` says so. The reserved keys have no verdict. -/
structure Filter.Enacts {κ σ : Type} (f : Filter κ σ) (verdicts : String → Option Verdict) (prunes : Bool) :
    Prop where
  tag : ∀ {key}, key ∉ [RuleSet.beforeElement, RuleSet.afterElement, RuleSet.afterChildren] →
    f.rules.element? key = (verdicts key).map Verdict.rule
  reserved : ∀ {key}, key ∈ [RuleSet.beforeElement, RuleSet.afterElement, RuleSet.afterChildren] →
    verdicts key = none
  before : f.rules.element? RuleSet.beforeElement = none
  after : f.rules.element? RuleSet.afterElement = none
  closing : f.rules.element? RuleSet.afterChildren = if prunes then some Rule.removeIfEmpty else none
  text : f.rules.text = none

/-! ### The rewriting of a forest -/

/-- Whether something counts as content of its parent: an element does, and a text that is not all white
space. -/
def NodeData.counts {σ : Type} : NodeData σ → Bool
  | element .. => true
  | text content => !Text.allBlank content
  | _ => false

/-- An element that is renamed. Under another tag it is a new element, whose attributes are plain. -/
def NodeData.renamed (new : String) (name : Name) (attributes : List (Attribute String)) : Content :=
  if Text.lowerCase new = Text.lowerCase name.written then .element name attributes
  else .element (.ofWritten name.space (Text.lowerCase new)) (attributes.map Attribute.plain)

namespace Forest

/-- An element above what was made of its children. Where empty elements are pruned it needs some content. -/
def keep (prunes : Bool) (content : Content) (below : Forest Content) : Forest Content :=
  if prunes && !below.roots.any NodeData.counts then .nil else .node content below .nil

/-- What a verdict makes of an element above what was made of its children. -/
def treat (prunes : Bool) (name : Name) (attributes : List (Attribute String)) (below : Forest Content) :
    Option Verdict → Forest Content
  | none => keep prunes (.element name attributes) below
  | some (.rename new) => keep prunes (.renamed new name attributes) below
  | some .remove => .nil
  | some .unwrap => below

/-- Carries out the verdicts on all elements of a forest. Every other node stays. -/
def rewrite (verdicts : String → Option Verdict) (prunes : Bool) : Forest Content → Forest Content
  | nil => .nil
  | node (.element name attributes) below rest =>
    treat prunes name attributes (below.rewrite verdicts prunes) (verdicts (Text.lowerCase name.written)) ++
      rest.rewrite verdicts prunes
  | node content below rest => .node content below (rest.rewrite verdicts prunes)

/-- Every element is in the given namespace and has distinct attributes under plain keys, and only elements have
children. -/
def Regular (space : String) : Forest Content → Prop
  | nil => True
  | node (.element name attributes) below rest =>
    (name.space = space ∧ (∀ a ∈ attributes, PlainKey a.name.written) ∧
      (attributes.map fun a => a.name.written).Nodup) ∧ below.Regular space ∧ rest.Regular space
  | node _ below rest => below = .nil ∧ rest.Regular space

/-- Every element that a walk comes to is in the given namespace and has distinct attributes under plain keys. Below
nodes of other kinds there may be anything, for no walk goes there. -/
def Orderly (space : String) : Forest Content → Prop
  | nil => True
  | node (.element name attributes) below rest =>
    (name.space = space ∧ (∀ a ∈ attributes, PlainKey a.name.written) ∧
      (attributes.map fun a => a.name.written).Nodup) ∧ below.Orderly space ∧ rest.Orderly space
  | node _ _ rest => rest.Orderly space

theorem Regular.orderly {f : Forest Content} (h : f.Regular space) : f.Orderly space := by
  induction f with
  | nil => trivial
  | node content below rest ihb ihr =>
    cases content with
    | element name attributes => exact ⟨h.1, ihb h.2.1, ihr h.2.2⟩
    | _ => exact ihr h.2

theorem rewrite_other {content : Content} (h : content.kind ≠ .element) (below rest : Forest Content) :
    (node content below rest).rewrite verdicts prunes = .node content below (rest.rewrite verdicts prunes) := by
  cases content with
  | element name attributes => exact absurd rfl h
  | _ => rfl

theorem rewrite_append (f g : Forest Content) :
    (f ++ g).rewrite verdicts prunes = f.rewrite verdicts prunes ++ g.rewrite verdicts prunes := by
  induction f with
  | nil => rfl
  | node content below rest _ ih =>
    by_cases hc : content.kind = .element
    · cases content with
      | element name attributes => rw [node_append, rewrite, rewrite, ih, append_assoc]
      | _ => cases hc
    · rw [node_append, rewrite_other hc, rewrite_other hc, ih, node_append]

/-- Without elements among its roots a forest is left as it is. -/
theorem rewrite_of_leaves {f : Forest Content} (h : ∀ c ∈ f.roots, c.kind ≠ .element) :
    f.rewrite verdicts prunes = f := by
  induction f with
  | nil => rfl
  | node content below rest _ ih =>
    rw [rewrite_other (h content List.mem_cons_self), ih fun c hc => h c (List.mem_cons_of_mem _ hc)]

theorem orderly_append {f g : Forest Content} : (f ++ g).Orderly space ↔ f.Orderly space ∧ g.Orderly space := by
  induction f with
  | nil => simp [Orderly]
  | node content below rest _ ih => cases content <;> simp [Orderly, ih, and_assoc]

end Forest

/-! ### Well-formed trees -/

namespace Tree

variable {t u : Tree} {S : Set Nat} {g : Forest Nat}

/-- A tree with sound links and stored names whose node 0 is a document and stands in no list. -/
structure WellFormed (t : Tree) : Prop where
  linked : t.Linked
  document : t.kind? root = some .document
  apex : ∀ p, 0 ∉ t.kids p
  stored : t.Stored

theorem WellFormed.size_pos (h : t.WellFormed) : 0 < t.size := lt_of_kind h.document

theorem WellFormed.evolve (h : t.WellFormed) (he : Evolves S t u) (hs : u.Stored) : u.WellFormed :=
  ⟨he.linked, (he.kind h.size_pos).trans h.document, fun _ => he.orphan h.size_pos h.apex _, hs⟩

theorem WellFormed.documentElement_eq (h : t.WellFormed) (he : Evolves S t u) (hS : 0 ∉ S) :
    u.documentElement = t.documentElement :=
  documentElement_congr (he.kids h.size_pos hS) fun _ hx => he.kind (h.linked.child_lt hx)

/-- The default namespace stays where the children of the document stay. -/
theorem WellFormed.defaultNamespace_eq (h : t.WellFormed) (he : Evolves S t u) (hr : Retains t.size t u)
    (hS : 0 ∉ S) : u.defaultNamespace = t.defaultNamespace := by
  rw [defaultNamespace, defaultNamespace, h.documentElement_eq he hS]
  cases hd : t.documentElement with
  | none => rfl
  | some x =>
    rw [namespace?, namespace?, name?, name?, hr.content (lt_of_documentElement hd)]

/-- The document element is below the document, so that a forest without it is below another node. -/
theorem WellFormed.ne_zero (h : t.WellFormed) {d p : Nat} (hd : t.documentElement = some d)
    (hb : d ∉ (t.below (some p)).toList) : p ≠ 0 := by
  rintro rfl
  have hroots : (t.below (some 0)).roots = t.kids 0 := (h.linked.below_spec 0).1
  exact hb (Forest.mem_toList_of_mem_roots (hroots ▸ mem_of_documentElement hd))

theorem Retains.contents (h : Retains t.size t u) (hg : ∀ x ∈ g.toList, x < t.size) :
    g.map u.contentOf = g.map t.contentOf :=
  Forest.map_congr fun x hx => h.contentOf (hg x hx)

end Tree

end RichText
