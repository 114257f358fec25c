import RichText.Keyed
import RichText.Proofs.Xml.Reading

/-!
Namespaces in an XML text.

Where the names and the declarations of an element agree on one namespace for each prefix, the start tag of the
element declares what its names need: whoever reads the text finds every element and every attribute with a prefix
in its own namespace.
-/

namespace RichText.Xml

variable {scope : Scope} {name : Name} {attributes : List (Attribute String)} {d d' : Declared} {p q u v : String}

/-! ### Declarations -/

/-- The name of the attribute that declares a prefix. -/
def declarationOf (nsPrefix : String) : String := if nsPrefix = "" then "xmlns" else "xmlns:" ++ nsPrefix

theorem append_ne_xmlns (p : String) : "xmlns:" ++ p ≠ "xmlns" := by
  intro h
  have hl := congrArg String.toList h
  simp at hl

theorem append_inj (h : "xmlns:" ++ p = "xmlns:" ++ q) : p = q := by
  rw [← String.toList_inj] at h ⊢
  simpa using h

theorem declarationOf_inj (h : declarationOf p = declarationOf q) : p = q := by
  unfold declarationOf at h
  split at h <;> split at h
  · simp_all
  · exact absurd h.symm (append_ne_xmlns q)
  · exact absurd h (append_ne_xmlns p)
  · exact append_inj h

/-- The prefix that an attribute declares; the empty one for the default namespace. -/
def declared? (written : String) : Option String :=
  if written = "xmlns" then some "" else (declaredPrefix? written).filter (· ≠ "")

theorem declaredPrefix?_eq_some {written : String} : declaredPrefix? written = some p ↔ written = "xmlns:" ++ p := by
  constructor
  · intro h
    unfold declaredPrefix? at h
    split at h
    · rename_i hw
      cases h
      rw [← String.toList_inj, hw]
      simp
    · cases h
  · rintro rfl
    simp [declaredPrefix?]

theorem declared?_declarationOf (p : String) : declared? (declarationOf p) = some p := by
  by_cases hp : p = ""
  · rw [hp]
    rfl
  · rw [declared?, declarationOf, if_neg hp, if_neg (append_ne_xmlns p), declaredPrefix?_eq_some.2 rfl]
    simp [hp]

/-! ### Elements that can be written -/

/-- What an element needs its prefixes to stand for: because its own name or that of an attribute has the prefix,
because an attribute declares it, or because it is never declared. The empty prefix stands for the default
namespace. -/
def wanted (name : Name) (attributes : List (Attribute String)) : List (String × String) :=
  (name.nsPrefix, name.space) ::
    (attributes.filterMap (fun a =>
      if a.name.nsPrefix = "" then none else some (a.name.nsPrefix, a.name.space)) ++
    attributes.filterMap (fun a => (declared? a.name.written).map (·, a.value)) ++ implicitBindings)

/-- An element needs a prefix to stand for a namespace. -/
def Wants (name : Name) (attributes : List (Attribute String)) (p u : String) : Prop :=
  (p, u) ∈ wanted name attributes

theorem Wants.ownName : Wants name attributes name.nsPrefix name.space := List.mem_cons_self

theorem Wants.attributeName {a : Attribute String} (ha : a ∈ attributes) (hp : a.name.nsPrefix ≠ "") :
    Wants name attributes a.name.nsPrefix a.name.space := by
  refine List.mem_cons_of_mem _ (List.mem_append_left _ (List.mem_append_left _ ?_))
  exact List.mem_filterMap.2 ⟨a, ha, if_neg hp⟩

theorem Wants.declared {a : Attribute String} (ha : a ∈ attributes) (hx : a.name.written = declarationOf p) :
    Wants name attributes p a.value := by
  refine List.mem_cons_of_mem _ (List.mem_append_left _ (List.mem_append_right _ ?_))
  exact List.mem_filterMap.2 ⟨a, ha, by rw [hx, declared?_declarationOf]; rfl⟩

theorem Wants.implicit (h : (p, u) ∈ implicitBindings) : Wants name attributes p u :=
  List.mem_cons_of_mem _ (List.mem_append_right _ h)

/-- An element whose names can be written. -/
structure Consistent (name : Name) (attributes : List (Attribute String)) : Prop where
  /-- An element with a prefix is in a namespace. -/
  element_space : name.nsPrefix ≠ "" → name.space ≠ ""
  /-- An attribute with a prefix is in a namespace. -/
  attribute_space : ∀ a ∈ attributes, a.name.nsPrefix ≠ "" → a.name.space ≠ ""
  /-- Only declarations are in the namespace of declarations. -/
  declaration : ∀ a ∈ attributes, a.name.nsPrefix ≠ "" → a.name.space = Uri.xmlns → a.name.nsPrefix = "xmlns"
  /-- Attributes have distinct written names. -/
  distinct : (attributes.map (·.name.written)).Nodup
  /-- The name, the attributes and the declarations agree on one namespace for each prefix. -/
  agree : ∀ x ∈ wanted name attributes, ∀ y ∈ wanted name attributes, x.1 = y.1 → x.2 = y.2

instance (name : Name) (attributes : List (Attribute String)) : Decidable (Consistent name attributes) :=
  decidable_of_iff
    ((name.nsPrefix ≠ "" → name.space ≠ "") ∧ (∀ a ∈ attributes, a.name.nsPrefix ≠ "" → a.name.space ≠ "") ∧
      (∀ a ∈ attributes, a.name.nsPrefix ≠ "" → a.name.space = Uri.xmlns → a.name.nsPrefix = "xmlns") ∧
      (attributes.map (·.name.written)).Nodup ∧
      ∀ x ∈ wanted name attributes, ∀ y ∈ wanted name attributes, x.1 = y.1 → x.2 = y.2)
    ⟨fun ⟨h₁, h₂, h₃, h₄, h₅⟩ => ⟨h₁, h₂, h₃, h₄, h₅⟩, fun ⟨h₁, h₂, h₃, h₄, h₅⟩ => ⟨h₁, h₂, h₃, h₄, h₅⟩⟩

theorem Consistent.unique (hc : Consistent name attributes) (hu : Wants name attributes p u)
    (hv : Wants name attributes p v) : u = v := hc.agree _ hu _ hv rfl

/-! ### Declarations in scope -/

namespace Scope

/-- An attribute binds the prefix that it declares, and no other. -/
theorem bound?_read (scope : Scope) (written value q : String) :
    (scope.read (written, value)).bound? q =
      if written = declarationOf q then some value else scope.bound? q := by
  rw [read]
  by_cases hx : written = "xmlns"
  · rw [if_pos hx, hx]
    by_cases hq : q = ""
    · rw [hq]
      rfl
    · rw [declarationOf, if_neg hq, if_neg fun h => append_ne_xmlns q h.symm, bound?, bound?, if_neg hq, if_neg hq]
  · rw [if_neg hx]
    by_cases hq : q = ""
    · rw [hq, declarationOf, if_pos rfl, if_neg hx]
      split <;> rfl
    · rw [declarationOf, if_neg hq]
      cases hd : declaredPrefix? written with
      | none =>
        rw [if_neg fun h => ?_]
        rw [declaredPrefix?_eq_some.2 h] at hd
        cases hd
      | some p =>
        obtain rfl := declaredPrefix?_eq_some.1 hd
        dsimp only
        rw [bound?, bound?, if_neg hq, if_neg hq, Scope.bind, List.cons_append, Keyed.lookup_cons_ite]
        by_cases hpq : q = p
        · rw [if_pos hpq, if_pos (by rw [hpq])]
        · rw [if_neg hpq, if_neg fun h => hpq (append_inj h).symm]

/-- Attributes one after another bind a prefix to the value of one that declares it, if there is one. -/
theorem bound?_foldl_read (scope : Scope) (declarations : List (String × String)) (p : String) :
    (∃ value, (declarationOf p, value) ∈ declarations ∧
      (declarations.foldl read scope).bound? p = some value) ∨
    (declarationOf p ∉ declarations.map Prod.fst ∧ (declarations.foldl read scope).bound? p = scope.bound? p) := by
  induction declarations generalizing scope with
  | nil => exact .inr ⟨List.not_mem_nil, rfl⟩
  | cons e rest ih =>
    obtain ⟨written, value⟩ := e
    rcases ih (scope.read (written, value)) with ⟨v, hv, hb⟩ | ⟨hn, hb⟩
    · exact .inl ⟨v, List.mem_cons_of_mem _ hv, hb⟩
    · rw [bound?_read] at hb
      by_cases hw : written = declarationOf p
      · rw [if_pos hw] at hb
        exact .inl ⟨value, hw ▸ List.mem_cons_self, hb⟩
      · rw [if_neg hw] at hb
        exact .inr ⟨by simpa [Ne.symm hw] using hn, hb⟩

theorem explicit_eq (scope : Scope) (attributes : List (Attribute String)) :
    scope.explicit attributes = (ownAttributes attributes).foldl read scope := by
  induction attributes generalizing scope with
  | nil => rfl
  | cons a rest ih =>
    rw [explicit]
    exact ih _

/-- The prefixes that are never declared stand for what they always stand for. -/
def Standard (scope : Scope) : Prop := ∀ p uri, (p, uri) ∈ implicitBindings → scope.bound? p = some uri

theorem standard_initial (default : String) : Standard ⟨default, []⟩ := by
  intro p uri h
  simp only [implicitBindings, List.mem_cons, Prod.mk.injEq, List.not_mem_nil, or_false] at h
  rcases h with ⟨rfl, rfl⟩ | ⟨rfl, rfl⟩ <;> rfl

/-- What a prefix counts as bound to when declarations are chosen. -/
theorem binds_iff (scope : Scope) (hp : p ≠ "") (hi : ∀ uri, (p, uri) ∉ implicitBindings) :
    scope.binds p u = true ↔ scope.bound? p = some u := by
  have hxml : p ≠ "xml" := fun h => hi Uri.xml (by simp [implicitBindings, h])
  have hxmlns : p ≠ "xmlns" := fun h => hi Uri.xmlns (by simp [implicitBindings, h])
  have hnone : implicitBindings.lookup p = none := by
    simp [implicitBindings, Keyed.lookup_cons_ite, hxml, hxmlns]
  simp [binds, bound?, hp, hxml, hxmlns, List.lookup_append, hnone]

end Scope

/-! ### Choosing the declarations of a start tag -/

/-- Nothing is declared for this prefix any more: it is declared on the start tag already, or never. -/
def Settled (attributes : List (Attribute String)) (d : Declared) (p : String) : Prop :=
  (∃ uri, (p, uri) ∈ implicitBindings) ∨ declarationOf p ∈ (ownAttributes attributes ++ d.written).map Prod.fst

/-- What is declared so far gives a start tag with distinct names, and what is settled is as the element needs it. -/
structure Sound (scope : Scope) (name : Name) (attributes : List (Attribute String)) (d : Declared) : Prop where
  scope_eq : d.scope = (ownAttributes attributes ++ d.written).foldl Scope.read scope
  distinct : ((ownAttributes attributes ++ d.written).map Prod.fst).Nodup
  settled : ∀ {p u}, Wants name attributes p u → Settled attributes d p → d.scope.bound? p = some u
  declarations : ∀ e ∈ d.written, ∃ p u, Wants name attributes p u ∧ e = (declarationOf p, u)

/-- A prefix is declared for a namespace, unless it stands for it or is settled. -/
inductive Serves (attributes : List (Attribute String)) (p u : String) (d : Declared) : Declared → Prop
  | present (h : d.scope.bound? p = some u ∨ Settled attributes d p) : Serves attributes p u d d
  | declared (h : ¬ Settled attributes d p) :
    Serves attributes p u d ⟨d.scope.read (declarationOf p, u), d.written ++ [(declarationOf p, u)]⟩

theorem Consistent.sound (hc : Consistent name attributes) (hs : scope.Standard) :
    Sound scope name attributes ⟨scope.explicit attributes, []⟩ := by
  refine ⟨by rw [List.append_nil, Scope.explicit_eq], ?_, fun {p u} hw hp => ?_, nofun⟩
  · rw [List.append_nil, ownAttributes, List.map_map]
    exact hc.distinct
  · rw [Scope.explicit_eq]
    rcases scope.bound?_foldl_read (ownAttributes attributes) p with ⟨v, hv, hb⟩ | ⟨hn, hb⟩
    · obtain ⟨a, ha, he⟩ := List.mem_map.1 hv
      obtain ⟨hwritten, rfl⟩ := Prod.mk.inj he
      rw [hb, hc.unique hw (.declared ha hwritten)]
    · rw [Settled, List.append_nil] at hp
      obtain ⟨uri, huri⟩ := hp.resolve_right hn
      rw [hb, hs p uri huri, hc.unique hw (.implicit huri)]

/-- Serving a prefix binds it, and keeps all that the element needs. -/
theorem Sound.serves (h : Sound scope name attributes d) (hc : Consistent name attributes)
    (hw : Wants name attributes p u) (hd : Serves attributes p u d d') :
    Sound scope name attributes d' ∧ d'.scope.bound? p = some u ∧
      ∀ {q v}, Wants name attributes q v → d.scope.bound? q = some v → d'.scope.bound? q = some v := by
  cases hd with
  | present hp => exact ⟨h, hp.elim id (h.settled hw), fun _ hq => hq⟩
  | declared hp =>
    have hread : ∀ {q v}, Wants name attributes q v → (q ≠ p → d.scope.bound? q = some v) →
        (d.scope.read (declarationOf p, u)).bound? q = some v := by
      intro q v hq hb
      rw [Scope.bound?_read]
      by_cases he : declarationOf p = declarationOf q
      · obtain rfl := declarationOf_inj he
        rw [if_pos rfl, hc.unique hw hq]
      · rw [if_neg he]
        exact hb fun hqp => he (by rw [hqp])
    refine ⟨⟨?_, ?_, fun {q v} hq hs => hread hq fun hqp => h.settled hq ?_, fun e he => ?_⟩,
      hread hw fun hpp => absurd rfl hpp, fun hq hb => hread hq fun _ => hb⟩
    · rw [← List.append_assoc, List.foldl_append, ← h.scope_eq]
      rfl
    · rw [← List.append_assoc, List.map_append, List.nodup_append]
      refine ⟨h.distinct, List.nodup_singleton _, ?_⟩
      rintro written hm other ho rfl
      obtain rfl : written = declarationOf p := List.mem_singleton.1 ho
      exact hp (.inr hm)
    · -- another prefix that is settled now was so before
      rw [Settled, ← List.append_assoc, List.map_append, List.mem_append] at hs
      refine hs.imp_right fun hs => hs.resolve_right fun hm => hqp ?_
      exact declarationOf_inj (List.mem_singleton.1 hm)
    · rcases List.mem_append.1 he with he | he
      · exact h.declarations e he
      · exact ⟨p, u, hw, List.mem_singleton.1 he⟩

/-- Declaring under a condition serves a prefix if the condition holds exactly where there is a need. -/
theorem serves_of_ite {c : Prop} [Decidable c] {scope' : Scope} {written : String}
    (hs : scope' = d.scope.read (declarationOf p, u)) (hw : written = declarationOf p)
    (hc : c ↔ ¬ (d.scope.bound? p = some u ∨ Settled attributes d p)) :
    Serves attributes p u d (if c then ⟨scope', d.written ++ [(written, u)]⟩ else d) := by
  subst hs hw
  split
  · rename_i h
    exact .declared fun hs => hc.1 h (.inr hs)
  · rename_i h
    exact .present (not_not.1 (mt hc.2 h))

theorem Scope.read_append (scope : Scope) (p u : String) : scope.read ("xmlns:" ++ p, u) = scope.bind p u := by
  rw [read, if_neg (append_ne_xmlns p), declaredPrefix?_eq_some.2 rfl]

theorem map_fst_ownAttributes (attributes : List (Attribute String)) :
    (ownAttributes attributes).map Prod.fst = attributes.map (·.name.written) := by
  simp [ownAttributes, Function.comp_def]

/-- There is no need for the declaration of a prefix where the scope binds it or a declaration for it is written. -/
theorem binds_or_settled (d : Declared) (attributes : List (Attribute String)) (hp : p ≠ "") :
    (d.scope.bound? p = some u ∨ Settled attributes d p) ↔
      (d.scope.binds p u = true ∨ "xmlns:" ++ p ∈ attributes.map (·.name.written) ∨
        "xmlns:" ++ p ∈ d.written.map Prod.fst) := by
  rw [Settled, declarationOf, if_neg hp, List.map_append, map_fst_ownAttributes, List.mem_append]
  by_cases hi : ∀ uri, (p, uri) ∉ implicitBindings
  · have hnone : ¬ ∃ uri, (p, uri) ∈ implicitBindings := fun ⟨uri, h⟩ => hi uri h
    rw [d.scope.binds_iff hp hi, or_iff_right hnone]
  · obtain ⟨uri, h⟩ := not_forall_not.1 hi
    have hb : d.scope.binds p u = true := by
      simp only [implicitBindings, List.mem_cons, Prod.mk.injEq, List.not_mem_nil, or_false] at h
      rcases h with ⟨rfl, -⟩ | ⟨rfl, -⟩ <;> simp [Scope.binds]
    exact iff_of_true (.inr (.inl ⟨uri, h⟩)) (.inl hb)

theorem forElement_serves (scope : Scope) (name : Name) (attributes : List (Attribute String)) :
    Serves attributes name.nsPrefix name.space ⟨scope, []⟩
      (Declared.forElement scope (attributes.map (·.name.written)) name) := by
  rw [Declared.forElement]
  by_cases hp : name.nsPrefix = ""
  · rw [if_pos hp, hp]
    refine serves_of_ite (d := ⟨scope, []⟩) rfl rfl ?_
    rw [Settled, List.append_nil, map_fst_ownAttributes, declarationOf, if_pos rfl]
    simp [implicitBindings, Scope.bound?]
  · rw [if_neg hp]
    refine serves_of_ite (d := ⟨scope, []⟩) ?_ ?_ ?_
    · rw [declarationOf, if_neg hp, Scope.read_append]
    · rw [declarationOf, if_neg hp]
    · rw [binds_or_settled _ _ hp]
      simp

theorem forAttribute_serves (hp : name.nsPrefix ≠ "") (hs : name.space ≠ "")
    (hx : name.space = Uri.xmlns → name.nsPrefix = "xmlns") (d : Declared) :
    Serves attributes name.nsPrefix name.space d
      (Declared.forAttribute (attributes.map (·.name.written)) d name) := by
  refine serves_of_ite ?_ ?_ ?_
  · rw [declarationOf, if_neg hp, Scope.read_append]
  · rw [declarationOf, if_neg hp]
  · rw [binds_or_settled _ _ hp]
    have hb : name.space = Uri.xmlns → d.scope.binds name.nsPrefix name.space = true := fun h => by
      simp [Scope.binds, hx h]
    grind

theorem forAttribute_of_empty (explicit : List String) (d : Declared) (hp : name.nsPrefix = "") :
    Declared.forAttribute explicit d name = d := by
  simp [Declared.forAttribute, hp]

/-- Serving the prefixes of attributes one after another binds them all, and keeps what the element needs. -/
theorem Sound.forAttributes (hc : Consistent name attributes) {l : List (Attribute String)} (hl : l ⊆ attributes)
    (h : Sound scope name attributes d) :
    let after := (l.map Attribute.name).foldl (Declared.forAttribute (attributes.map (·.name.written))) d
    Sound scope name attributes after ∧
      (∀ a ∈ l, a.name.nsPrefix ≠ "" → after.scope.bound? a.name.nsPrefix = some a.name.space) ∧
      ∀ {q v}, Wants name attributes q v → d.scope.bound? q = some v → after.scope.bound? q = some v := by
  induction l generalizing d with
  | nil => exact ⟨h, fun a ha => absurd ha List.not_mem_nil, fun _ hb => hb⟩
  | cons a rest ih =>
    have ha := hl List.mem_cons_self
    have hrest : rest ⊆ attributes := fun _ hm => hl (List.mem_cons_of_mem a hm)
    by_cases hp : a.name.nsPrefix = ""
    · obtain ⟨hs, hall, hkeep⟩ := ih hrest h
      simp only [List.map_cons, List.foldl_cons, forAttribute_of_empty _ d hp]
      exact ⟨hs, List.forall_mem_cons.2 ⟨fun hne => absurd hp hne, hall⟩, hkeep⟩
    · have hw : Wants name attributes a.name.nsPrefix a.name.space := .attributeName ha hp
      obtain ⟨hd, hb, hkeepa⟩ := h.serves hc hw
        (forAttribute_serves hp (hc.attribute_space a ha hp) (hc.declaration a ha hp) d)
      obtain ⟨hs, hall, hkeep⟩ := ih hrest hd
      exact ⟨hs, List.forall_mem_cons.2 ⟨fun _ => hkeep hw hb, hall⟩, fun hq hv => hkeep hq (hkeepa hq hv)⟩

/-- What is declared for an element binds the prefixes of its name and of its attributes. -/
theorem Consistent.declare (hc : Consistent name attributes) (hs : scope.Standard) :
    Sound scope name attributes (scope.declare name attributes) ∧
      (scope.declare name attributes).scope.bound? name.nsPrefix = some name.space ∧
      ∀ a ∈ attributes, a.name.nsPrefix ≠ "" →
        (scope.declare name attributes).scope.bound? a.name.nsPrefix = some a.name.space := by
  obtain ⟨he, hb, -⟩ := (hc.sound hs).serves hc .ownName (forElement_serves _ name attributes)
  obtain ⟨ha, hall, hkeep⟩ := he.forAttributes hc (fun _ hm => hm)
  exact ⟨ha, hkeep .ownName hb, hall⟩

/-! ### Reading the text -/

/-- The prefix in a written name: what stands before its first colon. -/
def prefixOf (written : String) : String := (splitName written).1.getD ""

/-- A name that is read from its written form as it is. -/
def ReadsBack (name : Name) : Prop := QualifiedName.ofWritten name.space name.written = name

theorem prefixOf_written (h : ReadsBack name) : prefixOf name.written = name.nsPrefix :=
  congrArg QualifiedName.nsPrefix h

/-- A start tag with its scope is what an element is. -/
structure Faithful (element : Name × List (Attribute String)) (read : Scope × StartTag) : Prop where
  /-- The tag has the written name of the element. -/
  name : read.2.name = element.1.written
  /-- The tag begins with the attributes of the element. -/
  attributes : ownAttributes element.2 <+: read.2.attributes
  /-- No attribute is on the tag twice. -/
  distinct : (read.2.attributes.map Prod.fst).Nodup
  /-- The prefix of the element stands for its namespace. -/
  element_space : read.1.uri? element.1.nsPrefix = some element.1.space
  /-- The prefix of an attribute stands for its namespace. -/
  attribute_space : ∀ a ∈ element.2, a.name.nsPrefix ≠ "" → read.1.uri? a.name.nsPrefix = some a.name.space
  /-- The prefix that is written in the tag stands for the namespace of the element. -/
  element_read : ReadsBack element.1 → read.1.uri? (prefixOf read.2.name) = some element.1.space
  /-- The prefix that is written before an attribute stands for the namespace of the attribute. -/
  attribute_read : ∀ a ∈ element.2, a.name.nsPrefix ≠ "" → ReadsBack a.name →
    read.1.uri? (prefixOf a.name.written) = some a.name.space

theorem Scope.uri?_eq (scope : Scope) (h : scope.bound? p = some u) (hu : p ≠ "" → u ≠ "") :
    scope.uri? p = some u := by
  rw [uri?, h, Option.filter_some, if_pos]
  by_cases hp : p = "" <;> simp [hp, hu]

theorem Consistent.faithful (hc : Consistent name attributes) (hs : scope.Standard) (closed : Bool) :
    scope.enter (startTag scope name attributes closed) = (scope.declare name attributes).scope ∧
      (scope.declare name attributes).scope.Standard ∧
      Faithful (name, attributes)
        ((scope.declare name attributes).scope, startTag scope name attributes closed) := by
  obtain ⟨h, he, ha⟩ := hc.declare hs
  have helement := Scope.uri?_eq _ he hc.element_space
  have hattribute : ∀ a ∈ attributes, a.name.nsPrefix ≠ "" →
      (scope.declare name attributes).scope.uri? a.name.nsPrefix = some a.name.space := fun a hm hp =>
    Scope.uri?_eq _ (ha a hm hp) (hc.attribute_space a hm)
  refine ⟨h.scope_eq.symm, fun p uri hi => h.settled (.implicit hi) (.inl ⟨uri, hi⟩), rfl, List.prefix_append _ _,
    h.distinct, helement, hattribute, fun hr => ?_, fun a hm hp hr => ?_⟩
  · rw [startTag, prefixOf_written hr]
    exact helement
  · rw [prefixOf_written hr]
    exact hattribute a hm hp

/-- The start tags of a printed forest are, one by one, what its elements are. -/
theorem startTags_faithful (hs : scope.Standard) {f : Forest Content}
    (hf : ∀ e ∈ printedElements f, Consistent e.1 e.2) :
    List.Forall₂ Faithful (printedElements f) (startTags scope (pieces scope f)) := by
  induction f generalizing scope with
  | nil => exact .nil
  | node content below rest ihb ihr =>
    rw [pieces.eq_def, startTags_append, printedElements.eq_def]
    rw [printedElements.eq_def] at hf
    refine List.rel_append ?_ (ihr hs fun e he => hf e (List.mem_append_right _ he))
    have hown := fun e he => hf e (List.mem_append_left _ he)
    cases content with
    | document => exact ihb hs hown
    | element name attributes =>
      obtain ⟨henter, hstandard, hfaithful⟩ := (hown (name, attributes) List.mem_cons_self).faithful hs (isNil below)
      simp only [startTags, henter, List.append_nil]
      exact .cons hfaithful (ihb hstandard fun e he => hown e (List.mem_cons_of_mem _ he))
    | _ => exact .nil

end RichText.Xml

namespace RichText.Tree

open Xml

/-- The pieces of the XML text of a node. -/
def xmlPieces (t : Tree) (r : Ref) : Forest Piece := pieces ⟨t.inheritedDefault (t.parent r), []⟩ (t.branch r)

/-- Whoever reads the XML text of a node finds the elements that are printed, with every name in its own namespace
and no attribute twice on one tag, if the reading starts with the default namespace that is in force around the
node. Around a node without a parent there is none. -/
theorem outerXml_faithful (t : Tree) (r : Ref)
    (h : ∀ e ∈ printedElements (t.branch r), Consistent e.1 e.2) :
    t.outerXml r = text (t.xmlPieces r) ∧
      List.Forall₂ Faithful (printedElements (t.branch r))
        (startTags ⟨t.inheritedDefault (t.parent r), []⟩ (t.xmlPieces r)) ∧
      (t.parent r = none → t.inheritedDefault (t.parent r) = "") := by
  refine ⟨print_eq_text _ _, startTags_faithful (Scope.standard_initial _) h, fun hr => ?_⟩
  rw [hr, inheritedDefault, ancestorsOrSelf]
  cases t.size <;> rfl

/-- An element in a default namespace around one with a prefix, and an attribute with the same prefix for another
namespace below that. -/
def shadowing : Tree where
  nodes := #[
    { first := some 1, last := some 1, data := .document },
    { parent := some 0, first := some 2, last := some 2, data := .element ⟨1, 0, 2⟩ [] },
    { parent := some 1, first := some 3, last := some 3, data := .element ⟨3, 4, 2⟩ [⟨⟨3, 4, 5⟩, "x"⟩] },
    { parent := some 2, data := .element ⟨0, 0, 2⟩ [⟨⟨1, 4, 5⟩, "y"⟩] }]
  symbols := ⟨#["", "u", "a", "v", "p", "b"]⟩

theorem outerXml_shadowing :
    (∀ e ∈ printedElements (shadowing.branch root), Consistent e.1 e.2) ∧
      shadowing.outerXml root = text (shadowing.xmlPieces root) ∧
      List.Forall₂ Faithful (printedElements (shadowing.branch root))
        (startTags ⟨shadowing.inheritedDefault (shadowing.parent root), []⟩ (shadowing.xmlPieces root)) := by
  have h : ∀ e ∈ printedElements (shadowing.branch root), Consistent e.1 e.2 := by decide
  exact ⟨h, (shadowing.outerXml_faithful root h).1, (shadowing.outerXml_faithful root h).2.1⟩

example : shadowing.outerXml root =
    "<a xmlns=\"u\"><p:a p:b=\"x\" xmlns:p=\"v\"><a p:b=\"y\" xmlns=\"\" xmlns:p=\"u\"/></p:a></a>" := by
  decide

/-- A document node below an element. -/
def enclosed : Tree where
  nodes := #[
    { parent := some 1, first := some 2, last := some 2, data := .document },
    { first := some 0, last := some 0, data := .element ⟨1, 0, 2⟩ [] },
    { parent := some 0, data := .element ⟨1, 0, 3⟩ [] }]
  symbols := ⟨#["", "u", "a", "b"]⟩

/-- An element without a prefix whose local part has a colon. -/
def colonized : Tree where
  nodes := #[
    { first := some 1, last := some 1, data := .document },
    { parent := some 0, data := .element ⟨1, 0, 2⟩ [] }]
  symbols := ⟨#["", "u", "a:b"]⟩

/-- A reader who starts without a default namespace misses the one around a document node that stands below an
element, and takes a local part with a colon for one with a prefix. -/
theorem outerXml_misread :
    ((∀ e ∈ printedElements (enclosed.branch root), Consistent e.1 e.2) ∧ enclosed.outerXml root = "<b/>" ∧
      ¬ List.Forall₂ Faithful (printedElements (enclosed.branch root))
        (startTags ⟨"", []⟩ (enclosed.xmlPieces root))) ∧
    (∀ e ∈ printedElements (colonized.branch root), Consistent e.1 e.2) ∧
      colonized.outerXml root = "<a:b xmlns=\"u\"/>" ∧
      ∀ read ∈ startTags ⟨"", []⟩ (colonized.xmlPieces root), read.1.uri? (prefixOf read.2.name) = none := by
  refine ⟨⟨by decide, by decide, fun h => ?_⟩, by decide, by decide, by decide⟩
  have htags : startTags ⟨"", []⟩ (enclosed.xmlPieces root) = [(⟨"", []⟩, ⟨"b", [], true⟩)] := by decide
  have helements : printedElements (enclosed.branch root) = [(⟨"u", "", "b"⟩, [])] := by decide
  rw [htags, helements] at h
  cases h with
  | cons hb _ => exact absurd hb.element_space (by decide)

end RichText.Tree
