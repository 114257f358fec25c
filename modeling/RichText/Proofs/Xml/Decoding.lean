import RichText.Proofs.Tree.Below
import RichText.Proofs.Xml.Lexemes

/-!
Reading the tree back from its XML text.

A reader goes through the lexemes with the elements that are still open, and takes names for what their prefixes stand
for in the scope of their tag. What it has read after the lexemes of a forest is that forest again, up to where the
texts are cut; so two forests with one XML text are the same up to that.
-/

namespace RichText

/-! ### Where texts are cut -/

namespace Forest

/-- Puts a text before a forest. An empty text is left out, and one before another text becomes a part of that. -/
def prependText (content : String) (f : Forest Content) : Forest Content :=
  if content = "" then f
  else
    match f with
    | .node (.text other) _ rest => .node (.text (content ++ other)) .nil rest
    | f => .node (.text content) .nil f

/-- The forest without empty texts, and with one text where several follow one another. -/
def merged : Forest Content → Forest Content
  | nil => .nil
  | node (.text content) _ rest => prependText content rest.merged
  | node content below rest => .node content below.merged rest.merged

/-- One text for each character. -/
def characters : List Char → Forest Content
  | [] => .nil
  | c :: cs => .node (.text (String.singleton c)) .nil (characters cs)

/-- The forest with a text for each character. -/
def spelled : Forest Content → Forest Content
  | nil => .nil
  | node (.text content) _ rest => characters content.toList ++ rest.spelled
  | node content below rest => .node content below.spelled rest.spelled

theorem prependText_append (s s' : String) (f : Forest Content) :
    prependText s (prependText s' f) = prependText (s ++ s') f := by
  by_cases hs : s = ""
  · simp [hs, prependText]
  · by_cases hs' : s' = ""
    · simp [hs', prependText]
    · have hne : s ++ s' ≠ "" := by simp [hs]
      cases f with
      | nil => simp [prependText, hs, hs']
      | node content below rest => cases content <;> simp [prependText, hs, hs', String.append_assoc]

theorem merged_characters (cs : List Char) (f : Forest Content) :
    (characters cs ++ f).merged = prependText (String.ofList cs) f.merged := by
  induction cs with
  | nil => simp [characters, prependText]
  | cons c cs ih =>
    rw [characters, node_append, merged, ih, prependText_append]
    congr 1
    simp

/-- Spelling does not change what merging makes of a forest. -/
theorem merged_spelled (f : Forest Content) : f.spelled.merged = f.merged := by
  induction f with
  | nil => rfl
  | node content below rest ihb ihr =>
    cases content with
    | text content => rw [spelled, merged_characters, ihr, merged, String.ofList_toList]
    | _ => simp only [spelled, merged, ihb, ihr]

end Forest

namespace Xml

open Markup

variable {scope : Scope} {name : Name} {attributes : List (Attribute String)} {f : Forest Content}

/-! ### Forests that can be read back -/

/-- A part of a name: a name without a colon. -/
def NamePart (part : String) : Prop := IsName part ∧ ':' ∉ part.toList

instance (part : String) : Decidable (NamePart part) := inferInstanceAs (Decidable (_ ∧ _))

/-- An element that can be read back from its start tag. -/
structure LegibleElement (name : Name) (attributes : List (Attribute String)) : Prop where
  /-- Prefixes, where there are any, and local parts are parts of names. -/
  parts : ∀ n ∈ name :: attributes.map (·.name), (n.nsPrefix = "" ∨ NamePart n.nsPrefix) ∧ NamePart n.localPart
  /-- No name has the prefix `xmlns`. -/
  not_xmlns : ∀ n ∈ name :: attributes.map (·.name), n.nsPrefix ≠ "xmlns"
  /-- Names with a prefix are in a namespace. -/
  prefixed : ∀ n ∈ name :: attributes.map (·.name), n.nsPrefix ≠ "" → n.space ≠ ""
  /-- Names with one prefix are in one namespace. -/
  agree : ∀ n ∈ name :: attributes.map (·.name), ∀ m ∈ name :: attributes.map (·.name),
    n.nsPrefix ≠ "" → n.nsPrefix = m.nsPrefix → n.space = m.space
  /-- The element does not have the prefix `xml`. -/
  not_xml : name.nsPrefix ≠ "xml"
  /-- The prefix `xml` of an attribute stands for its own namespace. -/
  xml : ∀ a ∈ attributes, a.name.nsPrefix = "xml" → a.name.space = Uri.xml
  /-- Attributes in a namespace have a prefix. -/
  attribute_prefixed : ∀ a ∈ attributes, a.name.space ≠ "" → a.name.nsPrefix ≠ ""
  /-- No attribute is called `xmlns` or in the namespace of declarations. -/
  not_declaration : ∀ a ∈ attributes, a.name.written ≠ "xmlns" ∧ a.name.space ≠ Uri.xmlns
  /-- Attributes have distinct written names. -/
  distinct : (attributes.map (·.name.written)).Nodup

instance (name : Name) (attributes : List (Attribute String)) : Decidable (LegibleElement name attributes) :=
  let names := name :: attributes.map (·.name)
  decidable_of_iff
    ((∀ n ∈ names, (n.nsPrefix = "" ∨ NamePart n.nsPrefix) ∧ NamePart n.localPart) ∧
      (∀ n ∈ names, n.nsPrefix ≠ "xmlns") ∧ (∀ n ∈ names, n.nsPrefix ≠ "" → n.space ≠ "") ∧
      (∀ n ∈ names, ∀ m ∈ names, n.nsPrefix ≠ "" → n.nsPrefix = m.nsPrefix → n.space = m.space) ∧
      name.nsPrefix ≠ "xml" ∧ (∀ a ∈ attributes, a.name.nsPrefix = "xml" → a.name.space = Uri.xml) ∧
      (∀ a ∈ attributes, a.name.space ≠ "" → a.name.nsPrefix ≠ "") ∧
      (∀ a ∈ attributes, a.name.written ≠ "xmlns" ∧ a.name.space ≠ Uri.xmlns) ∧
      (attributes.map (·.name.written)).Nodup)
    ⟨fun ⟨h₁, h₂, h₃, h₄, h₅, h₆, h₇, h₈, h₉⟩ => ⟨h₁, h₂, h₃, h₄, h₅, h₆, h₇, h₈, h₉⟩,
      fun ⟨h₁, h₂, h₃, h₄, h₅, h₆, h₇, h₈, h₉⟩ => ⟨h₁, h₂, h₃, h₄, h₅, h₆, h₇, h₈, h₉⟩⟩

/-- A node that can be read back from its lexemes, and may have these nodes below it. -/
def LegibleNode (content : Content) (below : Forest Content) : Prop :=
  match content with
  | .element name attributes => LegibleElement name attributes
  | .text _ => below = .nil
  | .comment content => ¬ "-->".toList <:+: content.toList ∧ below = .nil
  | .instruction target content =>
    (∀ c ∈ target.toList, Text.isBlank c = false ∧ c ≠ '?') ∧ ¬ "?>".toList <:+: content.toList ∧ below = .nil
  | _ => False

/-- A forest of elements, texts, comments and processing instructions that can be read back from its XML text. -/
def Legible : Forest Content → Prop
  | .nil => True
  | .node content below rest => LegibleNode content below ∧ Legible below ∧ Legible rest

/-! ### Reading a start tag -/

/-- The namespace that the prefix of a written name stands for. -/
def Scope.spaceOf (scope : Scope) (written : String) : String := (scope.uri? (prefixOf written)).getD ""

/-- The attribute that stands in a start tag. Without a prefix it is in no namespace. -/
def Scope.attribute (scope : Scope) (e : String × String) : Attribute String :=
  ⟨.ofWritten (if prefixOf e.1 = "" then "" else scope.spaceOf e.1) e.1, e.2⟩

/-- The element that begins with a start tag, read in the scope inside it. Declarations are none of its attributes. -/
def Scope.element (scope : Scope) (tag : StartTag) : Content :=
  .element (.ofWritten (scope.spaceOf tag.name) tag.name)
    ((tag.attributes.filter fun e => (declared? e.1).isNone).map scope.attribute)

theorem NamePart.ne_empty {part : String} (h : NamePart part) : part ≠ "" := h.1.1

theorem IsName.append {s s' : String} (h : IsName s) (h' : IsName s') : IsName (s ++ ":" ++ s') := by
  refine ⟨by simp, fun c hc => ?_⟩
  simp only [String.toList_append, List.mem_append] at hc
  rcases hc with (hc | hc) | hc
  · exact h.2 c hc
  · obtain rfl : c = ':' := by simpa using hc
    exact ⟨by decide, by decide⟩
  · exact h'.2 c hc

namespace LegibleElement

theorem readsBack (h : LegibleElement name attributes) {n : Name} (hn : n ∈ name :: attributes.map (·.name)) :
    ReadsBack n := by
  obtain ⟨hp, hl⟩ := h.parts n hn
  refine ofWritten_written ?_ hl.2 hl.ne_empty
  rcases hp with hp | hp
  · simp [hp]
  · exact hp.2

theorem written (h : LegibleElement name attributes) {n : Name} (hn : n ∈ name :: attributes.map (·.name)) :
    IsName n.written := by
  obtain ⟨hp, hl⟩ := h.parts n hn
  rw [QualifiedName.written]
  split
  · exact hl.1
  · rename_i hne
    exact (hp.resolve_left hne).1.append hl.1

theorem mem_attribute {a : Attribute String} (ha : a ∈ attributes) : a.name ∈ name :: attributes.map (·.name) :=
  List.mem_cons_of_mem _ (List.mem_map_of_mem ha)

/-- No attribute declares a prefix. -/
theorem declared?_eq_none (h : LegibleElement name attributes) {a : Attribute String} (ha : a ∈ attributes) :
    declared? a.name.written = none := by
  rw [declared?, if_neg (h.not_declaration a ha).1]
  cases hd : declaredPrefix? a.name.written with
  | none => rfl
  | some p =>
    -- the prefix would be `xmlns`
    have hw := congrArg (fun s => splitAtColon s.toList) (declaredPrefix?_eq_some.1 hd)
    obtain ⟨hp, hl⟩ := h.parts _ (mem_attribute ha)
    have hxmlns : ("xmlns:" ++ p).toList = "xmlns".toList ++ ':' :: p.toList := by simp
    rw [hxmlns, splitAtColon_append (by decide), QualifiedName.written] at hw
    split at hw
    · rw [splitAtColon_eq_none hl.2] at hw
      cases hw
    · rename_i hne
      have hwritten : (a.name.nsPrefix ++ ":" ++ a.name.localPart).toList =
          a.name.nsPrefix.toList ++ ':' :: a.name.localPart.toList := by simp
      rw [hwritten, splitAtColon_append (hp.resolve_left hne).2] at hw
      have hprefix := (Prod.mk.inj (Option.some.inj hw)).1
      exact absurd (String.toList_inj.1 hprefix) (h.not_xmlns _ (mem_attribute ha))

/-- What such an element wants its prefixes to stand for. -/
theorem wants (h : LegibleElement name attributes) {p u : String} (hw : Wants name attributes p u) :
    (∃ n ∈ name :: attributes.map (·.name), p = n.nsPrefix ∧ u = n.space ∧ (p = "" → n = name)) ∨
      (p, u) ∈ implicitBindings := by
  rcases List.mem_cons.1 hw with he | hw
  · obtain ⟨rfl, rfl⟩ := Prod.mk.inj he
    exact .inl ⟨name, List.mem_cons_self, rfl, rfl, fun _ => rfl⟩
  · rcases List.mem_append.1 hw with hw | hw
    · rcases List.mem_append.1 hw with hw | hw
      · obtain ⟨a, ha, he⟩ := List.mem_filterMap.1 hw
        split at he
        · cases he
        · rename_i hne
          obtain ⟨rfl, rfl⟩ := Prod.mk.inj (Option.some.inj he)
          exact .inl ⟨a.name, mem_attribute ha, rfl, rfl, fun hp => absurd hp hne⟩
      · obtain ⟨a, ha, he⟩ := List.mem_filterMap.1 hw
        rw [h.declared?_eq_none ha] at he
        cases he
    · exact .inr hw

/-- A name has no prefix that is never declared, unless for its own namespace. -/
theorem space_of_implicit (h : LegibleElement name attributes) {n : Name} (hn : n ∈ name :: attributes.map (·.name))
    {u : String} (hu : (n.nsPrefix, u) ∈ implicitBindings) : n.space = u := by
  simp only [implicitBindings, List.mem_cons, Prod.mk.injEq, List.not_mem_nil, or_false] at hu
  rcases hu with ⟨hp, rfl⟩ | ⟨hp, rfl⟩
  · rcases List.mem_cons.1 hn with rfl | hn
    · exact absurd hp h.not_xml
    · obtain ⟨a, ha, rfl⟩ := List.mem_map.1 hn
      exact h.xml a ha hp
  · exact absurd hp (h.not_xmlns n hn)

theorem consistent (h : LegibleElement name attributes) : Consistent name attributes where
  element_space := h.prefixed name List.mem_cons_self
  attribute_space a ha := h.prefixed a.name (mem_attribute ha)
  declaration a ha _ hx := absurd hx (h.not_declaration a ha).2
  distinct := h.distinct
  agree := by
    rintro ⟨p, u⟩ hu ⟨q, v⟩ hv (rfl : p = q)
    show u = v
    rcases h.wants hu with ⟨n, hn, rfl, rfl, hnp⟩ | hui
    · rcases h.wants hv with ⟨m, hm, hp, rfl, hmp⟩ | hvi
      · by_cases hne : n.nsPrefix = ""
        · rw [hnp hne, hmp hne]
        · exact h.agree n hn m hm hne hp
      · exact h.space_of_implicit hn hvi
    · rcases h.wants hv with ⟨m, hm, rfl, rfl, -⟩ | hvi
      · exact (h.space_of_implicit hm hui).symm
      · simp only [implicitBindings, List.mem_cons, Prod.mk.injEq, List.not_mem_nil, or_false] at hui hvi
        rcases hui with ⟨rfl, rfl⟩ | ⟨rfl, rfl⟩ <;> rcases hvi with ⟨hp, rfl⟩ | ⟨hp, rfl⟩
        · rfl
        · exact absurd hp (by decide)
        · exact absurd hp (by decide)
        · rfl

/-- The prefixes that such an element wants can be written. -/
theorem isName_declarationOf (h : LegibleElement name attributes) {p u : String} (hw : Wants name attributes p u) :
    IsName (declarationOf p) := by
  have hxmlns : IsName "xmlns" := by decide
  rw [declarationOf]
  split
  · exact hxmlns
  · rename_i hne
    have hp : IsName p := by
      rcases h.wants hw with ⟨n, hn, rfl, -, -⟩ | hi
      · exact ((h.parts n hn).1.resolve_left hne).1
      · simp only [implicitBindings, List.mem_cons, Prod.mk.injEq, List.not_mem_nil, or_false] at hi
        rcases hi with ⟨rfl, -⟩ | ⟨rfl, -⟩
        · decide
        · exact hxmlns
    exact hxmlns.append hp

/-- The start tag of such an element can be told from other lexemes. -/
theorem valid (h : LegibleElement name attributes) (hs : scope.Standard) (closed : Bool) :
    (startTag scope name attributes closed).Valid := by
  refine ⟨h.written List.mem_cons_self, fun e he => ?_⟩
  rcases List.mem_append.1 he with he | he
  · obtain ⟨a, ha, rfl⟩ := List.mem_map.1 he
    exact h.written (mem_attribute ha)
  · obtain ⟨p, u, hw, rfl⟩ := (h.consistent.declare hs).1.declarations e he
    exact h.isName_declarationOf hw

/-- The element is read back from its start tag. -/
theorem element_startTag (h : LegibleElement name attributes) (hs : scope.Standard) (closed : Bool) :
    (scope.enter (startTag scope name attributes closed)).element (startTag scope name attributes closed) =
      .element name attributes := by
  obtain ⟨henter, -, hf⟩ := h.consistent.faithful hs closed
  have hdeclared : ((scope.declare name attributes).written.filter fun e => (declared? e.1).isNone) = [] := by
    refine List.filter_eq_nil_iff.2 fun e he => ?_
    obtain ⟨p, u, -, rfl⟩ := (h.consistent.declare hs).1.declarations e he
    simp [declared?_declarationOf]
  have hown : ((ownAttributes attributes).filter fun e => (declared? e.1).isNone) = ownAttributes attributes := by
    refine List.filter_eq_self.2 fun e he => ?_
    obtain ⟨a, ha, rfl⟩ := List.mem_map.1 he
    simp [h.declared?_eq_none ha]
  have hname : QualifiedName.ofWritten ((scope.declare name attributes).scope.spaceOf name.written) name.written =
      name := by
    have hread := hf.element_read (h.readsBack List.mem_cons_self)
    have hspace : (scope.declare name attributes).scope.spaceOf name.written = name.space := by
      rw [Scope.spaceOf]
      exact congrArg (fun u => u.getD "") hread
    rw [hspace]
    exact h.readsBack List.mem_cons_self
  have hattribute : ∀ a ∈ attributes,
      (scope.declare name attributes).scope.attribute (a.name.written, a.value) = a := by
    intro a ha
    have hback := h.readsBack (mem_attribute ha)
    have hspace : (if prefixOf a.name.written = "" then "" else
        (scope.declare name attributes).scope.spaceOf a.name.written) = a.name.space := by
      rw [prefixOf_written hback]
      split
      · rename_i hp
        by_contra hne
        exact h.attribute_prefixed a ha (Ne.symm hne) hp
      · rename_i hp
        rw [Scope.spaceOf, hf.attribute_read a ha hp hback]
        rfl
    rw [Scope.attribute]
    dsimp only
    rw [hspace, hback]
  have hattributes : (ownAttributes attributes).map (scope.declare name attributes).scope.attribute = attributes := by
    rw [ownAttributes, List.map_map]
    exact (List.map_congr_left hattribute).trans (List.map_id' attributes)
  rw [henter, Scope.element, startTag, List.filter_append, hown, hdeclared, List.append_nil, hname, hattributes]

end LegibleElement

/-! ### Reading lexemes -/

/-- A reader among the lexemes: the scope it reads names in, the elements that are still open with the scope and the
forest before each, and the forest read since. -/
structure Reader where
  scope : Scope
  above : List (Scope × Content × Forest Content)
  read : Forest Content

namespace Reader

/-- Adds a node to what was read. -/
def add (r : Reader) (content : Content) (below : Forest Content) : Reader :=
  { r with read := r.read ++ .node content below .nil }

/-- Reads one lexeme. An end tag ends the innermost element, whatever its name. -/
def step (r : Reader) : Lexeme → Reader
  | .opening tag =>
    let inner := r.scope.enter tag
    if tag.closed then r.add (inner.element tag) .nil
    else ⟨inner, (r.scope, inner.element tag, r.read) :: r.above, .nil⟩
  | .closing _ =>
    match r.above with
    | [] => r
    | (scope, content, before) :: above => add ⟨scope, above, before⟩ content r.read
  | .character c => r.add (.text (String.singleton c)) .nil
  | .comment content => r.add (.comment content) .nil
  | .instruction target content => r.add (.instruction target content) .nil
  | .doctype name => r.add (.doctype name "" "") .nil

/-- Characters one after another. -/
theorem foldl_characters (cs : List Char) (scope : Scope) (above : List (Scope × Content × Forest Content))
    (before : Forest Content) :
    (cs.map .character).foldl step ⟨scope, above, before⟩ = ⟨scope, above, before ++ .characters cs⟩ := by
  induction cs generalizing before with
  | nil => simp [Forest.characters]
  | cons c cs ih =>
    rw [List.map_cons, List.foldl_cons, step, add, ih, Forest.append_assoc]
    rfl

end Reader

/-- Reading the lexemes of a legible forest adds the forest to what was read before. -/
theorem Legible.foldl_lexemes (hf : Legible f) (hs : scope.Standard) (above : List (Scope × Content × Forest Content))
    (before : Forest Content) :
    (lexemes scope f).foldl Reader.step ⟨scope, above, before⟩ = ⟨scope, above, before ++ f.spelled⟩ := by
  induction f generalizing scope above before with
  | nil => simp [lexemes, Forest.spelled]
  | node content below rest ihb ihr =>
    obtain ⟨hc, hbelow, hrest⟩ := hf
    rw [lexemes.eq_def]
    dsimp only
    rw [List.foldl_append]
    cases content with
    | element name attributes =>
      have hlegible : LegibleElement name attributes := hc
      have hread := hlegible.element_startTag hs (isNil below)
      obtain ⟨henter, hstandard, -⟩ := hlegible.consistent.faithful hs (isNil below)
      rw [henter] at hread
      have hspelled : (Forest.node (.element name attributes) below rest).spelled =
          .node (.element name attributes) below.spelled rest.spelled := rfl
      rw [hspelled, List.foldl_cons]
      simp only [Reader.step, henter, hread]
      cases below with
      | nil =>
        simp only [startTag, isNil, if_true, List.foldl_nil]
        rw [Reader.add, ihr hrest hs, Forest.append_assoc]
        rfl
      | node content' below' rest' =>
        simp only [startTag, isNil, Bool.false_eq_true, if_false, List.foldl_append]
        rw [ihb hbelow hstandard]
        simp only [List.foldl_cons, List.foldl_nil, Reader.step]
        rw [Reader.add, ihr hrest hs, Forest.append_assoc, Forest.nil_append]
        rfl
    | text content =>
      rw [Reader.foldl_characters, ihr hrest hs, Forest.append_assoc, Forest.spelled]
    | comment content =>
      obtain rfl := hc.2
      rw [List.foldl_cons, List.foldl_nil, Reader.step, Reader.add, ihr hrest hs, Forest.append_assoc]
      rfl
    | instruction target content =>
      obtain rfl := hc.2.2
      rw [List.foldl_cons, List.foldl_nil, Reader.step, Reader.add, ihr hrest hs, Forest.append_assoc]
      rfl
    | _ => exact hc.elim

/-- The lexemes of a legible forest can be told from one another. -/
theorem Legible.valid_lexemes (hf : Legible f) (hs : scope.Standard) : ∀ lexeme ∈ lexemes scope f, lexeme.Valid := by
  induction f generalizing scope with
  | nil => exact List.forall_mem_nil _
  | node content below rest ihb ihr =>
    obtain ⟨hc, hbelow, hrest⟩ := hf
    rw [lexemes.eq_def]
    refine List.forall_mem_append.2 ⟨?_, ihr hrest hs⟩
    cases content with
    | element name attributes =>
      have hlegible : LegibleElement name attributes := hc
      obtain ⟨-, hstandard, -⟩ := hlegible.consistent.faithful hs (isNil below)
      refine List.forall_mem_cons.2 ⟨hlegible.valid hs _, ?_⟩
      cases below with
      | nil => exact List.forall_mem_nil _
      | node content' below' rest' =>
        refine List.forall_mem_append.2 ⟨ihb hbelow hstandard, ?_⟩
        exact List.forall_mem_singleton.2 (hlegible.written List.mem_cons_self)
    | text content => exact List.forall_mem_map.2 fun _ _ => trivial
    | comment content => exact List.forall_mem_singleton.2 hc.1
    | instruction target content => exact List.forall_mem_singleton.2 ⟨hc.1, hc.2.1⟩
    | _ => exact hc.elim

/-- Legible forests with one text, printed in one scope, are the same up to where their texts are cut. -/
theorem Legible.merged_eq {f g : Forest Content} (hf : Legible f) (hg : Legible g) (hs : scope.Standard)
    (h : print scope f = print scope g) : f.merged = g.merged := by
  rw [print_eq_join, print_eq_join] at h
  have hlexemes : lexemes scope f = lexemes scope g := eq_of_join_text (hf.valid_lexemes hs) (hg.valid_lexemes hs) h
  have hread := hf.foldl_lexemes hs [] .nil
  rw [hlexemes, hg.foldl_lexemes hs] at hread
  have hspelled : g.spelled = f.spelled := congrArg Reader.read hread
  rw [← f.merged_spelled, ← g.merged_spelled, hspelled]

end Xml

namespace Tree

open Xml

/-- The XML text of a document node is that of what is below it. -/
theorem toXml_eq {t : Tree} (h : t.kind? root = some .document) :
    t.toXml = print ⟨t.inheritedDefault (t.parent root), []⟩ (t.contentBelow root) := by
  have hc : t.content? root = some .document := by
    obtain ⟨data, hd, hk⟩ := Option.map_eq_some_iff.1 h
    rw [content?, hd]
    cases data with
    | document => rfl
    | _ => cases hk
  rw [toXml, outerXml, branch, hc, print.eq_def]
  exact String.append_empty

/-- Trees with legible documents and one XML text are the same below the document node, up to where texts are cut, if
the same default namespace is in force around both documents. -/
theorem toXml_injective {t u : Tree} (ht : t.kind? root = some .document) (hu : u.kind? root = some .document)
    (hft : Legible (t.contentBelow root)) (hfu : Legible (u.contentBelow root))
    (hd : t.inheritedDefault (t.parent root) = u.inheritedDefault (u.parent root)) (h : t.toXml = u.toXml) :
    (t.contentBelow root).merged = (u.contentBelow root).merged := by
  rw [toXml_eq ht, toXml_eq hu, hd] at h
  exact hft.merged_eq hfu (Scope.standard_initial _) h

/-- An element with two texts in it, and an empty one. -/
def splitText : Tree where
  nodes := #[
    { first := some 1, last := some 1, data := .document },
    { parent := some 0, first := some 2, last := some 4, data := .element ⟨1, 2, 3⟩ [⟨⟨0, 0, 4⟩, "<"⟩] },
    { parent := some 1, next := some 3, data := .text "x" },
    { parent := some 1, prev := some 2, next := some 4, data := .text "" },
    { parent := some 1, prev := some 3, data := .text "y" }]
  symbols := ⟨#["", "u", "p", "a", "b"]⟩

/-- The same element with one text in it. -/
def wholeText : Tree where
  nodes := #[
    { first := some 1, last := some 1, data := .document },
    { parent := some 0, first := some 2, last := some 2, data := .element ⟨1, 2, 3⟩ [⟨⟨0, 0, 4⟩, "<"⟩] },
    { parent := some 1, data := .text "xy" }]
  symbols := splitText.symbols

theorem legible_splitText : Legible (splitText.contentBelow root) := by
  have hc : splitText.contentBelow root = .node (.element ⟨"u", "p", "a"⟩ [⟨⟨"", "", "b"⟩, "<"⟩])
      (.node (.text "x") .nil (.node (.text "") .nil (.node (.text "y") .nil .nil))) .nil := by decide
  rw [hc]
  have helement : LegibleElement ⟨"u", "p", "a"⟩ [⟨⟨"", "", "b"⟩, "<"⟩] := by decide
  exact ⟨helement, ⟨rfl, trivial, rfl, trivial, rfl, trivial, trivial⟩, trivial⟩

theorem legible_wholeText : Legible (wholeText.contentBelow root) := by
  have hc : wholeText.contentBelow root = .node (.element ⟨"u", "p", "a"⟩ [⟨⟨"", "", "b"⟩, "<"⟩])
      (.node (.text "xy") .nil .nil) .nil := by decide
  rw [hc]
  have helement : LegibleElement ⟨"u", "p", "a"⟩ [⟨⟨"", "", "b"⟩, "<"⟩] := by decide
  exact ⟨helement, ⟨rfl, trivial, trivial⟩, trivial⟩

theorem toXml_splitText :
    splitText.toXml = wholeText.toXml ∧
      (splitText.contentBelow root).merged = (wholeText.contentBelow root).merged := by
  have h : splitText.toXml = wholeText.toXml := by decide
  exact ⟨h, toXml_injective rfl rfl legible_splitText legible_wholeText (by decide) h⟩

/-- An element in no namespace. -/
def bare : Tree where
  nodes := #[
    { first := some 1, last := some 1, data := .document },
    { parent := some 0, data := .element ⟨0, 0, 1⟩ [] }]
  symbols := ⟨#["", "b"]⟩

/-- A document node that stands below an element leaves the declaration of the default namespace to its surroundings:
its text is that of a document without a namespace. -/
theorem toXml_ambiguous :
    Legible (enclosed.contentBelow root) ∧ Legible (bare.contentBelow root) ∧
      enclosed.kind? root = some .document ∧ bare.kind? root = some .document ∧ enclosed.toXml = bare.toXml ∧
      (enclosed.contentBelow root).merged ≠ (bare.contentBelow root).merged := by
  have henclosed : enclosed.contentBelow root = .node (.element ⟨"u", "", "b"⟩ []) .nil .nil := by decide
  have hbare : bare.contentBelow root = .node (.element ⟨"", "", "b"⟩ []) .nil .nil := by decide
  rw [henclosed, hbare]
  have hu : LegibleElement ⟨"u", "", "b"⟩ [] := by decide
  have hnone : LegibleElement ⟨"", "", "b"⟩ [] := by decide
  exact ⟨⟨hu, trivial, trivial⟩, ⟨hnone, trivial, trivial⟩, rfl, rfl, by decide, by decide⟩

end Tree

end RichText
