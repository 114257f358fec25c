import RichText.Proofs.Conversion.Copying
import RichText.Proofs.Xml.Decoding

/-!
Fragments of an XML text.

A node can be printed alone, or as part of a whole document. In the document its scope comes from above: every element
around it hands its declarations down. Alone it starts with the default namespace that a search through its ancestors
finds. Both agree as long as the default namespace is only ever declared for the names of elements: an element without
a prefix leaves its own namespace as the default one, whether it had to declare it or not, and any other node leaves
the one that it found.
-/

namespace RichText

/-! ### Places in a forest -/

namespace Forest

variable {α β : Type}

/-- A node around a place among its children, with the siblings before and after that place. -/
structure Enclosure (α : Type) where
  label : α
  before : Forest α
  after : Forest α

/-- Applies a function to every label. -/
def Enclosure.map (g : α → β) (e : Enclosure α) : Enclosure β := ⟨g e.label, e.before.map g, e.after.map g⟩

/-- The node with a forest in the place. -/
def Enclosure.around (e : Enclosure α) (f : Forest α) : Forest α := .node e.label (e.before ++ f ++ e.after) .nil

/-- A forest with the nodes of a path around it, the outermost first. -/
def wrap (path : List (Enclosure α)) (f : Forest α) : Forest α := path.foldr Enclosure.around f

@[simp] theorem wrap_nil (f : Forest α) : wrap [] f = f := rfl

@[simp] theorem wrap_cons (e : Enclosure α) (path : List (Enclosure α)) (f : Forest α) :
    wrap (e :: path) f = e.around (wrap path f) := rfl

theorem wrap_concat (path : List (Enclosure α)) (e : Enclosure α) (f : Forest α) :
    wrap (path ++ [e]) f = wrap path (e.around f) := List.foldr_append

theorem map_wrap (g : α → β) (path : List (Enclosure α)) (f : Forest α) :
    (wrap path f).map g = wrap (path.map (Enclosure.map g)) (f.map g) := by
  induction path with
  | nil => rfl
  | cons e path ih =>
    rw [List.map_cons, wrap_cons, wrap_cons, Enclosure.around, map, map_append, map_append, ih]
    rfl

theorem wrap_ne_nil {f : Forest α} (h : f ≠ .nil) (path : List (Enclosure α)) : wrap path f ≠ .nil := by
  cases path with
  | nil => exact h
  | cons e path => exact nofun

theorem append_ne_nil {f : Forest α} (h : f ≠ .nil) (before after : Forest α) : before ++ f ++ after ≠ .nil := by
  cases before with
  | nil =>
    cases f with
    | nil => exact absurd rfl h
    | node => exact nofun
  | node => exact nofun

end Forest

/-! ### Printing in a place -/

namespace Xml

open Markup Forest

variable {scope : Scope} {content : Content} {name : Name} {attributes : List (Attribute String)}
  {f g : Forest Content} {path : List (Enclosure Content)}

/-- The scope of what stands in a node. -/
def Scope.within (scope : Scope) : Content → Scope
  | .element name attributes => (scope.declare name attributes).scope
  | _ => scope

/-- The scope at the end of a path. -/
def Scope.along (scope : Scope) (path : List (Enclosure Content)) : Scope :=
  path.foldl (fun scope e => scope.within e.label) scope

/-- The text before what stands in a node. -/
def opening (scope : Scope) : Content → String
  | .element name attributes => (startTag scope name attributes false).text
  | _ => ""

/-- The text after what stands in a node. -/
def closing : Content → String
  | .element name _ => "</" ++ name.written ++ ">"
  | _ => ""

/-- The text before the end of a path. -/
def textBefore (scope : Scope) : List (Enclosure Content) → String
  | [] => ""
  | e :: path =>
    opening scope e.label ++ print (scope.within e.label) e.before ++ textBefore (scope.within e.label) path

/-- The text after the end of a path. -/
def textAfter (scope : Scope) : List (Enclosure Content) → String
  | [] => ""
  | e :: path =>
    textAfter (scope.within e.label) path ++ print (scope.within e.label) e.after ++ closing e.label

theorem print_append (scope : Scope) (f g : Forest Content) : print scope (f ++ g) = print scope f ++ print scope g := by
  induction f with
  | nil => rw [nil_append, print, String.empty_append]
  | node content below rest _ ihr =>
    rw [node_append, print.eq_def, print.eq_def scope (.node content below rest)]
    simp only [ihr, String.append_assoc]

/-- What stands in an element or in a document is printed as part of it. -/
theorem print_node (hc : content.kind = .document ∨ content.kind = .element) (hf : f ≠ .nil) (scope : Scope) :
    print scope (.node content f .nil) =
      opening scope content ++ print (scope.within content) f ++ closing content := by
  cases content with
  | document => simp [print, opening, closing, Scope.within]
  | element name attributes =>
    cases f with
    | nil => exact absurd rfl hf
    | node label below rest =>
      rw [print.eq_def]
      simp [print, opening, closing, Scope.within, StartTag.text, startTag, ownAttributes, Escape.attributes,
        Function.comp_def, String.append_assoc]
  | _ => simp [NodeData.kind] at hc

/-- Whatever is put at the end of a path is printed in the scope there, between the texts of what is around it. -/
theorem print_wrap (hp : ∀ e ∈ path, e.label.kind = .document ∨ e.label.kind = .element) (hf : f ≠ .nil)
    (scope : Scope) :
    print scope (wrap path f) = textBefore scope path ++ print (scope.along path) f ++ textAfter scope path := by
  induction path generalizing scope with
  | nil => simp [textBefore, textAfter, Scope.along]
  | cons e path ih =>
    rw [wrap_cons, Enclosure.around, print_node (hp e List.mem_cons_self) (append_ne_nil (wrap_ne_nil hf path) _ _),
      print_append, print_append, ih fun e he => hp e (List.mem_cons_of_mem _ he)]
    simp only [textBefore, textAfter, Scope.along, List.foldl_cons, String.append_assoc]

/-! ### What is declared for names -/

theorem default_explicit (h : ∀ a ∈ attributes, a.name.written ≠ "xmlns") (scope : Scope) :
    (scope.explicit attributes).default = scope.default := by
  induction attributes generalizing scope with
  | nil => rfl
  | cons a rest ih =>
    rw [Scope.explicit, if_neg (h a List.mem_cons_self), ih fun b hb => h b (List.mem_cons_of_mem _ hb)]
    split <;> rfl

theorem default_forAttributes (explicit : List String) (names : List Name) (d : Declared) :
    (names.foldl (Declared.forAttribute explicit) d).scope.default = d.scope.default := by
  induction names generalizing d with
  | nil => rfl
  | cons name rest ih =>
    rw [List.foldl_cons, ih, Declared.forAttribute]
    split <;> rfl

/-- An element without a prefix leaves its namespace as the default one, and any other element the one it found. -/
theorem default_declare (h : ∀ a ∈ attributes, a.name.written ≠ "xmlns") (scope : Scope) (name : Name) :
    (scope.declare name attributes).scope.default = if name.nsPrefix = "" then name.space else scope.default := by
  have hnot : "xmlns" ∉ attributes.map (·.name.written) := by
    intro hm
    obtain ⟨a, ha, he⟩ := List.mem_map.1 hm
    exact h a ha he
  rw [Scope.declare, default_forAttributes, Declared.forElement, ← default_explicit h scope]
  split
  · split
    · rfl
    · rename_i hc
      simpa [hnot] using hc
  · dsimp only
    split <;> rfl

theorem declaredPrefix?_eq_none {written : String} (h : ¬ "xmlns:".toList <+: written.toList) :
    declaredPrefix? written = none := by
  cases hp : declaredPrefix? written with
  | none => rfl
  | some p =>
    rw [declaredPrefix?_eq_some.1 hp, String.toList_append] at h
    exact absurd (List.prefix_append _ _) h

theorem bindings_explicit (h : ∀ a ∈ attributes, ¬ "xmlns:".toList <+: a.name.written.toList) (scope : Scope) :
    (scope.explicit attributes).bindings = scope.bindings := by
  induction attributes generalizing scope with
  | nil => rfl
  | cons a rest ih =>
    rw [Scope.explicit, declaredPrefix?_eq_none (h a List.mem_cons_self), ih fun b hb => h b (List.mem_cons_of_mem _ hb)]
    split <;> rfl

theorem forAttributes_of_empty (explicit : List String) {names : List Name} (h : ∀ n ∈ names, n.nsPrefix = "")
    (d : Declared) : names.foldl (Declared.forAttribute explicit) d = d := by
  induction names with
  | nil => rfl
  | cons name rest ih =>
    rw [List.foldl_cons, forAttribute_of_empty explicit d (h name List.mem_cons_self),
      ih fun n hn => h n (List.mem_cons_of_mem _ hn)]

/-- No name of the node has a prefix, and none of its attributes declares one. -/
def Unprefixed (content : Content) : Prop :=
  (∀ name ∈ content.names, name.nsPrefix = "") ∧ ∀ a ∈ content.attributes, ¬ "xmlns:".toList <+: a.name.written.toList

instance (content : Content) : Decidable (Unprefixed content) := inferInstanceAs (Decidable (_ ∧ _))

theorem bindings_within (h : Unprefixed content) (scope : Scope) : (scope.within content).bindings = scope.bindings := by
  cases content with
  | element name attributes =>
    obtain ⟨hnames, hdeclares⟩ := h
    obtain ⟨hname, hattributes⟩ := List.forall_mem_cons.1 hnames
    rw [Scope.within, Scope.declare, forAttributes_of_empty _ hattributes, Declared.forElement, if_pos hname,
      ← bindings_explicit hdeclares scope]
    split <;> rfl
  | _ => rfl

/-- No prefix is declared along a path on which nothing has one. -/
theorem bindings_along (h : ∀ e ∈ path, Unprefixed e.label) (scope : Scope) :
    (scope.along path).bindings = scope.bindings := by
  induction path generalizing scope with
  | nil => rfl
  | cons e path ih =>
    rw [Scope.along, List.foldl_cons, ← Scope.along, ih fun e he => h e (List.mem_cons_of_mem _ he),
      bindings_within (h e List.mem_cons_self)]

end Xml

/-! ### Fragments of a document -/

namespace Tree

open Xml Forest

variable {t : Tree} {p c d : Nat} {scope : Scope}

/-- A node and its ancestors are the node, and its parent with the ancestors of that. -/
theorem Linked.ancestorsOrSelf_eq (h : t.Linked) (hp : p < t.size) :
    t.ancestorsOrSelf (some p) = p :: t.ancestorsOrSelf (t.parent (some p)) := by
  cases hq : t.parent (some p) with
  | some q => exact h.ancestorsOrSelf_child (h.parent_iff.1 hq)
  | none =>
    obtain ⟨n, hn⟩ := Nat.exists_eq_succ_of_ne_zero (Nat.ne_of_gt (Nat.zero_lt_of_lt hp))
    rw [ancestorsOrSelf, ancestorsOrSelf, hn, pathFrom, hq]
    cases n <;> rfl

theorem attributes_of_lt (hp : p < t.size) : t.attributes (some p) = (t.contentOf p).attributes := by
  rw [attributes, content_of_lt hp]
  rfl

/-- The search through the ancestors finds what the content of a node finds in its scope. -/
theorem Linked.default_within (h : t.Linked) (hp : p < t.size)
    (hx : ∀ a ∈ t.attributes (some p), a.name.written ≠ "xmlns")
    (hs : scope.default = t.inheritedDefault (t.parent (some p))) :
    (scope.within (t.contentOf p)).default = t.inheritedDefault (some p) := by
  have hname : t.name? (some p) = (t.contentOf p).name? := by rw [name?, content_of_lt hp]; rfl
  rw [attributes_of_lt hp] at hx
  rw [inheritedDefault, h.ancestorsOrSelf_eq hp, List.filterMap_cons, hname]
  cases hc : t.contentOf p with
  | element name attributes =>
    rw [hc] at hx
    have hdeclared : (scope.declare name attributes).scope.default = _ := default_declare hx scope name
    rw [Scope.within, hdeclared, NodeData.name?]
    by_cases hn : name.nsPrefix = ""
    · simp [hn]
    · simp [hn, hs, inheritedDefault]
  | _ => simpa [Scope.within, NodeData.name?, inheritedDefault] using hs

/-- The nodes that are reached from the document through elements. -/
inductive Reached (t : Tree) : Nat → Prop
  | document : Reached t 0
  | child {p c : Nat} (h : Reached t p) (hp : p = 0 ∨ t.kind? (some p) = some .element)
      (hc : c ∈ t.children (some p)) : Reached t c

/-- The scope in which a node is printed alone. -/
def scopeAround (t : Tree) (d : Nat) : Scope := ⟨t.inheritedDefault (t.parent (some d)), []⟩

/-- What stands around a place, as it is printed. -/
def contentsOf (t : Tree) (path : List (Enclosure Nat)) : List (Enclosure Content) :=
  path.map (Enclosure.map t.contentOf)

/-- The forest in a list of children has the subtree of each of them in its place. -/
theorem Linked.exists_append (h : t.Linked) {f : Forest Nat} (hf : f.Fits t.kids) (hc : c ∈ f.roots) :
    ∃ before after, f = before ++ t.subtree c ++ after := by
  induction f with
  | nil => exact absurd hc List.not_mem_nil
  | node label below rest _ ihr =>
    obtain ⟨hroots, hbelow, hrest⟩ := hf
    rcases List.mem_cons.1 hc with rfl | hc
    · refine ⟨.nil, rest, ?_⟩
      rw [subtree, h.below_eq hbelow hroots]
      rfl
    · obtain ⟨before, after, rfl⟩ := ihr hrest hc
      exact ⟨.node label below before, after, rfl⟩

/-- A node with what is below it has the subtree of each of its children in its place. -/
theorem Linked.exists_enclosure (h : t.Linked) (hc : c ∈ t.kids p) :
    ∃ e : Enclosure Nat, e.label = p ∧ t.subtree p = e.around (t.subtree c) := by
  obtain ⟨hroots, hfits⟩ := h.below_spec p
  obtain ⟨before, after, hf⟩ := h.exists_append hfits (hroots ▸ hc)
  exact ⟨⟨p, before, after⟩, rfl, by rw [subtree, hf]; rfl⟩

theorem Reached.mem_subtree (hd : t.Reached d) (h : t.Linked) : d ∈ (t.subtree 0).toList := by
  rw [h.mem_subtree_iff]
  induction hd with
  | document => exact .refl
  | child _ _ hc ih => exact ih.tail hc

/-- A path leads from the document to every node that is reached, through elements alone, and hands down the default
namespace that a search from the node upwards finds. -/
theorem Reached.exists_path (hd : t.Reached d) (h : t.Linked)
    (hx : ∀ x ∈ (t.subtree 0).toList, ∀ a ∈ t.attributes (some x), a.name.written ≠ "xmlns") :
    ∃ path, t.subtree 0 = wrap path (t.subtree d) ∧
      (∀ e ∈ path, e.label ∈ (t.subtree 0).toList ∧ (e.label = 0 ∨ t.kind? (some e.label) = some .element)) ∧
      ((t.scopeAround 0).along (t.contentsOf path)).default = t.inheritedDefault (t.parent (some d)) := by
  induction hd with
  | document => exact ⟨[], rfl, fun e he => absurd he List.not_mem_nil, rfl⟩
  | @child p c hp hkind hc ih =>
    obtain ⟨path, hplace, hlabels, hdefault⟩ := ih
    obtain ⟨e, rfl, he⟩ := h.exists_enclosure hc
    have hmem := hp.mem_subtree h
    refine ⟨path ++ [e], ?_, fun e' he' => ?_, ?_⟩
    · rw [wrap_concat, ← he, hplace]
    · rcases List.mem_append.1 he' with he' | he'
      · exact hlabels e' he'
      · rw [List.mem_singleton.1 he']
        exact ⟨hmem, hkind⟩
    · rw [h.parent_iff.2 hc, contentsOf, List.map_append, List.map_singleton, Scope.along, List.foldl_append]
      exact h.default_within (h.parent_lt hc) (hx _ hmem) hdefault

/-- The path leads from the document to the node `d`. In the XML text of the document stands in the place of `d`
whatever is printed in the scope at the end of the path, and there the default namespace is that from which `d` is
printed alone. -/
structure Appears (t : Tree) (d : Nat) (path : List (Enclosure Nat)) : Prop where
  place : t.subtree 0 = wrap path (t.subtree d)
  printed : ∀ f ≠ .nil, print (t.scopeAround 0) (wrap (t.contentsOf path) f) =
    textBefore (t.scopeAround 0) (t.contentsOf path) ++ print ((t.scopeAround 0).along (t.contentsOf path)) f ++
      textAfter (t.scopeAround 0) (t.contentsOf path)
  default : ((t.scopeAround 0).along (t.contentsOf path)).default = (t.scopeAround d).default

/-- A node that is reached appears at the end of a path through the document. -/
theorem Reached.appears (hd : t.Reached d) (h : t.Linked) (hroot : t.kind? root = some .document)
    (hx : ∀ x ∈ (t.subtree 0).toList, ∀ a ∈ t.attributes (some x), a.name.written ≠ "xmlns") :
    ∃ path, t.Appears d path ∧ ∀ e ∈ path, e.label ∈ (t.subtree 0).toList := by
  obtain ⟨path, hplace, hlabels, hdefault⟩ := hd.exists_path h hx
  have hkind : ∀ e ∈ t.contentsOf path, e.label.kind = .document ∨ e.label.kind = .element := by
    intro e he
    obtain ⟨e', he', rfl⟩ := List.mem_map.1 he
    obtain ⟨hmem, hp⟩ := hlabels e' he'
    have hk := kind_eq_of_content (content_of_lt (h.lt_of_mem_subtree (lt_of_kind hroot) hmem))
    rcases hp with hp | hp
    · rw [hp] at hk
      refine .inl ?_
      rw [Enclosure.map, hp]
      exact Option.some.inj (hk.symm.trans hroot)
    · exact .inr (Option.some.inj (hk.symm.trans hp))
  exact ⟨path, ⟨hplace, fun f hf => print_wrap hkind hf _, hdefault⟩, fun e he => (hlabels e he).1⟩

namespace Appears

variable {path : List (Enclosure Nat)} (h : t.Appears d path)
include h

/-- The text of a document has that of a node in its place. -/
theorem toXml_eq (h0 : 0 < t.size) (hd : d < t.size) :
    t.toXml = textBefore (t.scopeAround 0) (t.contentsOf path) ++
      print ((t.scopeAround 0).along (t.contentsOf path)) (t.branch (some d)) ++
        textAfter (t.scopeAround 0) (t.contentsOf path) := by
  have hwhole : t.toXml = print (t.scopeAround 0) (t.branch (some 0)) := rfl
  rw [hwhole, branch_eq_map h0, branch_eq_map hd, h.place, map_wrap]
  exact h.printed _ nofun

/-- Below nodes without prefixes the scope in the document is that in which the node is printed alone. -/
theorem along_eq (hp : ∀ e ∈ path, Unprefixed (t.contentOf e.label)) :
    (t.scopeAround 0).along (t.contentsOf path) = t.scopeAround d := by
  have hbindings : ((t.scopeAround 0).along (t.contentsOf path)).bindings = [] := by
    refine bindings_along (fun e he => ?_) _
    obtain ⟨e', he', rfl⟩ := List.mem_map.1 he
    exact hp e' he'
  calc (t.scopeAround 0).along (t.contentsOf path)
      = ⟨((t.scopeAround 0).along (t.contentsOf path)).default,
          ((t.scopeAround 0).along (t.contentsOf path)).bindings⟩ := rfl
    _ = t.scopeAround d := by rw [h.default, hbindings, scopeAround]

end Appears

/-- What is below a node is printed as its children are, one after another. -/
theorem Linked.innerXml_eq (h : t.Linked) (p : Nat) :
    t.innerXml (some p) = String.join ((t.children (some p)).map fun c => t.outerXml (some c)) := by
  obtain ⟨hroots, hfits⟩ := h.below_spec p
  have hprint : ∀ {f : Forest Nat}, f.Fits t.kids → f.roots ⊆ t.kids p →
      print ⟨t.inheritedDefault (some p), []⟩ (f.map t.contentOf) =
        String.join (f.roots.map fun c => t.outerXml (some c)) := by
    intro f hf hsub
    induction f with
    | nil => rfl
    | node c below rest _ ihr =>
      obtain ⟨hbelow, hfitsBelow, hrest⟩ := hf
      have hc : c ∈ t.kids p := hsub List.mem_cons_self
      have hown : t.outerXml (some c) =
          print ⟨t.inheritedDefault (some p), []⟩ (.node (t.contentOf c) (below.map t.contentOf) .nil) := by
        rw [outerXml, branch_eq_map (h.child_lt hc), h.parent_iff.2 hc, subtree, h.below_eq hfitsBelow hbelow]
        rfl
      have hsplit := print_append ⟨t.inheritedDefault (some p), []⟩
        (.node (t.contentOf c) (below.map t.contentOf) .nil) (rest.map t.contentOf)
      rw [node_append, nil_append, ← hown, ihr hrest fun _ hm => hsub (List.mem_cons_of_mem _ hm)] at hsplit
      rw [Forest.map, hsplit, Forest.roots, List.map_cons, String.join_cons]
  rw [innerXml, contentBelow, hprint hfits (fun _ hc => hroots ▸ hc), hroots]
  rfl

/-- Where no attribute is called `xmlns`, every node that is reached from the document through elements is printed alone
with the default namespace that is in force in its place in the document. If besides nothing has a prefix or declares
one, its text stands as it is in the text of the document. What is below a node is always printed as its children
are. -/
theorem fragments_printed (h : t.Linked) (hroot : t.kind? root = some .document)
    (hx : ∀ x ∈ (t.subtree 0).toList, ∀ a ∈ t.attributes (some x), a.name.written ≠ "xmlns") :
    (∀ d, t.Reached d → ∃ path, t.Appears d path ∧
        ((∀ x ∈ (t.subtree 0).toList, Unprefixed (t.contentOf x)) →
          t.toXml = textBefore (t.scopeAround 0) (t.contentsOf path) ++ t.outerXml (some d) ++
            textAfter (t.scopeAround 0) (t.contentsOf path))) ∧
      ∀ p, t.innerXml (some p) = String.join ((t.children (some p)).map fun c => t.outerXml (some c)) := by
  refine ⟨fun d hd => ?_, h.innerXml_eq⟩
  obtain ⟨path, happears, hlabels⟩ := hd.appears h hroot hx
  refine ⟨path, happears, fun hplain => ?_⟩
  have h0 : 0 < t.size := lt_of_kind hroot
  have hlt : d < t.size := h.lt_of_mem_subtree h0 (hd.mem_subtree h)
  rw [happears.toXml_eq h0 hlt, happears.along_eq fun e he => hplain _ (hlabels e he)]
  rfl

/-- An element with this name below one in a default namespace, and in it a text and two elements without a namespace. -/
def around (middle : QualifiedName Symbol) : Tree where
  nodes := #[
    { first := some 1, last := some 1, data := .document },
    { parent := some 0, first := some 2, last := some 2, data := .element ⟨1, 0, 4⟩ [] },
    { parent := some 1, first := some 3, last := some 4, data := .element middle [⟨⟨0, 0, 6⟩, "y"⟩] },
    { parent := some 2, next := some 4, data := .text "x" },
    { parent := some 2, prev := some 3, first := some 5, last := some 5, data := .element ⟨0, 0, 6⟩ [] },
    { parent := some 4, data := .element ⟨0, 0, 7⟩ [] }]
  symbols := ⟨#["", "u", "v", "p", "a", "b", "c", "d"]⟩

/-- With a prefix for another namespace on the element in the middle, and with no namespace for it. -/
theorem fragments_printed_around :
    let t := around ⟨2, 3, 5⟩
    let u := around ⟨0, 0, 5⟩
    (∃ path, t.Appears 5 path) ∧ (t.scopeAround 5).default = "" ∧ (t.scopeAround 4).default = "u" ∧
      t.toXml = "<a xmlns=\"u\"><p:b c=\"y\" xmlns:p=\"v\">x<c xmlns=\"\"><d/></c></p:b></a>" ∧
      u.innerXml (some 2) = String.join ((u.children (some 2)).map fun c => u.outerXml (some c)) ∧
      ∃ path, u.Appears 2 path ∧ u.toXml = textBefore (u.scopeAround 0) (u.contentsOf path) ++
        "<b c=\"y\" xmlns=\"\">x<c><d/></c></b>" ++ textAfter (u.scopeAround 0) (u.contentsOf path) := by
  intro t u
  have hreached : t.Reached 5 :=
    .child (.child (.child (.child .document (.inl rfl) (by decide : 1 ∈ _)) (.inr (by decide)) (by decide : 2 ∈ _))
      (.inr (by decide)) (by decide : 4 ∈ _)) (.inr (by decide)) (by decide)
  obtain ⟨path, happears, -⟩ := (fragments_printed (t := t) (Agrees.linked (by decide)) rfl (by decide)).1 5 hreached
  obtain ⟨hfragments, hinner⟩ := fragments_printed (t := u) (Agrees.linked (by decide)) rfl (by decide)
  obtain ⟨path', happears', htext⟩ :=
    hfragments 2 (.child (.child .document (.inl rfl) (by decide : 1 ∈ _)) (.inr (by decide)) (by decide))
  have houter : u.outerXml (some 2) = "<b c=\"y\" xmlns=\"\">x<c><d/></c></b>" := by decide
  refine ⟨⟨path, happears⟩, by decide, by decide, by decide, hinner 2, path', happears', ?_⟩
  rw [← houter]
  exact htext (by decide)

end Tree

end RichText
