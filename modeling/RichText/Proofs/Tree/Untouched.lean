import RichText.Proofs.Tree.Ancestors
import RichText.Proofs.Tree.Contents
import RichText.Proofs.Tree.Evolution
import RichText.Proofs.Tree.Preserved

/-!
What the nodes outside a forest keep while the forest is worked on.

Their data stays as it is. Only the document element, where it is one of them, may gain attributes: an attribute that is
written under a bound prefix has its prefix declared there, once and after all other attributes.
-/

namespace RichText

open RichText.Tree Effects

/-! ### Declarations -/

/-- The attribute that declares a prefix. -/
def Attribute.declaration (nsPrefix uri : String) : Attribute String := ⟨⟨Uri.xmlns, "xmlns", nsPrefix⟩, uri⟩

@[simp] theorem Attribute.written_declaration (nsPrefix uri : String) :
    (declaration nsPrefix uri).name.written = "xmlns:" ++ nsPrefix := rfl

/-- The attributes `added` declare prefixes of the table, each once, that the attributes `old` do not declare. -/
def NamespaceTable.Declares (namespaces : NamespaceTable) (old added : List (Attribute String)) : Prop :=
  ∃ bindings : List (String × String), added = bindings.map (fun b => .declaration b.1 b.2) ∧
    (bindings.map Prod.fst).Nodup ∧
    ∀ b ∈ bindings, namespaces.uri? b.1 = some b.2 ∧ b.1 ≠ "xml" ∧ b.1 ≠ "xmlns" ∧
      ∀ a ∈ old, a.name.written ≠ "xmlns:" ++ b.1

variable {namespaces : NamespaceTable} {old added : List (Attribute String)} {nsPrefix uri : String}

theorem NamespaceTable.Declares.nil (namespaces : NamespaceTable) (old : List (Attribute String)) :
    namespaces.Declares old [] := ⟨[], rfl, List.nodup_nil, nofun⟩

/-- One more declaration. -/
theorem NamespaceTable.Declares.push (h : namespaces.Declares old added) (hu : namespaces.uri? nsPrefix = some uri)
    (hxml : nsPrefix ≠ "xml") (hxmlns : nsPrefix ≠ "xmlns")
    (hn : ∀ a ∈ old ++ added, a.name.written ≠ "xmlns:" ++ nsPrefix) :
    namespaces.Declares old (added ++ [.declaration nsPrefix uri]) := by
  obtain ⟨bindings, rfl, hnodup, hall⟩ := h
  refine ⟨bindings ++ [(nsPrefix, uri)], by simp, ?_, ?_⟩
  · rw [List.map_append, List.nodup_append]
    refine ⟨hnodup, List.nodup_singleton _, fun p hp q hq => ?_⟩
    obtain ⟨b, hb, rfl⟩ := List.mem_map.1 hp
    obtain rfl := List.mem_singleton.1 hq
    rintro hpq
    -- a prefix that was declared before is found among the attributes
    refine hn (.declaration b.1 b.2) (List.mem_append_right _ (List.mem_map_of_mem hb)) ?_
    rw [Attribute.written_declaration, hpq]
  · intro b hb
    rcases List.mem_append.1 hb with hb | hb
    · exact hall b hb
    · obtain rfl := List.mem_singleton.1 hb
      exact ⟨hu, hxml, hxmlns, fun a ha => hn a (List.mem_append_left _ ha)⟩

/-- The written name of a declaration is split after `xmlns`. -/
theorem ofWritten_declaration (h : nsPrefix ≠ "") (space : String) :
    QualifiedName.ofWritten space ("xmlns:" ++ nsPrefix) = ⟨space, "xmlns", nsPrefix⟩ := by
  have hw : "xmlns:" = "xmlns" ++ ":" := by decide
  rw [hw]
  exact ofWritten_append (by decide) (by decide) h space

namespace Tree

variable {t u v : Tree} {B : Set Nat} {start d x : Nat} {below : Forest Nat} {new : List (Attribute Symbol)}

/-! ### Data outside a set of nodes -/

/-- From `t` to `u` the nodes of `t` outside `B` keep their data, but for declarations that the document element may
gain. -/
structure Untouched (namespaces : NamespaceTable) (B : Set Nat) (t u : Tree) : Prop where
  symbols : t.symbols.Extends u.symbols
  data : ∀ {x}, x < t.size → x ∉ B → t.documentElement ≠ some x → u.data? (some x) = t.data? (some x)
  declared : ∀ {x}, t.documentElement = some x → x ∉ B → ∃ name old added,
    t.data? (some x) = some (.element name old) ∧ u.data? (some x) = some (.element name (old ++ added)) ∧
      (∀ a ∈ added, ∀ s ∈ a.name.parts, s < u.symbols.size) ∧
      namespaces.Declares (t.symbols.attributes old) (u.symbols.attributes added)

theorem exists_data_of_kind (h : t.kind? (some x) = some .element) :
    ∃ name attributes, t.data? (some x) = some (.element name attributes) := by
  obtain ⟨data, hd, hk⟩ := Option.map_eq_some_iff.1 h
  cases data with
  | element name attributes => exact ⟨name, attributes, hd⟩
  | _ => cases hk

namespace Untouched

theorem refl (namespaces : NamespaceTable) (B : Set Nat) (t : Tree) : Untouched namespaces B t t := by
  refine ⟨.refl _, fun _ _ _ => rfl, fun hd _ => ?_⟩
  obtain ⟨name, old, hdata⟩ := exists_data_of_kind (Writes.kind_documentElement hd)
  exact ⟨name, old, [], hdata, by rw [hdata, List.append_nil], nofun, .nil _ _⟩

/-- Changes of nodes in `B` and of new nodes, and further strings. -/
theorem step (h : Untouched namespaces B t u) (hs : u.symbols.Extends v.symbols)
    (hd : ∀ {x}, x < t.size → x ∉ B → v.data? (some x) = u.data? (some x)) : Untouched namespaces B t v where
  symbols := h.symbols.trans hs
  data hx hb hn := (hd hx hb).trans (h.data hx hb hn)
  declared {x} hx hb := by
    obtain ⟨name, old, added, ht, hu, hp, hdecl⟩ := h.declared hx hb
    refine ⟨name, old, added, ht, (hd (lt_of_documentElement hx) hb).trans hu, ?_, ?_⟩
    · exact fun a ha s hsp => (hp a ha s hsp).trans_le hs.size_le
    · rwa [hs.attributes hp]

theorem moves (h : Untouched namespaces B t u) (hs : u.SameData v) : Untouched namespaces B t v :=
  h.step (.of_eq hs.symbols) fun _ _ => hs.data _

theorem putAttributes (h : Untouched namespaces B t u) (hd : d ∈ B ∨ t.size ≤ d) (new : List (Attribute Symbol)) :
    Untouched namespaces B t (u.putAttributes (some d) new) := by
  refine h.step (.of_eq (symbols_putAttributes _ _)) fun {x} hx hb => data?_putAttributes_of_ne ?_ new
  rintro rfl
  exact hd.elim hb hx.not_ge

theorem setText (h : Untouched namespaces B t u) (hd : d ∈ B ∨ t.size ≤ d) {content : String}
    (hv : u.setText (some d) content = .ok v) : Untouched namespaces B t v := by
  obtain ⟨-, rfl⟩ := setText_eq hv
  refine h.step (.of_eq (symbols_update _ _)) fun {x} hx hb => ?_
  have hne : some d ≠ some x := fun he => hd.elim (fun hm => hb (Option.some.inj he ▸ hm)) fun hle => by
    have := Option.some.inj he
    omega
  rw [data?, data?, node?_update, if_neg hne]

theorem createElement (h : Untouched namespaces B t u) (hle : t.size ≤ u.size) (space written : String) :
    Untouched namespaces B t (u.createElement space written).2 := by
  refine h.step (u.symbols.internName_spec (.ofWritten space written)).1 fun {x} hx _ => ?_
  exact (data?_push _ x).trans (if_neg (hx.trans_le hle).ne)

end Untouched

namespace Untouched

/-- A node outside `B` that is not the document element has the content that it had. -/
theorem content (h : Untouched namespaces B t u) (ht : t.Stored) (hx : x < t.size) (hb : x ∉ B)
    (hn : t.documentElement ≠ some x) : u.content? (some x) = t.content? (some x) := by
  rw [content?, content?, h.data hx hb hn]
  cases hd : t.data? (some x) with
  | none => rfl
  | some data => exact congrArg some (ht.map_resolve h.symbols hd)

/-- A document element outside `B` has its name and its attributes, and declarations after them. -/
theorem content_documentElement (h : Untouched namespaces B t u) (ht : t.Stored) (hd : t.documentElement = some x)
    (hb : x ∉ B) : ∃ name old added, t.content? (some x) = some (.element name old) ∧
      u.content? (some x) = some (.element name (old ++ added)) ∧ namespaces.Declares old added := by
  obtain ⟨name, old, added, htd, hud, hparts, hdecl⟩ := h.declared hd hb
  have hold : u.symbols.attributes old = t.symbols.attributes old :=
    h.symbols.attributes fun a ha s hs => ht.attribute_lt htd ha hs
  have hname : u.symbols.resolveName name = t.symbols.resolveName name :=
    QualifiedName.map_congr fun s hs => h.symbols.resolve (ht.parts_data htd s (List.mem_append_left _ hs))
  refine ⟨t.symbols.resolveName name, t.symbols.attributes old, u.symbols.attributes added, ?_, ?_, hdecl⟩
  · rw [content?, htd]
    rfl
  · rw [content?, hud, ← hname, ← hold]
    exact congrArg (fun attributes => some (NodeData.element _ attributes)) List.map_append

end Untouched

/-! ### Work on a forest -/

/-- From `t` to `u` all that was worked on is the child list of `start` and the nodes of the forest `below`, but for
declarations that the document element may gain. -/
structure Around (namespaces : NamespaceTable) (start : Nat) (below : Forest Nat) (t u : Tree) : Prop where
  evolves : Evolves {x | x = start ∨ x ∈ below.toList} t u
  untouched : Untouched namespaces {x | x ∈ below.toList} t u

namespace Ahead

/-- Children of a node that is worked on are in the forest. -/
theorem mem_of_child (h : t.Ahead start [] below) {q : Nat} (hq : q = start ∨ q ∈ below.toList) (hx : x ∈ t.kids q) :
    x ∈ below.toList := by
  rcases hq with rfl | hq
  · rw [h.list] at hx
    exact Forest.mem_toList_of_mem_roots hx
  · exact mem_toList_of_child h.fits hq hx

/-- The list of a node outside the forest stays. -/
theorem kids_eq (h : t.Ahead start [] below) (he : Evolves {x | x = start ∨ x ∈ below.toList} t u)
    (hb : x ∉ below.toList) {q : Nat} (hx : x ∈ t.kids q) : u.kids q = t.kids q :=
  he.kids (h.linked.parent_lt hx) fun hS => hb (h.mem_of_child hS hx)

/-- A node outside the forest stays in its list. -/
theorem mem_kids_iff (h : t.Ahead start [] below) (he : Evolves {x | x = start ∨ x ∈ below.toList} t u)
    (hx : x < t.size) (hb : x ∉ below.toList) {q : Nat} : x ∈ u.kids q ↔ x ∈ t.kids q :=
  he.linked.mem_kids_congr (h.kids_eq he hb) fun hq => (he.stood hq).resolve_right hx.not_ge

/-- A node outside the forest keeps its neighbours. Unless it is `start`, it keeps its children as well. -/
theorem links_outside (h : t.Ahead start [] below) (he : Evolves {x | x = start ∨ x ∈ below.toList} t u)
    (hx : x < t.size) (hb : x ∉ below.toList) :
    u.parent (some x) = t.parent (some x) ∧ u.prevSibling (some x) = t.prevSibling (some x) ∧
      u.nextSibling (some x) = t.nextSibling (some x) ∧
      (x ≠ start → u.firstChild (some x) = t.firstChild (some x) ∧ u.lastChild (some x) = t.lastChild (some x)) := by
  have hstood : ∀ {q}, x ∈ u.kids q → ∃ q', x ∈ t.kids q' := fun hq => (he.stood hq).resolve_right hx.not_ge
  obtain ⟨hparent, hprev, hnext⟩ := h.linked.neighbours_congr he.linked (h.kids_eq he hb) hstood
  exact ⟨hparent, hprev, hnext, fun hne => h.linked.ends_congr he.linked (he.kids hx (not_or.2 ⟨hne, hb⟩))⟩

/-- The node in whose list the forest stands keeps the nodes above it. -/
theorem ancestorsOrSelf_eq (h : t.Ahead start [] below) (he : Evolves {x | x = start ∨ x ∈ below.toList} t u)
    (hs : start < t.size) : u.ancestorsOrSelf (some start) = t.ancestorsOrSelf (some start) := by
  rw [← h.linked.pathFrom_eq (Nat.zero_lt_of_lt hs) he.size]
  refine pathFrom_congr u.size _ fun x hx => ?_
  have hlt : x < t.size := List.mem_range.1 (h.linked.pathFrom_subset hs _ hx)
  refine (h.links_outside he hlt fun hb => ?_).1
  -- a node of the forest that is above `start` would close a cycle
  obtain ⟨r, hr, hrx⟩ := below_of_mem_toList h.fits hb
  exact h.linked.acyclic start (.head' (h.roots_subset hr) (hrx.trans (h.linked.below_of_mem_pathFrom hx)))

/-- The document element is the one that it was, outside the forest, unless it is one of the nodes that are worked
on. -/
theorem documentElement_of_evolves (h : t.Ahead start [] below)
    (he : Evolves {x | x = start ∨ x ∈ below.toList} t u) (hd : u.documentElement = some x) :
    (x ∈ below.toList ∨ t.size ≤ x) ∨ (t.documentElement = some x ∧ x ∉ below.toList) := by
  by_cases hx : x ∈ below.toList ∨ t.size ≤ x
  · exact .inl hx
  obtain ⟨hb, hlt⟩ := not_or.1 hx
  -- the document's list was not worked on, for else `x` would be in the forest
  have hmem : x ∈ t.kids 0 :=
    (h.mem_kids_iff he (Nat.lt_of_not_le hlt) hb).1 (mem_of_documentElement hd)
  have hkids : u.kids 0 = t.kids 0 := h.kids_eq he hb hmem
  have hsame : u.documentElement = t.documentElement :=
    documentElement_congr hkids fun y hy => he.kind (h.linked.child_lt hy)
  exact .inr ⟨hsame ▸ hd, hb⟩

end Ahead

/-! ### Attributes that are not there -/

theorem attributes_of_data {name : QualifiedName Symbol} (h : t.data? (some x) = some (.element name new)) :
    t.attributes (some x) = t.symbols.attributes new := by
  rw [attributes, content?, h]
  rfl

/-- No attribute has a written name under which none is found. -/
theorem written_ne_of_attribute? {name : QualifiedName Symbol} (h : t.data? (some x) = some (.element name new))
    {written : String} (hn : t.attribute? (some x) written = none) :
    ∀ a ∈ t.symbols.attributes new, a.name.written ≠ written := by
  intro a ha
  rw [attribute?, Option.map_eq_none_iff, List.find?_eq_none, attributes_of_data h] at hn
  simpa using hn a ha

/-- No attribute has the key that is stored for a namespace and a local part under which none is found. -/
theorem hasKey_eq_false_of_attributeNS? {name : QualifiedName Symbol}
    (h : t.data? (some x) = some (.element name new)) (hs : ∀ a ∈ new, ∀ s ∈ a.name.parts, s < t.symbols.size)
    {key : Name} (hn : t.attributeNS? (some x) key.space key.localPart = none) :
    ∀ a ∈ new, hasKey (t.symbols.internName key).1.space (t.symbols.internName key).1.localPart a = false := by
  intro a ha
  by_contra hk
  rw [Bool.not_eq_false, hasKey, Bool.and_eq_true, beq_iff_eq, beq_iff_eq] at hk
  obtain ⟨hspace, hlocal⟩ := hk
  -- an attribute has stored symbols, so the key was stored before and would have been found
  have hlts : a.name.space < t.symbols.size := hs a ha _ (by simp [QualifiedName.parts])
  have hltl : a.name.localPart < t.symbols.size := hs a ha _ (by simp [QualifiedName.parts])
  rw [hspace] at hlts
  rw [hlocal] at hltl
  obtain ⟨hfs, hfl⟩ := SymbolTable.find?_of_internName hlts hltl
  have hfound : t.findSymbols? key.space key.localPart = some (a.name.space, a.name.localPart) := by
    rw [findSymbols?, hfs, hfl, hspace, hlocal]
  have hattributes : t.symbolicAttributes (some x) = new := by rw [symbolicAttributes, h]; rfl
  simp only [attributeNS?, hfound, hattributes, Option.bind_eq_bind, Option.bind_some, Option.bind_eq_none_iff,
    pure, reduceCtorEq, imp_false] at hn
  cases hf : new.find? fun b => b.name.space == a.name.space && b.name.localPart == a.name.localPart with
  | some b => exact hn b hf
  | none => exact absurd (List.find?_eq_none.1 hf a ha) (by simp)

/-! ### Edits around a forest -/

namespace Around

variable {u : Tree}

theorem symbols (h : Around namespaces start below t u) {symbols : SymbolTable} (hs : u.symbols.Extends symbols) :
    Around namespaces start below t { u with symbols } :=
  ⟨h.evolves.trans (.of_sameShape ∅ h.evolves.linked (SameShape.symbols u symbols)) nofun,
    h.untouched.step hs fun _ _ => rfl⟩

theorem putAttributes (h : Around namespaces start below t u) (hd : d ∈ below.toList ∨ t.size ≤ d)
    (new : List (Attribute Symbol)) : Around namespaces start below t (u.putAttributes (some d) new) :=
  ⟨h.evolves.trans (.of_sameShape ∅ h.evolves.linked (SameShape.putAttributes u _ new)) nofun,
    h.untouched.putAttributes hd new⟩

theorem createElement (h : Around namespaces start below t u) (space written : String) :
    Around namespaces start below t (u.createElement space written).2 := by
  obtain ⟨v, hv, hl, hk, hsize, hkind⟩ := h.evolves.linked.createElement space written
  have hvu : (u.createElement space written).2 = v := congrArg Prod.snd hv
  have he : Evolves ∅ u v := by
    refine ⟨hl, by omega, fun hx => ?_, fun hge hlt => ?_, fun _ _ => by rw [hk], fun hx => .inl ⟨_, hk ▸ hx⟩⟩
    · rw [hkind, if_neg hx.ne]
    · rw [hkind, if_pos (by omega)]
  exact ⟨hvu ▸ h.evolves.trans he nofun, h.untouched.createElement h.evolves.size space written⟩

theorem writableAt (namespaces : NamespaceTable) (start : Nat) (hd : d ∈ below.toList ∨ t.size ≤ d) :
    WritableAt (Around namespaces start below t) (some d) where
  store {u} s h := h.symbols (u.symbols.intern_spec s).1
  attributes new h := h.putAttributes hd new

/-- A prefix that is not declared yet is declared after all other attributes of the document element. -/
theorem declare (h : Around namespaces start below t u) (ht : t.Stored) (hd : t.documentElement = some d)
    (hb : d ∉ below.toList) (hu : namespaces.uri? nsPrefix = some uri) (hp : nsPrefix ≠ "") (hxml : nsPrefix ≠ "xml")
    (hxmlns : nsPrefix ≠ "xmlns") (hkey : u.attributeNS? (some d) Uri.xmlns nsPrefix = none)
    (hwritten : u.attribute? (some d) ("xmlns:" ++ nsPrefix) = none) :
    Around namespaces start below t (Edit.setAttributeNS (some d) Uri.xmlns ("xmlns:" ++ nsPrefix) uri u).2 := by
  obtain ⟨name, old, added, htd, hud, hparts, hdecl⟩ := h.untouched.declared hd hb
  obtain ⟨hx, hkparts, hresolve⟩ := u.symbols.internName_spec ⟨Uri.xmlns, "xmlns", nsPrefix⟩
  have hold : ∀ a ∈ old, ∀ s ∈ a.name.parts, s < t.symbols.size := fun a ha s hs => ht.attribute_lt htd ha hs
  have hstored : ∀ a ∈ old ++ added, ∀ s ∈ a.name.parts, s < u.symbols.size := by
    intro a ha s hs
    rcases List.mem_append.1 ha with ha | ha
    · exact (hold a ha s hs).trans_le h.untouched.symbols.size_le
    · exact hparts a ha s hs
  have hnew : ∀ a ∈ old ++ added, hasKey (u.symbols.internName ⟨Uri.xmlns, "xmlns", nsPrefix⟩).1.space
      (u.symbols.internName ⟨Uri.xmlns, "xmlns", nsPrefix⟩).1.localPart a = false :=
    hasKey_eq_false_of_attributeNS? hud hstored hkey
  have hnames := written_ne_of_attribute? hud hwritten
  rcases hi : u.symbols.internName ⟨Uri.xmlns, "xmlns", nsPrefix⟩ with ⟨key, symbols⟩
  rw [hi] at hx hkparts hresolve hnew
  rw [Edit.setAttributeNS_new hud ((congrArg _ (ofWritten_declaration hp Uri.xmlns)).trans hi) hnew]
  let w : Tree := { u with symbols }
  show Around namespaces start below t (w.putAttributes (some d) (old ++ added ++ [⟨key, uri⟩]))
  refine ⟨?_, h.untouched.symbols.trans (hx.trans (.of_eq (symbols_putAttributes (t := w) _ _))), ?_, ?_⟩
  · refine h.evolves.trans (.of_sameShape ∅ h.evolves.linked ?_) nofun
    exact (SameShape.symbols u symbols).trans (SameShape.putAttributes w _ _)
  · intro x hx hb hn
    have hne : x ≠ d := by
      rintro rfl
      exact hn hd
    exact (data?_putAttributes_of_ne (t := w) hne _).trans (h.untouched.data hx hb hn)
  · intro x hxd _
    obtain rfl := Option.some.inj (hd.symm.trans hxd)
    have hwd : w.data? (some d) = some (.element name (old ++ added)) := hud
    refine ⟨name, old, added ++ [⟨key, uri⟩], htd, ?_, ?_, ?_⟩
    · rw [data?_putAttributes hwd, if_pos rfl, List.append_assoc]
    · rw [symbols_putAttributes]
      intro a ha s hs
      rcases List.mem_append.1 ha with ha | ha
      · exact (hparts a ha s hs).trans_le hx.size_le
      · obtain rfl := List.mem_singleton.1 ha
        exact hkparts s hs
    · have hlast : symbols.attributes (added ++ [⟨key, uri⟩]) =
          u.symbols.attributes added ++ [.declaration nsPrefix uri] := by
        rw [← hx.attributes hparts]
        simp only [SymbolTable.attributes, List.map_append, List.map_singleton, hresolve]
        rfl
      have holds : u.symbols.attributes (old ++ added) =
          t.symbols.attributes old ++ u.symbols.attributes added := by
        rw [← h.untouched.symbols.attributes hold]
        exact List.map_append
      rw [symbols_putAttributes]
      show namespaces.Declares _ (symbols.attributes _)
      rw [hlast]
      exact hdecl.push hu hxml hxmlns (holds ▸ hnames)

theorem declarePrefix (ha : t.Ahead start [] below) (ht : t.Stored) (hu : namespaces.uri? nsPrefix = some uri)
    (hp : nsPrefix ≠ "") : Preserves (Around namespaces start below t) (Edit.declarePrefix nsPrefix uri) := by
  intro u h
  unfold Edit.declarePrefix
  split
  · exact h
  · rename_i hreserved
    rw [bind_ok (run_get u)]
    cases hdoc : u.documentElement with
    | none => exact h
    | some d =>
      dsimp only
      split
      · exact h
      · rename_i hguard
        simp only [Bool.or_eq_true, decide_eq_true_eq, not_or] at hreserved
        simp only [Bool.or_eq_true, not_or, Bool.not_eq_true, Option.isSome_eq_false_iff,
          Option.isNone_iff_eq_none] at hguard
        rcases ha.documentElement_of_evolves h.evolves hdoc with hd | ⟨hd, hb⟩
        · exact (writableAt namespaces start hd).setAttributeNS _ _ _ u h
        · exact h.declare ht hd hb hu hp hreserved.1 hreserved.2 hguard.1 hguard.2

/-- Writing attributes of a node of the forest or of a new one. -/
theorem writeAttributes (ha : t.Ahead start [] below) (ht : t.Stored) (hd : d ∈ below.toList ∨ t.size ≤ d)
    (entries : List (String × Option String)) :
    Preserves (Around namespaces start below t) (Edit.writeAttributes namespaces (some d) entries) :=
  (writableAt namespaces start hd).assignable.writeAttributes (fun hr =>
    declarePrefix ha ht (NamespaceTable.resolve?_eq_some hr).1 (NamespaceTable.resolve?_eq_some hr).2.1) entries

end Around

end Tree

end RichText
