import RichText.Proofs.Tree.Writes

/-!
Names that are stored, and what keeps them.

A table of strings only grows, so that a stored symbol stands for its string for good. In a tree whose names are
all stored the contents of nodes can therefore be followed through edits that store further strings.
-/

namespace RichText

/-- The three parts of a name. -/
def QualifiedName.parts {σ : Type} (name : QualifiedName σ) : List σ :=
  [name.space, name.nsPrefix, name.localPart]

/-- The parts of all names of a node. -/
def NodeData.parts {σ : Type} : NodeData σ → List σ
  | element name attributes => name.parts ++ attributes.flatMap fun a => a.name.parts
  | _ => []

theorem QualifiedName.map_congr {σ τ : Type} {f g : σ → τ} {name : QualifiedName σ}
    (h : ∀ s ∈ name.parts, f s = g s) : name.map f = name.map g := by
  rw [map, map, h _ (by simp [parts]), h _ (by simp [parts]), h _ (by simp [parts])]

theorem NodeData.map_congr {σ τ : Type} {f g : σ → τ} {data : NodeData σ} (h : ∀ s ∈ data.parts, f s = g s) :
    data.map f = data.map g := by
  cases data with
  | element name attributes =>
    have hname : name.map f = name.map g :=
      QualifiedName.map_congr fun s hs => h s (List.mem_append_left _ hs)
    have hattributes : ∀ a ∈ attributes, a.name.map f = a.name.map g := fun a ha =>
      QualifiedName.map_congr fun s hs => h s (List.mem_append_right _ (List.mem_flatMap.2 ⟨a, ha, hs⟩))
    simp only [map, hname, NodeData.element.injEq, true_and]
    exact List.map_congr_left fun a ha => by rw [hattributes a ha]
  | _ => rfl

/-! ### Tables -/

namespace SymbolTable

variable {a b c : SymbolTable} {s : Symbol}

/-- `b` stores the strings of `a` and further ones after them. -/
def Extends (a b : SymbolTable) : Prop := ∃ more, b.strings = a.strings ++ more

theorem Extends.refl (a : SymbolTable) : a.Extends a := ⟨#[], (Array.append_empty).symm⟩

theorem Extends.of_eq (h : b = a) : a.Extends b := h ▸ .refl a

theorem Extends.trans (h : a.Extends b) (h' : b.Extends c) : a.Extends c := by
  obtain ⟨more, hb⟩ := h
  obtain ⟨more', hc⟩ := h'
  exact ⟨more ++ more', by rw [hc, hb, Array.append_assoc]⟩

theorem Extends.size_le (h : a.Extends b) : a.size ≤ b.size := by
  obtain ⟨more, hb⟩ := h
  rw [size, size, hb, Array.size_append]
  omega

/-- A stored symbol stands for its string for good. -/
theorem Extends.resolve (h : a.Extends b) (hs : s < a.size) : b.resolve s = a.resolve s := by
  obtain ⟨more, hb⟩ := h
  have hs' : s < a.strings.size := hs
  rw [SymbolTable.resolve, SymbolTable.resolve, hb, Array.getD_eq_getD_getElem?, Array.getD_eq_getD_getElem?,
    Array.getElem?_append_left hs']

theorem find?_spec {text : String} (h : a.find? text = some s) : s < a.size ∧ a.resolve s = text := by
  rw [find?, Array.idxOf?_eq_map_finIdxOf?_val] at h
  obtain ⟨⟨i, hi⟩, hf, rfl⟩ := Option.map_eq_some_iff.1 h
  obtain ⟨he, -⟩ := Array.finIdxOf?_eq_some_iff.1 hf
  refine ⟨hi, ?_⟩
  rw [resolve, Array.getD_eq_getD_getElem?, Array.getElem?_eq_getElem hi, Option.getD_some]
  exact he

/-- A string that is found at a place of the shorter table was stored there. -/
theorem Extends.find? (h : a.Extends b) {text : String} (hf : b.find? text = some s) (hs : s < a.size) :
    a.find? text = some s := by
  obtain ⟨more, hb⟩ := h
  rw [SymbolTable.find?, hb, Array.idxOf?_eq_map_finIdxOf?_val] at hf
  obtain ⟨⟨i, hi⟩, hi', rfl⟩ := Option.map_eq_some_iff.1 hf
  obtain ⟨he, hfirst⟩ := Array.finIdxOf?_eq_some_iff.1 hi'
  rw [SymbolTable.find?, Array.idxOf?_eq_map_finIdxOf?_val, Option.map_eq_some_iff]
  refine ⟨⟨i, hs⟩, Array.finIdxOf?_eq_some_iff.2 ⟨?_, fun j hj hjt => ?_⟩, rfl⟩
  · rw [← he]
    exact (Array.getElem_append_left hs).symm
  · refine hfirst ⟨j, j.isLt.trans_le (by simp)⟩ hj ?_
    rw [← hjt]
    exact Array.getElem_append_left j.isLt

/-- A string whose symbol is not new was stored before. -/
theorem find?_of_intern {text : String} (h : (a.intern text).1 < a.size) :
    a.find? text = some (a.intern text).1 := by
  cases hf : a.find? text with
  | some s => simp [intern, hf]
  | none => exact absurd h (by simp [intern, hf, size])

/-- Storing a string gives a symbol that stands for it. -/
theorem intern_spec (a : SymbolTable) (text : String) :
    a.Extends (a.intern text).2 ∧ (a.intern text).1 < (a.intern text).2.size ∧
      (a.intern text).2.resolve (a.intern text).1 = text := by
  cases hf : a.find? text with
  | some s =>
    simp only [intern, hf]
    exact ⟨.refl a, find?_spec hf⟩
  | none =>
    simp only [intern, hf]
    refine ⟨⟨#[text], by simp⟩, by simp [size], ?_⟩
    simp [resolve, Array.getD_eq_getD_getElem?]

theorem internName_spec (a : SymbolTable) (name : Name) :
    a.Extends (a.internName name).2 ∧
      (∀ s ∈ (a.internName name).1.parts, s < (a.internName name).2.size) ∧
      (a.internName name).2.resolveName (a.internName name).1 = name := by
  obtain ⟨hx, hxs, hxr⟩ := a.intern_spec name.space
  obtain ⟨hy, hys, hyr⟩ := (a.intern name.space).2.intern_spec name.nsPrefix
  obtain ⟨hz, hzs, hzr⟩ := ((a.intern name.space).2.intern name.nsPrefix).2.intern_spec name.localPart
  refine ⟨hx.trans (hy.trans hz), ?_, ?_⟩
  · intro s hs
    simp only [internName, QualifiedName.parts, List.mem_cons, List.not_mem_nil, or_false] at hs ⊢
    rcases hs with rfl | rfl | rfl
    · exact hxs.trans_le (hy.trans hz).size_le
    · exact hys.trans_le hz.size_le
    · exact hzs
  · simp only [internName, resolveName, QualifiedName.map, hzr, hz.resolve hys, hyr,
      (hy.trans hz).resolve hxs, hxr]

/-- A name whose namespace and local part have no new symbols had them stored before. -/
theorem find?_of_internName {name : Name} (hs : (a.internName name).1.space < a.size)
    (hl : (a.internName name).1.localPart < a.size) :
    a.find? name.space = some (a.internName name).1.space ∧
      a.find? name.localPart = some (a.internName name).1.localPart := by
  have hx := (a.intern_spec name.space).1.trans ((a.intern name.space).2.intern_spec name.nsPrefix).1
  exact ⟨find?_of_intern hs, hx.find? (find?_of_intern (hl.trans_le hx.size_le)) hl⟩

/-- The attributes of an element with names in plain strings. -/
def attributes (table : SymbolTable) (attributes : List (Attribute Symbol)) : List (Attribute String) :=
  attributes.map fun a => ⟨table.resolveName a.name, a.value⟩

theorem Extends.attributes (h : a.Extends b) {attributes : List (Attribute Symbol)}
    (hs : ∀ x ∈ attributes, ∀ s ∈ x.name.parts, s < a.size) : b.attributes attributes = a.attributes attributes :=
  List.map_congr_left fun x hx => by
    have he : b.resolveName x.name = a.resolveName x.name :=
      QualifiedName.map_congr fun s hsp => h.resolve (hs x hx s hsp)
    rw [he]

end SymbolTable

namespace Tree

open Effects

variable {t u v : Tree} {d n m : Nat} {name : Name} {attributes : List (Attribute String)}

/-- The names of all nodes are stored, and the empty string is the first of the stored strings. -/
structure Stored (t : Tree) : Prop where
  blank : t.symbols.strings[0]? = some ""
  parts : ∀ n ∈ t.nodes, ∀ s ∈ n.data.parts, s < t.symbols.size

theorem Stored.parts_data (h : t.Stored) {r : Ref} {data : NodeData Symbol} (hd : t.data? r = some data) :
    ∀ s ∈ data.parts, s < t.symbols.size := by
  obtain ⟨node, hnode, rfl⟩ := Option.map_eq_some_iff.1 hd
  cases r with
  | none => cases hnode
  | some x => exact h.parts node (Array.mem_of_getElem? hnode)

theorem Stored.of_data (hb : t.symbols.strings[0]? = some "")
    (h : ∀ {x data}, t.data? (some x) = some data → ∀ s ∈ data.parts, s < t.symbols.size) : t.Stored := by
  refine ⟨hb, fun node hn => ?_⟩
  obtain ⟨x, hx⟩ := Array.getElem?_of_mem hn
  have hd : t.data? (some x) = some node.data := by
    rw [data?, node?, Option.bind_some, hx]
    rfl
  exact h hd

theorem Stored.resolve_zero (h : t.Stored) : t.symbols.resolve 0 = "" := by
  rw [SymbolTable.resolve, Array.getD_eq_getD_getElem?, h.blank, Option.getD_some]

theorem Stored.zero_lt (h : t.Stored) : 0 < t.symbols.size := by
  by_contra hn
  have hb := h.blank
  rw [Array.getElem?_eq_none (Nat.le_of_not_lt hn)] at hb
  cases hb

/-- From `t` to `u` the nodes with numbers below `n` keep their contents. -/
structure Retains (n : Nat) (t u : Tree) : Prop where
  stored : u.Stored
  size : t.size ≤ u.size
  content : ∀ {x}, x < n → u.content? (some x) = t.content? (some x)

namespace Retains

theorem refl (n : Nat) (h : t.Stored) : Retains n t t := ⟨h, Nat.le_refl _, fun _ => rfl⟩

theorem trans (h : Retains n t u) (h' : Retains m u v) (hn : n ≤ m) : Retains n t v :=
  ⟨h'.stored, h.size.trans h'.size, fun hx => (h'.content (hx.trans_le hn)).trans (h.content hx)⟩

/-- Moves change no content. -/
theorem of_sameData (n : Nat) (h : t.Stored) (hs : t.SameData u) : Retains n t u := by
  refine ⟨.of_data (hs.symbols ▸ h.blank) fun hd => ?_, hs.size.ge, fun {x} _ => ?_⟩
  · rw [hs.data] at hd
    rw [hs.symbols]
    exact h.parts_data hd
  · rw [content?, content?, hs.data, hs.symbols]

theorem contentOf (h : Retains n t u) {x : Nat} (hx : x < n) : u.contentOf x = t.contentOf x := by
  rw [Tree.contentOf, Tree.contentOf, h.content hx]

end Retains

/-- The names of a node are read as before where more strings are stored. -/
theorem Stored.map_resolve (h : t.Stored) {symbols : SymbolTable} (hs : t.symbols.Extends symbols) {r : Ref}
    {data : NodeData Symbol} (hd : t.data? r = some data) :
    data.map symbols.resolve = data.map t.symbols.resolve :=
  NodeData.map_congr fun s hsp => hs.resolve (h.parts_data hd s hsp)

theorem Stored.content_symbols (h : t.Stored) {symbols : SymbolTable} (hs : t.symbols.Extends symbols) (r : Ref) :
    content? { t with symbols } r = t.content? r := by
  have hd : data? { t with symbols } r = t.data? r := rfl
  rw [content?, content?, hd]
  cases hr : t.data? r with
  | none => rfl
  | some data => exact congrArg some (h.map_resolve hs hr)

theorem Stored.symbols (h : t.Stored) {symbols : SymbolTable} (hs : t.symbols.Extends symbols) :
    Stored { t with symbols } := by
  refine ⟨?_, fun node hn s hsp => (h.parts node hn s hsp).trans_le hs.size_le⟩
  obtain ⟨more, hm⟩ := hs
  have hz : 0 < t.symbols.strings.size := h.zero_lt
  have hb := h.blank
  rw [hm, Array.getElem?_append_left hz, hb]

/-! ### New elements -/

theorem data?_push (data : NodeData Symbol) (x : Nat) :
    (t.push data).2.data? (some x) = if x = t.size then some data else t.data? (some x) := by
  rw [data?, data?, node?_push]
  split <;> rfl

theorem content?_push (data : NodeData Symbol) (x : Nat) :
    (t.push data).2.content? (some x) =
      if x = t.size then some (data.map t.symbols.resolve) else t.content? (some x) := by
  have hs : (t.push data).2.symbols = t.symbols := rfl
  rw [content?, content?, data?_push, hs]
  split <;> rfl

theorem Stored.push (h : t.Stored) {data : NodeData Symbol} (hd : ∀ s ∈ data.parts, s < t.symbols.size) :
    (t.push data).2.Stored := by
  refine .of_data h.blank fun {x data'} hx => ?_
  rw [data?_push] at hx
  split at hx
  · cases hx
    exact hd
  · exact h.parts_data hx

/-- A new element has its name and no attributes. -/
theorem Stored.createElement (h : t.Stored) (space written : String) :
    Retains t.size t (t.createElement space written).2 ∧
      (t.createElement space written).2.content? (some t.size) = some (.element (.ofWritten space written) []) := by
  obtain ⟨hx, hp, hr⟩ := t.symbols.internName_spec (.ofWritten space written)
  rcases hi : t.symbols.internName (.ofWritten space written) with ⟨name, symbols⟩
  rw [hi] at hx hp hr
  have hu : (t.createElement space written).2 = (Tree.push { t with symbols } (.element name [])).2 := by
    rw [Tree.createElement, hi]
  have hsize : Tree.size { t with symbols } = t.size := rfl
  have hparts : ∀ s ∈ (NodeData.element name []).parts, s < symbols.size := fun s hs => by
    rw [NodeData.parts, List.flatMap_nil, List.append_nil] at hs
    exact hp s hs
  rw [hu]
  refine ⟨⟨(h.symbols hx).push hparts, ?_, fun {x} hlt => ?_⟩, ?_⟩
  · rw [size_push, hsize]
    exact Nat.le_succ _
  · rw [content?_push, hsize, if_neg hlt.ne]
    exact h.content_symbols hx _
  · rw [content?_push, hsize, if_pos rfl, NodeData.map, ← SymbolTable.resolveName, hr]
    rfl

end Tree

end RichText
