import RichText.Converter
import RichText.Proofs.Pass.Unruled
import RichText.Proofs.Tree.Planted

/-!
Conversion without rules loses nothing.

Each direction copies a forest below an empty root and passes over it, where elements outside the default namespace of
the new document are made anew. HTML text does not show namespaces, nor how a written name is divided, so that a view
that went through data and back reads as it did.
-/

namespace RichText

open RichText.Tree Effects
open Relation (ReflTransGen)

variable {κ σ : Type} {namespaces : NamespaceTable} {space : String} {t u source : Tree} {p : Nat}
  {f : Forest Content} {l : Labels → Labels}

/-! ### What HTML text shows -/

/-- What HTML text shows of a node: of names no more than how they are written. -/
def NodeData.shown : Content → Content
  | element name attributes => .element ⟨"", "", name.written⟩ (attributes.map Attribute.plain)
  | content => content

theorem Markup.Escape.attributes_plain (attributes : List (Attribute String)) :
    Escape.attributes (attributes.map Attribute.plain) = Escape.attributes attributes := by
  simp [Escape.attributes, Function.comp_def, Attribute.plain, QualifiedName.written]

theorem Html.rawText_shown (f : Forest Content) : rawText (f.map NodeData.shown) = rawText f := by
  induction f with
  | nil => rfl
  | node content below rest _ ih => cases content <;> simp [Forest.map, NodeData.shown, rawText, ih]

/-- The HTML text of a forest is that of what it shows. -/
theorem Html.print_shown (f : Forest Content) : print (f.map NodeData.shown) = print f := by
  induction f with
  | nil => rfl
  | node content below rest ihb ihr =>
    cases content with
    | element name attributes =>
      simp only [Forest.map, NodeData.shown, print, rawText_shown, Markup.Escape.attributes_plain, ihb, ihr]
      rfl
    | _ => simp only [Forest.map, NodeData.shown, print, ihb, ihr]

/-- Relabelling elements without a change that shows. -/
theorem Forest.shown_relabel (h : ∀ e ∈ f.walked,
      NodeData.shown (.element (l e).1 (l e).2) = NodeData.shown (.element e.1 e.2)) :
    (f.relabel l).map NodeData.shown = f.map NodeData.shown := by
  induction f with
  | nil => rfl
  | node content below rest ihb ihr =>
    cases content with
    | element name attributes =>
      have hb := ihb fun e he => h e (List.mem_cons_of_mem _ (List.mem_append_left _ he))
      have hr := ihr fun e he => h e (List.mem_cons_of_mem _ (List.mem_append_right _ he))
      rw [relabel, map, map, hb, hr, h (name, attributes) List.mem_cons_self]
    | _ => simp only [relabel, map, ihr h]

theorem written_adopt {e : Labels} (h : Text.lowerCase e.1.written = e.1.written) (namespaces : NamespaceTable)
    (space : String) : (adopt namespaces space e).1.written = e.1.written := by
  rw [adopt]
  split
  · rfl
  · rw [written_ofWritten, h]

theorem shown_adopt {e : Labels} (h : Text.lowerCase e.1.written = e.1.written) (namespaces : NamespaceTable)
    (space : String) : NodeData.shown (.element (adopt namespaces space e).1 (adopt namespaces space e).2) =
      NodeData.shown (.element e.1 e.2) := by
  rw [NodeData.shown, NodeData.shown, written_adopt h, adopt]
  split
  · rfl
  · rw [List.map_map]
    exact congrArg _ (List.map_congr_left fun a _ => a.plain_resolved namespaces)

/-! ### Filling an empty document -/

/-- The node `p` of a well-formed tree is empty and is neither the document nor above the document element, and new
elements are made in the given namespace. -/
structure Tree.Hosts (space : String) (t : Tree) (p : Nat) : Prop where
  wellFormed : t.WellFormed
  lt : p < t.size
  ne : p ≠ 0
  empty : t.kids p = []
  root : t.documentElement.isSome = true
  defaultNamespace : t.defaultNamespace = space

theorem Tree.Planted.wellFormed (h : Planted p f t u) (ht : t.WellFormed) : u.WellFormed where
  linked := h.linked
  document := by
    have hc := content_of_lt ht.size_pos
    have hk := kind_eq_of_content hc
    exact (kind_eq_of_content ((h.retains.content ht.size_pos).trans hc)).trans (hk.symm.trans ht.document)
  apex q hq := ht.apex q (h.stood hq ht.size_pos)
  stored := h.retains.stored

theorem Tree.Planted.defaultNamespace (h : Planted p f t u) (ht : t.WellFormed) (hp : p ≠ 0) :
    u.defaultNamespace = t.defaultNamespace := by
  rw [Tree.defaultNamespace, Tree.defaultNamespace, h.documentElement ht.linked ht.size_pos hp]
  cases hd : t.documentElement with
  | none => rfl
  | some d => rw [namespace?, namespace?, name?, name?, h.retains.content (lt_of_documentElement hd)]

namespace Converter

variable {c : Converter κ σ}

/-- A forest that is moved into an empty document and passed over without rules. -/
theorem fill (hns : c.settings.namespaces.Separates) {rules : RuleSet κ σ} (hr : rules.isEmpty = true)
    (ht : t.Hosts space p) (container : Ref)
    (hw : ∀ e ∈ (source.contentBelow container).walked, Transferable e) (context : κ) (journal : σ) :
    ∃ u v, moveOver source container t (some p) = .ok u ∧
      c.filter rules context (some p) u journal = (.ok v, journal) ∧
      v.contentBelow (some p) = (source.contentBelow container).relabel (adopt c.settings.namespaces space) := by
  obtain ⟨u, hu, hplanted⟩ := ht.wellFormed.linked.plant ht.wellFormed.stored ht.lt (source.contentBelow container)
  obtain ⟨hbelow, hnew⟩ := hplanted.below ht.empty
  obtain ⟨d, hd⟩ := Option.isSome_iff_exists.1 ht.root
  have hdoc : u.documentElement = some d :=
    (hplanted.documentElement ht.wellFormed.linked ht.wellFormed.size_pos ht.ne).trans hd
  have hapart : d ∉ (u.below (some p)).toList := fun hm => (lt_of_documentElement hd).not_ge (Planted.le_of_mem hnew hm)
  let filter : Filter κ σ := { rules, namespaces := c.settings.namespaces, context }
  obtain ⟨v, hv, hc⟩ := filter.apply_relabels hr hns (hplanted.wellFormed ht.wellFormed) hdoc hapart
    (hbelow ▸ hw) journal
  refine ⟨u, v, ?_, ?_, ?_⟩
  · have hcopy : Edit.copyChildren source container (some p) t = (.ok (), u) := hu
    rw [moveOver, hcopy]
  · rw [Converter.filter, hv]
  · rw [hc, hbelow, hplanted.defaultNamespace ht.wellFormed ht.ne, ht.defaultNamespace]

/-- A new document takes the root of its data. -/
theorem appendRoot (settings : Settings) :
    ∃ u t, Tree.empty.createElement settings.dataNamespace settings.dataRoot = (1, u) ∧
      (u.size = 2 ∧ (∀ q, u.kids q = []) ∧ u.kind? (some 1) = some .element ∧ u.kind? Tree.root = some .document) ∧
      u.appendChild Tree.root (some 1) = .ok t ∧ t.Linked ∧ t.kids = setList u.kids 0 [1] ∧ u.SameData t := by
  have hl : Tree.empty.Linked := Agrees.linked (by decide)
  obtain ⟨u, hu, hul, huk, huz, hkind⟩ := hl.createElement settings.dataNamespace settings.dataRoot
  have hsize : u.size = 2 := huz
  have hkids : ∀ q, u.kids q = [] := fun q => by
    rw [huk]
    cases q with
    | zero => rfl
    | succ q => exact kids_of_le (Nat.succ_le_succ (Nat.zero_le q))
  have hbelow : ¬ ReflTransGen (Child u.kids) 1 0 := fun h => by
    rcases h.cases_head with he | ⟨x, hx, -⟩
    · cases he
    · rw [Child, hkids] at hx
      exact List.not_mem_nil hx
  obtain ⟨t, ht, htl, htk, hts⟩ := hul.appendChild (by omega) (by omega) hbelow
  refine ⟨u, t, hu, ⟨hsize, hkids, hkind 1, hkind 0⟩, ht, htl, ?_, hts⟩
  rw [htk, without_eq_self fun q => hkids q ▸ List.not_mem_nil, hkids, List.nil_append]

/-- The root of a new data document. -/
theorem hosts_emptyData (settings : Settings) :
    ∃ t, emptyData settings = (some 1, t) ∧ t.Hosts settings.dataNamespace 1 := by
  have hs : Tree.empty.Stored := ⟨rfl, by decide⟩
  obtain ⟨u, t, hu, ⟨hsize, hkids, helement, hdoc⟩, ht, htl, hk, hts⟩ := appendRoot settings
  obtain ⟨hr, hc⟩ := hs.createElement settings.dataNamespace settings.dataRoot
  rw [hu] at hr hc
  have hret := Retains.of_sameData u.size hr.stored hts
  have hroot : t.documentElement = some 1 := by
    have hlist : t.children root = [1] := (congrFun hk 0).trans (setList_self 0 [1])
    simp [documentElement, hlist, (hts.kind _).trans helement]
  refine ⟨t, ?_, ⟨htl, (hts.kind _).trans hdoc, fun q hq => ?_, hret.stored⟩, by rw [hts.size]; omega, one_ne_zero, ?_,
    by rw [hroot]; rfl, ?_⟩
  · simp only [emptyData, hu, ht]
    rfl
  · rw [hk, setList] at hq
    split at hq
    · cases List.mem_singleton.1 hq
    · exact List.not_mem_nil (hkids q ▸ hq)
  · rw [hk, setList_of_ne _ one_ne_zero, hkids]
  · have hcontent : t.content? (some 1) = _ := (hret.content (by omega)).trans hc
    rw [defaultNamespace, hroot, namespace?, name?, hcontent]
    rfl

/-- The body of an empty view. -/
theorem hosts_emptyView : ∃ t, emptyView = (some 3, t) ∧ t.Hosts Uri.xhtml 3 := by
  have hl : emptyView.2.Linked := Agrees.linked (by decide +kernel)
  have hs : emptyView.2.Stored := ⟨by decide +kernel, by decide +kernel⟩
  have hbody : emptyView.1 = some 3 := by decide +kernel
  refine ⟨emptyView.2, by rw [← hbody], ⟨hl, ?_, hl.orphan_iff.1 ?_, hs⟩, ?_, ?_, ?_, ?_, ?_⟩
  all_goals decide +kernel

/-- Writing data without rules moves the elements to the namespace of the data. -/
theorem treeToData_relabels (hns : c.settings.namespaces.Separates) (hr : c.rules.toData.isEmpty = true)
    {container : Ref} (hw : ∀ e ∈ (source.contentBelow container).walked, Transferable e) (context : κ) (journal : σ) :
    ∃ root data, c.treeToData context source container journal = (.ok (root, data), journal) ∧
      data.contentBelow root =
        (source.contentBelow container).relabel (adopt c.settings.namespaces c.settings.dataNamespace) := by
  obtain ⟨t, ht, hhosts⟩ := hosts_emptyData c.settings
  obtain ⟨u, v, hu, hv, hc⟩ := fill hns hr hhosts container hw context journal
  refine ⟨some 1, v, ?_, hc⟩
  simp only [treeToData, ht, hu, hv]
  rfl

/-- Rendering data without rules moves the elements to the namespace of HTML. -/
theorem treeToView_relabels (hns : c.settings.namespaces.Separates) (hr : c.rules.toView.isEmpty = true)
    {container : Ref} (hw : ∀ e ∈ (source.contentBelow container).walked, Transferable e) (context : κ) (journal : σ) :
    ∃ body view, c.treeToView context source container journal = (.ok (body, view), journal) ∧
      view.contentBelow body = (source.contentBelow container).relabel (adopt c.settings.namespaces Uri.xhtml) := by
  obtain ⟨t, ht, hhosts⟩ := hosts_emptyView
  obtain ⟨u, v, hu, hv, hc⟩ := fill hns hr hhosts container hw context journal
  refine ⟨some 3, v, ?_, hc⟩
  simp only [treeToView, ht, hu, hv]
  rfl

/-- Without rules data is written and rendered back without loss. Elements outside the namespace of the data, and then
those outside the namespace of HTML, are made anew on the way, but what is shown of the content is the same, node by
node, and so is its HTML text. -/
theorem lossless (hns : c.settings.namespaces.Separates) (hd : c.rules.toData.isEmpty = true)
    (hv : c.rules.toView.isEmpty = true) {b : Ref}
    (htags : ∀ x ∈ (source.below b).toList, ∀ tag, source.tag? (some x) = some tag → Text.lowerCase tag = tag)
    (hnames : ∀ x ∈ (source.below b).toList,
      (source.attributeNames (some x)).Nodup ∧ "xmlns" ∉ source.attributeNames (some x))
    (context context' : κ) (journal journal' : σ) :
    ∃ root data body view, c.treeToData context source b journal = (.ok (root, data), journal) ∧
      c.treeToView context' data root journal' = (.ok (body, view), journal') ∧
      data.contentBelow root =
        (source.contentBelow b).relabel (adopt c.settings.namespaces c.settings.dataNamespace) ∧
      view.contentBelow body = (data.contentBelow root).relabel (adopt c.settings.namespaces Uri.xhtml) ∧
      (view.contentBelow body).map NodeData.shown = (source.contentBelow b).map NodeData.shown ∧
      view.innerHtml body = source.innerHtml b := by
  have hwalked : ∀ e ∈ (source.contentBelow b).walked,
      Text.lowerCase e.1.written = e.1.written ∧ Transferable e := by
    intro e he
    obtain ⟨x, hx, hc⟩ := exists_of_walked he
    obtain ⟨hnodup, hxmlns⟩ := hnames x hx
    have hattributes : source.attributeNames (some x) = e.2.map fun a => a.name.written := by
      rw [attributeNames, attributes, hc]
      rfl
    rw [hattributes] at hnodup hxmlns
    refine ⟨htags x hx _ (by rw [tag?, name?, hc]; rfl), hnodup, fun a ha he => hxmlns ?_⟩
    exact List.mem_map.2 ⟨a, ha, he⟩
  obtain ⟨root, data, hdata, hcd⟩ := treeToData_relabels hns hd (fun e he => (hwalked e he).2) context journal
  have hwalked' : ∀ e ∈ (data.contentBelow root).walked,
      Text.lowerCase e.1.written = e.1.written ∧ Transferable e := by
    rw [hcd, Forest.walked_relabel, List.forall_mem_map]
    intro e he
    obtain ⟨hlower, htransfer⟩ := hwalked e he
    exact ⟨by rw [written_adopt hlower, hlower], htransfer.adopt _ _⟩
  obtain ⟨body, view, hview, hcv⟩ := treeToView_relabels hns hv (fun e he => (hwalked' e he).2) context' journal'
  have hshown : (view.contentBelow body).map NodeData.shown = (source.contentBelow b).map NodeData.shown := by
    rw [hcv, Forest.shown_relabel fun e he => shown_adopt (hwalked' e he).1 _ _, hcd,
      Forest.shown_relabel fun e he => shown_adopt (hwalked e he).1 _ _]
  refine ⟨root, data, body, view, hdata, hview, hcd, hcv, hshown, ?_⟩
  rw [innerHtml, innerHtml, ← Html.print_shown, hshown, Html.print_shown]

/-- A converter without rules. -/
def plain : Converter Unit Unit := ⟨{}, {}, {}⟩

/-- A picture with a link, in the namespace of SVG, between text and an element of HTML. -/
def picture : Tree :=
  .ofForest (.node (.element ⟨Uri.xhtml, "", "body"⟩ [])
    (.node (.text "see")
      .nil (.node (.element ⟨Uri.svg, "", "svg"⟩ [⟨⟨"", "", "width"⟩, "1"⟩])
        (.node (.element ⟨Uri.svg, "", "a"⟩ [⟨⟨Uri.xlink, "xlink", "href"⟩, "/p"⟩, ⟨⟨"", "", "id"⟩, "q"⟩]) .nil .nil)
        (.node (.element ⟨Uri.xhtml, "", "br"⟩ []) .nil .nil))) .nil)

theorem lossless_picture :
    plain.settings.namespaces.Separates ∧
      (∀ x ∈ (picture.below (some 1)).toList, ∀ tag, picture.tag? (some x) = some tag → Text.lowerCase tag = tag) ∧
      (∀ x ∈ (picture.below (some 1)).toList,
        (picture.attributeNames (some x)).Nodup ∧ "xmlns" ∉ picture.attributeNames (some x)) ∧
      ∃ root data body view, plain.treeToData () picture (some 1) () = (.ok (root, data), ()) ∧
        plain.treeToView () data root () = (.ok (body, view), ()) ∧
        data.contentBelow root =
          (picture.contentBelow (some 1)).relabel (adopt plain.settings.namespaces plain.settings.dataNamespace) ∧
        view.contentBelow body = (data.contentBelow root).relabel (adopt plain.settings.namespaces Uri.xhtml) ∧
        (view.contentBelow body).map NodeData.shown = (picture.contentBelow (some 1)).map NodeData.shown ∧
        view.innerHtml body = picture.innerHtml (some 1) := by
  have hns : plain.settings.namespaces.Separates := ⟨by decide, by decide⟩
  have htags : ∀ x ∈ (picture.below (some 1)).toList, ∀ tag, picture.tag? (some x) = some tag →
      Text.lowerCase tag = tag := by decide +kernel
  have hnames : ∀ x ∈ (picture.below (some 1)).toList,
      (picture.attributeNames (some x)).Nodup ∧ "xmlns" ∉ picture.attributeNames (some x) := by decide +kernel
  exact ⟨hns, htags, hnames, plain.lossless hns rfl rfl htags hnames () () () ()⟩

end Converter

end RichText
