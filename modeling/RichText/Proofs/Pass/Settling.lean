import RichText.Proofs.Pass.Coverage
import RichText.Proofs.Pass.Course
import RichText.Proofs.Pass.Staying

/-!
What a pass leaves in the place of a forest.

A property of forests that is `Local` is not changed by edits elsewhere. If each visit leaves such a property in the
place of its node, or has the walk come to that place again, the walk leaves it in the place of the whole forest. An
element whose visit goes on `Stands` in its place.
-/

namespace RichText

open RichText.Tree Effects
open Relation (ReflTransGen)

variable {κ σ : Type} {f : Filter κ σ} {o : Cursor} {t u v : Tree} {S S' : Set Nat} {d p : Nat} {pre : List Nat}
  {below g g' : Forest Nat} {place : Place} {next : Ref} {good : Tree → Forest Nat → Prop}
  {site : Tree → Nat → Prop}

namespace Tree

/-! ### What remains -/

theorem text?_putAttributes (t : Tree) (r : Ref) (new : List (Attribute Symbol)) (r' : Ref) :
    (t.putAttributes r new).text? r' = t.text? r' := by
  cases r' with
  | none => rfl
  | some x =>
    rw [text?, text?, data?, data?, putAttributes, node?_update]
    split
    · rename_i hx
      subst hx
      cases hn : t.node? (some x) with
      | none => rfl
      | some n =>
        obtain ⟨_, _, _, _, _, data⟩ := n
        cases data <;> rfl
    · rfl

/-- From `t` to `u` the nodes of `t` keep their kinds and names, and those outside `S` their texts. -/
structure Remains (S : Set Nat) (t u : Tree) : Prop where
  recalls : t.Recalls u
  text : ∀ {x}, x < t.size → x ∉ S → u.text? (some x) = t.text? (some x)

namespace Remains

theorem refl (S : Set Nat) (h : t.Named) : Remains S t t := ⟨.refl h, fun _ _ => rfl⟩

theorem trans (h : Remains S t u) (h' : Remains S' u v) (hS : ∀ x ∈ S', x < t.size → x ∈ S) : Remains S t v :=
  ⟨h.recalls.trans h'.recalls, fun hx hn =>
    (h'.text (hx.trans_le h.recalls.size) fun hm => hn (hS _ hm hx)).trans (h.text hx hn)⟩

theorem mono (h : Remains S t u) (hS : S ⊆ S') : Remains S' t u :=
  ⟨h.recalls, fun hx hn => h.text hx fun hm => hn (hS hm)⟩

/-- A text of `S` is written. -/
theorem setText (h : Remains S t u) {x : Nat} (hx : x ∈ S) {content : String}
    (hv : u.setText (some x) content = .ok v) : Remains S t v := by
  refine ⟨(lasting_recalls t).setText hv h.recalls, fun {y} hy hn => ?_⟩
  have hne : some x ≠ some y := fun he => hn (Option.some.inj he ▸ hx)
  obtain ⟨-, rfl⟩ := setText_eq hv
  rw [← h.text hy hn, text?, text?, data?, data?, node?_update, if_neg hne]

end Remains

/-- Edits of elements write no text. -/
theorem steady_remains (S : Set Nat) (t : Tree) : Steady (Remains S t) where
  store s h := ⟨(lasting_recalls t).store s h.recalls, h.text⟩
  attributes r new h :=
    ⟨(lasting_recalls t).attributes r new h.recalls, fun hx hn => (text?_putAttributes _ r new _).trans (h.text hx hn)⟩
  detach hu h := by
    have hs := sameData_of_detach hu
    exact ⟨(lasting_recalls t).moves hs h.recalls, fun hx hn => by rw [text?, hs.data, ← text?, h.text hx hn]⟩
  insertBefore hu h := by
    have hs := sameData_of_insertBefore hu
    exact ⟨(lasting_recalls t).moves hs h.recalls, fun hx hn => by rw [text?, hs.data, ← text?, h.text hx hn]⟩
  createElement {u} space written h := by
    refine ⟨(lasting_recalls t).createElement space written h.recalls, fun {x} hx hn => ?_⟩
    have hlt : x ≠ u.size := (hx.trans_le h.recalls.size).ne
    rw [← h.text hx hn, text?, text?]
    exact congrArg (·.bind NodeData.text?) ((data?_push _ x).trans (if_neg hlt))

/-- `good` says of a forest what is up to its nodes alone, and says nothing of a node without children that is no
element. -/
structure Local (good : Tree → Forest Nat → Prop) : Prop where
  nil : ∀ {t}, good t .nil
  leaf : ∀ {t x}, t.kind? (some x) ≠ some .element → good t (.node x .nil .nil)
  append : ∀ {t g g'}, good t g → good t g' → good t (g ++ g')
  stays : ∀ {S t u g}, t.Named → Remains S t u → (∀ x ∈ g.toList, x < t.size ∧ x ∉ S) → good t g → good u g

/-- From `t` to `u` the forest `g` in the list of `p` after `pre` became a good one. -/
def Yields (good : Tree → Forest Nat → Prop) (t : Tree) (p : Nat) (pre : List Nat) (g : Forest Nat) (u : Tree) :
    Prop :=
  ∃ g', t.Turned p pre g u g' ∧ Remains {x | x ∈ g.toList} t u ∧ u.Leafy g' ∧ good u g'

/-- A forest ahead, in which only elements have children, at a site. -/
structure Ground (site : Tree → Nat → Prop) (t : Tree) (p : Nat) (pre : List Nat) (g : Forest Nat) : Prop where
  ahead : t.Ahead p pre g
  leafy : t.Leafy g
  named : t.Named
  site : site t p

namespace Ground

theorem lt_below (h : Ground site o.tree o.parent o.before o.ahead) : ∀ x ∈ o.below.toList, x < o.tree.size :=
  fun _ hx => h.ahead.lt (Forest.mem_toList_below hx _ _)

theorem lt_rest (h : Ground site o.tree o.parent o.before o.ahead) : ∀ x ∈ o.rest.toList, x < o.tree.size :=
  fun _ hx => h.ahead.lt (Forest.mem_toList_rest hx _ _)

/-- Where the nodes keep their kinds, what follows the visited node is leafy after the visit as well. -/
theorem leafy_rest (h : Ground site o.tree o.parent o.before o.ahead) (hr : Remains S o.tree u) : u.Leafy o.rest :=
  h.leafy.2.2.congr fun x hx => hr.recalls.kind (h.lt_rest x hx)

end Ground

end Tree

/-- What a visit may change but for child lists. -/
def Cursor.own (o : Cursor) : Set Nat := {x | x ∈ o.node :: o.below.toList}

/-- A visit is over: it left something good in the place of the node, or the walk comes there again. -/
def Cursor.Yields (good : Tree → Forest Nat → Prop) (o : Cursor) (next : Ref) (u : Tree) : Prop :=
  Remains o.own o.tree u ∧
    ((∃ d below place, Visiting o u d below place ∧ u.Leafy (place.seat d below) ∧ good u (place.seat d below) ∧
        (next = none ∨ next = o.rest.roots.head?)) ∨
      ∃ d below present, Visiting o u d below (.vacated present) ∧ u.Leafy present ∧ next ≠ none ∧
        next = present.roots.head?)

/-- A visit leads from one site to another, and the children of a visited element are a site. -/
structure Enduring (site : Tree → Nat → Prop) : Prop where
  after : ∀ {o : Cursor} {u d below place}, Ground site o.tree o.parent o.before o.ahead →
    Visiting o u d below place → Remains o.own o.tree u → site u o.parent
  inside : ∀ {o : Cursor} {u d below place}, Ground site o.tree o.parent o.before o.ahead →
    Visiting o u d below place → Remains o.own o.tree u → u.kind? (some d) = some .element → site u d

namespace Cursor.Yields

theorem visiting (h : o.Yields good next u) : ∃ d below place, Visiting o u d below place := by
  obtain ⟨-, ⟨d, below, place, hv, -⟩ | ⟨d, below, present, hv, -⟩⟩ := h
  · exact ⟨d, below, place, hv⟩
  · exact ⟨d, below, _, hv⟩

/-- Where a visit is over the walk goes on at a smaller forest, and once that is good so is the forest that was
ahead. -/
theorem proceed (h : o.Yields good next u) (hgood : Local good)
    (ho : Ground site o.tree o.parent o.before o.ahead) :
    ∃ pre g, u.Ahead o.parent pre g ∧ u.Leafy g ∧ g.size < o.ahead.size ∧
      (next <|> o.rest.roots.head?) = g.roots.head? ∧
      ∀ v, u.Yields good o.parent pre g v → o.tree.Yields good o.parent o.before o.ahead v := by
  have hsize : o.ahead.size = o.below.size + o.rest.size + 1 := rfl
  obtain ⟨hr, hcases⟩ := h
  have hrest : u.Leafy o.rest := ho.leafy_rest hr
  have hown : ∀ x ∈ o.own, x ∈ o.ahead.toList := fun x hx => by
    rcases List.mem_cons.1 hx with rfl | hx
    · exact List.mem_cons_self
    · exact Forest.mem_toList_below hx _ _
  have hbegun : Remains {x | x ∈ o.ahead.toList} o.tree u := hr.mono hown
  rcases hcases with ⟨d, below, place, hv, hl, hg, hn⟩ | ⟨d, below, present, hv, hl, hne, hn⟩
  · refine ⟨_, o.rest, hv.ahead.after, hrest, by omega, ?_, ?_⟩
    · rcases hn with rfl | rfl
      · rfl
      · cases o.rest.roots.head? <;> rfl
    · rintro v ⟨g', ht, hr', hl', hg'⟩
      -- what stands in the place of the node is not among what followed
      have hapart : ∀ x ∈ (place.seat d below).toList, x < u.size ∧ x ∉ {x | x ∈ o.rest.toList} := fun x hx => by
        refine ⟨hv.ahead.lt_front hx, fun hm => ?_⟩
        have hnodup := hv.ahead.nodup
        rw [Forest.toList_append] at hnodup
        exact (List.nodup_append.1 hnodup).2.2 x hx x hm rfl
      refine ⟨_, hv.turned_rest ht, hbegun.trans hr' fun x hx _ => Forest.mem_toList_rest hx _ _, ?_, ?_⟩
      · exact leafy_append.2 ⟨hl.congr fun x hx => hr'.recalls.kind (hapart x hx).1, hl'⟩
      · exact hgood.append (hgood.stays hr.recalls.named hr' hapart hg) hg'
  · have hp := (hv.left rfl).size
    refine ⟨o.before, present ++ o.rest, hv.ahead, leafy_append.2 ⟨hl, hrest⟩, ?_, ?_, ?_⟩
    · rw [Forest.size_append]
      omega
    · obtain ⟨c, hc⟩ := Option.ne_none_iff_exists'.1 hne
      rw [hc, Forest.roots_append, List.head?_append, ← hn, hc]
      rfl
    · rintro v ⟨g', ht, hr', hl', hg'⟩
      refine ⟨g', hv.turned_again ht, hbegun.trans hr' fun x hx hlt => ?_, hl', hg'⟩
      rcases Forest.mem_toList_append.1 hx with hx | hx
      · rcases (hv.left rfl).source hx with hx | hge
        · exact Forest.mem_toList_below hx _ _
        · omega
      · exact Forest.mem_toList_rest hx _ _

end Cursor.Yields

/-! ### Nodes that are no elements -/

/-- A visit to a node without children that is no element leaves the node or nothing, and the walk goes on at what
followed. -/
theorem Cursor.Over.yields (h : o.Over True u next) (hgood : Local good) (hb : o.below = .nil)
    (he : o.tree.kind? (some o.node) ≠ some .element) (hr : Remains o.own o.tree u) : o.Yields good next u := by
  have hnext := h.next_of_leaf hb
  obtain ⟨d, below, place, hv, -, -⟩ := h
  have hsize := hv.size
  rw [hb] at hsize
  obtain rfl : below = .nil := Forest.eq_nil_of_size hsize
  refine ⟨hr, .inl ⟨d, .nil, place, hv, ?_, ?_, hnext⟩⟩
  · cases place with
    | attached => exact ⟨.inl rfl, trivial, trivial⟩
    | vacated present =>
      obtain rfl := hv.present_nil hb
      trivial
  · cases place with
    | attached => exact hgood.leaf (hv.kind ▸ he)
    | vacated present =>
      obtain rfl := hv.present_nil hb
      exact hgood.nil

/-- A visit to a text node, and what remains of the tree. -/
def TextRemains (o : Cursor) (q : TextProxy) : Prop := TextGoing True o q ∧ Remains o.own o.tree q.tree

theorem TextRemains.step {q q' : TextProxy} (h : TextRemains o q) (hs : TextProxy.Step q q') : TextRemains o q' := by
  have hd : q.delegate = some o.node := by
    obtain ⟨below, place, ho, -, -⟩ := h.1
    exact ho.delegate
  have hwrite : ∀ {t u : Tree} {content : String}, t.setText (some o.node) content = .ok u →
      Remains o.own o.tree t → Remains o.own o.tree u := fun hu h => h.setText List.mem_cons_self hu
  exact ⟨h.1.step hs, ((steady_remains o.own o.tree).textStep hwrite hs ⟨hd, h.2⟩).2⟩

theorem TextRemains.steps {q q' : TextProxy} (h : TextRemains o q) (hs : ReflTransGen TextProxy.Step q q') :
    TextRemains o q' :=
  holds_of_steps hs h fun hs ih => ih.step hs

/-! ### Elements -/

/-- The delegate of a visit to an element stands in its place, and in what is below it only elements have children. -/
structure Stands (o : Cursor) (q : ElementProxy) (d : Nat) (below : Forest Nat) : Prop extends
    OnElement o q d below .attached where
  leafy : q.tree.Leafy below
  remains : Remains o.own o.tree q.tree

/-- What persisting leaves of a proxy `q` whose delegate goes on standing: the recorded fate is carried out, and the
delegate is in the namespace that a buffered `xmlns` asked for or in the default namespace. -/
structure Persisted (o : Cursor) (q : ElementProxy) (below : Forest Nat) (q' : ElementProxy) (d' : Nat)
    (below' : Forest Nat) : Prop extends Stands o q' d' below' where
  fate : q'.fate = q.fate
  carried : q.fate = .keep ∧ below' = below ∨ q.fate = .clear ∧ below' = .nil
  pending : q'.pendingNamespace = none
  space : ∃ v d, Visiting o v d below' .attached ∧ Remains o.own o.tree v ∧
    q'.tree.namespace? (some d') = some (q.pendingNamespace.getD v.defaultNamespace)

namespace Stands

variable {q q' : ElementProxy} {below' : Forest Nat} {d' : Nat}

theorem begin (h : Ground site o.tree o.parent o.before o.ahead) (he : o.tree.kind? (some o.node) = some .element)
    (namespaces : NamespaceTable) : Stands o (.ofNode o.tree (some o.node) namespaces) o.node o.below :=
  ⟨⟨.begin h.ahead, rfl, rfl, he, .inl rfl⟩, h.leafy.2.1, .refl _ h.named⟩

theorem buffer (h : Stands o q d below) (fate : Fate) (pendingName : Option String)
    (overrides : List (String × Option String)) : Stands o { q with fate, pendingName, overrides } d below :=
  ⟨h.toOnElement.buffer fate pendingName overrides, h.leafy, h.remains⟩

/-- Edits of the delegate leave the nodes below it alone. -/
theorem of_remains (h : Stands o q d below) (ho : OnElement o q' d' below' .attached)
    (hb : below' = below ∨ below' = .nil) (hr : Remains ∅ q.tree q'.tree) : Stands o q' d' below' := by
  refine ⟨ho, ?_, h.remains.trans hr nofun⟩
  rcases hb with rfl | rfl
  · exact h.leafy.congr fun x hx => hr.recalls.kind (h.visiting.inner.lt hx)
  · trivial

/-- What is below the delegate is a ground for the walk through it. -/
theorem ground (h : Stands o q d below) (hsite : Enduring site)
    (ho : Ground site o.tree o.parent o.before o.ahead) : Ground site q.tree d [] below :=
  ⟨h.visiting.inner, h.leafy, h.remains.recalls.named, hsite.inside ho h.visiting h.remains h.kind⟩

/-- A walk through the children of the delegate. -/
theorem descend (h : Stands o q d below) (ht : q.tree.Turned d [] below u below')
    (hr : Remains {x | x ∈ below.toList} q.tree u) (hl : u.Leafy below') : Stands o { q with tree := u } d below' := by
  refine ⟨h.toOnElement.descend ht, hl, h.remains.trans hr fun x hx hlt => ?_⟩
  rcases h.visiting.source hx with hx | hge
  · exact List.mem_cons_of_mem _ hx
  · omega

/-- Replacing the delegate. -/
theorem replaceBy (h : Stands o q d below) (name : String) (space : Option String) :
    ∃ d' q', ElementProxy.replaceBy name space q = (.ok .proceed, q') ∧ Stands o q' d' below ∧
      Remains ∅ q.tree q'.tree ∧ q'.fate = q.fate ∧ q'.overrides = q.overrides ∧
      q'.tree.namespace? (some d') = some (q.spaceFor space) := by
  have hr := (steady_remains ∅ q.tree).replaceBy name space q (.refl _ h.remains.recalls.named)
  obtain ⟨d', q', hq, ho, hf, hov, hspace⟩ := h.replaceBy_space h.remains.recalls.named name space
  rw [hq] at hr
  exact ⟨d', q', hq, h.of_remains ho (.inl rfl) hr, hr, hf, hov, hspace⟩

/-- Writing the buffered name and attributes. -/
theorem persistContent (h : Stands o q d below) :
    ∃ d' q', ElementProxy.persistContent q = (.ok .proceed, q') ∧ Stands o q' d' below ∧
      Remains ∅ q.tree q'.tree ∧ q'.fate = q.fate ∧ q'.pendingNamespace = none ∧
      q'.tree.namespace? (some d') = some (q.spaceFor none) := by
  have hr := (steady_remains ∅ q.tree).persistContent q (.refl _ h.remains.recalls.named)
  obtain ⟨d', q', hq, ho, hf, hp, hspace⟩ := h.persistContent_space h.remains.recalls.named
  rw [hq] at hr
  exact ⟨d', q', hq, h.of_remains ho (.inl rfl) hr, hr, hf, hp, hspace⟩

/-- Carrying out a fate that lets the delegate stand. -/
theorem settle (h : Stands o q d below) (hf : q.fate = .keep ∨ q.fate = .clear) :
    ∃ node below', NodeProxy.settle q.toNodeProxy = (.ok none, node) ∧ node.fate = q.fate ∧
      Remains ∅ q.tree node.tree ∧ Stands o { q with toNodeProxy := node } d below' ∧
      (q.fate = .keep ∧ below' = below ∨ q.fate = .clear ∧ below' = .nil) := by
  have hr := ((steady_remains ∅ q.tree).settle _ q.toNodeProxy ⟨rfl, .refl _ h.remains.recalls.named⟩).2
  obtain ⟨node, hnode, hnf, ho⟩ := h.toOnElement.settle
  rw [hnode] at hr
  rcases hf with hf | hf
  · rw [hf] at ho hnode
    exact ⟨node, below, hnode, hnf, hr, h.of_remains ho (.inl rfl) hr, .inl ⟨hf, rfl⟩⟩
  · rw [hf] at ho hnode
    exact ⟨node, .nil, hnode, hnf, hr, h.of_remains ho (.inr rfl) hr, .inr ⟨hf, rfl⟩⟩

/-- Persisting a proxy whose fate lets the delegate stand. -/
theorem persist_stays (h : Stands o q d below) (hf : q.fate = .keep ∨ q.fate = .clear) :
    ∃ d' below' q', ElementProxy.persist q = (.ok .proceed, q') ∧ Remains ∅ q.tree q'.tree ∧
      Persisted o q below q' d' below' := by
  obtain ⟨node, below', hnode, hnf, hr, hs, hc⟩ := h.settle hf
  obtain ⟨d', q', hq, hs', hr', hf', hp, hspace⟩ := hs.persistContent
  exact ⟨d', below', q', (ElementProxy.persist_content h.isMutable hnode).trans hq, hr.trans hr' nofun, hs',
    hf'.trans hnf, hc, hp, node.tree, d, hs.visiting, hs.remains, hspace⟩

/-- Persisting a proxy whose delegate is to leave. -/
theorem persist_leaves (hgood : Local good) (h : Stands o q d below) (hf : q.fate = .remove ∨ q.fate = .unwrap) :
    ∃ r q', ElementProxy.persist q = (.ok r, q') ∧ match r with
      | .proceed => False
      | .stop => o.Yields good none q'.tree
      | .restart node => o.Yields good (some node) q'.tree := by
  have hr := (steady_remains o.own o.tree).persist q h.remains
  obtain ⟨d', q', hq, ho, -, -⟩ := h.toOnElement.persist
  refine ⟨_, q', hq, ?_⟩
  rw [hq] at hr
  have hstop : ∀ {below'}, Visiting o q'.tree d' below' (.vacated .nil) → o.Yields good none q'.tree := fun hv =>
    ⟨hr, .inl ⟨d', _, _, hv, trivial, hgood.nil, .inl rfl⟩⟩
  rcases hf with hf | hf
  · rw [hf] at ho ⊢
    exact hstop ho.visiting
  · rw [hf] at ho ⊢
    cases hc : below.roots.head? with
    | none =>
      have hnil : below = .nil := Forest.eq_nil_of_roots (List.head?_eq_none_iff.1 hc)
      subst hnil
      exact hstop ho.visiting
    | some c =>
      rw [Fate.outcome, hc]
      have hk : ∀ x ∈ below.toList, q'.tree.kind? (some x) = q.tree.kind? (some x) := fun x hx =>
        h.visiting.kind_eq ho.visiting (h.visiting.inner.lt hx) (ho.visiting.ahead.lt_front hx)
      exact ⟨hr, .inr ⟨d', _, below, ho.visiting, h.leafy.congr hk, Option.some_ne_none _, hc.symm⟩⟩

/-- After the last stage a good delegate is left with what is below it. -/
theorem finish {s : ElementProxy × σ} {fail : Halt → Tree × σ → Prop} (h : Stands o s.1 d below)
    (hg : good s.1.tree (.node d below .nil)) :
    Filter.StageEnds (·.tree) (fun next s' => o.Yields good next s'.1.tree) fail
      ((ElementProxy.successor : Action Halt σ ElementProxy Ref) s) :=
  Filter.successor_ends (fun next s => o.Yields good next s.1) h.toOnElement fun _ hnext =>
    ⟨h.remains, .inl ⟨d, below, .attached, h.visiting, ⟨.inr h.kind, h.leafy, trivial⟩, hg, hnext⟩⟩

end Stands

namespace Filter

/-! ### Visits and walks -/

/-- What is asked of the walk through the children of a delegate, for child lists up to a bound. -/
def DescendsYielding (site : Tree → Nat → Prop) (good : Tree → Forest Nat → Prop) (bound : Nat)
    (descend : Ref → Pass σ Unit) : Prop :=
  ∀ {t d below} j, Ground site t d [] below → below.size ≤ bound →
    Ends (fun _ s => t.Yields good d [] below s.1) (fun _ _ => True) (descend (some d) (t, j))

/-- Persisting, for what `post` says of a delegate that goes on standing. -/
theorem standing_persist_ends (post : ElementProxy → Prop) (hgood : Local good) {s : ElementProxy × σ}
    (h : Stands o s.1 d below)
    (hp : ∀ {q' d' below'}, Remains ∅ s.1.tree q'.tree → Persisted o s.1 below q' d' below' → post q') :
    StageEnds (·.tree) (Answered (fun s' => post s'.1) fun next s' => o.Yields good next s'.1.tree)
      (fun _ _ => True) (stage Writers.plain.element s) := by
  refine stage_ends ?_
  by_cases hf : s.1.fate = .keep ∨ s.1.fate = .clear
  · obtain ⟨d', below', q', hq, hr, hs'⟩ := h.persist_stays hf
    simp only [Writers.plain, Rule.onProxy, hq]
    exact hp hr hs'
  · have hleave : s.1.fate = .remove ∨ s.1.fate = .unwrap := by
      cases hfate : s.1.fate <;> simp [hfate] at hf ⊢
    obtain ⟨r, q', hq, hy⟩ := h.persist_leaves hgood hleave
    simp only [Writers.plain, Rule.onProxy, hq]
    cases r with
    | proceed => exact hy.elim
    | stop => exact hy
    | restart node => exact hy

/-- The walk through the children, for what `post` says of a delegate above a good forest. -/
theorem DescendsYielding.onTree {descend : Ref → Pass σ Unit} (hd : DescendsYielding site good o.below.size descend)
    (hsite : Enduring site) (ho : Ground site o.tree o.parent o.before o.ahead) {s : ElementProxy × σ}
    (h : Stands o s.1 d below) {post : ElementProxy → Prop}
    (hpost : ∀ {u below'}, Stands o { s.1 with tree := u } d below' → good u below' → post { s.1 with tree := u }) :
    StageEnds (·.tree) (fun _ s' => post s'.1) (fun _ _ => True) (onTree descend s) := by
  refine onTree_leaves ?_
  rw [h.delegate]
  refine (hd s.2 (h.ground hsite ho) h.visiting.size).mono ?_ fun _ _ => id
  rintro _ s' ⟨below', ht, hr, hl, hg⟩
  exact hpost (h.descend ht hr hl) hg

/-- A visit to a node that is no element, the rules of texts acting through their proxies. -/
theorem text_yields (hgood : Local good) (hf : ∀ {rule}, f.rules.text = some rule → ThroughText f.context rule)
    (ho : Ground site o.tree o.parent o.before o.ahead) (ht : o.tree.kind? (some o.node) = some .text) (j : σ) :
    Ends (fun next s => o.Yields good next s.1) (fun _ _ => True) (f.visitTextBy .plain o.node (o.tree, j)) := by
  have he : o.tree.kind? (some o.node) ≠ some .element := ht ▸ nofun
  have hb : o.below = .nil := ho.leafy.1.resolve_right he
  have hbegin : TextRemains o (.ofNode o.tree (some o.node)) := ⟨.begin ho.ahead ht, .refl _ ho.named⟩
  refine visitTextBy_ends (fun s => TextRemains o s.1) (fun s => TextRemains o s.1) (fun s => TextRemains o s.1)
    (fun _ => hbegin.1.over.yields hgood hb he hbegin.2) hbegin
    (fun hr s hs => stage_leaves (hs.steps (hf hr s.1 s.2))) (fun s hs => ?_)
    fun s hs => hs.1.over.yields hgood hb he hs.2
  obtain ⟨r, q', hq, ha, -⟩ := hs.1.persist
  have hr := hs.step (.persist s.1)
  rw [hq] at hr
  refine stage_ends ?_
  simp only [Writers.plain, Rule.onProxy, hq]
  cases r with
  | proceed => exact hr
  | stop => exact Cursor.Over.yields ha hgood hb he hr.2
  | restart node => exact Cursor.Over.yields ha hgood hb he hr.2

theorem other_yields (hgood : Local good) (ho : Ground site o.tree o.parent o.before o.ahead)
    (he : o.tree.kind? (some o.node) ≠ some .element) : o.Yields good none o.tree := by
  have hover : o.Over True o.tree none := ⟨o.node, o.below, .attached, .begin ho.ahead, .refl o, .none _⟩
  exact hover.yields hgood (ho.leafy.1.resolve_right he) he (.refl _ ho.named)

/-- A walk over a ground leaves a good forest where every visit does. -/
theorem walk_yields (hgood : Local good) (hsite : Enduring site)
    (hvisit : ∀ {o : Cursor} (descend : Ref → Pass σ Unit) (j : σ),
      Ground site o.tree o.parent o.before o.ahead → DescendsYielding site good o.below.size descend →
      ∃ going acted turned, f.Course .plain o descend j going acted turned (fun next s => o.Yields good next s.1)
        fun _ _ => True)
    {fuel : Nat} (h : Ground site t p pre g) (hs : g.size ≤ fuel) (j : σ) :
    Ends (fun _ s => t.Yields good p pre g s.1) (fun _ _ => True) (f.walk fuel g.roots.head? (t, j)) := by
  refine walk_induction (I := fun s p pre g => Ground site s.1 p pre g)
    (R := fun s p pre g s' => s.1.Yields good p pre g s'.1) (E := fun _ _ _ _ _ _ => True) (fun h => h.ahead)
    (fun h => ⟨.nil, .refl h.ahead, .refl _ h.named, trivial, hgood.nil⟩) ?_ (s := (t, j)) h hs
  intro o descend j ho hd
  obtain ⟨going, acted, turned, hcourse⟩ := hvisit descend j ho hd
  rw [← visitBy_plain]
  refine (hcourse.visit_ends ho.ahead).mono ?_ fun _ _ _ => trivial
  rintro _ s ⟨next, hy, rfl⟩
  obtain ⟨d, below, place, hv⟩ := hy.visiting
  obtain ⟨pre', g', ha, hl, hlt, hn, hgo⟩ := hy.proceed hgood ho
  have hg : Ground site s.1 o.parent pre' g' := ⟨ha, hl, hy.1.recalls.named, hsite.after ho hv hy.1⟩
  exact ⟨o.parent, pre', g', hg, hlt, hn, fun v => hgo v.1, fun _ _ _ => trivial⟩

end Filter

end RichText
