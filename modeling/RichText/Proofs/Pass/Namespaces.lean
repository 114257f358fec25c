import RichText.Proofs.Pass.Coverage
import RichText.Proofs.Pass.Staying
import RichText.Proofs.Pass.Verdicts

/-!
The namespaces that a pass leaves.

An element is persisted after each of its stages, and the last time decides on its namespace. A buffered `xmlns` of a
rule that runs before the children is written at once, and taken back when the visit goes on: only one that the rule
after the children buffers is still there at the end. Every other element below the start node ends up in the
default namespace, also where it was in another one before the pass.
-/

namespace RichText

open RichText.Tree Effects

variable {κ σ : Type} {f : Filter κ σ} {o : Cursor} {t u v : Tree} {p : Nat} {pre : List Nat} {g : Forest Nat}
  {space final : String} {last : Option String} {next : Ref}

/-! ### Namespaces of a forest -/

namespace Tree

/-- The namespaces of the elements of a forest; nodes of other kinds have none. -/
def spaces (t : Tree) (g : Forest Nat) : Forest (Option String) := g.map fun x => t.namespace? (some x)

/-- The same namespace for all elements of a forest, and none for nodes of other kinds. -/
def filled (t : Tree) (space : String) (g : Forest Nat) : Forest (Option String) :=
  g.map fun x => if t.kind? (some x) = some .element then some space else none

theorem spaces_node (t : Tree) (x : Nat) (below rest : Forest Nat) :
    t.spaces (.node x below rest) = .node (t.namespace? (some x)) (t.spaces below) (t.spaces rest) := rfl

theorem filled_node (t : Tree) (space : String) (x : Nat) (below rest : Forest Nat) :
    t.filled space (.node x below rest) = .node (if t.kind? (some x) = some .element then some space else none)
      (t.filled space below) (t.filled space rest) := rfl

theorem spaces_append (t : Tree) (g g' : Forest Nat) : t.spaces (g ++ g') = t.spaces g ++ t.spaces g' :=
  Forest.map_append _ g g'

theorem filled_append (t : Tree) (space : String) (g g' : Forest Nat) :
    t.filled space (g ++ g') = t.filled space g ++ t.filled space g' := Forest.map_append _ g g'

theorem name?_of_other {r : Ref} (h : t.kind? r ≠ some .element) : t.name? r = none := by
  rw [name?]
  cases hc : t.content? r with
  | none => rfl
  | some content =>
    rw [kind_eq_of_content hc] at h
    cases content with
    | element name attributes => exact absurd rfl h
    | _ => rfl

theorem namespace?_of_other {r : Ref} (h : t.kind? r ≠ some .element) : t.namespace? r = none := by
  rw [namespace?, name?_of_other h, Option.map_none]

theorem Recalls.spaces (h : t.Recalls u) (ht : t.Named) (hg : ∀ x ∈ g.toList, x < t.size) :
    u.spaces g = t.spaces g :=
  Forest.map_congr fun x hx => h.namespace? ht (hg x hx)

theorem Recalls.filled (h : t.Recalls u) (hg : ∀ x ∈ g.toList, x < t.size) : u.filled space g = t.filled space g :=
  Forest.map_congr fun x hx => by rw [h.kind (hg x hx)]

/-- From `t` to `u` the forest `g` in the list of `p` after `pre` became one of the same shape, with elements of the
given namespace where it had elements. -/
def Fills (space : String) (t : Tree) (p : Nat) (pre : List Nat) (g : Forest Nat) (u : Tree) : Prop :=
  ∃ g', t.Turned p pre g u g' ∧ t.Recalls u ∧ u.spaces g' = t.filled space g

/-- A forest ahead, in which only elements have children, in a tree with this default namespace. It is not the
forest below the document. -/
structure Sited (space : String) (t : Tree) (p : Nat) (pre : List Nat) (g : Forest Nat) : Prop where
  ahead : t.Ahead p pre g
  named : t.Named
  leafy : t.Leafy g
  document : t.kind? root = some .document
  apex : ∀ q, 0 ∉ t.kids q
  parent_ne : p ≠ 0
  defaultNamespace : t.defaultNamespace = space

end Tree

/-! ### Visits -/

/-- A visit is over, and the elements in the place of the node are in the given namespace. -/
def Cursor.Fills (space : String) (o : Cursor) (u : Tree) (next : Ref) : Prop :=
  o.tree.Recalls u ∧ (next = none ∨ next = o.rest.roots.head?) ∧ ∃ d below, Visiting o u d below .attached ∧
    u.spaces (.node d below .nil) = o.tree.filled space (.node o.node o.below .nil)

namespace Tree.Sited

theorem size_pos (h : t.Sited space p pre g) : 0 < t.size := lt_of_kind h.document

theorem lt_rest (h : o.tree.Sited space o.parent o.before o.ahead) : ∀ x ∈ o.rest.toList, x < o.tree.size :=
  fun _ hx => h.ahead.lt (Forest.mem_toList_rest hx _ _)

theorem lt_below (h : o.tree.Sited space o.parent o.before o.ahead) : ∀ x ∈ o.below.toList, x < o.tree.size :=
  fun _ hx => h.ahead.lt (Forest.mem_toList_below hx _ _)

/-- During a visit the default namespace stays as it is. -/
theorem defaultNamespace_eq (h : o.tree.Sited space o.parent o.before o.ahead) {d : Nat} {below : Forest Nat}
    {place : Place} (hv : Visiting o u d below place) (hr : o.tree.Recalls u) : u.defaultNamespace = space := by
  have hkids : u.kids 0 = o.tree.kids 0 := hv.evolves.kids h.size_pos (h.ahead.apex_not_mem h.apex h.parent_ne)
  exact (hr.defaultNamespace h.named h.ahead.linked hkids).trans h.defaultNamespace

/-- What a visit leaves is sited for a further walk as far as only elements have children. -/
theorem after (h : o.tree.Sited space o.parent o.before o.ahead) {d : Nat} {below : Forest Nat} {place : Place}
    (hv : Visiting o u d below place) (hr : o.tree.Recalls u) (ha : u.Ahead p pre g) (hp : p ≠ 0) (hl : u.Leafy g) :
    u.Sited space p pre g where
  ahead := ha
  named := hr.named
  leafy := hl
  document := (hr.kind h.size_pos).trans h.document
  apex := hv.evolves.orphan h.size_pos h.apex
  parent_ne := hp
  defaultNamespace := h.defaultNamespace_eq hv hr

/-- What is below a delegate in its place is sited for the walk through it. -/
theorem inside (h : o.tree.Sited space o.parent o.before o.ahead) {q : ElementProxy} {d : Nat}
    (hs : Staying o q d o.below) : q.tree.Sited space d [] o.below := by
  have hleafy : q.tree.Leafy o.below := h.leafy.2.1.congr fun x hx => hs.recalls.kind (h.lt_below x hx)
  refine h.after hs.visiting hs.recalls hs.visiting.inner ?_ hleafy
  rintro rfl
  have hk := hs.kind
  rw [hs.recalls.kind h.size_pos] at hk
  exact nomatch h.document.symm.trans hk

end Tree.Sited

/-- Where a visit is over the walk goes on at what followed, and once that is filled so is the forest that was
ahead. -/
theorem Cursor.Fills.proceed (h : o.Fills final u next) (ho : o.tree.Sited space o.parent o.before o.ahead) :
    ∃ pre, u.Sited space o.parent pre o.rest ∧ (next <|> o.rest.roots.head?) = o.rest.roots.head? ∧
      ∀ v, u.Fills final o.parent pre o.rest v → o.tree.Fills final o.parent o.before o.ahead v := by
  obtain ⟨hr, hn, d, below, hv, hs⟩ := h
  have hrest : u.Leafy o.rest := ho.leafy.2.2.congr fun x hx => hr.kind (ho.lt_rest x hx)
  refine ⟨_, ho.after hv hr hv.ahead.after ho.parent_ne hrest, ?_, ?_⟩
  · rcases hn with rfl | rfl
    · rfl
    · cases o.rest.roots.head? <;> rfl
  · rintro v ⟨g', ht, hr', hg'⟩
    refine ⟨_, hv.turned_rest ht, hr.trans hr', ?_⟩
    have hseat : ∀ x ∈ (Forest.node d below .nil).toList, x < u.size := fun _ hx => hv.ahead.lt_front hx
    have he : o.ahead = .node o.node o.below .nil ++ o.rest := rfl
    rw [Place.seat, spaces_append, hr'.spaces hr.named hseat, hs, hg', hr.filled ho.lt_rest, he, filled_append]

/-- The delegate stays above elements of the namespace `final`, and the buffered `xmlns` asks for `pending`. -/
def Cursor.Descended (final : String) (pending : Option String) (o : Cursor) (q : ElementProxy) : Prop :=
  ∃ d below, Staying o q d below ∧ q.tree.spaces below = o.tree.filled final o.below ∧ q.pendingNamespace = pending

/-- The delegate stays in the namespace `own` above elements of the namespace `final`, and no `xmlns` is
buffered. -/
def Cursor.Settled (final own : String) (o : Cursor) (q : ElementProxy) : Prop :=
  ∃ d below, Staying o q d below ∧ q.tree.spaces below = o.tree.filled final o.below ∧ q.pendingNamespace = none ∧
    q.tree.namespace? (some d) = some own

/-- Persisting settles the delegate in the namespace that is asked for, or in the default namespace. -/
theorem Cursor.Descended.persist {pending : Option String} {q : ElementProxy} (h : o.Descended final pending q)
    (ho : o.tree.Sited space o.parent o.before o.ahead) :
    ∃ q', ElementProxy.persist q = (.ok .proceed, q') ∧ o.Settled final (pending.getD space) q' := by
  obtain ⟨d, below, hs, hb, hp⟩ := h
  have hr := (lasting_recalls q.tree).steady.persist q (.refl hs.recalls.named)
  obtain ⟨d', q', hq, hs', hp', hspace⟩ := hs.persistContent
  rw [hs.persist_eq, hq] at hr
  refine ⟨q', hs.persist_eq.trans hq, d', below, hs', ?_, hp', ?_⟩
  · rw [hr.spaces hs.recalls.named fun _ hx => hs.visiting.inner.lt hx, hb]
  · rw [hspace, ElementProxy.spaceFor, hp, ho.defaultNamespace_eq hs.visiting hs.recalls]
    cases pending <;> rfl

/-- A rule that lets the element stay and asks for the namespace `pending`. -/
theorem Cursor.Settled.rule {own : String} {q : ElementProxy} (h : o.Settled final own q) {context : κ}
    {rule : ElementRule κ σ} (hk : KeepsElement context rule) {pending : Option String}
    (hp : PendsNamespace context rule pending) (j : σ) :
    ∃ q' j', rule context Rule.noop (q, j) = (.ok (), q', j') ∧ o.Descended final pending q' := by
  obtain ⟨d, below, hs, hb, hn, -⟩ := h
  obtain ⟨d', q', j', hrun, hs', hr⟩ := hs.rule hk j
  refine ⟨q', j', hrun, d', below, hs', ?_, ?_⟩
  · rw [hr.spaces hs.recalls.named fun _ hx => hs.visiting.inner.lt hx, hb]
  · have hpending := hp q j hs.isMutable hs.fate hn
    rwa [hrun] at hpending

/-- After the last stage the visit is over. -/
theorem Cursor.Settled.finish {q : ElementProxy} (h : o.Settled final final q) (j : σ) :
    ∃ next, (ElementProxy.successor : Action Halt σ ElementProxy Ref) (q, j) = (.ok next, q, j) ∧
      o.Fills final q.tree next := by
  obtain ⟨d, below, hs, hb, -, hown⟩ := h
  obtain ⟨next, hn, hnext⟩ := hs.successor (ε := Halt) j
  refine ⟨next, hn, hs.recalls, hnext, d, below, hs.visiting, ?_⟩
  rw [spaces_node, filled_node, hown, hb, if_pos hs.element]
  rfl

namespace Filter

/-- No rule fails, removes or unwraps. -/
structure Keeps (f : Filter κ σ) : Prop where
  element : ∀ {key rule}, f.rules.element? key = some rule → KeepsElement f.context rule
  text : ∀ {rule}, f.rules.text = some rule → KeepsText f.context rule

/-- After the children of an element, `last` is the namespace that is asked for. -/
structure Concludes (f : Filter κ σ) (last : Option String) : Prop where
  rule : ∀ {rule}, f.rules.element? RuleSet.afterChildren = some rule → PendsNamespace f.context rule last
  none : f.rules.element? RuleSet.afterChildren = none → last = none

/-- The rule of `tag` sets the attribute `xmlns` to `uri`. No other rule leaves that attribute set, and no rule
fails, removes or unwraps. -/
structure Overrides (f : Filter κ σ) (tag uri : String) : Prop extends f.Keeps where
  sets : ∃ rule, f.rules.element? tag = some rule ∧ PendsNamespace f.context rule (some uri)
  others : ∀ {key rule}, key ≠ tag → f.rules.element? key = some rule → PendsNamespace f.context rule none

/-- What is asked of the walk through the children of a delegate, for child lists up to a bound. -/
def DescendsFilling (space final : String) (bound : Nat) (descend : Ref → Pass σ Unit) : Prop :=
  ∀ {t d below} j, t.Sited space d [] below → below.size ≤ bound →
    ∃ u j', descend (some d) (t, j) = (.ok (), u, j') ∧ t.Fills final d [] below u

/-- The stages before the children: whatever they buffer is written when the walk comes to the children. -/
theorem opening_stays {rules : List (ElementRule κ σ)} (hr : ∀ rule ∈ rules, KeepsElement f.context rule)
    (rest : List (Action Halt σ ElementProxy Unit)) {q : ElementProxy} {d : Nat} (h : Staying o q d o.below)
    (hn : q.pendingNamespace = none) (j : σ) :
    ∃ d' q' j', throughStages (rules.map (fun rule => stage (rule f.context Rule.noop)) ++ rest) (q, j) =
        throughStages rest (q', j') ∧ Staying o q' d' o.below ∧ q'.pendingNamespace = none := by
  induction rules generalizing q d j with
  | nil => exact ⟨d, q, j, rfl, h, hn⟩
  | cons rule rules ih =>
    obtain ⟨d₁, q₁, j₁, hrun, h₁, -⟩ := h.rule (hr rule List.mem_cons_self) j
    obtain ⟨d₂, q₂, hq, h₂, hn₂, -⟩ := h₁.persistContent
    obtain ⟨d', q', j', hrest, h', hn'⟩ := ih (fun x hx => hr x (List.mem_cons_of_mem _ hx)) h₂ hn₂ j₁
    exact ⟨d', q', j', (throughStages_cons (stage_ok hrun) (h₁.persist_eq.trans hq)).trans hrest, h', hn'⟩

/-- The stages after the children decide on the namespace of the element. -/
theorem closing_fills (hf : f.Keeps) (hl : f.Concludes last) (ho : o.tree.Sited space o.parent o.before o.ahead)
    {q : ElementProxy} (h : o.Settled (last.getD space) space q) (j : σ) :
    ∃ next q' j', throughStages (f.rules.closing.map fun rule => stage (rule f.context Rule.noop)) (q, j) =
        (.ok next, q', j') ∧ o.Fills (last.getD space) q'.tree next := by
  rw [RuleSet.closing]
  cases hr : f.rules.element? RuleSet.afterChildren with
  | none =>
    obtain rfl := hl.none hr
    obtain ⟨next, hn, hfill⟩ := h.finish j
    exact ⟨next, q, j, hn, hfill⟩
  | some rule =>
    obtain ⟨q₁, j₁, hrun, h₁⟩ := h.rule (hf.element hr) (hl.rule hr) j
    obtain ⟨q₂, hq, h₂⟩ := h₁.persist ho
    obtain ⟨next, hn, hfill⟩ := h₂.finish j₁
    exact ⟨next, q₂, j₁, (throughStages_cons (stage_ok hrun) hq).trans hn, hfill⟩

/-- The stages from the children on. -/
theorem descend_fills (hf : f.Keeps) (hl : f.Concludes last) {descend : Ref → Pass σ Unit}
    (hd : DescendsFilling space (last.getD space) o.below.size descend)
    (ho : o.tree.Sited space o.parent o.before o.ahead) {q : ElementProxy} {d : Nat} (h : Staying o q d o.below)
    (hn : q.pendingNamespace = none) (j : σ) :
    ∃ next q' j', throughStages (onTree descend :: f.rules.closing.map fun rule => stage (rule f.context Rule.noop))
        (q, j) = (.ok next, q', j') ∧ o.Fills (last.getD space) q'.tree next := by
  obtain ⟨u, j₁, hu, below, ht, hr, hs⟩ := hd j (ho.inside h) (Nat.le_refl _)
  have hrun : onTree descend (q, j) = (.ok (), { q with tree := u }, j₁) := by
    simp only [onTree, h.delegate, hu]
  rw [h.recalls.filled ho.lt_below] at hs
  have h₁ : o.Descended (last.getD space) none { q with tree := u } :=
    ⟨d, below, ⟨h.descend ht, h.recalls.trans hr, h.fate⟩, hs, hn⟩
  obtain ⟨q₂, hq, h₂⟩ := h₁.persist ho
  obtain ⟨next, q', j', hrest, hfill⟩ := closing_fills hf hl ho h₂ j₁
  exact ⟨next, q', j', (throughStages_cons hrun hq).trans hrest, hfill⟩

theorem visitElement_fills (hf : f.Keeps) (hl : f.Concludes last) {descend : Ref → Pass σ Unit}
    (hd : DescendsFilling space (last.getD space) o.below.size descend)
    (ho : o.tree.Sited space o.parent o.before o.ahead) (he : o.tree.kind? (some o.node) = some .element) (j : σ) :
    ∃ next u j', f.visitElement descend o.node (o.tree, j) = (.ok next, u, j') ∧
      o.Fills (last.getD space) u next := by
  let q := ElementProxy.ofNode o.tree (some o.node) f.namespaces
  have hkeeps : ∀ rule ∈ f.rules.opening q.currentName, KeepsElement f.context rule := fun rule hr => by
    obtain ⟨key, -, hkey⟩ := List.mem_filterMap.1 hr
    exact hf.element hkey
  have hbegin : Staying o q o.node o.below := .begin ho.ahead ho.named he f.namespaces
  obtain ⟨d, q₁, j₁, hopening, h₁, hn₁⟩ := opening_stays hkeeps
    (onTree descend :: f.rules.closing.map fun rule => stage (rule f.context Rule.noop)) hbegin rfl j
  obtain ⟨next, q₂, j₂, hrest, hfill⟩ := descend_fills hf hl hd ho h₁ hn₁ j₁
  have hrun : f.elementStages descend o.node o.tree j = (.ok next, q₂, j₂) := hopening.trans hrest
  refine ⟨next, q₂.tree, j₂, ?_, hfill⟩
  rw [run_visitElement, hrun]

/-- A node without children that is no element. -/
theorem fills_leaf (hb : o.below = .nil) (he : o.tree.kind? (some o.node) ≠ some .element)
    (hv : Visiting o u o.node o.below .attached) (hr : o.tree.Recalls u) : o.Fills space u none := by
  refine ⟨hr, .inl rfl, o.node, o.below, hv, ?_⟩
  have hk : u.kind? (some o.node) ≠ some .element := hv.kind ▸ he
  rw [hb, spaces_node, filled_node, namespace?_of_other hk, if_neg he]
  rfl

theorem visitText_fills (hf : f.Keeps) (ho : o.tree.Sited space o.parent o.before o.ahead)
    (ht : o.tree.kind? (some o.node) = some .text) (j : σ) :
    ∃ u j', f.visitText o.node (o.tree, j) = (.ok none, u, j') ∧ o.Fills final u none := by
  have he : o.tree.kind? (some o.node) ≠ some .element := ht ▸ nofun
  have hb : o.below = .nil := ho.leafy.1.resolve_right he
  have hbegin : TextStaying o (TextProxy.ofNode o.tree (some o.node)) := .begin ho.ahead ho.named ht
  cases hr : f.rules.text with
  | none =>
    refine ⟨o.tree, j, ?_, fills_leaf hb he hbegin.visiting hbegin.recalls⟩
    simp only [visitText, hr]
  | some rule =>
    obtain ⟨q₁, j₁, hrun, h₁⟩ := hbegin.rule (hf.text hr) j
    obtain ⟨q₂, hq, h₂⟩ := h₁.persist
    refine ⟨q₂.tree, j₁, ?_, fills_leaf hb he h₂.visiting h₂.recalls⟩
    simp only [visitText, hr, stage_ok (TextProxy.applyRules_ok hrun hq)]

/-- A visit leaves all elements that it works on in the namespace of the last stage, and the walk goes on at what
followed. -/
theorem visit_fills (hf : f.Keeps) (hl : f.Concludes last) {descend : Ref → Pass σ Unit}
    (hd : DescendsFilling space (last.getD space) o.below.size descend)
    (ho : o.tree.Sited space o.parent o.before o.ahead) (j : σ) :
    ∃ next u j', f.visit descend o.node (o.tree, j) = (.ok (next <|> o.rest.roots.head?), u, j') ∧
      o.Fills (last.getD space) u next := by
  have hfollowing : o.tree.nextSibling (some o.node) = o.rest.roots.head? :=
    ho.ahead.linked.nextSibling ho.ahead.list
  have hother : o.tree.kind? (some o.node) ≠ some .element → o.Fills (last.getD space) o.tree none := fun he =>
    fills_leaf (ho.leafy.1.resolve_right he) he (.begin ho.ahead) (.refl ho.named)
  rw [visit, bind_ok (run_get _)]
  simp only [hfollowing]
  rcases hk : o.tree.kind? (some o.node) with _ | kind
  · exact ⟨none, o.tree, j, rfl, hother fun he => by cases hk.symm.trans he⟩
  · cases kind with
    | element =>
      obtain ⟨next, u, j', hu, hfill⟩ := visitElement_fills hf hl hd ho hk j
      exact ⟨next, u, j', (bind_ok hu).trans rfl, hfill⟩
    | text =>
      obtain ⟨u, j', hu, hfill⟩ := visitText_fills hf ho hk j
      exact ⟨none, u, j', (bind_ok hu).trans rfl, hfill⟩
    | _ => exact ⟨none, o.tree, j, rfl, hother fun he => by cases hk.symm.trans he⟩

/-! ### Walks -/

/-- A walk over a forest ahead leaves its elements in the namespace of the last stage. -/
theorem walk_fills (hf : f.Keeps) (hl : f.Concludes last) {fuel : Nat} (h : t.Sited space p pre g)
    (hs : g.size ≤ fuel) (j : σ) :
    ∃ u j', f.walk fuel g.roots.head? (t, j) = (.ok (), u, j') ∧ t.Fills (last.getD space) p pre g u := by
  have hw := walk_induction (f := f) (I := fun s p pre g => s.1.Sited space p pre g)
    (R := fun s p pre g s' => s.1.Fills (last.getD space) p pre g s'.1) (E := fun _ _ _ _ _ _ => False)
    (fun h => h.ahead) (fun h => ⟨.nil, .refl h.ahead, .refl h.named, rfl⟩) ?_ (s := (t, j)) h hs
  · obtain ⟨⟨⟩, ⟨u, j'⟩, hu, hfill⟩ := hw.exists
    exact ⟨u, j', hu, hfill⟩
  · intro o descend j₁ ho hd
    have hdescend : DescendsFilling space (last.getD space) o.below.size descend := by
      intro u d b j' hb hbs
      obtain ⟨⟨⟩, ⟨v, j''⟩, hv, hfill⟩ := (hd j' hb hbs).exists
      exact ⟨v, j'', hv, hfill⟩
    obtain ⟨next, u, j₂, hu, hfill⟩ := visit_fills hf hl hdescend ho j₁
    -- nothing is visited again, so what is ahead after the visit is what followed the node
    obtain ⟨pre', hsited, hnext, hgo⟩ := hfill.proceed ho
    have hlt : o.rest.size < o.ahead.size := by
      show o.rest.size < o.below.size + o.rest.size + 1
      omega
    rw [hu]
    exact ⟨o.parent, pre', o.rest, hsited, hlt, hnext, fun v => hgo v.1, fun _ _ => id⟩

/-! ### Passes -/

/-- A pass that lets all nodes stay succeeds, and leaves the elements below the start node where they were, in the
namespace that the rule after the children asks for, or else in the default namespace. -/
theorem apply_fills (hf : f.Keeps) (hl : f.Concludes last) (ht : t.WellFormed) {start : Ref} {d : Nat}
    (hd : t.documentElement = some d) (hb : d ∉ (t.below start).toList)
    (hk : ∀ x ∈ (t.below start).toList, t.kids x ≠ [] → t.kind? (some x) = some .element) (journal : σ) :
    ∃ u journal', f.apply start t journal = (.ok (), u, journal') ∧
      u.spaces (u.below start) = t.filled (last.getD t.defaultNamespace) (t.below start) := by
  cases start with
  | none =>
    refine ⟨t, journal, f.apply_none t journal, ?_⟩
    rw [below_none]
    rfl
  | some start =>
    have ha := Ahead.of_below ht.linked start
    have hs : t.Sited t.defaultNamespace start [] (t.below (some start)) :=
      ⟨ha, ht.stored.named, leafy_of_kids ha.fits hk, ht.document, ht.apex, ht.ne_zero hd hb, rfl⟩
    obtain ⟨u, journal', hu, g, hg, -, hfill⟩ := walk_fills hf hl hs ha.size_le journal
    rw [f.apply_some ht.linked]
    refine ⟨u, journal', hu, ?_⟩
    rw [hg.ahead.below_eq]
    exact hfill

theorem Overrides.concludes {tag uri : String} (h : f.Overrides tag uri) :
    f.Concludes (if tag = RuleSet.afterChildren then some uri else none) := by
  obtain ⟨rule, hr, hset⟩ := h.sets
  split
  · rename_i he
    subst he
    refine ⟨fun hr' => ?_, fun hn => ?_⟩
    · obtain rfl := Option.some.inj (hr.symm.trans hr')
      exact hset
    · exact nomatch hr.symm.trans hn
  · rename_i hne
    exact ⟨fun hr' => h.others (Ne.symm hne) hr', fun _ => rfl⟩

/-- Where the rule of a tag asks for a namespace and nothing else interferes, the pass succeeds, and all elements
below the start node are afterwards in the default namespace: what the rule asked for is lost, unless its tag reads
like the key of the rule after the children. -/
theorem namespaces_of_override {tag uri : String} (hf : f.Overrides tag uri) (ht : t.WellFormed) {start : Ref}
    {d : Nat} (hd : t.documentElement = some d) (hb : d ∉ (t.below start).toList)
    (hk : ∀ x ∈ (t.below start).toList, t.kids x ≠ [] → t.kind? (some x) = some .element) (journal : σ) :
    ∃ u journal', f.apply start t journal = (.ok (), u, journal') ∧
      u.spaces (u.below start) =
        t.filled (if tag = RuleSet.afterChildren then uri else t.defaultNamespace) (t.below start) := by
  obtain ⟨u, journal', hu, hs⟩ := apply_fills hf.toKeeps hf.concludes ht hd hb hk journal
  refine ⟨u, journal', hu, hs.trans (congrArg (t.filled · (t.below start)) ?_)⟩
  split <;> rfl

end Filter

/-! ### A rule that asks for a namespace -/

namespace Rule

variable (context : κ)

/-- Asks for a namespace for every element it meets. -/
def moveTo (uri : String) : ElementRule κ σ := fun _ _ => onProxy (ElementProxy.setAttribute "xmlns" uri)

theorem run_moveTo {q : ElementProxy} (hm : q.isMutable = true) (uri : String) (j : σ) :
    moveTo uri context noop (q, j) =
      (.ok (), { q with overrides := Keyed.put "xmlns" (some uri) q.overrides }, j) := by
  have hrequire := ElementProxy.onNode_ok (p := q) (NodeProxy.requireMutable_ok hm .setAttribute)
  simp only [moveTo, onProxy, ElementProxy.setAttribute, run_bind, hrequire, run_modify]

theorem keeps_moveTo (uri : String) : KeepsElement context (moveTo uri : ElementRule κ σ) := fun q j hm hf =>
  ⟨_, j, run_moveTo context hm uri j, .single ⟨.buffer q q.fate q.pendingName _, hf⟩⟩

theorem pends_moveTo (uri : String) : PendsNamespace context (moveTo uri : ElementRule κ σ) (some uri) := by
  intro q j hm _ _
  rw [run_moveTo context hm, ElementProxy.pendingNamespace, Keyed.lookup_put, if_pos rfl]
  rfl

end Rule

namespace Filter

/-- Asks for another namespace for every `b`. -/
def moving : Filter Unit Unit where
  rules := { elements := [("b", Rule.moveTo "urn:u")] }
  context := ()

theorem moving_overrides : moving.Overrides "b" "urn:u" where
  element hr := RuleSet.forall_element (P := KeepsElement ()) (fun entry he => by
    obtain rfl := List.mem_singleton.1 he
    exact Rule.keeps_moveTo () "urn:u") hr
  text hr := nomatch hr
  sets := ⟨_, rfl, Rule.pends_moveTo () "urn:u"⟩
  others {key rule} hne hr := by
    simp [moving, RuleSet.element?, Keyed.lookup_cons_ite, hne] at hr

theorem wellFormed_sample : sample.WellFormed :=
  ⟨linked_sample, rfl, linked_sample.orphan_iff.1 rfl, ⟨rfl, by decide⟩⟩

theorem moving_namespaces : ∃ u journal', moving.apply (some 1) sample () = (.ok (), u, journal') ∧
    u.spaces (u.below (some 1)) =
      sample.filled (if "b" = RuleSet.afterChildren then "urn:u" else sample.defaultNamespace)
        (sample.below (some 1)) :=
  namespaces_of_override moving_overrides wellFormed_sample rfl (by decide) (by decide) ()

/-- The element that stands where a `b` stood is not in the namespace that was asked for. -/
theorem moving_returns :
    moving.Overrides "b" "urn:u" ∧ sample.WellFormed ∧ sample.documentElement = some 1 ∧
      1 ∉ (sample.below (some 1)).toList ∧
      (∀ x < sample.size, sample.kids x ≠ [] →
        sample.kind? (some x) = some .document ∨ sample.kind? (some x) = some .element) ∧
      sample.below (some 1) = .node 2 (.node 3 .nil .nil) (.node 4 .nil .nil) ∧ sample.tag? (some 2) = some "b" ∧
      (moving.apply (some 1) sample ()).1 = .ok () ∧
      ∃ x, (moving.apply (some 1) sample ()).2.1.below (some 1) = .node x (.node 3 .nil .nil) (.node 4 .nil .nil) ∧
        (moving.apply (some 1) sample ()).2.1.tag? (some x) = some "b" ∧
        (moving.apply (some 1) sample ()).2.1.namespace? (some x) ≠ some "urn:u" := by
  refine ⟨moving_overrides, wellFormed_sample, rfl, by decide, by decide, by decide, by decide, by decide +kernel,
    6, by decide +kernel, by decide +kernel, by decide +kernel⟩

end Filter

end RichText
