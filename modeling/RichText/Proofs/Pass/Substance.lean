import RichText.Proofs.Pass.Poised
import RichText.Proofs.Pass.Settling

/-!
Elements with content.

The rule that removes elements without content runs when all that is below an element is done, on the replacement
where there is one. What it lets stand has content for good, since nothing below the element is visited after that.
-/

namespace RichText

open RichText.Tree Effects

variable {κ σ : Type} {f : Filter κ σ} {o : Cursor} {t u : Tree} {d : Nat} {below g g' : Forest Nat} {S : Set Nat}
  {q : ElementProxy}

/-! ### Content -/

/-- The node is a text that is not blank. -/
def Tree.Speaks (t : Tree) (x : Nat) : Prop := ∃ text, t.text? (some x) = some text ∧ Text.allBlank text = false

theorem Rule.isContent_iff {x : Nat} : isContent t x = true ↔ t.kind? (some x) = some .element ∨ t.Speaks x := by
  rw [isContent, kind?, Speaks, text?]
  cases t.data? (some x) with
  | none => simp
  | some data => cases data <;> simp [NodeData.kind, NodeData.text?]

theorem Rule.isContent_congr {x : Nat} (hk : u.kind? (some x) = t.kind? (some x))
    (ht : u.text? (some x) = t.text? (some x)) : isContent u x = isContent t x :=
  Bool.eq_iff_iff.2 (by rw [isContent_iff, isContent_iff, Speaks, Speaks, hk, ht])

namespace Tree

/-- Every element of a forest has content below it. -/
def Substantial (t : Tree) : Forest Nat → Prop
  | .nil => True
  | .node x below rest =>
    (t.kind? (some x) = some .element → below.roots.any (Rule.isContent t) = true) ∧ t.Substantial below ∧
      t.Substantial rest

theorem substantial_append (h : t.Substantial g) (h' : t.Substantial g') : t.Substantial (g ++ g') := by
  induction g with
  | nil => exact h'
  | node x below rest _ ih => exact ⟨h.1, h.2.1, ih h.2.2⟩

theorem Substantial.congr (h : t.Substantial g) (hk : ∀ x ∈ g.toList, u.kind? (some x) = t.kind? (some x))
    (ht : ∀ x ∈ g.toList, u.text? (some x) = t.text? (some x)) : u.Substantial g := by
  induction g with
  | nil => trivial
  | node x below rest ihb ihr =>
    obtain ⟨hx, hb, hr⟩ := h
    have hbelow : ∀ y ∈ below.toList, y ∈ (Forest.node x below rest).toList := fun y hy =>
      Forest.mem_toList_below hy _ _
    have hrest : ∀ y ∈ rest.toList, y ∈ (Forest.node x below rest).toList := fun y hy =>
      Forest.mem_toList_rest hy _ _
    refine ⟨fun he => ?_, ihb hb (fun y hy => hk y (hbelow y hy)) fun y hy => ht y (hbelow y hy),
      ihr hr (fun y hy => hk y (hrest y hy)) fun y hy => ht y (hrest y hy)⟩
    obtain ⟨c, hc, hcontent⟩ := List.any_eq_true.1 (hx (hk x List.mem_cons_self ▸ he))
    have hmem := hbelow c (Forest.mem_toList_of_mem_roots hc)
    exact List.any_eq_true.2 ⟨c, hc, (Rule.isContent_congr (hk c hmem) (ht c hmem)).trans hcontent⟩

theorem local_substantial : Local Substantial where
  nil := trivial
  leaf he := ⟨fun h => absurd h he, trivial, trivial⟩
  append := substantial_append
  stays _ hr hg h := h.congr (fun x hx => hr.recalls.kind (hg x hx).1) fun x hx => hr.text (hg x hx).1 (hg x hx).2

/-- In a tree that the forest fits, every element of the forest has a child with content. -/
theorem Substantial.exists_child (h : t.Substantial g) (hg : g.Fits t.kids) {x : Nat} (hx : x ∈ g.toList)
    (he : t.kind? (some x) = some .element) : ∃ c ∈ t.kids x, Rule.isContent t c = true := by
  induction g with
  | nil => exact absurd hx List.not_mem_nil
  | node y below rest ihb ihr =>
    obtain ⟨hl, hb, hr⟩ := hg
    rcases List.mem_cons.1 hx with rfl | hx
    · exact hl ▸ List.any_eq_true.1 (h.1 he)
    · rcases List.mem_append.1 hx with hx | hx
      · exact ihb h.2.1 hb hx
      · exact ihr h.2.2 hr hx

/-- No site matters where content alone does. -/
theorem enduring_anywhere : Enduring fun _ _ => True := ⟨fun _ _ _ => trivial, fun _ _ _ _ => trivial⟩

end Tree

/-! ### Visits -/

/-- Whether an element has content is seen from what is below its delegate. -/
theorem Stands.isEmpty_eq (h : Stands o q d below) :
    q.isEmptyBy Rule.isContent = !below.roots.any (Rule.isContent q.tree) := by
  have hkids : q.tree.children q.delegate = below.roots := by
    rw [h.delegate]
    exact h.visiting.inner.list
  rw [NodeProxy.isEmptyBy, hkids]

/-- The delegate stands in its place. -/
def Upright (o : Cursor) (q : ElementProxy) : Prop := ∃ d below, Stands o q d below

/-- The delegate stands in its place and has content. -/
def Upheld (o : Cursor) (q : ElementProxy) : Prop :=
  ∃ d below, Stands o q d below ∧ q.tree.Substantial (.node d below .nil)

/-- The delegate stands above elements that have content, and with this fate. -/
def Filled (fate : Forest Nat → ElementProxy → Prop) (o : Cursor) (q : ElementProxy) : Prop :=
  ∃ d below, Stands o q d below ∧ q.tree.Substantial below ∧ fate below q

/-- What persisting leaves of a fate. -/
def Fate.Carried (below : Forest Nat) (q : ElementProxy) : Prop := q.fate = .keep ∨ q.fate = .clear ∧ below = .nil

/-- What the rule that removes elements without content leaves. -/
def Fate.Decided (below : Forest Nat) (q : ElementProxy) : Prop :=
  q.fate = .remove ∨ q.fate = .keep ∧ below.roots.any (Rule.isContent q.tree) = true

namespace Filled

variable {fate : Forest Nat → ElementProxy → Prop}

/-- What is below a delegate has content while the delegate is persisted. -/
theorem of_persisted {q' : ElementProxy} {d' : Nat} {below' : Forest Nat} (h : Stands o q d below)
    (hb : q.tree.Substantial below) (hr : Remains ∅ q.tree q'.tree) (hp : Persisted o q below q' d' below') :
    q'.tree.Substantial below' ∧ Fate.Carried below' q' := by
  rcases hp.carried with ⟨hf, rfl⟩ | ⟨hf, rfl⟩
  · have hlt : ∀ x ∈ below'.toList, x < q.tree.size := fun x hx => h.visiting.inner.lt hx
    exact ⟨hb.congr (fun x hx => hr.recalls.kind (hlt x hx)) fun x hx => hr.text (hlt x hx) (Set.notMem_empty x),
      .inl (hp.fate.trans hf)⟩
  · exact ⟨trivial, .inr ⟨hp.fate.trans hf, rfl⟩⟩

/-- The rule that removes elements without content decides. -/
theorem decide (h : Filled Fate.Carried o q) (context : κ) (j : σ) :
    ∃ q', (Rule.removeIfEmpty context Rule.noop : RuleM σ ElementProxy Unit) (q, j) = (.ok (), q', j) ∧
      Filled Fate.Decided o q' := by
  obtain ⟨d, below, hs, hb, hf⟩ := h
  refine ⟨_, Rule.run_removeIfEmpty hs.isMutable context j, ?_⟩
  rw [hs.isEmpty_eq]
  cases hc : below.roots.any (Rule.isContent q.tree) with
  | false => exact ⟨d, below, hs.buffer .remove q.pendingName q.overrides, hb, .inl rfl⟩
  | true =>
    refine ⟨d, below, hs, hb, .inr ⟨hf.resolve_right ?_, hc⟩⟩
    rintro ⟨-, rfl⟩
    cases hc

end Filled

namespace Filter

variable {j : σ}

/-- An element stands before a rule, and after it: its rules only buffer. -/
theorem Buffers.rule_stands (hf : f.Buffers) {key : String} {rule : ElementRule κ σ}
    (hr : f.rules.element? key = some rule) {s : ElementProxy × σ} (h : Upright o s.1) :
    StageEnds (·.tree) (fun _ s' => Upright o s'.1) (fun _ _ => True) (stage (rule f.context Rule.noop) s) := by
  refine stage_leaves ?_
  obtain ⟨d, below, hs⟩ := h
  obtain ⟨fate, pendingName, overrides, hq⟩ := hf.element hr s.1 s.2
  exact ⟨d, below, hq ▸ hs.buffer fate pendingName overrides⟩

/-- Persisting a delegate above elements that have content. -/
theorem persist_fills {s : ElementProxy × σ} {fate : Forest Nat → ElementProxy → Prop} (h : Filled fate o s.1) :
    StageEnds (·.tree)
      (Answered (fun s' => Filled Fate.Carried o s'.1) fun next s' => o.Yields Substantial next s'.1.tree)
      (fun _ _ => True) (stage Writers.plain.element s) := by
  obtain ⟨d, below, hs, hb, -⟩ := h
  exact standing_persist_ends (Filled Fate.Carried o) local_substantial hs fun {q' d' below'} hr hp =>
    ⟨d', below', hp.toStands, Filled.of_persisted hs hb hr hp⟩

/-- Persisting a delegate that was decided on: it goes, or it stays and has content. -/
theorem persist_decided {s : ElementProxy × σ} (h : Filled Fate.Decided o s.1) :
    StageEnds (·.tree)
      (Answered (fun s' => Upheld o s'.1) fun next s' => o.Yields Substantial next s'.1.tree)
      (fun _ _ => True) (stage Writers.plain.element s) := by
  obtain ⟨d, below, hs, hb, hf⟩ := h
  refine standing_persist_ends (Upheld o) local_substantial hs fun {q' d' below'} hr hp => ?_
  obtain ⟨hb', -⟩ := Filled.of_persisted hs hb hr hp
  refine ⟨d', below', hp.toStands, fun _ => ?_, hb', trivial⟩
  rcases hp.carried with ⟨hk, rfl⟩ | ⟨hk, rfl⟩
  · obtain ⟨c, hc, hcontent⟩ := List.any_eq_true.1 (hf.resolve_left (by simp [hk])).2
    have hlt : c < s.1.tree.size := hs.visiting.inner.lt (Forest.mem_toList_of_mem_roots hc)
    refine List.any_eq_true.2 ⟨c, hc, ?_⟩
    rw [Rule.isContent_congr (hr.recalls.kind hlt) (hr.text hlt (Set.notMem_empty c)), hcontent]
  · simp [Fate.Decided, hk] at hf

/-- In a visit the last rule, which removes elements without content, decides on the element. -/
theorem Buffers.course_fills (hf : f.Buffers) (hlast : f.rules.element? RuleSet.afterChildren = some Rule.removeIfEmpty)
    (descend : Ref → Pass σ Unit) (j : σ) (ho : Ground (fun _ _ => True) o.tree o.parent o.before o.ahead)
    (hd : DescendsYielding (fun _ _ => True) Substantial o.below.size descend) :
    f.Course .plain o descend j (fun s => Upright o s.1) (fun s => Upright o s.1)
      (fun s => Filled (fun _ _ => True) o s.1) (fun next s => o.Yields Substantial next s.1) fun _ _ => True where
  begin he := ⟨o.node, o.below, .begin ho he f.namespaces⟩
  rule hr _ hs := hf.rule_stands hr hs
  persist s hs := by
    obtain ⟨d, below, hs⟩ := hs
    exact standing_persist_ends (Upright o) local_substantial hs fun {q' d' below'} _ hp => ⟨d', below', hp.toStands⟩
  descend s hs := by
    obtain ⟨d, below, hs⟩ := hs
    exact hd.onTree enduring_anywhere ho hs fun {u below'} hs' hg => ⟨d, below', hs', hg, trivial⟩
  closing s hs := by
    refine closing_ends (fun next s => o.Yields Substantial next s.1) (fun s => Filled Fate.Carried o s.1)
      (fun s => Filled Fate.Decided o s.1)
      (fun s => Upheld o s.1) (persist_fills hs)
      (fun {rule} hr s hs => ?_) (fun _ => persist_decided) (fun s hs => ?_) fun hn => ?_
    · obtain rfl : rule = Rule.removeIfEmpty := Option.some.inj (hr.symm.trans hlast)
      refine stage_leaves ?_
      obtain ⟨q', hq, hd'⟩ := hs.decide f.context s.2
      rw [show s = (s.1, s.2) from rfl, hq]
      exact hd'
    · obtain ⟨d, below, hs, hg⟩ := hs
      exact hs.finish hg
    · exact nomatch hn.symm.trans hlast
  text ht := text_yields local_substantial hf.throughProxies.text ho ht j
  other he _ := other_yields local_substantial ho he

/-- A pass with this last rule leaves only elements with content below the start node. -/
theorem Buffers.apply_fills (hf : f.Buffers)
    (hlast : f.rules.element? RuleSet.afterChildren = some Rule.removeIfEmpty) (ht : t.WellFormed) (start : Nat)
    (hk : ∀ x ∈ (t.below (some start)).toList, t.kids x ≠ [] → t.kind? (some x) = some .element) (j : σ) :
    Ends (fun _ s => t.Yields Substantial start [] (t.below (some start)) s.1) (fun _ _ => True)
      (f.apply (some start) t j) := by
  have ha := Ahead.of_below ht.linked start
  rw [f.apply_some ht.linked]
  exact walk_yields local_substantial enduring_anywhere
    (fun descend j ho hd => ⟨_, _, _, hf.course_fills hlast descend j ho hd⟩)
    ⟨ha, leafy_of_kids ha.fits hk, ht.stored.named, trivial⟩ ha.size_le j

end Filter

end RichText
