import RichText.Proofs.Tree.Below

/-!
Relabelling the elements of a forest.

A pass that only exchanges elements leaves the shape of a forest and all its other nodes. What it makes of the forest
is then given by what it makes of a single element. A walk does not go below nodes of other kinds, so the elements that
are there are not relabelled.
-/

namespace RichText

/-- The name and the attributes of an element. -/
abbrev Labels := Name × List (Attribute String)

namespace Forest

/-- The elements that a walk comes to. -/
def walked : Forest Content → List Labels
  | nil => []
  | node (.element name attributes) below rest => (name, attributes) :: (below.walked ++ rest.walked)
  | node _ _ rest => rest.walked

/-- Relabels the elements that a walk comes to, and leaves the shape of the forest and all other nodes. -/
def relabel (g : Labels → Labels) : Forest Content → Forest Content
  | nil => .nil
  | node (.element name attributes) below rest =>
    .node (.element (g (name, attributes)).1 (g (name, attributes)).2) (below.relabel g) (rest.relabel g)
  | node content below rest => .node content below (rest.relabel g)

theorem walked_append (f f' : Forest Content) : (f ++ f').walked = f.walked ++ f'.walked := by
  induction f with
  | nil => rfl
  | node content below rest _ ih => cases content <;> simp [walked, ih]

theorem mem_toList_of_walked {e : Labels} {f : Forest Content} (h : e ∈ f.walked) : .element e.1 e.2 ∈ f.toList := by
  induction f with
  | nil => exact absurd h List.not_mem_nil
  | node content below rest ihb ihr =>
    cases content with
    | element name attributes =>
      rcases List.mem_cons.1 h with rfl | h
      · exact List.mem_cons_self
      · rcases List.mem_append.1 h with h | h
        · exact mem_toList_below (ihb h) _ _
        · exact mem_toList_rest (ihr h) _ _
    | _ => exact mem_toList_rest (ihr h) _ _

theorem relabel_append (g : Labels → Labels) (f f' : Forest Content) :
    (f ++ f').relabel g = f.relabel g ++ f'.relabel g := by
  induction f with
  | nil => rfl
  | node content below rest _ ih => cases content <;> simp [relabel, ih]

theorem relabel_other {content : Content} (h : content.kind ≠ .element) (g : Labels → Labels)
    (below rest : Forest Content) : (node content below rest).relabel g = .node content below (rest.relabel g) := by
  cases content with
  | element name attributes => exact absurd rfl h
  | _ => rfl

theorem walked_relabel (g : Labels → Labels) (f : Forest Content) : (f.relabel g).walked = f.walked.map g := by
  induction f with
  | nil => rfl
  | node content below rest ihb ihr =>
    cases content with
    | element name attributes => simp only [relabel, walked, ihb, ihr, List.map_cons, List.map_append, Prod.mk.eta]
    | _ => exact ihr

theorem relabel_relabel (g g' : Labels → Labels) (f : Forest Content) :
    (f.relabel g).relabel g' = f.relabel (g' ∘ g) := by
  induction f with
  | nil => rfl
  | node content below rest ihb ihr =>
    cases content with
    | element name attributes => simp only [relabel, ihb, ihr, Prod.mk.eta, Function.comp_apply]
    | _ => simp only [relabel, ihr]

theorem relabel_congr {g g' : Labels → Labels} {f : Forest Content} (h : ∀ e ∈ f.walked, g e = g' e) :
    f.relabel g = f.relabel g' := by
  induction f with
  | nil => rfl
  | node content below rest ihb ihr =>
    cases content with
    | element name attributes =>
      have hb := ihb fun e he => h e (List.mem_cons_of_mem _ (List.mem_append_left _ he))
      have hr := ihr fun e he => h e (List.mem_cons_of_mem _ (List.mem_append_right _ he))
      rw [relabel, relabel, h _ List.mem_cons_self, hb, hr]
    | _ => simp only [relabel, ihr h]

theorem relabel_id (f : Forest Content) : f.relabel id = f := by
  induction f with
  | nil => rfl
  | node content below rest ihb ihr =>
    cases content with
    | element name attributes => simp only [relabel, ihb, ihr, id]
    | _ => simp only [relabel, ihr]

end Forest

/-- The elements that a walk below a node comes to are below that node. -/
theorem Tree.exists_of_walked {t : Tree} {r : Ref} {e : Labels} (h : e ∈ (t.contentBelow r).walked) :
    ∃ x ∈ (t.below r).toList, t.content? (some x) = some (.element e.1 e.2) := by
  have hm := Forest.mem_toList_of_walked h
  rw [contentBelow, Forest.toList_map] at hm
  obtain ⟨x, hx, hc⟩ := List.mem_map.1 hm
  refine ⟨x, hx, ?_⟩
  rw [contentOf] at hc
  cases hx : t.content? (some x) with
  | none =>
    rw [hx] at hc
    cases hc
  | some content =>
    rw [hx] at hc
    exact congrArg some hc

end RichText
