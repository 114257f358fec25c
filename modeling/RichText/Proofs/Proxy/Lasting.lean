import RichText.Proofs.Proxy.Persist
import RichText.Proofs.Tree.Recalled

/-!
Operations of proxies preserve what edits preserve.
-/

namespace RichText.Tree

open Effects

variable {I : Tree → Prop} {α : Type}

/-! ### Moves -/

variable {t u : Tree} {r : Ref}

namespace Movable

variable (h : Movable I)
include h

theorem moveChildren {target : Ref} (hu : t.moveChildren r target = .ok u) (ht : I t) : I u :=
  invariant_foldlM h.insertBefore hu ht

theorem unwrap (hu : t.unwrap r = .ok u) (ht : I t) : I u := by
  unfold Tree.unwrap at hu
  split_ifs at hu
  · cases hu
    exact ht
  · obtain ⟨v, hv, hu⟩ := bind_eq_ok hu
    exact h.detach hu (invariant_foldlM h.insertBefore hv ht)

theorem succeed {new : Ref} (hu : Edit.succeed r new t = .ok u) (ht : I t) : I u := by
  unfold Edit.succeed at hu
  split_ifs at hu
  · cases hu
    exact ht
  · exact h.replaceChild hu ht

/-- A new element takes over the children and the place of an old one. -/
theorem takeOver (old : Ref) (new : Nat) :
    Preserves I (do
      Edit.ofExcept (·.moveChildren old (some new))
      Edit.ofExcept (Edit.succeed old (some new))
      return new : Edit Nat) :=
  (preserves_ofExcept fun ht hu => h.moveChildren hu ht).bind fun _ =>
    (preserves_ofExcept fun ht hu => h.succeed hu ht).bind fun _ => .pure _

end Movable

/-! ### Proxies of nodes -/

/-- Edits of the tree leave the proxy its delegate. -/
theorem preserves_edit {action : Edit α} (h : Preserves I action) {r : Ref} :
    Preserves (fun p : NodeProxy => p.delegate = r ∧ I p.tree) (NodeProxy.edit action) := fun p hp =>
  ⟨hp.1, h p.tree hp.2⟩

theorem preserves_onElement {action : ProxyM NodeProxy α}
    (h : ∀ r, Preserves (fun p : NodeProxy => p.delegate = r ∧ I p.tree) action) :
    Preserves (fun p : ElementProxy => I p.tree) (ElementProxy.onNode action) := fun p hp =>
  (h p.delegate p.toNodeProxy ⟨rfl, hp⟩).2

theorem preserves_onText {action : ProxyM NodeProxy α} {r : Ref}
    (h : Preserves (fun p : NodeProxy => p.delegate = r ∧ I p.tree) action) :
    Preserves (fun p : TextProxy => p.delegate = r ∧ I p.tree) (TextProxy.onNode action) := fun p hp =>
  h p.toNodeProxy hp

namespace Movable

variable (h : Movable I)
include h

/-- Carrying out a fate only moves nodes. -/
theorem settle (r : Ref) : Preserves (fun p : NodeProxy => p.delegate = r ∧ I p.tree) NodeProxy.settle := by
  refine .bind_get fun p _ => ?_
  split
  · exact .pure _
  · exact (preserves_edit (preserves_ofExcept fun ht hu => h.detach hu ht)).bind fun _ => .pure _
  · refine (preserves_edit (preserves_ofExcept fun ht hu => h.unwrap hu ht)).bind fun _ => ?_
    split
    · exact .pure _
    · exact .pure _
  · exact (preserves_edit (preserves_ofExcept fun ht hu => h.removeChildren hu ht)).bind fun _ => .pure _

theorem persistNode (r : Ref) : Preserves (fun p : NodeProxy => p.delegate = r ∧ I p.tree) NodeProxy.persist := by
  refine .bind_get fun p _ => ?_
  split
  · exact .pure _
  · exact (h.settle r).bind fun _ => .pure _

end Movable

/-! ### Proxies of elements -/

namespace Sustained

/-- What happens to a new element once it was created. -/
theorem succession (h : Sustained I) (namespaces : NamespaceTable) (old : Ref) (new : Nat)
    (entries : List (String × Option String)) :
    Preserves I (do
      Edit.writeAttributes namespaces (some new) entries
      Edit.ofExcept (·.moveChildren old (some new))
      Edit.ofExcept (Edit.succeed old (some new))
      return new : Edit Nat) :=
  (h.writeAttributes namespaces _ entries).bind fun _ => h.takeOver old new

theorem renew (h : Sustained I) (namespaces : NamespaceTable) (old : Ref) (space name : String)
    (entries : List (String × Option String)) : Preserves I (Edit.renew namespaces old space name entries) := by
  have hcreate : Preserves I (Edit.createElement space name) := fun t ht => h.createElement space name ht
  exact hcreate.bind fun new => h.succession namespaces old new entries

theorem replaceBy (h : Sustained I) (name : String) (space : Option String) :
    Preserves (fun p : ElementProxy => I p.tree) (ElementProxy.replaceBy name space) := by
  refine (preserves_onElement fun _ => NodeProxy.preserves_requireMutable _).bind fun _ => .bind_get fun p _ => ?_
  refine (preserves_onElement fun _ => preserves_edit (h.renew _ _ _ _ _)).bind fun _ => ?_
  exact .bind (.modify fun _ hp => hp) fun _ => .pure _

theorem persistAttributes (h : Sustained I) :
    Preserves (fun p : ElementProxy => I p.tree) ElementProxy.persistAttributes := by
  refine .bind_get fun p _ => ?_
  dsimp only
  split
  · exact h.replaceBy _ _
  · exact (preserves_onElement fun _ => preserves_edit (h.writeAttributes _ _ _)).bind fun _ => .pure _

theorem persistContent (h : Sustained I) :
    Preserves (fun p : ElementProxy => I p.tree) ElementProxy.persistContent := by
  refine .bind_get fun p _ => .bind (.modify fun _ hp => hp) fun _ => ?_
  -- the buffer is emptied after each way of writing it
  have hdone : ∀ response : Response, Preserves (fun p : ElementProxy => I p.tree) (do
      modify ({ · with overrides := [] })
      return response : ProxyM ElementProxy Response) := fun _ => .bind (.modify fun _ hp => hp) fun _ => .pure _
  dsimp only
  split
  · refine .bind_get fun q _ => ?_
    split
    · exact (h.replaceBy _ _).bind hdone
    · exact h.persistAttributes.bind hdone
  · exact h.persistAttributes.bind hdone

theorem persist (h : Sustained I) : Preserves (fun p : ElementProxy => I p.tree) ElementProxy.persist := by
  refine .bind_get fun p _ => ?_
  split
  · exact .pure _
  · refine (preserves_onElement h.settle).bind fun answer => ?_
    split
    · exact .pure _
    · exact h.persistContent

end Sustained

/-! ### Proxies of text nodes -/

/-- The text that is written is that of the delegate. -/
theorem preserves_persistText {r : Ref}
    (hs : ∀ {t u : Tree} {content : String}, t.setText r content = .ok u → I t → I u) :
    Preserves (fun p : TextProxy => p.delegate = r ∧ I p.tree) TextProxy.persistContent := by
  refine .bind_get fun p hp => .bind (fun _ _ => hp) fun _ => ?_
  obtain ⟨rfl, -⟩ := hp
  dsimp only
  split
  · split
    · exact (preserves_onText (preserves_edit (preserves_ofExcept fun ht hu => hs hu ht))).bind fun _ => .pure _
    · exact .pure _
  · exact .pure _

theorem Movable.persistText (h : Movable I) {r : Ref}
    (hs : ∀ {t u : Tree} {content : String}, t.setText r content = .ok u → I t → I u) :
    Preserves (fun p : TextProxy => p.delegate = r ∧ I p.tree) TextProxy.persist := by
  refine .bind_get fun p _ => ?_
  split
  · exact .pure _
  · refine (preserves_onText (h.settle r)).bind fun answer => ?_
    split
    · exact .pure _
    · exact preserves_persistText hs

/-- The element that renewing creates has the name and the namespace that it was given. -/
theorem Named.name?_renew {t : Tree} (h : t.Named) (namespaces : NamespaceTable) (old : Ref)
    (space name : String) (entries : List (String × Option String)) :
    (Edit.renew namespaces old space name entries t).2.name? (some t.size) = some (.ofWritten space name) := by
  obtain ⟨hr, hname⟩ := h.createElement space name
  let u := (t.createElement space name).2
  have hcreate : Edit.createElement space name t = (.ok t.size, u) := rfl
  have hlt : t.size < u.size := by
    obtain ⟨content, hc, -⟩ := Option.bind_eq_some_iff.1 hname
    exact lt_of_kind (kind_eq_of_content hc)
  rw [Edit.renew, bind_ok hcreate]
  have hlast := (lasting_recalls u).steady.succession namespaces old t.size entries u (.refl hr.named)
  rw [hlast.name? hr.named hlt, hname]

end RichText.Tree
