import RichText.Proofs.Pass.Relabel
import RichText.Proofs.Pass.Rewrite
import RichText.Proofs.Rules.Renaming

/-!
A pass that renames tags, and the pass back.

Both passes are rewritings of the forest below the start node that leave its shape, so that what they make of it
together is what they make of every single element. A tag comes back as it was, since no rule runs on the new tag of
an element in the pass that gave it that tag: tags may be swapped. The attributes of an element that was replaced on
the way are plain.
-/

namespace RichText

open RichText.Tree

variable {κ σ : Type} {space : String} {t : Tree}

theorem Forest.orderly_iff {f : Forest Content} : f.Orderly space ↔ ∀ e ∈ f.walked,
    e.1.space = space ∧ (∀ a ∈ e.2, PlainKey a.name.written) ∧ (e.2.map fun a => a.name.written).Nodup := by
  induction f with
  | nil => simp [Orderly, walked]
  | node content below rest ihb ihr =>
    cases content with
    | element name attributes =>
      simp only [Orderly, walked, List.forall_mem_cons, List.forall_mem_append, ihb, ihr]
    | _ => exact ihr

namespace Renaming

variable (ρ : Renaming) {e : Labels}

/-- What a pass makes of an element. -/
def rename (e : Labels) : Labels :=
  match ρ.to? (Text.lowerCase e.1.written) with
  | none => e
  | some new =>
    if Text.lowerCase new = Text.lowerCase e.1.written then e
    else (.ofWritten e.1.space (Text.lowerCase new), e.2.map Attribute.plain)

/-- What the pass and the pass back make of an element: one that had another tag in between has its name as it is
written, and its attributes as plain ones. -/
def restore (e : Labels) : Labels :=
  match ρ.to? e.1.written with
  | none => e
  | some new => if new = e.1.written then e else (.ofWritten e.1.space e.1.written, e.2.map Attribute.plain)

/-- Where a tag that the renaming leads to occurs it is also a tag that the renaming leads away from. -/
def ClosedOn (f : Forest Content) : Prop :=
  ∀ e ∈ f.walked, e.1.written ∈ ρ.pairs.map Prod.snd → e.1.written ∈ ρ.pairs.map Prod.fst

instance (f : Forest Content) : Decidable (ρ.ClosedOn f) :=
  inferInstanceAs (Decidable (∀ e ∈ f.walked, _ → _))

theorem rewrite_eq (f : Forest Content) : f.rewrite ρ.verdicts false = f.relabel ρ.rename := by
  induction f with
  | nil => rfl
  | node content below rest ihb ihr =>
    cases content with
    | element name attributes =>
      rw [Forest.rewrite, ihb, ihr, Forest.relabel, rename, verdicts]
      dsimp only
      cases ρ.to? (Text.lowerCase name.written) with
      | none => rfl
      | some new =>
        simp only [Option.map_some, Forest.treat, NodeData.renamed]
        split <;> rfl
    | _ => simp only [Forest.rewrite, Forest.relabel, ihr]

/-- A renamed element is still in its namespace and has attributes under the same keys. -/
theorem rename_orderly (h : e.1.space = space ∧ (∀ a ∈ e.2, PlainKey a.name.written) ∧
      (e.2.map fun a => a.name.written).Nodup) :
    (ρ.rename e).1.space = space ∧ (∀ a ∈ (ρ.rename e).2, PlainKey a.name.written) ∧
      ((ρ.rename e).2.map fun a => a.name.written).Nodup := by
  rw [rename]
  split
  · exact h
  · split
    · exact h
    · simpa [Function.comp_def] using h

theorem relabel_orderly {f : Forest Content} (h : f.Orderly space) : (f.relabel ρ.rename).Orderly space := by
  rw [Forest.orderly_iff] at h ⊢
  rw [Forest.walked_relabel, List.forall_mem_map]
  exact fun e he => ρ.rename_orderly (h e he)

theorem rename_of_none (hl : Text.lowerCase e.1.written = e.1.written) (h : ρ.to? e.1.written = none) :
    ρ.rename e = e := by
  rw [rename, hl, h]

theorem rename_of_some {new : String} (hl : Text.lowerCase e.1.written = e.1.written)
    (h : ρ.to? e.1.written = some new) :
    ρ.rename e = if new = e.1.written then e else (.ofWritten e.1.space new, e.2.map Attribute.plain) := by
  have hnew : Text.lowerCase new = new := (ρ.lower _ (ρ.to?_eq_some_iff.1 h)).2
  simp only [rename, hl, h, hnew]

/-- Renaming an element and renaming it back. -/
theorem rename_back (hl : Text.lowerCase e.1.written = e.1.written)
    (hc : e.1.written ∈ ρ.pairs.map Prod.snd → e.1.written ∈ ρ.pairs.map Prod.fst) :
    ρ.inverse.rename (ρ.rename e) = ρ.restore e := by
  cases hto : ρ.to? e.1.written with
  | none =>
    -- the tag is not one that the renaming leads to either
    have hback : ρ.inverse.to? e.1.written = none := by
      rw [Option.eq_none_iff_forall_ne_some]
      intro old hold
      have hmem := ρ.to?_eq_some_iff.1 (ρ.inverse_to?_eq_some_iff.1 hold)
      obtain ⟨⟨_, new⟩, hnew, rfl⟩ := List.mem_map.1 (hc (List.mem_map.2 ⟨_, hmem, rfl⟩))
      cases hto.symm.trans (ρ.to?_eq_some_iff.2 hnew)
    rw [ρ.rename_of_none hl hto, ρ.inverse.rename_of_none hl hback, restore, hto]
  | some new =>
    have hnew : Text.lowerCase new = new := (ρ.lower _ (ρ.to?_eq_some_iff.1 hto)).2
    have hback : ρ.inverse.to? new = some e.1.written := ρ.inverse_to?_eq_some_iff.2 hto
    have hrestore : ρ.restore e = if new = e.1.written then e else
        (.ofWritten e.1.space e.1.written, e.2.map Attribute.plain) := by
      simp only [restore, hto]
    rw [ρ.rename_of_some hl hto, hrestore]
    split
    · rename_i he
      rw [ρ.inverse.rename_of_some hl (he ▸ hback), if_pos rfl]
    · rename_i he
      have hplain : Attribute.plain ∘ Attribute.plain = Attribute.plain := by
        funext a
        simp [Attribute.plain, QualifiedName.written]
      let e' : Labels := (.ofWritten e.1.space new, e.2.map Attribute.plain)
      have hwritten : e'.1.written = new := written_ofWritten _ _
      have hlower : Text.lowerCase e'.1.written = e'.1.written := by rw [hwritten, hnew]
      have hagain : ρ.inverse.to? e'.1.written = some e.1.written := by rw [hwritten, hback]
      have hrename := ρ.inverse.rename_of_some hlower hagain
      rw [hwritten, if_neg (Ne.symm he)] at hrename
      rw [hrename, List.map_map, hplain]
      rfl

/-- An element whose name is as its written form is split, and whose attributes are plain, comes back as it was. -/
theorem restore_eq (hn : QualifiedName.ofWritten e.1.space e.1.written = e.1) (ha : e.2.map Attribute.plain = e.2) :
    ρ.restore e = e := by
  rw [restore]
  split
  · rfl
  · split
    · rfl
    · rw [hn, ha]

theorem relabel_back {f : Forest Content} (hl : ∀ e ∈ f.walked, Text.lowerCase e.1.written = e.1.written)
    (hc : ρ.ClosedOn f) : (f.relabel ρ.rename).relabel ρ.inverse.rename = f.relabel ρ.restore := by
  rw [Forest.relabel_relabel]
  exact Forest.relabel_congr fun e he => ρ.rename_back (hl e he) (hc e he)

/-- The rules that a renaming is compiled to are carried out in both directions, the second time on what the first
pass left. The forest below the start node is then the same again but for names and attributes of elements that had
another tag in between: their names are split at the first colon, and their attributes are in no namespace. -/
theorem apply_back {f f' : Filter κ σ} (hf : f.rules = (Configuration.compile (some ρ.configuration) none).toData)
    (hf' : f'.rules = (Configuration.compile (some ρ.configuration) none).toView) (ht : t.WellFormed) {start : Ref}
    (hd : ∀ x ∈ (t.below start).toList, t.documentElement ≠ some x)
    (ho : (t.contentBelow start).Orderly t.defaultNamespace)
    (hl : ∀ e ∈ (t.contentBelow start).walked, Text.lowerCase e.1.written = e.1.written)
    (hc : ρ.ClosedOn (t.contentBelow start)) (journal journal' : σ) :
    ∃ u v, f.apply start t journal = (.ok (), u, journal) ∧ f'.apply start u journal' = (.ok (), v, journal') ∧
      v.contentBelow start = (t.contentBelow start).relabel ρ.restore ∧
      ((∀ e ∈ (t.contentBelow start).walked, QualifiedName.ofWritten e.1.space e.1.written = e.1 ∧
          e.2.map Attribute.plain = e.2) → v.contentBelow start = t.contentBelow start) := by
  have hthere : f.Enacts ρ.verdicts false := ρ.enacts (by rw [hf, compile_configuration])
  have hback : f'.Enacts ρ.inverse.verdicts false := ρ.inverse.enacts (by rw [hf', compile_configuration])
  obtain ⟨u, v, hu, hv, hsame⟩ : ∃ u v, f.apply start t journal = (.ok (), u, journal) ∧
      f'.apply start u journal' = (.ok (), v, journal') ∧
      v.contentBelow start = (t.contentBelow start).relabel ρ.restore := by
    cases start with
    | none =>
      have hnil : t.contentBelow none = .nil := by rw [contentBelow, below_none]; rfl
      exact ⟨t, t, f.apply_none t journal, f'.apply_none t journal', by rw [hnil]; rfl⟩
    | some start =>
      obtain ⟨u, hu, hru, hwu, hdoc, hspace⟩ := Filter.pass_rewrites hthere ht hd ho journal
      have hcu : u.contentBelow (some start) = (t.contentBelow (some start)).relabel ρ.rename := by
        rw [Filter.contentBelow_of_rewrites hru, rewrite_eq]
      -- the document element is not below the start node after the first pass either, for it is an old node
      have hdu : ∀ x ∈ (u.below (some start)).toList, u.documentElement ≠ some x := by
        obtain ⟨g', hg, -, -⟩ := hru
        rw [hg.ahead.below_eq, hdoc]
        intro x hx he
        rcases hg.source hx with hold | hnew
        · exact hd x hold he
        · exact (lt_of_documentElement he).not_ge hnew
      obtain ⟨v, hv, hrv, -⟩ := Filter.pass_rewrites hback hwu hdu
        (by rw [hcu, hspace]; exact ρ.relabel_orderly ho) journal'
      refine ⟨u, v, hu, hv, ?_⟩
      rw [Filter.contentBelow_of_rewrites hrv, rewrite_eq, hcu, ρ.relabel_back hl hc]
  refine ⟨u, v, hu, hv, hsame, fun h => ?_⟩
  have hid : ∀ e ∈ (t.contentBelow start).walked, ρ.restore e = id e := fun e he =>
    ρ.restore_eq (h e he).1 (h e he).2
  rw [hsame, Forest.relabel_congr hid, Forest.relabel_id]

/-- Data is written under other tags. -/
def toData : Filter Unit Unit where
  rules := (Configuration.compile (some ρ.configuration) none).toData
  context := ()

/-- The tags of the data are rendered back. -/
def toView : Filter Unit Unit where
  rules := (Configuration.compile (some ρ.configuration) none).toView
  context := ()

/-- Two tags that take each other's place. -/
def swap : Renaming where
  pairs := [("b", "i"), ("i", "b")]
  sources := by decide
  targets := by decide
  lower := by decide
  tags := by decide

theorem apply_back_swap : ∃ u v, swap.toData.apply (some 1) Filter.linking () = (.ok (), u, ()) ∧
    swap.toView.apply (some 1) u () = (.ok (), v, ()) ∧
    v.contentBelow (some 1) = (Filter.linking.contentBelow (some 1)).relabel swap.restore ∧
    ((∀ e ∈ (Filter.linking.contentBelow (some 1)).walked, QualifiedName.ofWritten e.1.space e.1.written = e.1 ∧
      e.2.map Attribute.plain = e.2) → v.contentBelow (some 1) = Filter.linking.contentBelow (some 1)) :=
  swap.apply_back rfl rfl Filter.wellFormed_linking (by decide) Filter.regular_linking.orderly (by decide) (by decide)
    () ()

/-- A tag that is renamed to one that does not occur. -/
def single : Renaming where
  pairs := [("b", "i")]
  sources := by decide
  targets := by decide
  lower := by decide
  tags := by decide

/-- The forest is not the same again where an attribute is in a namespace and has no prefix: the element that had it
comes back with an attribute in no namespace. -/
theorem single_drops_space :
    Filter.linking.WellFormed ∧
      (∀ x ∈ (Filter.linking.below (some 1)).toList, Filter.linking.documentElement ≠ some x) ∧
      (Filter.linking.contentBelow (some 1)).Regular Filter.linking.defaultNamespace ∧
      (∀ e ∈ (Filter.linking.contentBelow (some 1)).walked, Text.lowerCase e.1.written = e.1.written) ∧
      single.ClosedOn (Filter.linking.contentBelow (some 1)) ∧
      (single.toView.apply (some 1) (single.toData.apply (some 1) Filter.linking ()).2.1 ()).2.1.contentBelow
        (some 1) ≠ Filter.linking.contentBelow (some 1) := by
  refine ⟨Filter.wellFormed_linking, by decide, Filter.regular_linking, by decide, by decide, ?_⟩
  decide +kernel

end Renaming

end RichText
