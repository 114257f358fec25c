import RichText.Proofs.Tree.Interning
import RichText.Proofs.Tree.Unique

/-!
Names in reachable trees.

In every tree that calls and passes lead to, the names of all nodes are stored, provided that those of the data which
is added are. Symbols then stand for strings everywhere in the tree: a name that is stored is written as it was, and an
attribute is found by symbols where it would be found by strings.
-/

namespace RichText

open Effects

/-- A name that is stored is written as it was, also after more strings were stored. -/
theorem SymbolTable.Sound.internName {table table' : SymbolTable} (h : table.Sound) {space written : String}
    {name : QualifiedName Symbol} (hn : table.internName (.ofWritten space written) = (name, table'))
    (more : List String) :
    (table'.internAll more).2.qualified name = written ∧ (table'.internAll more).2.resolve name.space = space := by
  obtain ⟨-, hparts, hresolve⟩ := table.internName_spec (.ofWritten space written)
  have hsound : (table.internName (.ofWritten space written)).2.Sound := ((h.intern _).intern _).intern _
  rw [hn] at hparts hresolve hsound
  have hx := table'.extends_internAll more
  have hlater : (table'.internAll more).2.resolveName name = .ofWritten space written :=
    (QualifiedName.map_congr fun s hs => hx.resolve (hparts s hs)).trans hresolve
  refine ⟨?_, congrArg QualifiedName.space hlater⟩
  rw [(hsound.internAll more).qualified_eq fun s hs => (hparts s hs).trans_le hx.size_le, hlater, written_ofWritten]

namespace Tree

variable {t u : Tree} {r : Ref}

/-! ### Edits that keep the names stored -/

namespace Indexed

theorem store (h : t.Indexed) (s : String) : Indexed { t with symbols := (t.symbols.intern s).2 } :=
  h.symbols (t.symbols.intern_spec s).1 (h.distinct.intern s)

/-- Each way of writing an attribute alters attributes of elements only. -/
theorem assignable (r : Ref) : AssignableAt Indexed r where
  setAttribute written value := by
    refine preserves_at_element (fun s h => h.store s) (fun hw => hw.setAttribute written value) fun hr h hd => ?_
    subst hr
    obtain ⟨u, hu, ha⟩ := h.setAttribute hd written value
    exact hu ▸ ha.indexed
  removeAttribute written := by
    refine preserves_at_element (fun s h => h.store s) (fun hw => hw.removeAttribute written) fun hr h hd => ?_
    subst hr
    obtain ⟨found, u, hu, ha⟩ := h.removeAttribute hd written
    exact hu ▸ ha.indexed
  setAttributeNS space written value := by
    refine preserves_at_element (fun s h => h.store s) (fun hw => hw.setAttributeNS space written value)
      fun hr h hd => ?_
    subst hr
    have hparts : QualifiedName.ofWritten space written = ⟨space, _, _⟩ := rfl
    obtain ⟨u, hu, ha⟩ := h.setAttributeNS hd hparts value
    exact hu ▸ ha.indexed
  removeAttributeNS space localPart := by
    refine preserves_at_element (fun s h => h.store s) (fun hw => hw.removeAttributeNS space localPart)
      fun hr h hd => ?_
    subst hr
    obtain ⟨u, hu, ha⟩ := h.removeAttributeNS hd space localPart
    exact hu ▸ ha.indexed

/-- Whatever a pass does keeps the names of all nodes stored. -/
theorem passable : Passable Indexed where
  detach hu h := h.moves (sameData_of_detach hu)
  insertBefore hu h := h.moves (sameData_of_insertBefore hu)
  createElement space written h := (h.createElement space written).1
  writeAttributes := preserves_writeAttributes assignable
  setText hu h := h.setText hu

/-- Copies have their names stored anew, whatever the names of the other tree are. -/
theorem copyFrom (h : t.Indexed) (hl : t.Linked) (source : Tree) (r : Ref) : (Edit.copyFrom source r t).2.Indexed := by
  cases hc : source.content? r with
  | none =>
    rw [Edit.copyFrom, hc]
    exact h
  | some content =>
    cases r with
    | none => cases hc
    | some n =>
      have hn : n < source.size := lt_of_kind (kind_eq_of_content hc)
      obtain ⟨v, u, hu, hg⟩ := hl.copyFrom h.toStored hn
      have hsound := invariant_sound.copyFrom source (some n) t h.sound
      rw [hu] at hsound ⊢
      exact ⟨hg.planted.retains.stored, hsound.distinct⟩

end Indexed

/-! ### The trees that calls and passes lead to -/

/-- The names of data that a call adds are made of strings that the tree stores. -/
def Call.Supplied (t : Tree) : Call → Prop
  | create data => ∀ s ∈ data.parts, s < t.symbols.size
  | _ => True

/-- What storing strings, supplied calls and passes make of an empty tree, in any order, and whether they succeed or
fail. -/
inductive Attained : Tree → Prop
  | empty : Attained empty
  | store {t : Tree} (h : Attained t) (s : String) : Attained { t with symbols := (t.symbols.intern s).2 }
  | call {t : Tree} (h : Attained t) {call : Call} (hc : call.Supplied t) : Attained (call.after t)
  | pass {t : Tree} (h : Attained t) {κ σ : Type} {f : Filter κ σ} (hf : f.ThroughProxies) (start : Ref)
      (journal : σ) : Attained (f.apply start t journal).2.1

theorem Indexed.call (h : t.Indexed) (hl : t.Linked) {call : Call} (hc : call.Supplied t) : (call.after t).Indexed := by
  have hassign := Indexed.assignable
  have hmoves := Indexed.passable.toMovable
  cases call with
  | create data => exact ⟨h.toStored.push hc, h.distinct⟩
  | createElement space written => exact (h.createElement space written).1
  | appendChild parent child => exact preserves_ofExcept (fun ht hu => hmoves.insertBefore hu ht) t h
  | insertBefore parent child reference => exact preserves_ofExcept (fun ht hu => hmoves.insertBefore hu ht) t h
  | replaceChild parent new old => exact preserves_ofExcept (fun ht hu => hmoves.replaceChild hu ht) t h
  | detach node => exact preserves_ofExcept (fun ht hu => hmoves.detach hu ht) t h
  | removeChildren node => exact preserves_ofExcept (fun ht hu => hmoves.removeChildren hu ht) t h
  | copyFrom source node =>
    have hcopy : Preserves (fun u => u.Indexed ∧ u.Linked) (discard (Edit.copyFrom source node)) :=
      Preserves.discard fun u hu => ⟨hu.1.copyFrom hu.2 source node, invariant_linked.copyFrom source node u hu.2⟩
    exact (hcopy t ⟨h, hl⟩).1
  | setAttribute element written value => exact (hassign element).setAttribute written value t h
  | removeAttribute element written => exact ((hassign element).removeAttribute written).discard t h
  | setAttributeNS element space written value => exact (hassign element).setAttributeNS space written value t h
  | removeAttributeNS element space localPart =>
    exact ((hassign element).removeAttributeNS space localPart).discard t h
  | setText node content => exact preserves_ofExcept (fun ht hu => ht.setText hu) t h

theorem Attained.indexed (h : t.Attained) : t.Indexed ∧ t.Linked := by
  induction h with
  | empty => exact ⟨indexed_empty, linked_empty⟩
  | store _ s ih => exact ⟨ih.1.store s, invariant_linked.store s ih.2⟩
  | call _ hc ih => exact ⟨ih.1.call ih.2 hc, ih.2.call _⟩
  | pass _ hf start journal ih =>
    exact ⟨Filter.preserves_run hf Indexed.passable start (_, journal) ih.1, ih.2.pass hf start journal⟩

theorem Call.Proper.supplied {call : Call} (h : call.Proper) (t : Tree) : call.Supplied t := by
  cases call with
  | create data => exact h.elim
  | _ => trivial

theorem Attained.calls (h : t.Attained) {calls : List Call} (hc : ∀ call ∈ calls, call.Proper) :
    (calls.foldl (fun t call => call.after t) t).Attained := by
  induction calls generalizing t with
  | nil => exact h
  | cons call rest ih =>
    exact ih (h.call ((hc call List.mem_cons_self).supplied t)) fun c hm => hc c (List.mem_cons_of_mem _ hm)

/-! ### Names by symbols and by strings -/

/-- Reading an attribute by its namespace and local part finds the first attribute that has them, also where it is read
of a node that has no attributes. -/
theorem Indexed.attributeNS?_eq_find? (h : t.Indexed) (r : Ref) (space localPart : String) :
    t.attributeNS? r space localPart =
      ((t.attributes r).find? fun a => a.name.space == space && a.name.localPart == localPart).map Attribute.value := by
  by_cases hk : t.kind? r = some .element
  · cases r with
    | none => cases hk
    | some d => exact h.attributeNS?_eq hk space localPart
  · have hnone : t.symbolicAttributes r = [] ∧ t.attributes r = [] := by
      rw [symbolicAttributes, attributes, content?]
      cases hd : t.data? r with
      | none => exact ⟨rfl, rfl⟩
      | some data =>
        cases data with
        | element name attributes => exact absurd (by rw [kind?, hd]; rfl) hk
        | _ => exact ⟨rfl, rfl⟩
    rw [attributeNS?, hnone.1, hnone.2]
    cases t.findSymbols? space localPart <;> rfl

/-! ### What numbers and names stand for -/

/-- After any strings were stored, two of them have the same symbol exactly when they are equal, finding and resolving
are inverse to each other, and symbol 0 is the empty string; whatever is stored later, a symbol stands for the same
string. The 32-bit numbers of an interner with a hash map do so too, as long as fewer than 2 ^ 32 strings are stored.

In every tree that calls and passes lead to, a name is therefore written as it was stored, in the namespace in which it
was stored, and an attribute that is looked for by symbols is the one that is found by strings. -/
theorem names_stand :
    (∀ ss symbols table, SymbolTable.initial.internAll ss = (symbols, table) →
      Numbering 0 (· < table.size) table.find? table.resolve ss symbols ∧
        ∀ more, ∀ a < table.size, (table.internAll more).2.resolve a = table.resolve a) ∧
    (∀ ss ids interner, Interner.fresh.internAll ss = (ids, interner) → interner.strings.size < 2 ^ 32 →
      Numbering 0 (·.toNat < interner.strings.size) interner.lookup interner.get ss ids ∧
        ∀ more id, id.toNat < interner.strings.size → (interner.internAll more).2.get id = interner.get id) ∧
    ∀ t : Tree, t.Attained →
      (∀ space written name table, t.symbols.internName (.ofWritten space written) = (name, table) → ∀ more,
        (table.internAll more).2.qualified name = written ∧ (table.internAll more).2.resolve name.space = space) ∧
      ∀ r space localPart, t.attributeNS? r space localPart =
        ((t.attributes r).find? fun a => a.name.space == space && a.name.localPart == localPart).map
          Attribute.value := by
  refine ⟨fun ss symbols table h => ?_, fun ss ids i h hb => ?_, fun t ht =>
    ⟨fun space written name table hn => ?_, ?_⟩⟩
  · have hn := SymbolTable.numbering_initial ss
    rw [h] at hn
    exact ⟨hn, fun more a ha => (table.extends_internAll more).resolve ha⟩
  · obtain ⟨hids, hm⟩ := Interner.mirrors_fresh.internAll ss
    rw [h] at hids hm
    obtain rfl := hids
    exact ⟨hm.numbering hb (SymbolTable.numbering_initial ss), fun more id hid => hm.get_internAll more hid⟩
  · exact ht.indexed.1.sound.internName hn
  · exact ht.indexed.1.attributeNS?_eq_find?

theorem names_stand_linkedParagraph :
    let ss := ["b", "x", "", "b", "x"]
    let interner := (Interner.fresh.internAll ss).2
    let t := linkedParagraph.foldl (fun t call => call.after t) .empty
    let name := t.symbols.internName (.ofWritten "urn:u" "x:y:z")
    (SymbolTable.initial.internAll ss).1 = [28, 49, 0, 28, 49] ∧
      (SymbolTable.initial.internAll ss).2.find? "x" = some 49 ∧
      interner.strings.size < 2 ^ 32 ∧ interner.lookup "x" = some 49 ∧ interner.lookup "y" = none ∧
      t.Attained ∧ name.2.qualified name.1 = "x:y:z" ∧ name.2.resolve name.1.space = "urn:u" ∧
      t.attributeNS? (some 1) Uri.xlink "href" = some "b" := by
  intro ss interner t name
  obtain ⟨htables, hinterners, htrees⟩ := names_stand
  have hsymbols : (SymbolTable.initial.internAll ss).1 = [28, 49, 0, 28, 49] := by decide +kernel
  have hm := Interner.mirrors_fresh.internAll ss
  have hb : interner.strings.size < 2 ^ 32 := by
    rw [← hm.2.size]
    decide +kernel
  have ht : t.Attained := Attained.empty.calls (by decide +kernel)
  obtain ⟨htable, -⟩ := htables ss (SymbolTable.initial.internAll ss).1 (SymbolTable.initial.internAll ss).2 rfl
  obtain ⟨hinterner, -⟩ := hinterners ss (Interner.fresh.internAll ss).1 interner rfl hb
  obtain ⟨hnames, hattributes⟩ := htrees t ht
  obtain ⟨hwritten, hspace⟩ := hnames "urn:u" "x:y:z" name.1 name.2 rfl []
  refine ⟨hsymbols, htable.found ("x", 49) (by simp [ss, hsymbols]), hb,
    hinterner.found ("x", 49) (by simp [ss, hm.1, hsymbols]), ?_, ht, hwritten, hspace, ?_⟩
  · rw [← Option.not_isSome_iff_eq_none, hinterner.stored]
    decide +kernel
  · rw [hattributes]
    decide +kernel

end Tree

end RichText
