import RichText.Proofs.Rules.Origins
import RichText.Proofs.Pass.Verdicts

/-!
Configurations that rename tags.

A renaming pairs tags, each with at most one other in either direction. Its configuration says of each pair that the
first tag is written to the data as the second, and that the second is rendered back as the first. What it compiles
to are the rules of the renaming in the one direction, and those of its inverse in the other.
-/

namespace RichText

open RichText.Tree

variable {κ σ : Type}

/-- The keys of a rule set that are no tags. -/
def RuleSet.reserved : List String := [beforeElement, afterElement, afterChildren]

/-- A finite renaming of lower-case tags that are not reserved, one to one. -/
structure Renaming where
  pairs : List (String × String)
  sources : (pairs.map Prod.fst).Nodup
  targets : (pairs.map Prod.snd).Nodup
  lower : ∀ e ∈ pairs, Text.lowerCase e.1 = e.1 ∧ Text.lowerCase e.2 = e.2
  tags : ∀ e ∈ pairs, e.1 ∉ RuleSet.reserved ∧ e.2 ∉ RuleSet.reserved

/-- A new key goes to the end of a table. -/
theorem Keyed.alter_of_not_mem {ι α : Type} [DecidableEq ι] {key : ι} {f : Option α → α} {entries : List (ι × α)}
    (h : key ∉ entries.map Prod.fst) : alter key f entries = entries ++ [(key, f none)] := by
  induction entries with
  | nil => rfl
  | cons e rest ih =>
    simp only [List.map_cons, List.mem_cons, not_or] at h
    rw [alter, if_neg (Ne.symm h.1), ih h.2, List.cons_append]

namespace Renaming

variable (ρ : Renaming)

/-- The tag that a tag is renamed to. -/
def to? (tag : String) : Option String := ρ.pairs.lookup tag

/-- The renaming back. -/
def inverse : Renaming where
  pairs := ρ.pairs.map Prod.swap
  sources := (List.map_map ..).symm ▸ ρ.targets
  targets := (List.map_map ..).symm ▸ ρ.sources
  lower := List.forall_mem_map.2 fun e he => (ρ.lower e he).symm
  tags := List.forall_mem_map.2 fun e he => (ρ.tags e he).symm

theorem to?_eq_some_iff {tag new : String} : ρ.to? tag = some new ↔ (tag, new) ∈ ρ.pairs :=
  Keyed.lookup_eq_some_iff ρ.sources

theorem inverse_to?_eq_some_iff {tag old : String} : ρ.inverse.to? tag = some old ↔ ρ.to? old = some tag := by
  rw [to?_eq_some_iff, to?_eq_some_iff, inverse, List.mem_map]
  constructor
  · rintro ⟨e, he, ⟨⟩⟩
    exact he
  · exact fun h => ⟨(old, tag), h, rfl⟩

/-- The elements of a tag are renamed as the renaming says. -/
def verdicts (tag : String) : Option Verdict := (ρ.to? tag).map .rename

/-- The entry of a pair: data is written under the second tag, and that tag is rendered back as the first. -/
def entry (e : String × String) : String × ElementEntry κ σ :=
  (e.1, (({} : ElementEntry κ σ).withToData (Rule.renameTo e.2)).withTarget e.2 (Rule.renameTo e.1))

/-- The configuration of a renaming, with one entry for each pair. -/
def configuration : Configuration κ σ where
  elements := ρ.pairs.map entry

/-- The rule of a pair in the direction from the first tag to the second. -/
def rule (e : String × String) : String × ElementRule κ σ := (e.1, Rule.renameTo e.2)

/-- The view rule of a pair, filed under the first tag. -/
def bucket (e : String × String) : String × List (Origin × ElementRule κ σ) :=
  (e.2, [(.tag e.1, Rule.renameTo e.1)])

/-- Compiling the entry of a pair adds its two rules to those of other pairs. -/
theorem addEntry_entry {progress : Configuration.Progress κ σ} {e : String × String}
    (hs : e.1 ∉ progress.toData.map Prod.fst) (ht : e.2 ∉ progress.toView.map Prod.fst) :
    progress.addEntry e.1 (entry e).2 =
      { progress with toData := progress.toData ++ [rule e], toView := progress.toView ++ [bucket e] } := by
  have horigin : ({ progress with toData := progress.toData ++ [rule e] } : Configuration.Progress κ σ).originOf e.1 =
      .tag e.1 := by
    rw [Configuration.Progress.originOf, if_pos]
    rw [List.lookup_append, rule, Keyed.lookup_cons_ite, if_pos rfl]
    cases progress.toData.lookup e.1 <;> rfl
  simp only [entry, ElementEntry.withToData, ElementEntry.withTarget, Configuration.Progress.addEntry,
    Configuration.Progress.addToData, Configuration.Progress.addToView, List.foldl_cons, List.foldl_nil]
  rw [Keyed.alter_of_not_mem hs]
  have hrule : (e.1, layer (Rule.renameTo e.2) none) = (rule e : String × ElementRule κ σ) := rfl
  rw [hrule, horigin, Buckets.add, Keyed.alter_of_not_mem ht]
  rfl

/-- The entries of pairs with new tags on both sides are compiled to the rules of the pairs. -/
theorem addEntries_entries {pairs : List (String × String)} (progress : Configuration.Progress κ σ)
    (hs : (progress.toData.map Prod.fst ++ pairs.map Prod.fst).Nodup)
    (ht : (progress.toView.map Prod.fst ++ pairs.map Prod.snd).Nodup) :
    progress.addEntries (pairs.map entry) =
      { progress with toData := progress.toData ++ pairs.map rule, toView := progress.toView ++ pairs.map bucket } := by
  induction pairs generalizing progress with
  | nil => simp [Configuration.Progress.addEntries]
  | cons e rest ih =>
    have hs' := hs
    have ht' := ht
    simp only [List.map_cons, List.append_cons _ _ (rest.map _)] at hs' ht'
    have hnew : e.1 ∉ progress.toData.map Prod.fst :=
      fun hm => (List.nodup_append.1 hs).2.2 _ hm _ List.mem_cons_self rfl
    have hnew' : e.2 ∉ progress.toView.map Prod.fst :=
      fun hm => (List.nodup_append.1 ht).2.2 _ hm _ List.mem_cons_self rfl
    have hstep := addEntry_entry hnew hnew'
    rw [Configuration.Progress.addEntries, List.map_cons, List.foldl_cons]
    refine (congrArg (fun p => p.addEntries (rest.map entry)) hstep).trans ?_
    rw [ih]
    · simp
    · simpa [rule] using hs'
    · simpa [bucket] using ht'

/-- The rules that a renaming is compiled to. -/
theorem compile_configuration :
    Configuration.compile (some ρ.configuration) none =
      (⟨{ elements := ρ.pairs.map rule }, { elements := ρ.inverse.pairs.map rule }⟩ : Compiled κ σ) := by
  have h := addEntries_entries (κ := κ) (σ := σ) {} (by simpa using ρ.sources) (by simpa using ρ.targets)
  have hadd : (({} : Configuration.Progress κ σ).add ρ.configuration) = _ := h
  rw [Configuration.compile]
  simp only [List.filterMap_cons, List.filterMap_nil, id, List.foldl_cons, List.foldl_nil, hadd]
  simp [Configuration.Progress.finish, Buckets.rules, inverse, bucket, rule, Rule.sequence, Function.comp_def]

/-- The rules of a renaming carry it out. -/
theorem enacts {f : Filter κ σ} (hf : f.rules = { elements := ρ.pairs.map rule }) : f.Enacts ρ.verdicts false := by
  have helement : ∀ key, f.rules.element? key = (ρ.verdicts key).map Verdict.rule := by
    intro key
    rw [hf, RuleSet.element?, verdicts, to?]
    induction ρ.pairs with
    | nil => rfl
    | cons e rest ih =>
      rw [List.map_cons, rule, Keyed.lookup_cons_ite, ih, ← Prod.mk.eta (p := e), Keyed.lookup_cons_ite]
      split <;> rfl
  have hreserved : ∀ {key}, key ∈ RuleSet.reserved → ρ.verdicts key = none := by
    intro key hk
    rw [verdicts, Option.map_eq_none_iff, Option.eq_none_iff_forall_ne_some]
    exact fun new hn => (ρ.tags _ (ρ.to?_eq_some_iff.1 hn)).1 hk
  have hnone : ∀ {key}, key ∈ RuleSet.reserved → f.rules.element? key = none := by
    intro key hk
    rw [helement, hreserved hk]
    rfl
  exact ⟨fun _ => helement _, hreserved, hnone (by simp [RuleSet.reserved]), hnone (by simp [RuleSet.reserved]),
    hnone (by simp [RuleSet.reserved]), by rw [hf]⟩

end Renaming

end RichText
