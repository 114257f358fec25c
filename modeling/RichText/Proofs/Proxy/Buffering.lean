import RichText.Proofs.Proxy.Persist
import RichText.Proxy.ClassList

/-!
Writing to the buffer of an element proxy.

Names, attributes and class tokens are buffered until the proxy is persisted: none of the writes touches the tree, the
delegate or the recorded fate, whether it is refused or not, and the buffer holds each key once.
-/

namespace RichText

open Effects
open Relation (ReflTransGen)

namespace ElementProxy

/-- No key is buffered twice. -/
def Tidy (p : ElementProxy) : Prop := (p.overrides.map Prod.fst).Nodup

/-- One write to the buffer, other than of the attribute that selects the namespace of the element. -/
inductive Write : ElementProxy → ElementProxy → Prop
  | name (p : ElementProxy) (name : String) : Write p (setName name p).2
  | set (p : ElementProxy) {key : String} (value : String) (h : key ≠ "xmlns") : Write p (setAttribute key value p).2
  | delete (p : ElementProxy) {key : String} (h : key ≠ "xmlns") : Write p (deleteAttribute key p).2
  | addClasses (p : ElementProxy) (tokens : List String) : Write p (addClasses tokens p).2
  | removeClasses (p : ElementProxy) (tokens : List String) : Write p (removeClasses tokens p).2
  | toggleClass (p : ElementProxy) (token : String) (force : Option Bool) : Write p (toggleClass token force p).2
  | replaceClass (p : ElementProxy) (token new : String) : Write p (replaceClass token new p).2

/-- What writes to the buffer leave alone: all of the node, the table and the namespace of the element. -/
structure Buffering (p q : ElementProxy) : Prop where
  node : q.toNodeProxy = p.toNodeProxy
  namespaces : q.namespaces = p.namespaces
  tidy : q.Tidy
  xmlns : "xmlns" ∉ q.overrides.map Prod.fst

/-- `I` survives every write to the buffer, as long as `K` holds of the attributes that are written. -/
structure Survives (K : String → Prop) (I : ElementProxy → Prop) : Prop where
  rename : ∀ {q : ElementProxy} (name : String), I q → I { q with pendingName := some name }
  put : ∀ {q : ElementProxy} {key : String} (value : Option String), K key → I q →
    I { q with overrides := Keyed.put key value q.overrides }

theorem preserves_requireMutable {I : ElementProxy → Prop} (operation : Operation) :
    Preserves I (onNode (NodeProxy.requireMutable operation)) := fun p hp =>
  NodeProxy.preserves_requireMutable (I := fun b => I { p with toNodeProxy := b }) operation p.toNodeProxy hp

theorem preserves_requireTokens {I : ElementProxy → Prop} (operation : Operation) (tokens : List String) :
    Preserves I (requireTokens operation tokens) := by
  unfold ElementProxy.requireTokens
  refine (preserves_requireMutable _).bind fun _ => ?_
  dsimp only
  split
  · exact .throw _
  · exact .pure _

namespace Survives

variable {K : String → Prop} {I : ElementProxy → Prop} (h : Survives K I)
include h

theorem setName (name : String) : Preserves I (setName name) := by
  unfold ElementProxy.setName
  exact (preserves_requireMutable _).bind fun _ => .modify fun _ => h.rename _

theorem setAttribute {key : String} (hk : K key) (value : String) : Preserves I (setAttribute key value) := by
  unfold ElementProxy.setAttribute
  exact (preserves_requireMutable _).bind fun _ => .modify fun _ => h.put (some value) hk

theorem deleteAttribute {key : String} (hk : K key) : Preserves I (deleteAttribute key) := by
  unfold ElementProxy.deleteAttribute
  exact (preserves_requireMutable _).bind fun _ => .modify fun _ => h.put none hk

/-- The target is written, and so are the aliases that differ from it. -/
theorem collapseAliases {target : String} (ht : K target) {aliases : List String} (ha : ∀ key ∈ aliases, K key) :
    Preserves I (collapseAliases target aliases) := by
  unfold ElementProxy.collapseAliases
  refine .bind_get fun q _ => ?_
  refine .bind (.forIn (fun key hk _ => ?_) _) fun _ => ?_
  · split
    · exact (h.deleteAttribute (ha key hk)).bind fun _ => .pure _
    · exact .pure _
  · dsimp only
    split
    · exact (h.setAttribute ht _).bind fun _ => .pure _
    · exact .pure _

/-! All writes to a class list end in a write of the attribute. -/

variable (hc : K "class")
include hc

theorem setClasses (tokens : List String) : Preserves I (setClasses tokens) := by
  unfold ElementProxy.setClasses
  refine .bind_get fun q _ => ?_
  split
  · exact .pure _
  · exact h.setAttribute hc _

theorem addClasses (tokens : List String) : Preserves I (addClasses tokens) := by
  unfold ElementProxy.addClasses
  exact (preserves_requireTokens _ _).bind fun _ => .bind_get fun q _ => h.setClasses hc _

theorem removeClasses (tokens : List String) : Preserves I (removeClasses tokens) := by
  unfold ElementProxy.removeClasses
  exact (preserves_requireTokens _ _).bind fun _ => .bind_get fun q _ => h.setClasses hc _

theorem toggleClass (token : String) (force : Option Bool) : Preserves I (toggleClass token force) := by
  unfold ElementProxy.toggleClass
  refine (preserves_requireTokens _ _).bind fun _ => .bind_get fun q _ => ?_
  dsimp only
  split
  · exact (h.addClasses hc _).bind fun _ => .pure _
  · exact (h.removeClasses hc _).bind fun _ => .pure _

theorem replaceClass (token new : String) : Preserves I (replaceClass token new) := by
  unfold ElementProxy.replaceClass
  refine (preserves_requireTokens _ _).bind fun _ => .bind_get fun q _ => ?_
  dsimp only
  split
  · exact .pure _
  · exact (h.setClasses hc _).bind fun _ => .pure _

end Survives

namespace Buffering

variable {p : ElementProxy}

theorem put {q : ElementProxy} (h : Buffering p q) {key : String} (hk : key ≠ "xmlns") (value : Option String) :
    Buffering p { q with overrides := Keyed.put key value q.overrides } := by
  refine ⟨h.node, h.namespaces, ?_, ?_⟩
  · show (List.map Prod.fst (Keyed.put key value q.overrides)).Nodup
    rw [Keyed.put, Keyed.keys_alter]
    split
    · exact h.tidy
    · rename_i hnot
      refine List.nodup_append.2 ⟨h.tidy, by simp, ?_⟩
      rintro k hk' k' hk'' rfl
      exact hnot (List.mem_singleton.1 hk'' ▸ hk')
  · show "xmlns" ∉ List.map Prod.fst (Keyed.put key value q.overrides)
    rw [Keyed.put, Keyed.keys_alter]
    split
    · exact h.xmlns
    · simpa [Ne.symm hk] using h.xmlns

theorem survives (p : ElementProxy) : Survives (· ≠ "xmlns") (Buffering p) :=
  ⟨fun _ h => ⟨h.node, h.namespaces, h.tidy, h.xmlns⟩, fun value hk h => h.put hk value⟩

/-- One write. -/
theorem write {q q' : ElementProxy} (h : Buffering p q) (hw : Write q q') : Buffering p q' := by
  have hs := survives p
  cases hw with
  | name name => exact hs.setName name q h
  | set value hk => exact hs.setAttribute hk value q h
  | delete hk => exact hs.deleteAttribute hk q h
  | addClasses tokens => exact hs.addClasses (by decide) tokens q h
  | removeClasses tokens => exact hs.removeClasses (by decide) tokens q h
  | toggleClass token force => exact hs.toggleClass (by decide) token force q h
  | replaceClass token new => exact hs.replaceClass (by decide) token new q h

/-- Any number of writes. -/
theorem writes {q q' : ElementProxy} (h : Buffering p q) (hw : ReflTransGen Write q q') : Buffering p q' :=
  holds_of_steps hw h fun hs ih => ih.write hs

end Buffering

end ElementProxy

end RichText
