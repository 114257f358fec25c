import Mathlib
import RichText.Rule

/-!
Running actions that may fail and in both cases leave a state.

Edits of a tree, operations of a proxy, rules and passes are all of this form. An action that is run on a
state gives an answer and the state it leaves; the laws below say how a sequence of actions runs.
-/

namespace RichText.Effects

variable {ε σ α β : Type} {x : ExceptT ε (StateM σ) α} {f : α → ExceptT ε (StateM σ) β} {s s' : σ}

theorem run_bind (x : ExceptT ε (StateM σ) α) (f : α → ExceptT ε (StateM σ) β) (s : σ) :
    (x >>= f) s = match x s with
      | (.ok a, s') => f a s'
      | (.error e, s') => (.error e, s') := by
  show (match x s with | (r, s') => ExceptT.bindCont f r s') = _
  rcases x s with ⟨_ | _, _⟩ <;> rfl

theorem run_map (x : ExceptT ε (StateM σ) α) (g : α → β) (s : σ) :
    (g <$> x) s = match x s with
      | (.ok a, s') => (.ok (g a), s')
      | (.error e, s') => (.error e, s') := by
  rw [map_eq_pure_bind, run_bind]
  rfl

theorem run_discard (x : ExceptT ε (StateM σ) α) (s : σ) :
    Functor.discard x s = match x s with
      | (.ok _, s') => (.ok (), s')
      | (.error e, s') => (.error e, s') := run_map x _ s

theorem bind_ok {a : α} (h : x s = (.ok a, s')) : (x >>= f) s = f a s' := by
  rw [run_bind, h]

theorem bind_error {e : ε} (h : x s = (.error e, s')) : (x >>= f) s = (.error e, s') := by
  rw [run_bind, h]

@[simp] theorem run_pure (a : α) (s : σ) : (pure a : ExceptT ε (StateM σ) α) s = (.ok a, s) := rfl

@[simp] theorem run_throw (e : ε) (s : σ) : (throw e : ExceptT ε (StateM σ) α) s = (.error e, s) := rfl

@[simp] theorem run_get (s : σ) : (get : ExceptT ε (StateM σ) σ) s = (.ok s, s) := rfl

@[simp] theorem run_set (s s' : σ) : (set s' : ExceptT ε (StateM σ) PUnit) s = (.ok (), s') := rfl

@[simp] theorem run_modify (g : σ → σ) (s : σ) :
    (modify g : ExceptT ε (StateM σ) PUnit) s = (.ok (), g s) := rfl

@[simp] theorem run_modifyGet (g : σ → α × σ) (s : σ) :
    (modifyGet g : ExceptT ε (StateM σ) α) s = (.ok (g s).1, (g s).2) := rfl

theorem bind_eq_ok {x : Except ε α} {f : α → Except ε β} {b : β} (h : x >>= f = .ok b) :
    ∃ a, x = .ok a ∧ f a = .ok b := by
  cases x with
  | error e => cases h
  | ok a => exact ⟨a, rfl, h⟩

theorem run_bind_eq_ok {b : β} (h : (x >>= f) s = (.ok b, s')) :
    ∃ a t, x s = (.ok a, t) ∧ f a t = (.ok b, s') := by
  rw [run_bind] at h
  rcases hx : x s with ⟨e | a, t⟩
  · rw [hx] at h
    cases h
  · rw [hx] at h
    exact ⟨a, t, rfl, h⟩

/-! ### What holds when an action ends -/

/-- What is left of a run: `post` holds of an answer and its state, or `fail` of an error and its state. -/
def Ends (post : α → σ → Prop) (fail : ε → σ → Prop) : Except ε α × σ → Prop
  | (.ok a, s) => post a s
  | (.error e, s) => fail e s

variable {post post' : α → σ → Prop} {next : β → σ → Prop} {fail fail' : ε → σ → Prop}

theorem Ends.mono {r : Except ε α × σ} (h : Ends post fail r) (hp : ∀ a s, post a s → post' a s)
    (hf : ∀ e s, fail e s → fail' e s) : Ends post' fail' r := by
  obtain ⟨e | a, s⟩ := r
  · exact hf e s h
  · exact hp a s h

theorem Ends.bind (h : Ends post fail (x s)) (hf : ∀ a s, post a s → Ends next fail (f a s)) :
    Ends next fail ((x >>= f) s) := by
  rw [run_bind]
  rcases hx : x s with ⟨e | a, s'⟩
  · rw [hx] at h
    exact h
  · rw [hx] at h
    exact hf a s' h

/-- A run that cannot fail. -/
theorem Ends.exists {r : Except ε α × σ} (h : Ends post (fun _ _ => False) r) : ∃ a s, r = (.ok a, s) ∧ post a s := by
  obtain ⟨e | a, s⟩ := r
  · exact h.elim
  · exact ⟨a, s, rfl, h⟩

/-- What holds after a success. -/
theorem Ends.of_ok {r : Except ε α × σ} {a : α} (h : Ends post fail r) (hr : r.1 = .ok a) : post a r.2 := by
  obtain ⟨e | b, s⟩ := r
  · cases hr
  · cases hr
    exact h

/-! ### What an action preserves -/

/-- What every single step keeps is kept by any number of steps. -/
theorem holds_of_steps {γ : Type} {Step : γ → γ → Prop} {P : γ → Prop} {c d : γ}
    (hs : Relation.ReflTransGen Step c d) (hc : P c) (h : ∀ {c d}, Step c d → P c → P d) : P d := by
  induction hs with
  | refl => exact hc
  | tail _ hs ih => exact h hs ih

/-- Whatever the action answers, it leads from a state with the invariant to another one. -/
def Preserves (I : σ → Prop) (x : ExceptT ε (StateM σ) α) : Prop := ∀ s, I s → I (x s).2

namespace Preserves

variable {I : σ → Prop}

theorem pure (a : α) : Preserves I (Pure.pure a : ExceptT ε (StateM σ) α) := fun _ h => h

theorem throw (e : ε) : Preserves I (MonadExcept.throw e : ExceptT ε (StateM σ) α) := fun _ h => h

theorem bind (h : Preserves I x) (hf : ∀ a, Preserves I (f a)) : Preserves I (x >>= f) := by
  intro s hs
  have hx := h s hs
  rw [run_bind]
  rcases hr : x s with ⟨e | a, s'⟩
  · rw [hr] at hx
    exact hx
  · rw [hr] at hx
    exact hf a s' hx

/-- Reading the state shows a state with the invariant. -/
theorem bind_get {f : σ → ExceptT ε (StateM σ) β} (hf : ∀ s, I s → Preserves I (f s)) :
    Preserves I (get >>= f) := fun s hs => hf s hs s hs

theorem modify {g : σ → σ} (hg : ∀ s, I s → I (g s)) :
    Preserves I (modify g : ExceptT ε (StateM σ) PUnit) := hg

theorem discard (h : Preserves I x) : Preserves I (Functor.discard x) := by
  have hx : Functor.discard x = (x >>= fun _ => Pure.pure ()) := map_eq_pure_bind _ x
  exact hx ▸ h.bind fun _ => .pure ()

theorem mapM {γ : Type} {g : γ → ExceptT ε (StateM σ) α} (hg : ∀ c, Preserves I (g c)) (l : List γ) :
    Preserves I (l.mapM g) := by
  induction l with
  | nil => exact pure []
  | cons c l ih =>
    rw [List.mapM_cons]
    exact (hg c).bind fun _ => ih.bind fun _ => pure _

/-- A loop preserves what its body does, whether it ends early or not. -/
theorem forIn {γ : Type} {l : List γ} {g : γ → β → ExceptT ε (StateM σ) (ForInStep β)}
    (hg : ∀ c ∈ l, ∀ b, Preserves I (g c b)) (b : β) : Preserves I (ForIn.forIn l b g) := by
  induction l generalizing b with
  | nil => exact pure b
  | cons c l ih =>
    rw [List.forIn_cons]
    refine (hg c List.mem_cons_self b).bind fun step => ?_
    cases step with
    | done b => exact pure b
    | yield b => exact ih (fun c' hc => hg c' (List.mem_cons_of_mem c hc)) b

end Preserves

end RichText.Effects
