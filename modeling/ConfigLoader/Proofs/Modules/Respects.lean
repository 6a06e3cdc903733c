import ConfigLoader.Modules.Evaluation

/-! # Runs from states that are alike

A run that can be stopped respects a relation between states when it cannot tell states apart that
are related: it ends with the same, and the states that it leaves are related again.
-/
namespace ConfigLoader.Modules

theorem run_bind {σ ε α β : Type} (r : ExceptT ε (StateM σ) α) (f : α → ExceptT ε (StateM σ) β)
    (s : σ) : (r >>= f).run.run s = match (r.run.run s).1 with
      | .ok a => (f a).run.run (r.run.run s).2
      | .error e => (.error e, (r.run.run s).2) := by
  simp only [ExceptT.run_bind, StateT.run_bind]
  rcases r.run.run s with ⟨a | e, t⟩ <;> rfl

theorem run_get_bind {σ ε α : Type} (f : σ → ExceptT ε (StateM σ) α) (s : σ) :
    (get >>= f).run.run s = (f s).run.run s := rfl

theorem run_whenStopped {α : Type} (f : State → State) (r : Run α) (s : State) :
    (whenStopped f r).run.run s = match (r.run.run s).1 with
      | .ok a => (.ok a, (r.run.run s).2)
      | .error e => (.error e, f (r.run.run s).2) := by
  simp only [whenStopped, ExceptT.run_mk, StateT.run_bind]
  rcases r.run.run s with ⟨a | e, t⟩ <;> rfl

theorem load_run (file : Text) (r : Nat → Run Unit) (s : State) :
    (load file r).run.run s = (match assoc? file s.cache with
      | some place => do return (← get).exportsOf place
      | none => enter file r : Run Script.Item).run.run s := rfl

/-- From states that are alike a run ends with the same, and leaves states that are alike. -/
def Respects {σ ε α : Type} (R : σ → σ → Prop) (r : ExceptT ε (StateM σ) α) : Prop :=
  ∀ s s', R s s' → (r.run.run s).1 = (r.run.run s').1 ∧ R (r.run.run s).2 (r.run.run s').2

namespace Respects
variable {σ ε α β : Type} {R : σ → σ → Prop}

theorem pure (a : α) : Respects R (pure a : ExceptT ε (StateM σ) α) := fun _ _ h => ⟨rfl, h⟩

theorem throw (e : ε) : Respects R (throw e : ExceptT ε (StateM σ) α) := fun _ _ h => ⟨rfl, h⟩

theorem bind {r : ExceptT ε (StateM σ) α} {f : α → ExceptT ε (StateM σ) β}
    (hr : Respects R r) (hf : ∀ a, Respects R (f a)) : Respects R (r >>= f) := by
  intro s s' h
  obtain ⟨h1, h2⟩ := hr s s' h
  rw [run_bind r f s, run_bind r f s', ← h1]
  cases (r.run.run s).1 with
  | ok a => exact hf a _ _ h2
  | error e => exact ⟨rfl, h2⟩

theorem map (f : α → β) {r : ExceptT ε (StateM σ) α} (hr : Respects R r) :
    Respects R (f <$> r) := by
  rw [map_eq_pure_bind]
  exact hr.bind fun a => pure (f a)

theorem of_map {f : α → β} (hf : Function.Injective f) {r : ExceptT ε (StateM σ) α}
    (hr : Respects R (f <$> r)) : Respects R r := by
  intro s s' h
  have hmap : ∀ s : σ, ((f <$> r).run.run s).1 = (r.run.run s).1.map f ∧
      ((f <$> r).run.run s).2 = (r.run.run s).2 := by
    intro s
    rw [map_eq_pure_bind, run_bind]
    cases (r.run.run s).1 <;> exact ⟨rfl, rfl⟩
  obtain ⟨h1, h2⟩ := hr s s' h
  rw [(hmap s).1, (hmap s').1] at h1
  rw [(hmap s).2, (hmap s').2] at h2
  refine ⟨?_, h2⟩
  cases ha : (r.run.run s).1 <;> cases hb : (r.run.run s').1 <;> rw [ha, hb] at h1
  · exact congrArg Except.error (Except.error.inj h1)
  · cases h1
  · cases h1
  · exact congrArg Except.ok (hf (Except.ok.inj h1))

theorem get_bind {f : σ → ExceptT ε (StateM σ) α} (hf : ∀ s s', R s s' →
    ((f s).run.run s).1 = ((f s').run.run s').1 ∧
      R ((f s).run.run s).2 ((f s').run.run s').2) : Respects R (get >>= f) := hf

theorem of_kept {P : σ → Prop} {r : ExceptT ε (StateM σ) α}
    (h : ∀ s, P s → P (r.run.run s).2) : Respects (fun s s' => s = s' ∧ P s) r := by
  rintro s s' ⟨rfl, hs⟩
  exact ⟨rfl, rfl, h s hs⟩

theorem kept {P : σ → Prop} {r : ExceptT ε (StateM σ) α}
    (hr : Respects (fun s s' => s = s' ∧ P s) r) {s : σ} (hs : P s) : P (r.run.run s).2 :=
  (hr s s ⟨rfl, hs⟩).2.2

theorem of_settled {P Q : σ → Prop} {r : ExceptT ε (StateM σ) α} {a : Except ε α}
    (hp : ∀ s, P s → (r.run.run s).1 = a ∧ P (r.run.run s).2)
    (hq : ∀ s, Q s → (r.run.run s).1 = a ∧ Q (r.run.run s).2) :
    Respects (fun s s' => P s ∧ Q s') r := by
  rintro s s' ⟨hs, hs'⟩
  obtain ⟨h1, h2⟩ := hp s hs
  obtain ⟨h3, h4⟩ := hq s' hs'
  exact ⟨h1.trans h3.symm, h2, h4⟩

end Respects
end ConfigLoader.Modules
