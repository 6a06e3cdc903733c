import ConfigLoader.Proofs.Modules.Memory
import ConfigLoader.Proofs.Modules.Steady

/-! # What is left of an evaluation

Two states are alike when they hold the same objects, modules and next number, and what they
remember of look-ups and projects is related. An evaluation only adds modules to those that were
remembered before it, and the new ones are forgotten but for those of packages.
-/
namespace ConfigLoader.Modules
open TypeScript.Project (Kept)

/-! ## States that are alike -/

structure Alike (M : Memory → Memory → Prop) (K : Kept → Kept → Prop) (s s' : State) : Prop where
  heap : s.heap = s'.heap
  cache : s.cache = s'.cache
  count : s.count = s'.count
  memory : M s.memory s'.memory
  projects : K s.projects s'.projects

section
variable {M : Memory → Memory → Prop} {K : Kept → Kept → Prop}

theorem find_alike {α : Type} {f : Find α} (hf : Respects M f) :
    Respects (Alike M K) (find f) := by
  intro s s' h
  obtain ⟨h1, h2⟩ := hf _ _ h.memory
  have hrun : ∀ s : State, (find f).run.run s =
      (lift (f.run.run s.memory).1 : Run α).run.run
        { s with memory := (f.run.run s.memory).2 } := fun _ => rfl
  rw [hrun s, hrun s', ← h1]
  exact Respects.lift _ _ _ ⟨h.heap, h.cache, h.count, h2, h.projects⟩

/-- States that are alike stay so, if look-ups and compilations respect what is remembered. -/
theorem alike_steady {c : Surroundings}
    (hM : ∀ q : Query, Respects M (q.ask c.engine c.tree c.extensions))
    (hK : ∀ f, c.compile = some f → ∀ file text, Respects (Alike M K) (f file text)) :
    Steady c (fun _ => True) (Alike M K) where
  heap h := h.heap
  cache h := h.cache
  count h := h.count
  withHeap _ h := ⟨rfl, h.cache, h.count, h.memory, h.projects⟩
  withCount _ h := ⟨h.heap, h.cache, rfl, h.memory, h.projects⟩
  withNotes _ h := ⟨h.heap, h.cache, h.count, h.memory, h.projects⟩
  free _ _ := trivial
  remember n h _ := ⟨h.heap, by rw [h.cache], h.count, h.memory, h.projects⟩
  forget _ h := ⟨h.heap, by simp only [forget, h.cache], h.count, h.memory, h.projects⟩
  lookup parent request :=
    find_alike (Respects.of_map (fun _ _ => Sum.inl.inj) (hM (.lookup parent request)))
  opens file := find_alike (Respects.of_map (fun _ _ => Sum.inr.inj) (hM (.opening file)))
  compile := hK

end

/-! ## Modules that are new -/

/-- The modules of a start are remembered, and after them others of other files. -/
def Grown (start : List (Text × Nat)) (s : State) : Prop :=
  ∃ new, s.cache = start ++ new ∧ ∀ e ∈ new, assoc? e.1 start = none

theorem grown_start (s : State) : Grown s.cache s := ⟨[], by simp, by simp⟩

theorem Grown.of_cache {start : List (Text × Nat)} {s t : State} (hs : Grown start s)
    (ht : t.cache = s.cache) : Grown start t := by
  obtain ⟨new, h1, h2⟩ := hs
  exact ⟨new, ht.trans h1, h2⟩

theorem assoc?_append_none {α β : Type} [BEq α] [LawfulBEq α] {k : α} {l r : List (α × β)}
    (h : assoc? k (l ++ r) = none) : assoc? k l = none :=
  assoc?_none.mpr fun e he => assoc?_none.mp h e (List.mem_append_left _ he)

theorem Grown.remember {start : List (Text × Nat)} {s : State} (hs : Grown start s) {file : Text}
    (hfile : assoc? file s.cache = none) (n : Nat) :
    Grown start { s with cache := s.cache ++ [(file, n)] } := by
  obtain ⟨new, h1, h2⟩ := hs
  refine ⟨new ++ [(file, n)], by rw [h1, List.append_assoc], ?_⟩
  intro e he
  rcases List.mem_append.mp he with he | he
  · exact h2 e he
  · rw [List.mem_singleton.mp he]
    rw [h1] at hfile
    exact assoc?_append_none hfile

theorem Grown.forget {start : List (Text × Nat)} {s : State} (hs : Grown start s) {file : Text}
    (hfile : assoc? file start = none) : Grown start (forget file s) := by
  obtain ⟨new, h1, h2⟩ := hs
  refine ⟨new.filter fun e => e.1 != file, ?_, ?_⟩
  · have hstart : start.filter (fun e => e.1 != file) = start := by
      refine List.filter_eq_self.mpr fun e he => ?_
      simpa using assoc?_none.mp hfile e he
    simp only [Modules.forget, h1, List.filter_append, hstart]
  · intro e he
    exact h2 e (List.mem_filter.mp he).1

@[simp] theorem find_cache {α : Type} (f : Find α) (s : State) :
    ((find f).run.run s).2.cache = s.cache := by
  show ((lift (f.run.run s.memory).1 : Run α).run.run { s with memory := _ }).2.cache = s.cache
  cases (f.run.run s.memory).1 <;> rfl

theorem grown_steady {c : Surroundings} (start : List (Text × Nat))
    (hc : ∀ f, c.compile = some f → ∀ file text s, ((f file text).run.run s).2.cache = s.cache) :
    Steady c (fun file => assoc? file start = none) (fun s s' => s = s' ∧ Grown start s) where
  heap h := congrArg State.heap h.1
  cache h := congrArg State.cache h.1
  count h := congrArg State.count h.1
  withHeap _ h := ⟨by rw [h.1], h.2.of_cache rfl⟩
  withCount _ h := ⟨by rw [h.1], h.2.of_cache rfl⟩
  withNotes _ h := ⟨by rw [h.1], h.2.of_cache rfl⟩
  free h hfile := by
    obtain ⟨new, h1, -⟩ := h.2
    rw [h1] at hfile
    exact assoc?_append_none hfile
  remember n h hfile := ⟨by rw [h.1], h.2.remember hfile n⟩
  forget hfile h := ⟨by rw [h.1], h.2.forget hfile⟩
  lookup parent request := Respects.of_kept fun s hs => hs.of_cache (find_cache _ s)
  opens file := Respects.of_kept fun s hs => hs.of_cache (find_cache _ s)
  compile f hf file text := Respects.of_kept fun s hs => hs.of_cache (hc f hf file text s)

/-- When the modules that are new are forgotten, those of the start are left, and no other where
none belongs to a package. -/
theorem Grown.forgetNew {s t : State} (h : Grown s.cache t)
    (hp : ∀ e ∈ t.cache, isPackageFile e.1 = true → (assoc? e.1 s.cache).isSome = true) :
    (forgetNew s t).cache = s.cache := by
  obtain ⟨new, h1, h2⟩ := h
  have hold : s.cache.filter (fun e => (assoc? e.1 s.cache).isSome || isPackageFile e.1) =
      s.cache := by
    refine List.filter_eq_self.mpr fun e he => ?_
    cases ha : assoc? e.1 s.cache with
    | none => exact absurd rfl (assoc?_none.mp ha e he)
    | some n => rfl
  have hnew : new.filter (fun e => (assoc? e.1 s.cache).isSome || isPackageFile e.1) = [] := by
    refine List.filter_eq_nil_iff.mpr fun e he => ?_
    have hn := h2 e he
    have hnot : isPackageFile e.1 = false := by
      cases hpk : isPackageFile e.1 with
      | false => rfl
      | true =>
        have hk := hp e (by rw [h1]; exact List.mem_append_right _ he) hpk
        rw [hn] at hk
        cases hk
    simp [hn, hnot]
  simp only [Modules.forgetNew, h1, List.filter_append, hold, hnew, List.append_nil]

end ConfigLoader.Modules
