import ConfigLoader.Proofs.Modules.Paths

/-! # Evaluations in two surroundings

Surroundings that differ in their files and in how they compile give an evaluation the same course,
as long as they agree in every event on the way: they settle the look-up alike and the file that it
finds holds the same in both, they tell the kind of the file alike, or they compile the source alike.
-/
namespace ConfigLoader.Modules
open Script (Item Code Statement)

/-- Surroundings that differ in nothing but the files and how sources are compiled. -/
structure Matching (c c' : Surroundings) : Prop where
  engine : c'.engine = c.engine
  package : c'.package = c.package
  version : c'.version = c.version
  compile : c'.compile.isSome = c.compile.isSome

variable {c c' : Surroundings}

theorem Matching.extensions (h : Matching c c') : c'.extensions = c.extensions := by
  rw [Surroundings.extensions, h.compile, Surroundings.extensions]

def Agree (c c' : Surroundings) : Event → Prop
  | .asked parent request m =>
    (lookup c'.tree c.extensions parent request).run.run m =
        (lookup c.tree c.extensions parent request).run.run m ∧
      ∀ file, ((lookup c.tree c.extensions parent request).run.run m).1 = .ok (some file) →
        c'.tree.bytes file = c.tree.bytes file
  | .opened file m =>
    (kindOf c'.tree file).run.run m = (kindOf c.tree file).run.run m
  | .compiled file source kept => ∀ f f', c.compile = some f → c'.compile = some f' →
      ∀ s, s.projects = kept → (f' file source).run.run s = (f file source).run.run s
  | _ => True

def Twin {α : Type} (c c' : Surroundings) (r r' : Run α) (e : Course) : Prop :=
  ∀ s, (∀ x ∈ e s, Agree c c' x) → r'.run.run s = r.run.run s

namespace Twin
variable {α β : Type} {r r' : Run α} {e : Course}

theorem same (r : Run α) (e : Course) : Twin c c' r r e := fun _ _ => rfl

theorem andThen {f f' : α → Run β} {g : α → Course} (hr : Twin c c' r r' e)
    (hf : ∀ s a, (∀ x ∈ e s, Agree c c' x) → (r.run.run s).1 = .ok a →
      Twin c c' (f a) (f' a) (g a)) :
    Twin c c' (r >>= f) (r' >>= f') (e.andThen r g) := by
  intro s h
  have he := fun x hx => h x (List.mem_append_left _ hx)
  rw [run_bind, run_bind, hr s he]
  cases hx : r.run.run s with
  | mk x t =>
    cases x with
    | error stop => rfl
    | ok a =>
      refine hf s a he (by rw [hx]) t fun y hy => h y (List.mem_append_right _ ?_)
      rw [hx]
      exact hy

theorem bind_same (hr : Twin c c' r r' e) (f : α → Run β) :
    Twin c c' (r >>= f) (r' >>= f) e := by
  intro s h
  rw [run_bind, run_bind, hr s h]

theorem whenStopped (f : State → State) (hr : Twin c c' r r' e) :
    Twin c c' (whenStopped f r) (whenStopped f r') e := by
  intro s h
  rw [run_whenStopped, run_whenStopped, hr s h]

end Twin

/-! ## Programs -/

section
variable {require require' : Option Value → Run Item} {E : Option Value → Course}

theorem perform_twin (hr : ∀ id, Twin c c' (require id) (require' id) (E id)) (code : Code)
    (m : Module) (st : Statement) :
    Twin c c' (perform require code m st) (perform require' code m st) (statementEvents E st) := by
  cases st with
  | require id as => exact (hr id).bind_same _
  | handOn id => exact (hr _).bind_same _
  | _ => exact .same _ _

theorem performAll_twin (hr : ∀ id, Twin c c' (require id) (require' id) (E id)) (code : Code)
    (m : Module) (sts : List Statement) :
    Twin c c' (performAll require code m sts) (performAll require' code m sts)
      (programEvents require E code m sts) := by
  induction sts with
  | nil => exact .same _ _
  | cons st sts ih => exact (perform_twin hr code m st).andThen fun _ _ _ _ => ih

theorem runPlain_twin (hc : Matching c c')
    (hr : ∀ id, Twin c c' (require id) (require' id) (E id)) {m : Module}
    (hbytes : c'.tree.bytes m.file = c.tree.bytes m.file) :
    Twin c c' (runPlain c require m) (runPlain c' require' m) (plainEvents c require E m) := by
  have hopened : Twin c c' (find (openFile c.engine c.tree m.file))
      (find (openFile c'.engine c'.tree m.file)) fun s => [.opened m.file s.memory] := by
    intro s h
    have hkind : (kindOf c'.tree m.file).run.run s.memory =
      (kindOf c.tree m.file).run.run s.memory := h _ (List.mem_singleton_self _)
    have htext : textOf c'.tree m.file = textOf c.tree m.file := by
      simp only [textOf, hbytes]
    rw [find_run, find_run, hc.engine, openFile_run c.engine c'.tree, hkind, htext, ← openFile_run]
  refine hopened.andThen fun _ opened _ _ => ?_
  cases opened with
  | script text => exact (Twin.same _ _).andThen fun _ code _ _ => performAll_twin hr code m _
  | esModule r => cases r <;> exact .same _ _

theorem runCompiled_twin (hr : ∀ id, Twin c c' (require id) (require' id) (E id))
    {f f' : Text → Text → Run Code} (hf : c.compile = some f) (hf' : c'.compile = some f')
    (m : Module) :
    Twin c c' (readFile c.tree m.file >>= fun text => f m.file text >>= fun code =>
        runCode require code m)
      (readFile c.tree m.file >>= fun text => f' m.file text >>= fun code =>
        runCode require' code m)
      (compiledEvents f c require E m) := by
  refine (Twin.same _ _).andThen fun _ text _ _ => Twin.andThen ?_ fun _ code _ _ =>
    performAll_twin hr code m _
  exact fun s h => h _ (List.mem_singleton_self _) f f' hf hf' s rfl

theorem runFile_twin (hc : Matching c c')
    (hr : ∀ id, Twin c c' (require id) (require' id) (E id)) {m : Module}
    (hbytes : c'.tree.bytes m.file = c.tree.bytes m.file) :
    Twin c c' (runFile c require m) (runFile c' require' m) (fileEvents c require E m) := by
  have hread : readFile c'.tree m.file = readFile c.tree m.file := by
    simp only [readFile, textOf, hbytes]
  have hdocument : runDocument c'.tree m = runDocument c.tree m := by
    simp only [runDocument, hread]
  have hlibrary : libraryError c'.tree m.file = libraryError c.tree m.file := by
    simp only [libraryError, hbytes]
  have hsome := hc.compile
  unfold runFile fileEvents
  rw [hc.extensions, hc.package, hc.version, hread, hdocument, hlibrary]
  dsimp only
  split
  · exact .same _ _
  · split
    · exact .same _ _
    · split
      · exact .same _ _
      · cases hf : c.compile with
        | none =>
          rw [hf, Option.isSome_none, Option.isSome_eq_false_iff, Option.isNone_iff_eq_none] at hsome
          rw [hsome]
          exact runPlain_twin hc hr hbytes
        | some f =>
          rw [hf, Option.isSome_some, Option.isSome_iff_exists] at hsome
          obtain ⟨f', hf'⟩ := hsome
          rw [hf']
          cases compiledExtensions.contains _ with
          | false => exact runPlain_twin hc hr hbytes
          | true => exact runCompiled_twin hr hf hf' m

end

/-! ## Modules -/

theorem enter_twin {file : Text} {evaluate evaluate' : Nat → Run Unit} {E : Nat → Course}
    (he : ∀ n, Twin c c' (evaluate n) (evaluate' n) (E n)) :
    Twin c c' (enter file evaluate) (enter file evaluate') (enterEvents file evaluate E) := by
  intro s h
  rw [enter_run, enter_run]
  exact ((he (s.heap.length + 1)).whenStopped (forget file)).bind_same _ (entering file s)
    fun x hx => h x (List.mem_cons_of_mem _ (List.mem_append_left _ hx))

theorem load_twin {file : Text} {evaluate evaluate' : Nat → Run Unit} {E : Nat → Course}
    (he : ∀ n, Twin c c' (evaluate n) (evaluate' n) (E n)) :
    Twin c c' (load file evaluate) (load file evaluate') (loadEvents file evaluate E) := by
  intro s h
  rw [load_run, load_run]
  unfold loadEvents at h
  cases hfile : assoc? file s.cache with
  | some place => rfl
  | none =>
    rw [hfile] at h
    exact enter_twin he s h

theorem resolve_twin (hc : Matching c c') (parents : List Text) (request : Text) :
    Twin c c' (resolve c parents request) (resolve c' parents request)
      fun s => [.asked (parents.headD []) request s.memory] := by
  intro s h
  obtain ⟨hsame, -⟩ := h _ (List.mem_singleton_self _)
  unfold resolve
  rw [run_bind, run_bind, find_run, find_run, hc.extensions, hsame]

theorem resolve_found {parents : List Text} {request file : Text} {s : State}
    (h : ((resolve c parents request).run.run s).1 = .ok file) :
    ((lookup c.tree c.extensions (parents.headD []) request).run.run s.memory).1 =
      .ok (some file) := by
  unfold resolve at h
  rw [run_bind, find_run] at h
  cases hr : ((lookup c.tree c.extensions (parents.headD []) request).run.run s.memory).1 with
  | error f =>
    rw [hr] at h
    cases h
  | ok r =>
    rw [hr] at h
    cases r with
    | none => cases h
    | some f =>
      cases h
      rfl

/-- A request comes to the same in surroundings that agree in its events, by induction on the depth
of requests. -/
theorem require_twin (hc : Matching c c') (depth : Nat) : ∀ parents id,
    Twin c c' (require c depth parents id) (require c' depth parents id)
      (requireEvents c depth parents id) := by
  induction depth with
  | zero => exact fun _ _ => .same _ _
  | succ depth ih =>
    intro parents id
    refine (Twin.same _ _).andThen fun _ request _ _ =>
      (resolve_twin hc parents request).andThen fun s file hs hfile => load_twin fun place => ?_
    obtain ⟨-, hbytes⟩ := hs _ (List.mem_singleton_self _)
    exact runFile_twin (m := ⟨file, place, parents⟩) hc (ih (file :: parents))
      (hbytes file (resolve_found hfile))

theorem entry_twin (hc : Matching c c') (script file : Text) (code : Code) :
    Twin c c' (runEntry c script file code) (runEntry c' script file code)
      (entryEvents c script file code) := by
  unfold runEntry
  rw [hc.engine]
  exact (Twin.same _ _).andThen fun _ place _ _ =>
    (performAll_twin (require_twin hc c.engine.calls [file, script]) code ⟨file, place, [script]⟩
      code.statements).bind_same _

end ConfigLoader.Modules
