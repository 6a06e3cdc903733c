import ConfigLoader.Proofs.Modules.Alike

/-! # Runs on other files

An evaluation that ends with a value read no files but those of the modules that are remembered
after it. On other files it is repeated if look-ups find the same and these files hold the same.
-/
namespace ConfigLoader.Modules
open Script (Item Failure Code Statement)

/-- When one run ends with a value, another one does the same, if the files of all modules that are
remembered then hold the same in two file trees. -/
def Repeats {α : Type} (t u : FileTree) (r q : Run α) : Prop :=
  ∀ s a s₁, r.run.run s = (.ok a, s₁) → (∀ e ∈ s₁.cache, t.bytes e.1 = u.bytes e.1) →
    q.run.run s = (.ok a, s₁)

def Retains {α : Type} (r : Run α) : Prop := ∀ s, ∀ e ∈ s.cache, e ∈ (r.run.run s).2.cache

theorem retains_of_grown {α : Type} {r : Run α}
    (h : ∀ start, Respects (fun s s' => s = s' ∧ Grown start s) r) : Retains r := by
  intro s e he
  obtain ⟨new, h1, -⟩ := (h s.cache).kept (grown_start s)
  rw [h1]
  exact List.mem_append_left _ he

variable {t u : FileTree} {α β : Type}

namespace Repeats

theorem refl (r : Run α) : Repeats t u r r := fun _ _ _ h _ => h

theorem bind {r q : Run α} {f g : α → Run β} (hr : Repeats t u r q)
    (hf : ∀ a, Repeats t u (f a) (g a)) (hk : ∀ a, Retains (f a)) :
    Repeats t u (r >>= f) (q >>= g) := by
  intro s b s₂ h hb
  rw [run_bind] at h ⊢
  rcases hx : r.run.run s with ⟨e | a, s₁⟩
  · rw [hx] at h
    cases h
  · rw [hx] at h
    have h : (f a).run.run s₁ = (.ok b, s₂) := h
    have hfirst := hr s a s₁ hx fun e he => hb e (by
      have hm := hk a s₁ e he
      rw [h] at hm
      exact hm)
    rw [hfirst]
    exact hf a s₁ b s₂ h hb

end Repeats

variable {c : Surroundings}

abbrev Surroundings.showing (c : Surroundings) (u : FileTree) : Surroundings := { c with tree := u }

section
variable {R : Option Value → Run Item} {Q : Option Value → Run Item}

theorem perform_repeats (hr : ∀ id, Repeats t u (R id) (Q id)) (hc : c.compile = none)
    (code : Code) (m : Module) (st : Statement) :
    Repeats t u (perform R code m st) (perform Q code m st) := by
  have hsteady := fun start => @grown_steady c start fun f hf => by rw [hc] at hf; cases hf
  cases st with
  | require id as => exact (hr id).bind (fun a => .refl _) fun a =>
      retains_of_grown fun start => (hsteady start).setField m as a
  | handOn id => exact (hr _).bind (fun a => .refl _) fun a =>
      retains_of_grown fun start => (hsteady start).setExports m a
  | _ => exact .refl _

theorem performAll_repeats (hr : ∀ id, Repeats t u (R id) (Q id)) (hc : c.compile = none)
    (hg : ∀ start id, Respects (fun s s' => s = s' ∧ Grown start s) (R id))
    (code : Code) (m : Module) (sts : List Statement) :
    Repeats t u (performAll R code m sts) (performAll Q code m sts) := by
  have hsteady := fun start => @grown_steady c start fun f hf => by rw [hc] at hf; cases hf
  induction sts with
  | nil => exact .refl _
  | cons st sts ih =>
    exact (perform_repeats hr hc code m st).bind (fun _ => ih) fun _ =>
      retains_of_grown fun start => (hsteady start).performAll (hg start) code m sts

theorem openFile_congr (e : Engine) (hd : nearestDescription t = nearestDescription u) {file : Text}
    (hb : t.bytes file = u.bytes file) : openFile e t file = openFile e u file := by
  simp only [openFile, kindOf, textOf, hd, hb]

theorem runPlain_repeats (hr : ∀ id, Repeats t u (R id) (Q id)) (hc : c.compile = none)
    (hg : ∀ start id, Respects (fun s s' => s = s' ∧ Grown start s) (R id))
    (hd : nearestDescription t = nearestDescription u) {m : Module}
    (hb : t.bytes m.file = u.bytes m.file) :
    Repeats t u (runPlain (c.showing t) R m) (runPlain (c.showing u) Q m) := by
  have hsteady := fun start => @grown_steady c start fun f hf => by rw [hc] at hf; cases hf
  have hrun : ∀ code start, Respects (fun s s' => s = s' ∧ Grown start s) (runCode R code m) :=
    fun code start => (hsteady start).performAll (hg start) code m _
  unfold runPlain
  dsimp only
  rw [openFile_congr c.engine hd hb]
  refine (Repeats.refl _).bind (fun opened => ?_) fun opened => ?_
  · cases opened with
    | script text =>
      exact (Repeats.refl _).bind (fun code => performAll_repeats hr hc hg code m _) fun code =>
        retains_of_grown (hrun code)
    | esModule r => cases r <;> exact .refl _
  · cases opened with
    | script text =>
      exact retains_of_grown fun start => (Steady.script text).bind fun code => hrun code start
    | esModule r =>
      cases r with
      | ok fields => exact retains_of_grown fun start => (hsteady start).setPlace m.place _
      | error v => exact retains_of_grown fun start => Respects.throw _

theorem runFile_repeats (hr : ∀ id, Repeats t u (R id) (Q id)) (hc : c.compile = none)
    (hg : ∀ start id, Respects (fun s s' => s = s' ∧ Grown start s) (R id))
    (hd : nearestDescription t = nearestDescription u) {m : Module}
    (hb : t.bytes m.file = u.bytes m.file) :
    Repeats t u (runFile (c.showing t) R m) (runFile (c.showing u) Q m) := by
  have hread : readFile t m.file = readFile u m.file := by
    simp only [readFile, textOf, hb]
  have hlibrary : libraryError t m.file = libraryError u m.file := by
    simp only [libraryError, hb]
  have hplain := runPlain_repeats hr hc hg hd hb
  unfold runFile
  dsimp only [Surroundings.showing, Surroundings.extensions] at hplain ⊢
  rw [hread, hlibrary]
  generalize extensionOf _ (Path.name m.file) = extension
  split
  · exact .refl _
  · split
    · have hdocument : runDocument t m = runDocument u m := by
        simp only [runDocument, hread]
      rw [hdocument]
      exact .refl _
    · split
      · exact .refl _
      · rw [hc]
        exact hplain

end

/-- A module that was evaluated to its end is remembered, so its file is one of those that hold the
same. -/
theorem enter_repeats {file : Text} {r q : Nat → Run Unit}
    (hr : ∀ n, t.bytes file = u.bytes file → Repeats t u (r n) (q n)) (hk : ∀ n, Retains (r n)) :
    Repeats t u (enter file r) (enter file q) := by
  intro s a s₂ h hb
  have hrun : ∀ r : Nat → Run Unit, (enter file r).run.run s =
      (whenStopped (forget file) (r (s.heap.length + 1)) >>= fun _ => do
        return (← get).exportsOf (s.heap.length + 1) : Run Item).run.run
          { (newPlace.run.run s).2 with cache := s.cache ++ [(file, s.heap.length + 1)] } :=
    fun _ => rfl
  rw [hrun r, run_bind, run_whenStopped] at h
  rw [hrun q, run_bind, run_whenStopped]
  rcases hx : (r (s.heap.length + 1)).run.run
    { (newPlace.run.run s).2 with cache := s.cache ++ [(file, s.heap.length + 1)] } with ⟨e | v, s₁⟩
  · rw [hx] at h
    cases h
  · rw [hx] at h
    obtain rfl : s₁ = s₂ := congrArg Prod.snd h
    have hmem : (file, s.heap.length + 1) ∈ s₁.cache := by
      have hm := hk (s.heap.length + 1) { (newPlace.run.run s).2 with
        cache := s.cache ++ [(file, s.heap.length + 1)] } (file, s.heap.length + 1)
        (List.mem_append_right _ (List.mem_singleton_self _))
      rw [hx] at hm
      exact hm
    rw [hr _ (hb _ hmem) _ v s₁ hx hb]
    exact h

theorem load_repeats (file : Text) {r q : Nat → Run Unit}
    (hr : ∀ n, t.bytes file = u.bytes file → Repeats t u (r n) (q n)) (hk : ∀ n, Retains (r n)) :
    Repeats t u (load file r) (load file q) := by
  intro s
  rw [load_run file r, load_run file q]
  cases assoc? file s.cache with
  | some place => exact Repeats.refl (t := t) (u := u) _ s
  | none => exact enter_repeats hr hk s

/-- What a module exports is the same on files that answer look-ups alike and that hold the same for
the modules that are remembered. -/
theorem require_repeats (hc : c.compile = none) (hl : lookup t = lookup u)
    (hd : nearestDescription t = nearestDescription u) (depth : Nat) :
    ∀ parents id, Repeats t u (require (c.showing t) depth parents id)
      (require (c.showing u) depth parents id) := by
  have hsteady := fun start => @grown_steady (c.showing t) start fun f hf => by
    have hf : c.compile = some f := hf
    rw [hc] at hf
    cases hf
  induction depth with
  | zero => exact fun _ _ => .refl _
  | succ depth ih =>
    intro parents id
    have hresolve : ∀ request, resolve (c.showing t) parents request =
        resolve (c.showing u) parents request := by
      intro request
      simp only [resolve, Surroundings.extensions, hl]
    have hrun : ∀ file n start, Respects (fun s s' => s = s' ∧ Grown start s)
        (runFile (c.showing t) (require (c.showing t) depth (file :: parents))
          ⟨file, n, parents⟩) := fun file n start =>
      (hsteady start).runFile ((hsteady start).requires depth (file :: parents)) _
    have hload : ∀ file start, Respects (fun s s' => s = s' ∧ Grown start s)
        (load file fun n => runFile (c.showing t) (require (c.showing t) depth (file :: parents))
          ⟨file, n, parents⟩) := fun file start =>
      (hsteady start).load file fun n => hrun file n start
    refine (Repeats.refl _).bind (fun request => ?_) fun request => retains_of_grown fun start =>
      ((hsteady start).resolve parents request).bind fun file => hload file start
    rw [← hresolve request]
    refine (Repeats.refl _).bind (fun file => ?_) fun file => retains_of_grown (hload file)
    refine load_repeats file (fun n hbytes => ?_) fun n => retains_of_grown (hrun file n)
    exact runFile_repeats (ih (file :: parents)) hc
      (fun start id => (hsteady start).requires depth (file :: parents) id) hd hbytes

end ConfigLoader.Modules
