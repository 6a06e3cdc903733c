import Mathlib.Data.List.Nodup
import ConfigLoader.Proofs.Modules.Paths

/-! # Modules that are evaluated to their end

Along a path every module that is new is being evaluated or was evaluated to its end, once. So the
modules that an evaluation leaves remembered are those of its start and those that it completed. The
texts of ES modules are evaluated apart from that: each once, and from then on it stays as it was.
-/
namespace ConfigLoader.Modules
open TypeScript.Project (Kept)

def State.files (s : State) : List Text := s.cache.map Prod.fst

/-- The files whose modules were evaluated to their end, in this order. -/
def completed (es : List Event) : List Text := es.filterMap Event.completed?

@[simp] theorem completed_append (es fs : List Event) :
    completed (es ++ fs) = completed es ++ completed fs := List.filterMap_append

/-- How the modules that are remembered came to be so since a start: they were there, or they were
evaluated to their end, or they are being evaluated. -/
structure Accounted (start : List Text) (es : List Event) (x : Standing) : Prop where
  nested : x.underWay.Nodup
  loaded : ∀ f, f ∈ x.loaded ↔ f ∈ start ∨ f ∈ completed es ∨ f ∈ x.underWay
  underWay : ∀ f ∈ x.underWay, f ∉ start ∧ f ∉ completed es ∧ .began f ∈ es
  completed : ∀ f ∈ completed es, f ∉ start ∧ .began f ∈ es
  once : (Modules.completed es).Nodup

variable {c : Surroundings} {learn : Text → Text → Kept → Kept} {start : List Text}
  {es fs : List Event} {x y : Standing}

theorem accounted_start (h : x.underWay = []) : Accounted x.loaded [] x := by
  refine ⟨by simp [h], fun f => by simp [Modules.completed, h], ?_, ?_, .nil⟩
  · simp [h]
  · simp [Modules.completed]

theorem Accounted.other {e : Event} (h : Accounted start es x) (he : e.completed? = none)
    (hloaded : y.loaded = x.loaded) (hunder : y.underWay = x.underWay) :
    Accounted start (es ++ [e]) y := by
  have hc : Modules.completed (es ++ [e]) = Modules.completed es := by
    simp [Modules.completed, he]
  refine ⟨hunder ▸ h.nested, fun f => ?_, fun f hf => ?_, fun f hf => ?_, hc ▸ h.once⟩
  · rw [hc, hloaded, hunder]
    exact h.loaded f
  · rw [hunder] at hf
    obtain ⟨h1, h2, h3⟩ := h.underWay f hf
    exact ⟨h1, hc ▸ h2, List.mem_append_left _ h3⟩
  · rw [hc] at hf
    obtain ⟨h1, h2⟩ := h.completed f hf
    exact ⟨h1, List.mem_append_left _ h2⟩

theorem Accounted.began {file : Text} (h : Accounted start es x) (hfile : file ∉ x.loaded)
    (due : Option Text) : Accounted start (es ++ [.began file])
      { x with loaded := x.loaded ++ [file], underWay := file :: x.underWay, due := due } := by
  have hc : Modules.completed (es ++ [.began file]) = Modules.completed es := by
    simp [Modules.completed, Event.completed?]
  have hnot : file ∉ start ∧ file ∉ Modules.completed es ∧ file ∉ x.underWay := by
    have := mt (h.loaded file).mpr hfile
    tauto
  refine ⟨List.nodup_cons.mpr ⟨hnot.2.2, h.nested⟩, fun f => ?_, fun f hf => ?_, fun f hf => ?_,
    hc ▸ h.once⟩
  · rw [hc]
    simp only [List.mem_append, List.mem_cons, h.loaded f]
    tauto
  · rw [hc]
    rcases List.mem_cons.mp hf with rfl | hf
    · exact ⟨hnot.1, hnot.2.1, by simp⟩
    · obtain ⟨h1, h2, h3⟩ := h.underWay f hf
      exact ⟨h1, h2, List.mem_append_left _ h3⟩
  · rw [hc] at hf
    obtain ⟨h1, h2⟩ := h.completed f hf
    exact ⟨h1, List.mem_append_left _ h2⟩

theorem Accounted.ended {file : Text} {outer : List Text} (h : Accounted start es x)
    (hunder : x.underWay = file :: outer) : Accounted start (es ++ [.completed file])
      { x with underWay := outer } := by
  have hc : Modules.completed (es ++ [.completed file]) = Modules.completed es ++ [file] := by
    simp [Modules.completed, Event.completed?]
  have hnested := h.nested
  rw [hunder] at hnested
  obtain ⟨hnew, houter⟩ := List.nodup_cons.mp hnested
  obtain ⟨h1, h2, h3⟩ := h.underWay file (by simp [hunder])
  refine ⟨houter, fun f => ?_, fun f hf => ?_, fun f hf => ?_, ?_⟩
  · rw [hc, h.loaded f, hunder]
    simp only [List.mem_append, List.mem_cons]
    tauto
  · rw [hc]
    obtain ⟨g1, g2, g3⟩ := h.underWay f (by simp [hunder, hf])
    have hne : f ≠ file := fun he => hnew (he ▸ hf)
    exact ⟨g1, by simp [g2, hne], List.mem_append_left _ g3⟩
  · rw [hc] at hf
    rcases List.mem_append.mp hf with hf | hf
    · obtain ⟨g1, g2⟩ := h.completed f hf
      exact ⟨g1, List.mem_append_left _ g2⟩
    · rw [List.mem_singleton.mp hf]
      exact ⟨h1, List.mem_append_left _ h3⟩
  · rw [hc]
    exact h.once.append (List.nodup_singleton _) (by simpa using h2)

theorem Accounted.stopped {file : Text} {outer : List Text} (h : Accounted start es x)
    (hunder : x.underWay = file :: outer) : Accounted start (es ++ [.stopped file])
      { x with underWay := outer, loaded := x.loaded.filter (· != file) } := by
  have hc : Modules.completed (es ++ [.stopped file]) = Modules.completed es := by
    simp [Modules.completed, Event.completed?]
  have hnested := h.nested
  rw [hunder] at hnested
  obtain ⟨hnew, houter⟩ := List.nodup_cons.mp hnested
  obtain ⟨h1, h2, -⟩ := h.underWay file (by simp [hunder])
  refine ⟨houter, fun f => ?_, fun f hf => ?_, fun f hf => ?_, hc ▸ h.once⟩
  · rw [hc]
    simp only [List.mem_filter, h.loaded f, hunder, List.mem_cons, bne_iff_ne, ne_eq]
    by_cases he : f = file
    · subst he
      tauto
    · tauto
  · rw [hc]
    obtain ⟨g1, g2, g3⟩ := h.underWay f (by simp [hunder, hf])
    exact ⟨g1, g2, List.mem_append_left _ g3⟩
  · rw [hc] at hf
    obtain ⟨g1, g2⟩ := h.completed f hf
    exact ⟨g1, List.mem_append_left _ g2⟩

theorem Accounted.step {e : Event} (h : Accounted start es x) (he : Step c learn x e y) :
    Accounted start (es ++ [e]) y := by
  cases he with
  | asked parent request hdue => exact h.other rfl rfl rfl
  | reused hdue hfile => exact h.other rfl rfl rfl
  | opened file hdue => exact h.other rfl rfl rfl
  | began hdue hfile => exact h.began hfile _
  | compiled hdue hfile => exact h.other rfl rfl rfl
  | completed hdue hfile => exact h.ended hfile
  | stopped hdue hfile => exact h.stopped hfile

theorem Accounted.path (h : Accounted start es x) (hp : Path c learn x fs y) :
    Accounted start (es ++ fs) y := by
  induction hp generalizing es with
  | nil x => simpa using h
  | cons step _ ih => simpa using ih (h.step step)

theorem Path.accounted (hp : Path c learn x es y) (hx : x.underWay = []) :
    Accounted x.loaded es y := by
  simpa using (accounted_start hx).path hp

def GivenAnew (file : Text) (es : List Event) : Prop :=
  ∀ earlier e later, es = earlier ++ e :: later → e.required? = some file →
    .began file ∈ earlier ++ [e]

theorem Accounted.anew (h : Accounted start es x) (hp : Path c learn x fs y) {file : Text}
    (hfile : file ∉ start) {earlier later : List Event} {e : Event}
    (hfs : fs = earlier ++ e :: later) (he : e.required? = some file) :
    .began file ∈ es ++ earlier ++ [e] := by
  subst hfs
  obtain ⟨z, h1, h2⟩ := hp.split
  cases h2 with
  | cons step rest =>
    have h := h.path h1
    cases step with
    | reused hdue hmem =>
      cases he
      rcases (h.loaded file).mp hmem with hm | hm | hm
      · exact absurd hm hfile
      · exact List.mem_append_left _ (h.completed file hm).2
      · exact List.mem_append_left _ (h.underWay file hm).2.2
    | began hdue hmem =>
      cases he
      simp
    | _ => cases he

/-! ## ES modules -/

def Event.imported? (e : Engine) (t : FileTree) : Event → Option Text
  | .opened file m =>
    match ((openFile e t file).run.run m).1, assoc? file m.modules with
    | .ok (.esModule _), none => some file
    | _, _ => none
  | _ => none

def imported (e : Engine) (t : FileTree) (es : List Event) : List Text :=
  es.filterMap (Event.imported? e t)

variable {e : Engine} {t : FileTree} {old now : List (Text × Text)}

/-- An opening evaluates an ES module that is new, or it evaluates none, and one that was evaluated is
what it was. -/
theorem opened_cases (e : Engine) (t : FileTree) (file : Text) (m : Memory) :
    ((Event.opened file m).imported? e t = none ∧
      ((openFile e t file).run.run m).2.modules = m.modules ∧
      ∀ r, ((openFile e t file).run.run m).1 = .ok (.esModule r) →
        ∃ text, assoc? file m.modules = some text ∧ e.readModule file text = .ok r) ∨
    ((Event.opened file m).imported? e t = some file ∧ assoc? file m.modules = none ∧
      ∃ text, ((openFile e t file).run.run m).2.modules = (file, text) :: m.modules) := by
  have hkind := (kindOf_respects (description_modules m.modules t) file m m ⟨rfl, rfl⟩).2.2
  rw [Event.imported?, openFile_run]
  rcases hk : (kindOf t file).run.run m with ⟨f | kind, n⟩ <;> rw [hk] at hkind
  · exact .inl ⟨rfl, hkind, nofun⟩
  · replace hkind : n.modules = m.modules := hkind
    dsimp only
    cases textOf t file with
    | error f => exact .inl ⟨rfl, hkind, nofun⟩
    | ok text =>
      dsimp only
      by_cases hmodule : isModule e kind text = true
      · simp only [hmodule, if_true]
        rw [importModule_run, hkind]
        cases ha : assoc? file m.modules with
        | some kept =>
          refine .inl ⟨?_, hkind, fun r hr => ⟨kept, rfl, ?_⟩⟩
          · dsimp only
            cases (e.readModule file kept).map Opened.esModule with
            | error f => rfl
            | ok o => cases o <;> rfl
          · dsimp only at hr
            cases hread : e.readModule file kept with
            | error f => rw [hread] at hr; cases hr
            | ok c => rw [hread] at hr; cases hr; rfl
        | none =>
          dsimp only
          cases e.readModule file text with
          | error f => exact .inl ⟨rfl, hkind, nofun⟩
          | ok c => exact .inr ⟨rfl, rfl, text, by rw [← hkind]⟩
      · rw [if_neg hmodule]
        exact .inl ⟨rfl, hkind, nofun⟩

/-- How ES modules came to be remembered since a start: they were, or their texts were evaluated, once.
Those of the start stayed as they were. -/
structure Imported (e : Engine) (t : FileTree) (old : List (Text × Text)) (es : List Event)
    (now : List (Text × Text)) : Prop where
  kept : ∀ f text, assoc? f old = some text → assoc? f now = some text
  known : ∀ f, (assoc? f now).isSome = true ↔ (assoc? f old).isSome = true ∨ f ∈ imported e t es
  new : ∀ f ∈ imported e t es, assoc? f old = none
  once : (imported e t es).Nodup
  opened : ∀ file m, .opened file m ∈ es → ∀ f text, assoc? f old = some text →
    assoc? f m.modules = some text

theorem imported_start (e : Engine) (t : FileTree) (old : List (Text × Text)) :
    Imported e t old [] old :=
  ⟨fun _ _ h => h, by simp [imported], by simp [imported], .nil, nofun⟩

theorem Imported.other {x : Event} (h : Imported e t old es now) (hx : x.imported? e t = none)
    (hopened : ∀ file m, x = .opened file m → m.modules = now) :
    Imported e t old (es ++ [x]) now := by
  have hi : imported e t (es ++ [x]) = imported e t es := by simp [imported, hx]
  refine ⟨h.kept, hi ▸ h.known, hi ▸ h.new, hi ▸ h.once, fun file m hm f text hf => ?_⟩
  rcases List.mem_append.mp hm with hm | hm
  · exact h.opened file m hm f text hf
  · rw [hopened file m (List.mem_singleton.mp hm).symm]
    exact h.kept f text hf

theorem Imported.imports {file : Text} {m : Memory} (h : Imported e t old es m.modules)
    (hx : (Event.opened file m).imported? e t = some file) (hnone : assoc? file m.modules = none)
    (text : Text) : Imported e t old (es ++ [.opened file m]) ((file, text) :: m.modules) := by
  have hi : imported e t (es ++ [.opened file m]) = imported e t es ++ [file] := by
    simp [imported, hx]
  have hnot : assoc? file old = none ∧ file ∉ imported e t es := by
    have hknown := mt (h.known file).mpr (by simp [hnone])
    simpa using hknown
  refine ⟨fun f text' hf => ?_, fun f => ?_, fun f hf => ?_, ?_, fun g n hn f text' hf => ?_⟩
  · have hne : (file == f) = false := by
      refine beq_false_of_ne fun heq => ?_
      rw [← heq, hnot.1] at hf
      cases hf
    rw [assoc?_cons, hne]
    exact h.kept f text' hf
  · rw [hi, assoc?_cons]
    by_cases heq : file = f
    · simp [heq]
    · simp [heq, Ne.symm heq, h.known f]
  · rw [hi] at hf
    rcases List.mem_append.mp hf with hf | hf
    · exact h.new f hf
    · exact List.mem_singleton.mp hf ▸ hnot.1
  · rw [hi]
    exact h.once.append (List.nodup_singleton _) (by simpa using hnot.2)
  · rcases List.mem_append.mp hn with hn | hn
    · exact h.opened g n hn f text' hf
    · cases List.mem_singleton.mp hn
      exact h.kept f text' hf

theorem Imported.step {ev : Event} (h : Imported c.engine c.tree old es x.memory.modules)
    (hs : Step c learn x ev y) : Imported c.engine c.tree old (es ++ [ev]) y.memory.modules := by
  cases hs with
  | asked parent request hdue =>
    dsimp only
    rw [lookup_modules]
    exact h.other rfl nofun
  | opened file hdue =>
    rcases opened_cases c.engine c.tree file x.memory with ⟨hx, hmodules, -⟩ | ⟨hx, hnone, text, hmodules⟩
    · dsimp only
      rw [hmodules]
      refine h.other hx fun file m heq => ?_
      cases heq
      rfl
    · dsimp only
      rw [hmodules]
      exact h.imports hx hnone text
  | _ => exact h.other rfl nofun

theorem Imported.path (h : Imported c.engine c.tree old es x.memory.modules)
    (hp : Path c learn x fs y) : Imported c.engine c.tree old (es ++ fs) y.memory.modules := by
  induction hp generalizing es with
  | nil x => simpa using h
  | cons step _ ih => simpa using ih (h.step step)

end ConfigLoader.Modules
