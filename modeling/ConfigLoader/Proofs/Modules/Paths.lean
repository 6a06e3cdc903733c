import ConfigLoader.Proofs.Modules.Events
import ConfigLoader.Proofs.Modules.Memory

/-! # Evaluations as paths

All that an evaluation does to what is remembered of modules, look-ups and projects is told by its
events: from one event to the next there is a step, and a whole run is a path of such steps. A step
says what must hold for its event to happen and what the event changes.
-/
namespace ConfigLoader.Modules
open Script (Item Code Statement)
open TypeScript.Project (Kept)

/-- What is remembered between two events. -/
structure Standing where
  /-- The files of the modules that are remembered. -/
  loaded : List Text
  /-- The files of the modules that are being evaluated, the innermost first. -/
  underWay : List Text
  /-- The source that is compiled next. -/
  due : Option Text
  memory : Memory
  kept : Kept

def standing (underWay : List Text) (s : State) : Standing :=
  ⟨s.cache.map Prod.fst, underWay, none, s.memory, s.projects⟩

/-- Whether the name of a file asks for it to be compiled, and there is a compiler. -/
def Surroundings.compiles (c : Surroundings) (file : Text) : Bool :=
  c.compile.isSome && compiledExtensions.contains (extensionOf c.extensions (Path.name file))

def sourceOf? (c : Surroundings) (file : Text) : Option Text :=
  if c.compiles file && file != c.package then c.tree.text? file else none

/-- What an event needs and what it changes; `learn` is what compiling a source makes of the options
that are kept. -/
inductive Step (c : Surroundings) (learn : Text → Text → Kept → Kept) :
    Standing → Event → Standing → Prop
  | asked {x : Standing} (parent request : Text) (hdue : x.due = none) :
    Step c learn x (.asked parent request x.memory)
      { x with memory := ((lookup c.tree c.extensions parent request).run.run x.memory).2 }
  | reused {x : Standing} {file : Text} (hdue : x.due = none) (hfile : file ∈ x.loaded) :
    Step c learn x (.reused file) x
  | began {x : Standing} {file : Text} (hdue : x.due = none) (hfile : file ∉ x.loaded) :
    Step c learn x (.began file)
      { x with
        loaded := x.loaded ++ [file], underWay := file :: x.underWay, due := sourceOf? c file }
  | opened {x : Standing} (file : Text) (hdue : x.due = none) :
    Step c learn x (.opened file x.memory)
      { x with memory := ((openFile c.engine c.tree file).run.run x.memory).2 }
  | compiled {x : Standing} {file source : Text} {outer : List Text} (hdue : x.due = some source)
      (hfile : x.underWay = file :: outer) :
    Step c learn x (.compiled file source x.kept)
      { x with due := none, kept := learn file source x.kept }
  | completed {x : Standing} {file : Text} {outer : List Text} (hdue : x.due = none)
      (hfile : x.underWay = file :: outer) :
    Step c learn x (.completed file) { x with underWay := outer }
  | stopped {x : Standing} {file : Text} {outer : List Text} (hdue : x.due = none)
      (hfile : x.underWay = file :: outer) :
    Step c learn x (.stopped file)
      { x with underWay := outer, loaded := x.loaded.filter (· != file) }

inductive Path (c : Surroundings) (learn : Text → Text → Kept → Kept) :
    Standing → List Event → Standing → Prop
  | nil (x : Standing) : Path c learn x [] x
  | cons {x y z : Standing} {e : Event} {es : List Event} (step : Step c learn x e y)
      (rest : Path c learn y es z) : Path c learn x (e :: es) z

variable {c : Surroundings} {learn : Text → Text → Kept → Kept} {α β : Type}

namespace Path

theorem append {x y z : Standing} {es fs : List Event} (h : Path c learn x es y)
    (g : Path c learn y fs z) : Path c learn x (es ++ fs) z := by
  induction h with
  | nil x => exact g
  | cons step _ ih => exact .cons step (ih g)

theorem single {x y : Standing} {e : Event} (h : Step c learn x e y) : Path c learn x [e] y :=
  .cons h (.nil y)

theorem split {x z : Standing} {es fs : List Event} (h : Path c learn x (es ++ fs) z) :
    ∃ y, Path c learn x es y ∧ Path c learn y fs z := by
  induction es generalizing x with
  | nil => exact ⟨x, .nil x, h⟩
  | cons e es ih =>
    cases h with
    | cons step rest =>
      obtain ⟨y, h1, h2⟩ := ih rest
      exact ⟨y, .cons step h1, h2⟩

end Path

/-! ## Runs that nothing is told of -/

def State.remembered (s : State) : List (Text × Nat) × Memory × Kept :=
  (s.cache, s.memory, s.projects)

theorem standing_congr {s t : State} (h : s.remembered = t.remembered) (underWay : List Text) :
    standing underWay s = standing underWay t := by
  simp only [State.remembered, Prod.mk.injEq] at h
  simp only [standing, h.1, h.2.1, h.2.2]

/-- A run that changes objects, numbers and logged texts alone. -/
def Local (r : Run α) : Prop := ∀ s, (r.run.run s).2.remembered = s.remembered

namespace Local

theorem pure (a : α) : Local (pure a) := fun _ => rfl

theorem throw (e : Stop) : Local (throw e : Run α) := fun _ => rfl

theorem bind {r : Run α} {f : α → Run β} (hr : Local r) (hf : ∀ a, Local (f a)) :
    Local (r >>= f) := by
  intro s
  rw [run_bind]
  cases (r.run.run s).1 with
  | ok a => exact (hf a _).trans (hr s)
  | error e => exact hr s

theorem get_bind {f : State → Run β}
    (hf : ∀ s, ((f s).run.run s).2.remembered = s.remembered) : Local (get >>= f) := hf

theorem lift (r : Except Script.Failure α) : Local (lift r) := by
  cases r with
  | ok a => exact pure a
  | error f => exact throw _

theorem setPlace (place : Nat) (v : Item) : Local (setPlace place v) := fun _ => rfl

theorem hold (v : Item) : Local (hold v) := fun _ => rfl

theorem newPlace : Local newPlace := fun _ => rfl

theorem note (t : Text) : Local (note t) := fun _ => rfl

theorem setExports (m : Module) (v : Item) : Local (setExports m v) :=
  (hold v).bind fun w => setPlace m.place w

theorem build (v : Option Value) : Local (build v) := by
  cases v with
  | none => exact pure _
  | some v =>
    intro s
    have hrun : (Modules.build (some v)).run.run s =
        ((Modules.lift (Item.build s.heap v) >>= fun p => do
          set { s with heap := p.2 }
          return p.1 : Run Item)).run.run s := rfl
    rw [hrun]
    cases Item.build s.heap v <;> rfl

theorem setFieldAt (n : Nat) (name : Text) (v : Item) : Local (setFieldAt n name v) := by
  refine get_bind fun s => ?_
  cases s.heap.get n with
  | object shape fields => cases shape <;> rfl
  | _ => rfl

theorem setField (m : Module) (name : Text) (v : Item) : Local (setField m name v) := by
  refine get_bind fun s => ?_
  cases s.exportsOf m.place with
  | cell n => exact setFieldAt n name v s
  | _ => rfl

theorem withFields (v : Item) (fields : List (Text × Option Value)) :
    Local (withFields v fields) := by
  induction fields generalizing v with
  | nil => exact pure _
  | cons field fields ih => exact (build field.2).bind fun a => ih _

theorem nextNumber (m : Module) (as : Text) : Local (do
    modify fun s => { s with count := s.count + 1 }
    Modules.setField m as (.number (Binary64.ofInt (← get).count)) : Run Unit) :=
  fun s => show ((Modules.setField m as (.number (Binary64.ofInt (s.count + 1 : Nat)))).run.run
      { s with count := s.count + 1 }).2.remembered = s.remembered from
    setField m as _ { s with count := s.count + 1 }

theorem readFile (t : FileTree) (file : Text) : Local (readFile t file) :=
  lift _

theorem runDocument (t : FileTree) (m : Module) : Local (runDocument t m) := by
  refine (readFile t m.file).bind fun text => ?_
  dsimp only
  cases Json.Strict.parse (withoutMark text) with
  | ok v => exact setExports m _
  | error e => exact throw _

theorem script (text : Text) : Local (script text) := by
  unfold Modules.script
  cases Code.ofFileText? (withoutMark text) with
  | some code => exact pure _
  | none => exact throw _

theorem exportsOf (place : Nat) : Local (do return (← get).exportsOf place : Run Item) :=
  fun _ => rfl

end Local

/-! ## Runs that are told -/

def Tells (c : Surroundings) (learn : Text → Text → Kept → Kept) (r : Run α) (e : Course) : Prop :=
  ∀ s underWay,
    Path c learn (standing underWay s) (e s) (standing underWay (r.run.run s).2)

namespace Tells

theorem silent {r : Run α} (h : Local r) : Tells c learn r silent := by
  intro s underWay
  rw [standing_congr (h s)]
  exact .nil _

theorem andThen {r : Run α} {e : Course} {f : α → Run β} {g : α → Course}
    (hr : Tells c learn r e) (hf : ∀ a, Tells c learn (f a) (g a)) :
    Tells c learn (r >>= f) (e.andThen r g) := by
  intro s underWay
  have h := hr s underWay
  rw [run_bind]
  simp only [Course.andThen]
  rcases hx : r.run.run s with ⟨err | a, t⟩
  · rw [hx] at h
    simpa using h
  · rw [hx] at h
    exact h.append (hf a t underWay)

/-- What follows a run and is not told changes nothing that is remembered. -/
theorem bind_local {r : Run α} {e : Course} {f : α → Run β} (hr : Tells c learn r e)
    (hf : ∀ a, Local (f a)) : Tells c learn (r >>= f) e := by
  intro s underWay
  have h := hr s underWay
  rw [run_bind]
  cases hx : (r.run.run s).1 with
  | error err => exact h
  | ok a =>
    rw [standing_congr (hf a _)]
    exact h

end Tells

section
variable {require : Option Value → Run Item} {E : Option Value → Course}

theorem perform_tells (hr : ∀ id, Tells c learn (require id) (E id)) (code : Code) (m : Module)
    (st : Statement) : Tells c learn (perform require code m st) (statementEvents E st) := by
  cases st with
  | setDefault v => exact .silent ((Local.build v).bind fun a => .setField m _ a)
  | setExports v => exact .silent ((Local.build v).bind fun a => .setExports m a)
  | setField name v => exact .silent ((Local.build v).bind fun a => .setField m name a)
  | require id as => exact (hr id).bind_local fun a => .setField m as a
  | handOn id => exact (hr _).bind_local fun a => .setExports m a
  | options as => exact .silent (.setField m as _)
  | emitName as => exact .silent (.setField m as _)
  | touched as => exact .silent (.setField m as _)
  | filename as => exact .silent (.setField m as _)
  | count as => exact .silent (.nextNumber m as)
  | log text => exact .silent (.note text)
  | exit code => exact .silent ((Local.lift _).bind fun n => .throw _)
  | throw v => exact .silent ((Local.build v).bind fun a => .throw _)
  | «throwError» constructor message name fields =>
    exact .silent ((Local.lift _).bind fun a => (Local.withFields _ fields).bind fun v => .throw _)

theorem performAll_tells (hr : ∀ id, Tells c learn (require id) (E id)) (code : Code) (m : Module)
    (sts : List Statement) :
    Tells c learn (performAll require code m sts) (programEvents require E code m sts) := by
  induction sts with
  | nil => exact .silent (.pure ())
  | cons st sts ih => exact (perform_tells hr code m st).andThen fun _ => ih

end

/-! ## Modules -/

/-- Compiling a source changes the options that are kept and nothing else. -/
def Learns (c : Surroundings) (learn : Text → Text → Kept → Kept) : Prop :=
  ∀ f, c.compile = some f → ∀ file source s,
    ((f file source).run.run s).2 = { s with projects := learn file source s.projects }

theorem readFile_run (t : FileTree) (file : Text) (s : State) :
    (readFile t file).run.run s = match textOf t file with
      | .ok text => (.ok text, s)
      | .error f => (.error (.raised (errorItem f)), s) := by
  unfold readFile
  cases textOf t file <;> rfl

theorem text?_eq (t : FileTree) (file : Text) : t.text? file = (textOf t file).toOption := by
  unfold FileTree.text? textOf
  cases t.bytes file <;> rfl

theorem find_run {α : Type} (f : Find α) (s : State) : (find f).run.run s =
    (lift (f.run.run s.memory).1).run.run { s with memory := (f.run.run s.memory).2 } := rfl

@[simp] theorem find_state {α : Type} (f : Find α) (s : State) : ((find f).run.run s).2 =
    { s with memory := (f.run.run s.memory).2 } := by
  rw [find_run]
  cases (f.run.run s.memory).1 <;> rfl

section
variable {require : Option Value → Run Item} {E : Option Value → Course}

theorem compiles_extension {m : Module} (h : c.compiles m.file = true) :
    extensionOf c.extensions (Path.name m.file) ∈ compiledExtensions := by
  simp only [Surroundings.compiles, Bool.and_eq_true, List.contains_iff_mem] at h
  exact h.2

theorem runPlain_tells (hr : ∀ id, Tells c learn (require id) (E id)) (m : Module) :
    Tells c learn (runPlain c require m) (plainEvents c require E m) := by
  have hopened : Tells c learn (find (openFile c.engine c.tree m.file))
      fun s => [.opened m.file s.memory] := by
    intro s underWay
    rw [find_state]
    exact .single (.opened m.file rfl)
  refine hopened.andThen fun opened => ?_
  cases opened with
  | script text => exact (Tells.silent (.script text)).andThen fun code => performAll_tells hr code m _
  | esModule r =>
    cases r with
    | ok fields => exact .silent (.setPlace m.place _)
    | error v => exact .silent (.throw _)

theorem runCompiled_path (hl : Learns c learn) (hr : ∀ id, Tells c learn (require id) (E id))
    {f : Text → Text → Run Code} (hf : c.compile = some f) {m : Module}
    (hdue : sourceOf? c m.file = c.tree.text? m.file) (s : State) (outer : List Text) :
    Path c learn { standing (m.file :: outer) s with due := sourceOf? c m.file }
      (compiledEvents f c require E m s)
      (standing (m.file :: outer) ((readFile c.tree m.file >>= fun text => f m.file text >>=
        fun code => runCode require code m).run.run s).2) := by
  unfold compiledEvents
  rw [run_bind, readFile_run, hdue, text?_eq]
  simp only [Course.andThen, silent, List.nil_append, readFile_run]
  cases htext : textOf c.tree m.file with
  | error _ => exact .nil _
  | ok source =>
    rw [text?_eq, htext] at hdue
    dsimp only
    rw [run_bind]
    have hstep : Step c learn { standing (m.file :: outer) s with due := some source }
        (.compiled m.file source s.projects)
        (standing (m.file :: outer) ((f m.file source).run.run s).2) := by
      rw [hl f hf]
      exact @Step.compiled c learn { standing (m.file :: outer) s with due := some source } _ _
        outer rfl rfl
    rcases hx : (f m.file source).run.run s with ⟨e | code, t⟩
    · rw [hx] at hstep
      exact .single hstep
    · rw [hx] at hstep
      exact .cons hstep (performAll_tells hr code m code.statements t (m.file :: outer))

theorem runFile_path (hl : Learns c learn) (hr : ∀ id, Tells c learn (require id) (E id))
    (m : Module) (s : State) (outer : List Text) :
    Path c learn { standing (m.file :: outer) s with due := sourceOf? c m.file }
      (fileEvents c require E m s)
      (standing (m.file :: outer) ((runFile c require m).run.run s).2) := by
  have htold : ∀ {r : Run Unit} {e : Course}, Tells c learn r e → sourceOf? c m.file = none →
      Path c learn { standing (m.file :: outer) s with due := sourceOf? c m.file }
        (e s) (standing (m.file :: outer) (r.run.run s).2) := by
    intro r e hr hnone
    rw [hnone]
    exact hr s (m.file :: outer)
  have hother : ∀ extension : Text, extension ∉ compiledExtensions →
      (extensionOf c.extensions (Path.name m.file) == extension) = true →
      sourceOf? c m.file = none := by
    intro extension hext he
    have he : extensionOf c.extensions (Path.name m.file) = extension := by simpa using he
    cases hcompiles : c.compiles m.file with
    | false => simp [sourceOf?, hcompiles]
    | true => exact absurd (he ▸ compiles_extension hcompiles) hext
  unfold runFile fileEvents
  dsimp only
  cases hpackage : m.file == c.package with
  | true =>
    simp only [if_true]
    exact htold (.silent (.setExports m _)) (by simp [sourceOf?, bne, hpackage])
  | false =>
    simp only [Bool.false_eq_true, if_false]
    cases hjson : extensionOf c.extensions (Path.name m.file) == Text.ofString ".json" with
    | true => exact htold (.silent (.runDocument c.tree m)) (hother _ (by decide) hjson)
    | false =>
      cases hnode : extensionOf c.extensions (Path.name m.file) == Text.ofString ".node" with
      | true => exact htold (.silent (.throw _)) (hother _ (by decide) hnode)
      | false =>
        simp only [Bool.false_eq_true, if_false]
        have hplain : c.compiles m.file = false → Path c learn
            { standing (m.file :: outer) s with due := sourceOf? c m.file }
            (plainEvents c require E m s)
            (standing (m.file :: outer) ((runPlain c require m).run.run s).2) := fun h =>
          htold (runPlain_tells hr m) (by simp [sourceOf?, h])
        cases hc : c.compile with
        | none => exact hplain (by simp [Surroundings.compiles, hc])
        | some f =>
          cases hext : compiledExtensions.contains (extensionOf c.extensions (Path.name m.file)) with
          | false => exact hplain (by simp only [Surroundings.compiles, hext, Bool.and_false])
          | true =>
            refine runCompiled_path hl hr hc ?_ s outer
            simp only [sourceOf?, Surroundings.compiles, hc, hext, bne, hpackage]
            rfl

end

@[simp] theorem assoc?_isNone {file : Text} {cache : List (Text × Nat)} :
    assoc? file cache = none ↔ file ∉ cache.map Prod.fst := by
  rw [assoc?_none]
  simp only [List.mem_map, not_exists, not_and, ne_eq]

theorem enter_path {file : Text} {evaluate : Nat → Run Unit} {E : Nat → Course} {s : State}
    (hfile : assoc? file s.cache = none) (outer : List Text)
    (he : ∀ n s, Path c learn { standing (file :: outer) s with due := sourceOf? c file } (E n s)
      (standing (file :: outer) ((evaluate n).run.run s).2)) :
    Path c learn (standing outer s) (enterEvents file evaluate E s)
      (standing outer ((enter file evaluate).run.run s).2) := by
  have hbegan : Step c learn (standing outer s) (.began file)
      { standing (file :: outer) (entering file s) with due := sourceOf? c file } := by
    have h := @Step.began c learn (standing outer s) file rfl (assoc?_isNone.mp hfile)
    have hloaded : (standing outer s).loaded ++ [file] =
        (standing (file :: outer) (entering file s)).loaded := by
      simp [standing, entering]
    rw [hloaded] at h
    exact h
  refine .cons hbegan ((he _ _).append ?_)
  rw [enter_state]
  rcases (evaluate (s.heap.length + 1)).run.run (entering file s) with ⟨e | u, t⟩
  · have h := @Step.stopped c learn (standing (file :: outer) t) file outer rfl rfl
    have hloaded : (standing (file :: outer) t).loaded.filter (· != file) =
        (standing outer (forget file t)).loaded := by
      simp only [standing, forget, List.filter_map]
      rfl
    rw [hloaded] at h
    exact .single h
  · exact .single (@Step.completed c learn (standing (file :: outer) t) file outer rfl rfl)

theorem load_tells {file : Text} {evaluate : Nat → Run Unit} {E : Nat → Course}
    (he : ∀ n s outer, Path c learn { standing (file :: outer) s with due := sourceOf? c file }
      (E n s) (standing (file :: outer) ((evaluate n).run.run s).2)) :
    Tells c learn (load file evaluate) (loadEvents file evaluate E) := by
  intro s outer
  rw [load_run, loadEvents]
  cases hfile : assoc? file s.cache with
  | some place =>
    exact .single (.reused rfl (List.mem_map_of_mem (assoc?_mem hfile)))
  | none => exact enter_path hfile outer fun n s => he n s outer

theorem resolve_tells (c : Surroundings) (learn : Text → Text → Kept → Kept)
    (parents : List Text) (request : Text) : Tells c learn (resolve c parents request)
      fun s => [.asked (parents.headD []) request s.memory] := by
  intro s outer
  have h := @Step.asked c learn (standing outer s) (parents.headD []) request rfl
  have hrun : standing outer ((resolve c parents request).run.run s).2 =
      { standing outer s with memory :=
        ((lookup c.tree c.extensions (parents.headD []) request).run.run s.memory).2 } := by
    rw [resolve, run_bind, find_run]
    rcases (lookup c.tree c.extensions (parents.headD []) request).run.run s.memory with
      ⟨f | _ | file, m⟩ <;> rfl
  rw [hrun]
  exact .single h

theorem require_tells (hl : Learns c learn) (depth : Nat) : ∀ parents id,
    Tells c learn (require c depth parents id) (requireEvents c depth parents id) := by
  induction depth with
  | zero => exact fun _ _ => .silent (.throw _)
  | succ depth ih =>
    intro parents id
    refine (Tells.silent (.lift _)).andThen fun request =>
      (resolve_tells c learn parents request).andThen fun file => load_tells fun n s outer => ?_
    exact runFile_path hl (ih (file :: parents)) ⟨file, n, parents⟩ s outer

theorem entry_tells (hl : Learns c learn) (script file : Text) (code : Code) :
    Tells c learn (runEntry c script file code) (entryEvents c script file code) :=
  (Tells.silent .newPlace).andThen fun place =>
    (performAll_tells (require_tells hl c.engine.calls [file, script]) code ⟨file, place, [script]⟩
      code.statements).bind_local fun _ => .exportsOf place

end ConfigLoader.Modules
