import ConfigLoader.Proofs.Modules.Respects

/-! # Evaluations from states that are alike

An evaluation sees little of what earlier requests left behind: the objects and modules that are
remembered, the next number, and what look-ups and compilations answer. A relation between states
that fixes these and that every single change respects is respected by whole evaluations.
-/
namespace ConfigLoader.Modules
open Script (Item Heap Failure Code Statement)

/-- A relation between states that the single changes of an evaluation respect; only free files are
forgotten, which a file is that was not remembered. -/
structure Steady (c : Surroundings) (Free : Text → Prop) (R : State → State → Prop) : Prop where
  heap : ∀ {s s'}, R s s' → s.heap = s'.heap
  cache : ∀ {s s'}, R s s' → s.cache = s'.cache
  count : ∀ {s s'}, R s s' → s.count = s'.count
  withHeap : ∀ {s s'} (h : Heap), R s s' → R { s with heap := h } { s' with heap := h }
  withCount : ∀ {s s'} (n : Nat), R s s' → R { s with count := n } { s' with count := n }
  withNotes : ∀ {s s'} (t : Text), R s s' →
    R { s with notes := t :: s.notes } { s' with notes := t :: s'.notes }
  free : ∀ {s s'} {file : Text}, R s s' → assoc? file s.cache = none → Free file
  remember : ∀ {s s'} {file : Text} (n : Nat), R s s' → assoc? file s.cache = none →
    R { s with cache := s.cache ++ [(file, n)] } { s' with cache := s'.cache ++ [(file, n)] }
  forget : ∀ {s s'} {file : Text}, Free file → R s s' → R (forget file s) (forget file s')
  lookup : ∀ parent request,
    Respects R (find (lookup c.tree c.extensions parent request))
  opens : ∀ file, Respects R (find (openFile c.engine c.tree file))
  compile : ∀ f, c.compile = some f → ∀ file text, Respects R (f file text)

namespace Respects
variable {α β : Type} {R : State → State → Prop}

theorem lift (r : Except Failure α) : Respects R (lift r) := by
  cases r with
  | ok a => exact pure a
  | error f => exact throw _

theorem raise (name : String) (message : Text) : Respects R (raise name message : Run α) :=
  throw _

theorem whenStopped {f : State → State} {r : Run α} (hr : Respects R r)
    (hf : ∀ s s', R s s' → R (f s) (f s')) : Respects R (whenStopped f r) := by
  intro s s' h
  obtain ⟨h1, h2⟩ := hr s s' h
  rw [run_whenStopped f r s, run_whenStopped f r s', ← h1]
  cases (r.run.run s).1 with
  | ok a => exact ⟨rfl, h2⟩
  | error e => exact ⟨rfl, hf _ _ h2⟩

end Respects

namespace Steady
variable {c : Surroundings} {Free : Text → Prop} {R : State → State → Prop} {α : Type}

theorem onHeap (hR : Steady c Free R) {r : Run α} (f : Heap → Except Stop α × Heap)
    (hr : ∀ s, r.run.run s = ((f s.heap).1, { s with heap := (f s.heap).2 })) : Respects R r := by
  intro s s' h
  rw [hr s, hr s', ← hR.heap h]
  exact ⟨rfl, hR.withHeap _ h⟩

theorem setPlace (hR : Steady c Free R) (place : Nat) (v : Item) :
    Respects R (setPlace place v) :=
  hR.onHeap (fun h => (.ok (), h.set place v)) fun _ => rfl

theorem hold (hR : Steady c Free R) (v : Item) : Respects R (hold v) :=
  hR.onHeap (fun h => (.ok (h.hold v).1, (h.hold v).2)) fun _ => rfl

theorem newPlace (hR : Steady c Free R) : Respects R newPlace :=
  hR.onHeap (fun h => (.ok (h.length + 1), h ++ [Item.emptyObject, .cell h.length])) fun _ => rfl

theorem setExports (hR : Steady c Free R) (m : Module) (v : Item) :
    Respects R (setExports m v) :=
  (hR.hold v).bind fun w => hR.setPlace m.place w

theorem build (hR : Steady c Free R) (v : Option Value) : Respects R (build v) := by
  cases v with
  | none => exact Respects.pure _
  | some v =>
    refine hR.onHeap (fun h => match Item.build h v with
      | .ok (item, h) => (.ok item, h)
      | .error f => (.error (.raised (errorItem f)), h)) ?_
    intro s
    have hread : (Modules.build (some v)).run.run s =
        ((Modules.lift (Item.build s.heap v) >>= fun p => do
          set { s with heap := p.2 }
          return p.1 : Run Item)).run.run s := rfl
    rw [hread]
    cases Item.build s.heap v <;> rfl

theorem setFieldAt (hR : Steady c Free R) (n : Nat) (name : Text) (v : Item) :
    Respects R (setFieldAt n name v) := by
  refine Respects.get_bind fun s s' h => ?_
  rw [← hR.heap h]
  split
  · exact Respects.raise _ _ s s' h
  · exact hR.setPlace n _ s s' h

theorem setField (hR : Steady c Free R) (m : Module) (name : Text) (v : Item) :
    Respects R (setField m name v) := by
  refine Respects.get_bind fun s s' h => ?_
  dsimp only [State.exportsOf]
  rw [← hR.heap h]
  cases s.heap.get m.place with
  | cell n => exact hR.setFieldAt n name v s s' h
  | _ => exact Respects.raise _ _ s s' h

theorem note (hR : Steady c Free R) (t : Text) : Respects R (note t) :=
  fun _ _ h => ⟨rfl, hR.withNotes t h⟩

theorem nextNumber (hR : Steady c Free R) (m : Module) (as : Text) :
    Respects R (do
      modify fun s => { s with count := s.count + 1 }
      Modules.setField m as (.number (Binary64.ofInt (← get).count)) : Run Unit) := by
  intro s s' h
  have h1 : R { s with count := s.count + 1 } { s' with count := s'.count + 1 } := by
    rw [← hR.count h]
    exact hR.withCount _ h
  obtain ⟨h2, h3⟩ := hR.setField m as (.number (Binary64.ofInt (s.count + 1 : Nat))) _ _ h1
  have hrun : ∀ s : State, (do
      modify fun s => { s with count := s.count + 1 }
      Modules.setField m as (.number (Binary64.ofInt (← get).count)) : Run Unit).run.run s =
      (Modules.setField m as (.number (Binary64.ofInt (s.count + 1 : Nat)))).run.run
        { s with count := s.count + 1 } := fun _ => rfl
  rw [hrun s, hrun s', ← hR.count h]
  rw [← hR.count h] at h2 h3
  exact ⟨h2, h3⟩

/-! ## Programs -/

variable {require : Option Value → Run Item}

theorem withFields (hR : Steady c Free R) (v : Item) (fields : List (Text × Option Value)) :
    Respects R (withFields v fields) := by
  induction fields generalizing v with
  | nil => exact Respects.pure _
  | cons field fields ih => exact (hR.build field.2).bind fun a => ih _

theorem perform (hR : Steady c Free R) (hr : ∀ id, Respects R (require id)) (code : Code)
    (m : Module) (st : Statement) : Respects R (perform require code m st) := by
  cases st with
  | setDefault v => exact (hR.build v).bind fun a => hR.setField m _ a
  | setExports v => exact (hR.build v).bind fun a => hR.setExports m a
  | setField name v => exact (hR.build v).bind fun a => hR.setField m name a
  | require id as => exact (hr id).bind fun a => hR.setField m as a
  | handOn id => exact (hr _).bind fun a => hR.setExports m a
  | options as => exact hR.setField m as _
  | emitName as => exact hR.setField m as _
  | touched as => exact hR.setField m as _
  | filename as => exact hR.setField m as _
  | count as => exact hR.nextNumber m as
  | log text => exact hR.note text
  | exit code => exact (Respects.lift _).bind fun n => Respects.throw _
  | throw v => exact (hR.build v).bind fun a => Respects.throw _
  | «throwError» constructor message name fields =>
    exact (Respects.lift _).bind fun a => (hR.withFields _ fields).bind fun v => Respects.throw _

theorem performAll (hR : Steady c Free R) (hr : ∀ id, Respects R (require id)) (code : Code)
    (m : Module) (sts : List Statement) : Respects R (performAll require code m sts) := by
  induction sts with
  | nil => exact Respects.pure _
  | cons st sts ih => exact (hR.perform hr code m st).bind fun _ => ih

/-! ## Files -/

theorem readFile (t : FileTree) (file : Text) : Respects R (readFile t file) :=
  Respects.lift _

theorem runDocument (hR : Steady c Free R) (t : FileTree) (m : Module) :
    Respects R (runDocument t m) := by
  refine (readFile t m.file).bind fun text => ?_
  dsimp only
  cases Json.Strict.parse (withoutMark text) with
  | ok v => exact hR.setExports m _
  | error e => exact Respects.raise _ _

theorem script (text : Text) : Respects R (script text) := by
  unfold Modules.script
  cases Code.ofFileText? (withoutMark text) with
  | some code => exact Respects.pure _
  | none => exact Respects.raise _ _

theorem runPlain (hR : Steady c Free R) (hr : ∀ id, Respects R (require id)) (m : Module) :
    Respects R (runPlain c require m) := by
  refine (hR.opens m.file).bind fun opened => ?_
  cases opened with
  | script text => exact (script text).bind fun code => hR.performAll hr code m _
  | esModule r =>
    cases r with
    | ok fields => exact hR.setPlace m.place _
    | error v => exact Respects.throw _

theorem runFile (hR : Steady c Free R) (hr : ∀ id, Respects R (require id)) (m : Module) :
    Respects R (runFile c require m) := by
  unfold Modules.runFile
  dsimp only
  split
  · exact hR.setExports m _
  · split
    · exact hR.runDocument c.tree m
    · split
      · exact Respects.raise _ _
      · split
        · next _ _ compile hc _ =>
          exact (readFile c.tree m.file).bind fun text =>
            (hR.compile compile hc m.file text).bind fun code => hR.performAll hr code m _
        · exact hR.runPlain hr m

/-! ## Modules -/

theorem resolve (hR : Steady c Free R) (parents : List Text) (request : Text) :
    Respects R (resolve c parents request) := by
  refine (hR.lookup (parents.headD []) request).bind fun file => ?_
  cases file with
  | none => exact Respects.raise _ _
  | some file => exact Respects.pure _

theorem exportsOf (hR : Steady c Free R) (place : Nat) :
    Respects R (do return (← get).exportsOf place : Run Item) := by
  intro s s' h
  have hrun : ∀ s : State, (do return (← get).exportsOf place : Run Item).run.run s =
      (.ok (s.heap.get place), s) := fun _ => rfl
  rw [hrun s, hrun s', ← hR.heap h]
  exact ⟨rfl, h⟩

theorem enter (hR : Steady c Free R) {file : Text} {evaluate : Nat → Run Unit}
    (he : ∀ n, Respects R (evaluate n)) {s s' : State} (h : R s s')
    (hc : assoc? file s.cache = none) :
    ((Modules.enter file evaluate).run.run s).1 = ((Modules.enter file evaluate).run.run s').1 ∧
      R ((Modules.enter file evaluate).run.run s).2
        ((Modules.enter file evaluate).run.run s').2 := by
  have hrun : ∀ s : State, (Modules.enter file evaluate).run.run s =
      (Modules.whenStopped (Modules.forget file) (evaluate (s.heap.length + 1)) >>= fun _ => do
        return (← get).exportsOf (s.heap.length + 1) : Run Item).run.run
          { (Modules.newPlace.run.run s).2 with
            cache := s.cache ++ [(file, s.heap.length + 1)] } := fun _ => rfl
  have hfree : Free file := hR.free h hc
  obtain ⟨-, hplace⟩ := hR.newPlace s s' h
  have hnew := hR.remember (s.heap.length + 1) hplace hc
  have hrest : Respects R (Modules.whenStopped (Modules.forget file)
      (evaluate (s.heap.length + 1)) >>= fun _ => do
        return (← get).exportsOf (s.heap.length + 1) : Run Item) :=
    ((he _).whenStopped fun _ _ => hR.forget hfree).bind fun _ => hR.exportsOf _
  rw [hrun s, hrun s', ← hR.heap h]
  exact hrest _ _ hnew

theorem load (hR : Steady c Free R) (file : Text) {evaluate : Nat → Run Unit}
    (he : ∀ n, Respects R (evaluate n)) : Respects R (load file evaluate) := by
  refine Respects.get_bind fun s s' h => ?_
  rw [← hR.cache h]
  cases hc : assoc? file s.cache with
  | some place => exact hR.exportsOf place s s' h
  | none => exact hR.enter he h hc

theorem requires (hR : Steady c Free R) (depth : Nat) :
    ∀ parents id, Respects R (Modules.require c depth parents id) := by
  induction depth with
  | zero => exact fun _ _ => Respects.throw _
  | succ depth ih =>
    intro parents id
    refine (Respects.lift _).bind fun request => (hR.resolve parents request).bind fun file => ?_
    exact hR.load file fun n => hR.runFile (ih (file :: parents)) ⟨file, n, parents⟩

theorem runEntry (hR : Steady c Free R) (script file : Text) (code : Code) :
    Respects R (runEntry c script file code) :=
  hR.newPlace.bind fun place =>
    (hR.performAll (hR.requires c.engine.calls [file, script]) code ⟨file, place, [script]⟩ _).bind
      fun _ => hR.exportsOf place

end Steady
end ConfigLoader.Modules
