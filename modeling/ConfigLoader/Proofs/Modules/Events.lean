import ConfigLoader.Proofs.Modules.Respects

/-! # Events of evaluations

What an evaluation does with modules and sources, in order: which look-ups it makes, which modules
it finds remembered, begins and ends to evaluate, which files it opens, and which sources it compiles.
The events of a run are told from the state that it starts in, along with the run itself.
-/
namespace ConfigLoader.Modules
open Script (Item Code Statement)
open TypeScript.Project (Kept)

inductive Event
  /-- A module asks for another one, with what is remembered of look-ups then. -/
  | asked (parent request : Text) (memory : Memory)
  /-- The module that was asked for is remembered. -/
  | reused (file : Text)
  | began (file : Text)
  | completed (file : Text)
  /-- The evaluation of a module was stopped. -/
  | stopped (file : Text)
  /-- A file that is not compiled is opened, with what is remembered of look-ups then. -/
  | opened (file : Text) (memory : Memory)
  /-- A source is compiled, with what is kept of projects then. -/
  | compiled (file source : Text) (kept : Kept)

namespace Event

/-- The file that a request was settled to. -/
def required? : Event → Option Text
  | .reused file | .began file => some file
  | _ => none

/-- What was remembered of look-ups, where the event uses it. -/
def memory? : Event → Option Memory
  | .asked _ _ m | .opened _ m => some m
  | _ => none

def completed? : Event → Option Text
  | .completed file => some file
  | _ => none

end Event

abbrev Course := State → List Event

def silent : Course := fun _ => []

def Course.andThen {α : Type} (e : Course) (r : Run α) (f : α → Course) : Course := fun s =>
  e s ++ match r.run.run s with
    | (.ok a, t) => f a t
    | (.error _, _) => []

/-! ## Programs -/

def requested? : Statement → Option (Option Value)
  | .require id _ => some id
  | .handOn id => some (some (.text id))
  | _ => none

def statementEvents (E : Option Value → Course) (st : Statement) : Course :=
  match requested? st with
  | some id => E id
  | none => silent

def programEvents (require : Option Value → Run Item) (E : Option Value → Course) (code : Code)
    (m : Module) : List Statement → Course
  | [] => silent
  | st :: sts => (statementEvents E st).andThen (perform require code m st) fun _ =>
      programEvents require E code m sts

def plainEvents (c : Surroundings) (require : Option Value → Run Item) (E : Option Value → Course)
    (m : Module) : Course :=
  Course.andThen (fun s => [.opened m.file s.memory]) (find (openFile c.engine c.tree m.file))
    fun opened => match opened with
      | .script text => silent.andThen (script text) fun code =>
          programEvents require E code m code.statements
      | .esModule _ => silent

def compiledEvents (compile : Text → Text → Run Code) (c : Surroundings)
    (require : Option Value → Run Item) (E : Option Value → Course) (m : Module) : Course :=
  silent.andThen (readFile c.tree m.file) fun text =>
    Course.andThen (fun s => [.compiled m.file text s.projects]) (compile m.file text) fun code =>
      programEvents require E code m code.statements

def fileEvents (c : Surroundings) (require : Option Value → Run Item) (E : Option Value → Course)
    (m : Module) : Course :=
  let extension := extensionOf c.extensions (Path.name m.file)
  if m.file == c.package then silent
  else if extension == ".json" then silent
  else if extension == ".node" then silent
  else match c.compile, compiledExtensions.contains extension with
    | some compile, true => compiledEvents compile c require E m
    | _, _ => plainEvents c require E m

/-! ## Modules -/

def entering (file : Text) (s : State) : State :=
  { s with
    heap := s.heap ++ [Item.emptyObject, .cell s.heap.length]
    cache := s.cache ++ [(file, s.heap.length + 1)] }

def ending (file : Text) (r : Except Stop Unit) : Event :=
  match r with
  | .ok _ => .completed file
  | .error _ => .stopped file

def enterEvents (file : Text) (evaluate : Nat → Run Unit) (E : Nat → Course) : Course := fun s =>
  let place := s.heap.length + 1
  let start := entering file s
  .began file :: (E place start ++ [ending file ((evaluate place).run.run start).1])

def loadEvents (file : Text) (evaluate : Nat → Run Unit) (E : Nat → Course) : Course := fun s =>
  match assoc? file s.cache with
  | some _ => [.reused file]
  | none => enterEvents file evaluate E s

def requireEvents (c : Surroundings) : Nat → List Text → Option Value → Course
  | 0, _, _ => silent
  | depth + 1, parents, id =>
    silent.andThen (lift (requestText id)) fun request =>
      Course.andThen (fun s => [.asked (parents.headD []) request s.memory])
        (resolve c parents request) fun file =>
          loadEvents file
            (fun place => runFile c (require c depth (file :: parents)) ⟨file, place, parents⟩)
            fun place => fileEvents c (require c depth (file :: parents))
              (requireEvents c depth (file :: parents)) ⟨file, place, parents⟩

def entryEvents (c : Surroundings) (script file : Text) (code : Code) : Course :=
  silent.andThen newPlace fun place =>
    programEvents (require c c.engine.calls [file, script])
      (requireEvents c c.engine.calls [file, script]) code ⟨file, place, [script]⟩ code.statements

/-! ## Runs and their beginnings -/

theorem enter_run (file : Text) (evaluate : Nat → Run Unit) (s : State) :
    (enter file evaluate).run.run s =
      (whenStopped (forget file) (evaluate (s.heap.length + 1)) >>= fun _ => do
        return (← get).exportsOf (s.heap.length + 1) : Run Item).run.run (entering file s) := rfl

theorem enter_state (file : Text) (evaluate : Nat → Run Unit) (s : State) :
    ((enter file evaluate).run.run s).2 =
      match (evaluate (s.heap.length + 1)).run.run (entering file s) with
      | (.ok _, t) => t
      | (.error _, t) => forget file t := by
  rw [enter_run, run_bind, run_whenStopped]
  rcases (evaluate (s.heap.length + 1)).run.run (entering file s) with ⟨e | u, t⟩ <;> rfl

end ConfigLoader.Modules
