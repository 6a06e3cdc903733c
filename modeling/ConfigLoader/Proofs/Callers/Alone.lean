import ConfigLoader.Compiler.Callers
import ConfigLoader.Proofs.Compiler.Traffic

/-! # A thread on its own

While no other thread takes a step, a request and a close do what they do on a compiler that no threads
share: the same result, the same compiler, the same world and the same log.
-/
namespace ConfigLoader.Callers
open Child (Handle Action)
open Compiler (Site)
open Threads (Actor)
variable {W : Type} {ops : ChildOps W} {site : Site} {i : Nat} {a : Actor} {h : Handle}

/-! ## Shutting down -/

/-- Steps that shut a process down, from a point on. -/
inductive Shutting (ops : ChildOps W) (a : Actor) (h : Handle) :
    Ending → Shared W → Except Fault Unit → Shared W → Prop
  | done {p x r y} (hs : x.shut ops a h p = (.inl r, y)) : Shutting ops a h p x r y
  | on {p q x y r z} (hs : x.shut ops a h p = (.inr q, y)) (hr : Shutting ops a h q y r z) :
      Shutting ops a h p x r z

structure Moved (x y : Shared W) (w : W) : Prop where
  compiler : y.compiler = x.compiler
  holder : y.holder = x.holder
  state : y.state = { x.state with world := w }

theorem Moved.trans {x y z : Shared W} {v w : W} (hxy : Moved x y v) (hyz : Moved y z w) :
    Moved x z w where
  compiler := hyz.compiler.trans hxy.compiler
  holder := hyz.holder.trans hxy.holder
  state := by rw [hyz.state, hxy.state]

def EndsIn (ops : ChildOps W) (a : Actor) (h : Handle) (p : Ending) (w : W)
    (e : Except Fault Unit × W) : Prop :=
  ∀ x : Shared W, x.state.world = w → ∃ y, Shutting ops a h p x e.1 y ∧ Moved x y e.2

section Endings
variable {p q : Ending} {r : Except Fault Text} {w u : W} {e : Except Fault Unit × W}

theorem act_eq (x : Shared W) {action : Action} (ha : ops.act h action x.state.world = (r, u)) :
    (x.act ops a h action).1 = r ∧ Moved x (x.act ops a h action).2 u := by
  unfold Shared.act
  rw [ha]
  exact ⟨rfl, rfl, rfl, rfl⟩

theorem shut_eq (x : Shared W) (happ : p.applies ops h x.state.world = true)
    (ha : ops.act h p.action x.state.world = (r, u)) :
    (x.shut ops a h p).1 = p.next r ∧ Moved x (x.shut ops a h p).2 u := by
  obtain ⟨hr, hm⟩ := act_eq (a := a) x ha
  rw [Shared.shut, if_pos happ]
  exact ⟨congrArg p.next hr, hm⟩

theorem endsIn_done {d : Except Fault Unit} (happ : p.applies ops h w = true)
    (ha : ops.act h p.action w = (r, u)) (hn : p.next r = .inl d) : EndsIn ops a h p w (d, u) := by
  rintro x rfl
  obtain ⟨hs, hm⟩ := shut_eq (a := a) x happ ha
  exact ⟨_, .done (Prod.ext (hs.trans hn) rfl), hm⟩

theorem endsIn_on (happ : p.applies ops h w = true) (ha : ops.act h p.action w = (r, u))
    (hn : p.next r = .inr q) (hq : EndsIn ops a h q u e) : EndsIn ops a h p w e := by
  rintro x rfl
  obtain ⟨hs, hm⟩ := shut_eq (a := a) x happ ha
  obtain ⟨y, hy, hmy⟩ := hq _ (by rw [hm.state])
  exact ⟨y, .on (Prod.ext (hs.trans hn) rfl) hy, hm.trans hmy⟩

theorem endsIn_output (ops : ChildOps W) (a : Actor) (h : Handle) (w : W) :
    EndsIn ops a h .output w (Compiler.closeOutput ops h w) := by
  unfold Compiler.closeOutput
  cases ho : ops.hasOutput h w with
  | true => exact endsIn_done (p := .output) ho rfl rfl
  | false =>
    rintro x rfl
    refine ⟨x, .done ?_, rfl, rfl, rfl⟩
    simp only [Shared.shut, Ending.applies, ho, Bool.false_eq_true, if_false]
    rfl

/-- What is left of a shutdown once the process was waited for. -/
def closeAfter (ops : ChildOps W) (h : Handle) : Except Fault Text × W → Except Fault Unit × W
  | (.error f, w) => (.error f, w)
  | (.ok _, w) => Compiler.closeOutput ops h w

theorem endsIn_waited (happ : p.applies ops h w = true) (ha : ops.act h p.action w = (r, u))
    (hn : p.next r = Ending.waited r) : EndsIn ops a h p w (closeAfter ops h (r, u)) := by
  cases r with
  | error f => exact endsIn_done happ ha hn
  | ok s => exact endsIn_on happ ha hn (endsIn_output ops a h u)

theorem endsIn_first (ops : ChildOps W) (a : Actor) (h : Handle) (w : W) :
    EndsIn ops a h .first w (closeAfter ops h (Compiler.awaitEnd ops h w)) := by
  unfold Compiler.awaitEnd
  rcases e1 : ops.act h (.wait (some Compiler.patience)) w with ⟨r1, w1⟩
  dsimp only
  cases ht1 : Compiler.isTimeout r1 with
  | false => exact endsIn_waited (p := .first) rfl e1 (by simp [Ending.next, ht1])
  | true =>
    simp only [if_true]
    refine endsIn_on (p := .first) (q := .terminate) rfl e1 (by simp [Ending.next, ht1]) ?_
    rcases e2 : ops.act h .terminate w1 with ⟨r2, w2⟩
    cases r2 with
    | error f => exact endsIn_done (p := .terminate) rfl e2 rfl
    | ok s2 =>
      refine endsIn_on (p := .terminate) (q := .second) rfl e2 rfl ?_
      rcases e3 : ops.act h (.wait (some Compiler.lastPatience)) w2 with ⟨r3, w3⟩
      simp only [e3]
      cases ht3 : Compiler.isTimeout r3 with
      | false => exact endsIn_waited (p := .second) rfl e3 (by simp [Ending.next, ht3])
      | true =>
        simp only [if_true]
        refine endsIn_on (p := .second) (q := .kill) rfl e3 (by simp [Ending.next, ht3]) ?_
        rcases e4 : ops.act h .kill w3 with ⟨r4, w4⟩
        cases r4 with
        | error f => exact endsIn_done (p := .kill) rfl e4 rfl
        | ok s4 =>
          refine endsIn_on (p := .kill) (q := .last) rfl e4 rfl ?_
          exact endsIn_waited (p := .last) rfl rfl rfl

theorem endsIn_input (ops : ChildOps W) (a : Actor) (h : Handle) (w : W) :
    EndsIn ops a h .input w (Compiler.shutdown ops h w) := by
  unfold Compiler.shutdown Compiler.closeInput
  have hrest : ∀ u : W, EndsIn ops a h .first u
      (match Compiler.awaitEnd ops h u with
        | (.error f, w) => (.error f, w)
        | (.ok _, w) => Compiler.closeOutput ops h w) := endsIn_first ops a h
  cases hi : ops.hasInput h w with
  | false =>
    rintro x rfl
    obtain ⟨y, hy, hm⟩ := hrest _ x rfl
    refine ⟨y, .on ?_ hy, hm⟩
    simp only [Shared.shut, Ending.applies, hi, Bool.false_eq_true, if_false]
    rfl
  | true =>
    rcases e1 : ops.act h .closeInput w with ⟨r1, w1⟩
    simp only [if_true]
    cases r1 with
    | ok s => exact endsIn_on (p := .input) hi e1 rfl (hrest w1)
    | error f =>
      cases hf : f.isSystem with
      | true =>
        simp only [hf, if_true]
        exact endsIn_on (p := .input) (q := .first) hi e1 (by simp [Ending.next, hf]) (hrest w1)
      | false =>
        simp only [hf, Bool.false_eq_true, if_false]
        exact endsIn_done (p := .input) hi e1 (by simp [Ending.next, hf])

end Endings

/-! ## Tasks -/

def Thread.steps (ops : ChildOps W) (site : Site) (i : Nat) :
    Nat → Thread → Shared W → Option (Thread × Shared W)
  | 0, t, x => some (t, x)
  | n + 1, t, x => (t.step ops site i x).bind fun p => p.1.steps ops site i n p.2

/-- Some steps of a thread end its task with a result, and leave the lock free, a compiler and a
world. -/
def Finishes (ops : ChildOps W) (site : Site) (i : Nat) (t : Thread) (x : Shared W)
    (e : Except Fault Value × Compiler × Logged W) : Prop :=
  ∃ n y, t.steps ops site i n x = some (⟨t.tasks, .idle, e.1 :: t.results⟩, y) ∧
    y.holder = none ∧ y.compiler = e.2.1 ∧ y.state = e.2.2

section Tasks
variable {t : Thread} {x y : Shared W} {path source : Value} {d : Except Fault Unit}
  {e : Except Fault Value × Compiler × Logged W}

theorem Finishes.step {b : Activity} (hs : t.step ops site i x = some (t.goes b, y))
    (he : Finishes ops site i (t.goes b) y e) : Finishes ops site i t x e := by
  obtain ⟨n, z, hz, h⟩ := he
  refine ⟨n + 1, z, ?_, h⟩
  simp only [Thread.steps, hs, Option.bind_some, hz]
  rfl

theorem Finishes.last (hs : t.step ops site i x = some (⟨t.tasks, .idle, e.1 :: t.results⟩, y))
    (hh : y.holder = none) (hc : y.compiler = e.2.1) (hl : y.state = e.2.2) :
    Finishes ops site i t x e := by
  refine ⟨1, y, ?_, hh, hc, hl⟩
  simp only [Thread.steps, hs, Option.bind_some]

variable (ops site i x) in
theorem compile_step {b : CompilePoint} (ha : t.activity = .compile path source b) :
    t.step ops site i x = some (t.compileStep ops site i path source x b) := by
  simp only [Thread.step, ha]

variable (ops site i x) in
theorem close_step {b : ClosePoint} (ha : t.activity = .close b) :
    t.step ops site i x = some (t.closeStep ops i x b) := by
  simp only [Thread.step, ha]

theorem leaving_fault {f : Fault} (ha : t.activity = .compile path source (.leaving (.error f))) :
    Finishes ops site i t x (.error f, x.compiler, x.state) :=
  .last (compile_step _ _ _ _ ha) rfl rfl rfl

theorem leaving_reply {reply : Value}
    (ha : t.activity = .compile path source (.leaving (.ok reply))) :
    Finishes ops site i t x ((Compiler.Reply.read reply).bind Compiler.Reply.outcome,
      x.compiler, x.state) :=
  .last (compile_step _ _ _ _ ha) rfl rfl rfl

/-- What a request ends with, once its process was shut down. -/
def exited (ops : ChildOps W) (h : Handle) (d : Except Fault Unit) (y : Shared W) :
    Except Fault Value :=
  match d with
  | .error f => .error f
  | .ok _ => .error (Compiler.exitedUnexpectedly (y.exitText ops h))

theorem ending_alone {p : Ending} (hs : Shutting ops (t.actor i) h p x d y)
    (ha : t.activity = .compile path source (.ending h p)) :
    Finishes ops site i t x (exited ops h d y, y.compiler, y.state) := by
  generalize hb : t.actor i = b at hs
  induction hs generalizing t with
  | @done p x d y hs =>
    cases d with
    | error f =>
      refine .step (b := .compile path source (.leaving (.error f))) ?_ (leaving_fault rfl)
      rw [compile_step _ _ _ _ ha]
      simp only [Thread.compileStep, hb, hs]
    | ok u =>
      refine .step (b := .compile path source (.leaving (exited ops h (.ok u) y))) ?_
        (leaving_fault rfl)
      rw [compile_step _ _ _ _ ha]
      simp only [Thread.compileStep, hb, hs]
      rfl
  | @on p q x y d z hs hr ih =>
    refine .step (b := .compile path source (.ending h q)) ?_ (ih rfl hb)
    rw [compile_step _ _ _ _ ha]
    simp only [Thread.compileStep, hb, hs]

/-- What a request ends with, once its exchange ended. -/
def settled (ops : ChildOps W) (h : Handle) (c : Compiler) (l : Logged W) :
    Except Fault Value × W → Except Fault Value × Compiler × Logged W
  | (.ok reply, w) =>
    ((Compiler.Reply.read reply).bind Compiler.Reply.outcome, c, { l with world := w })
  | (.error f, w) =>
    if Compiler.isBroken f then
      let (r, w) := Compiler.giveUp ops h Compiler.exitedUnexpectedly w
      (r, { c with process := none }, { l with world := w })
    else (.error f, c, { l with world := w })

theorem giveUp_exited (w : W) (hw : y.state.world = (Compiler.shutdown ops h w).2) :
    Compiler.giveUp ops h Compiler.exitedUnexpectedly w =
      (exited ops h (Compiler.shutdown ops h w).1 y, y.state.world) := by
  rw [hw]
  unfold Compiler.giveUp exited Shared.exitText
  rw [hw]
  rcases Compiler.shutdown ops h w with ⟨d, u⟩
  cases d <;> rfl

theorem failing_alone {f : Fault}
    (ha : t.activity = .compile path source (Thread.failing h f)) :
    Finishes ops site i t x (settled ops h x.compiler x.state (.error f, x.state.world)) := by
  unfold Thread.failing at ha
  unfold settled
  cases hf : Compiler.isBroken f with
  | false =>
    simp only [hf, Bool.false_eq_true, if_false] at ha ⊢
    exact leaving_fault ha
  | true =>
    simp only [hf, if_true] at ha ⊢
    obtain ⟨y, hy, hm⟩ := endsIn_input ops (t.actor i) h x.state.world (x.setSlot none) rfl
    have hw : y.state.world = (Compiler.shutdown ops h x.state.world).2 := by rw [hm.state]
    have he : Finishes ops site i (t.goes (.compile path source (.ending h .input)))
        (x.setSlot none) _ := ending_alone hy rfl
    refine .step (b := .compile path source (.ending h .input)) (compile_step _ _ _ _ ha) ?_
    rw [giveUp_exited x.state.world hw]
    rw [hm.compiler] at he
    have hl : y.state = { x.state with world := y.state.world } := by rw [hm.state]; rfl
    rw [hl] at he
    exact he

theorem reading_alone (ha : t.activity = .compile path source (.reading h)) :
    Finishes ops site i t x (settled ops h x.compiler x.state
      (Compiler.receive ops h x.state.world)) := by
  have hs := compile_step ops site i x ha
  unfold Compiler.receive
  cases ho : ops.hasOutput h x.state.world with
  | false =>
    simp only [Thread.compileStep, ho, Bool.false_eq_true, if_false] at hs ⊢
    exact .step hs (failing_alone rfl)
  | true =>
    simp only [Thread.compileStep, ho, if_true] at hs ⊢
    rcases e : ops.act h .readLine x.state.world with ⟨r, w⟩
    simp only [Shared.act, e] at hs
    cases r with
    | error f => exact .step hs (failing_alone rfl)
    | ok line =>
      simp only at hs ⊢
      cases hj : (if line.isEmpty then .error Compiler.endOfOutput else Json.load ops.limits.reading line :
        Except Fault Value) with
      | error f =>
        rw [hj] at hs
        exact .step hs (failing_alone rfl)
      | ok reply =>
        rw [hj] at hs
        exact .step hs (leaving_reply rfl)

theorem flushing_alone (ha : t.activity = .compile path source (.flushing h)) :
    Finishes ops site i t x (settled ops h x.compiler x.state
      (match ops.act h .flush x.state.world with
        | (.error f, w) => (.error f, w)
        | (.ok _, w) => Compiler.receive ops h w)) := by
  have hs := compile_step ops site i x ha
  rcases e : ops.act h .flush x.state.world with ⟨r, w⟩
  simp only [Thread.compileStep, Shared.act, e] at hs
  cases r with
  | error f => exact .step hs (failing_alone rfl)
  | ok u => exact .step hs (reading_alone rfl)

theorem writing_alone {id : Nat} (ha : t.activity = .compile path source (.writing h id)) :
    Finishes ops site i t x (match Compiler.absolutePath site path with
      | .error f => (.error f, x.compiler, x.state)
      | .ok p => settled ops h x.compiler x.state
          (Compiler.exchange ops h (Compiler.request id p source) x.state.world)) := by
  have hs := compile_step ops site i x ha
  simp only [Thread.compileStep] at hs
  cases hp : Compiler.absolutePath site path with
  | error f =>
    simp only [hp] at hs
    exact .step hs (leaving_fault rfl)
  | ok p =>
    simp only [hp] at hs
    simp only [Compiler.exchange, Compiler.send]
    cases hi : ops.hasInput h x.state.world with
    | false =>
      simp only [hi, Bool.false_eq_true, if_false] at hs ⊢
      exact .step hs (failing_alone rfl)
    | true =>
      simp only [hi, if_true] at hs ⊢
      cases hm : Compiler.frame ops.limits (Compiler.request id p source) with
      | error f =>
        simp only [hm] at hs ⊢
        exact .step hs (failing_alone rfl)
      | ok text =>
        simp only [hm] at hs ⊢
        rcases e : ops.act h (.write text) x.state.world with ⟨r, w⟩
        simp only [Shared.act, e] at hs
        cases r with
        | error f => exact .step hs (failing_alone rfl)
        | ok u =>
          let y := Shared.see (.act (t.actor i) h (.write text) (.ok u))
            { x with state := { x.state with world := w } }
          have hf : Finishes ops site i (t.goes (.compile path source (.flushing h))) y _ :=
            flushing_alone rfl
          refine .step (y := y) hs ?_
          rcases e2 : ops.act h .flush w with ⟨r2, w2⟩
          rw [show ops.act h .flush y.state.world = (r2, w2) from e2] at hf
          simp only [e2]
          cases r2 <;> exact hf

theorem compile_eq (path source : Value) {c : Compiler} (l : Logged W) (hc : c.process = some h) :
    Compiler.compile ops site path source c l =
      match Compiler.absolutePath site path with
      | .error f => (.error f, { c with lastId := c.lastId + 1 }, l)
      | .ok p => settled ops h { c with lastId := c.lastId + 1 } l
          (Compiler.exchange ops h (Compiler.request (c.lastId + 1) p source) l.world) := by
  simp only [Compiler.compile, hc]
  cases Compiler.absolutePath site path with
  | error f => rfl
  | ok p =>
    simp only
    rcases Compiler.exchange ops h (Compiler.request (c.lastId + 1) p source) l.world with ⟨r, w⟩
    cases r <;> rfl

theorem looking_alone (ha : t.activity = .compile path source .looking) :
    Finishes ops site i t x (Compiler.compile ops site path source x.compiler x.state) := by
  have hs := compile_step ops site i x ha
  simp only [Thread.compileStep] at hs
  cases hc : x.compiler.process with
  | none =>
    rw [Compiler.compile_unheld _ _ _ _ _ _ hc]
    simp only [hc] at hs
    exact .step hs (leaving_fault rfl)
  | some h =>
    rw [compile_eq path source x.state hc]
    simp only [hc] at hs
    exact .step hs (.step (b := .compile path source (.writing h (x.compiler.lastId + 1))) rfl
      (writing_alone rfl))

theorem shutting_alone {p : Ending} (hs : Shutting ops (t.actor i) h p x d y)
    (ha : t.activity = .close (.ending h p)) (hh : y.holder = none) :
    Finishes ops site i t x (d.map fun _ => .null, y.compiler, y.state) := by
  generalize hb : t.actor i = b at hs
  induction hs generalizing t with
  | @done p x d y hs =>
    refine .last (y := y.see (.finish (t.actor i) .close (d.map fun _ => .null))) ?_ hh rfl rfl
    rw [close_step _ _ _ _ ha]
    simp only [Thread.closeStep, Thread.ends, hb, hs]
  | @on p q x y d z hs hr ih =>
    refine .step (b := .close (.ending h q)) ?_ (ih rfl hh hb)
    rw [close_step _ _ _ _ ha]
    simp only [Thread.closeStep, hb, hs]

theorem closing_alone (ha : t.activity = .close .looking) :
    Finishes ops site i t x ((Compiler.close ops x.compiler x.state).1.map fun _ => .null,
      (Compiler.close ops x.compiler x.state).2) := by
  refine .step (close_step _ _ _ _ ha) ?_
  unfold Compiler.close
  cases hc : x.compiler.process with
  | none =>
    refine .step (b := .close (.leaving none)) rfl (.last rfl rfl ?_ rfl)
    exact congrArg (fun k => { x.compiler with process := k }) hc.symm
  | some h =>
    let y := ((x.setSlot none).see (.take (t.actor i) h)).unlock
    let z : Shared W := { y with
      state := y.state.note .debug .compiler (Thread.closingMessage ops h y.state.world) }
    refine .step (b := .close (.leaving (some h))) rfl (.step (b := .close (.noting h)) rfl
      (.step (b := .close (.ending h .input)) (y := z) rfl ?_))
    obtain ⟨v, hv, hm⟩ := endsIn_input ops (t.actor i) h x.state.world z rfl
    have he : Finishes ops site i (t.goes (.close (.ending h .input))) z _ :=
      shutting_alone hv rfl hm.holder
    rw [hm.compiler, hm.state] at he
    exact he

def Task.perform (ops : ChildOps W) (site : Site) (c : Compiler) (l : Logged W) :
    Task → Except Fault Value × Compiler × Logged W
  | compile path source => Compiler.compile ops site path source c l
  | close => ((Compiler.close ops c l).1.map fun _ => .null, (Compiler.close ops c l).2)

theorem task_alone {task : Task} {ts : List Task} (ha : t.activity = .idle)
    (ht : t.tasks = task :: ts) (hh : x.holder = none) :
    let e := task.perform ops site x.compiler x.state
    ∃ n y, t.steps ops site i n x = some (⟨ts, .idle, e.1 :: t.results⟩, y) ∧
      y.holder = none ∧ y.compiler = e.2.1 ∧ y.state = e.2.2 := by
  let u : Thread := ⟨ts, Thread.opening task, t.results⟩
  let y := Shared.see (.enter (t.actor i) task) { x with holder := some i }
  have hs : t.step ops site i x = some (u, y) := by
    simp only [Thread.step, ha, ht, Shared.lock?, hh]
    rfl
  have hu : Finishes ops site i u y (task.perform ops site x.compiler x.state) := by
    cases task with
    | compile path source => exact looking_alone rfl
    | close => exact closing_alone rfl
  obtain ⟨n, z, hz, h⟩ := hu
  refine ⟨n + 1, z, ?_, h⟩
  simp only [Thread.steps, hs, Option.bind_some, hz]
  rfl

end Tasks

/-! ## Crews -/

theorem Crew.run_alone {t t' : Thread} {y : Shared W} (n : Nat) {c : Crew W}
    (ht : c.threads[i]? = some t) (hs : t.steps ops site i n c.shared = some (t', y)) :
    c.run ops site (List.replicate n i) = ⟨y, c.threads.set i t'⟩ := by
  induction n generalizing t c with
  | zero =>
    cases hs
    obtain ⟨hi, rfl⟩ := List.getElem?_eq_some_iff.mp ht
    rw [List.set_getElem_self]
    rfl
  | succ n ih =>
    obtain ⟨⟨u, z⟩, hu, hs⟩ := Option.bind_eq_some_iff.mp hs
    have hi := (List.getElem?_eq_some_iff.mp ht).1
    have hstep : c.step? ops site i = some ⟨z, c.threads.set i u⟩ := by
      simp only [Crew.step?, ht, Option.bind_some, hu, Option.map_some]
    have hrun : c.run ops site (List.replicate (n + 1) i) =
        Crew.run ops site (List.replicate n i) ⟨z, c.threads.set i u⟩ := by
      simp only [Crew.run, List.replicate_succ, List.foldl_cons, hstep, Option.getD_some]
    rw [hrun, ih (t := u) (by simp only [List.getElem?_set_self hi]) hs, List.set_set]

theorem Crew.task_alone {t : Thread} {task : Task} {ts : List Task} {c : Crew W}
    (ht : c.threads[i]? = some t) (ha : t.activity = .idle) (hts : t.tasks = task :: ts)
    (hh : c.shared.holder = none) :
    let e := task.perform ops site c.shared.compiler c.shared.state
    ∃ n y, c.run ops site (List.replicate n i) =
        ⟨y, c.threads.set i ⟨ts, .idle, e.1 :: t.results⟩⟩ ∧
      y.holder = none ∧ y.compiler = e.2.1 ∧ y.state = e.2.2 := by
  obtain ⟨n, y, hs, h⟩ := Callers.task_alone ha hts hh
  exact ⟨n, y, Crew.run_alone n ht hs, h⟩

end ConfigLoader.Callers
