import ConfigLoader.Proofs.Compiler.Traffic

/-! # Calls of a loader

A call is an attempt whose fault is reported. The attempt takes the service in the slot, builds one
first when there is none, and asks it once.
-/
namespace ConfigLoader

/-- A fault as a call ends with it: an ordinary one is wrapped. -/
def Fault.reported (f : Fault) : Fault := if f.isOrdinary then f.wrap else f

namespace Loader
variable {W S : Type}

/-- What a call ends with, if the attempt ends with `r`. -/
def answer (r : Except Fault Value) : Except Fault Value := r.mapError Fault.reported

@[simp] theorem answer_ok (v : Value) : answer (.ok v) = .ok v := rfl

@[simp] theorem answer_error (f : Fault) : answer (.error f) = .error f.reported := rfl

/-- The log of a loader apart. -/
def scene (l : Loader W S) : Option S × W := (l.slot, l.state.world)

@[simp] theorem record_scene (r : LogRecord) (l : Loader W S) : (l.record r).scene = l.scene := rfl

@[simp] theorem note_scene (l : Loader W S) (level : Level) (message : Text) :
    (l.note level message).scene = l.scene := rfl

/-- Reporting a fault changes nothing but the log. -/
theorem call_attempt (ops : ServiceOps W S) (path content : Value) (l : Loader W S) :
    (l.call ops path content).1 = answer (l.attempt ops path content).1 ∧
    (l.call ops path content).2.scene = (l.attempt ops path content).2.scene := by
  unfold call
  rcases l.attempt ops path content with ⟨r, l1⟩
  cases r with
  | ok v => exact ⟨rfl, rfl⟩
  | error f =>
    by_cases hf : f.isOrdinary = true
    · simp only [answer_error, Fault.reported, hf, if_true, note_scene, and_self]
    · simp only [answer_error, Fault.reported, hf, Bool.false_eq_true, if_false,
        and_self]

def unsized (content : Value) : Option Fault :=
  match contentLength content with
  | .error f => some f
  | .ok _ => none

@[simp] theorem unsized_text (t : Text) : unsized (.text t) = none := rfl

def ask (ops : ServiceOps W S) (path content : Value) (s : S) (l : Loader W S) :
    Except Fault Value × Loader W S :=
  match contentLength content with
  | .error f => (.error f, l)
  | .ok n =>
    let l := l.note .debug ("Compiling " ++ path.display ++ " (" ++ Text.ofNat n ++ " chars)")
    let (r, s, w) := ops.compile path content s l.state
    (r, ⟨some s, w⟩)

theorem attempt_held (ops : ServiceOps W S) (path content : Value) {s : S} {l : Loader W S}
    (hs : l.slot = some s) : l.attempt ops path content = l.ask ops path content s := by
  simp only [attempt, service, hs]
  rfl

theorem attempt_refused (ops : ServiceOps W S) (path content : Value) {l : Loader W S} {f : Fault}
    {w : Logged W} (hs : l.slot = none)
    (hc : ops.create (l.note .info "Creating compiler service").state = (.error f, w)) :
    l.attempt ops path content = (.error f, ⟨none, w⟩) := by
  have hn : (l.note .info "Creating compiler service").slot = none := hs
  simp only [attempt, service, hs, hc, hn]

theorem attempt_created (ops : ServiceOps W S) (path content : Value) {l : Loader W S} {s : S}
    {w : Logged W} (hs : l.slot = none)
    (hc : ops.create (l.note .info "Creating compiler service").state = (.ok s, w)) :
    l.attempt ops path content = ask ops path content s ⟨some s, w⟩ := by
  simp only [attempt, service, hs, hc]
  rfl

theorem ask_dead (ops : ChildOps W) (site : Compiler.Site) (s : Settings) (path content : Value)
    {c : Compiler} {l : Loader W Compiler} (hl : l.slot = some c) (hc : c.process = none) :
    (ask (Compiler.service ops site s) path content c l).1 =
      .error ((unsized content).getD Compiler.notRegistered) ∧
    (ask (Compiler.service ops site s) path content c l).2.scene = l.scene := by
  unfold ask unsized
  cases contentLength content with
  | error f => exact ⟨rfl, rfl⟩
  | ok n =>
    simp only [Compiler.service, Compiler.compile_unheld _ _ _ _ _ _ hc, Option.getD_none,
      true_and]
    simp only [scene, hl]
    rfl

end Loader

/-! ## Services over other services

Services in a richer world do the same as others if they do so once what is richer is dropped. Then a
loader of them does the same as well.
-/

section
variable {W S V T : Type} {p : V → W} {q : T → S}

/-- A world apart from the log, seen through a map. -/
def Logged.map (p : V → W) (l : Logged V) : Logged W := ⟨p l.world, l.log⟩

/-- The maps take what the first services do to what the second ones do. -/
structure ServiceOps.Over (ops' : ServiceOps V T) (ops : ServiceOps W S) (p : V → W) (q : T → S) :
    Prop where
  create : ∀ l, ops.create (l.map p) = ((ops'.create l).1.map q, (ops'.create l).2.map p)
  compile : ∀ path content s l, ops.compile path content (q s) (l.map p) =
    ((ops'.compile path content s l).1, q (ops'.compile path content s l).2.1,
      (ops'.compile path content s l).2.2.map p)
  close : ∀ s l, ops.close (q s) (l.map p) = ((ops'.close s l).1, (ops'.close s l).2.map p)

namespace Loader

def map (p : V → W) (q : T → S) (l : Loader V T) : Loader W S := ⟨l.slot.map q, l.state.map p⟩

variable {ops' : ServiceOps V T} {ops : ServiceOps W S} {path content : Value}

theorem ask_over (h : ops'.Over ops p q) (s : T) (l : Loader V T) :
    (l.map p q).ask ops path content (q s) =
      ((l.ask ops' path content s).1, (l.ask ops' path content s).2.map p q) := by
  unfold ask
  cases contentLength content with
  | error f => rfl
  | ok n =>
    exact congrArg (fun x => (x.1, (⟨some x.2.1, x.2.2⟩ : Loader W S))) (h.compile path content s
      (l.note .debug ("Compiling " ++ path.display ++ " (" ++ Text.ofNat n ++ " chars)")).state)

theorem attempt_over (h : ops'.Over ops p q) (l : Loader V T) :
    (l.map p q).attempt ops path content =
      ((l.attempt ops' path content).1, (l.attempt ops' path content).2.map p q) := by
  cases hs : l.slot with
  | some s =>
    have hu : (l.map p q).slot = some (q s) := by simp only [map, hs, Option.map_some]
    rw [attempt_held _ _ _ hs, attempt_held _ _ _ hu]
    exact ask_over h s l
  | none =>
    have hu : (l.map p q).slot = none := by simp only [map, hs, Option.map_none]
    have hc := h.create (l.note .info "Creating compiler service").state
    change ops.create ((l.map p q).note .info _).state = _ at hc
    rcases hd : ops'.create (l.note .info "Creating compiler service").state with ⟨r, w⟩
    rw [hd] at hc
    cases r with
    | error f =>
      rw [attempt_refused _ _ _ hu hc, attempt_refused _ _ _ hs hd]
      rfl
    | ok s =>
      rw [attempt_created _ _ _ hu hc, attempt_created _ _ _ hs hd]
      exact ask_over h s ⟨some s, w⟩

theorem call_over (h : ops'.Over ops p q) (l : Loader V T) :
    (l.map p q).call ops path content =
      ((l.call ops' path content).1, (l.call ops' path content).2.map p q) := by
  unfold call
  rw [attempt_over h]
  rcases l.attempt ops' path content with ⟨r, m⟩
  cases r with
  | ok v => rfl
  | error f =>
    cases hf : f.isOrdinary with
    | true =>
      simp only [hf, if_true]
      rfl
    | false => simp only [hf, Bool.false_eq_true, if_false]

theorem close_over (h : ops'.Over ops p q) (l : Loader V T) :
    (l.map p q).close ops = ((l.close ops').1, (l.close ops').2.map p q) := by
  obtain ⟨slot, m⟩ := l
  cases slot with
  | none => rfl
  | some s =>
    exact congrArg (fun x => (x.1, (⟨none, x.2⟩ : Loader W S))) (h.close s m)

end Loader

end

end ConfigLoader
