import ConfigLoader.Proofs.Loader.Call

/-! # What a call comes to

A call gets the service, measures the content and has it compiled, in this order, and stops at the first
stage that fails. Its answer and the loader after it are told by the stages that it went through.
-/
namespace ConfigLoader
variable {W S : Type}

@[simp] theorem Text.afterStart?_eq_some {p t r : Text} : afterStart? p t = some r ↔ t = p ++ r := by
  induction p generalizing t with
  | nil => simp [afterStart?]
  | cons a p ih =>
    cases t with
    | nil => simp [afterStart?]
    | cons b t =>
      rw [afterStart?, List.cons_append, List.cons.injEq]
      by_cases h : a = b
      · rw [if_pos h, ih]
        simp [h]
      · rw [if_neg h]
        simp [Ne.symm h]

/-! ## Faults that a call raises -/

namespace Fault
variable {f g : Fault} {t r r' : Text}

def reportHeading : Text := "TypeScriptLoader failed to compile TypeScript:\n"

def diagnosticsHeading : Text := "Unable to compile TypeScript:\n"

inductive Unheaded (t : Text) : Text → Prop
  | headed {r : Text} (h : t = diagnosticsHeading ++ r) : Unheaded t r
  | plain (h : ¬ diagnosticsHeading <+: t) : Unheaded t t

/-- What a call raises for a fault: a new one for an ordinary fault, and any other one as it is. -/
inductive Raised (f : Fault) : Fault → Prop
  | wrapped {g : Fault} {r : Text} (ordinary : f.kind.isA .exception = true)
      (kind : g.kind = .compileError) (cause : g.cause = some f) (chained : g.chained = true)
      (unheaded : Unheaded f.message r) (message : g.message = reportHeading ++ r) : Raised f g
  | other (h : f.kind.isA .exception = false) : Raised f f

theorem Unheaded.unique (h : Unheaded t r) (h' : Unheaded t r') : r = r' := by
  cases h with
  | headed h =>
    cases h' with
    | headed h' => exact List.append_cancel_left (h.symm.trans h')
    | plain h' => exact absurd ⟨r, h.symm⟩ h'
  | plain h =>
    cases h' with
    | headed h' => exact absurd ⟨r', h'.symm⟩ h
    | plain h' => rfl

theorem unheaded_dropStart (t : Text) : Unheaded t (Text.dropStart heading t) := by
  rw [Text.dropStart]
  cases h : Text.afterStart? heading t with
  | some r => exact .headed (Text.afterStart?_eq_some.mp h)
  | none =>
    refine .plain ?_
    rintro ⟨r, hr⟩
    rw [(Text.afterStart?_eq_some (p := heading)).mpr hr.symm] at h
    cases h

theorem raised_reported (f : Fault) : f.Raised f.reported := by
  unfold reported
  split
  · next h => exact .wrapped h rfl rfl rfl (unheaded_dropStart f.message) rfl
  · next h => exact .other (by simpa [isOrdinary] using h)

end Fault

namespace Loader

/-! ## The stages -/

/-- A service that a call gets: the one in the slot, or one that is created for the empty slot. -/
inductive Acquires (ops : ServiceOps W S) (l : Loader W S) (s : S) : Logged W → Prop
  | held (h : l.slot = some s) : Acquires ops l s l.state
  | created {w : Logged W} (h : l.slot = none)
      (hc : ops.create (l.state.record ⟨.info, .loader, "Creating compiler service"⟩) = (.ok s, w)) :
      Acquires ops l s w

/-- The stages of a call up to the first that fails, with what is in the slot and the world then. -/
inductive Staged (ops : ServiceOps W S) (path content : Value) (l : Loader W S) :
    Except Fault Value → Option S → Logged W → Prop
  | refused {f : Fault} {w : Logged W} (h : l.slot = none)
      (hc : ops.create (l.state.record ⟨.info, .loader, "Creating compiler service"⟩) = (.error f, w)) :
      Staged ops path content l (.error f) none w
  | unmeasured {s : S} {w : Logged W} {f : Fault} (hs : Acquires ops l s w)
      (hn : contentLength content = .error f) : Staged ops path content l (.error f) (some s) w
  | compiled {s s' : S} {w w' : Logged W} {n : Nat} {r : Except Fault Value} (hs : Acquires ops l s w)
      (hn : contentLength content = .ok n)
      (hr : ops.compile path content s (w.record ⟨.debug, .loader,
        "Compiling " ++ path.display ++ " (" ++ Text.ofNat n ++ " chars)"⟩) = (r, s', w')) :
      Staged ops path content l r (some s') w'

variable {ops : ServiceOps W S} {path content : Value} {l : Loader W S} {s : S} {w : Logged W}

theorem ask_staged (hs : Acquires ops l s w) :
    Staged ops path content l (ask ops path content s ⟨some s, w⟩).1
      (ask ops path content s ⟨some s, w⟩).2.slot (ask ops path content s ⟨some s, w⟩).2.state := by
  rw [ask]
  cases hn : contentLength content with
  | error f => exact .unmeasured hs hn
  | ok n => exact .compiled hs hn rfl

theorem attempt_staged (ops : ServiceOps W S) (path content : Value) (l : Loader W S) :
    Staged ops path content l (l.attempt ops path content).1 (l.attempt ops path content).2.slot
      (l.attempt ops path content).2.state := by
  cases hs : l.slot with
  | some s =>
    obtain ⟨slot, w⟩ := l
    obtain rfl : slot = some s := hs
    rw [attempt_held ops path content rfl]
    exact ask_staged (.held rfl)
  | none =>
    rcases hc : ops.create (l.note .info "Creating compiler service").state with ⟨r, w⟩
    cases r with
    | error f =>
      rw [attempt_refused ops path content hs hc]
      exact .refused hs hc
    | ok s =>
      rw [attempt_created ops path content hs hc]
      exact ask_staged (.created hs hc)

theorem not_acquires {f : Fault} {w' : Logged W} (h : l.slot = none)
    (hc : ops.create (l.state.record ⟨.info, .loader, "Creating compiler service"⟩) = (.error f, w')) :
    ¬ Acquires ops l s w := by
  rintro (h' | ⟨-, hc'⟩)
  · cases h.symm.trans h'
  · cases hc.symm.trans hc'

theorem Acquires.unique {s' : S} {w' : Logged W} (h : Acquires ops l s w) (h' : Acquires ops l s' w') :
    s = s' ∧ w = w' := by
  cases h with
  | held h =>
    cases h' with
    | held h' => exact ⟨Option.some.inj (h.symm.trans h'), rfl⟩
    | created h' => cases h.symm.trans h'
  | created h hc =>
    cases h' with
    | held h' => cases h.symm.trans h'
    | created h' hc' =>
      obtain ⟨hs, rfl⟩ := Prod.mk.inj (hc.symm.trans hc')
      exact ⟨Except.ok.inj hs, rfl⟩

theorem Staged.unique {r r' : Except Fault Value} {o o' : Option S} {w w' : Logged W}
    (h : Staged ops path content l r o w) (h' : Staged ops path content l r' o' w') :
    r = r' ∧ o = o' ∧ w = w' := by
  cases h with
  | refused h hc =>
    cases h' with
    | refused h' hc' =>
      obtain ⟨hf, rfl⟩ := Prod.mk.inj (hc.symm.trans hc')
      exact ⟨congrArg Except.error (Except.error.inj hf), rfl, rfl⟩
    | unmeasured hs | compiled hs => exact absurd hs (not_acquires h hc)
  | unmeasured hs hn =>
    cases h' with
    | refused h' hc' => exact absurd hs (not_acquires h' hc')
    | unmeasured hs' hn' =>
      obtain ⟨rfl, rfl⟩ := hs.unique hs'
      exact ⟨congrArg Except.error (Except.error.inj (hn.symm.trans hn')), rfl, rfl⟩
    | compiled hs' hn' => cases hn.symm.trans hn'
  | compiled hs hn hr =>
    cases h' with
    | refused h' hc' => exact absurd hs (not_acquires h' hc')
    | unmeasured hs' hn' => cases hn.symm.trans hn'
    | compiled hs' hn' hr' =>
      obtain ⟨rfl, rfl⟩ := hs.unique hs'
      obtain rfl := Except.ok.inj (hn.symm.trans hn')
      obtain ⟨rfl, hrest⟩ := Prod.mk.inj (hr.symm.trans hr')
      obtain ⟨rfl, rfl⟩ := Prod.mk.inj hrest
      exact ⟨rfl, rfl, rfl⟩

/-! ## Calls on record -/

/-- A world that keeps the paths and contents that were compiled in it. -/
structure Recorded (W : Type) where
  world : W
  calls : List (Value × Value)

def unrecorded (l : Logged (Recorded W)) : Logged W := l.map Recorded.world

/-- The same services in a world that keeps record. -/
def recording (ops : ServiceOps W S) : ServiceOps (Recorded W) S where
  create l :=
    let (r, w) := ops.create (unrecorded l)
    (r, w.map (⟨·, l.world.calls⟩))
  compile path content s l :=
    let (r, s', w) := ops.compile path content s (unrecorded l)
    (r, s', w.map (⟨·, l.world.calls ++ [(path, content)]⟩))
  close s l :=
    let (r, w) := ops.close s (unrecorded l)
    (r, w.map (⟨·, l.world.calls⟩))

theorem recording_over (ops : ServiceOps W S) : (recording ops).Over ops Recorded.world id where
  create l := by
    change ops.create (unrecorded l) = ((ops.create (unrecorded l)).1.map id,
      ((ops.create (unrecorded l)).2.map (⟨·, l.world.calls⟩)).map Recorded.world)
    rcases ops.create (unrecorded l) with ⟨r, w⟩
    cases r <;> rfl
  compile _ _ _ _ := rfl
  close _ _ := rfl

section Recording
variable {l : Loader (Recorded W) S} {r : Except Fault Value} {o : Option S} {s : S}
  {w : Logged (Recorded W)}

theorem Acquires.calls (h : Acquires (recording ops) l s w) : w.world.calls = l.state.world.calls := by
  cases h with
  | held h => rfl
  | created h hc =>
    rw [← (Prod.mk.inj hc).2]
    rfl

/-- The first two stages of a call pass. -/
def Passes (ops : ServiceOps W S) (content : Value) (l : Loader W S) : Prop :=
  (∃ s w, Acquires ops l s w) ∧ ∃ n, contentLength content = .ok n

theorem Staged.acquires {ops : ServiceOps W S} {l : Loader W S} {w : Logged W}
    (h : Staged ops path content l r o w) : (∃ s w, Acquires ops l s w) ↔ o.isSome = true := by
  cases h with
  | refused h hc =>
    simp only [Option.isSome_none, Bool.false_eq_true, iff_false]
    rintro ⟨s, w, hs⟩
    exact not_acquires h hc hs
  | unmeasured hs hn => exact ⟨fun _ => rfl, fun _ => ⟨_, _, hs⟩⟩
  | compiled hs hn hr => exact ⟨fun _ => rfl, fun _ => ⟨_, _, hs⟩⟩

/-- A compilation is on record exactly if the first two stages pass. -/
theorem Staged.calls (h : Staged (recording ops) path content l r o w) :
    (Passes (recording ops) content l → w.world.calls = l.state.world.calls ++ [(path, content)]) ∧
    (¬ Passes (recording ops) content l → w.world.calls = l.state.world.calls) := by
  have hacquires := h.acquires
  cases h with
  | refused h hc =>
    constructor
    · rintro ⟨hs, -⟩
      cases hacquires.mp hs
    · intro _
      rw [← (Prod.mk.inj hc).2]
      rfl
  | unmeasured hs hn =>
    constructor
    · rintro ⟨-, n, hn'⟩
      rw [hn] at hn'
      cases hn'
    · intro _
      exact hs.calls
  | compiled hs hn hr =>
    constructor
    · intro _
      rw [← (Prod.mk.inj (Prod.mk.inj hr).2).2, ← hs.calls]
      rfl
    · intro hno
      exact absurd ⟨⟨_, _, hs⟩, _, hn⟩ hno

end Recording

/-- The answer of a call whose stages end with a value or a fault. -/
inductive Answers : Except Fault Value → Except Fault Value → Prop
  | value (v : Value) : Answers (.ok v) (.ok v)
  | fault {f g : Fault} (h : f.Raised g) : Answers (.error f) (.error g)

theorem answers_answer (r : Except Fault Value) : Answers r (answer r) := by
  cases r with
  | ok v => exact .value v
  | error f => exact .fault (Fault.raised_reported f)

/-- A call goes through its stages and answers with what they end with, an ordinary fault as the cause of a
new one. A compilation is on record exactly if the first two stages pass, a service stays in the slot
exactly if the first one does, and keeping record changes nothing. -/
theorem call_outcome (ops : ServiceOps W S) (path content : Value) (l : Loader (Recorded W) S) :
    ∃ a l', l.call (recording ops) path content = (a, l') ∧
      (∃ r w, Staged (recording ops) path content l r l'.slot w ∧ Answers r a ∧
        l'.state.world = w.world) ∧
      (Passes (recording ops) content l → l'.state.world.calls = l.state.world.calls ++ [(path, content)]) ∧
      (¬ Passes (recording ops) content l → l'.state.world.calls = l.state.world.calls) ∧
      ((∃ s w, Acquires (recording ops) l s w) ↔ l'.slot.isSome = true) ∧
      (l.map Recorded.world id).call ops path content = (a, l'.map Recorded.world id) := by
  obtain ⟨hanswer, hscene⟩ := call_attempt (recording ops) path content l
  obtain ⟨hslot, hworld⟩ := Prod.mk.inj hscene
  have hstaged := attempt_staged (recording ops) path content l
  obtain ⟨hcalls, hno⟩ := hstaged.calls
  have hacquires := hstaged.acquires
  have hanswers := answers_answer (l.attempt (recording ops) path content).1
  rw [← hslot] at hstaged hacquires
  rw [← hworld] at hcalls hno
  rw [← hanswer] at hanswers
  refine ⟨_, _, rfl, ⟨_, _, hstaged, hanswers, hworld⟩, hcalls, hno, hacquires, ?_⟩
  exact call_over (recording_over ops) l

end Loader
end ConfigLoader
