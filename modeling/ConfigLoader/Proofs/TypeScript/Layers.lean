import ConfigLoader.Proofs.Value.Merge
import ConfigLoader.TypeScript.Pipeline

/-! # How a source is compiled

The options for a file have, for each name, what the topmost layer gives that has it: the fixed
options, then the settings, then the project. With them a source is transpiled, or checked and
emitted, and it is transpiled after a check only where the check emitted no script.
-/
namespace ConfigLoader.TypeScript
open Script (Code)

namespace Options

def given? (layer : Entries) (name : Text) : Option Value := Entries.get? layer.reverse (.text name)

/-- The options that a project and settings come to, name by name. -/
def Layered (ts : TypeScript) (project settings options : Entries) : Prop :=
  ∀ name, Entries.get? options (.text name) =
    if name ∈ dropped then none
    else (given? (fixed ts) name).or ((given? settings name).or (Entries.get? project (.text name)))

theorem given?_cons (e : Value × Value) (layer : Entries) (name : Text) :
    given? (e :: layer) name =
      (given? layer name).or (if e.1.sameKey (.text name) then some e.2 else none) := by
  unfold given? Entries.get?
  rw [List.reverse_cons, List.find?_append]
  cases h : e.1.sameKey (.text name) <;>
    cases layer.reverse.find? (fun e => e.1.sameKey (.text name)) <;> simp [h]

theorem get?_assign (below layer : Entries) (name : Text) :
    Entries.get? (assign below layer) (.text name) =
      (given? layer name).or (Entries.get? below (.text name)) := by
  induction layer generalizing below with
  | nil => rfl
  | cons e layer ih =>
    have h := ih (below.put e.1 e.2)
    rw [assign, List.foldl_cons, ← assign, h, Entries.get?_put, given?_cons, Option.or_assoc]
    split <;> rfl

theorem get?_kept (es : Entries) (name : Text) :
    Entries.get? (es.filter fun e => !isDropped e) (.text name) =
      if dropped.contains name then none else Entries.get? es (.text name) := by
  have hkey : ∀ e : Value × Value, e.1.sameKey (.text name) = true →
      isDropped e = dropped.contains name := by
    intro e he
    rw [Value.sameKey_text] at he
    rw [isDropped, he, Json.Canonical.keyText]
  induction es with
  | nil => simp [Entries.get?]
  | cons e es ih =>
    have hcons : ∀ fs : Entries, Entries.get? (e :: fs) (.text name) =
        if e.1.sameKey (.text name) then some e.2 else Entries.get? fs (.text name) :=
      fun fs => Keyed.get?_cons e fs (.text name)
    rw [List.filter_cons, hcons]
    cases he : e.1.sameKey (.text name) with
    | true =>
      rw [hkey e he]
      cases hd : dropped.contains name with
      | true =>
        rw [hd, if_pos rfl] at ih
        exact ih
      | false =>
        rw [Bool.not_false, if_pos rfl, hcons, he]
        rfl
    | false =>
      rw [if_neg Bool.false_ne_true, ← ih]
      split
      · rw [hcons, he, if_neg Bool.false_ne_true]
      · rfl

theorem effective_layered (ts : TypeScript) (project settings : Entries) :
    Layered ts project settings (effective ts project settings) := by
  intro name
  rw [effective, get?_kept, get?_assign, get?_assign]
  simp only [List.contains_iff_mem]

def turnedOff : List Text := [
  "noEmit", "noEmitOnError", "emitDeclarationOnly", "declaration", "sourceMap", "inlineSourceMap",
  "composite", "incremental"]

theorem Layered.fixed {ts : TypeScript} {project settings options : Entries}
    (h : Layered ts project settings options) :
    Entries.get? options "module" = some ts.commonJS ∧
      (∀ name ∈ turnedOff, Entries.get? options (.text name) = some (.bool false)) ∧
      ∀ name ∈ dropped, Entries.get? options (.text name) = none := by
  have hoff : ∀ name ∈ turnedOff,
      name ∉ dropped ∧ given? (Options.fixed ts) name = some (.bool false) := by
    simp only [turnedOff, List.forall_mem_cons]
    exact ⟨⟨by decide, rfl⟩, ⟨by decide, rfl⟩, ⟨by decide, rfl⟩, ⟨by decide, rfl⟩, ⟨by decide, rfl⟩,
      ⟨by decide, rfl⟩, ⟨by decide, rfl⟩, ⟨by decide, rfl⟩, nofun⟩
  refine ⟨?_, fun name hname => ?_, fun name hname => ?_⟩
  · have hmodule : given? (Options.fixed ts) "module" = some ts.commonJS := rfl
    rw [h "module", if_neg (by decide), hmodule, Option.some_or]
  · rw [h name, if_neg (hoff name hname).1, (hoff name hname).2, Option.some_or]
  · rw [h name, if_pos hname]

end Options

/-! ## Modes -/

namespace Pipeline

def errorsOf (fs : List Finding) : List Finding := fs.filter Finding.isError

inductive Transpiles (ts : TypeScript) (file source : Text) (options : Entries) :
    Except Rejection Code → Prop
  | rejected (h : errorsOf (ts.transpile file source options).1 ≠ []) :
    Transpiles ts file source options
      (.error (.found (errorsOf (ts.transpile file source options).1)))
  | accepted (h : errorsOf (ts.transpile file source options).1 = []) :
    Transpiles ts file source options (.ok (ts.transpile file source options).2)

/-- A source is checked and emitted: errors before that reject it, then those of emitting it, and
the last script is taken. Where no script is emitted the source is transpiled. -/
inductive Checks (ts : TypeScript) (host : Host) (file source : Text) (options : Entries) :
    Except Rejection Code → Prop
  | rejected (h : errorsOf (ts.check host file options).before ≠ []) :
    Checks ts host file source options
      (.error (.found (errorsOf (ts.check host file options).before)))
  | failed (hbefore : errorsOf (ts.check host file options).before = [])
      (h : errorsOf (ts.check host file options).emitting ≠ []) :
    Checks ts host file source options
      (.error (.found (errorsOf (ts.check host file options).emitting)))
  | emitted {others : List (Text × Code)} {name : Text} {code : Code}
      (hbefore : errorsOf (ts.check host file options).before = [])
      (hemitting : errorsOf (ts.check host file options).emitting = [])
      (h : ((ts.check host file options).files.filter fun f => isScript f.1) =
        others ++ [(name, code)]) :
    Checks ts host file source options (.ok code)
  | skipped {r : Except Rejection Code}
      (hbefore : errorsOf (ts.check host file options).before = [])
      (hemitting : errorsOf (ts.check host file options).emitting = [])
      (hnone : ∀ f ∈ (ts.check host file options).files, isScript f.1 = false)
      (h : Transpiles ts file source options r) : Checks ts host file source options r

theorem failOn_eq (fs : List Finding) :
    failOn fs = if errorsOf fs = [] then .ok () else .error (.found (errorsOf fs)) := by
  unfold failOn errorsOf
  cases fs.filter Finding.isError <;> simp

theorem transpile_transpiles (ts : TypeScript) (file source : Text) (options : Entries) :
    Transpiles ts file source options (transpile ts file source options) := by
  simp only [transpile, failOn_eq]
  split
  · next h => exact .accepted h
  · next h => exact .rejected h

theorem check_checks (ts : TypeScript) (host : Host) (file source : Text) (options : Entries) :
    Checks ts host file source options (check ts host file source options) := by
  simp only [check, failOn_eq]
  split
  · next hbefore =>
    split
    · next hemitting =>
      simp only [bind, Except.bind]
      cases hl : ((ts.check host file options).files.filter fun f => isScript f.1).getLast? with
      | some f =>
        obtain ⟨others, h⟩ := List.getLast?_eq_some_iff.mp hl
        exact .emitted hbefore hemitting h
      | none =>
        refine .skipped hbefore hemitting (fun f hf => ?_) (transpile_transpiles ts file source _)
        have hnil := List.filter_eq_nil_iff.mp (List.getLast?_eq_none_iff.mp hl)
        exact Bool.eq_false_iff.mpr (hnil f hf)
    · next hemitting => exact .failed hbefore hemitting
  · next hbefore => exact .rejected hbefore

theorem compileWith_mode (p : Pipeline) (ts : TypeScript) (t : FileTree) (file source : Text)
    (options : Entries) :
    if p.typeCheck then
      Checks ts (host t p.here file source) file source options
        (p.compileWith ts t file source options)
    else Transpiles ts file source options (p.compileWith ts t file source options) := by
  unfold compileWith
  split
  · exact check_checks ts _ file source options
  · exact transpile_transpiles ts file source options

end Pipeline
end ConfigLoader.TypeScript
