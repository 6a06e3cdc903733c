import ConfigLoader.TypeScript.Pipeline

/-! # The gate of errors

A compilation consults lists of findings, one after another. It ends with the errors of the first list
that holds any, and with code where none does.
-/
namespace ConfigLoader.TypeScript
open Script (Code)

def Clean (fs : List Finding) : Prop := ∀ f ∈ fs, f.category ≠ some .error

@[simp] theorem filter_isError_eq_nil {fs : List Finding} : fs.filter Finding.isError = [] ↔ Clean fs := by
  simp [Clean, List.filter_eq_nil_iff, Finding.isError]

theorem exists_error {fs : List Finding} (h : ¬ Clean fs) :
    ∃ e es, fs.filter Finding.isError = e :: es :=
  List.exists_cons_of_ne_nil fun hnil => h (filter_isError_eq_nil.mp hnil)

namespace Pipeline
variable {p : Pipeline} {ts : TypeScript} {t : FileTree} {file source : Text} {options : Entries}

/-- The lists of findings that are consulted, as long as they are clean: those of a transpilation, or
those of a check, and of a transpilation after it if no script was emitted. -/
def consulted (p : Pipeline) (ts : TypeScript) (t : FileTree) (file source : Text)
    (options : Entries) : List (List Finding) :=
  let alone := (ts.transpile file source options).1
  if p.typeCheck then
    let r := ts.check (host t p.here file source) file options
    let after := if r.files.any fun f => isScript f.1 then [] else [alone]
    r.before :: r.emitting :: after
  else [alone]

def firstErrors : List (List Finding) → List Finding
  | [] => []
  | fs :: lists =>
    match fs.filter Finding.isError with
    | [] => firstErrors lists
    | es => es

theorem firstErrors_clean {fs : List Finding} {lists : List (List Finding)} (h : Clean fs) :
    firstErrors (fs :: lists) = firstErrors lists := by
  rw [firstErrors, filter_isError_eq_nil.mpr h]

theorem firstErrors_found {fs : List Finding} {lists : List (List Finding)} (h : ¬ Clean fs) :
    firstErrors (fs :: lists) = fs.filter Finding.isError := by
  obtain ⟨e, es, he⟩ := exists_error h
  rw [firstErrors, he]

theorem firstErrors_eq_nil {lists : List (List Finding)} :
    firstErrors lists = [] ↔ ∀ fs ∈ lists, Clean fs := by
  induction lists with
  | nil => simp [firstErrors]
  | cons fs lists ih =>
    rw [List.forall_mem_cons]
    by_cases h : Clean fs
    · rw [firstErrors_clean h, ih, and_iff_right h]
    · rw [firstErrors_found h, filter_isError_eq_nil]
      exact ⟨fun h' => absurd h' h, fun h' => h'.1⟩

theorem firstErrors_append {clean lists : List (List Finding)} (h : ∀ fs ∈ clean, Clean fs) :
    firstErrors (clean ++ lists) = firstErrors lists := by
  induction clean with
  | nil => rfl
  | cons fs clean ih =>
    rw [List.cons_append, firstErrors_clean (h fs (List.mem_cons_self ..))]
    exact ih fun gs hgs => h gs (List.mem_cons_of_mem _ hgs)

/-! ## Passing the gate -/

theorem failOn_clean {fs : List Finding} (h : Clean fs) : failOn fs = .ok () := by
  rw [failOn, filter_isError_eq_nil.mpr h]

theorem failOn_found {fs : List Finding} (h : ¬ Clean fs) :
    failOn fs = .error (.found (fs.filter Finding.isError)) := by
  obtain ⟨e, es, he⟩ := exists_error h
  rw [failOn, he]

def gated (lists : List (List Finding)) (code : Code) : Except Rejection Code :=
  match firstErrors lists with
  | [] => .ok code
  | es => .error (.found es)

@[simp] theorem gated_nil (code : Code) : gated [] code = .ok code := rfl

theorem gated_cons (fs : List Finding) (lists : List (List Finding)) (code : Code) :
    gated (fs :: lists) code = (failOn fs).bind fun _ => gated lists code := by
  by_cases h : Clean fs
  · rw [failOn_clean h, gated, firstErrors_clean h]
    rfl
  · obtain ⟨e, es, he⟩ := exists_error h
    rw [failOn_found h, gated, firstErrors_found h, he]
    rfl

/-- Nothing is let through exactly if a list holds an error. -/
theorem gated_error_iff {lists : List (List Finding)} {code : Code} :
    (∃ r, gated lists code = .error r) ↔ ∃ fs ∈ lists, ¬ Clean fs := by
  have hclean := @firstErrors_eq_nil lists
  rw [gated]
  constructor
  · rintro ⟨r, hr⟩
    refine Classical.byContradiction fun hno => ?_
    have hnil := hclean.mpr fun fs hfs => Classical.byContradiction fun h => hno ⟨fs, hfs, h⟩
    rw [hnil] at hr
    cases hr
  · rintro ⟨fs, hfs, herror⟩
    obtain ⟨e, es, he⟩ := List.exists_cons_of_ne_nil fun hnil => herror (hclean.mp hnil fs hfs)
    exact ⟨_, by rw [he]⟩

theorem gated_found {before after : List (List Finding)} {fs : List Finding}
    (hbefore : ∀ gs ∈ before, Clean gs) (hfs : ¬ Clean fs) (code : Code) :
    gated (before ++ fs :: after) code = .error (.found (fs.filter Finding.isError)) := by
  obtain ⟨e, es, he⟩ := exists_error hfs
  rw [gated, firstErrors_append hbefore, firstErrors_found hfs, he]

theorem transpile_gated (ts : TypeScript) (file source : Text) (options : Entries) :
    transpile ts file source options =
      gated [(ts.transpile file source options).1] (ts.transpile file source options).2 := by
  rw [gated_cons]
  rfl

theorem check_gated (ts : TypeScript) (h : Host) (file source : Text) (options : Entries) :
    ∃ code, check ts h file source options =
      gated ((ts.check h file options).before :: (ts.check h file options).emitting ::
        if (ts.check h file options).files.any fun f => isScript f.1 then []
        else [(ts.transpile file source options).1]) code := by
  generalize hr : ts.check h file options = r
  cases hscript : (r.files.filter fun f => isScript f.1).getLast? with
  | none =>
    have hany : (r.files.any fun f => isScript f.1) = false := by
      rw [List.getLast?_eq_none_iff, List.filter_eq_nil_iff] at hscript
      rw [List.any_eq_false]
      exact hscript
    refine ⟨(ts.transpile file source options).2, ?_⟩
    rw [hany, gated_cons, gated_cons, if_neg Bool.false_ne_true, ← transpile_gated]
    simp only [check, hr, hscript]
    rfl
  | some f =>
    have hany : (r.files.any fun f => isScript f.1) = true := by
      have hmem := List.mem_filter.mp (List.mem_of_getLast? hscript)
      exact List.any_eq_true.mpr ⟨f, hmem.1, hmem.2⟩
    refine ⟨f.2, ?_⟩
    rw [hany, gated_cons, gated_cons, if_pos rfl, gated_nil]
    simp only [check, hr, hscript]
    rfl

/-- A compilation lets its code through exactly if the lists that it consults are clean. -/
theorem compileWith_gated (p : Pipeline) (ts : TypeScript) (t : FileTree) (file source : Text)
    (options : Entries) : ∃ code, p.compileWith ts t file source options =
      gated (p.consulted ts t file source options) code := by
  cases hcheck : p.typeCheck with
  | true =>
    obtain ⟨code, hcode⟩ := check_gated ts (host t p.here file source) file source options
    refine ⟨code, ?_⟩
    simp only [compileWith, consulted, hcheck, if_true]
    exact hcode
  | false =>
    refine ⟨(ts.transpile file source options).2, ?_⟩
    simp only [compileWith, consulted, hcheck, Bool.false_eq_true, if_false]
    exact transpile_gated ts file source options

end Pipeline
end ConfigLoader.TypeScript
