import ConfigLoader.Proofs.TypeScript.Projects

/-! # Options of projects over a history

Compilations follow one another while files change. For each directory the options that are kept are
those that the first look-up gave that did not fail, and a compilation uses these or, before there
are any, looks the options up itself.
-/
namespace ConfigLoader.TypeScript
open Script (Code Failure)

namespace Project
variable {ts : TypeScript} {t : FileTree} {dir : Location} {k : Kept}

@[simp] theorem Kept.get?_cons (dir d : Location) (es : Entries) (k : Kept) :
    Kept.get? ((dir, es) :: k) d = if dir = d then some es else k.get? d := by
  by_cases h : dir = d <;> simp [Kept.get?, h]

theorem options_used (ts : TypeScript) (t : FileTree) (dir : Location) (k : Kept) :
    (options ts t dir k).1 = match k.get? dir with
      | some es => .ok es
      | none => lookup ts t dir := by
  unfold options
  cases k.get? dir with
  | some es => rfl
  | none => cases lookup ts t dir <;> rfl

theorem options_kept (ts : TypeScript) (t : FileTree) (dir : Location) (k : Kept) (d : Location) :
    (options ts t dir k).2.get? d =
      if dir = d then (k.get? dir).or (lookup ts t dir).toOption else k.get? d := by
  unfold options
  cases hg : k.get? dir with
  | some es =>
    by_cases h : dir = d
    · subst h
      simp [hg]
    · simp [h]
  | none =>
    cases lookup ts t dir with
    | ok es => simp [Kept.get?_cons, Except.toOption]
    | error f =>
      by_cases h : dir = d
      · simp [Except.toOption, ← hg, h]
      · simp [h]

theorem options_failed {f : Failure} (hg : k.get? dir = none) (hl : lookup ts t dir = .error f) :
    (options ts t dir k).2 = k := by
  simp only [options, hg, hl]

end Project

namespace Pipeline
open Project (Kept)
variable {p : Pipeline} {ts : TypeScript}

/-- Compiles a source with the options of its project, if these and those of the settings can be
had. -/
def compileFrom (p : Pipeline) (ts : TypeScript) (t : FileTree) (file source : Text)
    (project : Except Failure Entries) : Except Rejection Code :=
  match p.converted ts, project with
  | .error f, _ | .ok _, .error f => .error (.failed f)
  | .ok settings, .ok project =>
    p.compileWith ts t file source (Options.effective ts project settings)

/-- Compiling settles the options of the directory of a file and uses nothing else of projects. Where the
options of the settings cannot be had, nothing is looked up. -/
theorem compile_options (hts : p.compiler = .ok ts) (t : FileTree) (file source : Text) (k : Kept) :
    p.compile t file source k =
      (p.compileFrom ts t file source (Project.options ts t (Path.toLocation file).parent k).1,
      match p.converted ts with
      | .error _ => k
      | .ok _ => (Project.options ts t (Path.toLocation file).parent k).2) := by
  unfold compile effective compileFrom
  rw [hts]
  dsimp only
  cases p.converted ts with
  | error f => rfl
  | ok settings =>
    dsimp only
    rcases Project.options ts t (Path.toLocation file).parent k with ⟨r, k'⟩
    cases r <;> rfl

end Pipeline

structure Compilation where
  tree : FileTree
  file : Text
  source : Text
  kept : Project.Kept

namespace Compilation
open Project (Kept)

def directory (a : Compilation) : Location := (Path.toLocation a.file).parent

def run (p : Pipeline) (a : Compilation) : Except Rejection Code × Kept :=
  p.compile a.tree a.file a.source a.kept

def Chained (p : Pipeline) (k : Kept) : List Compilation → Kept → Prop
  | [], k' => k = k'
  | a :: as, k' => a.kept = k ∧ Chained p (a.run p).2 as k'

/-- The options that the first look-up for a directory gave that did not fail. -/
def firstFound? (ts : TypeScript) (dir : Location) (as : List Compilation) : Option Entries :=
  as.findSome? fun a =>
    if a.directory = dir then (Project.lookup ts a.tree dir).toOption else none

/-- The options for a compilation after others: the first that were found for its directory, or
those that are looked up now. -/
def settled (ts : TypeScript) (earlier : List Compilation) (a : Compilation) :
    Except Failure Entries :=
  match firstFound? ts a.directory earlier with
  | some es => .ok es
  | none => Project.lookup ts a.tree a.directory

variable {p : Pipeline} {ts : TypeScript} {k k' : Kept} {a : Compilation}
  {as bs earlier later : List Compilation}

theorem Chained.append {m : Kept} (h : Chained p k as m) (g : Chained p m bs k') :
    Chained p k (as ++ bs) k' := by
  induction as generalizing k with
  | nil =>
    cases h
    exact g
  | cons a as ih => exact ⟨h.1, ih h.2⟩

theorem firstFound?_cons (ts : TypeScript) (dir : Location) (a : Compilation)
    (as : List Compilation) : firstFound? ts dir (a :: as) =
      (if a.directory = dir then (Project.lookup ts a.tree dir).toOption else none).or
        (firstFound? ts dir as) := by
  unfold firstFound?
  rw [List.findSome?_cons]
  split
  · next h => rw [h, Option.some_or]
  · next h => rw [h, Option.none_or]

theorem run_kept (hts : p.compiler = .ok ts) {settings : Entries}
    (hconv : p.converted ts = .ok settings) (a : Compilation) (d : Location) :
    (a.run p).2.get? d = (a.kept.get? d).or
      (if a.directory = d then (Project.lookup ts a.tree d).toOption else none) := by
  rw [run, Pipeline.compile_options hts, hconv]
  dsimp only
  rw [Project.options_kept]
  have hdir : (Path.toLocation a.file).parent = a.directory := rfl
  rw [hdir]
  split
  · next h => rw [h]
  · rw [Option.or_none]

theorem run_keeps (hts : p.compiler = .ok ts) (a : Compilation) {d : Location}
    (h : d ≠ a.directory ∨ (a.kept.get? d).isSome) : (a.run p).2.get? d = a.kept.get? d := by
  cases hconv : p.converted ts with
  | error f =>
    rw [run, Pipeline.compile_options hts, hconv]
  | ok settings =>
    rw [run_kept hts hconv]
    rcases h with h | h
    · rw [if_neg (Ne.symm h), Option.or_none]
    · obtain ⟨es, hes⟩ := Option.isSome_iff_exists.mp h
      rw [hes, Option.some_or]

theorem run_failed (hts : p.compiler = .ok ts) {f : Failure} (hg : a.kept.get? a.directory = none)
    (hl : Project.lookup ts a.tree a.directory = .error f) : (a.run p).2 = a.kept := by
  rw [run, Pipeline.compile_options hts]
  cases p.converted ts with
  | error f => rfl
  | ok settings => exact Project.options_failed hg hl

/-- What is kept for a directory after compilations, by induction on them: what was kept before, or
the first that was found. -/
theorem Chained.kept (hts : p.compiler = .ok ts) {settings : Entries}
    (hconv : p.converted ts = .ok settings) (h : Chained p k (earlier ++ a :: later) k')
    (d : Location) : a.kept.get? d = (k.get? d).or (firstFound? ts d earlier) := by
  induction earlier generalizing k with
  | nil =>
    rw [h.1]
    exact Option.or_none.symm
  | cons b earlier ih =>
    rw [ih h.2, run_kept hts hconv, h.1, firstFound?_cons, Option.or_assoc]

/-- Where nothing was kept at first, each compilation uses the options that are settled for it. -/
theorem Chained.run (hts : p.compiler = .ok ts) (h : Chained p [] (earlier ++ a :: later) k') :
    (a.run p).1 = p.compileFrom ts a.tree a.file a.source (settled ts earlier a) := by
  have hdir : (Path.toLocation a.file).parent = a.directory := rfl
  have hnone : Kept.get? [] a.directory = none := rfl
  rw [Compilation.run, Pipeline.compile_options hts]
  cases hconv : p.converted ts with
  | error f => simp only [Pipeline.compileFrom, hconv]
  | ok settings =>
    rw [Project.options_used, hdir, h.kept hts hconv, hnone, Option.none_or, settled]

theorem settled_same (hsame : ∀ b ∈ earlier, Project.SameProjects ts b.tree a.tree) :
    settled ts earlier a = Project.lookup ts a.tree a.directory := by
  have hproper : Path.AreProper a.directory := Pipeline.parent_proper a.file
  unfold settled
  cases hf : firstFound? ts a.directory earlier with
  | none => rfl
  | some es =>
    obtain ⟨b, hb, hfound⟩ := List.exists_of_findSome?_eq_some hf
    rw [hsame b hb _ hproper] at hfound
    split at hfound
    · cases hl : Project.lookup ts a.tree a.directory with
      | ok es' =>
        rw [hl] at hfound
        cases hfound
        rfl
      | error f =>
        rw [hl] at hfound
        cases hfound
    · cases hfound

end Compilation
end ConfigLoader.TypeScript
