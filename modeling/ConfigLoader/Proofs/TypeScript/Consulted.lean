import ConfigLoader.Proofs.FileTree.Without
import ConfigLoader.Proofs.TypeScript.Nearest

/-! # What a compilation consults

A compilation looks up the options of a project, and a check reads other files too. Where neither asks
for a file, the source is compiled as if that file was not there; of its own source a check never sees
what the files say.
-/
namespace ConfigLoader.TypeScript
open Project (Kept)

def Host.AgreeAt (h h' : Host) (name : Text) : Prop :=
  h'.fileExists name = h.fileExists name ∧ h'.sourceText name = h.sourceText name ∧
    h'.readFile name = h.readFile name

/-- A look-up for a directory does not ask for a place: what is there makes no difference to it. -/
def Project.LooksElsewhere (ts : TypeScript) (t : FileTree) (l dir : Location) : Prop :=
  Project.lookup ts (t.without l) dir = Project.lookup ts t dir

/-- A check does not ask for a place under any name but one of its own source: other answers to such
names make no difference to it. -/
def Overlooks (ts : TypeScript) (t : FileTree) (here l : Location) (file source : Text)
    (options : Entries) : Prop :=
  ∀ h : Host,
    (∀ name, (t.locate name = .ok l → (Path.resolve here name).text = file) →
      (Pipeline.host t here file source).AgreeAt h name) →
    ts.check h file options = ts.check (Pipeline.host t here file source) file options

namespace Pipeline

/-- A compilation does not come upon a place: where it looks options up, they are those without what is
there, and if it checks its source, the check does not ask for the place under another name. -/
structure PassesBy (p : Pipeline) (t : FileTree) (l : Location) (file source : Text) (k : Kept) :
    Prop where
  configurations : k.get? (Path.toLocation file).parent = none → ∀ ts, p.compiler = .ok ts →
    Project.LooksElsewhere ts t l (Path.toLocation file).parent
  checks : p.typeCheck = true → ∀ ts options, p.compiler = .ok ts →
    (p.effective ts t file k).1 = .ok options → Overlooks ts t p.here l file source options

variable {p : Pipeline} {ts : TypeScript} {t : FileTree} {l : Location} {file source : Text} {k : Kept}

theorem effective_without (hts : p.compiler = .ok ts) (h : p.PassesBy t l file source k) :
    p.effective ts (t.without l) file k = p.effective ts t file k := by
  have hoptions : Project.options ts (t.without l) (Path.toLocation file).parent k =
      Project.options ts t (Path.toLocation file).parent k := by
    unfold Project.options
    cases hk : k.get? (Path.toLocation file).parent with
    | some es => rfl
    | none =>
      dsimp only
      rw [show Project.lookup ts (t.without l) _ = Project.lookup ts t _ from
        h.configurations hk ts hts]
  rw [effective, effective, hoptions]

theorem host_without (hf : t.FileAt l) (hl : l ≠ []) (here : Location) (file source : Text)
    {name : Text} (h : t.locate name = .ok l → (Path.resolve here name).text = file) :
    (host t here file source).AgreeAt (host (t.without l) here file source) name := by
  by_cases hown : (Path.resolve here name).text = file
  · simp only [Host.AgreeAt, host, hown, beq_self_eq_true, Bool.true_or, if_true, and_self]
  · have hb : ((Path.resolve here name).text == file) = false := by simpa using hown
    have hp : t.locate name ≠ .ok l := fun hp => hown (h hp)
    simp only [Host.AgreeAt, host, hb, Bool.false_or, Bool.false_eq_true, if_false,
      FileTree.text?_without hf hl hp, FileTree.hasFile_without hf hl hp, and_self]

theorem compile_without (hf : t.FileAt l) (hl : l ≠ []) (h : p.PassesBy t l file source k) :
    p.compile (t.without l) file source k = p.compile t file source k := by
  unfold compile
  cases hts : p.compiler with
  | error f => rfl
  | ok ts =>
    dsimp only
    rw [effective_without hts h]
    rcases he : p.effective ts t file k with ⟨_ | options, k'⟩
    · rfl
    · dsimp only
      unfold compileWith
      cases hcheck : p.typeCheck with
      | false => rfl
      | true =>
        have hsame := h.checks hcheck ts options hts (by rw [he])
          (host (t.without l) p.here file source) fun name => host_without hf hl p.here file source
        simp only [if_true, check, hsame]

/-! ## Trees without links -/

/-- Without links a check of the file itself does not see what stands there: every name of its place
is one of its own source. -/
theorem overlooks_own (ts : TypeScript) (ht : t.LinkFree) (hcwd : Path.AreProper t.cwd)
    (source : Text) (options : Entries) :
    Overlooks ts t t.cwd l l.text source options := by
  intro h hsame
  have hall : ∀ name, (host t t.cwd l.text source).AgreeAt h name := fun name =>
    hsame name fun hname => by rw [← FileTree.locate_resolve ht hcwd hname]
  have hhost : h = host t t.cwd l.text source := by
    obtain ⟨exists', text', read'⟩ := h
    simp only [host, Host.mk.injEq]
    exact ⟨funext fun n => (hall n).1, funext fun n => (hall n).2.1, funext fun n => (hall n).2.2⟩
  rw [hhost]

/-- Without links a compilation comes upon a file only if it looks for options in it, or if it checks
another source that asks for it. -/
theorem passesBy_linkFree (ht : t.LinkFree) (hcwd : Path.AreProper t.cwd) (hhere : p.here = t.cwd)
    (hlooks : ∀ ts, p.compiler = .ok ts → Project.LooksElsewhere ts t l (Path.toLocation file).parent)
    (h : p.typeCheck = true → file ≠ l.text → ∀ ts options, p.compiler = .ok ts →
      (p.effective ts t file k).1 = .ok options → Overlooks ts t p.here l file source options) :
    p.PassesBy t l file source k := by
  refine ⟨fun _ => hlooks, fun hcheck ts options hts he => ?_⟩
  by_cases hfile : file = l.text
  · rw [hfile, hhere]
    exact overlooks_own ts ht hcwd source options
  · exact h hcheck hfile ts options hts he

end Pipeline

/-- Without links only the name of a configuration leads to it, so where none extends the file, look-ups
do not ask for it. -/
theorem Project.looksElsewhere {ts : TypeScript} {extended : Project.Extending}
    (hts : Project.ReadsConfigurations ts extended) {t : FileTree} {l : Location} (ht : t.LinkFree)
    (hf : t.FileAt l) (hl : l ≠ []) (hname : l.name ≠ Text.ofString "tsconfig.json")
    (hextended : ∀ place v, Path.AreProper place →
      ts.readConfigFile t (Project.configuration place) = some v →
      ∀ p ∈ extended t v place.text, t.locate p ≠ .ok l) {dir : Location} (hdir : Path.AreProper dir) :
    Project.LooksElsewhere ts t l dir := by
  have hsame : Project.SameConfigurations ts extended (t.without l) t := by
    refine ⟨fun place hplace => ?_, fun place v hplace hread p hp =>
      FileTree.text?_without hf hl (hextended place v hplace hread p hp)⟩
    refine FileTree.text?_without hf hl fun hlocate => hname ?_
    have hproper : Path.AreProper (place ++ [Text.ofString "tsconfig.json"]) :=
      .concat hplace ⟨by decide, by decide, by decide, by decide⟩
    have hlocated := FileTree.locate_absolute ht (Path.isAbsolute_text _) hlocate
    rw [Path.toLocation_text hproper] at hlocated
    rw [hlocated]
    simp [Location.name]
  exact hsame.sameProjects hts dir hdir

/-- A scripted check whose source names no files asks for nothing but its source. -/
theorem Scripted.overlooks {t : FileTree} {here l : Location} {file source : Text}
    (hown : (Path.resolve here file).text = file)
    (hplan : (Scripted.Plan.ofSource here source).touched = []) (options : Entries) :
    Overlooks (Scripted.compiler here) t here l file source options := by
  intro h hsame
  have hsource : h.sourceText file = some source := by
    rw [(hsame file fun _ => hown).2.1]
    simp only [Pipeline.host, hown, beq_self_eq_true, if_true]
  have hhost : (Pipeline.host t here file source).sourceText file = some source := by
    simp only [Pipeline.host, hown, beq_self_eq_true, if_true]
  simp only [Scripted.compiler, hsource, hhost, Option.getD_some, hplan, List.map_nil]

end ConfigLoader.TypeScript
