import ConfigLoader.Proofs.FileTree.Locations
import ConfigLoader.TypeScript.Pipeline

/-! # Project options that are kept

Kept options hold as long as no configuration changes, and while they hold, a source is compiled as
if nothing was kept.
-/
namespace ConfigLoader.TypeScript
open Script (Code Failure)

namespace Project

def SameProjects (ts : TypeScript) (t u : FileTree) : Prop :=
  ∀ dir : Location, Path.AreProper dir → lookup ts t dir = lookup ts u dir

theorem SameProjects.symm {ts : TypeScript} {t u : FileTree} (h : SameProjects ts t u) :
    SameProjects ts u t := fun dir hdir => (h dir hdir).symm

def Kept.Holds (ts : TypeScript) (t : FileTree) (k : Kept) : Prop :=
  ∀ e ∈ k, Path.AreProper e.1 ∧ lookup ts t e.1 = .ok e.2

variable {ts : TypeScript} {t u : FileTree} {k : Kept}

theorem Kept.Holds.congr (h : SameProjects ts t u) (hk : k.Holds ts t) : k.Holds ts u :=
  fun e he => ⟨(hk e he).1, (h e.1 (hk e he).1).symm.trans (hk e he).2⟩

theorem options_settled (hk : k.Holds ts t) {dir : Location} (hdir : Path.AreProper dir) :
    (options ts t dir k).1 = lookup ts t dir ∧ (options ts t dir k).2.Holds ts t := by
  unfold options
  cases hg : k.get? dir with
  | some es =>
    obtain ⟨e, he, hv⟩ := Option.map_eq_some_iff.mp hg
    have hsame : e.1 = dir := by simpa using List.find?_some he
    have h := (hk e (List.mem_of_find?_eq_some he)).2
    rw [hsame, hv] at h
    exact ⟨h.symm, hk⟩
  | none =>
    cases hl : lookup ts t dir with
    | error f => exact ⟨rfl, hk⟩
    | ok es =>
      refine ⟨rfl, ?_⟩
      intro e he
      rcases List.mem_cons.mp he with rfl | he
      · exact ⟨hdir, hl⟩
      · exact hk e he

end Project

namespace Pipeline
open Project (Kept)

def compileNow (p : Pipeline) (t : FileTree) (file source : Text) : Except Rejection Code :=
  (p.compile t file source []).1

theorem parent_proper (file : Text) : Path.AreProper (Path.toLocation file).parent := fun n hn =>
  Path.toLocation_proper file n ((List.dropLast_sublist _).subset hn)

theorem effective_settled (p : Pipeline) (ts : TypeScript) {t : FileTree} (file : Text) {k : Kept}
    (hk : k.Holds ts t) :
    (p.effective ts t file k).1 = (p.effective ts t file []).1 ∧
      (p.effective ts t file k).2.Holds ts t := by
  have hnone : Kept.Holds ts t [] := by simp [Kept.Holds]
  obtain ⟨h1, h2⟩ := Project.options_settled hk (parent_proper file)
  obtain ⟨h3, -⟩ := Project.options_settled hnone (parent_proper file)
  unfold effective
  cases p.converted ts with
  | error f => exact ⟨rfl, hk⟩
  | ok settings => exact ⟨congrArg (Except.map _) (h1.trans h3.symm), h2⟩

def Holds (p : Pipeline) (t : FileTree) (k : Kept) : Prop :=
  ∀ ts, p.compiler = .ok ts → k.Holds ts t

theorem compile_settled (p : Pipeline) {t : FileTree} (file source : Text) {k : Kept}
    (hk : p.Holds t k) :
    (p.compile t file source k).1 = p.compileNow t file source ∧
      p.Holds t (p.compile t file source k).2 := by
  unfold compileNow compile
  cases hts : p.compiler with
  | error f => exact ⟨rfl, hk⟩
  | ok ts =>
    dsimp only
    obtain ⟨h1, h2⟩ := p.effective_settled ts file (hk ts hts)
    have hholds : p.Holds t (p.effective ts t file k).2 := by
      intro ts' hts'
      rw [hts] at hts'
      cases hts'
      exact h2
    rcases hk' : p.effective ts t file k with ⟨r, k'⟩
    rcases hn : p.effective ts t file [] with ⟨q, n⟩
    rw [hk'] at h1 hholds
    rw [hn] at h1
    obtain rfl : r = q := h1
    cases r with
    | error f => exact ⟨rfl, hholds⟩
    | ok options => exact ⟨rfl, hholds⟩

end Pipeline
end ConfigLoader.TypeScript
