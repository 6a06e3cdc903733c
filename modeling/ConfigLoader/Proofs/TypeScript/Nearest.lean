import ConfigLoader.Proofs.FileTree.Outline
import ConfigLoader.Proofs.TypeScript.Projects
import ConfigLoader.TypeScript.Scripted
import Mathlib.Data.Nat.Find

/-! # Nearest configurations

Compilers find the configuration of a project at the directory of a file or above it, the nearest first,
and the options that it gives are a matter of what it says and of the files that it extends. The options
of a directory are then what the nearest configuration gives, and stay while none of these files changes.
-/
namespace ConfigLoader

theorem Path.directory_text {d : Location} (hd : Path.AreProper d) {n : Text} (hn : Path.IsProper n) :
    Path.directory (Location.text (d ++ [n])) = Location.text d := by
  let slash := CodePoint.ofChar '/'
  have htext : Location.text (d ++ [n]) = (d.flatMap fun m => slash :: m) ++ slash :: n := by
    unfold Location.text
    cases h : d ++ [n] with
    | nil => cases d <;> cases h
    | cons a r =>
      dsimp only
      rw [← h, List.flatMap_append]
      simp [slash]
  have hslash : ∀ c ∈ n.reverse, c ≠ slash := fun c hc h =>
    hn.noSlash (by rw [← show c = CodePoint.ofChar '/' from h]; exact List.mem_reverse.mp hc)
  have hrest : ∀ r, ((n.reverse ++ slash :: r).dropWhile (· == slash)).dropWhile (· != slash) =
      slash :: r := by
    intro r
    obtain ⟨c, m, hm⟩ := List.exists_cons_of_ne_nil (List.reverse_ne_nil_iff.mpr hn.nonempty)
    have hc : (c == slash) = false := by simpa using hslash c (hm ▸ List.mem_cons_self ..)
    rw [hm, List.cons_append, List.dropWhile_cons_of_neg (by simp [hc]), ← List.cons_append, ← hm,
      List.dropWhile_append_of_pos (by simpa using hslash), List.dropWhile_cons_of_neg (by simp)]
  have habsolute : Path.isAbsolute (Location.text (d ++ [n])) = true := Path.isAbsolute_text _
  unfold Path.directory
  dsimp only
  rw [habsolute, htext, List.reverse_append, List.reverse_cons, List.append_assoc,
    List.singleton_append, hrest]
  cases d with
  | nil => rfl
  | cons m r =>
    obtain ⟨c, m', hm⟩ := List.exists_cons_of_ne_nil (hd m (List.mem_cons_self ..)).nonempty
    have hlong : ((List.flatMap (fun m => slash :: m) (m :: r)).reverse.length == 1) = false := by
      simp only [List.length_reverse, List.flatMap_cons, List.length_append, List.length_cons, hm,
        beq_eq_false_iff_ne]
      omega
    cases hrev : (List.flatMap (fun m => slash :: m) (m :: r)).reverse with
    | nil => simp at hrev
    | cons b s =>
      dsimp only
      rw [← hrev, hlong, Bool.and_false, if_neg Bool.false_ne_true, List.reverse_reverse]
      rfl

namespace TypeScript.Project

def configuration (place : Location) : Text := Location.text (place ++ [Text.ofString "tsconfig.json"])

structure IsNearest (t : FileTree) (dir place : Location) : Prop where
  above : place <+: dir
  there : t.hasFile (configuration place) = true
  nearest : ∀ d, d <+: dir → t.hasFile (configuration d) = true → d.length ≤ place.length

def HasNone (t : FileTree) (dir : Location) : Prop :=
  ∀ d, d <+: dir → t.hasFile (configuration d) = false

/-- The files that a compiler asks for to give the options of a configuration in a directory: those that
it extends. -/
abbrev Extending := FileTree → Value → Text → List Text

/-- A compiler that finds the nearest configuration, reads it by its text, and takes its options from it
and the files that it extends; one that extends none is enough by itself. -/
structure ReadsConfigurations (ts : TypeScript) (extended : Extending) : Prop where
  found : ∀ {t : FileTree} {dir place : Location}, Path.AreProper dir → IsNearest t dir place →
    ts.findConfigFile t dir.text = some (configuration place)
  missing : ∀ {t : FileTree} {dir : Location}, Path.AreProper dir → HasNone t dir →
    ts.findConfigFile t dir.text = none
  read : ∀ {t u : FileTree} {file : Text}, t.text? file = u.text? file →
    ts.readConfigFile t file = ts.readConfigFile u file
  parsed : ∀ {t u : FileTree} {v : Value} {dir : Text},
    (∀ p ∈ extended u v dir, t.text? p = u.text? p) → ts.parseConfig t v dir = ts.parseConfig u v dir
  alone : ∀ (t : FileTree) {es : Entries} (dir : Text), Entries.getText? es "extends" = none →
    extended t (.mapping es) dir = []

/-- The options for a directory without anything kept: none where there is no configuration or it cannot
be read, and otherwise what the nearest one gives. -/
inductive LooksUp (ts : TypeScript) (t : FileTree) (dir : Location) :
    Except Script.Failure Entries → Prop
  | missing (h : HasNone t dir) : LooksUp ts t dir (.ok [])
  | unreadable {place : Location} (h : IsNearest t dir place)
      (hread : ts.readConfigFile t (configuration place) = none) : LooksUp ts t dir (.ok [])
  | read {place : Location} {v : Value} (h : IsNearest t dir place)
      (hread : ts.readConfigFile t (configuration place) = some v) :
    LooksUp ts t dir (ts.parseConfig t v place.text)

theorem nearest_or_none (t : FileTree) (dir : Location) :
    (∃ place, IsNearest t dir place) ∨ HasNone t dir := by
  let P := fun n => t.hasFile (configuration (dir.take n)) = true
  by_cases h : ∃ n, n ≤ dir.length ∧ P n
  · obtain ⟨n, hn, hp⟩ := h
    refine .inl ⟨dir.take (Nat.findGreatest P dir.length), List.take_prefix ..,
      Nat.findGreatest_spec (P := P) hn hp, fun d hd hfile => ?_⟩
    have hlength := hd.length_le
    rw [List.length_take, Nat.min_eq_left (Nat.findGreatest_le _)]
    refine Nat.le_findGreatest hlength ?_
    change t.hasFile (configuration (dir.take d.length)) = true
    rwa [← List.prefix_iff_eq_take.mp hd]
  · refine .inr fun d hd => Bool.eq_false_iff.mpr fun hfile => h ⟨d.length, hd.length_le, ?_⟩
    change t.hasFile (configuration (dir.take d.length)) = true
    rwa [← List.prefix_iff_eq_take.mp hd]

variable {ts : TypeScript} {extended : Extending} {t u : FileTree} {dir : Location}

theorem configuration_ne_nil (place : Location) : configuration place ≠ [] := by
  unfold configuration Location.text
  cases h : place ++ [Text.ofString "tsconfig.json"] with
  | nil => cases place <;> cases h
  | cons n r => exact List.cons_ne_nil _ _

theorem directory_configuration {place : Location} (hplace : Path.AreProper place) :
    Path.directory (configuration place) = place.text :=
  Path.directory_text hplace ⟨by decide, by decide, by decide, by decide⟩

theorem IsNearest.proper {place : Location} (h : IsNearest t dir place) (hdir : Path.AreProper dir) :
    Path.AreProper place := fun n hn => hdir n (h.above.subset hn)

theorem lookup_found {file : Text} (h : ts.findConfigFile t dir.text = some file) (hfile : file ≠ []) :
    lookup ts t dir = match ts.readConfigFile t file with
      | none => .ok []
      | some v => ts.parseConfig t v (Path.directory file) := by
  rw [lookup, h]
  cases file with
  | nil => exact absurd rfl hfile
  | cons c r => rfl

theorem lookup_looksUp (h : ReadsConfigurations ts extended) (hdir : Path.AreProper dir) :
    LooksUp ts t dir (lookup ts t dir) := by
  rcases nearest_or_none t dir with ⟨place, hplace⟩ | hnone
  · rw [lookup_found (h.found hdir hplace) (configuration_ne_nil place),
      directory_configuration (hplace.proper hdir)]
    cases hread : ts.readConfigFile t (configuration place) with
    | none => exact .unreadable hplace hread
    | some v => exact .read hplace hread
  · rw [lookup, h.missing hdir hnone]
    exact .missing hnone

/-- The configurations of two file trees are the same, and so are the files that these extend. -/
structure SameConfigurations (ts : TypeScript) (extended : Extending) (t u : FileTree) : Prop where
  same : ∀ place, Path.AreProper place →
    t.text? (configuration place) = u.text? (configuration place)
  extended : ∀ place v, Path.AreProper place → ts.readConfigFile u (configuration place) = some v →
    ∀ p ∈ extended u v place.text, t.text? p = u.text? p

theorem SameConfigurations.sameProjects (hsame : SameConfigurations ts extended t u)
    (h : ReadsConfigurations ts extended) : SameProjects ts t u := by
  intro dir hdir
  have hfile : ∀ d, d <+: dir → t.hasFile (configuration d) = u.hasFile (configuration d) := by
    intro d hd
    rw [FileTree.hasFile_eq, FileTree.hasFile_eq, hsame.same d fun n hn => hdir n (hd.subset hn)]
  rcases nearest_or_none u dir with ⟨place, hplace⟩ | hnone
  · have hplace' : IsNearest t dir place :=
      ⟨hplace.above, (hfile place hplace.above).trans hplace.there,
        fun d hd hd' => hplace.nearest d hd ((hfile d hd).symm.trans hd')⟩
    rw [lookup_found (h.found hdir hplace) (configuration_ne_nil place),
      lookup_found (h.found hdir hplace') (configuration_ne_nil place),
      h.read (hsame.same place (hplace.proper hdir))]
    cases hread : ts.readConfigFile u (configuration place) with
    | none => rfl
    | some v =>
      rw [directory_configuration (hplace.proper hdir)]
      exact h.parsed (hsame.extended place v (hplace.proper hdir) hread)
  · rw [lookup, lookup, h.missing hdir hnone,
      h.missing hdir fun d hd => (hfile d hd).trans (hnone d hd)]

theorem hasNone_of_names (ht : t.LinkFree)
    (h : ∀ e ∈ t.entries, e.1.name ≠ Text.ofString "tsconfig.json") (hdir : Path.AreProper dir) :
    HasNone t dir := by
  intro d hd
  have hproper : Path.AreProper (d ++ [Text.ofString "tsconfig.json"]) := by
    intro n hn
    rcases List.mem_append.mp hn with hn | hn
    · exact hdir n (hd.subset hn)
    · exact List.mem_singleton.mp hn ▸ ⟨by decide, by decide, by decide, by decide⟩
  rw [Bool.eq_false_iff, FileTree.hasFile, FileTree.stat_eq]
  intro hfile
  cases hl : t.locate (configuration d) with
  | error e => simp [hl, FileTree.entryAt] at hfile
  | ok l =>
    obtain rfl := FileTree.locate_linkFree ht hproper (by simp) hl
    cases ha : t.at? (d ++ [Text.ofString "tsconfig.json"]) with
    | none => simp [hl, ha, FileTree.entryAt] at hfile
    | some e =>
      exact h _ (t.at?_mem (by simp) ha) (by simp [Location.name])

theorem ReadsConfigurations.sameProjects_of_none (h : ReadsConfigurations ts extended)
    (ht : ∀ dir, Path.AreProper dir → HasNone t dir)
    (hu : ∀ dir, Path.AreProper dir → HasNone u dir) : SameProjects ts t u := by
  intro dir hdir
  rw [lookup, lookup, h.missing hdir (ht dir hdir), h.missing hdir (hu dir hdir)]

end TypeScript.Project

/-! ## Scripted compilers -/

namespace TypeScript.Scripted
open Project (IsNearest HasNone configuration)
variable {t : FileTree} {dir : Location}

theorem nearestOf_some {place : Location} (h : IsNearest t dir place) {n : Nat}
    (hn : place.length ≤ n) (hdir : n ≤ dir.length) : nearestOf t dir n = some place := by
  induction n with
  | zero =>
    obtain rfl := List.length_eq_zero_iff.mp (Nat.le_zero.mp hn)
    exact if_pos h.there
  | succ n ih =>
    rw [nearestOf]
    by_cases hlast : place.length = n + 1
    · have hplace : dir.take (n + 1) = place := by
        rw [← hlast]
        exact (List.prefix_iff_eq_take.mp h.above).symm
      rw [hplace]
      exact if_pos h.there
    · rw [if_neg, ih (by omega) (by omega)]
      intro hfile
      have hlength := h.nearest (dir.take (n + 1)) (List.take_prefix ..) hfile
      rw [List.length_take, Nat.min_eq_left hdir] at hlength
      omega

theorem nearestOf_none (h : HasNone t dir) (n : Nat) : nearestOf t dir n = none := by
  induction n with
  | zero => exact if_neg (Bool.eq_false_iff.mp (h [] (List.nil_prefix ..)))
  | succ n ih =>
    exact (if_neg (Bool.eq_false_iff.mp (h _ (List.take_prefix ..)))).trans ih

theorem compiler_reads (here : Location) :
    Project.ReadsConfigurations (compiler here) fun _ _ _ => [] where
  found hdir h := by
    have hplace := Path.toLocation_text hdir
    simp only [compiler, hplace, nearest?, nearestOf_some h h.above.length_le (Nat.le_refl _),
      Option.map_some]
    rfl
  missing hdir h := by
    simp only [compiler, Path.toLocation_text hdir, nearest?, nearestOf_none h, Option.map_none]
  read h := by simp only [compiler, h]
  parsed _ := rfl
  alone _ _ _ _ := rfl

end TypeScript.Scripted
end ConfigLoader
