import ConfigLoader.Proofs.Worker.Freshness
import ConfigLoader.Proofs.Worker.Journal

/-! # Modules that are forgotten

After a request a worker remembers the modules that it remembered before and, of those that were
evaluated to their end on the way, the ones of packages. So a module of a package is evaluated to
its end once in the life of a worker, and any other one is begun anew for each request that asks for
it. But the text of an ES module is evaluated once in a life, wherever it is.
-/
namespace ConfigLoader

/-! ## Files of packages -/

namespace Text

@[simp] theorem startsWith_cons (a b : CodePoint) (p t : Text) :
    startsWith (a :: p) (b :: t) = (decide (a = b) && startsWith p t) := by
  by_cases h : a = b <;> simp [startsWith, afterStart?, h]

theorem startsWith_append_slash {c : CodePoint} {seg n : Text} (hseg : c ∉ seg) (hn : c ∉ n)
    (t : Text) : startsWith (seg ++ [c]) (n ++ c :: t) = decide (seg = n) := by
  induction seg generalizing n with
  | nil =>
    cases n with
    | nil => simp [startsWith, afterStart?]
    | cons d n =>
      have hd : c ≠ d := fun h => hn (h ▸ List.mem_cons_self ..)
      simp [startsWith_cons, hd]
  | cons a seg ih =>
    have ha : a ≠ c := fun h => hseg (h ▸ List.mem_cons_self ..)
    cases n with
    | nil => simp [startsWith_cons, ha]
    | cons d n =>
      have h := ih (n := n) (fun h => hseg (List.mem_cons_of_mem _ h))
        fun h => hn (List.mem_cons_of_mem _ h)
      simp [startsWith_cons, h]

theorem startsWith_long {c : CodePoint} {p n : Text} (hn : c ∉ n) :
    startsWith (p ++ [c]) n = false := by
  induction n generalizing p with
  | nil => cases p <;> rfl
  | cons d n ih =>
    have hd : c ≠ d := fun h => hn (h ▸ List.mem_cons_self ..)
    cases p with
    | nil => simp [startsWith_cons, hd]
    | cons a p =>
      simp [startsWith_cons, ih fun h => hn (List.mem_cons_of_mem _ h)]

theorem hasInfix_append {c : CodePoint} {n : Text} (hn : c ∉ n) (p t : Text) :
    hasInfix (c :: p) (n ++ t) = hasInfix (c :: p) t := by
  induction n with
  | nil => rfl
  | cons d n ih =>
    have hd : c ≠ d := fun h => hn (h ▸ List.mem_cons_self ..)
    have h := ih fun h => hn (List.mem_cons_of_mem _ h)
    simp [hasInfix, startsWith_cons, hd, h]

end Text

/-- The directories on a path are the names that stand in it between slashes. -/
theorem Location.hasInfix_text (seg : Text) (hseg : CodePoint.ofChar '/' ∉ seg) {l : Location}
    (hl : Path.AreProper l) :
    Text.hasInfix (CodePoint.ofChar '/' :: seg ++ [CodePoint.ofChar '/']) l.text = true ↔
      seg ∈ l.parent := by
  have hflat : ∀ l : Location, Path.AreProper l →
      (Text.hasInfix (CodePoint.ofChar '/' :: (seg ++ [CodePoint.ofChar '/']))
        (l.flatMap fun n => CodePoint.ofChar '/' :: n) = true ↔ seg ∈ l.dropLast) := by
    intro l hl
    induction l with
    | nil => simp [Text.hasInfix]
    | cons n r ih =>
      have hn := (hl n (List.mem_cons_self ..)).noSlash
      have hr : Path.AreProper r := fun m hm => hl m (List.mem_cons_of_mem _ hm)
      simp only [List.flatMap_cons, List.cons_append, Text.hasInfix, Text.startsWith_cons,
        decide_true, Bool.true_and, Bool.or_eq_true, Text.hasInfix_append hn, ih hr]
      cases r with
      | nil => simp [Text.startsWith_long hn]
      | cons m r =>
        simp only [List.flatMap_cons, List.cons_append, Text.startsWith_append_slash hseg hn,
          decide_eq_true_eq, List.dropLast_cons_cons, List.mem_cons]
  cases l with
  | nil =>
    have hroot : Location.text [] = [CodePoint.ofChar '/'] := rfl
    rw [hroot]
    simp [Location.parent, Text.hasInfix, Text.startsWith_long]
  | cons n r => exact hflat (n :: r) hl

namespace Modules

theorem isPackageFile_text {l : Location} (hl : Path.AreProper l) :
    isPackageFile l.text = true ↔ Text.ofString "node_modules" ∈ l.parent :=
  Location.hasInfix_text "node_modules" (by decide) hl

end Modules

namespace Worker
open Modules (State Event Accounted Imported GivenAnew standing completed imported isPackageFile)

/-! ## One line -/

variable {site : Site} {line : Text} {w : Worker}

theorem readLine_hasSettings (hw : w.hasSettings = true) :
    (w.readLine site line).2.hasSettings = true := by
  rcases readLine_follows site line w with h | ⟨h, -⟩
  · rcases h.phase with hp | hp
    · rw [hasSettings, hp]
      exact hw
    · obtain ⟨code, hc⟩ := ended_of_exitCode hp
      rw [hasSettings, hc]
  · rw [hasSettings, h] at hw
    cases hw

/-- The modules that are remembered after a line, before any are forgotten. -/
def attained (site : Site) (line : Text) (w : Worker) : State :=
  if w.hasSettings then executed site line w else (w.readLine site line).2.state

theorem line_accounted (site : Site) (line : Text) (w : Worker) :
    Accounted w.state.files (lineEvents site line w) (standing [] (attained site line w)) ∧
      ∀ file ∉ w.state.files, GivenAnew file (lineEvents site line w) := by
  have hstart : Accounted w.state.files [] (standing [] w.state) :=
    Modules.accounted_start (x := standing [] w.state) rfl
  have hidle : ∀ t : State, t.cache = w.state.cache →
      Accounted w.state.files [] (standing [] t) ∧ ∀ file ∉ w.state.files, GivenAnew file [] := by
    intro t ht
    refine ⟨?_, fun file _ earlier e later h => by simp at h⟩
    have hfiles : (standing [] t).loaded = w.state.files := by
      simp only [standing, State.files, ht]
    exact hfiles ▸ Modules.accounted_start (x := standing [] t) rfl
  unfold attained lineEvents
  cases hw : w.hasSettings with
  | true =>
    simp only [if_true, executed]
    cases he : errand? site line w with
    | none => exact hidle _ rfl
    | some e =>
      obtain ⟨-, htree, hl⟩ := errand_around he
      obtain ⟨rest, hrest, hpath⟩ := errand_path site.script (htree ▸ hl) w.state
      have hcompiled := hstart.other (e := .compiled e.file e.source w.state.projects) rfl
        (y := { standing [] w.state with
          kept := learning e.pipeline e.around.tree e.file e.source w.state.projects }) rfl rfl
      dsimp only
      rw [hrest]
      refine ⟨hcompiled.path hpath, fun file hfile earlier x later hsplit hx => ?_⟩
      cases earlier with
      | nil =>
        cases hsplit
        cases hx
      | cons a earlier =>
        rw [List.cons_append, List.cons.injEq] at hsplit
        obtain ⟨rfl, hsplit⟩ := hsplit
        exact hcompiled.anew hpath hfile hsplit hx
  | false =>
    simp only [Bool.false_eq_true, if_false]
    rcases readLine_greeting site line hw with ⟨notes, hs, he⟩ | h
    · rw [hs, he]
      exact hidle _ rfl
    · obtain ⟨settings, notes, hs, he⟩ := h
      rw [hs, he]
      have hpath := package_path (plainSurroundings site (site.compiler w.here)) (fun _ _ k => k)
        (plainSurroundings_learns _ _ _) settings (givenDirectory w.here settings) w.state
      refine ⟨hstart.path hpath, fun file hfile earlier x later hsplit hx => ?_⟩
      simpa using hstart.anew hpath hfile hsplit hx

/-- The ES modules that a worker remembers after a line are accounted for by its events. -/
theorem line_imported (site : Site) (line : Text) (w : Worker) :
    Imported site.engine site.tree w.state.memory.modules (lineEvents site line w)
      (w.readLine site line).2.state.memory.modules := by
  have hidle := Modules.imported_start site.engine site.tree w.state.memory.modules
  unfold lineEvents
  cases hw : w.hasSettings with
  | true =>
    obtain ⟨notes, hs⟩ := readLine_errand site line hw
    rw [hs]
    cases he : errand? site line w with
    | none => exact hidle
    | some e =>
      obtain ⟨hengine, htree, hl⟩ := errand_around he
      obtain ⟨rest, hrest, hpath⟩ := errand_path site.script (htree ▸ hl) w.state
      have hcompiled := hidle.other (x := .compiled e.file e.source w.state.projects) rfl nofun
      obtain ⟨-, -, hmemory, -⟩ := Modules.sweep_frame w.state
        (Modules.forgetNew w.state (e.run site.script w.state).2)
      simp only [if_true, hrest, hmemory]
      rw [← hengine, ← htree] at hcompiled ⊢
      exact hcompiled.path (x := { standing [] w.state with
        kept := learning e.pipeline e.around.tree e.file e.source w.state.projects }) hpath
  | false =>
    simp only [Bool.false_eq_true, if_false]
    rcases readLine_greeting site line hw with ⟨notes, hs, he⟩ | ⟨settings, notes, hs, he⟩
    · rw [hs, he]
      exact hidle
    · rw [hs, he]
      have hpath := package_path (plainSurroundings site (site.compiler w.here)) (fun _ _ k => k)
        (plainSurroundings_learns _ _ _) settings (givenDirectory w.here settings) w.state
      exact hidle.path (x := standing [] w.state) hpath

theorem mem_attained (site : Site) (line : Text) (w : Worker) (file : Text) :
    file ∈ (attained site line w).files ↔
      file ∈ w.state.files ∨ file ∈ completed (lineEvents site line w) := by
  simpa [standing, State.files] using (line_accounted site line w).1.loaded file

/-- What a line leaves remembered: what was so before, and the files of packages of those that its
evaluation leaves. -/
theorem mem_readLine (hw : w.hasSettings = true) {file : Text} :
    file ∈ (w.readLine site line).2.state.files ↔ file ∈ w.state.files ∨
      (file ∈ (executed site line w).files ∧ isPackageFile file = true) := by
  have hmem := mem_attained site line w file
  rw [attained, hw, if_pos rfl] at hmem
  obtain ⟨notes, hs⟩ := readLine_errand site line hw
  rw [hs]
  cases he : errand? site line w with
  | none =>
    simp only [executed, he]
    exact ⟨.inl, fun h => h.elim id And.left⟩
  | some e =>
    simp only [executed, he] at hmem ⊢
    have hcache : ∀ s t : State, file ∈ (Modules.sweep s (Modules.forgetNew s t)).files ↔
        file ∈ t.files ∧ (file ∈ s.files ∨ isPackageFile file = true) := by
      intro s t
      have hsome : (Modules.assoc? file s.cache).isSome = true ↔ file ∈ s.files := by
        rw [← not_iff_not, Bool.not_eq_true, Option.isSome_eq_false_iff, Option.isNone_iff_eq_none]
        exact Modules.assoc?_isNone
      rw [State.files, (Modules.sweep_frame _ _).1, ← hsome]
      simp only [Modules.forgetNew, List.mem_map, List.mem_filter, Bool.or_eq_true, State.files]
      constructor
      · rintro ⟨x, ⟨hx, hkeep⟩, rfl⟩
        exact ⟨⟨x, hx, rfl⟩, hkeep⟩
      · rintro ⟨⟨x, hx, rfl⟩, hkeep⟩
        exact ⟨x, ⟨hx, hkeep⟩, rfl⟩
    have hfiles : ∀ (s : State) (notes : List Text), ({ s with notes := notes } : State).files =
        s.files := fun _ _ => rfl
    rw [hfiles, hcache]
    tauto

/-- A module of a package that was remembered or evaluated to its end is remembered after a line. -/
theorem package_stays {file : Text} (hpackage : isPackageFile file = true)
    (h : file ∈ w.state.files ∨ file ∈ completed (lineEvents site line w)) :
    file ∈ (w.readLine site line).2.state.files := by
  have hmem := (mem_attained _ _ _ _).mpr h
  cases hw : w.hasSettings with
  | true =>
    rw [attained, hw, if_pos rfl] at hmem
    exact (mem_readLine hw).mpr (.inr ⟨hmem, hpackage⟩)
  | false =>
    rw [attained, hw] at hmem
    exact hmem

/-! ## A life -/

theorem journal_nodup (visits : List Visit) : ∀ es ∈ journal site w visits,
    (completed es).Nodup := by
  induction visits generalizing w with
  | nil => simp [journal]
  | cons v visits ih =>
    intro es hes
    rcases List.mem_cons.mp hes with rfl | hes
    · exact (line_accounted (site.showing v.tree) v.line w).1.once
    · exact ih es hes

theorem journal_anew (visits : List Visit) (hw : w.hasSettings = true) {file : Text}
    (hfile : file ∉ w.state.files) (hpackage : isPackageFile file = false) :
    ∀ es ∈ journal site w visits, GivenAnew file es := by
  induction visits generalizing w with
  | nil => simp [journal]
  | cons v visits ih =>
    intro es hes
    rcases List.mem_cons.mp hes with rfl | hes
    · exact (line_accounted (site.showing v.tree) v.line w).2 file hfile
    · refine ih (readLine_hasSettings hw) (fun h => ?_) es hes
      rcases (mem_readLine hw).mp h with h | h
      · exact hfile h
      · rw [hpackage] at h
        cases h.2

/-- A module of a package is evaluated to its end once, by induction on the lines: from then on it
is remembered. -/
theorem journal_once (site : Site) (w : Worker) (visits : List Visit) {file : Text}
    (hpackage : isPackageFile file = true) :
    (file ∈ w.state.files → file ∉ completed (journal site w visits).flatten) ∧
      (completed (journal site w visits).flatten).count file ≤ 1 := by
  induction visits generalizing w with
  | nil => simp [journal, completed]
  | cons v visits ih =>
    have hline := (line_accounted (site.showing v.tree) v.line w).1
    obtain ⟨hnever, honce⟩ := ih (visit site w v)
    have hrest := fun h => hnever (package_stays hpackage h)
    rw [journal, List.flatten_cons, Modules.completed_append]
    refine ⟨fun hstart h => ?_, ?_⟩
    · exact (List.mem_append.mp h).elim (fun h => (hline.completed file h).1 hstart)
        (hrest (.inl hstart))
    · rw [List.count_append]
      by_cases hmem : file ∈ completed (lineEvents (site.showing v.tree) v.line w)
      · have hhere := List.nodup_iff_count_le_one.mp hline.once file
        have hlater := List.count_eq_zero.mpr (hrest (.inr hmem))
        omega
      · have hhere := List.count_eq_zero.mpr hmem
        omega

/-- The files whose texts each line evaluates as ES modules. -/
def imports (site : Site) (w : Worker) (visits : List Visit) : List (List Text) :=
  List.zipWith (fun v es => imported site.engine v.tree es) visits (journal site w visits)

/-- The text of an ES module is evaluated once, by induction on the lines: from then on each opening has
it at hand, in the files as they are then. -/
theorem imports_once (site : Site) (w : Worker) (visits : List Visit) (file : Text) :
    (∀ text, Modules.assoc? file w.state.memory.modules = some text →
      file ∉ (imports site w visits).flatten ∧
      ∀ es ∈ journal site w visits, ∀ g m, .opened g m ∈ es →
        Modules.assoc? file m.modules = some text) ∧
      (imports site w visits).flatten.count file ≤ 1 := by
  induction visits generalizing w with
  | nil => simp [imports, journal]
  | cons v visits ih =>
    have hline := line_imported (site.showing v.tree) v.line w
    obtain ⟨hkept, honce⟩ := ih (visit site w v)
    have himports : imports site w (v :: visits) =
        imported site.engine v.tree (lineEvents (site.showing v.tree) v.line w) ::
          imports site (visit site w v) visits := rfl
    rw [himports, List.flatten_cons, journal]
    refine ⟨fun text htext => ?_, ?_⟩
    · obtain ⟨hnever, hopened⟩ := hkept text (hline.kept file text htext)
      refine ⟨fun h => (List.mem_append.mp h).elim (fun h => ?_) hnever, fun es hes g m hm => ?_⟩
      · rw [hline.new file h] at htext
        cases htext
      · rcases List.mem_cons.mp hes with rfl | hes
        · exact hline.opened g m hm file text htext
        · exact hopened es hes g m hm
    · rw [List.count_append]
      have hhere : (imported site.engine v.tree
          (lineEvents (site.showing v.tree) v.line w)).count file ≤ 1 :=
        List.nodup_iff_count_le_one.mp hline.once file
      by_cases hmem : file ∈ imported site.engine v.tree
          (lineEvents (site.showing v.tree) v.line w)
      · obtain ⟨text, htext⟩ := Option.isSome_iff_exists.mp ((hline.known file).mpr (.inr hmem))
        have hlater := List.count_eq_zero.mpr (hkept text htext).1
        omega
      · have hhere := List.count_eq_zero.mpr hmem
        omega

def withPackage (script : Text) : FileTree :=
  (sampleTree script).put ["w", "node_modules", "p.js"] (.file (Text.Utf8.encode (exporting 7)))

def askingBoth : Text :=
  "\x7b\"path\":\"a.ts\",\"source\":\"" ++
    ("[\x7b\\\"do\\\":\\\"require\\\",\\\"id\\\":\\\"./s\\\",\\\"as\\\":\\\"r\\\"\x7d," : Text) ++
    ("\x7b\\\"do\\\":\\\"require\\\",\\\"id\\\":\\\"p\\\",\\\"as\\\":\\\"q\\\"\x7d]" : Text) ++
    "\"\x7d"

def ofProject : Text := "/w/s.js"

def ofPackage : Text := "/w/node_modules/p.js"

/-- Two requests, with the script written over between them. -/
def bothAsked : List Visit :=
  [⟨withPackage (exporting 1), askingBoth⟩, ⟨withPackage (exporting 2), askingBoth⟩]

def withModule (n : Nat) : FileTree :=
  (sampleTree (exporting 1)).put ["w", "m.mjs"]
    (.file (Text.Utf8.encode ("export const a = " ++ Text.ofNat n ++ ";\n")))

def askingModule : Text :=
  "\x7b\"path\":\"a.ts\",\"source\":\"" ++
    ("[\x7b\\\"do\\\":\\\"require\\\",\\\"id\\\":\\\"./m.mjs\\\",\\\"as\\\":\\\"r\\\"\x7d]" : Text) ++
    "\"\x7d"

def moduleFile : Text := "/w/m.mjs"

/-- Two requests, with the ES module written over between them. -/
def moduleAsked : List Visit := [⟨withModule 1, askingModule⟩, ⟨withModule 2, askingModule⟩]

def moduleLoaded : Worker := visit sample.site sample.first ⟨withModule 1, askingModule⟩

end Worker
end ConfigLoader
