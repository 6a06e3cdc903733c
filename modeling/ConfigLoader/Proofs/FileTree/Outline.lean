import ConfigLoader.Proofs.Modules.Memory

/-! # What look-ups see of files

Look-ups see which files, directories and links there are, and what descriptions say. What the other
files hold is left out of the outline of a file tree, so trees with one outline answer look-ups alike.
-/
namespace ConfigLoader

def descriptionName : Text := "package.json"

def Entry.outlined (name : Text) : Entry → Entry
  | .file b => .file (if name == descriptionName then b else [])
  | e => e

namespace FileTree

def outline (t : FileTree) : FileTree :=
  { t with entries := t.entries.map fun e => (e.1, e.2.outlined e.1.name) }

variable (t : FileTree)

@[simp] theorem at?_outline (l : Location) :
    t.outline.at? l = (t.at? l).map (Entry.outlined l.name) := by
  cases l with
  | nil => rfl
  | cons n r =>
    simp only [at?, outline, List.find?_map, Option.map_map]
    have hp : ((fun e : Location × Entry => e.1 == n :: r) ∘
        fun e : Location × Entry => (e.1, e.2.outlined e.1.name)) = fun e => e.1 == n :: r := rfl
    rw [hp]
    cases h : t.entries.find? fun e => e.1 == n :: r with
    | none => rfl
    | some e =>
      have hl : e.1 = n :: r := by simpa using List.find?_some h
      simp [hl]

theorem outline_directory (l : Location) :
    t.outline.at? l = some .directory ↔ t.at? l = some .directory := by
  rw [at?_outline]
  cases t.at? l with
  | none => simp
  | some e => cases e <;> simp [Entry.outlined]

theorem outline_isSome (l : Location) : (t.outline.at? l).isSome = (t.at? l).isSome := by
  rw [at?_outline, Option.isSome_map]

theorem walk_outline (fuel links : Nat) (here : Location) (rest : List Text) :
    t.outline.walk fuel links here rest = t.walk fuel links here rest := by
  induction fuel generalizing links here rest with
  | zero => rfl
  | succ fuel ih =>
    cases rest with
    | nil => rfl
    | cons n rest =>
      simp only [walk, ne_eq, outline_directory, outline_isSome, ih]
      rw [at?_outline]
      cases t.at? (here ++ [n]) with
      | none => rfl
      | some e => cases e <;> rfl

@[simp] theorem walkFuel_outline (ns : List Text) : t.outline.walkFuel ns = t.walkFuel ns := by
  simp only [walkFuel, outline, List.foldl_map]
  congr 4
  funext k e
  rcases e with ⟨l, e⟩
  cases e <;> rfl

@[simp] theorem locate_outline (p : Text) : t.outline.locate p = t.locate p := by
  have hcwd : t.outline.cwd = t.cwd := rfl
  simp only [locate, locateFrom, arrive, hcwd, walk_outline, walkFuel_outline, ne_eq,
    outline_directory]

def entryAt (r : Except LookupError Location) : Except LookupError Entry :=
  match r with
  | .error e => .error e
  | .ok l => match t.at? l with
    | some e => .ok e
    | none => .error .missing

theorem stat_eq (p : Text) : t.stat p = t.entryAt (t.locate p) := by
  unfold stat entryAt
  cases t.locate p <;> rfl

theorem bytes_eq (p : Text) : t.bytes p = match t.entryAt (t.locate p) with
    | .ok (.file b) => .ok b
    | .ok .directory => .error .isDirectory
    | .ok (.link _) => .error .loop
    | .error e => .error e := by
  rw [← stat_eq, bytes]
  rcases t.stat p with e | ⟨_ | _ | _⟩ <;> rfl

@[simp] theorem hasFile_outline (p : Text) : t.outline.hasFile p = t.hasFile p := by
  rw [hasFile, hasFile, stat_eq t.outline, stat_eq t, locate_outline]
  cases t.locate p with
  | error e => rfl
  | ok l =>
    simp only [entryAt, at?_outline]
    cases t.at? l with
    | none => rfl
    | some e => cases e <;> rfl

@[simp] theorem hasDirectory_outline (p : Text) : t.outline.hasDirectory p = t.hasDirectory p := by
  rw [hasDirectory, hasDirectory, stat_eq t.outline, stat_eq t, locate_outline]
  cases t.locate p with
  | error e => rfl
  | ok l =>
    simp only [entryAt, at?_outline]
    cases t.at? l with
    | none => rfl
    | some e => cases e <;> rfl

theorem linkFree_outline : t.outline.LinkFree ↔ t.LinkFree := by
  have hlink : ∀ e : Location × Entry, (e.2.outlined e.1.name).isLink = e.2.isLink := by
    rintro ⟨l, e⟩
    cases e <;> rfl
  simp only [LinkFree, outline, List.forall_mem_map, hlink]

/-! ## Descriptions -/

variable {t}

theorem walk_linkFree (ht : t.LinkFree) {fuel links : Nat} {here l : Location} {rest : List Text}
    (hr : ∀ n ∈ rest, n ≠ Text.ofString "..") (h : t.walk fuel links here rest = .ok l) :
    l = here ++ rest := by
  induction fuel generalizing here rest with
  | zero => cases h
  | succ fuel ih =>
    cases rest with
    | nil =>
      cases h
      simp
    | cons n rest =>
      have hn : (n == Text.ofString "..") = false := by simpa using hr n (List.mem_cons_self ..)
      unfold walk at h
      split at h
      · cases h
      · simp only [hn, Bool.false_eq_true, if_false] at h
        split at h
        · cases h
        · split at h
          · cases h
          · rename_i target hl
            exact absurd hl (ht.at?_ne _ _)
          · have := ih (fun m hm => hr m (List.mem_cons_of_mem _ hm)) h
            simpa using this

theorem locate_linkFree (ht : t.LinkFree) {l place : Location} (hl : Path.AreProper l)
    (hne : l ≠ []) (h : t.locate l.text = .ok place) : place = l := by
  have habs : Path.isAbsolute l.text = true := by
    cases l with
    | nil => exact absurd rfl hne
    | cons n r => rfl
  have hnames := Path.names_proper hl
  unfold locate locateFrom at h
  rw [habs, hnames] at h
  split at h
  · cases h
  · split at h
    · cases h
    · next hw =>
      obtain rfl := arrive_eq_ok h
      exact walk_linkFree ht (fun n hn => (hl n hn).noDots) hw

theorem bytes_outline (ht : t.LinkFree) {l : Location} (hl : Path.AreProper l)
    (hname : l.name = descriptionName) : t.outline.bytes l.text = t.bytes l.text := by
  have hne : l ≠ [] := by
    rintro rfl
    revert hname
    decide
  have htells : (l.name == descriptionName) = true := by simpa using hname
  rw [bytes_eq (t := t.outline), bytes_eq (t := t), locate_outline]
  cases hp : t.locate l.text with
  | error e => rfl
  | ok place =>
    obtain rfl := locate_linkFree ht hl hne hp
    simp only [entryAt, at?_outline]
    cases t.at? place with
    | none => rfl
    | some e =>
      cases e with
      | file b => simp only [Option.map_some, Entry.outlined, htells, if_true]
      | _ => rfl

end FileTree

/-! ## Look-ups -/

namespace Modules
variable {t u : FileTree}

theorem settle_outline (t : FileTree) (fuel : Nat) (real : List (Text × Text)) (here : Location)
    (rest : List Text) : settle t.outline fuel real here rest = settle t fuel real here rest := by
  induction fuel generalizing real here rest with
  | zero => rfl
  | succ fuel ih =>
    cases rest with
    | nil => rfl
    | cons n rest =>
      simp only [settle, ih]
      rw [FileTree.at?_outline]
      cases t.at? (here ++ [n]) with
      | none => rfl
      | some e => cases e <;> rfl

@[simp] theorem realPath_outline (t : FileTree) (p : Text) : realPath t.outline p = realPath t p := by
  simp only [realPath, settle_outline, FileTree.walkFuel_outline]

theorem join_description (dir : Text) : join dir descriptionName =
    Location.text (Path.toLocation dir ++ [descriptionName]) := by
  have hrel : Path.isAbsolute descriptionName = false := by decide
  have hnames : Path.names descriptionName = [descriptionName] := by decide
  simp only [join, Path.resolve, hrel, hnames, Bool.false_eq_true, if_false]
  rw [Path.collapse_names]
  intro n hn
  rcases List.mem_append.mp hn with hn | hn
  · exact (Path.toLocation_proper dir n hn).noDots
  · rw [List.mem_singleton.mp hn]
    decide

theorem description_outline (ht : t.LinkFree) (dir : Text) :
    description t.outline dir = description t dir := by
  have hproper : Path.AreProper (Path.toLocation dir ++ [descriptionName]) :=
    (Path.toLocation_proper dir).concat ⟨by decide, by decide, by decide, by decide⟩
  have hname : (Path.toLocation dir ++ [descriptionName]).name = descriptionName := by
    simp [Location.name]
  have hb := FileTree.bytes_outline ht hproper hname
  rw [← join_description] at hb
  have hb : t.outline.bytes (join dir (Text.ofString "package.json")) =
    t.bytes (join dir (Text.ofString "package.json")) := hb
  simp only [description, hb]

theorem nearestDescription_congr (hdesc : ∀ dir, description t dir = description u dir) :
    nearestDescription t = nearestDescription u := by
  have hfirst : firstDescription t = firstDescription u := by
    funext ls
    induction ls with
    | nil => rfl
    | cons l ls ih => simp only [firstDescription, hdesc, ih]
  funext file
  simp only [nearestDescription, hfirst]

theorem lookup_congr (hfile : ∀ p, t.hasFile p = u.hasFile p)
    (hdir : ∀ p, t.hasDirectory p = u.hasDirectory p)
    (hreal : ∀ p, realPath t p = realPath u p)
    (hdesc : ∀ dir, description t dir = description u dir) : lookup t = lookup u := by
  have htry : tryFile t = tryFile u := by
    funext p
    simp only [tryFile, hfile, hreal]
  have hexts : tryExtensions t = tryExtensions u := by
    funext base es
    induction es with
    | nil => rfl
    | cons e es ih => simp only [tryExtensions, htry, ih]
  have htrydir : tryDirectory t = tryDirectory u := by
    funext es dir
    simp only [tryDirectory, entryFile, hdesc, htry, hexts]
  have hsearch : search t = search u := by
    funext es request dirs
    induction dirs with
    | nil => rfl
    | cons dir dirs ih => simp only [search, hdir, htry, hexts, htrydir, ih]
  funext es parent request
  simp only [lookup, retrieve, nearestDescription_congr hdesc, hsearch]

theorem lookup_outline (ht : t.LinkFree) : lookup t.outline = lookup t :=
  lookup_congr t.hasFile_outline t.hasDirectory_outline (realPath_outline t)
    (description_outline ht)

/-- Files without links that have one outline answer look-ups alike. -/
theorem lookup_eq (hu : u.LinkFree) (h : t.outline = u.outline) : lookup t = lookup u := by
  have ht : t.LinkFree := t.linkFree_outline.mp (h ▸ u.linkFree_outline.mpr hu)
  rw [← lookup_outline ht, ← lookup_outline hu, h]

theorem nearestDescription_eq (hu : u.LinkFree) (h : t.outline = u.outline) :
    nearestDescription t = nearestDescription u := by
  have ht : t.LinkFree := t.linkFree_outline.mp (h ▸ u.linkFree_outline.mpr hu)
  rw [← nearestDescription_congr (description_outline ht),
    ← nearestDescription_congr (description_outline hu), h]

end Modules
end ConfigLoader
