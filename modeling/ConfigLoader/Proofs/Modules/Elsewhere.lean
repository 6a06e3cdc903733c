import ConfigLoader.Proofs.FileTree.Without
import ConfigLoader.Proofs.Modules.Twins

/-! # Look-ups that lead elsewhere

In trees without links a look-up comes upon a file only by finding it. One that does not find a file
is settled as if it was not there, and what it finds in its place reads the same without it.
-/
namespace ConfigLoader.Modules
open Script (Failure)

def Beside (l : Location) (file : Text) : Prop :=
  ∃ q, Path.AreProper q ∧ (l <+: q → q = l) ∧ file = q.text

/-- What look-ups remember where there are no links and nothing was ever below a place. -/
structure Placed (l : Location) (m : Memory) : Prop where
  real : ArePlain m.real
  found : ∀ e ∈ m.found, Beside l e.2

theorem placed_empty (l : Location) : Placed l .empty :=
  ⟨by simp [ArePlain, Memory.empty], by simp [Memory.empty]⟩

/-- Two runs that are one, with a memory that stays placed. -/
def Settles {α : Type} (l : Location) (r r' : Find α) : Prop :=
  ∀ m, Placed l m → Placed l (r.run.run m).2 ∧ r'.run.run m = r.run.run m

/-- Two runs that are one unless the first one finds the place itself. -/
def Misses (l : Location) (r r' : Find (Option Text)) : Prop :=
  ∀ m, Placed l m → Placed l (r.run.run m).2 ∧
    (∀ f, (r.run.run m).1 = .ok (some f) → Beside l f) ∧
    ((r.run.run m).1 = .ok (some l.text) ∨ r'.run.run m = r.run.run m)

variable {t : FileTree} {l : Location}

theorem Settles.map {α β : Type} {r r' : Find α} (h : Settles l r r') (f : α → β) :
    Settles l (f <$> r) (f <$> r') := by
  intro m hm
  obtain ⟨h1, h2⟩ := h m hm
  rw [map_eq_pure_bind, map_eq_pure_bind, run_bind, run_bind, h2]
  cases (r.run.run m).1 <;> exact ⟨h1, rfl⟩

namespace Misses
variable {α : Type} {r r' s s' : Find (Option Text)}

theorem none : Misses l (return none) (return none) :=
  fun _ hm => ⟨hm, nofun, .inr rfl⟩

theorem throw (e : Failure) : Misses l (throw e) (throw e) := fun _ hm => ⟨hm, nofun, .inr rfl⟩

theorem orElse (hr : Misses l r r') (hs : Misses l s s') :
    Misses l (r >>= fun | some p => return some p | .none => s)
      (r' >>= fun | some p => return some p | .none => s') := by
  intro m hm
  obtain ⟨h1, h2, h3⟩ := hr m hm
  rw [run_bind, run_bind]
  rcases hx : r.run.run m with ⟨_ | _ | f, n⟩
  · rw [hx] at h1 h3
    refine ⟨h1, nofun, .inr ?_⟩
    rw [h3.resolve_left nofun]
  · rw [hx] at h1 h3
    obtain ⟨h4, h5, h6⟩ := hs n h1
    refine ⟨h4, h5, ?_⟩
    rw [h3.resolve_left nofun]
    exact h6
  · rw [hx] at h1 h2 h3
    refine ⟨h1, h2, ?_⟩
    rcases h3 with h3 | h3
    · exact .inl h3
    · rw [h3]
      exact .inr rfl

theorem after {r r' : Find α} {f f' : α → Find (Option Text)} (hr : Settles l r r')
    (hf : ∀ a, Misses l (f a) (f' a)) : Misses l (r >>= f) (r' >>= f') := by
  intro m hm
  obtain ⟨h1, h2⟩ := hr m hm
  rw [run_bind, run_bind, h2]
  cases (r.run.run m).1 with
  | error e => exact ⟨h1, nofun, .inr rfl⟩
  | ok a => exact hf a _ h1

theorem firstOf_cons {rs rs' : List (Find (Option Text))} (hr : Misses l r r')
    (hrs : Misses l (firstOf rs) (firstOf rs')) :
    Misses l (firstOf (r :: rs)) (firstOf (r' :: rs')) := hr.orElse hrs

end Misses

/-! ## Files -/

/-- Without links the real path of a file is its own, in whatever files. -/
theorem realPath_plain (ht : t.LinkFree) (p : Text) {m : Memory} (hm : ArePlain m.real) :
    (realPath t p).run.run m = (.ok (Path.toLocation p).text,
      { m with real := match assoc? p m.real with
        | some _ => m.real
        | none => (p, (Path.toLocation p).text) :: m.real }) := by
  rw [realPath_run]
  cases ha : assoc? p m.real with
  | some r =>
    have hr : r = (Path.toLocation p).text := hm _ (assoc?_mem ha)
    rw [hr]
  | none =>
    dsimp only
    rw [settle_plain ht hm _ (by simpa using Path.toLocation_proper p)]
    rfl

theorem arePlain_cons {real : List (Text × Text)} (h : ArePlain real) (p : Text) :
    ArePlain ((p, (Path.toLocation p).text) :: real) := by
  intro e he
  rcases List.mem_cons.mp he with rfl | he
  · rfl
  · exact h e he

@[simp] theorem join_absolute (dir p : Text) : Path.isAbsolute (join dir p) = true :=
  Path.isAbsolute_text _

theorem isAbsolute_append {p : Text} (hp : Path.isAbsolute p = true) (e : Text) :
    Path.isAbsolute (p ++ e) = true := by
  cases p with
  | nil => cases hp
  | cons c r => exact hp

section
variable (ht : t.LinkFree) (hf : t.FileAt l) (hl : l ≠ [])
include ht hf hl

theorem tryFile_misses {p : Text} (hp : Path.isAbsolute p = true) :
    Misses l (tryFile t p) (tryFile (t.without l) p) := by
  intro m hm
  have hrun : ∀ {u : FileTree}, u.LinkFree → u.hasFile p = true → (tryFile u p).run.run m =
      (.ok (some (Path.toLocation p).text),
        { m with real := match assoc? p m.real with
          | some _ => m.real
          | none => (p, (Path.toLocation p).text) :: m.real }) := by
    intro u hu hfile
    have hmap : tryFile u p = realPath u p >>= fun r => return some r := by
      rw [tryFile, if_pos hfile, map_eq_pure_bind]
    rw [hmap, run_bind, realPath_plain hu p hm.real]
    rfl
  cases hfile : t.hasFile p with
  | false =>
    have hnone : (t.without l).hasFile p = false := by
      rw [← Bool.not_eq_true]
      intro h
      rw [FileTree.hasFile_of_without hf hl h] at hfile
      cases hfile
    have hnothing : ∀ {u : FileTree}, u.hasFile p = false → tryFile u p = return none := by
      intro u hu
      rw [tryFile, hu]
      rfl
    rw [hnothing hfile, hnothing hnone]
    exact Misses.none m hm
  | true =>
    obtain ⟨q, -, hq, -⟩ := (FileTree.hasFile_iff t p).mp hfile
    obtain rfl := FileTree.locate_absolute ht hp hq
    rw [hrun ht hfile]
    refine ⟨⟨?_, hm.found⟩, ?_, ?_⟩
    · dsimp only
      cases assoc? p m.real with
      | some r => exact hm.real
      | none => exact arePlain_cons hm.real p
    · rintro f hfound
      cases hfound
      exact ⟨_, Path.toLocation_proper p, fun h => hf.not_above hl hq hp h, rfl⟩
    · by_cases he : Path.toLocation p = l
      · rw [he]
        exact .inl rfl
      · have hne : t.locate p ≠ .ok l := by
          rw [hq]
          exact fun h => he (Except.ok.inj h)
        exact .inr (hrun (FileTree.linkFree_without ht l)
          ((FileTree.hasFile_without hf hl hne).trans hfile))

theorem tryExtensions_misses {base : Text} (hbase : Path.isAbsolute base = true)
    (es : List Text) :
    Misses l (tryExtensions t base es) (tryExtensions (t.without l) base es) := by
  induction es with
  | nil => exact .none
  | cons e es ih =>
    exact (tryFile_misses ht hf hl (isAbsolute_append hbase e)).orElse ih

/-! ## Directories -/

theorem description_settles (hname : l.name ≠ descriptionName) (dir : Text) :
    Settles l (description t dir) (description (t.without l) dir) := by
  have hbytes : ((t.without l).bytes (join dir "package.json")).toOption =
      (t.bytes (join dir "package.json")).toOption := by
    refine FileTree.bytes_without hf hl fun hlocate => ?_
    have hplace := FileTree.locate_absolute ht (join_absolute ..) hlocate
    have hjoin : join dir "package.json" =
        Location.text (Path.toLocation dir ++ [descriptionName]) := join_description dir
    rw [hjoin, Path.toLocation_text ((Path.toLocation_proper dir).concat
      ⟨by decide, by decide, by decide, by decide⟩)] at hplace
    rw [hplace] at hname
    simp [Location.name] at hname
  intro m hm
  rw [description_run, description_run]
  cases assoc? (join dir "package.json") m.descriptions with
  | some d => exact ⟨hm, rfl⟩
  | none =>
    cases hb : t.bytes (join dir "package.json") with
    | error e =>
      rw [hb] at hbytes
      cases hb' : (t.without l).bytes (join dir "package.json") with
      | error e' => exact ⟨hm, rfl⟩
      | ok b =>
        rw [hb'] at hbytes
        cases hbytes
    | ok b =>
      rw [hb] at hbytes
      cases hb' : (t.without l).bytes (join dir "package.json") with
      | error e' =>
        rw [hb'] at hbytes
        cases hbytes
      | ok b' =>
        rw [hb'] at hbytes
        cases hbytes
        refine ⟨?_, rfl⟩
        dsimp only
        cases describe (join dir "package.json") b with
        | error f => exact hm
        | ok e => exact ⟨hm.real, hm.found⟩

theorem firstDescription_settles (hname : l.name ≠ descriptionName) (ls : List Location) :
    Settles l (firstDescription t ls) (firstDescription (t.without l) ls) := by
  induction ls with
  | nil => exact fun _ hm => ⟨hm, rfl⟩
  | cons d ls ih =>
    intro m hm
    obtain ⟨h1, h2⟩ := description_settles ht hf hl hname d.text m hm
    rw [firstDescription, firstDescription, run_bind, run_bind, h2]
    cases ((description t d.text).run.run m).1 with
    | error e => exact ⟨h1, rfl⟩
    | ok r =>
      cases r with
      | none => exact ih _ h1
      | some d => exact ⟨h1, rfl⟩

theorem entryFile_settles (hname : l.name ≠ descriptionName) (dir : Text) :
    Settles l (entryFile t dir) (entryFile (t.without l) dir) :=
  (description_settles ht hf hl hname dir).map _

theorem kindOf_settles (hname : l.name ≠ descriptionName) (file : Text) :
    Settles l (kindOf t file) (kindOf (t.without l) file) := by
  have hnear : Settles l (nearestDescription t file) (nearestDescription (t.without l) file) :=
    firstDescription_settles ht hf hl hname _
  unfold kindOf
  split
  · exact fun _ hm => ⟨hm, rfl⟩
  split
  · exact fun _ hm => ⟨hm, rfl⟩
  split
  · exact hnear.map _
  · exact fun _ hm => ⟨hm, rfl⟩

theorem openFile_placed (hname : l.name ≠ descriptionName) (e : Engine) (file : Text) {m : Memory}
    (hm : Placed l m) : Placed l ((openFile e t file).run.run m).2 := by
  obtain ⟨h1, -⟩ := kindOf_settles ht hf hl hname file m hm
  rw [openFile_run]
  rcases hk : (kindOf t file).run.run m with ⟨f | kind, n⟩ <;> rw [hk] at h1
  · exact h1
  · dsimp only
    cases textOf t file with
    | error f => exact h1
    | ok text =>
      dsimp only
      split
      · obtain ⟨modules, hframe⟩ := importModule_frame e file text n
        rw [hframe]
        exact ⟨h1.real, h1.found⟩
      · exact h1

theorem tryDirectory_misses (hname : l.name ≠ descriptionName) (extensions : List Text)
    (dir : Text) :
    Misses l (tryDirectory t extensions dir) (tryDirectory (t.without l) extensions dir) := by
  have hexts := fun base p => tryExtensions_misses ht hf hl (join_absolute base p) extensions
  refine .after (entryFile_settles ht hf hl hname dir) fun r => ?_
  cases r with
  | none => exact hexts _ _
  | some main =>
    dsimp only
    split
    · exact hexts _ _
    · refine .orElse ?_ (.throw _)
      exact .firstOf_cons (tryFile_misses ht hf hl (join_absolute ..)) (.firstOf_cons (hexts _ _)
        (.firstOf_cons (hexts _ _) (.firstOf_cons (hexts _ _) .none)))

/-! ## Requests -/

theorem search_misses (hname : l.name ≠ descriptionName) (extensions : List Text) (request : Text)
    (dirs : List Text) :
    Misses l (search t extensions request dirs) (search (t.without l) extensions request dirs) := by
  induction dirs with
  | nil => exact .none
  | cons dir dirs ih =>
    unfold search
    simp only [FileTree.hasDirectory_without hf hl]
    split
    · exact ih
    · refine .orElse (.firstOf_cons ?_ (.firstOf_cons ?_ .none)) ih
      · split
        · exact .none
        · exact .firstOf_cons (tryFile_misses ht hf hl (join_absolute ..))
            (.firstOf_cons (tryExtensions_misses ht hf hl (join_absolute ..) extensions) .none)
      · split
        · exact tryDirectory_misses ht hf hl hname extensions _
        · exact .none

theorem retrieve_misses (hname : l.name ≠ descriptionName) (extensions : List Text) (request : Text)
    (dirs : List Text) : Misses l (retrieve t extensions request dirs)
      (retrieve (t.without l) extensions request dirs) := by
  have hread : ∀ (u : FileTree) (m : Memory), (retrieve u extensions request dirs).run.run m =
      match assoc? (request, dirs) m.found with
      | some f => (.ok (some f), m)
      | none => match (search u extensions request dirs).run.run m with
        | (.error e, n) => (.error e, n)
        | (.ok none, n) => (.ok none, n)
        | (.ok (some f), n) =>
          (.ok (some f), { n with found := ((request, dirs), f) :: n.found }) := by
    intro u m
    unfold retrieve
    rw [run_get_bind]
    cases assoc? (request, dirs) m.found with
    | some f => rfl
    | none =>
      dsimp only
      rw [run_bind]
      rcases (search u extensions request dirs).run.run m with ⟨_ | _ | f, n⟩ <;> rfl
  intro m hm
  rw [hread, hread]
  cases ha : assoc? (request, dirs) m.found with
  | some f =>
    refine ⟨hm, ?_, .inr rfl⟩
    rintro g hg
    cases hg
    exact hm.found _ (assoc?_mem ha)
  | none =>
    obtain ⟨h1, h2, h3⟩ := search_misses ht hf hl hname extensions request dirs m hm
    rcases hx : (search t extensions request dirs).run.run m with ⟨_ | _ | f, n⟩
    · rw [hx] at h1 h3
      rw [h3.resolve_left nofun]
      exact ⟨h1, nofun, .inr rfl⟩
    · rw [hx] at h1 h3
      rw [h3.resolve_left nofun]
      exact ⟨h1, nofun, .inr rfl⟩
    · rw [hx] at h1 h2 h3
      refine ⟨⟨h1.real, ?_⟩, h2, ?_⟩
      · intro e he
        rcases List.mem_cons.mp he with rfl | he
        · exact h2 f rfl
        · exact h1.found e he
      · rcases h3 with h3 | h3
        · exact .inl h3
        · rw [h3]
          exact .inr rfl

theorem lookup_misses (hname : l.name ≠ descriptionName) (extensions : List Text)
    (parent request : Text) : Misses l (lookup t extensions parent request)
      (lookup (t.without l) extensions parent request) :=
  .after (firstDescription_settles ht hf hl hname _) fun _ =>
    retrieve_misses ht hf hl hname extensions request _

theorem Beside.bytes_without {file : Text} (h : Beside l file) (hne : file ≠ l.text) :
    (t.without l).bytes file = t.bytes file := by
  obtain ⟨q, hq, hbelow, rfl⟩ := h
  exact FileTree.bytes_apart ht hf hl hq fun hle => hne (by rw [hbelow hle])

end

/-! ## Evaluations -/

/-- What look-ups remember stays placed on a path of events, by induction on the path. -/
theorem Path.placed {c : Surroundings} {learn : Text → Text → TypeScript.Project.Kept →
    TypeScript.Project.Kept} {x y : Standing} {es : List Event} (ht : c.tree.LinkFree)
    (hf : c.tree.FileAt l) (hl : l ≠ []) (hname : l.name ≠ descriptionName)
    (h : Path c learn x es y) (hx : Placed l x.memory) :
    Placed l y.memory ∧ ∀ e ∈ es, ∀ m, e.memory? = some m → Placed l m := by
  induction h with
  | nil x => exact ⟨hx, nofun⟩
  | cons step rest ih =>
    cases step with
    | asked parent request hdue =>
      obtain ⟨h1, h2⟩ := ih (lookup_misses ht hf hl hname _ parent request _ hx).1
      exact ⟨h1, List.forall_mem_cons.mpr ⟨fun m hm => Option.some.inj hm ▸ hx, h2⟩⟩
    | opened file hdue =>
      obtain ⟨h1, h2⟩ := ih (openFile_placed ht hf hl hname _ file hx)
      exact ⟨h1, List.forall_mem_cons.mpr ⟨fun m hm => Option.some.inj hm ▸ hx, h2⟩⟩
    | reused _ _ | began _ _ | compiled _ _ | completed _ _ | stopped _ _ =>
      obtain ⟨h1, h2⟩ := ih hx
      exact ⟨h1, List.forall_mem_cons.mpr ⟨nofun, h2⟩⟩

end ConfigLoader.Modules
