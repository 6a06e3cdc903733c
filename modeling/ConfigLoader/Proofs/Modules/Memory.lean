import ConfigLoader.Proofs.FileTree.Locations
import ConfigLoader.Proofs.Modules.Respects

/-! # What look-ups remember

On files without links, a memory of look-ups is sound when every description in it is what the file
says now, and every path in it leads to itself. Sound memories answer each search alike, whatever else
they hold. They open each file alike if the ES modules that were evaluated are what their files hold now.
-/
namespace ConfigLoader

def Entry.isLink : Entry → Bool
  | .link _ => true
  | _ => false

def FileTree.LinkFree (t : FileTree) : Prop := ∀ e ∈ t.entries, e.2.isLink = false

instance (t : FileTree) : Decidable t.LinkFree := List.decidableBAll _ _

theorem FileTree.LinkFree.at?_ne {t : FileTree} (ht : t.LinkFree) (l : Location) (target : Text) :
    t.at? l ≠ some (.link target) := by
  intro h
  cases l with
  | nil => cases h
  | cons n r => cases ht _ (t.at?_mem (List.cons_ne_nil n r) h)

namespace Modules
open Script (Failure)

theorem assoc?_mem {α β : Type} [BEq α] [LawfulBEq α] {k : α} {l : List (α × β)} {v : β}
    (h : assoc? k l = some v) : (k, v) ∈ l := by
  obtain ⟨e, he, hv⟩ := Option.map_eq_some_iff.mp h
  have hk : e.1 = k := by simpa using List.find?_some he
  have hm := List.mem_of_find?_eq_some he
  rw [← hk, ← hv]
  exact hm

theorem assoc?_none {α β : Type} [BEq α] [LawfulBEq α] {k : α} {l : List (α × β)} :
    assoc? k l = none ↔ ∀ e ∈ l, e.1 ≠ k := by
  simp [assoc?, List.find?_eq_none]

@[grind =] theorem assoc?_cons {α β : Type} [BEq α] (k j : α) (v : β) (l : List (α × β)) :
    assoc? k ((j, v) :: l) = if j == k then some v else assoc? k l := by
  cases h : j == k <;> simp [assoc?, h]

def ArePlain (real : List (Text × Text)) : Prop := ∀ e ∈ real, e.2 = (Path.toLocation e.1).text

/-- Each ES module that was evaluated comes to what its file comes to now, if it can be read. -/
def AreCurrent (e : Engine) (t : FileTree) (modules : List (Text × Text)) : Prop :=
  ∀ p ∈ modules, ∀ text, textOf t p.1 = .ok text → e.readModule p.1 p.2 = e.readModule p.1 text

/-- What look-ups remember is what the files say, but for the files that they found and the modules that
were evaluated: these are those of another memory. -/
structure Sound (t : FileTree) (k m : Memory) : Prop where
  real : ArePlain m.real
  described : ∀ p ∈ m.descriptions, ∃ b, t.bytes p.1 = .ok b ∧ describe p.1 b = .ok p.2
  found : m.found = k.found
  modules : m.modules = k.modules

variable {e : Engine} {t u : FileTree} {k l : Memory}

theorem sound_empty (t : FileTree) : Sound t .empty .empty := ⟨nofun, nofun, rfl, rfl⟩

theorem Sound.self {m : Memory} (hm : Sound t k m) : Sound t m m :=
  ⟨hm.real, hm.described, rfl, rfl⟩

/-! ## Real paths -/

theorem settle_plain (ht : t.LinkFree) {real : List (Text × Text)} (hr : ArePlain real)
    (fuel : Nat) {here : Location} {rest : List Text} (hp : ∀ n ∈ here ++ rest, Path.IsProper n) :
    settle t fuel real here rest = (here ++ rest, real) := by
  induction fuel generalizing here rest with
  | zero => rfl
  | succ fuel ih =>
    cases rest with
    | nil => simp [settle]
    | cons n rest =>
      have hp' : ∀ m ∈ here ++ [n] ++ rest, Path.IsProper m := by
        intro m hm
        exact hp m (by simpa using hm)
      have hnext := ih hp'
      have happend : here ++ [n] ++ rest = here ++ n :: rest := by simp
      rw [happend] at hnext
      unfold settle
      dsimp only
      cases ha : assoc? (Location.text (here ++ [n])) real with
      | some p =>
        have hself : p = Location.text (here ++ [n]) := by
          have h := hr _ (assoc?_mem ha)
          rw [Path.toLocation_text fun m hm => hp' m (List.mem_append_left _ hm)] at h
          exact h
        simp only [hself, beq_self_eq_true, if_true, hnext]
      | none =>
        cases hl : t.at? (here ++ [n]) with
        | none => exact hnext
        | some e =>
          cases e with
          | link target => exact absurd hl (ht.at?_ne _ _)
          | _ => exact hnext

theorem realPath_run (t : FileTree) (p : Text) (m : Memory) :
    (realPath t p).run.run m = match assoc? p m.real with
      | some r => (.ok r, m)
      | none =>
        let names := Path.toLocation p
        let found := settle t (t.walkFuel names * (names.length + 2)) m.real [] names
        (.ok found.1.text, { m with real := (p, found.1.text) :: found.2 }) := by
  unfold realPath
  rw [run_get_bind]
  cases assoc? p m.real with
  | some r => rfl
  | none => rfl

theorem realPath_settled (ht : t.LinkFree) (p : Text) {m : Memory} (hm : Sound t k m) :
    ((realPath t p).run.run m).1 = .ok (Path.toLocation p).text ∧
      Sound t k ((realPath t p).run.run m).2 := by
  rw [realPath_run]
  cases ha : assoc? p m.real with
  | some r => exact ⟨congrArg Except.ok (hm.real _ (assoc?_mem ha)), hm⟩
  | none =>
    dsimp only
    rw [settle_plain ht hm.real _ (by simpa using Path.toLocation_proper p)]
    refine ⟨rfl, ?_, hm.described, hm.found, hm.modules⟩
    intro q hq
    rcases List.mem_cons.mp hq with rfl | hq
    · rfl
    · exact hm.real q hq

/-! ## Descriptions -/

def describedNow (t : FileTree) (dir : Text) : Except Failure (Option Description) :=
  match t.bytes (join dir "package.json") with
  | .error _ => .ok none
  | .ok b => (describe (join dir "package.json") b).map some

theorem description_run (t : FileTree) (dir : Text) (m : Memory) :
    (description t dir).run.run m = match assoc? (join dir "package.json") m.descriptions with
      | some d => (.ok (some d), m)
      | none => match t.bytes (join dir "package.json") with
        | .error _ => (.ok none, m)
        | .ok bytes => match describe (join dir "package.json") bytes with
          | .error f => (.error f, m)
          | .ok d => (.ok (some d),
              { m with descriptions := (join dir "package.json", d) :: m.descriptions }) := by
  unfold description
  dsimp only
  rw [run_get_bind]
  cases assoc? (join dir "package.json") m.descriptions with
  | some d => rfl
  | none =>
    cases t.bytes (join dir "package.json") with
    | error e => rfl
    | ok bytes =>
      dsimp only
      cases describe (join dir "package.json") bytes with
      | error f => rfl
      | ok d => rfl

theorem description_settled (t : FileTree) (dir : Text) {m : Memory} (hm : Sound t k m) :
    ((description t dir).run.run m).1 = describedNow t dir ∧
      Sound t k ((description t dir).run.run m).2 := by
  rw [description_run, describedNow]
  cases ha : assoc? (join dir "package.json") m.descriptions with
  | some d =>
    obtain ⟨b, hb, hd⟩ := hm.described _ (assoc?_mem ha)
    dsimp only at hb hd
    rw [hb]
    dsimp only
    rw [hd]
    exact ⟨rfl, hm⟩
  | none =>
    cases hb : t.bytes (join dir "package.json") with
    | error _ => exact ⟨rfl, hm⟩
    | ok b =>
      dsimp only
      cases hd : describe (join dir "package.json") b with
      | error f => exact ⟨rfl, hm⟩
      | ok d =>
        refine ⟨rfl, hm.real, ?_, hm.found, hm.modules⟩
        intro q hq
        rcases List.mem_cons.mp hq with rfl | hq
        · exact ⟨b, hb, hd⟩
        · exact hm.described q hq

/-! ## Searches -/

abbrev Sound₂ (t : FileTree) (k l m n : Memory) : Prop := Sound t k m ∧ Sound t l n

theorem realPath_respects (ht : t.LinkFree) (p : Text) :
    Respects (Sound₂ t k l) (realPath t p) :=
  Respects.of_settled (fun _ => realPath_settled ht p) fun _ => realPath_settled ht p

theorem description_respects (t : FileTree) (dir : Text) :
    Respects (Sound₂ t k l) (description t dir) :=
  Respects.of_settled (fun _ => description_settled t dir) fun _ => description_settled t dir

section
variable {R : Memory → Memory → Prop} (hreal : ∀ p, Respects R (realPath t p))
  (hdescription : ∀ dir, Respects R (description t dir))

include hreal in
theorem tryFile_respects (p : Text) : Respects R (tryFile t p) := by
  unfold tryFile
  split
  · exact (hreal p).map _
  · exact Respects.pure _

include hreal in
theorem tryExtensions_respects (base : Text) (extensions : List Text) :
    Respects R (tryExtensions t base extensions) := by
  induction extensions with
  | nil => exact Respects.pure _
  | cons extension extensions ih =>
    refine (tryFile_respects hreal (base ++ extension)).bind fun r => ?_
    cases r with
    | some f => exact Respects.pure _
    | none => exact ih

include hdescription in
theorem firstDescription_respects (ls : List Location) : Respects R (firstDescription t ls) := by
  induction ls with
  | nil => exact Respects.pure _
  | cons l ls ih =>
    refine (hdescription l.text).bind fun r => ?_
    cases r with
    | some d => exact Respects.pure _
    | none => exact ih

include hdescription in
theorem nearestDescription_respects (file : Text) : Respects R (nearestDescription t file) :=
  firstDescription_respects hdescription _

theorem firstOf_respects {tries : List (Find (Option Text))} (h : ∀ f ∈ tries, Respects R f) :
    Respects R (firstOf tries) := by
  induction tries with
  | nil => exact Respects.pure _
  | cons f fs ih =>
    refine (h f (List.mem_cons_self ..)).bind fun r => ?_
    cases r with
    | some p => exact Respects.pure _
    | none => exact ih fun g hg => h g (List.mem_cons_of_mem _ hg)

include hreal hdescription in
theorem tryDirectory_respects (extensions : List Text) (dir : Text) :
    Respects R (tryDirectory t extensions dir) := by
  have hindex := tryExtensions_respects hreal (join dir "index") extensions
  refine ((hdescription dir).map _).bind fun r => ?_
  cases r with
  | none => exact hindex
  | some main =>
    dsimp only
    split
    · exact hindex
    · refine (firstOf_respects ?_).bind fun r => ?_
      · intro f hf
        simp only [List.mem_cons, List.not_mem_nil, or_false] at hf
        rcases hf with rfl | rfl | rfl | rfl
        · exact tryFile_respects hreal _
        · exact tryExtensions_respects hreal _ _
        · exact tryExtensions_respects hreal _ _
        · exact hindex
      · cases r with
        | some f => exact Respects.pure _
        | none => exact Respects.throw _

include hreal hdescription in
theorem search_respects (extensions : List Text) (request : Text) (dirs : List Text) :
    Respects R (search t extensions request dirs) := by
  induction dirs with
  | nil => exact Respects.pure _
  | cons dir dirs ih =>
    unfold search
    dsimp only
    split
    · exact ih
    · refine (firstOf_respects ?_).bind fun r => ?_
      · intro f hf
        simp only [List.mem_cons, List.not_mem_nil, or_false] at hf
        rcases hf with rfl | rfl
        · split
          · exact Respects.pure _
          · refine firstOf_respects ?_
            intro f hf
            simp only [List.mem_cons, List.not_mem_nil, or_false] at hf
            rcases hf with rfl | rfl
            · exact tryFile_respects hreal _
            · exact tryExtensions_respects hreal _ _
        · split
          · exact tryDirectory_respects hreal hdescription _ _
          · exact Respects.pure _
      · cases r with
        | some f => exact Respects.pure _
        | none => exact ih

include hdescription in
theorem kindOf_respects (file : Text) : Respects R (kindOf t file) := by
  unfold kindOf
  split
  · exact Respects.pure _
  split
  · exact Respects.pure _
  split
  · exact (nearestDescription_respects hdescription file).map _
  · exact Respects.pure _

end

def searchNow (t : FileTree) (extensions : List Text) (key : Text × List Text) :
    Except Failure (Option Text) :=
  ((search t extensions key.1 key.2).run.run .empty).1

theorem search_settled (ht : t.LinkFree) (extensions : List Text) (request : Text)
    (dirs : List Text) {m : Memory} (hm : Sound t k m) :
    ((search t extensions request dirs).run.run m).1 = searchNow t extensions (request, dirs) ∧
      Sound t k ((search t extensions request dirs).run.run m).2 := by
  obtain ⟨h1, h2, -⟩ := search_respects (realPath_respects ht) (description_respects t) extensions
    request dirs m .empty ⟨hm, sound_empty t⟩
  exact ⟨h1, h2⟩

/-! ## Look-ups -/

/-- What a memory holds of files and descriptions is up to date: it is sound, it holds the files that
were found at first, and any other file in it is what a search finds now. -/
structure Settled (t : FileTree) (extensions : List Text)
    (first : List ((Text × List Text) × Text)) (m : Memory) : Prop where
  sound : Sound t m m
  kept : ∀ key f, assoc? key first = some f → assoc? key m.found = some f
  found : ∀ key f, assoc? key first = none → assoc? key m.found = some f →
    searchNow t extensions key = .ok (some f)

/-- A memory that is up to date, with what it holds of ES modules. -/
structure Current (e : Engine) (t : FileTree) (extensions : List Text)
    (first : List ((Text × List Text) × Text)) (m : Memory) : Prop where
  settled : Settled t extensions first m
  modules : AreCurrent e t m.modules

def retrieved (t : FileTree) (extensions : List Text) (first : List ((Text × List Text) × Text))
    (key : Text × List Text) : Except Failure (Option Text) :=
  match assoc? key first with
  | some f => .ok (some f)
  | none => searchNow t extensions key

variable {extensions : List Text} {first : List ((Text × List Text) × Text)}

theorem Settled.of_sound {m n : Memory} (hm : Settled t extensions first m) (hn : Sound t m n) :
    Settled t extensions first n := by
  have hf := hn.found
  refine ⟨hn.self, ?_, ?_⟩
  · rw [hf]
    exact hm.kept
  · rw [hf]
    exact hm.found

theorem retrieve_settled (ht : t.LinkFree) (request : Text) (dirs : List Text) {m : Memory}
    (hm : Settled t extensions first m) :
    ((retrieve t extensions request dirs).run.run m).1 =
        retrieved t extensions first (request, dirs) ∧
      Settled t extensions first ((retrieve t extensions request dirs).run.run m).2 ∧
      ((retrieve t extensions request dirs).run.run m).2.modules = m.modules := by
  have hread : (retrieve t extensions request dirs).run.run m =
      (match assoc? (request, dirs) m.found with
        | some f => return some f
        | none => search t extensions request dirs >>= fun r => match r with
          | some f => do
            modify fun m => { m with found := ((request, dirs), f) :: m.found }
            return some f
          | none => return none : Find (Option Text)).run.run m := rfl
  rw [hread]
  cases ha : assoc? (request, dirs) m.found with
  | some f =>
    refine ⟨?_, hm, rfl⟩
    cases hb : assoc? (request, dirs) first with
    | some g =>
      have hg := hm.kept _ _ hb
      rw [ha] at hg
      simp only [retrieved, hb, ← Option.some.inj hg]
      rfl
    | none =>
      simp only [retrieved, hb, hm.found _ _ hb ha]
      rfl
  | none =>
    have hb : assoc? (request, dirs) first = none := by
      cases hb : assoc? (request, dirs) first with
      | none => rfl
      | some g => rw [hm.kept _ _ hb] at ha; cases ha
    obtain ⟨h1, h2⟩ := search_settled ht extensions request dirs hm.sound
    dsimp only
    rw [run_bind, h1]
    simp only [retrieved, hb]
    have hcur := hm.of_sound h2
    cases hs : searchNow t extensions (request, dirs) with
    | error e => exact ⟨rfl, hcur, h2.modules⟩
    | ok r =>
      cases r with
      | none => exact ⟨rfl, hcur, h2.modules⟩
      | some f =>
        refine ⟨rfl, ⟨⟨hcur.sound.real, hcur.sound.described, rfl, rfl⟩, ?_, ?_⟩, h2.modules⟩
        · intro key g hg
          have hne : ((request, dirs) == key) = false := by
            cases hk : (request, dirs) == key with
            | false => rfl
            | true =>
              have hk : (request, dirs) = key := by simpa using hk
              rw [← hk, hb] at hg
              cases hg
          refine (assoc?_cons key (request, dirs) f _).trans ?_
          rw [hne]
          exact hcur.kept key g hg
        · intro key g hg hfound
          have hfound := (assoc?_cons key (request, dirs) f _).symm.trans hfound
          cases hk : (request, dirs) == key with
          | false =>
            rw [hk] at hfound
            exact hcur.found key g hg hfound
          | true =>
            rw [hk] at hfound
            have hk : (request, dirs) = key := by simpa using hk
            rw [← hk, hs, ← Option.some.inj hfound]

theorem lookup_settled (ht : t.LinkFree) (parent request : Text) : ∃ a, ∀ m : Memory,
    Settled t extensions first m →
      ((lookup t extensions parent request).run.run m).1 = a ∧
      Settled t extensions first ((lookup t extensions parent request).run.run m).2 ∧
      ((lookup t extensions parent request).run.run m).2.modules = m.modules := by
  have hread : ∀ m : Memory, Settled t extensions first m →
      ((nearestDescription t parent).run.run m).1 = ((nearestDescription t parent).run.run .empty).1 ∧
      Sound t m ((nearestDescription t parent).run.run m).2 := by
    intro m hm
    obtain ⟨h1, h2, -⟩ := nearestDescription_respects (description_respects t) parent m .empty
      ⟨hm.sound, sound_empty t⟩
    exact ⟨h1, h2⟩
  refine ⟨match ((nearestDescription t parent).run.run .empty).1 with
    | .error f => .error f
    | .ok _ => retrieved t extensions first (request, directories parent request), fun m hm => ?_⟩
  obtain ⟨h1, h2⟩ := hread m hm
  rw [lookup, run_bind, h1]
  cases ((nearestDescription t parent).run.run .empty).1 with
  | error f => exact ⟨rfl, hm.of_sound h2, h2.modules⟩
  | ok d =>
    obtain ⟨h3, h4, h5⟩ := retrieve_settled ht request (directories parent request) (hm.of_sound h2)
    exact ⟨h3, h4, h5.trans h2.modules⟩

section
variable (modules : List (Text × Text))

theorem realPath_modules (t : FileTree) (p : Text) :
    Respects (fun m n => m = n ∧ m.modules = modules) (realPath t p) := by
  rintro m _ ⟨rfl, hm⟩
  refine ⟨rfl, rfl, ?_⟩
  rw [realPath_run]
  cases assoc? p m.real <;> exact hm

theorem description_modules (t : FileTree) (dir : Text) :
    Respects (fun m n => m = n ∧ m.modules = modules) (description t dir) := by
  rintro m _ ⟨rfl, hm⟩
  refine ⟨rfl, rfl, ?_⟩
  rw [description_run]
  split
  · exact hm
  · split
    · exact hm
    · split <;> exact hm

theorem lookup_modules (t : FileTree) (extensions : List Text) (parent request : Text) (m : Memory) :
    ((lookup t extensions parent request).run.run m).2.modules = m.modules := by
  have hsearch := search_respects (realPath_modules m.modules t) (description_modules m.modules t)
    extensions request (directories parent request)
  have hretrieve : Respects (fun n k => n = k ∧ n.modules = m.modules)
      (retrieve t extensions request (directories parent request)) := by
    rintro n _ ⟨rfl, hn⟩
    refine ⟨rfl, rfl, ?_⟩
    unfold retrieve
    rw [run_get_bind]
    split
    · exact hn
    · have hfound := (hsearch n n ⟨rfl, hn⟩).2.2
      rw [run_bind]
      split
      · split <;> exact hfound
      · exact hfound
  have hnearest := nearestDescription_respects (description_modules m.modules t) parent
  exact ((hnearest.bind fun _ => hretrieve) m m ⟨rfl, rfl⟩).2.2

end

/-- What a memory that is up to date holds is settled when nothing was found after the start. -/
theorem settled_first {m : Memory} (hm : Sound t m m) : Settled t extensions m.found m :=
  ⟨hm, fun _ _ h => h, fun key f h1 h2 => by rw [h1] at h2; cases h2⟩

theorem settled_empty (t : FileTree) (extensions : List Text) : Settled t extensions [] .empty :=
  @settled_first t extensions .empty (sound_empty t)

theorem current_empty (e : Engine) (t : FileTree) (extensions : List Text) :
    Current e t extensions [] .empty := ⟨settled_empty t extensions, nofun⟩

/-! ## Openings -/

theorem importModule_run (e : Engine) (file text : Text) (m : Memory) :
    (importModule e file text).run.run m = match assoc? file m.modules with
      | some kept => (e.readModule file kept, m)
      | none => (e.readModule file text, match e.readModule file text with
        | .ok _ => { m with modules := (file, text) :: m.modules }
        | .error _ => m) := by
  unfold importModule
  rw [run_get_bind]
  cases assoc? file m.modules with
  | some kept =>
    dsimp only
    cases e.readModule file kept <;> rfl
  | none =>
    dsimp only
    cases e.readModule file text <;> rfl

/-- Evaluating an ES module changes which ones are remembered alone. -/
theorem importModule_frame (e : Engine) (file text : Text) (m : Memory) :
    ∃ modules, ((importModule e file text).run.run m).2 = { m with modules := modules } := by
  rw [importModule_run]
  cases assoc? file m.modules with
  | some kept => exact ⟨m.modules, rfl⟩
  | none =>
    cases e.readModule file text with
    | error f => exact ⟨m.modules, rfl⟩
    | ok r => exact ⟨(file, text) :: m.modules, rfl⟩

/-- An ES module whose file was read comes to what that text comes to. -/
theorem importModule_current {file text : Text} (hr : textOf t file = .ok text) {m : Memory}
    (hm : AreCurrent e t m.modules) :
    ((importModule e file text).run.run m).1 = e.readModule file text ∧
      AreCurrent e t ((importModule e file text).run.run m).2.modules := by
  rw [importModule_run]
  cases ha : assoc? file m.modules with
  | some kept => exact ⟨hm _ (assoc?_mem ha) text hr, hm⟩
  | none =>
    refine ⟨rfl, ?_⟩
    cases e.readModule file text with
    | error _ => exact hm
    | ok r =>
      intro p hp other hother
      rcases List.mem_cons.mp hp with rfl | hp
      · rw [Except.ok.inj (hr.symm.trans hother)]
      · exact hm p hp other hother

theorem openFile_run (e : Engine) (t : FileTree) (file : Text) (m : Memory) :
    (openFile e t file).run.run m = match (kindOf t file).run.run m with
      | (.error f, n) => (.error f, n)
      | (.ok kind, n) => match textOf t file with
        | .error f => (.error f, n)
        | .ok text =>
          if isModule e kind text then
            (((importModule e file text).run.run n).1.map Opened.esModule,
              ((importModule e file text).run.run n).2)
          else (.ok (.script text), n) := by
  have hopen : openFile e t file = kindOf t file >>= fun kind => match textOf t file with
      | .error f => throw f
      | .ok text =>
        if isModule e kind text then Opened.esModule <$> importModule e file text
        else return .script text := by
    unfold openFile
    cases textOf t file <;> rfl
  rw [hopen, run_bind]
  rcases (kindOf t file).run.run m with ⟨f | kind, n⟩
  · rfl
  · dsimp only
    cases textOf t file with
    | error f => rfl
    | ok text =>
      dsimp only
      split
      · rw [map_eq_pure_bind, run_bind]
        cases ((importModule e file text).run.run n).1 <;> rfl
      · rfl

theorem Settled.withModules {m : Memory} (hm : Settled t extensions first m)
    (modules : List (Text × Text)) : Settled t extensions first { m with modules := modules } :=
  ⟨⟨hm.sound.real, hm.sound.described, rfl, rfl⟩, hm.kept, hm.found⟩

theorem openFile_settled (e : Engine) (hd : nearestDescription u = nearestDescription t) (file : Text)
    {m : Memory} (hm : Settled t extensions first m) :
    Settled t extensions first ((openFile e u file).run.run m).2 := by
  have hkind : kindOf u file = kindOf t file := by simp only [kindOf, hd]
  obtain ⟨-, hn, -⟩ := kindOf_respects (description_respects t) file m .empty ⟨hm.sound, sound_empty t⟩
  rw [openFile_run, hkind]
  rcases hk : (kindOf t file).run.run m with ⟨f | kind, n⟩ <;> rw [hk] at hn
  · exact hm.of_sound hn
  · dsimp only
    cases textOf u file with
    | error f => exact hm.of_sound hn
    | ok text =>
      dsimp only
      split
      · obtain ⟨modules, hframe⟩ := importModule_frame e file text n
        rw [hframe]
        exact (hm.of_sound hn).withModules modules
      · exact hm.of_sound hn

theorem openFile_current (e : Engine) (t : FileTree) (file : Text) {m : Memory}
    (hm : Current e t extensions first m) :
    ((openFile e t file).run.run m).1 = ((openFile e t file).run.run .empty).1 ∧
      Current e t extensions first ((openFile e t file).run.run m).2 := by
  have hsettled := openFile_settled e rfl file hm.settled
  obtain ⟨h1, hn, hn'⟩ :=
    kindOf_respects (description_respects t) file m .empty ⟨hm.settled.sound, sound_empty t⟩
  rw [openFile_run] at hsettled
  rw [openFile_run, openFile_run]
  rcases hk : (kindOf t file).run.run m with ⟨r, n⟩
  rcases hk' : (kindOf t file).run.run .empty with ⟨r', n'⟩
  rw [hk] at h1 hn hsettled
  rw [hk'] at h1 hn'
  obtain rfl : r = r' := h1
  have hcurrent : AreCurrent e t n.modules := hn.modules.symm ▸ hm.modules
  have hcurrent' : AreCurrent e t n'.modules := hn'.modules.symm ▸ nofun
  cases r with
  | error f => exact ⟨rfl, hsettled, hcurrent⟩
  | ok kind =>
    dsimp only at hsettled ⊢
    cases hr : textOf t file with
    | error f =>
      rw [hr] at hsettled
      exact ⟨rfl, hsettled, hcurrent⟩
    | ok text =>
      rw [hr] at hsettled
      dsimp only at hsettled ⊢
      split at hsettled
      · next hmodule =>
        obtain ⟨h2, h3⟩ := importModule_current hr hcurrent
        rw [if_pos hmodule, if_pos hmodule, h2, (importModule_current hr hcurrent').1]
        exact ⟨rfl, hsettled, h3⟩
      · next hmodule =>
        rw [if_neg hmodule, if_neg hmodule]
        exact ⟨rfl, hsettled, hcurrent⟩

/-! ## Answers -/

inductive Query
  | lookup (parent request : Text)
  | opening (file : Text)

def Query.ask (e : Engine) (t : FileTree) (extensions : List Text) : Query → Find (Option Text ⊕ Opened)
  | .lookup parent request => Sum.inl <$> Modules.lookup t extensions parent request
  | .opening file => Sum.inr <$> openFile e t file

def answers (e : Engine) (t : FileTree) (extensions : List Text) :
    List Query → Memory → List (Except Failure (Option Text ⊕ Opened))
  | [], _ => []
  | q :: qs, m =>
    let (a, n) := (q.ask e t extensions).run.run m
    a :: answers e t extensions qs n

/-- No queries about the files tell two memories apart. -/
def SameAnswers (e : Engine) (t : FileTree) (extensions : List Text) (m n : Memory) : Prop :=
  ∀ qs, answers e t extensions qs m = answers e t extensions qs n

theorem ask_respects (e : Engine) (t : FileTree) (extensions : List Text) (q : Query) :
    Respects (SameAnswers e t extensions) (q.ask e t extensions) := by
  intro m n h
  refine ⟨(List.cons.inj (h [q])).1, ?_⟩
  intro qs
  exact (List.cons.inj (h (q :: qs))).2

theorem Current.ask_respects (ht : t.LinkFree) (q : Query) :
    Respects (fun m n => Current e t extensions first m ∧ Current e t extensions first n)
      (q.ask e t extensions) := by
  cases q with
  | lookup parent request =>
    obtain ⟨a, h⟩ := @lookup_settled t extensions first ht parent request
    have hlookup : ∀ m, Current e t extensions first m →
        ((lookup t extensions parent request).run.run m).1 = a ∧
        Current e t extensions first ((lookup t extensions parent request).run.run m).2 := by
      intro m hm
      obtain ⟨h1, h2, h3⟩ := h m hm.settled
      exact ⟨h1, h2, h3.symm ▸ hm.modules⟩
    exact (Respects.of_settled hlookup hlookup).map _
  | opening file =>
    exact (Respects.of_settled (fun _ => openFile_current e t file)
      fun _ => openFile_current e t file).map _

/-- A query leaves what look-ups found up to date, also in files that look-ups do not tell apart. -/
theorem Settled.ask_keeps (ht : t.LinkFree) (hl : lookup u = lookup t)
    (hd : nearestDescription u = nearestDescription t) (q : Query) :
    Respects (fun m n => m = n ∧ Settled t extensions first m) (q.ask e u extensions) := by
  cases q with
  | lookup parent request =>
    refine Respects.map _ ?_
    rintro m _ ⟨rfl, hm⟩
    obtain ⟨a, h⟩ := lookup_settled ht parent request
    obtain ⟨-, h, -⟩ := h m hm
    exact ⟨rfl, rfl, hl ▸ h⟩
  | opening file =>
    refine Respects.map _ ?_
    rintro m _ ⟨rfl, hm⟩
    exact ⟨rfl, rfl, openFile_settled e hd file hm⟩

theorem Current.ask_keeps (ht : t.LinkFree) (q : Query) :
    Respects (fun m n => m = n ∧ Current e t extensions first m) (q.ask e t extensions) := by
  rintro m _ ⟨rfl, hm⟩
  obtain ⟨-, h, -⟩ := Current.ask_respects ht q m m ⟨hm, hm⟩
  exact ⟨rfl, rfl, h⟩

theorem Current.sameAnswers (ht : t.LinkFree) {m n : Memory}
    (hm : Current e t extensions first m) (hn : Current e t extensions first n) :
    SameAnswers e t extensions m n := by
  intro qs
  induction qs generalizing m n with
  | nil => rfl
  | cons q qs ih =>
    obtain ⟨h1, h2, h3⟩ := Current.ask_respects ht q m n ⟨hm, hn⟩
    exact List.cons_eq_cons.mpr ⟨h1, ih h2 h3⟩

end Modules
end ConfigLoader
