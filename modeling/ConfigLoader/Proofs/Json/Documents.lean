import ConfigLoader.Proofs.Json.Canonical
import ConfigLoader.Proofs.Json.Exact
import ConfigLoader.Proofs.Json.Order

/-! # Documents

Fields with plain names keep their order when they are written in canonical form, so they are read one by
one. What a document is read as once it was written has the same text in canonical form.
-/
namespace ConfigLoader.Json.Canonical

/-! ## Fields with plain names -/

/-- A name that keeps its place in a mapping and is read as it is. -/
def IsPlain (name : Text) : Prop := index? name = none ∧ Text.joinSurrogates name = name

instance (name : Text) : Decidable (IsPlain name) := inferInstanceAs (Decidable (_ ∧ _))

def ArePlain (names : List Text) : Prop := (∀ n ∈ names, IsPlain n) ∧ names.Nodup

instance (names : List Text) : Decidable (ArePlain names) := inferInstanceAs (Decidable (_ ∧ _))

theorem foldl_indexed_plain {α : Type} {name : α → Text} {l : List α}
    (h : ∀ a ∈ l, index? (name a) = none) (acc : List (Nat × α)) :
    l.foldl (fun acc a => match index? (name a) with
      | some n => insertIndexed n a acc
      | none => acc) acc = acc := by
  induction l with
  | nil => rfl
  | cons a l ih =>
    rw [List.foldl_cons, h a (List.mem_cons_self ..)]
    exact ih fun b hb => h b (List.mem_cons_of_mem _ hb)

theorem order_plain {α : Type} {name : α → Text} {l : List α}
    (h : ∀ a ∈ l, index? (name a) = none) : order name l = l := by
  have hfilter : (l.filter fun a => (index? (name a)).isNone) = l :=
    List.filter_eq_self.mpr fun a ha => by rw [h a ha]; rfl
  rw [order, hfilter]
  refine (congrArg (fun x => List.map Prod.snd x ++ l) (foldl_indexed_plain h [])).trans ?_
  rfl

theorem put_new {es : Entries} {name : Text} (v : Value)
    (h : ∀ e ∈ es, e.1.sameKey (.text name) = false) :
    es.put (.text name) v = es ++ [(.text name, v)] := by
  induction es with
  | nil => rfl
  | cons e es ih =>
    rw [Entries.put, h e (List.mem_cons_self ..)]
    simp only [Bool.false_eq_true, if_false, List.cons_append, List.cons.injEq, true_and]
    exact ih fun e he => h e (List.mem_cons_of_mem _ he)

def textEntries (fs : List (Text × Value)) : Entries := fs.map fun f => (.text f.1, f.2)

theorem foldl_put_text (fs gs : List (Text × Value)) (hn : ((gs ++ fs).map Prod.fst).Nodup) :
    (textEntries fs).foldl (fun es p => Entries.put es p.1 p.2) (textEntries gs) =
      textEntries (gs ++ fs) := by
  induction fs generalizing gs with
  | nil => rw [List.append_nil]; rfl
  | cons f fs ih =>
    have hnew : ∀ e ∈ textEntries gs, e.1.sameKey (.text f.1) = false := by
      intro e he
      obtain ⟨g, hg, rfl⟩ := List.mem_map.mp he
      rw [List.map_append, List.nodup_append] at hn
      have hne := hn.2.2 g.1 (List.mem_map_of_mem hg) f.1 (List.mem_cons_self ..)
      simpa only [Value.sameKey, beq_eq_false_iff_ne] using hne
    have hput := put_new f.2 hnew
    have hstep := ih (gs ++ [f]) (by rwa [List.append_assoc])
    rw [List.append_assoc] at hstep
    rw [← show textEntries gs ++ [(.text f.1, f.2)] = textEntries (gs ++ [f]) by
      simp only [textEntries, List.map_append, List.map_cons, List.map_nil], ← hput] at hstep
    exact hstep

theorem received_fields (names : List Text) (fs : List (Text × Value))
    (hf : fs.map Prod.fst = names) (hn : ArePlain names) :
    received (.mapping (textEntries fs)) =
      .mapping (textEntries (fs.map fun f => (f.1, received f.2))) := by
  obtain ⟨hp, hn⟩ := hn
  rw [← hf] at hp hn
  have hmembers : members (textEntries fs) = fs := by
    simp only [members, textEntries, List.map_map]
    exact List.map_id' fs
  have horder : order Prod.fst fs = fs :=
    order_plain fun f hf => (hp f.1 (List.mem_map_of_mem hf)).1
  have hentries : fs.map memberEntry = textEntries (fs.map fun f => (f.1, received f.2)) := by
    rw [textEntries, List.map_map]
    refine List.map_congr_left fun f hf => ?_
    simp only [memberEntry, (hp f.1 (List.mem_map_of_mem hf)).2, Function.comp_apply]
  have hn' : ((fs.map fun f => (f.1, received f.2)).map Prod.fst).Nodup := by
    rw [List.map_map]
    exact hn
  rw [received_mapping, hmembers, horder, hentries]
  exact congrArg Value.mapping (foldl_put_text _ [] hn')

@[simp] theorem receivedItems_eq (vs : List Value) : receivedItems vs = vs.map received := by
  induction vs with
  | nil => rfl
  | cons v vs ih => rw [receivedItems, ih]; rfl

end ConfigLoader.Json.Canonical

/-! ## Documents in canonical form -/

namespace ConfigLoader.Json
open Canonical

/-- Numbers are finite, texts have no surrogates to join, and names are each of their own. -/
inductive IsDocument : Value → Prop
  | null : IsDocument .null
  | bool (b : Bool) : IsDocument (.bool b)
  | number {x : Binary64} (hx : x.isFinite = true) : IsDocument (.float x)
  | text {t : Text} (ht : Text.joinSurrogates t = t) : IsDocument (.text t)
  | list {vs : List Value} (h : ∀ v ∈ vs, IsDocument v) : IsDocument (.list vs)
  | mapping {ms : List (Text × Value)} (hnames : (ms.map Prod.fst).Nodup)
      (htexts : ∀ m ∈ ms, Text.joinSurrogates m.1 = m.1) (h : ∀ m ∈ ms, IsDocument m.2) :
      IsDocument (.mapping (textEntries ms))

namespace Canonical

@[simp] theorem printItems_eq (vs : List Value) : printItems vs = vs.map print := by
  induction vs with
  | nil => rfl
  | cons v vs ih => rw [printItems, ih]; rfl

theorem print_list (vs : List Value) :
    print (.list vs) = "[" ++ Text.join "," (vs.map print) ++ "]" := by
  rw [print, printItems_eq]

@[simp] theorem members_textEntries (ms : List (Text × Value)) : members (textEntries ms) = ms := by
  simp only [members, textEntries, List.map_map]
  exact List.map_id' ms

@[simp] theorem print_ordered (ms : List (Text × Value)) :
    print (.mapping (textEntries (order Prod.fst ms))) = print (.mapping (textEntries ms)) := by
  rw [print_mapping, print_mapping, members_textEntries, members_textEntries, order_order]

theorem print_members_congr {α : Type} {ms : List α} (name : α → Text) {f g : α → Value}
    (h : ∀ m ∈ ms, print (f m) = print (g m)) :
    print (.mapping (textEntries (ms.map fun m => (name m, f m)))) =
      print (.mapping (textEntries (ms.map fun m => (name m, g m)))) := by
  have hmembers : ((order name ms).map fun m => (name m, f m)).map memberText =
      ((order name ms).map fun m => (name m, g m)).map memberText := by
    rw [List.map_map, List.map_map]
    refine List.map_congr_left fun m hm => ?_
    simp only [Function.comp_apply, memberText, h m ((order_perm name ms).mem_iff.mp hm)]
  rw [print_mapping, print_mapping, members_textEntries, members_textEntries, order_map, order_map,
    hmembers]

theorem ofPairs_textEntries {ms : List (Text × Value)} (h : (ms.map Prod.fst).Nodup) :
    Entries.ofPairs (textEntries ms) = textEntries ms := foldl_put_text ms [] h

theorem received_textEntries {ms : List (Text × Value)} (hnames : (ms.map Prod.fst).Nodup)
    (htexts : ∀ m ∈ ms, Text.joinSurrogates m.1 = m.1) :
    received (.mapping (textEntries ms)) =
      .mapping (textEntries ((order Prod.fst ms).map fun m => (m.1, received m.2))) := by
  have hperm := order_perm Prod.fst ms
  have hentries : (order Prod.fst ms).map memberEntry =
      textEntries ((order Prod.fst ms).map fun m => (m.1, received m.2)) := by
    rw [textEntries, List.map_map]
    refine List.map_congr_left fun m hm => ?_
    simp only [memberEntry, htexts m (hperm.mem_iff.mp hm), Function.comp_apply]
  have hdistinct : (((order Prod.fst ms).map fun m => (m.1, received m.2)).map Prod.fst).Nodup := by
    rw [List.map_map]
    exact (hperm.map Prod.fst).nodup_iff.mpr hnames
  rw [received_mapping, members_textEntries, hentries, ofPairs_textEntries hdistinct]

/-- The text of a document stays the same when it is read and written again. -/
theorem print_received {v : Value} (hv : IsDocument v) : print (received v) = print v := by
  induction hv with
  | null => rfl
  | bool b => cases b <;> rfl
  | number hx =>
    rw [received, print_receivedNumber hx, print]
  | text ht => rw [received, ht]
  | @list vs h ih =>
    have hitems : (vs.map received).map print = vs.map print := by
      rw [List.map_map]
      exact List.map_congr_left ih
    rw [received, receivedItems_eq, print_list, hitems, print_list]
  | @mapping ms hnames htexts h ih =>
    have hmembers : ∀ m ∈ order Prod.fst ms, print (received m.2) = print m.2 := fun m hm =>
      ih m ((order_perm Prod.fst ms).mem_iff.mp hm)
    have hsame := print_members_congr Prod.fst hmembers
    rw [List.map_id'] at hsame
    rw [received_textEntries hnames htexts, hsame, print_ordered]

theorem received_of_print {v w : Value} (h : print v = print w) : received v = received w := by
  have hv := load_line (Nat.le_max_left (levels v) (levels w))
  rw [h, load_line (Nat.le_max_right (levels v) (levels w))] at hv
  exact (Except.ok.inj hv).symm

end Canonical
end ConfigLoader.Json
