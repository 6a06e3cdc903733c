import ConfigLoader.Proofs.Json.Documents
import ConfigLoader.Proofs.Json.Lines

/-! # What a frame conveys

A script writes a value as JSON, and the reader at the other end has numbers, texts and keys of its own.
What it has is the value that was sent: the same numbers, texts of the same units, and the same
members in the order in which they were written.
-/
namespace ConfigLoader.Json.Canonical

/-- A reader has the second value where a script sent the first. What a script writes as null is
null, as a number is that is not finite; of members with one name, the last value stands. -/
inductive Conveys : Value → Value → Prop
  | null {v : Value} (h : print v = "null") : Conveys v .null
  | bool (b : Bool) : Conveys (.bool b) (.bool b)
  | whole {x : Binary64} {k : Int} (h : x.same (Binary64.ofInt k) = true) :
      Conveys (.float x) (.int k)
  | float {x : Binary64} (hx : x.isFinite = true) : Conveys (.float x) (.float x)
  | int {n : Int} {w : Value} (h : Conveys (.float (Binary64.ofInt n)) w) : Conveys (.int n) w
  | text {t u : Text} (h : Text.units16 u = Text.units16 t) : Conveys (.text t) (.text u)
  | list {vs ws : List Value} (h : List.Forall₂ Conveys vs ws) : Conveys (.list vs) (.list ws)
  | mapping {es : Entries} {ns : List (Text × Value)}
      (hnames : (ns.map fun n => n.1.units16) =
        (order Prod.fst (members es)).map fun m => m.1.units16)
      (hvalues : List.Forall₂ Conveys ((order Prod.fst (members es)).map Prod.snd)
        (ns.map Prod.snd)) :
      Conveys (.mapping es) (.mapping (Entries.ofPairs (textEntries ns)))

theorem same_of_finite {x : Binary64} (hx : x.isFinite = true) : x.same x = true := by
  simp only [Binary64.same, Binary64.isNaN_of_isFinite hx, Bool.not_false, beq_self_eq_true,
    Bool.true_or, Bool.and_self]

theorem same_zero {x : Binary64} (hx : x.isFinite = true) (hz : x.isZero = true) :
    x.same (Binary64.ofInt 0) = true := by
  have hnan : (Binary64.ofInt 0).isNaN = false := by decide
  have hzero : (Binary64.ofInt 0).isZero = true := by decide
  simp only [Binary64.same, Binary64.isNaN_of_isFinite hx, hnan, hz, hzero, Bool.not_false,
    Bool.and_self, Bool.or_true]

theorem conveys_number (x : Binary64) : Conveys (.float x) (receivedNumber x) := by
  cases hx : x.isFinite with
  | false =>
    have hform : numberText x = "null" := by
      rw [numberText, hx]
      rfl
    have hnull : receivedNumber x = .null := by
      rw [receivedNumber, hform]
      rfl
    rw [hnull]
    exact .null hform
  | true =>
    cases hz : x.isZero with
    | true =>
      rw [receivedNumber_zero hx hz]
      exact .whole (same_zero hx hz)
    | false =>
      have h := receivedNumber_written hx hz
      split at h
      · obtain ⟨k, hk, hback⟩ := h
        rw [hk]
        exact .whole (by rw [hback]; exact same_of_finite hx)
      · rw [h]
        exact .float hx

theorem conveys_mapping {es : Entries} (h : ∀ m ∈ members es, Conveys m.2 (received m.2)) :
    Conveys (.mapping es) (received (.mapping es)) := by
  have hentries : (order Prod.fst (members es)).map memberEntry =
      textEntries ((order Prod.fst (members es)).map fun m =>
        (Text.joinSurrogates m.1, received m.2)) := by
    rw [textEntries, List.map_map]
    rfl
  have hall : ∀ m ∈ order Prod.fst (members es), Conveys m.2 (received m.2) := fun m hm =>
    h m ((order_perm Prod.fst (members es)).mem_iff.mp hm)
  rw [received_mapping, hentries]
  refine .mapping ?_ ?_
  · rw [List.map_map]
    exact List.map_congr_left fun m _ => Text.units16_joinSurrogates m.1
  · rw [List.map_map]
    generalize order Prod.fst (members es) = ms at hall
    induction ms with
    | nil => exact .nil
    | cons m ms ih =>
      exact .cons (hall m (List.mem_cons_self ..)) (ih fun n hn => hall n (List.mem_cons_of_mem _ hn))

mutual

theorem conveys_received : (v : Value) → Conveys v (received v)
  | .null => .null rfl
  | .bool b => .bool b
  | .int n => .int (conveys_number (Binary64.ofInt n))
  | .float x => conveys_number x
  | .text t => .text (Text.units16_joinSurrogates t)
  | .list vs => .list (conveys_items vs)
  | .mapping es => conveys_mapping (conveys_members es)
  | .bytes _ | .date _ | .dateTime _ | .tuple _ | .set _ | .cycle _ => .null rfl

theorem conveys_items : (vs : List Value) → List.Forall₂ Conveys vs (receivedItems vs)
  | [] => .nil
  | v :: vs => .cons (conveys_received v) (conveys_items vs)

theorem conveys_members : (es : List (Value × Value)) → ∀ m ∈ members es, Conveys m.2 (received m.2)
  | [], _, hm => nomatch hm
  | (k, v) :: es, m, hm => by
    rcases List.mem_cons.mp hm with rfl | hm
    · exact conveys_received v
    · exact conveys_members es m hm

end

/-! ## Lines -/

theorem quote_oneLine (t : Text) : OneLine (quote t) := by
  have h : OneLine (t.flatMap escapeOne) := by
    intro c hc
    obtain ⟨d, -, hd⟩ := List.mem_flatMap.mp hc
    exact (escapeOne_written d).oneLine c hd
  exact ((OneLine.of_all (by decide)).append h).append (.of_all (by decide))

theorem numberText_oneLine (x : Binary64) : OneLine (numberText x) := by
  unfold numberText
  split
  · exact text_oneLine .nil (.of_all (by decide)) (.of_all (by decide)) x
  · exact .of_all (by decide)

theorem null_oneLine : OneLine (Text.ofString "null") := .of_all (by decide)

theorem memberText_oneLine {m : Text × Value} (h : OneLine (print m.2)) : OneLine (memberText m) :=
  (quote_oneLine m.1).append (.cons (by decide) h)

mutual

theorem print_oneLine : (v : Value) → OneLine (print v)
  | .bool b => by cases b <;> exact .of_all (by decide)
  | .int n => numberText_oneLine (Binary64.ofInt n)
  | .float x => numberText_oneLine x
  | .text t => quote_oneLine t
  | .list vs => ((OneLine.of_all (by decide)).append
      (.join (.of_all (by decide)) (printItems_oneLine vs))).append (.of_all (by decide))
  | .mapping es => by
    rw [print_mapping]
    refine .cons (by decide) (.append (.join (.of_all (by decide)) ?_) (.of_all (by decide)))
    intro t ht
    obtain ⟨m, hm, rfl⟩ := List.mem_map.mp ht
    exact memberText_oneLine
      (printMembers_oneLine es m ((order_perm Prod.fst (members es)).mem_iff.mp hm))
  | .null | .bytes _ | .date _ | .dateTime _ | .tuple _ | .set _ | .cycle _ => null_oneLine

theorem printItems_oneLine : (vs : List Value) → ∀ t ∈ printItems vs, OneLine t
  | [], _, ht => nomatch ht
  | v :: vs, t, ht => by
    rcases List.mem_cons.mp ht with rfl | ht
    · exact print_oneLine v
    · exact printItems_oneLine vs t ht

theorem printMembers_oneLine : (es : List (Value × Value)) → ∀ m ∈ members es, OneLine (print m.2)
  | [], _, hm => nomatch hm
  | (k, v) :: es, m, hm => by
    rcases List.mem_cons.mp hm with rfl | hm
    · exact print_oneLine v
    · exact printMembers_oneLine es m hm

end

end ConfigLoader.Json.Canonical
