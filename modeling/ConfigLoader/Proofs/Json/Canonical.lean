import ConfigLoader.Proofs.Json.Order
import ConfigLoader.Proofs.Json.Parsing

/-! # Reading canonical JSON

What a document is read as once it was written in canonical form: surrogates are joined, numbers are
read by their digits, and what has no form is null. Whatever is written is read where there are levels
enough.
-/
namespace ConfigLoader.Json.Canonical
variable {l : Nat}

mutual

def received : Value → Value
  | .bool b => .bool b
  | .int n => receivedNumber (Binary64.ofInt n)
  | .float x => receivedNumber x
  | .text t => .text (Text.joinSurrogates t)
  | .list vs => .list (receivedItems vs)
  | .mapping es => .mapping (Entries.ofPairs ((order Prod.fst (receivedMembers es)).map fun m =>
      (.text (Text.joinSurrogates m.1), m.2)))
  | _ => .null

def receivedItems : List Value → List Value
  | [] => []
  | v :: vs => received v :: receivedItems vs

def receivedMembers : List (Value × Value) → List (Text × Value)
  | [] => []
  | (k, v) :: es => (keyText k, received v) :: receivedMembers es

end

/-! ## Members -/

def members (es : List (Value × Value)) : List (Text × Value) :=
  es.map fun e => (keyText e.1, e.2)

theorem printMembers_eq (es : List (Value × Value)) :
    printMembers es = (members es).map fun m => (m.1, print m.2) := by
  induction es with
  | nil => rfl
  | cons e es ih =>
    rw [printMembers, ih]
    rfl

theorem receivedMembers_eq (es : List (Value × Value)) :
    receivedMembers es = (members es).map fun m => (m.1, received m.2) := by
  induction es with
  | nil => rfl
  | cons e es ih =>
    rw [receivedMembers, ih]
    rfl

def memberText (m : Text × Value) : Text := quote m.1 ++ (CodePoint.ofChar ':' :: print m.2)

def memberEntry (m : Text × Value) : Value × Value :=
  (.text (Text.joinSurrogates m.1), received m.2)

theorem print_mapping (es : List (Value × Value)) :
    print (.mapping es) = CodePoint.ofChar '\x7b' ::
      (Text.join "," ((order Prod.fst (members es)).map memberText) ++
        [CodePoint.ofChar '\x7d']) := by
  have h : (order Prod.fst (printMembers es)).map (fun m => quote m.1 ++ ":" ++ m.2) =
      (order Prod.fst (members es)).map memberText := by
    rw [printMembers_eq, order_map, List.map_map]
    refine List.map_congr_left fun m _ => ?_
    simp only [Function.comp_apply, memberText, List.append_assoc]
    rfl
  rw [print, h]
  rfl

theorem received_mapping (es : List (Value × Value)) :
    received (.mapping es) =
      .mapping (Entries.ofPairs ((order Prod.fst (members es)).map memberEntry)) := by
  rw [received, receivedMembers_eq, order_map, List.map_map]
  rfl

/-! ## Reading -/

theorem numberText_cases (x : Binary64) :
    (∃ n : Numeral, n.Valid ∧ n.whole.length ≤ 21 ∧ numberText x = n.text) ∨
    numberText x = "null" := by
  cases hx : x.isFinite with
  | true => exact .inl (numberText_numeral hx)
  | false => exact .inr (by rw [numberText, hx]; rfl)

theorem parses_null : Parses l "null" .null := parses_word (List.mem_cons_self ..)

theorem parses_number (x : Binary64) : Parses l (numberText x) (receivedNumber x) := by
  rcases numberText_cases x with ⟨n, hn, hl, hx⟩ | hx
  · have hparts := number?_text hn ends_nil
    rw [List.append_nil] at hparts
    rw [receivedNumber, hx, hparts]
    exact parses_numeral hn (Nat.le_trans hl (by decide))
  · rw [receivedNumber, hx]
    exact parses_null

theorem parses_quote (t : Text) : ParsesName (quote t) (Text.joinSurrogates t) :=
  ⟨⟨_, rfl⟩, fun i r => readText_quote i t r⟩

theorem parses_member {m : Text × Value} (h : Parses l (print m.2) (received m.2)) :
    ParsesMember l [] (memberText m) (Text.joinSurrogates m.1, received m.2) :=
  .mk (parses_quote m.1) h

theorem parses_members {ms : List (Text × Value)}
    (h : ∀ m ∈ ms, Parses l (print m.2) (received m.2)) :
    List.Forall₂ (ParsesMember l []) (ms.map memberText)
      (ms.map fun m => (Text.joinSurrogates m.1, received m.2)) := by
  induction ms with
  | nil => exact .nil
  | cons m ms ih =>
    exact .cons (parses_member (h m (List.mem_cons_self ..)))
      (ih fun n hn => h n (List.mem_cons_of_mem _ hn))

theorem mem_members {es : List (Value × Value)} {m : Text × Value} (h : m ∈ members es) :
    ∃ e ∈ es, m = (keyText e.1, e.2) := by
  obtain ⟨e, he, rfl⟩ := List.mem_map.mp h
  exact ⟨e, he, rfl⟩

theorem memberLevels_le_members {es : List (Value × Value)} :
    memberLevels es ≤ l ↔ ∀ m ∈ members es, levels m.2 ≤ l := by
  rw [memberLevels_le]
  refine ⟨fun h m hm => ?_, fun h e he => h (keyText e.1, e.2) (List.mem_map_of_mem he)⟩
  obtain ⟨e, he, rfl⟩ := mem_members hm
  exact h e he

mutual

theorem parses_print : (v : Value) → {l : Nat} → levels v ≤ l → Parses l (print v) (received v)
  | .null, _, _ => parses_null
  | .bool true, _, _ => parses_word (List.mem_of_mem_tail (List.mem_cons_self ..))
  | .bool false, _, _ =>
    parses_word (List.mem_of_mem_tail (List.mem_of_mem_tail (List.mem_cons_self ..)))
  | .int n, _, _ => parses_number (Binary64.ofInt n)
  | .float x, _, _ => parses_number x
  | .text t, _, _ => (parses_quote t).parses
  | .list [], _ + 1, _ => parses_nil
  | .list (v :: vs), _ + 1, h =>
    parses_list isBlank_nil isBlank_nil (parses_items (v :: vs) (Nat.le_of_succ_le_succ h)) nofun
  | .mapping es, l + 1, h => by
    have hms := parses_members fun m hm =>
      parses_values es (Nat.le_of_succ_le_succ h) m ((order_perm Prod.fst _).mem_iff.mp hm)
    rw [print_mapping, received_mapping]
    cases ho : order Prod.fst (members es) with
    | nil => exact parses_empty
    | cons m ms =>
      rw [ho] at hms
      have hparses := parses_mapping isBlank_nil isBlank_nil isBlank_nil hms nofun
      rwa [List.map_map] at hparses
  | .bytes _, _, _ | .date _, _, _ | .dateTime _, _, _ | .tuple _, _, _ | .set _, _, _
  | .cycle _, _, _ => parses_null

theorem parses_items : (vs : List Value) → {l : Nat} → itemLevels vs ≤ l →
    List.Forall₂ (Parses l) (printItems vs) (receivedItems vs)
  | [], _, _ => .nil
  | v :: vs, _, h =>
    .cons (parses_print v (Nat.le_trans (Nat.le_max_left ..) h))
      (parses_items vs (Nat.le_trans (Nat.le_max_right ..) h))

theorem parses_values : (es : List (Value × Value)) → {l : Nat} → memberLevels es ≤ l →
    ∀ m ∈ members es, Parses l (print m.2) (received m.2)
  | [], _, _, _, hm => nomatch hm
  | (_, v) :: es, _, h, m, hm => by
    rcases List.mem_cons.mp hm with rfl | hm
    · exact parses_print v (Nat.le_trans (Nat.le_max_left ..) h)
    · exact parses_values es (Nat.le_trans (Nat.le_max_right ..) h) m hm

end

theorem load_line {v : Value} (h : levels v ≤ l) : load l (print v ++ "\n") = .ok (received v) :=
  load_parses (parses_print v h)

end ConfigLoader.Json.Canonical
