import ConfigLoader.Proofs.Callers.Order
import ConfigLoader.Proofs.Json.Canonical
import Mathlib.Data.List.Forall2

/-! # A process that answers

A process that answers each request with a line that carries its number, whatever the number is.
-/
namespace ConfigLoader.Callers
open Child (Handle Action)
open Compiler (requestId?)
open Json Json.Canonical
open Matching (Carries)

/-! ## Lines -/

def answerLine (id : Nat) : Text :=
  "\x7b\"id\":" ++ (Text.ofNat id ++ ",\"status\":\"ok\",\"value\":null\x7d\n")

def answer (id : Nat) : Value := .mapping [("id", .int id), ("status", "ok"), ("value", .null)]

theorem parses_ofNat {levels id : Nat} (hid : (Text.ofNat id).length ≤ digitLimit) :
    Parses levels (Text.ofNat id) (.int id) := by
  have hparses : Parses levels _ _ := parses_numeral (Numeral.plain_valid false id) hid
  have hwhole : (Numeral.plain false id).parts.isWhole = true := rfl
  rwa [hwhole, if_pos rfl, Numeral.plain_int, Numeral.plain_text] at hparses

theorem load_answerLine {levels id : Nat} (hid : (Text.ofNat id).length ≤ digitLimit) :
    load (levels + 1) (answerLine id) = .ok (answer id) := by
  have hmembers : List.Forall₂ (ParsesMember levels [])
      [quote "id" ++ CodePoint.ofChar ':' :: ([] ++ Text.ofNat id), memberText ("status", "ok"),
        memberText ("value", .null)]
      [("id", .int id), ("status", "ok"), ("value", .null)] :=
    .cons (.mk (parses_quote "id") (parses_ofNat hid))
      (.cons (parses_member (parses_print "ok" (Nat.zero_le _))) (.cons (parses_member parses_null) .nil))
  have hrest : Text.ofString ",\"status\":\"ok\",\"value\":null\x7d\n" =
      CodePoint.ofChar ',' :: (memberText ("status", "ok") ++ (CodePoint.ofChar ',' ::
        (memberText ("value", .null) ++ CodePoint.ofChar '\x7d' :: Text.ofString "\n"))) := by cbv
  have hline := load_parses (parses_mapping isBlank_nil isBlank_nil isBlank_nil hmembers
    (List.cons_ne_nil _ _))
  refine Eq.trans (congrArg (load (levels + 1)) ?_) hline
  rw [answerLine, hrest]
  simp only [join_cons, join_singleton, List.nil_append, List.append_assoc, List.cons_append]
  rfl

theorem answer_carries (id : Nat) : Carries id (answer id) := ⟨_, rfl, rfl⟩

/-! ## The process -/

/-- A process that answers. A world is the numbers of the requests without an answer. -/
def answering : ChildOps (List Nat) where
  limits := .usual
  start _ ids := (.ok 0, ids)
  act _ action ids :=
    match action, ids with
    | .write text, ids => (.ok [], ids ++ (requestId? text).toList)
    | .readLine, id :: ids => (.ok (answerLine id), ids)
    | _, ids => (.ok [], ids)
  hasInput _ _ := true
  hasOutput _ _ := true
  isRunning _ _ := true
  exitCode _ _ := none
  number _ _ := 1

theorem IsRequest.digits {id : Nat} {text : Text} (ht : IsRequest .usual id text) :
    (Text.ofNat id).length ≤ digitLimit := by
  obtain ⟨p, src, hf⟩ := ht
  unfold Compiler.frame Compiler.request Json.dump at hf
  simp only [Json.print, Json.printMembers] at hf
  by_cases hid : digitLimit < (Text.ofNat id).length
  · have hint : Json.intText (id : Int) = .error _ := if_pos (decide_eq_true hid)
    rw [hint] at hf
    cases hf
  · exact Nat.not_lt.mp hid

theorem answering_prompt (h : Handle) :
    Prompt answering h (fun ts ids => List.Forall₂ (fun t id => IsRequest .usual id t) ts ids) where
  input _ _ _ := rfl
  output _ _ _ := rfl
  write id t ts ids ht hP := by
    obtain ⟨p, src, hf⟩ := ht
    refine ⟨[], ids ++ [id], ?_, List.rel_append hP (.cons ⟨p, src, hf⟩ .nil)⟩
    simp only [answering, Compiler.requestId?_frame hf, Option.toList_some]
  flush _ ids hP := ⟨[], ids, rfl, hP⟩
  read id t ts ids ht hP := by
    cases hP with
    | @cons _ id' _ ids ht' hP =>
      obtain ⟨p, src, hf⟩ := ht
      obtain ⟨p', src', hf'⟩ := ht'
      obtain rfl : id = id' := Option.some.inj
        ((Compiler.requestId?_frame hf).symm.trans (Compiler.requestId?_frame hf'))
      refine ⟨answerLine id, answer id, ids, rfl, ?_, load_answerLine (IsRequest.digits ⟨p, src, hf⟩),
        answer_carries id, hP⟩
      exact List.cons_ne_nil _ _

end ConfigLoader.Callers
