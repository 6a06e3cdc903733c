import ConfigLoader.Compiler
import ConfigLoader.Proofs.Json.Lines
import ConfigLoader.Proofs.Text.Digits

/-! # The frames of requests

A frame is one line. That of a request begins with the number of the request, from which the number
can be read.
-/
namespace ConfigLoader.Compiler
variable {limits : Limits}

theorem intText_nat {n : Nat} {t : Text} (h : Json.intText n = .ok t) : t = Text.ofNat n := by
  unfold Json.intText at h
  split at h
  · cases h
  · exact (Except.ok.inj h).symm

/-- There is room for the parts of a request, and for the options in a handshake. -/
theorem levels_frameLayout :
    0 < (Json.frameLayout limits).levels ∧ 1 < (Json.frameLayout limits).levels := by
  have hwriting : 2 ≤ limits.writing := limits.enough.1
  exact ⟨Nat.lt_of_lt_of_le Nat.zero_lt_two hwriting, hwriting⟩

/-- A frame of a request is made of the digits of its number and the forms of its parts. -/
theorem frame_request {id : Nat} {p src : Value} {text : Text}
    (hf : frame limits (request id p src) = .ok text) :
    ∃ tp ts, Json.print (Json.frameLayout limits) 1 p = .ok tp ∧
      Json.print (Json.frameLayout limits) 1 src = .ok ts ∧
      text = "\x7b\"id\": " ++ (Text.ofNat id ++
        (", \"path\": " ++ (tp ++ (", \"source\": " ++ (ts ++ "\x7d\n"))))) := by
  unfold frame request Json.dump at hf
  simp only [Json.print, Json.printMembers, Nat.zero_add,
    Json.within_of_lt levels_frameLayout.1] at hf
  cases hn : Json.intText id with
  | error f => rw [hn] at hf; cases hf
  | ok n =>
    cases hp : Json.print (Json.frameLayout limits) 1 p with
    | error f => rw [hn, hp] at hf; cases hf
    | ok tp =>
      cases hs : Json.print (Json.frameLayout limits) 1 src with
      | error f => rw [hn, hp, hs] at hf; cases hf
      | ok ts =>
        rw [hn, hp, hs] at hf
        have hid : Json.quote true "id" = "\"id\"" := by decide
        have hpath : Json.quote true "path" = "\"path\"" := by decide
        have hsource : Json.quote true "source" = "\"source\"" := by decide
        have ht := Except.ok.inj hf
        simp only [Json.bracket, Text.join, Json.newline, Json.frameLayout, hid, hpath, hsource,
          List.intersperse, List.flatten_cons, List.flatten_nil, List.append_nil, List.nil_append,
          List.append_assoc, List.cons_append] at ht
        refine ⟨tp, ts, rfl, rfl, ?_⟩
        rw [← ht, intText_nat hn]
        rfl

def requestId? (text : Text) : Option Nat :=
  (Text.afterStart? "\x7b\"id\": " text).bind fun t =>
    Text.digits? 10 (t.takeWhile CodePoint.isDigit)

theorem requestId?_frame {id : Nat} {p src : Value} {text : Text}
    (hf : frame limits (request id p src) = .ok text) : requestId? text = some id := by
  obtain ⟨tp, ts, -, -, rfl⟩ := frame_request hf
  have hs : ∀ r : Text, Text.afterStart? "\x7b\"id\": " ("\x7b\"id\": " ++ r) = some r := fun _ => rfl
  rw [requestId?, hs]
  have hc : ∀ r : Text, (", \"path\": " : Text) ++ r = 44 :: ((" \"path\": " : Text) ++ r) :=
    fun _ => rfl
  rw [Option.bind_some, hc, Text.takeWhile_ofNat id (by decide), Text.digits?_ofNat]

theorem requestId?_handshake {site : Site} {s : Settings} {text : Text}
    (hf : frame limits (handshake site s) = .ok text) : requestId? text = none := by
  unfold frame handshake Json.dump at hf
  simp only [Json.print, Json.printMembers, Nat.zero_add, Json.within_of_lt levels_frameLayout.1,
    Json.within_of_lt levels_frameLayout.2] at hf
  cases ho : Json.printMembers (Json.frameLayout limits) 2 s.compilerOptions with
  | error f => rw [ho] at hf; cases hf
  | ok ts =>
    rw [ho] at hf
    have ht := Except.ok.inj hf
    rw [← ht]
    rfl

theorem frame_line {m : Value} {text : Text} (hf : frame limits m = .ok text) :
    ∃ line, text = line ++ [10] ∧ Json.OneLine line := by
  unfold frame Json.dump at hf
  cases hm : Json.print (Json.frameLayout limits) 0 m with
  | error f =>
    rw [hm] at hf
    cases hf
  | ok line =>
    rw [hm] at hf
    exact ⟨line, (Except.ok.inj hf).symm, Json.print_oneLine 0 m hm⟩

def requestLine (id : Nat) (path source : Text) : Text :=
  "\x7b\"id\": " ++ (Text.ofNat id ++ (", \"path\": " ++ (Json.quote true path ++
    (", \"source\": " ++ (Json.quote true source ++ "\x7d")))))

theorem frame_texts (limits : Limits) (id : Nat) (path source : Text) :
    (∃ f, Json.intText id = .error f ∧
      frame limits (request id (.text path) (.text source)) = .error f) ∨
    (∃ n, Json.intText id = .ok n) ∧ Json.OneLine (requestLine id path source) ∧
      frame limits (request id (.text path) (.text source)) =
        .ok (requestLine id path source ++ [10]) := by
  cases hn : Json.intText id with
  | error f =>
    refine .inl ⟨f, rfl, ?_⟩
    simp only [frame, request, Json.dump, Json.print, Json.printMembers, hn,
      Json.within_of_lt levels_frameLayout.1]
    rfl
  | ok n =>
    have hframe : ∃ text, frame limits (request id (.text path) (.text source)) = .ok text := by
      simp only [frame, request, Json.dump, Json.print, Json.printMembers, hn,
      Json.within_of_lt levels_frameLayout.1]
      exact ⟨_, rfl⟩
    obtain ⟨text, hf⟩ := hframe
    obtain ⟨tp, ts, hp, hs, ht⟩ := frame_request hf
    cases hp
    cases hs
    have hline : text = requestLine id path source ++ [10] := by
      simp only [ht, requestLine, List.append_assoc]
      rfl
    obtain ⟨line, hl, ho⟩ := frame_line hf
    rw [hline] at hl
    rw [hf, hline]
    exact .inr ⟨⟨n, rfl⟩, (List.append_cancel_right hl) ▸ ho, rfl⟩

end ConfigLoader.Compiler
