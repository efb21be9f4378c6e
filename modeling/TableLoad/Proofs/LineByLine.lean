import TableLoad.Proofs.Outcomes
import TableLoad.Proofs.SourceAgreement
import TableLoad.Proofs.Splitting

namespace TableLoad

/-- Sources that go on in the same way give the same. -/
theorem Source.outcomes_of_next_eq {σ : Type} {source : Source σ} {s s' : σ}
    (h : source.next s = source.next s') : source.outcomes s = source.outcomes s' := by
  cases hnext : source.next s' with
  | mk answer t =>
    match answer with
    | .ok none => rw [outcomes_of_end (h.trans hnext), outcomes_of_end hnext]
    | .ok (some record) => rw [outcomes_of_record (h.trans hnext), outcomes_of_record hnext]
    | .error e =>
      cases hd : e.isDataError with
      | true => rw [outcomes_of_dataError (h.trans hnext) hd, outcomes_of_dataError hnext hd]
      | false => rw [outcomes_of_error (h.trans hnext) hd, outcomes_of_error hnext hd]

namespace Lines

/-- What reading a line gives: nothing when it is blank. -/
def lineOutcomes (number : Nat) (line : List UInt8) : List (Except LoadError Record) :=
  match readLine line with
  | .ok none => []
  | .ok (some r) => [.ok r]
  | .error message => [.error (.decode number message)]

/-- The same outcome, up to the words for octets that are no text. -/
inductive Agree : Except LoadError Record → Except LoadError Record → Prop
  | same (o : Except LoadError Record) : Agree o o
  | notUtf8 (line : Nat) (why why' : String) :
      Agree (.error (.decode line ("invalid UTF-8: " ++ why)))
        (.error (.decode line ("invalid UTF-8: " ++ why')))

/-- The outcome some lines further on. -/
def movedOn (lines : Nat) : Except LoadError Record → Except LoadError Record
  | .error (.decode line message) => .error (.decode (line + lines) message)
  | o => o

variable {line rest text unread : List UInt8}

theorem next_end (n : Nat) : source.next ⟨[], false, n⟩ = (.ok none, ⟨[], false, n⟩) := by
  simp [source, next, nextFrom]

theorem next_of_line {fails : Bool} (hne : unread ≠ []) (hs : splitLine unread = (text, rest))
    (hread : (fails && !unread.contains newline) = false) (n : Nat) :
    next ⟨unread, fails, n⟩ =
      match readLine text with
      | .error message => (.error (.decode (n + 1) message), ⟨rest, fails, n + 1⟩)
      | .ok (some r) => (.ok (some r), ⟨rest, fails, n + 1⟩)
      | .ok none => next ⟨rest, fails, n + 1⟩ := by
  rw [next, nextFrom, dif_neg hne, hread]
  cases hr : readLine text with
  | error message => simp [hs, hr]
  | ok record => cases record <;> simp [hs, hr, next]

theorem outcomes_cons {fails : Bool} (hne : unread ≠ []) (hs : splitLine unread = (text, rest))
    (hread : (fails && !unread.contains newline) = false) (n : Nat) :
    source.outcomes ⟨unread, fails, n⟩ =
      lineOutcomes (n + 1) text ++ source.outcomes ⟨rest, fails, n + 1⟩ := by
  have hnext : source.next ⟨unread, fails, n⟩ = _ := next_of_line hne hs hread n
  rw [lineOutcomes]
  cases hr : readLine text with
  | error message =>
    rw [hr] at hnext
    exact Source.outcomes_of_dataError hnext rfl
  | ok record =>
    rw [hr] at hnext
    cases record with
    | some r => exact Source.outcomes_of_record hnext
    | none => exact Source.outcomes_of_next_eq hnext

/-- A line that nothing follows, with no line feed of its own. -/
theorem outcomes_last (h : newline ∉ line) (n : Nat) :
    source.outcomes ⟨line, false, n⟩ = lineOutcomes (n + 1) line := by
  have hnil (n : Nat) : source.outcomes ⟨[], false, n⟩ = [] :=
    Source.outcomes_of_end (next_end n)
  by_cases hne : line = []
  · subst hne
    rw [hnil]
    rfl
  · rw [outcomes_cons hne (splitLine_last h) rfl, hnil, List.append_nil]

theorem outcomes_line (h : newline ∉ line) (fails : Bool) (rest : List UInt8) (n : Nat) :
    source.outcomes ⟨line ++ newline :: rest, fails, n⟩ =
      lineOutcomes (n + 1) (line ++ [newline]) ++ source.outcomes ⟨rest, fails, n + 1⟩ :=
  outcomes_cons (by simp) (splitLine_newline h) (by simp) n

/-- Octets are a last line, or a line with its feed and then octets. -/
theorem line_induction {motive : List UInt8 → Prop}
    (last : ∀ line, newline ∉ line → motive line)
    (line : ∀ line rest, newline ∉ line → motive rest → motive (line ++ newline :: rest))
    (octets : List UInt8) : motive octets := by
  induction hlen : octets.length using Nat.strong_induction_on generalizing octets with
  | _ n ih =>
    by_cases h : newline ∈ octets
    · obtain ⟨text, rest, rfl, htext⟩ := List.eq_append_cons_of_mem h
      have hlt : rest.length < n := by
        rw [← hlen, List.length_append, List.length_cons]
        omega
      exact line text rest htext (ih rest.length hlt rest rfl)
    · exact last octets h

section Feed

theorem encode_feed : Text.Utf8.encode "\n" = [newline] :=
  Text.Utf8.encode_ofList ['\n']

theorem decode_feed {cs : List Char} (h : Text.Utf8.decode line = .ok cs) :
    Text.Utf8.decode (line ++ [newline]) = .ok (cs ++ ['\n']) := by
  rw [Text.Utf8.decode_eq_ok] at h ⊢
  have hfeed : String.ofList ['\n'] = "\n" := rfl
  rw [String.ofList_append, Text.Utf8.encode_append, ← h, hfeed, encode_feed]

/-- A character whose octets end in a line feed is the line feed. -/
theorem octets_of_feed {c : Char} (h : newline ∈ String.utf8EncodeChar c) :
    String.utf8EncodeChar c = [newline] := by
  by_cases hascii : c.toNat < 0x80
  · rw [Text.Utf8.octets_ascii hascii] at h ⊢
    rw [List.mem_singleton.mp h]
  · exact absurd (Text.Utf8.octets_large (Nat.not_lt.mp hascii) h) (by decide)

/-- A line feed does not make a text of octets that are none. -/
theorem decode_feed_error {f : Text.Utf8.Fault} (h : Text.Utf8.decode line = .error f) :
    ∃ f', Text.Utf8.decode (line ++ [newline]) = .error f' := by
  cases hfeed : Text.Utf8.decode (line ++ [newline]) with
  | error f' => exact ⟨f', rfl⟩
  | ok cs =>
    rw [Text.Utf8.decode_eq_ok, Text.Utf8.encode_ofList] at hfeed
    rcases List.eq_nil_or_concat cs with rfl | ⟨cs, c, rfl⟩
    · simp at hfeed
    · rw [List.concat_eq_append, List.flatMap_append, List.flatMap_singleton] at hfeed
      have hmem : newline ∈ String.utf8EncodeChar c := by
        rcases List.eq_nil_or_concat (String.utf8EncodeChar c) with hnil | ⟨octets, b, hlast⟩
        · exact absurd hnil String.utf8EncodeChar_ne_nil
        · rw [hlast, List.concat_eq_append, ← List.append_assoc] at hfeed
          have hb : [newline] = [b] := (List.append_inj' hfeed rfl).2
          rw [hlast, List.concat_eq_append, ← List.singleton_inj.mp hb]
          exact List.mem_append_right octets (List.mem_singleton_self newline)
      rw [octets_of_feed hmem] at hfeed
      have hline : line = cs.flatMap String.utf8EncodeChar := (List.append_inj' hfeed rfl).1
      rw [← Text.Utf8.encode_ofList, ← Text.Utf8.decode_eq_ok, h] at hline
      cases hline

theorem lineOutcomes_agree (line : List UInt8) (number : Nat) :
    List.Forall₂ Agree (lineOutcomes number (line ++ [newline])) (lineOutcomes number line) := by
  cases h : Text.Utf8.decode line with
  | error f =>
    obtain ⟨f', hfeed⟩ := decode_feed_error h
    simp only [lineOutcomes, readLine, h, hfeed]
    exact .cons (.notUtf8 _ _ _) .nil
  | ok cs =>
    have hsame : readLine (line ++ [newline]) = readLine line := by
      simp only [readLine, h, decode_feed h, trimChars_append (show Text.isBlank '\n' = true from rfl)]
    rw [lineOutcomes, lineOutcomes, hsame]
    exact List.forall₂_same.mpr fun o _ => .same o

end Feed

theorem outcomes_append (a b : List UInt8) (n : Nat) :
    List.Forall₂ Agree (source.outcomes ⟨a ++ newline :: b, false, n⟩)
      (source.outcomes ⟨a, false, n⟩ ++ source.outcomes ⟨b, false, n + (a.count newline + 1)⟩) := by
  induction a using line_induction generalizing n with
  | last line h =>
    rw [outcomes_line h, outcomes_last h, List.count_eq_zero_of_not_mem h]
    exact List.rel_append (lineOutcomes_agree line (n + 1))
      (List.forall₂_same.mpr fun o _ => .same o)
  | line line rest h ih =>
    have hcount : (line ++ newline :: rest).count newline = rest.count newline + 1 := by
      rw [List.count_append, List.count_eq_zero_of_not_mem h, List.count_cons_self, Nat.zero_add]
    rw [List.append_assoc, List.cons_append, outcomes_line h, outcomes_line h, List.append_assoc,
      hcount]
    refine List.rel_append (List.forall₂_same.mpr fun o _ => .same o) ?_
    rw [Nat.add_comm (rest.count newline + 1), ← Nat.add_assoc]
    exact ih (n + 1)

theorem lineOutcomes_movedOn (number k : Nat) (line : List UInt8) :
    lineOutcomes (number + k) line = (lineOutcomes number line).map (movedOn k) := by
  rw [lineOutcomes, lineOutcomes]
  rcases readLine line with message | _ | r <;> rfl

theorem outcomes_movedOn (b : List UInt8) (n k : Nat) :
    source.outcomes ⟨b, false, n + k⟩ = (source.outcomes ⟨b, false, n⟩).map (movedOn k) := by
  induction b using line_induction generalizing n with
  | last line h =>
    rw [outcomes_last h, outcomes_last h, Nat.add_right_comm, lineOutcomes_movedOn]
  | line line rest h ih =>
    rw [outcomes_line h, outcomes_line h, List.map_append, Nat.add_right_comm, ih,
      lineOutcomes_movedOn]

section Single

variable {text : String}

theorem readLine_encode (text : String) :
    readLine (Text.Utf8.encode text) =
      if Text.isAllBlank text = true then .ok none
      else match Json.parse? (Text.trim text) with
        | none => .error "invalid JSON"
        | some (.object ms) => .ok (some (Keyed.ofList ms))
        | some v => .error ("expected an object, got " ++ v.kindWithArticle) := by
  have hblank : Text.isAllBlank text = true ↔ Text.trimChars text.toList = [] :=
    Text.trimChars_eq_nil.symm
  simp only [readLine, Text.Utf8.decode_encode, Text.trim, hblank]
  cases htrim : Text.trimChars text.toList with
  | nil => rfl
  | cons c cs =>
    have hne : c :: cs ≠ [] := List.cons_ne_nil c cs
    simp only [if_neg hne]
    cases Json.parse? (String.ofList (c :: cs)) with
    | none => rfl
    | some v => cases v <;> rfl

theorem lineOutcomes_blank (h : Text.isAllBlank text = true) (number : Nat) :
    lineOutcomes number (Text.Utf8.encode text) = [] := by
  rw [lineOutcomes, readLine_encode, if_pos h]

/-- A text that spells a value is not blank. -/
theorem not_blank_of_parse {v : Json} (h : Json.parse? (Text.trim text) = some v) :
    ¬ Text.isAllBlank text = true := by
  intro hblank
  obtain ⟨w, hread, -⟩ := Option.map_eq_some_iff.mp h
  rw [Text.trim, Text.trimChars_eq_nil.mpr hblank] at hread
  exact Json.readText?_not_blank hread rfl

theorem lineOutcomes_object {ms : List (String × Json)}
    (h : Json.parse? (Text.trim text) = some (.object ms)) (number : Nat) :
    lineOutcomes number (Text.Utf8.encode text) = [.ok (Keyed.ofList ms)] := by
  simp only [lineOutcomes, readLine_encode, if_neg (not_blank_of_parse h), h]

/-- Octets that are neither a blank text nor the text of an object. -/
theorem lineOutcomes_other
    (h : ∀ text, line = Text.Utf8.encode text → Text.isAllBlank text = false ∧
      ∀ ms, Json.parse? (Text.trim text) ≠ some (.object ms)) (number : Nat) :
    ∃ message, lineOutcomes number line = [.error (.decode number message)] := by
  cases hdecode : Text.Utf8.decode line with
  | error f =>
    refine ⟨"invalid UTF-8: " ++ f.message, ?_⟩
    simp only [lineOutcomes, readLine, hdecode]
  | ok cs =>
    have hline := Text.Utf8.decode_eq_ok.mp hdecode
    obtain ⟨hblank, hobject⟩ := h _ hline
    rw [lineOutcomes, hline, readLine_encode, hblank]
    cases hparse : Json.parse? (Text.trim (String.ofList cs)) with
    | none => exact ⟨_, rfl⟩
    | some v =>
      cases v with
      | object ms => exact absurd hparse (hobject ms)
      | null | bool _ | number _ | string _ | array _ => exact ⟨_, rfl⟩

end Single

section Drained

/-- The k-th call gives the k-th outcome, and a call behind the last one gives the end. -/
def Gives (s : Lines) (outcomes : List (Except LoadError Record)) : Prop :=
  ∀ k, source.answer s k = (outcomes[k]?).elim (.ok none) (Except.map some)

theorem gives_end (n : Nat) : Gives ⟨[], false, n⟩ [] := fun k =>
  ((Source.tellsAll_nil (next_end n) rfl).ends k (Nat.zero_le k)).1

theorem Gives.cons {s s' : Lines} {o : Except LoadError Record}
    {outcomes : List (Except LoadError Record)} (h : Gives s' outcomes)
    (hnext : source.next s = (o.map some, s')) : Gives s (o :: outcomes) := by
  intro k
  cases k with
  | zero => rw [Source.answer, Source.after, hnext, List.getElem?_cons_zero, Option.elim_some]
  | succ k =>
    rw [Source.answer, Source.after, hnext, List.getElem?_cons_succ]
    exact h k

theorem Gives.of_next_eq {s s' : Lines} {outcomes : List (Except LoadError Record)}
    (h : Gives s' outcomes) (hnext : source.next s = source.next s') : Gives s outcomes := by
  intro k
  rw [← h k]
  cases k <;> simp only [Source.answer, Source.after, hnext]

theorem Gives.of_line {outcomes : List (Except LoadError Record)} {n : Nat}
    (h : Gives ⟨rest, false, n + 1⟩ outcomes) (hne : unread ≠ [])
    (hs : splitLine unread = (text, rest)) :
    Gives ⟨unread, false, n⟩ (lineOutcomes (n + 1) text ++ outcomes) := by
  have hnext : source.next ⟨unread, false, n⟩ = _ := next_of_line hne hs rfl n
  rw [lineOutcomes]
  cases hr : readLine text with
  | error message =>
    rw [hr] at hnext
    exact h.cons hnext
  | ok record =>
    rw [hr] at hnext
    cases record with
    | some r => exact h.cons hnext
    | none => exact h.of_next_eq hnext

theorem gives_outcomes (octets : List UInt8) (n : Nat) :
    Gives ⟨octets, false, n⟩ (source.outcomes ⟨octets, false, n⟩) := by
  induction octets using line_induction generalizing n with
  | last line h =>
    by_cases hne : line = []
    · rw [hne, outcomes_last (List.not_mem_nil)]
      exact gives_end n
    · rw [outcomes_last h, ← List.append_nil (lineOutcomes (n + 1) line)]
      exact (gives_end (n + 1)).of_line hne (splitLine_last h)
  | line line rest h ih =>
    rw [outcomes_line h]
    exact (ih (n + 1)).of_line (by simp) (splitLine_newline h)

end Drained

/-- Octets `a`, a line feed and octets `b` give the outcomes of `a` and then those of `b`, the
lines counted on, up to the words for octets that are no text; a line without its feed gives
nothing when it is a blank text, its object when it spells one, and else one error on line 1; the
calls give the outcomes in turn and then the end, however often they are repeated. -/
theorem outcomes_line_by_line :
    (∀ a b : List UInt8, List.Forall₂ Agree (source.outcomes ⟨a ++ newline :: b, false, 0⟩)
      (source.outcomes ⟨a, false, 0⟩ ++
        (source.outcomes ⟨b, false, 0⟩).map (movedOn (a.count newline + 1)))) ∧
    (∀ line, newline ∉ line →
      (∀ text, line = Text.Utf8.encode text → Text.isAllBlank text = true →
        source.outcomes ⟨line, false, 0⟩ = []) ∧
      (∀ text ms, line = Text.Utf8.encode text →
        Json.parse? (Text.trim text) = some (.object ms) →
        source.outcomes ⟨line, false, 0⟩ = [.ok (Keyed.ofList ms)]) ∧
      ((∀ text, line = Text.Utf8.encode text → Text.isAllBlank text = false ∧
          ∀ ms, Json.parse? (Text.trim text) ≠ some (.object ms)) →
        ∃ message, source.outcomes ⟨line, false, 0⟩ = [.error (.decode 1 message)])) ∧
    ∀ octets k, source.answer ⟨octets, false, 0⟩ k =
      ((source.outcomes ⟨octets, false, 0⟩)[k]?).elim (.ok none) (Except.map some) := by
  refine ⟨fun a b => ?_, fun line hline => ?_, fun octets => gives_outcomes octets 0⟩
  · have happend := outcomes_append a b 0
    rwa [outcomes_movedOn] at happend
  · rw [outcomes_last hline]
    refine ⟨?_, ?_, fun hother => lineOutcomes_other hother 1⟩
    · rintro text rfl hblank
      exact lineOutcomes_blank hblank 1
    · rintro text ms rfl hobject
      exact lineOutcomes_object hobject 1

end Lines

end TableLoad
