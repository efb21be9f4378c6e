import TableLoad.Proofs.Asking
import TableLoad.Proofs.NestedJson
import TableLoad.Proofs.TrimmedJson

namespace TableLoad

section Calls

variable {σ : Type} (source : Source σ)

/-- The state after a number of calls. -/
def Source.after (s : σ) : Nat → σ
  | 0 => s
  | k + 1 => Source.after (source.next s).2 k

/-- The answer to the call that follows a number of others. -/
def Source.answer (s : σ) (k : Nat) : Source.Answer :=
  (source.next (source.after s k)).1

/-- The answer is the object that the text spells, or tells the place of a text that spells none. -/
def Source.Answer.Tells (answer : Source.Answer) (place : Nat) (text : String) : Prop :=
  match Json.parse? text with
  | some (.object ms) => answer = .ok (some (Keyed.ofList ms))
  | _ => ∃ message, answer = .error (.decode place message)

/-- From a state with `given` texts behind it the source tells of the texts in turn, and then
ends for good. -/
structure Source.TellsAll (given : Nat) (texts : List String) (s : σ) : Prop where
  answers : ∀ k (h : k < texts.length), (source.answer s k).Tells (given + k + 1) texts[k]
  ends : ∀ k, texts.length ≤ k → source.answer s k = .ok none ∧
    source.position (source.after s k) = given + texts.length

variable {source} {given : Nat} {text : String} {texts : List String} {s s' : σ}

theorem Source.tellsAll_nil (hnext : source.next s = (.ok none, s))
    (hposition : source.position s = given) : source.TellsAll given [] s := by
  have hafter (k : Nat) : source.after s k = s := by
    induction k with
    | zero => rfl
    | succ k ih => rw [Source.after, hnext, ih]
  refine ⟨fun k hk => absurd hk (Nat.not_lt_zero k), fun k _ => ?_⟩
  rw [Source.answer, hafter, hnext]
  exact ⟨rfl, hposition⟩

theorem Source.tellsAll_cons {answer : Source.Answer} (hnext : source.next s = (answer, s'))
    (hanswer : answer.Tells (given + 1) text) (hrest : source.TellsAll (given + 1) texts s') :
    source.TellsAll given (text :: texts) s := by
  have hafter (k : Nat) : source.after s (k + 1) = source.after s' k := by
    rw [Source.after, hnext]
  have hlater (k : Nat) : source.answer s (k + 1) = source.answer s' k := by
    rw [Source.answer, hafter, Source.answer]
  refine ⟨fun k hk => ?_, fun k hk => ?_⟩
  · cases k with
    | zero => rwa [Source.answer, Source.after, hnext]
    | succ k =>
      have htells := hrest.answers k (Nat.lt_of_succ_lt_succ hk)
      rwa [Nat.add_right_comm given 1 k, ← hlater] at htells
  · cases k with
    | zero => simp at hk
    | succ k =>
      have hends := hrest.ends k (Nat.le_of_succ_le_succ hk)
      rwa [← hafter, ← hlater, Nat.add_assoc, Nat.add_comm 1] at hends

theorem Source.TellsAll.of_next_eq (h : source.TellsAll given texts s')
    (hnext : source.next s = source.next s') (hposition : source.position s = source.position s') :
    source.TellsAll given texts s := by
  have hanswer (k : Nat) : source.answer s k = source.answer s' k := by
    cases k <;> simp only [Source.answer, Source.after, hnext]
  have hplace (k : Nat) :
      source.position (source.after s k) = source.position (source.after s' k) := by
    cases k with
    | zero => exact hposition
    | succ k => rw [Source.after, Source.after, hnext]
  refine ⟨fun k hk => ?_, fun k hk => ?_⟩
  · rw [hanswer]
    exact h.answers k hk
  · rw [hanswer, hplace]
    exact h.ends k hk

end Calls

namespace Lines

/-- The texts one a line; the last line may go without its line feed. -/
def written (lastFeed : Bool) (texts : List String) : String :=
  if lastFeed then String.join (texts.map (· ++ "\n")) else "\n".intercalate texts

section Written

variable {text : String} {texts : List String} {v : Json} {feed : String} {line rest : List UInt8}

theorem written_cons (lastFeed : Bool) (text : String) (texts : List String) :
    ∃ feed, (feed = "\n" ∨ feed = "" ∧ written lastFeed texts = "") ∧
      written lastFeed (text :: texts) = text ++ feed ++ written lastFeed texts := by
  cases lastFeed with
  | true => exact ⟨"\n", .inl rfl, by simp [written]⟩
  | false =>
    cases texts with
    | nil => exact ⟨"", .inr ⟨rfl, rfl⟩, by simp [written]⟩
    | cons next texts => exact ⟨"\n", .inl rfl, String.intercalate_cons_cons⟩

theorem newline_not_mem (h : '\n' ∉ text.toList) : newline ∉ Text.Utf8.encode text := by
  rw [Text.Utf8.encode_eq, List.mem_flatMap]
  rintro ⟨c, hc, hnewline⟩
  by_cases hascii : c.toNat < 0x80
  · rw [Text.Utf8.octets_ascii hascii, List.mem_singleton] at hnewline
    have htoNat : 0x0A = c.toNat := by
      rw [← Text.Utf8.toNat_octet (Nat.lt_trans hascii (by decide)), ← hnewline]
      rfl
    have hchar : c = '\n' := Char.toNat_inj.mp htoNat.symm
    exact h (hchar ▸ hc)
  · exact absurd (Text.Utf8.octets_large (Nat.not_lt.mp hascii) hnewline) (by decide)

theorem splitLine_newline (h : newline ∉ line) :
    splitLine (line ++ newline :: rest) = (line ++ [newline], rest) := by
  induction line with
  | nil => simp [splitLine]
  | cons b line ih =>
    rw [List.mem_cons, not_or] at h
    rw [List.cons_append, splitLine, if_neg (Ne.symm h.1), ih h.2]
    rfl

theorem splitLine_last (h : newline ∉ line) : splitLine line = (line, []) := by
  induction line with
  | nil => rfl
  | cons b line ih =>
    rw [List.mem_cons, not_or] at h
    rw [splitLine, if_neg (Ne.symm h.1), ih h.2]

theorem splitLine_written (htext : '\n' ∉ text.toList) (hfeed : feed = "\n" ∨ feed = "" ∧ rest = []) :
    splitLine (Text.Utf8.encode (text ++ feed) ++ rest) = (Text.Utf8.encode (text ++ feed), rest) := by
  have hline := newline_not_mem htext
  rcases hfeed with rfl | ⟨rfl, rfl⟩
  · have hencode : Text.Utf8.encode "\n" = [newline] := Text.Utf8.encode_ofList ['\n']
    rw [Text.Utf8.encode_append, hencode, List.append_assoc]
    exact splitLine_newline hline
  · rw [String.append_empty, List.append_nil]
    exact splitLine_last hline

theorem trimChars_append {c : Char} (h : Text.isBlank c = true) (cs : List Char) :
    Text.trimChars (cs ++ [c]) = Text.trimChars cs := by
  simp only [Text.trimChars, Text.trimStartChars, Text.trimEndChars, List.dropWhile_append]
  split
  · rename_i hempty
    rw [List.isEmpty_iff] at hempty
    simp [hempty, h]
  · simp [h]

/-- A line that holds a value is read to that value, whatever blanks stand around it. -/
theorem readLine_written (h : Json.readText? text = some v) (hfeed : feed = "\n" ∨ feed = "") :
    readLine (Text.Utf8.encode (text ++ feed)) =
      match v.settled with
      | .object ms => .ok (some (Keyed.ofList ms))
      | w => .error ("expected an object, got " ++ w.kindWithArticle) := by
  have htrim : Text.trimChars (text ++ feed).toList = Text.trimChars text.toList := by
    rcases hfeed with rfl | rfl
    · rw [String.toList_append]
      exact trimChars_append (by decide) _
    · rw [String.append_empty]
  have hparse : Json.parse? (String.ofList (Text.trimChars text.toList)) = some v.settled :=
    Json.parse?_of_readText? (Json.readText?_trim h)
  obtain ⟨c, cs, hchars⟩ := List.exists_cons_of_ne_nil (Json.readText?_not_blank h)
  rw [hchars] at htrim hparse
  simp only [readLine, Text.Utf8.decode_encode, htrim, hparse]
  cases v.settled <;> rfl

theorem next_written {n : Nat} (h : Json.readText? text = some v) (htext : '\n' ∉ text.toList)
    (hfeed : feed = "\n" ∨ feed = "" ∧ rest = []) :
    ∃ answer : Source.Answer, answer.Tells (n + 1) text ∧
      Lines.next ⟨Text.Utf8.encode (text ++ feed) ++ rest, false, n⟩ =
        (answer, ⟨rest, false, n + 1⟩) := by
  have hne : Text.Utf8.encode (text ++ feed) ++ rest ≠ [] := by
    intro hnil
    rw [Text.Utf8.encode_append, List.append_assoc] at hnil
    rw [Json.readText?_eq_some, (List.append_eq_nil_iff.mp hnil).1] at h
    cases h
  have hread := readLine_written h (hfeed.imp id And.left)
  have hparse := Json.parse?_of_readText? h
  rw [Lines.next, nextFrom, dif_neg hne, splitLine_written htext hfeed]
  simp only [Bool.false_and, Bool.false_eq_true, if_false, hread, Source.Answer.Tells, hparse]
  cases v.settled with
  | object ms => exact ⟨_, rfl, rfl⟩
  | null | bool | number | string | array => exact ⟨_, ⟨_, rfl⟩, rfl⟩

end Written

theorem tellsAll_written (lastFeed : Bool) {texts : List String}
    (h : ∀ text ∈ texts, (∃ v, Json.readText? text = some v) ∧ '\n' ∉ text.toList) (n : Nat) :
    source.TellsAll n texts ⟨Text.Utf8.encode (written lastFeed texts), false, n⟩ := by
  induction texts generalizing n with
  | nil =>
    have hwritten : Text.Utf8.encode (written lastFeed []) = [] := by
      cases lastFeed <;> exact Text.Utf8.encode_empty
    rw [hwritten]
    exact Source.tellsAll_nil (by simp [source, Lines.next, nextFrom]) rfl
  | cons text texts ih =>
    obtain ⟨⟨⟨v, hv⟩, htext⟩, htexts⟩ := List.forall_mem_cons.mp h
    obtain ⟨feed, hfeed, hwritten⟩ := written_cons lastFeed text texts
    have hrest : feed = "\n" ∨ feed = "" ∧ Text.Utf8.encode (written lastFeed texts) = [] :=
      hfeed.imp id (And.imp id fun hempty => by rw [hempty, Text.Utf8.encode_empty])
    obtain ⟨answer, hanswer, hnext⟩ := next_written (n := n) hv htext hrest
    rw [hwritten, Text.Utf8.encode_append]
    exact Source.tellsAll_cons hnext hanswer (ih htexts (n + 1))

end Lines

namespace Elements

variable {texts : List String} {vs : List Json}

theorem tellsAll_queued (h : List.Forall₂ (fun text v => Json.readText? text = some v) texts vs)
    (n : Nat) : source.TellsAll n texts (.queued (Json.settledElements vs) n) := by
  induction h generalizing n with
  | nil => exact Source.tellsAll_nil rfl rfl
  | @cons text v texts vs hv hrest ih =>
    have hparse := Json.parse?_of_readText? hv
    have hnext : ∃ answer : Source.Answer, answer.Tells (n + 1) text ∧
        next (.queued (v.settled :: Json.settledElements vs) n) =
          (answer, .queued (Json.settledElements vs) (n + 1)) := by
      simp only [Source.Answer.Tells, hparse, next, give]
      cases v.settled with
      | object ms => exact ⟨_, rfl, rfl⟩
      | null | bool | number | string | array => exact ⟨_, ⟨_, rfl⟩, rfl⟩
    obtain ⟨answer, hanswer, hnext⟩ := hnext
    exact Source.tellsAll_cons hnext hanswer (ih (n + 1))

def document (texts : List String) : String :=
  "[" ++ ",".intercalate texts ++ "]"

theorem load_document
    (h : List.Forall₂ (fun text v => Json.readText? text = some v ∧ v.depth ≤ 126) texts vs) :
    load (Text.Utf8.encode (document texts)) false = .ok (Json.settledElements vs) := by
  have hread := Json.readText?_eq_some.mp (Json.readText?_array h)
  rw [load, document, hread]
  rfl

theorem exists_values
    (h : ∀ text ∈ texts, ∃ v, Json.readText? text = some v ∧ v.depth ≤ 126) :
    ∃ vs, List.Forall₂ (fun text v => Json.readText? text = some v ∧ v.depth ≤ 126) texts vs := by
  induction texts with
  | nil => exact ⟨[], .nil⟩
  | cons text texts ih =>
    obtain ⟨⟨v, hv⟩, htexts⟩ := List.forall_mem_cons.mp h
    obtain ⟨vs, hvs⟩ := ih htexts
    exact ⟨v :: vs, .cons hv hvs⟩

theorem tellsAll_document
    (h : ∀ text ∈ texts, ∃ v, Json.readText? text = some v ∧ v.depth ≤ 126) :
    source.TellsAll 0 texts (.unread (Text.Utf8.encode (document texts)) false) := by
  obtain ⟨vs, hvs⟩ := exists_values h
  have hqueued := tellsAll_queued (hvs.imp fun text v hv => hv.1) 0
  -- The first call reads the document and gives what the queue would have given.
  have hnext : next (.unread (Text.Utf8.encode (document texts)) false) =
      next (.queued (Json.settledElements vs) 0) := by
    simp only [next, load_document hvs]
  exact hqueued.of_next_eq hnext rfl

end Elements

/-- Texts of JSON values, written one a line or as the elements of one document, are one input:
the answers to each call agree, up to the words of an error, and tell of the text in the call's
place; after the last text both sources end, in its place, however often they are called. -/
theorem lines_agree_with_document (texts : List String)
    (hread : ∀ text ∈ texts, ∃ v, Json.readText? text = some v ∧ v.depth ≤ 126)
    (hline : ∀ text ∈ texts, '\n' ∉ text.toList) (lastFeed : Bool) :
    let lines : Lines := ⟨Text.Utf8.encode (Lines.written lastFeed texts), false, 0⟩
    let elements : Elements := .unread (Text.Utf8.encode (Elements.document texts)) false
    (∀ k (h : k < texts.length), match Json.parse? texts[k] with
      | some (.object ms) => Lines.source.answer lines k = .ok (some (Keyed.ofList ms)) ∧
          Elements.source.answer elements k = .ok (some (Keyed.ofList ms))
      | _ => (∃ message, Lines.source.answer lines k = .error (.decode (k + 1) message)) ∧
          ∃ message, Elements.source.answer elements k = .error (.decode (k + 1) message)) ∧
    ∀ k, texts.length ≤ k →
      (Lines.source.answer lines k = .ok none ∧ Elements.source.answer elements k = .ok none) ∧
      Lines.source.position (Lines.source.after lines k) = texts.length ∧
      Elements.source.position (Elements.source.after elements k) = texts.length := by
  intro lines elements
  have hlines : Lines.source.TellsAll 0 texts lines :=
    Lines.tellsAll_written lastFeed
      (fun text htext => ⟨(hread text htext).imp fun _ hv => hv.1, hline text htext⟩) 0
  have helements : Elements.source.TellsAll 0 texts elements := Elements.tellsAll_document hread
  refine ⟨fun k hk => ?_, fun k hk => ?_⟩
  · have hl := hlines.answers k hk
    have he := helements.answers k hk
    simp only [Source.Answer.Tells, Nat.zero_add] at hl he
    match hparse : Json.parse? texts[k] with
    | some (.object ms) =>
      rw [hparse] at hl he
      exact ⟨hl, he⟩
    | none | some .null | some (.bool _) | some (.number _) | some (.string _) | some (.array _) =>
      rw [hparse] at hl he
      exact ⟨hl, he⟩
  · have hl := hlines.ends k hk
    have he := helements.ends k hk
    rw [Nat.zero_add] at hl he
    exact ⟨⟨hl.1, he.1⟩, hl.2, he.2⟩

def threeEntries : List String :=
  [" \x7b\"id\": 1\x7d\t", "[null, [2]]", "\x7b\x7d"]

theorem threeEntries_agree :
    let lines : Lines := ⟨Text.Utf8.encode (Lines.written false threeEntries), false, 0⟩
    let elements : Elements := .unread (Text.Utf8.encode (Elements.document threeEntries)) false
    (∃ r, r.find? "id" = some (.number (.int 1)) ∧ Lines.source.answer lines 0 = .ok (some r) ∧
      Elements.source.answer elements 0 = .ok (some r)) ∧
    ((∃ message, Lines.source.answer lines 1 = .error (.decode 2 message)) ∧
      ∃ message, Elements.source.answer elements 1 = .error (.decode 2 message)) ∧
    Lines.source.position (Lines.source.after lines 3) = 3 ∧
      Elements.source.position (Elements.source.after elements 3) = 3 := by
  have hfirst : Json.readText? " \x7b\"id\": 1\x7d\t" =
      some (.object [("id", .number (.int 1))]) := by
    rw [Json.readText?_eq_some, Text.Utf8.encode_eq]
    rfl
  have hsecond : Json.readText? "[null, [2]]" =
      some (.array [.null, .array [.number (.int 2)]]) := by
    rw [Json.readText?_eq_some, Text.Utf8.encode_eq]
    rfl
  have hthird : Json.readText? "\x7b\x7d" = some (.object []) := by
    rw [Json.readText?_eq_some, Text.Utf8.encode_eq]
    rfl
  have hread : ∀ text ∈ threeEntries, ∃ v, Json.readText? text = some v ∧ v.depth ≤ 126 := by
    simp only [threeEntries, List.forall_mem_cons, List.not_mem_nil, false_imp_iff, imp_true_iff,
      and_true]
    exact ⟨⟨_, hfirst, by decide⟩, ⟨_, hsecond, by decide⟩, ⟨_, hthird, by decide⟩⟩
  obtain ⟨hentries, hend⟩ :=
    lines_agree_with_document threeEntries hread (by decide) false
  have hzero := hentries 0 (by decide)
  have hone := hentries 1 (by decide)
  rw [show Json.parse? threeEntries[0] = _ from Json.parse?_of_readText? hfirst] at hzero
  rw [show Json.parse? threeEntries[1] = _ from Json.parse?_of_readText? hsecond] at hone
  exact ⟨⟨_, rfl, hzero⟩, hone, (hend 3 (by decide)).2⟩

end TableLoad
