import TableLoad.Proofs.ElementCount
import TableLoad.Proofs.ReadFailure

namespace TableLoad

section Limited

variable {σ : Type} {source : Source σ} {s s' : σ}

/-- The source when it can be asked a number of times only and fails from then on. Its size is the
number of calls that are left, so how far the source itself is from its end does not matter. -/
def Source.limited (source : Source σ) : Source (σ × Nat) where
  next
    | (s, 0) => (.error (.other "asked too often"), s, 0)
    | (s, calls + 1) => ((source.next s).1, (source.next s).2, calls)
  position p := source.position p.1
  size p := p.2
  size_lt_of_record {p p' record} h := by
    obtain ⟨s, calls⟩ := p
    cases calls with
    | zero => cases h
    | succ calls =>
      have hcalls : calls = p'.2 := congrArg (fun r => r.2.2) h
      exact hcalls ▸ Nat.lt_succ_self calls
  size_lt_of_dataError {p p' e} h hd := by
    obtain ⟨s, calls⟩ := p
    cases calls with
    | zero =>
      cases h
      cases hd
    | succ calls =>
      have hcalls : calls = p'.2 := congrArg (fun r => r.2.2) h
      exact hcalls ▸ Nat.lt_succ_self calls

theorem Source.limited_next {answer : Source.Answer} (h : source.next s = (answer, s'))
    (calls : Nat) : source.limited.next (s, calls + 1) = (answer, s', calls) := by
  simp [limited, h]

theorem Source.after_succ (source : Source σ) (s : σ) (k : Nat) :
    source.after s (k + 1) = (source.next (source.after s k)).2 := by
  induction k generalizing s with
  | zero => rfl
  | succ k ih => exact ih (source.next s).2

end Limited

namespace Load

variable {ω σ : Type} {session : Session ω} {source : Source σ}

section Within

variable {α : Type} {most : Nat} {reading later : Nat → α × (σ × Nat) × ω} {ending : α × σ × ω}

variable (most reading ending) in
/-- The reading comes to this end with a bounded number of calls. Given more of them it leaves the
rest. -/
def EndsWithin : Prop :=
  ∃ asked ≤ most, ∀ calls, reading (asked + calls) = (ending.1, (ending.2.1, calls), ending.2.2)

theorem EndsWithin.unasked
    (h : ∀ calls, reading calls = (ending.1, (ending.2.1, calls), ending.2.2)) :
    EndsWithin most reading ending :=
  ⟨0, Nat.zero_le _, fun calls => by rw [Nat.zero_add, h]⟩

theorem EndsWithin.once
    (h : ∀ calls, reading (calls + 1) = (ending.1, (ending.2.1, calls), ending.2.2)) :
    EndsWithin (most + 1) reading ending :=
  ⟨1, Nat.le_add_left 1 _, fun calls => by rw [Nat.add_comm 1, h]⟩

/-- A reading that goes on after its first call needs one call more than the rest of it. -/
theorem EndsWithin.again (hlater : EndsWithin most later ending)
    (h : ∀ calls, reading (calls + 1) = later calls) : EndsWithin (most + 1) reading ending := by
  obtain ⟨asked, hasked, hend⟩ := hlater
  refine ⟨asked + 1, Nat.succ_le_succ hasked, fun calls => ?_⟩
  rw [Nat.add_right_comm, h, hend]

end Within

/-- A reading asks its source for each outcome and once more at most. -/
theorem gather_limited (session : Session ω) (source : Source σ) (policy : ErrorPolicy)
    (g : Gathered) (s : σ) (w : ω) :
    EndsWithin ((source.outcomes s).length + 1)
      (fun calls => gather session source.limited policy g (s, calls) w)
      (gather session source policy g s w) := by
  fun_induction gather session source policy g s w
  case case1 hcancelled => exact .unasked fun calls => gather_of_cancelled hcancelled
  case case2 hrun s₁ hnext =>
    exact .once fun calls =>
      gather_of_end (Bool.not_eq_true _ ▸ hrun) (Source.limited_next hnext calls)
  case case3 hrun record s₁ hnext d _ hadd ih =>
    rw [Source.outcomes_of_record hnext, List.length_cons]
    exact ih.again fun calls =>
      gather_of_taken (Bool.not_eq_true _ ▸ hrun) (Source.limited_next hnext calls) hadd
  case case4 hrun record s₁ hnext d _ e hpass hadd ih =>
    rw [Bool.and_eq_true, decide_eq_true_eq] at hpass
    rw [Source.outcomes_of_record hnext, List.length_cons]
    refine ih.again fun calls => ?_
    rw [gather_of_misfit (Bool.not_eq_true _ ▸ hrun) (Source.limited_next hnext calls) hadd,
      if_pos hpass]
  case case5 w hrun record s₁ hnext d e hstop hadd =>
    rw [Bool.and_eq_true, decide_eq_true_eq] at hstop
    refine .once fun calls => ?_
    rw [gather_of_misfit (Bool.not_eq_true _ ▸ hrun) (Source.limited_next hnext calls) hadd,
      if_neg hstop]
  case case6 hrun e s₁ hnext hpass ih =>
    rw [Source.outcomes_of_dataError hnext hpass.1, List.length_cons]
    refine ih.again fun calls => ?_
    rw [gather_of_error (Bool.not_eq_true _ ▸ hrun) (Source.limited_next hnext calls), if_pos hpass]
  case case7 hrun e s₁ hnext hstop =>
    refine .once fun calls => ?_
    rw [gather_of_error (Bool.not_eq_true _ ▸ hrun) (Source.limited_next hnext calls), if_neg hstop]

/-- A load fails before it has a catalog, whatever its source, or it has one. -/
theorem run_prepared (session : Session ω) (destination : Destination) (table : String)
    (config : LoadConfig) (w : ω) :
    (∃ e, ∀ {σ : Type} (source : Source σ) (s : σ),
      run session source destination table config s w = (.error e, s, w)) ∨
    HasCatalog session destination table w := by
  cases htable : destination.resolve table with
  | error e =>
    refine Or.inl ⟨e, fun source s => ?_⟩
    simp only [run, htable, bind, Except.bind]
  | ok t =>
    cases hcatalog : session.columnsOf t w with
    | error e =>
      refine Or.inl ⟨e, fun source s => ?_⟩
      simp only [run, htable, hcatalog, bind, Except.bind]
    | ok catalog => exact Or.inr ⟨t, catalog, htable, hcatalog⟩

/-- A load asks its source for each outcome and once more at most. -/
theorem run_limited (session : Session ω) (source : Source σ) (destination : Destination)
    (table : String) (config : LoadConfig) (s : σ) (w : ω) :
    EndsWithin ((source.outcomes s).length + 1)
      (fun calls => run session source.limited destination table config (s, calls) w)
      (run session source destination table config s w) := by
  rcases run_prepared session destination table config w with
    ⟨e, hrun⟩ | ⟨t, catalog, htable, hcatalog⟩
  · refine .unasked fun calls => ?_
    rw [hrun, hrun]
  · obtain ⟨asked, hasked, hlimited⟩ :=
      gather_limited session source config.onError ⟨.new catalog config.mapping, 0, 0⟩ s w
    refine ⟨asked, hasked, fun calls => ?_⟩
    simp only at hlimited ⊢
    rw [run_of_catalog htable hcatalog, run_of_catalog htable hcatalog, hlimited calls]
    rcases gather session source config.onError ⟨.new catalog config.mapping, 0, 0⟩ s w with
      ⟨_ | _, _, _⟩ <;> rfl

end Load

namespace Lines

variable {line : List UInt8}

/-- How many lines the octets are. What stands behind the last line feed is a line too. -/
def lineCount (octets : List UInt8) : Nat :=
  octets.count newline + if octets.getLast?.all (· = newline) then 0 else 1

theorem lineCount_last (hne : line ≠ []) (h : newline ∉ line) : lineCount line = 1 := by
  have hlast : line.getLast hne ≠ newline := fun hb => h (hb ▸ List.getLast_mem hne)
  rw [lineCount, List.count_eq_zero_of_not_mem h, List.getLast?_eq_some_getLast hne,
    Option.all_some, decide_eq_false hlast]
  rfl

theorem lineCount_line (line rest : List UInt8) :
    lineCount (line ++ newline :: rest) = line.count newline + (lineCount rest + 1) := by
  have hlast : (some (rest.getLast?.getD newline)).all (· = newline) =
      rest.getLast?.all (· = newline) := by
    cases rest.getLast? <;> rfl
  rw [lineCount, lineCount, List.count_append, List.count_cons_self, List.getLast?_append_cons,
    List.getLast?_cons, hlast]
  omega

theorem length_lineOutcomes_le (number : Nat) (line : List UInt8) :
    (lineOutcomes number line).length ≤ 1 := by
  rw [lineOutcomes]
  split
  · exact Nat.zero_le 1
  · exact Nat.le_refl 1
  · exact Nat.le_refl 1

/-- Each line gives one outcome at most. -/
theorem length_outcomes_le (octets : List UInt8) (n : Nat) :
    (source.outcomes ⟨octets, false, n⟩).length ≤ lineCount octets := by
  induction octets using line_induction generalizing n with
  | last line h =>
    by_cases hne : line = []
    · rw [hne, Source.outcomes_of_end (next_end n)]
      exact Nat.zero_le _
    · rw [outcomes_last h, lineCount_last hne h]
      exact length_lineOutcomes_le (n + 1) line
  | line line rest h ih =>
    have hfirst := length_lineOutcomes_le (n + 1) (line ++ [newline])
    have hrest := ih (n + 1)
    rw [outcomes_line h, List.length_append, lineCount_line]
    omega

/-- A call reads at least one of the lines, or gives the end where none is left. -/
theorem next_whole (octets : List UInt8) (n : Nat) : ∃ answer rest m,
    next ⟨octets, false, n⟩ = (answer, ⟨rest, false, m⟩) ∧ (answer = .ok none → rest = []) ∧
      (answer ≠ .ok none → rest.length < octets.length) := by
  induction hlen : octets.length using Nat.strong_induction_on generalizing octets n with
  | _ length ih =>
    subst hlen
    by_cases hne : octets = []
    · subst hne
      exact ⟨.ok none, [], n, next_end n, fun _ => rfl, fun h => absurd rfl h⟩
    · have hrest := length_splitLine_lt hne
      have hsplit : splitLine octets = ((splitLine octets).1, (splitLine octets).2) := rfl
      have hread : (false && !octets.contains newline) = false := rfl
      have hnext := next_of_line hne hsplit hread n
      cases hline : readLine (splitLine octets).1 with
      | error message =>
        rw [hline] at hnext
        exact ⟨_, _, _, hnext, by simp, fun _ => hrest⟩
      | ok record =>
        rw [hline] at hnext
        cases record with
        | some r => exact ⟨_, _, _, hnext, by simp, fun _ => hrest⟩
        | none =>
          obtain ⟨answer, rest, m, hlater, hend, hless⟩ :=
            ih (splitLine octets).2.length hrest (splitLine octets).2 (n + 1) rfl
          exact ⟨answer, rest, m, hnext.trans hlater, hend, fun h => (hless h).trans hrest⟩

end Lines

namespace Elements

/-- A call takes the first of the elements, or gives the end where there is none. -/
theorem give_tail (given : Nat) (elements : List Json) : ∃ answer given',
    give given elements = (answer, .queued elements.tail given') ∧
      (answer = .ok none ↔ elements = []) := by
  cases elements with
  | nil => exact ⟨.ok none, given, rfl, iff_of_true rfl rfl⟩
  | cons v rest =>
    rw [give]
    cases v.record? <;> exact ⟨_, _, rfl, by simp⟩

theorem length_outcomes_queued (elements : List Json) (given : Nat) :
    (source.outcomes (.queued elements given)).length = elements.length := by
  induction elements generalizing given with
  | nil =>
    have hnext : source.next (.queued [] given) = (.ok none, .queued [] given) := rfl
    rw [Source.outcomes_of_end hnext]
    rfl
  | cons v rest ih =>
    cases hrecord : v.record? with
    | some r =>
      have hnext : source.next (.queued (v :: rest) given) =
          (.ok (some r), .queued rest (given + 1)) := by
        simp [source, next, give, hrecord]
      rw [Source.outcomes_of_record hnext, List.length_cons, List.length_cons, ih]
    | none =>
      have hnext : source.next (.queued (v :: rest) given) =
          (.error (.decode (given + 1)
            s!"element {given + 1} is {v.kindWithArticle}, expected an object"),
            .queued rest (given + 1)) := by
        simp [source, next, give, hrecord]
      rw [Source.outcomes_of_dataError hnext rfl, List.length_cons, List.length_cons, ih]

theorem length_outcomes_unread (octets : List UInt8) :
    (source.outcomes (.unread octets false)).length = elementCount octets := by
  cases hload : load octets false with
  | ok elements =>
    have hnext : source.next (.unread octets false) = source.next (.queued elements 0) := by
      simp only [source, next, hload]
    rw [Source.outcomes_of_next_eq hnext, length_outcomes_queued, length_of_load hload]
  | error e =>
    have hnext : source.next (.unread octets false) = (.error e, .queued [] 0) := by
      simp only [source, next, hload]
    obtain ⟨line, message, rfl⟩ := load_error hload
    rw [Source.outcomes_of_dataError hnext rfl, List.length_cons, length_outcomes_queued,
      elementCount_of_error hload]
    rfl

end Elements

namespace Input

theorem outcomes_elements (s : Elements) :
    source.outcomes (.elements s) = Elements.source.outcomes s :=
  Source.outcomes_of_view Input.elements (fun _ => rfl) s

/-- How many lines or elements the octets are. -/
def entryCount (format : RecordFormat) (octets : List UInt8) : Nat :=
  match format with
  | .lines => Lines.lineCount octets
  | .document => Elements.elementCount octets

theorem length_outcomes_le (format : RecordFormat) (octets : List UInt8) :
    (source.outcomes (.ofOctets format octets false)).length ≤ entryCount format octets := by
  cases format with
  | lines =>
    show (source.outcomes (.lines ⟨octets, false, 0⟩)).length ≤ _
    rw [outcomes_lines]
    exact Lines.length_outcomes_le octets 0
  | document =>
    show (source.outcomes (.elements (.unread octets false))).length ≤ _
    rw [outcomes_elements]
    exact Nat.le_of_eq (Elements.length_outcomes_unread octets)

/-- How much of an input is left: the octets of lines; of a document its octets and one more, until
it is read, and then its elements. -/
def left : Input → Nat
  | lines s => s.unread.length
  | elements (.unread octets _) => octets.length + 1
  | elements (.queued rest _) => rest.length
  | records rest _ => rest.length

/-- No call for a line can fail to read. -/
def Whole : Input → Prop
  | lines s => s.fails = false
  | _ => True

/-- What one call does: it leaves less than there was, or it gives the end and so does the next. -/
structure Advances (s : Input) : Prop where
  whole : (next s).2.Whole
  left_lt : (next s).1 ≠ .ok none → (next s).2.left < s.left
  ends : (next s).1 = .ok none → (next (next s).2).1 = .ok none

theorem advances_of_next {s rest : Input} {answer : Source.Answer} (hnext : next s = (answer, rest))
    (hwhole : rest.Whole) (hless : answer ≠ .ok none → rest.left < s.left)
    (hend : answer = .ok none → (next rest).1 = .ok none) : s.Advances := by
  refine ⟨?_, ?_, ?_⟩ <;> rw [hnext]
  · exact hwhole
  · exact hless
  · exact hend

theorem advances_of_give {s : Elements} {given : Nat} {queue : List Json}
    (hnext : s.next = Elements.give given queue) (hqueue : queue.length ≤ (elements s).left) :
    Advances (.elements s) := by
  obtain ⟨answer, given', hgive, hend⟩ := Elements.give_tail given queue
  have hcall : next (.elements s) = (answer, .elements (.queued queue.tail given')) := by
    rw [next, hnext, hgive]
  refine advances_of_next hcall trivial (fun hanswer => ?_) (fun hanswer => ?_)
  · have hne : 0 < queue.length := List.length_pos_iff.mpr fun hnil => hanswer (hend.mpr hnil)
    show queue.tail.length < (elements s).left
    rw [List.length_tail]
    omega
  · rw [hend.mp hanswer]
    rfl

/-- Every call of an input that can be read leaves less, or gives the end for good. -/
theorem Whole.advances {s : Input} (h : s.Whole) : s.Advances := by
  match s, h with
  | .lines ⟨octets, fails, n⟩, h =>
    have hfails : fails = false := h
    subst hfails
    obtain ⟨answer, rest, m, hread, hend, hless⟩ := Lines.next_whole octets n
    have hcall : next (.lines ⟨octets, false, n⟩) = (answer, .lines ⟨rest, false, m⟩) := by
      rw [next, hread]
    refine advances_of_next hcall rfl hless fun hanswer => ?_
    rw [hend hanswer]
    exact congrArg Prod.fst (Lines.next_end m)
  | .elements (.queued queue given), _ => exact advances_of_give rfl (Nat.le_refl _)
  | .elements (.unread octets fails), _ =>
    cases hload : Elements.load octets fails with
    | ok queue =>
      have hnext : (Elements.unread octets fails).next = Elements.give 0 queue := by
        simp only [Elements.next, hload]
      exact advances_of_give hnext
        (Elements.length_of_load hload ▸ Elements.elementCount_le octets)
    | error e =>
      -- the refused octets are gone, and nothing is queued
      have hcall : next (.elements (.unread octets fails)) =
          (.error e, .elements (.queued [] 0)) := by
        simp only [next, Elements.next, hload]
      exact advances_of_next hcall trivial (fun _ => Nat.zero_lt_succ _) (fun h => by cases h)
  | .records [] given, _ =>
    exact advances_of_next rfl trivial (fun h => absurd rfl h) (fun _ => rfl)
  | .records (r :: rest) given, _ =>
    exact advances_of_next rfl trivial (fun _ => Nat.lt_succ_self rest.length) (fun h => by cases h)

theorem whole_after {s : Input} (h : s.Whole) (k : Nat) : (source.after s k).Whole := by
  induction k with
  | zero => exact h
  | succ k ih =>
    rw [Source.after_succ]
    exact ih.advances.whole

theorem whole_ofOctets (format : RecordFormat) (octets : List UInt8) :
    (ofOctets format octets false).Whole := by
  cases format with
  | lines => rfl
  | document => trivial

/-- Once the end was given it is given by every later call. -/
theorem answer_of_end {s : Input} (h : s.Whole) {k m : Nat} (hend : source.answer s k = .ok none)
    (hkm : k ≤ m) : source.answer s m = .ok none := by
  induction m, hkm using Nat.le_induction with
  | base => exact hend
  | succ m _ ih =>
    rw [Source.answer, Source.after_succ]
    exact (whole_after h m).advances.ends ih

end Input

/-- Every call of an input that can be read brings it closer to its end or gives the end, and after
that all calls give the end. A load of it asks at most once for each line or element, once for a
document that cannot be read, and once for the end: it comes to the same where it can be asked
no more often. -/
theorem Load.reading_ends (format : RecordFormat) (octets : List UInt8) :
    (∀ k, Input.source.answer (.ofOctets format octets false) k ≠ .ok none →
      (Input.source.after (.ofOctets format octets false) (k + 1)).left <
        (Input.source.after (.ofOctets format octets false) k).left) ∧
    (∀ k m, Input.source.answer (.ofOctets format octets false) k = .ok none → k ≤ m →
      Input.source.answer (.ofOctets format octets false) m = .ok none) ∧
    ∀ {ω : Type} (session : Session ω) (destination : Destination) (table : String)
      (config : LoadConfig) (w : ω),
      EndsWithin (Input.entryCount format octets + 1)
        (fun calls => run session Input.source.limited destination table config
          (.ofOctets format octets false, calls) w)
        (run session Input.source destination table config (.ofOctets format octets false) w) := by
  have hwhole := Input.whole_ofOctets format octets
  refine ⟨fun k hanswer => ?_, fun k m hend hkm => Input.answer_of_end hwhole hend hkm, ?_⟩
  · rw [Source.after_succ]
    exact (Input.whole_after hwhole k).advances.left_lt hanswer
  · intro ω session destination table config w
    obtain ⟨asked, hasked, hrun⟩ := run_limited session Input.source destination table config
      (.ofOctets format octets false) w
    have hcount := Input.length_outcomes_le format octets
    exact ⟨asked, by omega, hrun⟩

end TableLoad
