import TableLoad.Proofs.Ending

namespace TableLoad

open TwoPass

/-- What a source says when it is asked for a record. -/
abbrev Source.Answer := Except LoadError (Option Record)

namespace Source

variable {σ : Type} (source : Source σ)

/-- The answer is one that the source gives in some state. -/
def Gives (answer : Answer) : Prop :=
  ∃ s, (source.next s).1 = answer

theorem gives_of_next {s s' : σ} {answer : Answer} (h : source.next s = (answer, s')) :
    source.Gives answer :=
  ⟨s, by rw [h]⟩

/-- A source that also keeps every answer it gave. -/
def recorded : Source (σ × List Answer) where
  next p := ((source.next p.1).1, (source.next p.1).2, p.2 ++ [(source.next p.1).1])
  position p := source.position p.1
  size p := source.size p.1
  size_lt_of_record {p p' record} h := by
    have hstate : (source.next p.1).2 = p'.1 := congrArg (fun r => r.2.1) h
    have hrecord : (source.next p.1).1 = .ok (some record) := congrArg (fun r => r.1) h
    exact source.size_lt_of_record (Prod.ext hrecord hstate)
  size_lt_of_dataError {p p' e} h hd := by
    have hstate : (source.next p.1).2 = p'.1 := congrArg (fun r => r.2.1) h
    have herror : (source.next p.1).1 = .error e := congrArg (fun r => r.1) h
    exact source.size_lt_of_dataError (Prod.ext herror hstate) hd

theorem recorded_next {s s' : σ} {answer : Answer} (h : source.next s = (answer, s'))
    (log : List Answer) : source.recorded.next (s, log) = (answer, s', log ++ [answer]) := by
  simp [recorded, h]

end Source

namespace Lines

theorem nextFrom_error {fails : Bool} {line : Nat} {unread : List UInt8} {e : LoadError}
    (h : (nextFrom fails line unread).1 = .error e) :
    e = .io "read failed" ∨ ∃ line message, e = .decode line message := by
  fun_induction nextFrom fails line unread with
  | case1 =>
    split at h <;> cases h
    exact Or.inl rfl
  | case2 =>
    cases h
    exact Or.inl rfl
  | case3 =>
    cases h
    exact Or.inr ⟨_, _, rfl⟩
  | case4 => cases h
  | case5 line unread hne hfails text rest hs hr ih => exact ih h

end Lines

namespace Elements

theorem load_error {octets : List UInt8} {fails : Bool} {e : LoadError}
    (h : load octets fails = .error e) : ∃ line message, e = .decode line message := by
  simp only [load] at h
  split at h
  · cases h
    exact ⟨_, _, rfl⟩
  · split at h
    · cases h
      exact ⟨_, _, rfl⟩
    · split at h <;> cases h
      exact ⟨_, _, rfl⟩

theorem give_error {given : Nat} {elements : List Json} {e : LoadError}
    (h : (give given elements).1 = .error e) : ∃ line message, e = .decode line message := by
  cases elements with
  | nil => cases h
  | cons v rest =>
    simp only [give] at h
    split at h <;> cases h
    exact ⟨_, _, rfl⟩

theorem next_error {s : Elements} {e : LoadError} (h : s.next.1 = .error e) :
    ∃ line message, e = .decode line message := by
  cases s with
  | queued elements given => exact give_error h
  | unread octets fails =>
    simp only [next] at h
    split at h
    · exact give_error h
    · rename_i hload
      cases h
      exact load_error hload

end Elements

/-- An input fails because it cannot be read, or for one record. -/
theorem Source.error_of_gives {e : LoadError} (h : Input.source.Gives (.error e)) :
    e = .io "read failed" ∨ ∃ line message, e = .decode line message := by
  obtain ⟨s, hs⟩ := h
  cases s with
  | lines s => exact Lines.nextFrom_error hs
  | elements s => exact Or.inr (Elements.next_error hs)
  | records rest given => cases rest <;> cases hs

namespace Load

variable {ω σ : Type} {session : Session ω} {source : Source σ}

/-- A failure that the policy passes over. -/
def Passed (policy : ErrorPolicy) (e : LoadError) : Prop :=
  e.isDataError = true ∧ policy = .skip

section Steps

variable {policy : ErrorPolicy} {g : Gathered} {s s' : σ} {w : ω}

theorem gather_of_cancelled (hc : session.cancelled w = true) :
    gather session source policy g s w = (.error (.cancelled CancelPoint.read.name), s, w) := by
  rw [gather, if_pos hc]

theorem gather_of_end (hc : session.cancelled w = false) (h : source.next s = (.ok none, s')) :
    gather session source policy g s w = (.ok g, s', session.afterRead w) := by
  rw [gather, if_neg (by simp [hc])]
  split <;> simp_all

theorem gather_of_taken (hc : session.cancelled w = false) {record : Record}
    (h : source.next s = (.ok (some record), s')) {d : Dataset}
    (hadd : g.dataset.add record = (.ok (), d)) :
    gather session source policy g s w =
      gather session source policy ⟨d, g.records + 1, g.skipped⟩ s' (session.afterRead w) := by
  rw [gather, if_neg (by simp [hc])]
  split <;> simp_all

theorem gather_of_misfit (hc : session.cancelled w = false) {record : Record}
    (h : source.next s = (.ok (some record), s')) {e : LoadError} {d : Dataset}
    (hadd : g.dataset.add record = (.error e, d)) :
    gather session source policy g s w =
      if e.isDataError = true ∧ policy = .skip then
        gather session source policy ⟨d, g.records + 1, g.skipped + 1⟩ s' (session.afterRead w)
      else (.error e, s', session.afterRead w) := by
  rw [gather, if_neg (by simp [hc])]
  split
  · simp_all
  · rename_i h'
    cases h.symm.trans h'
    simp [hadd]
  · simp_all

theorem gather_of_error (hc : session.cancelled w = false) {e : LoadError}
    (h : source.next s = (.error e, s')) :
    gather session source policy g s w =
      if e.isDataError = true ∧ policy = .skip then
        gather session source policy ⟨g.dataset, g.records + 1, g.skipped + 1⟩ s'
          (session.afterRead w)
      else (.error e, s', session.afterRead w) := by
  rw [gather, if_neg (by simp [hc])]
  split
  · simp_all
  · simp_all
  · rename_i h'
    cases h.symm.trans h'
    simp

end Steps

section Asked

/-- What an answer comes to in a load: the failure of the source, or the misfit of its record. -/
def reply (catalog : ColumnSet) (mapping : FieldMap) : Source.Answer → Except LoadError Unit
  | .ok none => .ok ()
  | .ok (some record) => ((Dataset.new catalog mapping).add record).1
  | .error e => .error e

/-- A record fits or not whatever was added before it. -/
theorem reply_of_add {d d' : Dataset} {records : List Record} (hd : d.Reconciled records)
    {record : Record} {result : Except LoadError Unit} (h : d.add record = (result, d')) :
    reply d.catalog d.mapping (.ok (some record)) = result := by
  obtain ⟨d₁, -, hadd, -⟩ := (Dataset.reconciled_new d.catalog d.mapping).add record
  rw [reply, hadd, (hd.add_eq h).1]
  rfl

/-- The answers of a source to one reading, and how the reading ends. The source is asked again
after a record that fits and after a failure that is passed over. -/
inductive Asked (catalog : ColumnSet) (mapping : FieldMap) (policy : ErrorPolicy) :
    List Source.Answer → Except LoadError Unit → Prop
  | cancelled : Asked catalog mapping policy [] (.error (.cancelled CancelPoint.read.name))
  | ended : Asked catalog mapping policy [.ok none] (.ok ())
  | stopped {answer : Source.Answer} {e : LoadError} :
      reply catalog mapping answer = .error e → ¬ Passed policy e →
      Asked catalog mapping policy [answer] (.error e)
  | taken {record : Record} {answers : List Source.Answer} {result : Except LoadError Unit} :
      reply catalog mapping (.ok (some record)) = .ok () →
      Asked catalog mapping policy answers result →
      Asked catalog mapping policy (.ok (some record) :: answers) result
  | passed {answer : Source.Answer} {e : LoadError} {answers : List Source.Answer}
      {result : Except LoadError Unit} :
      reply catalog mapping answer = .error e → Passed policy e →
      Asked catalog mapping policy answers result →
      Asked catalog mapping policy (answer :: answers) result

namespace Asked

variable {catalog : ColumnSet} {mapping : FieldMap} {policy : ErrorPolicy}
  {answers : List Source.Answer} {result : Except LoadError Unit}

theorem mem_dropLast_cons {answer first : Source.Answer}
    (h : answer ∈ (first :: answers).dropLast) : answer = first ∨ answer ∈ answers.dropLast := by
  cases answers with
  | nil => cases h
  | cons second rest => exact List.mem_cons.mp h

/-- What the source is asked after. -/
theorem onwards (h : Asked catalog mapping policy answers result) :
    ∀ answer ∈ answers.dropLast, answer ≠ .ok none ∧
      ∀ e, reply catalog mapping answer = .error e → Passed policy e := by
  induction h with
  | cancelled | ended | stopped => simp
  | taken hreply _ ih =>
    intro answer hanswer
    rcases mem_dropLast_cons hanswer with rfl | hanswer
    · exact ⟨by simp, fun e he => by rw [hreply] at he; cases he⟩
    · exact ih answer hanswer
  | passed hreply hpass _ ih =>
    intro answer hanswer
    rcases mem_dropLast_cons hanswer with rfl | hanswer
    · refine ⟨?_, fun e he => ?_⟩
      · rintro rfl
        cases hreply
      · rw [hreply] at he
        cases he
        exact hpass
    · exact ih answer hanswer

theorem ended_iff (h : Asked catalog mapping policy answers result) :
    result = .ok () ↔ .ok none ∈ answers := by
  induction h with
  | cancelled | ended => simp
  | stopped hreply =>
    simp only [List.mem_singleton, reduceCtorEq, false_iff]
    rintro rfl
    cases hreply
  | taken _ _ ih => simpa using ih
  | passed hreply _ _ ih =>
    rw [ih, List.mem_cons, iff_or_self]
    rintro rfl
    cases hreply

theorem stops (h : Asked catalog mapping policy answers result) {answer : Source.Answer}
    (hanswer : answer ∈ answers) {e : LoadError} (he : reply catalog mapping answer = .error e)
    (hstop : ¬ Passed policy e) : result = .error e := by
  induction h with
  | cancelled => cases hanswer
  | ended =>
    rw [List.mem_singleton.mp hanswer] at he
    cases he
  | stopped hreply =>
    rw [List.mem_singleton.mp hanswer, hreply] at he
    rw [he]
  | taken hreply _ ih =>
    rcases List.mem_cons.mp hanswer with rfl | hanswer
    · rw [hreply] at he
      cases he
    · exact ih hanswer
  | passed hreply hpass _ ih =>
    rcases List.mem_cons.mp hanswer with rfl | hanswer
    · rw [hreply] at he
      cases he
      exact absurd hpass hstop
    · exact ih hanswer

/-- Where nothing is passed over, the first failure is the last answer and the end. -/
theorem aborts (h : Asked catalog mapping .abort answers result) :
    (∀ answer ∈ answers.dropLast, answer ≠ .ok none ∧ reply catalog mapping answer = .ok ()) ∧
      ∀ answer ∈ answers, ∀ e, reply catalog mapping answer = .error e → result = .error e := by
  refine ⟨fun answer hanswer => ?_, fun answer hanswer e he => h.stops hanswer he (by simp [Passed])⟩
  obtain ⟨hsome, hpassed⟩ := h.onwards answer hanswer
  refine ⟨hsome, ?_⟩
  cases hreply : reply catalog mapping answer with
  | ok u => rfl
  | error e => exact absurd (hpassed e hreply) (by simp [Passed])

theorem failure (h : Asked catalog mapping policy answers result) {e : LoadError}
    (he : result = .error e) : e = .cancelled CancelPoint.read.name ∨
      (∃ answer ∈ answers, reply catalog mapping answer = .error e) ∧ ¬ Passed policy e := by
  induction h with
  | cancelled => exact Or.inl (Except.error.inj he).symm
  | ended => cases he
  | stopped hreply hstop =>
    cases he
    exact Or.inr ⟨⟨_, List.mem_singleton_self _, hreply⟩, hstop⟩
  | taken _ _ ih | passed _ _ _ ih =>
    exact (ih he).imp_right fun ⟨⟨answer, hanswer, hreply⟩, hstop⟩ =>
      ⟨⟨answer, List.mem_cons_of_mem _ hanswer, hreply⟩, hstop⟩

end Asked

/-- Keeping the answers changes no reading. They are those of a source that is asked until it ends
or a failure is not passed over. -/
theorem gather_recorded {policy : ErrorPolicy} {g : Gathered} {records : List Record}
    (hg : g.dataset.Reconciled records) {s s' : σ} {w w' : ω} {result : Except LoadError Gathered}
    (h : gather session source policy g s w = (result, s', w')) (log : List Source.Answer) :
    ∃ answers, gather session source.recorded policy g (s, log) w =
        (result, (s', log ++ answers), w') ∧
      (∀ answer ∈ answers, source.Gives answer) ∧
      Asked g.dataset.catalog g.dataset.mapping policy answers (result.map fun _ => ()) := by
  fun_induction gather session source policy g s w generalizing records log
  case case1 hcancelled =>
    cases h
    exact ⟨[], by rw [gather_of_cancelled hcancelled, List.append_nil], by simp, .cancelled⟩
  case case2 hrun s₁ hnext =>
    cases h
    have hlog := source.recorded_next hnext log
    exact ⟨_, gather_of_end (Bool.not_eq_true _ ▸ hrun) hlog, by simp [source.gives_of_next hnext],
      .ended⟩
  case case3 hrun record s₁ hnext d _ hadd ih =>
    obtain ⟨-, hrec, hc, hm, -⟩ := hg.add_eq hadd
    obtain ⟨answers, hgather, hgives, hasked⟩ := ih hrec h (log ++ [.ok (some record)])
    rw [hc, hm] at hasked
    refine ⟨.ok (some record) :: answers, ?_,
      List.forall_mem_cons.mpr ⟨source.gives_of_next hnext, hgives⟩,
      .taken (reply_of_add hg hadd) hasked⟩
    rw [gather_of_taken (Bool.not_eq_true _ ▸ hrun) (source.recorded_next hnext log) hadd]
    rwa [List.append_assoc, List.singleton_append] at hgather
  case case4 hrun record s₁ hnext d _ e hpass hadd ih =>
    obtain ⟨-, hrec, hc, hm, -⟩ := hg.add_eq hadd
    obtain ⟨answers, hgather, hgives, hasked⟩ := ih hrec h (log ++ [.ok (some record)])
    rw [hc, hm] at hasked
    rw [Bool.and_eq_true, decide_eq_true_eq] at hpass
    refine ⟨.ok (some record) :: answers, ?_,
      List.forall_mem_cons.mpr ⟨source.gives_of_next hnext, hgives⟩,
      .passed (reply_of_add hg hadd) hpass hasked⟩
    rw [gather_of_misfit (Bool.not_eq_true _ ▸ hrun) (source.recorded_next hnext log) hadd,
      if_pos hpass]
    rwa [List.append_assoc, List.singleton_append] at hgather
  case case5 w hrun record s₁ hnext d e hstop hadd =>
    rw [Bool.and_eq_true, decide_eq_true_eq] at hstop
    cases h
    refine ⟨[.ok (some record)], ?_, by simp [source.gives_of_next hnext],
      .stopped (reply_of_add hg hadd) hstop⟩
    rw [gather_of_misfit (Bool.not_eq_true _ ▸ hrun) (source.recorded_next hnext log) hadd,
      if_neg hstop]
  case case6 hrun e s₁ hnext hpass ih =>
    obtain ⟨answers, hgather, hgives, hasked⟩ := ih hg h (log ++ [.error e])
    refine ⟨.error e :: answers, ?_,
      List.forall_mem_cons.mpr ⟨source.gives_of_next hnext, hgives⟩, .passed rfl hpass hasked⟩
    rw [gather_of_error (Bool.not_eq_true _ ▸ hrun) (source.recorded_next hnext log), if_pos hpass]
    rwa [List.append_assoc, List.singleton_append] at hgather
  case case7 hrun e s₁ hnext hstop =>
    cases h
    refine ⟨[.error e], ?_, by simp [source.gives_of_next hnext], .stopped rfl hstop⟩
    rw [gather_of_error (Bool.not_eq_true _ ▸ hrun) (source.recorded_next hnext log), if_neg hstop]

end Asked

end Load

end TableLoad
