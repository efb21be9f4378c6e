import TableLoad.Proofs.Accounting
import TableLoad.Proofs.LineByLine
import TableLoad.Proofs.OpenJson

namespace TableLoad

/-- A source whose states another one looks into gives what the other gives. -/
theorem Source.outcomes_of_view {σ τ : Type} {source : Source σ} {source' : Source τ} (f : σ → τ)
    (hnext : ∀ s, source'.next (f s) = ((source.next s).1, f (source.next s).2)) (s : σ) :
    source'.outcomes (f s) = source.outcomes s := by
  fun_induction source.outcomes s with
  | case1 s s' h =>
    have hview : source'.next (f s) = (.ok none, f s') := by rw [hnext, h]
    exact outcomes_of_end hview
  | case2 s record s' h ih =>
    have hview : source'.next (f s) = (.ok (some record), f s') := by rw [hnext, h]
    rw [outcomes_of_record hview, ih]
  | case3 s e s' h hd ih =>
    have hview : source'.next (f s) = (.error e, f s') := by rw [hnext, h]
    rw [outcomes_of_dataError hview hd, ih]
  | case4 s e s' h hd =>
    have hview : source'.next (f s) = (.error e, f s') := by rw [hnext, h]
    exact outcomes_of_error hview (Bool.eq_false_iff.mpr hd)

namespace Lines

variable {line : List UInt8}

theorem next_unfinished (h : newline ∉ line) (n : Nat) :
    source.next ⟨line, true, n⟩ = (.error (.io "read failed"), ⟨[], true, n⟩) := by
  show next ⟨line, true, n⟩ = _
  rw [next, nextFrom]
  by_cases hne : line = []
  · rw [dif_pos hne]
    rfl
  · rw [dif_neg hne, if_pos (by simpa using h)]

theorem outcomes_unfinished (h : newline ∉ line) (n : Nat) :
    source.outcomes ⟨line, true, n⟩ = [.error (.io "read failed")] :=
  Source.outcomes_of_error (next_unfinished h n) rfl

/-- What stands behind the last line feed is lost. -/
theorem outcomes_failing (octets : List UInt8) (n : Nat) : ∃ whole tail,
    octets = whole ++ tail ∧ newline ∉ tail ∧ (∀ b ∈ whole.getLast?, b = newline) ∧
      source.outcomes ⟨octets, true, n⟩ =
        source.outcomes ⟨whole, false, n⟩ ++ [.error (.io "read failed")] := by
  induction octets using line_induction generalizing n with
  | last line h =>
    refine ⟨[], line, rfl, h, by simp, ?_⟩
    rw [outcomes_unfinished h, Source.outcomes_of_end (next_end n), List.nil_append]
  | line line rest h ih =>
    obtain ⟨whole, tail, hoctets, htail, hlast, houtcomes⟩ := ih (n + 1)
    refine ⟨line ++ newline :: whole, tail, ?_, htail, fun b hb => ?_, ?_⟩
    · rw [hoctets, List.append_assoc, List.cons_append]
    · rw [List.getLast?_append_cons, List.getLast?_cons] at hb
      cases hwhole : whole.getLast? with
      | none => simpa [hwhole, eq_comm] using hb
      | some c =>
        have hc : c = b := by simpa [hwhole] using hb
        exact hc ▸ hlast c (by simp [hwhole])
    · rw [outcomes_line h, outcomes_line h, houtcomes, List.append_assoc]

variable {e : LoadError} {octets : List UInt8} {n : Nat}

theorem isDataError_of_mem_lineOutcomes (h : .error e ∈ lineOutcomes n line) :
    e.isDataError = true := by
  rw [lineOutcomes] at h
  split at h
  · cases h
  · simp at h
  · rw [List.mem_singleton] at h
    cases h
    rfl

/-- Lines that are read to their end fail alone. -/
theorem isDataError_of_mem_outcomes (h : .error e ∈ source.outcomes ⟨octets, false, n⟩) :
    e.isDataError = true := by
  induction octets using line_induction generalizing n with
  | last line hline =>
    rw [outcomes_last hline] at h
    exact isDataError_of_mem_lineOutcomes h
  | line line rest hline ih =>
    rw [outcomes_line hline, List.mem_append] at h
    rcases h with h | h
    · exact isDataError_of_mem_lineOutcomes h
    · exact ih h

end Lines

namespace Elements

variable (octets : List UInt8)

/-- Reading failed on this line of a document that was right so far: the one that was reached inside
an array or object, and none elsewhere. -/
def FailsOn (n : Nat) : Prop :=
  (∃ rest v, Json.Reader.read (octets ++ rest) = .ok v) →
    (Json.Reader.BreaksOff octets → n = 1 + octets.count Lines.newline) ∧
    (¬ Json.Reader.BreaksOff octets → n = 0)

/-- Whatever was read of a document that cannot be read to its end, it is told as a record that
fails. -/
theorem load_failing :
    ∃ n, load octets true = .error (.decode n "invalid JSON document") ∧ FailsOn octets n := by
  cases hread : Json.Reader.read octets with
  | ok v =>
    refine ⟨0, by rw [load, hread]; rfl, fun _ => ⟨fun h => absurd hread (h.2 v), fun _ => rfl⟩⟩
  | error f =>
    refine ⟨faultLine octets true f, by rw [load, hread], ?_⟩
    rintro ⟨rest, v, h⟩
    obtain ⟨level, rfl, hlevel⟩ := Json.Reader.read_beginning h hread
    refine ⟨fun hbreaks => ?_, fun hbreaks => ?_⟩
    · have hne : level ≠ 0 := fun hzero => hlevel.mp hzero hbreaks
      simp [faultLine, hne]
    · simp [faultLine, hlevel.mpr hbreaks]

end Elements

namespace Input

/-- Two calls of an input over a document: the one record that fails, and the end. -/
theorem next_document (octets : List UInt8) :
    ∃ n, source.next (.ofOctets .document octets true) =
        (.error (.decode n "invalid JSON document"), .elements (.queued [] 0)) ∧
      source.next (.elements (.queued [] 0)) = (.ok none, .elements (.queued [] 0)) ∧
      Elements.FailsOn octets n := by
  obtain ⟨n, hload, hline⟩ := Elements.load_failing octets
  refine ⟨n, ?_, rfl, hline⟩
  show next (.elements (.unread octets true)) = _
  rw [next, Elements.next, hload]

theorem outcomes_lines (s : Lines) : source.outcomes (.lines s) = Lines.source.outcomes s :=
  Source.outcomes_of_view Input.lines (fun _ => rfl) s

end Input

namespace Load

open Session Database

section Reading

variable {ω σ : Type} {session : Session ω} {source : Source σ}

theorem fatal?_eq_none {outcomes : List (Except LoadError Record)}
    (h : ∀ e, .error e ∈ outcomes → e.isDataError = true) : fatal? outcomes = none := by
  rw [fatal?, List.findSome?_eq_none_iff]
  intro outcome houtcome
  cases outcome with
  | ok record => rfl
  | error e => exact if_pos (h e houtcome)

theorem fatal?_append (before behind : List (Except LoadError Record)) :
    fatal? (before ++ behind) = (fatal? before).or (fatal? behind) :=
  List.findSome?_append

/-- Reading only lets time pass. -/
theorem gather_iterate {policy : ErrorPolicy} {g : Gathered} {s s' : σ} {w w' : ω}
    {result : Except LoadError Gathered}
    (h : gather session source policy g s w = (result, s', w')) :
    ∃ k, w' = session.afterRead^[k] w := by
  fun_induction gather session source policy g s w
  case case1 =>
    cases h
    exact ⟨0, rfl⟩
  case case2 | case5 | case7 =>
    cases h
    exact ⟨1, rfl⟩
  case case3 ih | case4 ih | case6 ih =>
    obtain ⟨k, hk⟩ := ih h
    exact ⟨k + 1, by rw [hk, Function.iterate_succ_apply]⟩

/-- A reading comes to the end only past failures that the policy passes over. -/
theorem gather_passed {policy : ErrorPolicy} {g g' : Gathered} {s s' : σ} {w w' : ω}
    (h : gather session source policy g s w = (.ok g', s', w')) {e : LoadError}
    (he : .error e ∈ source.outcomes s) : Passed policy e := by
  fun_induction gather session source policy g s w
  case case1 | case5 | case7 => cases h
  case case2 hnext =>
    rw [Source.outcomes_of_end hnext] at he
    cases he
  case case3 hnext _ _ _ ih | case4 hnext _ _ _ _ _ ih =>
    rw [Source.outcomes_of_record hnext] at he
    exact ih h (by simpa using he)
  case case6 hnext hd ih =>
    rw [Source.outcomes_of_dataError hnext hd.1, List.mem_cons] at he
    rcases he with he | he
    · cases he
      exact hd
    · exact ih h he

end Reading

section Run

variable {ω : Type} {session : Session ω} {destination : Destination} {table : String}
  {config : LoadConfig} {w : ω}

variable (session destination table w) in
/-- The identifier names a table, and the catalog of that table is there. -/
def HasCatalog : Prop :=
  ∃ t catalog, destination.resolve table = .ok t ∧ session.columnsOf t w = .ok catalog

variable (session config w) in
/-- The load goes past the one record that fails: it passes over such records, and is not cancelled
before it has come to the end. -/
def PassesOver : Prop :=
  config.onError = .skip ∧ session.cancelled w = false ∧
    session.cancelled (session.afterRead w) = false

section Ended

variable {σ : Type} {source : Source σ} {s s' : σ} {w' : ω} {t : TableRef} {catalog : ColumnSet}

theorem run_of_no_catalog (h : ¬ HasCatalog session destination table w) :
    ∃ e, run session source destination table config s w = (.error e, s, w) := by
  rcases run_cases session source destination table config s w with
    hrun | ⟨t, catalog, _, _, htable, hcatalog, -⟩
  · exact hrun
  · exact absurd ⟨t, catalog, htable, hcatalog⟩ h

theorem run_of_gather_error (htable : destination.resolve table = .ok t)
    (hcatalog : session.columnsOf t w = .ok catalog) {e : LoadError}
    (h : gather session source config.onError ⟨.new catalog config.mapping, 0, 0⟩ s w =
      (.error e, s', w')) :
    run session source destination table config s w = (.error e, s', w') := by
  rw [run_of_catalog htable hcatalog, h]

/-- Where no row was kept the load reports so and leaves the database alone. -/
theorem run_of_no_row (htable : destination.resolve table = .ok t)
    (hcatalog : session.columnsOf t w = .ok catalog) {g : Gathered}
    (h : gather session source config.onError ⟨.new catalog config.mapping, 0, 0⟩ s w =
      (.ok g, s', w'))
    (hrows : g.dataset.rows.toList = []) :
    ∃ report, run session source destination table config s w = (.ok report, s', w') ∧
      report.records = g.records ∧ report.skipped = g.skipped ∧ report.counts.rows = 0 := by
  rw [run_of_catalog htable hcatalog, h]
  simp only [write_of_no_row hrows]
  exact ⟨_, rfl, rfl, rfl, rfl⟩

end Ended

/-- No load of lines that cannot be read to their end succeeds, or executes a statement. -/
theorem run_lines_failing (session : Session ω) (destination : Destination) (table : String)
    (config : LoadConfig) (octets : List UInt8) (w : ω) :
    ∃ e s' k, run session Input.source destination table config (.ofOctets .lines octets true) w =
        (.error e, s', session.afterRead^[k] w) ∧
      ((∀ w, session.cancelled w = false) → config.onError = .skip →
        HasCatalog session destination table w → e = .io "read failed") := by
  obtain ⟨whole, tail, -, -, -, houtcomes⟩ := Lines.outcomes_failing octets 0
  rw [← Input.outcomes_lines, ← Input.outcomes_lines] at houtcomes
  by_cases hcat : HasCatalog session destination table w
  · obtain ⟨t, catalog, htable, hcatalog⟩ := id hcat
    have hnew := Dataset.reconciled_new catalog config.mapping
    cases hgather : gather session Input.source config.onError
        ⟨.new catalog config.mapping, 0, 0⟩ (.ofOctets .lines octets true) w with
    | mk result rest =>
      obtain ⟨s', w'⟩ := rest
      obtain ⟨k, rfl⟩ := gather_iterate hgather
      cases result with
      | ok g =>
        have hmem : .error (.io "read failed") ∈
            Input.source.outcomes (.ofOctets .lines octets true) := by
          show _ ∈ Input.source.outcomes (.lines ⟨octets, true, 0⟩)
          simp [houtcomes]
        cases (gather_passed hgather hmem).1
      | error e =>
        refine ⟨e, s', k, run_of_gather_error htable hcatalog hgather, ?_⟩
        intro hnever hskip _
        have hfatal : fatal? (Input.source.outcomes (.lines ⟨octets, true, 0⟩)) = some e :=
          (gather_fatal? hnever hskip hnew hgather).2 e rfl
        have hwhole : fatal? (Input.source.outcomes (.lines ⟨whole, false, 0⟩)) = none := by
          rw [Input.outcomes_lines]
          exact fatal?_eq_none fun _ => Lines.isDataError_of_mem_outcomes
        rw [houtcomes, fatal?_append, hwhole] at hfatal
        exact (Option.some.inj hfatal).symm
  · obtain ⟨e, hrun⟩ := run_of_no_catalog hcat
    exact ⟨e, _, 0, hrun, fun _ _ h => absurd h hcat⟩

/-- Reading a document that cannot be read to its end comes to the end where the load goes past the
one record that fails. -/
theorem gather_document_failing (session : Session ω) (config : LoadConfig) (octets : List UInt8)
    (g : Gathered) (w : ω) :
    ∃ s' k,
      (PassesOver session config w →
        gather session Input.source config.onError g (.ofOctets .document octets true) w =
          (.ok ⟨g.dataset, g.records + 1, g.skipped + 1⟩, s', session.afterRead^[k] w)) ∧
      (¬ PassesOver session config w → ∃ e,
        gather session Input.source config.onError g (.ofOctets .document octets true) w =
          (.error e, s', session.afterRead^[k] w)) := by
  obtain ⟨n, hnext, hend, -⟩ := Input.next_document octets
  by_cases hc : session.cancelled w = true
  · refine ⟨_, 0, fun h => ?_, fun _ => ⟨_, gather_of_cancelled hc⟩⟩
    simp [h.2.1] at hc
  rw [Bool.not_eq_true] at hc
  rw [gather_of_error hc hnext]
  by_cases hskip : config.onError = .skip
  · rw [if_pos ⟨rfl, hskip⟩]
    by_cases hc' : session.cancelled (session.afterRead w) = true
    · refine ⟨_, 1, fun h => ?_, fun _ => ⟨_, gather_of_cancelled hc'⟩⟩
      simp [h.2.2] at hc'
    · rw [Bool.not_eq_true] at hc'
      exact ⟨_, 2, fun _ => gather_of_end hc' hend, fun h => absurd ⟨hskip, hc, hc'⟩ h⟩
  · rw [if_neg (fun h => hskip h.2)]
    exact ⟨_, 1, fun h => absurd h.1 hskip, fun _ => ⟨_, rfl⟩⟩

/-- What a load of a document that cannot be read to its end comes to. It succeeds where it goes
past the one record that fails, and has then read and skipped that record. -/
theorem run_document_failing (session : Session ω) (destination : Destination) (table : String)
    (config : LoadConfig) (octets : List UInt8) (w : ω) :
    ∃ result s' k, run session Input.source destination table config
        (.ofOctets .document octets true) w = (result, s', session.afterRead^[k] w) ∧
      ((∃ report, result = .ok report) ↔
        HasCatalog session destination table w ∧ PassesOver session config w) ∧
      ∀ report, result = .ok report →
        report.records = 1 ∧ report.skipped = 1 ∧ report.counts.rows = 0 := by
  -- where the load fails, both parts hold once one condition of success does not
  have hfails {e : LoadError} {p : Prop} (hp : ¬ p) :
      ((∃ report : LoadReport, Except.error e = .ok report) ↔ p) ∧
        ∀ report : LoadReport, Except.error e = .ok report →
          report.records = 1 ∧ report.skipped = 1 ∧ report.counts.rows = 0 :=
    ⟨iff_of_false (fun ⟨_, h⟩ => by cases h) hp, fun _ h => by cases h⟩
  by_cases hcat : HasCatalog session destination table w
  · obtain ⟨t, catalog, htable, hcatalog⟩ := id hcat
    obtain ⟨s', k, hpasses, hstops⟩ := gather_document_failing session config octets
      ⟨.new catalog config.mapping, 0, 0⟩ w
    by_cases hpass : PassesOver session config w
    · obtain ⟨report, hrun, hcounts⟩ := run_of_no_row htable hcatalog (hpasses hpass) rfl
      refine ⟨.ok report, s', k, hrun, iff_of_true ⟨report, rfl⟩ ⟨hcat, hpass⟩, ?_⟩
      intro report' h
      cases h
      exact hcounts
    · obtain ⟨e, hgather⟩ := hstops hpass
      have hrun := run_of_gather_error htable hcatalog hgather
      exact ⟨_, s', k, hrun, hfails fun h => hpass h.2⟩
  · obtain ⟨e, hrun⟩ := run_of_no_catalog hcat
    exact ⟨_, _, 0, hrun, hfails fun h => hcat h.1⟩

end Run

/-- An input that cannot be read to its end is never written, not in part. Its lines give what its
whole lines give and then the failure of reading, which no record is to blame for, so no load of
them succeeds. As a document it gives one record that fails and then the end, so a load succeeds
that passes over such records and is not cancelled: it has skipped one record. A document that was
right so far fails on the line that was reached, or on none outside of all arrays and objects. -/
theorem run_of_failing_input (octets : List UInt8) :
    (∃ whole tail, octets = whole ++ tail ∧ Lines.newline ∉ tail ∧
      (∀ b ∈ whole.getLast?, b = Lines.newline) ∧
      Input.source.outcomes (.ofOctets .lines octets true) =
        Input.source.outcomes (.ofOctets .lines whole false) ++ [.error (.io "read failed")]) ∧
    (∃ n, Input.source.outcomes (.ofOctets .document octets true) =
        [.error (.decode n "invalid JSON document")] ∧ Elements.FailsOn octets n) ∧
    ∀ {ω : Type} (session : Session ω) (destination : Destination) (table : String)
      (config : LoadConfig) (format : RecordFormat) (w : ω),
      ∃ result s' k, run session Input.source destination table config
          (.ofOctets format octets true) w = (result, s', session.afterRead^[k] w) ∧
        ((∃ report, result = .ok report) ↔ format = .document ∧
          HasCatalog session destination table w ∧ PassesOver session config w) ∧
        (∀ report, result = .ok report →
          report.records = 1 ∧ report.skipped = 1 ∧ report.counts.rows = 0) ∧
        (format = .lines → (∀ w, session.cancelled w = false) → config.onError = .skip →
          HasCatalog session destination table w → result = .error (.io "read failed")) := by
  refine ⟨?_, ?_, ?_⟩
  · obtain ⟨whole, tail, hoctets, htail, hlast, houtcomes⟩ := Lines.outcomes_failing octets 0
    rw [← Input.outcomes_lines, ← Input.outcomes_lines] at houtcomes
    exact ⟨whole, tail, hoctets, htail, hlast, houtcomes⟩
  · obtain ⟨n, hnext, hend, hline⟩ := Input.next_document octets
    refine ⟨n, ?_, hline⟩
    rw [Source.outcomes_of_dataError hnext rfl, Source.outcomes_of_end hend]
  · intro ω session destination table config format w
    cases format with
    | lines =>
      obtain ⟨e, s', k, hrun, hio⟩ := run_lines_failing session destination table config octets w
      refine ⟨.error e, s', k, hrun, ?_, ?_, ?_⟩
      · exact iff_of_false (fun ⟨_, h⟩ => by cases h) (fun h => by cases h.1)
      · intro _ h
        cases h
      · intro _ hnever hskip hcat
        rw [hio hnever hskip hcat]
    | document =>
      obtain ⟨result, s', k, hrun, hok, hreport⟩ :=
        run_document_failing session destination table config octets w
      refine ⟨result, s', k, hrun, ?_, hreport, ?_⟩
      · rw [hok, and_iff_right rfl]
      · intro h
        cases h

/-- The beginning of a list of orders. -/
def brokenOff : List UInt8 :=
  Text.Utf8.encode "[\x7b\"id\":2\x7d"

/-- The document was right so far when reading failed. It is told as a record that fails, and a load
that passes over such records reports that it succeeded. -/
theorem run_brokenOff :
    (∃ rest v, Json.Reader.read (brokenOff ++ rest) = .ok v) ∧
    (Input.source.next (.ofOctets .document brokenOff true)).1 =
      .error (.decode 1 "invalid JSON document") ∧
    (LoadError.decode 1 "invalid JSON document").isDataError = true ∧
    (run Connection.session Input.source .inMemory "orders"
      { LoadConfig.default with onError := .skip } (.ofOctets .document brokenOff true)
      .orders).1.isOk = true := by
  have hread : (Json.Reader.read (brokenOff ++ [0x5D])).isOk = true := by decide +kernel
  have hbeginning : ∃ rest v, Json.Reader.read (brokenOff ++ rest) = .ok v := by
    cases h : Json.Reader.read (brokenOff ++ [0x5D]) with
    | ok v => exact ⟨[0x5D], v, h⟩
    | error f =>
      rw [h] at hread
      cases hread
  have hunread : (Json.Reader.read brokenOff).isOk = false := by decide +kernel
  have hbreaks : Json.Reader.BreaksOff brokenOff := by
    refine ⟨by decide +kernel, fun v hv => ?_⟩
    rw [hv] at hunread
    cases hunread
  obtain ⟨n, hnext, -, hline⟩ := Input.next_document brokenOff
  have hone : 1 + brokenOff.count Lines.newline = 1 := by decide +kernel
  rw [(hline hbeginning).1 hbreaks, hone] at hnext
  refine ⟨hbeginning, ?_, rfl, by decide +kernel⟩
  rw [hnext]

end Load

end TableLoad
