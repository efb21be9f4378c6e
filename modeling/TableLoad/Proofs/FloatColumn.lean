import TableLoad.Coercion
import TableLoad.Proofs.WrittenNumber

namespace TableLoad

namespace FloatText

open Binary64 (RoundsTo overflow)

theorem dropWhile_signs {p : Char → Bool} (sign : Sign) {cs : List Char}
    (hsign : p '+' = true ∧ p '-' = true) (hcs : ∀ c ∈ cs.head?, p c = false) :
    (sign.chars ++ cs).dropWhile p = cs := by
  refine (takeWhile_run ?_ cs hcs).2
  intro c hc
  cases sign with
  | none => cases hc
  | plus =>
    rw [List.mem_singleton.mp hc]
    exact hsign.1
  | minus =>
    rw [List.mem_singleton.mp hc]
    exact hsign.2

theorem isWord_spelled (w : SpelledFloat) : isWord w.text = true := by
  rw [isWord, SpelledFloat.text, String.toList_ofList, SpelledFloat.chars,
    dropWhile_signs w.sign ⟨rfl, rfl⟩, List.all_eq_true]
  · exact w.letters
  · intro c hc
    have hletter := SpelledFloat.not_sign_of_isAlpha (w.letters c (List.mem_of_mem_head? hc))
    simpa using hletter

theorem isWord_decimal (d : WrittenDecimal) : isWord d.text = false := by
  rw [isWord, WrittenDecimal.text, String.toList_ofList, WrittenDecimal.chars,
    dropWhile_signs d.sign ⟨rfl, rfl⟩, List.all_eq_false]
  · obtain ⟨c, hc, hdigit⟩ := d.exists_digit
    exact ⟨c, hc, by rw [not_isAlpha_of_isDigit hdigit]; exact Bool.false_ne_true⟩
  · intro c hc
    rcases d.body_head c hc with hdigit | rfl
    · simpa using not_sign_of_isDigit hdigit
    · rfl

theorem parse_spelled (w : SpelledFloat) : parse w.text = .ok w.value := by
  rw [parse, read_spelled]
  simp only [isWord_spelled, Bool.or_true, if_true]

/-- The range test refuses a decimal exactly when it is rounded to an infinity. -/
theorem parse_decimal (d : WrittenDecimal) :
    (d.magnitude < overflow →
      ∃ x, parse d.text = .ok x ∧ x.isFinite = true ∧ RoundsTo d.sign.negative d.magnitude x) ∧
    (overflow ≤ d.magnitude → parse d.text = .error .outOfRange) := by
  obtain ⟨coefficient, exponent, hmagnitude, hread⟩ := read_decimal d
  have hrounds := Binary64.ofDecimal_roundsTo d.sign.negative coefficient exponent
  rw [← hmagnitude] at hrounds
  rw [parse, hread]
  simp only [isWord_decimal, Bool.or_false]
  constructor
  · intro hless
    have hfinite := hrounds.isFinite hless
    exact ⟨_, if_pos hfinite, hfinite, hrounds⟩
  · intro hover
    rw [RoundsTo, if_neg hover.not_gt] at hrounds
    rw [hrounds]
    rfl

theorem spelled_of_parse {s : String} {x : Binary64} (h : parse s = .ok x)
    (hx : x.isFinite = false) : ∃ w : SpelledFloat, w.text = s ∧ w.value = x := by
  rw [parse] at h
  split at h
  · next y hread =>
    split at h
    · next hkept =>
      cases h
      rcases written_of_read hread with hspelled | ⟨d, rfl⟩
      · exact hspelled
      · rw [hx, isWord_decimal] at hkept
        cases hkept
    · cases h
  · cases h

theorem parse_other {s : String} (hspelled : ∀ w : SpelledFloat, w.text ≠ s)
    (hdecimal : ∀ d : WrittenDecimal, d.text ≠ s) : ∃ fault, parse s = .error fault := by
  cases hread : read s with
  | error fault => exact ⟨fault, by rw [parse, hread]⟩
  | ok x =>
    rcases written_of_read hread with ⟨w, hw, -⟩ | ⟨d, hd⟩
    · exact absurd hw (hspelled w)
    · exact absurd hd (hdecimal d)

/-- The floats that texts are read as: those that are spelled out, and the roundings of decimals. -/
theorem parse_eq_ok {s : String} {x : Binary64} : parse s = .ok x ↔
    (∃ w : SpelledFloat, w.text = s ∧ w.value = x) ∨
      ∃ d : WrittenDecimal, d.text = s ∧ d.magnitude < overflow ∧
        RoundsTo d.sign.negative d.magnitude x := by
  constructor
  · intro h
    by_cases hspelled : ∃ w : SpelledFloat, w.text = s
    · obtain ⟨w, rfl⟩ := hspelled
      rw [parse_spelled] at h
      exact .inl ⟨w, rfl, Except.ok.inj h⟩
    by_cases hdecimal : ∃ d : WrittenDecimal, d.text = s
    · obtain ⟨d, rfl⟩ := hdecimal
      by_cases hless : d.magnitude < overflow
      · obtain ⟨y, hparse, -, hrounds⟩ := (parse_decimal d).1 hless
        cases hparse.symm.trans h
        exact .inr ⟨d, rfl, hless, hrounds⟩
      · cases ((parse_decimal d).2 (not_lt.mp hless)).symm.trans h
    · obtain ⟨fault, hparse⟩ := parse_other (not_exists.mp hspelled) (not_exists.mp hdecimal)
      cases hparse.symm.trans h
  · rintro (⟨w, rfl, rfl⟩ | ⟨d, rfl, hless, hrounds⟩)
    · exact parse_spelled w
    · obtain ⟨y, hparse, -, hy⟩ := (parse_decimal d).1 hless
      rw [hparse, hy.unique hrounds]

end FloatText

namespace Column

open Binary64 (RoundsTo overflow)

variable {c : Column}

theorem coerce_float_of_parse (hc : c.logicalType = .float) (s : String) :
    c.coerce (.string s) = match FloatText.parse s with
      | .ok x => .ok (.float x)
      | .error f => .error (.coercion c.name (Misfit.notFloat s f).message) := by
  rw [coerce, hc, convert]
  cases FloatText.parse s <;> rfl

/-- What a column of floats makes of text. -/
theorem coerce_float_text (c : Column) (hc : c.logicalType = .float) :
    (∀ s v, c.coerce (.string s) = .ok v → ∃ x, v = .float x ∧
      (x.isFinite = false → ∃ w : SpelledFloat, w.text = s ∧ w.value = x)) ∧
    (∀ w : SpelledFloat, c.coerce (.string w.text) = .ok (.float w.value)) ∧
    (∀ d : WrittenDecimal, d.magnitude < overflow →
      ∃ x, c.coerce (.string d.text) = .ok (.float x) ∧ x.isFinite = true ∧
        RoundsTo d.sign.negative d.magnitude x) ∧
    (∀ d : WrittenDecimal, overflow ≤ d.magnitude →
      ∃ message, c.coerce (.string d.text) = .error (.coercion c.name message)) ∧
    (∀ s, (∀ w : SpelledFloat, w.text ≠ s) → (∀ d : WrittenDecimal, d.text ≠ s) →
      ∃ message, c.coerce (.string s) = .error (.coercion c.name message)) ∧
    (∀ d : WrittenDecimal, FloatText.isWord d.text = false) ∧
    ∀ w : SpelledFloat, FloatText.isWord w.text = true := by
  have hcoerce := coerce_float_of_parse hc
  refine ⟨?_, ?_, ?_, ?_, ?_, FloatText.isWord_decimal, FloatText.isWord_spelled⟩
  · intro s v hv
    rw [hcoerce] at hv
    cases hparse : FloatText.parse s with
    | error fault =>
      rw [hparse] at hv
      cases hv
    | ok x =>
      rw [hparse] at hv
      cases hv
      exact ⟨x, rfl, FloatText.spelled_of_parse hparse⟩
  · intro w
    rw [hcoerce, FloatText.parse_spelled]
  · intro d hless
    obtain ⟨x, hparse, hfinite, hrounds⟩ := (FloatText.parse_decimal d).1 hless
    exact ⟨x, by rw [hcoerce, hparse], hfinite, hrounds⟩
  · intro d hover
    exact ⟨_, by rw [hcoerce, (FloatText.parse_decimal d).2 hover]⟩
  · intro s hspelled hdecimal
    obtain ⟨fault, hparse⟩ := FloatText.parse_other hspelled hdecimal
    exact ⟨_, by rw [hcoerce, hparse]⟩

theorem coerce_minus_infinity : (Column.declared "amt" "DOUBLE" true none).logicalType = .float ∧
    (Column.declared "amt" "DOUBLE" true none).coerce (.string "-Inf") =
      .ok (.float (.infinity true)) := by
  have htype : (Column.declared "amt" "DOUBLE" true none).logicalType = .float := by decide +kernel
  refine ⟨htype, ?_⟩
  exact (coerce_float_text _ htype).2.1 ⟨.minus, ['I', 'n', 'f'], by decide⟩

end Column

end TableLoad
