import TableLoad.Proofs.FloatColumn
import TableLoad.Proofs.IntegerValue

namespace TableLoad.Column

open Binary64 (RoundsTo overflow)

/-- What a value becomes in a column. Where the column holds numbers, a number and the text of one
become that number: integers only exactly and in their range, floats as they are spelled out or by
correct rounding. Everything else stays what it is, and what holds other values becomes its compact
text. -/
inductive Becomes (c : Column) : Json → Value → Prop
  | null : Becomes c .null .null
  | bool (b : Bool) : Becomes c (.bool b) (.bool b)
  | wholeNumber {n : Json.Number} {i : ℤ} : c.logicalType = .int → n.toRat? = some (i : ℚ) →
      -2 ^ 63 ≤ i → i < 2 ^ 63 → Becomes c (.number n) (.int i)
  | number {n : Json.Number} : c.logicalType ≠ .int → Becomes c (.number n) (.ofNumber n)
  | writtenInteger {s : String} {w : WrittenInteger} : c.logicalType = .int → w.text = s →
      -2 ^ 63 ≤ w.value → w.value < 2 ^ 63 → Becomes c (.string s) (.int w.value)
  | spelledFloat {s : String} {w : SpelledFloat} : c.logicalType = .float → w.text = s →
      Becomes c (.string s) (.float w.value)
  | writtenDecimal {s : String} {d : WrittenDecimal} {x : Binary64} : c.logicalType = .float →
      d.text = s → d.magnitude < overflow → RoundsTo d.sign.negative d.magnitude x →
      Becomes c (.string s) (.float x)
  | text {s : String} : c.logicalType ≠ .int → c.logicalType ≠ .float →
      Becomes c (.string s) (.text s)
  | array (elements : List Json) : Becomes c (.array elements) (.text (Json.array elements).compact)
  | object (members : List (String × Json)) :
      Becomes c (.object members) (.text (Json.object members).compact)

/-- What stands for a column in a record that does not fill it: null where the column may hold it,
and else the zero of its type, which an opaque type has not. -/
def unfilled (c : Column) : Json :=
  if c.nullable then .null
  else match c.logicalType with
    | .string => .string ""
    | .int => .number (.int 0)
    | .float => .number (.float (.zero false))
    | .other => .null

variable {c : Column} {x : Value}

theorem coerce_kept {v : Json} (hnumber : ∀ n, v ≠ .number n) (hstring : ∀ s, v ≠ .string s) :
    c.coerce v = .ok (.ofJson v) := by
  rw [coerce]
  cases v with
  | number n => exact absurd rfl (hnumber n)
  | string s => exact absurd rfl (hstring s)
  | null | bool | array | object => cases c.logicalType <;> rfl

theorem coerce_number_eq_ok {n : Json.Number} :
    c.coerce (.number n) = .ok x ↔ c.Becomes (.number n) x := by
  by_cases hc : c.logicalType = .int
  · rw [coerce_int_number hc]
    constructor
    · intro h
      cases hread : integerOf n with
      | error m => simp [hread] at h
      | ok i =>
        obtain ⟨hn, hlow, hhigh⟩ := integerOf_eq_ok.mp hread
        obtain rfl : .int i = x := by simpa [hread] using h
        exact .wholeNumber hc hn hlow hhigh
    · intro h
      cases h with
      | wholeNumber _ hn hlow hhigh => rw [integerOf_eq_ok.mpr ⟨hn, hlow, hhigh⟩]
      | number hne => exact absurd hc hne
  · rw [coerce, convert_number, if_neg hc, Except.ok.injEq]
    constructor
    · rintro rfl
      exact .number hc
    · intro h
      cases h with
      | wholeNumber hint => exact absurd hint hc
      | number => rfl

theorem coerce_string_eq_ok {s : String} :
    c.coerce (.string s) = .ok x ↔ c.Becomes (.string s) x := by
  cases hc : c.logicalType with
  | int =>
    rw [coerce_int_text hc]
    constructor
    · intro h
      cases hread : IntegerText.parse s with
      | error fault => simp [hread] at h
      | ok i =>
        obtain ⟨⟨w, hw, rfl⟩, hlow, hhigh⟩ := IntegerText.parse_eq_ok.mp hread
        obtain rfl : .int w.value = x := by simpa [hread] using h
        exact .writtenInteger hc hw hlow hhigh
    · intro h
      cases h with
      | writtenInteger _ hw hlow hhigh =>
        rw [IntegerText.parse_eq_ok.mpr ⟨⟨_, hw, rfl⟩, hlow, hhigh⟩]
      | spelledFloat hfloat | writtenDecimal hfloat => simp [hc] at hfloat
      | text hint => exact absurd hc hint
  | float =>
    rw [coerce_float_of_parse hc]
    constructor
    · intro h
      cases hread : FloatText.parse s with
      | error fault => simp [hread] at h
      | ok y =>
        obtain rfl : .float y = x := by simpa [hread] using h
        rcases FloatText.parse_eq_ok.mp hread with ⟨w, hw, rfl⟩ | ⟨d, hd, hless, hrounds⟩
        · exact .spelledFloat hc hw
        · exact .writtenDecimal hc hd hless hrounds
    · intro h
      cases h with
      | writtenInteger hint => simp [hc] at hint
      | spelledFloat _ hw => rw [FloatText.parse_eq_ok.mpr (.inl ⟨_, hw, rfl⟩)]
      | writtenDecimal _ hd hless hrounds =>
        rw [FloatText.parse_eq_ok.mpr (.inr ⟨_, hd, hless, hrounds⟩)]
      | text _ hfloat => exact absurd hc hfloat
  | string | other =>
    have hkept : c.coerce (.string s) = .ok (.text s) := by
      rw [coerce, hc]
      rfl
    rw [hkept, Except.ok.injEq]
    constructor
    · rintro rfl
      exact .text (by simp [hc]) (by simp [hc])
    · intro h
      cases h with
      | writtenInteger hint => simp [hc] at hint
      | spelledFloat hfloat | writtenDecimal hfloat => simp [hc] at hfloat
      | text => rfl

/-- A value is coerced exactly to what it becomes. -/
theorem coerce_eq_ok {v : Json} : c.coerce v = .ok x ↔ c.Becomes v x := by
  cases v with
  | number n => exact coerce_number_eq_ok
  | string s => exact coerce_string_eq_ok
  | null | bool | array | object =>
    rw [coerce_kept (by simp) (by simp), Except.ok.injEq]
    constructor
    · rintro rfl
      constructor
    · rintro ⟨⟩
      rfl

theorem becomes_fill (c : Column) : c.Becomes c.unfilled c.fill := by
  rw [unfilled, fill]
  cases c.nullable with
  | true => exact .null
  | false =>
    cases hc : c.logicalType with
    | string => exact .text (by simp [hc]) (by simp [hc])
    | int => exact .wholeNumber hc (by simp [Json.Number.toRat?]) (by norm_num) (by norm_num)
    | float => exact .number (by simp [hc])
    | other => exact .null

end TableLoad.Column
