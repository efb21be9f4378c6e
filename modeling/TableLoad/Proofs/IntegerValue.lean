import TableLoad.Coercion
import TableLoad.Proofs.WrittenNumber

namespace TableLoad

/-- The number that a JSON number is. -/
def Json.Number.toRat? : Json.Number → Option ℚ
  | .int i => some i
  | .float x => x.toRat?

/-- The number that a value is. -/
def Value.toRat? : Value → Option ℚ
  | .int i => some i
  | .float x => x.toRat?
  | _ => none

section Narrowing

variable {x : Binary64} {n : Json.Number} {i : ℤ}

theorem fitsInt_iff : Value.fitsInt i = true ↔ -2 ^ 63 ≤ i ∧ i < 2 ^ 63 := by
  rw [Value.fitsInt, Bool.and_eq_true, decide_eq_true_eq, decide_eq_true_eq]
  norm_num

theorem magnitude_limit : Binary64.magnitude 0x43E0000000000000 = 2 ^ 63 := by
  have h := Binary64.magnitude_whole 11 0 (by norm_num)
  rw [Nat.cast_zero, add_zero, add_zero, ← pow_add] at h
  exact h

theorem toRat_lower : (Binary64.ofInt (-0x8000000000000000)).toRat? = some (-2 ^ 63) := by
  have hcode : Binary64.ofInt (-0x8000000000000000) =
      .finite true 0x43E0000000000000 (by norm_num) := by
    decide +kernel
  rw [hcode, Binary64.toRat?, if_pos rfl, magnitude_limit]

theorem toRat_upper : (Binary64.ofInt 0x8000000000000000).toRat? = some (2 ^ 63) := by
  have hcode : Binary64.ofInt 0x8000000000000000 =
      .finite false 0x43E0000000000000 (by norm_num) := by
    decide +kernel
  rw [hcode, Binary64.toRat?, if_neg Bool.false_ne_true, magnitude_limit]

theorem isFinite_of_toRat {a : ℚ} (h : x.toRat? = some a) : x.isFinite = true := by
  cases x with
  | finite => rfl
  | nan => cases h
  | infinity => cases h

theorem narrow?_of_toRat (h : x.toRat? = some (i : ℚ)) :
    narrow? x = if -2 ^ 63 ≤ i ∧ i < 2 ^ 63 then some i else none := by
  have hlow : (-2 ^ 63 : ℚ) ≤ i ↔ -2 ^ 63 ≤ i := by exact_mod_cast Iff.rfl
  have hhigh : (i : ℚ) < 2 ^ 63 ↔ i < 2 ^ 63 := by exact_mod_cast Iff.rfl
  have hrange : (x.isFinite && (Binary64.ofInt (-0x8000000000000000)).atMost x &&
      x.lessThan (.ofInt 0x8000000000000000)) = decide (-2 ^ 63 ≤ i ∧ i < 2 ^ 63) := by
    rw [isFinite_of_toRat h, Binary64.atMost_eq toRat_lower h, Binary64.lessThan_eq h toRat_upper,
      Bool.true_and, Bool.decide_and, decide_eq_decide.mpr hlow, decide_eq_decide.mpr hhigh]
  rw [narrow?, hrange]
  by_cases hfits : -2 ^ 63 ≤ i ∧ i < 2 ^ 63
  · rw [if_pos (decide_eq_true hfits), if_pos hfits, Binary64.truncate_eq h hfits.1 hfits.2]
  · rw [if_neg (mt of_decide_eq_true hfits), if_neg hfits]

theorem integerOf_eq_ok :
    integerOf n = .ok i ↔ n.toRat? = some (i : ℚ) ∧ -2 ^ 63 ≤ i ∧ i < 2 ^ 63 := by
  cases n with
  | int j =>
    rw [integerOf, Json.Number.toRat?, Option.some.injEq, Int.cast_inj]
    constructor
    · intro h
      split at h
      · next hfits =>
        cases h
        exact ⟨rfl, fitsInt_iff.mp hfits⟩
      · cases h
    · rintro ⟨rfl, hrange⟩
      rw [if_pos (fitsInt_iff.mpr hrange)]
  | float x =>
    rw [integerOf, Json.Number.toRat?]
    constructor
    · intro h
      split at h
      · cases h
      next hwhole =>
      obtain ⟨j, hj⟩ := Binary64.hasFraction_eq_false.mp (Bool.eq_false_iff.mpr hwhole)
      rw [narrow?_of_toRat hj] at h
      split at h
      · next k hk =>
        cases h
        split at hk
        · next hrange =>
          cases hk
          exact ⟨hj, hrange⟩
        · cases hk
      · cases h
    · rintro ⟨hi, hrange⟩
      have hwhole : x.hasFraction = false := Binary64.hasFraction_eq_false.mpr ⟨i, hi⟩
      rw [hwhole, if_neg Bool.false_ne_true, narrow?_of_toRat hi, if_pos hrange]

end Narrowing

namespace Column

variable {c : Column}

theorem coerce_int_number (hc : c.logicalType = .int) (n : Json.Number) :
    c.coerce (.number n) = match integerOf n with
      | .ok i => .ok (.int i)
      | .error m => .error (.coercion c.name m.message) := by
  rw [coerce, hc, convert]
  cases integerOf n <;> rfl

theorem coerce_int_text (hc : c.logicalType = .int) (s : String) :
    c.coerce (.string s) = match IntegerText.parse s with
      | .ok i => .ok (.int i)
      | .error f => .error (.coercion c.name (Misfit.notInteger s f).message) := by
  rw [coerce, hc, convert]
  cases IntegerText.parse s <;> rfl

/-- A column of integers takes a number that is an integer of 64 signed bits, and the text of one,
as that integer, and refuses every other number and text. -/
theorem coerce_int_exact (c : Column) (hc : c.logicalType = .int) :
    (∀ n i, c.coerce (.number n) = .ok (.int i) ↔
      n.toRat? = some (i : ℚ) ∧ -2 ^ 63 ≤ i ∧ i < 2 ^ 63) ∧
    (∀ n, (∃ i, c.coerce (.number n) = .ok (.int i)) ∨
      ∃ message, c.coerce (.number n) = .error (.coercion c.name message)) ∧
    (∀ s i, c.coerce (.string s) = .ok (.int i) ↔
      (∃ w : WrittenInteger, w.text = s ∧ w.value = i) ∧ -2 ^ 63 ≤ i ∧ i < 2 ^ 63) ∧
    (∀ s, (∃ i, c.coerce (.string s) = .ok (.int i)) ∨
      ∃ message, c.coerce (.string s) = .error (.coercion c.name message)) ∧
    ∀ i : ℤ, -2 ^ 63 ≤ i → i < 2 ^ 63 → c.coerce (.string (toString i)) = .ok (.int i) ∧
      c.coerce (.number (.int i)) = .ok (.int i) := by
  have hnumber (n : Json.Number) (i : ℤ) : c.coerce (.number n) = .ok (.int i) ↔
      n.toRat? = some (i : ℚ) ∧ -2 ^ 63 ≤ i ∧ i < 2 ^ 63 := by
    rw [coerce_int_number hc, ← integerOf_eq_ok]
    cases integerOf n <;> simp
  have htext (s : String) (i : ℤ) : c.coerce (.string s) = .ok (.int i) ↔
      (∃ w : WrittenInteger, w.text = s ∧ w.value = i) ∧ -2 ^ 63 ≤ i ∧ i < 2 ^ 63 := by
    rw [coerce_int_text hc, ← IntegerText.parse_eq_ok]
    cases IntegerText.parse s <;> simp
  refine ⟨hnumber, ?_, htext, ?_, ?_⟩
  · intro n
    rw [coerce_int_number hc]
    cases integerOf n with
    | ok i => exact .inl ⟨i, rfl⟩
    | error m => exact .inr ⟨_, rfl⟩
  · intro s
    rw [coerce_int_text hc]
    cases IntegerText.parse s with
    | ok i => exact .inl ⟨i, rfl⟩
    | error f => exact .inr ⟨_, rfl⟩
  · intro i hlow hhigh
    constructor
    · exact (htext _ i).mpr
        ⟨⟨.ofInt i, WrittenInteger.text_ofInt i, WrittenInteger.value_ofInt i⟩, hlow, hhigh⟩
    · exact (hnumber _ i).mpr ⟨rfl, hlow, hhigh⟩

/-- The largest integer of 64 signed bits, which is no float, comes through as text and number. -/
theorem coerce_largest_int : (Column.declared "id" "BIGINT" false none).logicalType = .int ∧
    (Column.declared "id" "BIGINT" false none).coerce (.string "9223372036854775807") =
      .ok (.int 9223372036854775807) ∧
    (Column.declared "id" "BIGINT" false none).coerce (.number (.int 9223372036854775807)) =
      .ok (.int 9223372036854775807) := by
  have htype : (Column.declared "id" "BIGINT" false none).logicalType = .int := by decide +kernel
  exact ⟨htype, (coerce_int_exact _ htype).2.2.2.2 9223372036854775807 (by norm_num) (by norm_num)⟩

end Column

section Representable

variable {x : Binary64} {n : ℤ}

/-- From `2 ^ 63` on neighbouring floats lie at least `2 ^ 11` apart. -/
theorem dvd_of_toRat (h : x.toRat? = some (n : ℚ)) (hlow : 2 ^ 63 ≤ n) : 2048 ∣ n := by
  cases x with
  | nan => cases h
  | infinity negative => cases h
  | finite negative code hcode =>
    obtain ⟨m, hunits, hn⟩ := Binary64.units_of_toRat h
    have hm : (m : ℤ) = n := by
      split at hn <;> omega
    have hmLow : 2 ^ 63 ≤ m := by
      have hcast : (2 ^ 63 : ℤ) ≤ m := hm ▸ hlow
      exact_mod_cast hcast
    obtain ⟨e, q, rfl, hhigh, hspelled⟩ := Binary64.binade_spelled code
    rw [Binary64.units_binade hspelled hhigh.le, Binary64.unitsOfOne_eq] at hunits
    have he : 1085 ≤ e := by
      by_contra hsmall
      have hpower : 2 ^ e ≤ 2 ^ 1084 := Nat.pow_le_pow_right two_pos (by omega)
      have hless : q * 2 ^ e < 2 ^ 53 * 2 ^ 1084 :=
        Nat.mul_lt_mul_of_lt_of_le hhigh hpower (Nat.two_pow_pos 1084)
      have hmore : 2 ^ 63 * 2 ^ 1074 ≤ m * 2 ^ 1074 := Nat.mul_le_mul_right _ hmLow
      rw [hunits, ← pow_add] at hless
      rw [← pow_add] at hmore
      exact absurd hmore hless.not_ge
    obtain ⟨k, rfl⟩ := Nat.exists_eq_add_of_le he
    have hsplit : q * 2 ^ k * 2048 * 2 ^ 1074 = m * 2 ^ 1074 := by
      rw [← hunits, pow_add, show 1085 = 11 + 1074 from rfl, pow_add]
      ring
    have hproduct := Nat.eq_of_mul_eq_mul_right (Nat.two_pow_pos 1074) hsplit
    rw [← hm, ← hproduct]
    exact_mod_cast Nat.dvd_mul_left 2048 (q * 2 ^ k)

theorem toRat_of_dvd (h : x.RoundsTo false (n : ℚ)) (hlow : 2 ^ 63 ≤ n) (hhigh : n < 2 ^ 64)
    (hdvd : 2048 ∣ n) : x.toRat? = some (n : ℚ) := by
  obtain ⟨m, rfl⟩ := hdvd
  obtain ⟨fraction, hfraction⟩ := Int.eq_ofNat_of_zero_le (by omega : 0 ≤ m - 2 ^ 52)
  have hcode : (11 + 1075) * 2 ^ 52 + fraction < 0x7FF0000000000000 := by omega
  have hmagnitude : Binary64.magnitude ((11 + 1075) * 2 ^ 52 + fraction) = (2048 * m : ℤ) := by
    have hm : m = 2 ^ 52 + fraction := by omega
    rw [Binary64.magnitude_whole 11 _ (by omega), hm]
    push_cast
    ring
  rw [← hmagnitude] at h ⊢
  rw [h.of_magnitude hcode]
  rfl

end Representable

namespace Column

/-- The column refuses an integer or holds that number. -/
def Keeps (c : Column) (n : ℤ) : Prop :=
  (∃ message, c.coerce (.number (.int n)) = .error (.coercion c.name message)) ∨
    ∃ v, c.coerce (.number (.int n)) = .ok v ∧ v.toRat? = some (n : ℚ)

variable {c : Column} {n : ℤ}

theorem convert_number (t : LogicalType) (n : Json.Number) : convert t (.number n) =
    if t = .int then (integerOf n).map .int else .ok (Value.ofNumber n) := by
  cases t <;> rfl

theorem coerce_fitting (c : Column) (h : Value.fitsInt n = true) :
    c.coerce (.number (.int n)) = .ok (.int n) := by
  rw [coerce, convert_number, integerOf, Value.ofNumber, if_pos h, if_pos h]
  by_cases hc : c.logicalType = .int
  · rw [if_pos hc]
    rfl
  · rw [if_neg hc]

theorem coerce_long_int (hc : c.logicalType = .int) (h : ¬Value.fitsInt n = true) :
    c.coerce (.number (.int n)) = .error (.coercion c.name (Misfit.integerRange n).message) := by
  rw [coerce, convert_number, if_pos hc, integerOf, if_neg h]
  rfl

theorem coerce_long (hc : c.logicalType ≠ .int) (h : ¬Value.fitsInt n = true) :
    c.coerce (.number (.int n)) = .ok (.float (.ofInt n)) := by
  rw [coerce, convert_number, if_neg hc, Value.ofNumber, if_neg h]

/-- An integer stays what it is below `2 ^ 63`. From there on a column of integers refuses it, and
every other one holds the float nearest to it, which is the integer itself only where `2 ^ 11`
divides it. -/
theorem keeps_integer_iff (c : Column) {n : ℤ} (hlow : -2 ^ 63 ≤ n) (hhigh : n < 2 ^ 64) :
    (c.Keeps n ↔ n < 2 ^ 63 ∨ c.logicalType = .int ∨ 2048 ∣ n) ∧
    (n < 2 ^ 63 → c.coerce (.number (.int n)) = .ok (.int n)) ∧
    (2 ^ 63 ≤ n → c.logicalType = .int → c.coerce (.number (.int n)) =
      .error (.coercion c.name (Misfit.integerRange n).message)) ∧
    (2 ^ 63 ≤ n → c.logicalType ≠ .int → ∃ x, c.coerce (.number (.int n)) = .ok (.float x) ∧
      x.RoundsTo false n ∧ (x.toRat? = some (n : ℚ) ↔ 2048 ∣ n)) := by
  have hfits : Value.fitsInt n = true ↔ n < 2 ^ 63 :=
    fitsInt_iff.trans ⟨And.right, And.intro hlow⟩
  have hshort (h : n < 2 ^ 63) := coerce_fitting c (hfits.mpr h)
  have hint (h : 2 ^ 63 ≤ n) (hc : c.logicalType = .int) :=
    coerce_long_int hc (hfits.not.mpr h.not_gt)
  have hlong (h : 2 ^ 63 ≤ n) (hc : c.logicalType ≠ .int) :=
    coerce_long hc (hfits.not.mpr h.not_gt)
  have hrounds (h : 2 ^ 63 ≤ n) : (Binary64.ofInt n).RoundsTo false n := by
    have hsign : decide (n < 0) = false := decide_eq_false (by omega)
    have habs : (n.natAbs : ℚ) = n := by
      rw [Nat.cast_natAbs, abs_of_nonneg (by omega)]
    have hrounded := Binary64.ofInt_roundsTo n
    rwa [hsign, habs] at hrounded
  have hexact (h : 2 ^ 63 ≤ n) : (Binary64.ofInt n).toRat? = some (n : ℚ) ↔ 2048 ∣ n :=
    ⟨fun hx => dvd_of_toRat hx h, toRat_of_dvd (hrounds h) h hhigh⟩
  refine ⟨?_, hshort, hint, fun h hc => ⟨_, hlong h hc, hrounds h, hexact h⟩⟩
  rcases lt_or_ge n (2 ^ 63) with h | h
  · exact iff_of_true (.inr ⟨_, hshort h, rfl⟩) (.inl h)
  · by_cases hc : c.logicalType = .int
    · exact iff_of_true (.inl ⟨_, hint h hc⟩) (.inr (.inl hc))
    · constructor
      · rintro (⟨message, herror⟩ | ⟨v, hv, hkept⟩)
        · rw [hlong h hc] at herror
          cases herror
        · rw [hlong h hc] at hv
          cases hv
          exact .inr (.inr ((hexact h).mp hkept))
      · rintro (hless | hint | hdvd)
        · exact absurd hless h.not_gt
        · exact absurd hint hc
        · exact .inr ⟨_, hlong h hc, (hexact h).mpr hdvd⟩

theorem keeps_first_long : -2 ^ 63 ≤ (9223372036854775808 : ℤ) ∧
    (9223372036854775808 : ℤ) < 2 ^ 64 ∧
    (Column.declared "amt" "DOUBLE" true none).Keeps 9223372036854775808 := by
  have hlow : -2 ^ 63 ≤ (9223372036854775808 : ℤ) := by norm_num
  have hhigh : (9223372036854775808 : ℤ) < 2 ^ 64 := by norm_num
  exact ⟨hlow, hhigh, (keeps_integer_iff _ hlow hhigh).1.mpr (.inr (.inr (by norm_num)))⟩

/-- In a column of text the largest integer of 64 unsigned bits becomes `2 ^ 64`. -/
theorem largest_integer_changed :
    (Column.declared "note" "VARCHAR" true none).coerce (.number (.int 18446744073709551615)) =
        .ok (.float (.ofInt 18446744073709551616)) ∧
      ¬(Column.declared "note" "VARCHAR" true none).Keeps 18446744073709551615 := by
  have htype : (Column.declared "note" "VARCHAR" true none).logicalType ≠ .int := by decide +kernel
  have hlong := coerce_long htype (n := 18446744073709551615) (by decide)
  have hrounded : Binary64.ofInt 18446744073709551615 = .ofInt 18446744073709551616 := by
    decide +kernel
  refine ⟨hlong.trans (congrArg (fun x => Except.ok (Value.float x)) hrounded), ?_⟩
  rintro (⟨message, herror⟩ | ⟨v, hv, hkept⟩)
  · rw [hlong] at herror
    cases herror
  · rw [hlong] at hv
    cases hv
    rw [Value.toRat?] at hkept
    have hdvd := dvd_of_toRat hkept (by norm_num)
    norm_num at hdvd

end Column

end TableLoad
