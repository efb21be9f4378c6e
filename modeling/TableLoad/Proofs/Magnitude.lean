import TableLoad.Number.Binary64
import Mathlib

namespace TableLoad

namespace Binary64

/-- The magnitude that exponent and fraction bits spell. -/
def magnitude (code : ℕ) : ℚ :=
  let exponent : ℕ := code / 2 ^ 52
  let fraction : ℕ := code % 2 ^ 52
  if exponent = 0 then fraction * 2 ^ (-1074 : ℤ)
  else (2 ^ 52 + fraction : ℕ) * 2 ^ ((exponent : ℤ) - 1075)

/-- The number that a float stands for. -/
def toRat? : Binary64 → Option ℚ
  | finite negative code _ => some (if negative then -magnitude code else magnitude code)
  | _ => none

section Units

variable {e q code : ℕ}

theorem unitsOfOne_eq : unitsOfOne = 2 ^ 1074 := by
  simp only [unitsOfOne, Nat.shiftLeft_eq, Nat.one_mul]

/-- From a binade on the codes go up in steps of one and the units in steps of `2 ^ e`, the first
magnitude of the next binade included. -/
theorem units_binade (hlow : e = 0 ∨ binade ≤ q) (hhigh : q ≤ 2 * binade) :
    units (e * binade + q) = q * 2 ^ e := by
  by_cases hq : q = 2 * binade
  · have hdiv : (e * binade + q) / binade - 1 = e + 1 := by
      simp only [binade] at *
      omega
    have hrest : e * binade + q - (e + 1) * binade = binade := by
      simp only [binade] at *
      omega
    rw [units, doublings, hdiv, hrest, hq, Nat.shiftLeft_eq, pow_succ]
    ring
  · have hdiv : (e * binade + q) / binade - 1 = e := by
      simp only [binade] at *
      omega
    rw [units, doublings, hdiv, Nat.add_sub_cancel_left, Nat.shiftLeft_eq]

theorem binade_spelled (code : ℕ) : ∃ e q, code = e * binade + q ∧ q < 2 * binade ∧
    (e = 0 ∨ binade ≤ q) := by
  refine ⟨doublings code, code - doublings code * binade, ?_, ?_, ?_⟩ <;>
    simp only [doublings, binade] <;> omega

theorem units_lt_succ (code : ℕ) : units code < units (code + 1) := by
  obtain ⟨e, q, rfl, hhigh, hlow⟩ := binade_spelled code
  have hnext : units (e * binade + q + 1) = (q + 1) * 2 ^ e := by
    rw [Nat.add_assoc]
    exact units_binade (hlow.imp id fun h => h.trans (Nat.le_succ q)) hhigh
  rw [hnext, units_binade hlow hhigh.le]
  exact Nat.mul_lt_mul_of_pos_right (Nat.lt_succ_self q) (Nat.two_pow_pos e)

theorem units_strictMono : StrictMono units :=
  strictMono_nat_of_lt_succ units_lt_succ

theorem magnitude_eq (code : ℕ) : magnitude code = units code / 2 ^ 1074 := by
  obtain ⟨e, q, rfl, hhigh, hlow⟩ := binade_spelled code
  rw [units_binade hlow hhigh.le, magnitude]
  by_cases hq : q < binade
  · have he : e = 0 := hlow.resolve_right hq.not_ge
    have hexponent : (e * binade + q) / 2 ^ 52 = 0 := by
      unfold binade at *
      omega
    have hfraction : (e * binade + q) % 2 ^ 52 = q := by
      unfold binade at *
      omega
    rw [if_pos hexponent, hfraction, he, pow_zero, Nat.mul_one, zpow_neg, div_eq_mul_inv]
    norm_cast
  · have hexponent : (e * binade + q) / 2 ^ 52 = e + 1 := by
      unfold binade at *
      omega
    have hfraction : 2 ^ 52 + (e * binade + q) % 2 ^ 52 = q := by
      unfold binade at *
      omega
    have hpower : ((e + 1 : ℕ) : ℤ) - 1075 = e - 1074 := by
      push_cast
      ring
    rw [if_neg (by rw [hexponent]; exact Nat.succ_ne_zero e), hfraction, hexponent, hpower,
      zpow_sub₀ two_ne_zero, Nat.cast_mul, mul_div_assoc]
    norm_cast

/-- The magnitudes from `2 ^ 52` on are whole. -/
theorem magnitude_whole (e fraction : ℕ) (h : fraction < 2 ^ 52) :
    magnitude ((e + 1075) * 2 ^ 52 + fraction) = (2 ^ 52 + fraction) * 2 ^ e := by
  have hexponent : ((e + 1075) * 2 ^ 52 + fraction) / 2 ^ 52 = e + 1075 := by omega
  have hfraction : ((e + 1075) * 2 ^ 52 + fraction) % 2 ^ 52 = fraction := by omega
  have hpower : ((e + 1075 : ℕ) : ℤ) - 1075 = e := by
    push_cast
    ring
  rw [magnitude, hexponent, hfraction, if_neg (by omega), hpower, zpow_natCast,
    Nat.cast_add, Nat.cast_pow, Nat.cast_ofNat]

theorem magnitude_strictMono : StrictMono magnitude := by
  intro a b hab
  rw [magnitude_eq, magnitude_eq]
  have hunits : (units a : ℚ) < units b := by exact_mod_cast units_strictMono hab
  gcongr

theorem magnitude_nonneg (code : ℕ) : 0 ≤ magnitude code := by
  rw [magnitude_eq]
  positivity

theorem magnitude_zero : magnitude 0 = 0 := by
  rw [magnitude_eq]
  norm_num [units, doublings]

end Units

theorem magnitude_eq_nat {code n : ℕ} : magnitude code = n ↔ units code = n * unitsOfOne := by
  rw [magnitude_eq, unitsOfOne_eq, div_eq_iff (by positivity)]
  norm_cast

section Order

variable {x y : Binary64} {a b : ℚ} {i : ℤ}

/-- The number at a place of the ascending order. -/
def valueAt (rank : ℤ) : ℚ :=
  if rank < 0 then -magnitude rank.natAbs else magnitude rank.natAbs

theorem valueAt_strictMono : StrictMono valueAt := by
  intro low high hlt
  unfold valueAt
  split
  · next hlow =>
    have hpos : 0 < magnitude low.natAbs := by
      rw [← magnitude_zero]
      exact magnitude_strictMono (by omega)
    split
    · exact neg_lt_neg (magnitude_strictMono (by omega))
    · have hnonneg := magnitude_nonneg high.natAbs
      linarith
  · rw [if_neg (by omega)]
    exact magnitude_strictMono (by omega)

theorem exists_rank (h : x.toRat? = some a) : ∃ rank, x.rank? = some rank ∧ valueAt rank = a := by
  cases x with
  | nan => cases h
  | infinity negative => cases h
  | finite negative code hcode =>
    cases h
    refine ⟨_, rfl, ?_⟩
    cases negative with
    | false => simp [valueAt]
    | true =>
      rcases Nat.eq_zero_or_pos code with rfl | hpos
      · simp [valueAt, magnitude_zero]
      · simp [valueAt, hpos]

theorem lessThan_eq (hx : x.toRat? = some a) (hy : y.toRat? = some b) :
    x.lessThan y = decide (a < b) := by
  obtain ⟨rank, hrank, rfl⟩ := exists_rank hx
  obtain ⟨other, hother, rfl⟩ := exists_rank hy
  rw [lessThan, hrank, hother]
  exact decide_eq_decide.mpr valueAt_strictMono.lt_iff_lt.symm

theorem atMost_eq (hx : x.toRat? = some a) (hy : y.toRat? = some b) :
    x.atMost y = decide (a ≤ b) := by
  obtain ⟨rank, hrank, rfl⟩ := exists_rank hx
  obtain ⟨other, hother, rfl⟩ := exists_rank hy
  rw [atMost, hrank, hother]
  exact decide_eq_decide.mpr valueAt_strictMono.le_iff_le.symm

theorem toRat_whole {negative : Bool} {code n : ℕ} (hcode : code < 0x7FF0000000000000)
    (h : units code = n * unitsOfOne) :
    (finite negative code hcode).toRat? = some ((if negative then -(n : ℤ) else n : ℤ) : ℚ) := by
  rw [toRat?, magnitude_eq_nat.mpr h]
  cases negative <;> simp

theorem units_of_toRat {negative : Bool} {code : ℕ} {hcode : code < 0x7FF0000000000000}
    (h : (finite negative code hcode).toRat? = some (i : ℚ)) :
    ∃ n : ℕ, units code = n * unitsOfOne ∧ i = if negative then -(n : ℤ) else n := by
  rw [toRat?, Option.some.injEq] at h
  have hnonneg := magnitude_nonneg code
  refine ⟨i.natAbs, magnitude_eq_nat.mp ?_, ?_⟩
  · rw [Nat.cast_natAbs, Int.cast_abs, ← h]
    cases negative <;> simp [hnonneg, abs_of_nonneg]
  · cases negative with
    | false =>
      have hi : (0 : ℚ) ≤ i := h ▸ hnonneg
      have hsign : 0 ≤ i := by exact_mod_cast hi
      rw [if_neg Bool.false_ne_true]
      omega
    | true =>
      have hi : (i : ℚ) ≤ 0 := by
        rw [← h]
        simpa using hnonneg
      have hsign : i ≤ 0 := by exact_mod_cast hi
      rw [if_pos rfl]
      omega

theorem hasFraction_eq_false : x.hasFraction = false ↔ ∃ i : ℤ, x.toRat? = some (i : ℚ) := by
  cases x with
  | nan => simp [hasFraction, toRat?]
  | infinity negative => simp [hasFraction, toRat?]
  | finite negative code hcode =>
    rw [hasFraction, bne_eq_false_iff_eq]
    constructor
    · intro h
      obtain ⟨n, hn⟩ := Nat.dvd_of_mod_eq_zero h
      exact ⟨_, toRat_whole hcode (hn.trans (Nat.mul_comm _ _))⟩
    · rintro ⟨i, hi⟩
      obtain ⟨n, hn, -⟩ := units_of_toRat hi
      rw [hn, Nat.mul_mod_left]

/-- A whole number in the range of 64 signed bits is truncated to itself. -/
theorem truncate_eq (h : x.toRat? = some (i : ℚ)) (hlow : -2 ^ 63 ≤ i) (hhigh : i < 2 ^ 63) :
    x.truncate = i := by
  cases x with
  | nan => cases h
  | infinity negative => cases h
  | finite negative code hcode =>
    obtain ⟨n, hn, hi⟩ := units_of_toRat h
    have hpos : 0 < unitsOfOne := by
      rw [unitsOfOne_eq]
      positivity
    rw [truncate, hn, Nat.mul_div_cancel n hpos, ← hi]
    omega

end Order

end Binary64

end TableLoad
