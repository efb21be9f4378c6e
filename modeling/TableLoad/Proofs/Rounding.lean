import TableLoad.Proofs.Magnitude

namespace TableLoad

namespace Binary64

/-- Nearer than every other magnitude, or as near as another one and even. -/
def Nearest (a : ℚ) (code : ℕ) : Prop :=
  ∀ k, k ≠ code → |a - magnitude code| < |a - magnitude k| ∨
    |a - magnitude code| = |a - magnitude k| ∧ Even code

section Rounding

variable {a : ℚ} {code num den : ℕ}

theorem nearest_below (hlow : magnitude code ≤ a) (hhigh : a ≤ magnitude (code + 1))
    (h : a - magnitude code < magnitude (code + 1) - a ∨
      a - magnitude code = magnitude (code + 1) - a ∧ Even code) : Nearest a code := by
  intro k hk
  rw [abs_of_nonneg (sub_nonneg.mpr hlow)]
  rcases lt_or_gt_of_ne hk with hlt | hgt
  · have hmag : magnitude k < magnitude code := magnitude_strictMono hlt
    rw [abs_of_nonneg (by linarith)]
    left
    linarith
  · have hmag : magnitude (code + 1) ≤ magnitude k := magnitude_strictMono.monotone hgt
    rw [abs_of_nonpos (by linarith)]
    rcases h with h | ⟨h, heven⟩
    · left
      linarith
    · have hle : a - magnitude code ≤ -(a - magnitude k) := by linarith
      exact hle.lt_or_eq.imp id fun heq => ⟨heq, heven⟩

theorem nearest_above (hlow : magnitude code ≤ a) (hhigh : a ≤ magnitude (code + 1))
    (h : magnitude (code + 1) - a < a - magnitude code ∨
      magnitude (code + 1) - a = a - magnitude code ∧ Even (code + 1)) : Nearest a (code + 1) := by
  intro k hk
  rw [abs_of_nonpos (sub_nonpos.mpr hhigh)]
  rcases lt_or_gt_of_ne hk with hlt | hgt
  · have hmag : magnitude k ≤ magnitude code :=
      magnitude_strictMono.monotone (Nat.lt_succ_iff.mp hlt)
    rw [abs_of_nonneg (by linarith)]
    rcases h with h | ⟨h, heven⟩
    · left
      linarith
    · have hle : -(a - magnitude (code + 1)) ≤ a - magnitude k := by linarith
      exact hle.lt_or_eq.imp id fun heq => ⟨heq, heven⟩
  · have hmag : magnitude (code + 1) < magnitude k := magnitude_strictMono hgt
    rw [abs_of_nonpos (by linarith)]
    left
    linarith

theorem quotient_bounds (n den : ℕ) : n / (den <<< (Nat.log2 (n / den) - 52)) < 2 * binade ∧
    (Nat.log2 (n / den) - 52 = 0 ∨ binade ≤ n / (den <<< (Nat.log2 (n / den) - 52))) := by
  rw [Nat.shiftLeft_eq, ← Nat.div_div_eq_div_mul]
  generalize n / den = m
  have hbinade : binade = 2 ^ 52 := rfl
  constructor
  · rw [Nat.div_lt_iff_lt_mul (Nat.two_pow_pos _), hbinade, ← pow_succ', ← pow_add]
    exact Nat.lt_log2_self.trans_le (Nat.pow_le_pow_right two_pos (by omega))
  · rw [or_iff_not_imp_left]
    intro he
    have hm : m ≠ 0 := by
      rintro rfl
      exact he rfl
    rw [Nat.le_div_iff_mul_le (Nat.two_pow_pos _), hbinade, ← pow_add]
    exact (Nat.pow_le_pow_right two_pos (by omega)).trans (Nat.log2_self_le hm)

theorem roundDiv_eq (n d : ℕ) : roundDiv n d =
    if 2 * (n % d) > d ∨ 2 * (n % d) = d ∧ n / d % 2 = 1 then n / d + 1 else n / d := by
  simp only [roundDiv, Bool.or_eq_true, Bool.and_eq_true, decide_eq_true_eq, beq_iff_eq]

/-- What a quotient leaves over below it, and what it lacks to the next multiple. -/
theorem quotient_between {num den q r step unit : ℚ} (hden : 0 < den) (hunit : 0 < unit)
    (h : den * step * q + r = num * unit) :
    num / den - q * step / unit = r / (den * unit) ∧
      (q + 1) * step / unit - num / den = (den * step - r) / (den * unit) := by
  constructor
  · rw [div_sub_div _ _ hden.ne' hunit.ne', ← h]
    ring
  · rw [div_sub_div _ _ hunit.ne' hden.ne', mul_comm unit den, mul_comm unit num, ← h]
    ring

/-- What is left over below and what is lacked above decide, in steps of the same size. -/
theorem nearest_of_remainder {r d : ℕ} {size : ℚ} (hsize : 0 < size) (hrest : r < d)
    (hbelow : a - magnitude code = r / size) (habove : magnitude (code + 1) - a = (d - r) / size) :
    Nearest a (if 2 * r > d ∨ 2 * r = d ∧ code % 2 = 1 then code + 1 else code) := by
  have hrestCast : (r : ℚ) < d := by exact_mod_cast hrest
  have hlow : magnitude code ≤ a := by
    rw [← sub_nonneg, hbelow]
    exact div_nonneg r.cast_nonneg hsize.le
  have hhigh : a ≤ magnitude (code + 1) := by
    rw [← sub_nonneg, habove]
    exact div_nonneg (by linarith) hsize.le
  split
  · next hup =>
    apply nearest_above hlow hhigh
    rw [hbelow, habove, div_lt_div_iff_of_pos_right hsize, div_left_inj' hsize.ne', Nat.even_iff]
    rcases hup with hup | ⟨hup, hodd⟩
    · left
      have hcast : (2 : ℚ) * r > d := by exact_mod_cast hup
      linarith
    · right
      have hcast : (2 : ℚ) * r = d := by exact_mod_cast hup
      exact ⟨by linarith, by omega⟩
  · next hdown =>
    rw [not_or, not_and] at hdown
    apply nearest_below hlow hhigh
    rw [hbelow, habove, div_lt_div_iff_of_pos_right hsize, div_left_inj' hsize.ne', Nat.even_iff]
    rcases (not_lt.mp hdown.1).lt_or_eq with hless | hequal
    · left
      have hcast : (2 : ℚ) * r < d := by exact_mod_cast hless
      linarith
    · right
      have hcast : (2 : ℚ) * r = d := by exact_mod_cast hequal
      have hodd := hdown.2 hequal
      exact ⟨by linarith, by omega⟩

theorem nearestCode_nearest (num : ℕ) (hden : 0 < den) :
    Nearest (num / den) (nearestCode num den) := by
  set n := num * unitsOfOne with hn
  set e := Nat.log2 (n / den) - 52 with he
  set q := n / (den <<< e) with hq
  set r := n % (den <<< e) with hr
  obtain ⟨hhigh, hlow⟩ := quotient_bounds n den
  rw [← he, ← hq] at hhigh hlow
  have hstep : den <<< e = den * 2 ^ e := Nat.shiftLeft_eq den e
  have hsplit : den * 2 ^ e * q + r = num * 2 ^ 1074 := by
    rw [← hstep, ← unitsOfOne_eq]
    exact Nat.div_add_mod n _
  have hrest : r < den * 2 ^ e := by
    rw [← hstep]
    exact Nat.mod_lt n (by rw [hstep]; positivity)
  have hbelow : magnitude (e * binade + q) = q * 2 ^ e / 2 ^ 1074 := by
    rw [magnitude_eq, units_binade hlow hhigh.le]
    norm_cast
  have habove : magnitude (e * binade + q + 1) = (q + 1) * 2 ^ e / 2 ^ 1074 := by
    rw [magnitude_eq, Nat.add_assoc,
      units_binade (hlow.imp id fun h => h.trans (Nat.le_succ q)) hhigh]
    norm_cast
  have hscaled : (den : ℚ) * 2 ^ e * q + r = num * 2 ^ 1074 := by exact_mod_cast hsplit
  have hunit : (0 : ℚ) < 2 ^ 1074 := by positivity
  have hdenCast : (0 : ℚ) < den := by exact_mod_cast hden
  obtain ⟨hfrom, hto⟩ := quotient_between hdenCast hunit hscaled
  rw [← hbelow] at hfrom
  rw [← habove] at hto
  have hnearest := nearest_of_remainder (mul_pos hdenCast hunit) hrest hfrom
    (by rw [hto]; push_cast; rfl)
  have hparity : (e * binade + q) % 2 = q % 2 := by
    unfold binade
    omega
  have hcode : nearestCode num den = e * binade +
      if 2 * r > den * 2 ^ e ∨ 2 * r = den * 2 ^ e ∧ q % 2 = 1 then q + 1 else q := by
    rw [← hstep, hq, hr, ← roundDiv_eq]
    rfl
  rw [hparity] at hnearest
  rw [hcode]
  split
  · next hup =>
    rw [if_pos hup] at hnearest
    rw [← Nat.add_assoc]
    exact hnearest
  · next hdown =>
    rw [if_neg hdown] at hnearest
    exact hnearest

theorem magnitude_infinite : magnitude 0x7FF0000000000000 = 2 ^ 1024 := by
  have h := magnitude_whole 972 0 (by norm_num)
  rw [Nat.cast_zero, add_zero, add_zero, ← pow_add] at h
  exact h

theorem magnitude_largest : magnitude 0x7FEFFFFFFFFFFFFF = 2 ^ 1024 - 2 ^ 971 := by
  have h := magnitude_whole 971 (2 ^ 52 - 1) (by norm_num)
  have hsignificand : (2 : ℚ) ^ 52 + (2 ^ 52 - 1 : ℕ) = 2 ^ 53 - 1 := by norm_num
  rw [hsignificand, sub_mul, one_mul, ← pow_add] at h
  exact h

/-- Half a step past the largest finite magnitude. -/
def overflow : ℚ := 2 ^ 1024 - 2 ^ 970

theorem overflow_between :
    2 * overflow = magnitude 0x7FEFFFFFFFFFFFFF + magnitude 0x7FF0000000000000 := by
  have hdouble : (2 : ℚ) ^ 971 = 2 * 2 ^ 970 := pow_succ' 2 970
  rw [overflow, magnitude_infinite, magnitude_largest, hdouble]
  ring

theorem Nearest.finite_iff (h : Nearest a code) : code < 0x7FF0000000000000 ↔ a < overflow := by
  have hstep : magnitude 0x7FEFFFFFFFFFFFFF < magnitude 0x7FF0000000000000 :=
    magnitude_strictMono (by norm_num)
  have hmiddle := overflow_between
  constructor
  · intro hcode
    by_contra ha
    have hlow : magnitude code ≤ magnitude 0x7FEFFFFFFFFFFFFF :=
      magnitude_strictMono.monotone (by omega)
    have hfar : |a - magnitude 0x7FF0000000000000| ≤ |a - magnitude code| := by
      rw [abs_le, abs_of_nonneg (by linarith)]
      constructor <;> linarith
    rcases h _ hcode.ne' with hlt | ⟨heq, heven⟩
    · exact absurd hfar hlt.not_ge
    · have hdistance : |a - magnitude code| = a - magnitude code := abs_of_nonneg (by linarith)
      have hsame : magnitude code = magnitude 0x7FEFFFFFFFFFFFFF := by
        rcases abs_cases (a - magnitude 0x7FF0000000000000) with ⟨habs, -⟩ | ⟨habs, -⟩ <;> linarith
      have hodd := magnitude_strictMono.injective hsame
      rw [hodd, Nat.even_iff] at heven
      norm_num at heven
  · intro ha
    by_contra hcode
    have hhigh : magnitude 0x7FF0000000000000 ≤ magnitude code :=
      magnitude_strictMono.monotone (not_lt.mp hcode)
    have hnear : |a - magnitude 0x7FEFFFFFFFFFFFFF| < |a - magnitude code| := by
      rw [abs_lt, abs_of_nonpos (by linarith : a - magnitude code ≤ 0)]
      constructor <;> linarith
    rcases h 0x7FEFFFFFFFFFFFFF (by omega) with hlt | ⟨heq, -⟩
    · exact absurd hlt hnear.not_gt
    · exact absurd heq hnear.ne'

end Rounding

/-- The float that correct rounding gives for a sign and a magnitude: of the finite ones of this
sign the nearest, of two as near the even one, and infinity from `overflow` on. -/
def RoundsTo (negative : Bool) (a : ℚ) (x : Binary64) : Prop :=
  if a < overflow then
    ∃ code h, x = finite negative code h ∧ ∀ k < 0x7FF0000000000000, k ≠ code →
      |a - magnitude code| < |a - magnitude k| ∨
        |a - magnitude code| = |a - magnitude k| ∧ Even code
  else x = infinity negative

section Results

variable {negative : Bool} {a : ℚ} {x y : Binary64} {code : ℕ}

theorem Nearest.roundsTo (h : Nearest a code) (hcode : code < 0x7FF0000000000000) :
    RoundsTo negative a (finite negative code hcode) := by
  rw [RoundsTo, if_pos (h.finite_iff.mp hcode)]
  exact ⟨code, hcode, rfl, fun k _ hk => h k hk⟩

theorem RoundsTo.isFinite (h : RoundsTo negative a x) (ha : a < overflow) : x.isFinite = true := by
  rw [RoundsTo, if_pos ha] at h
  obtain ⟨code, hcode, rfl, -⟩ := h
  rfl

theorem ofRatio_roundsTo (negative : Bool) (num : ℕ) {den : ℕ} (hden : 0 < den) :
    RoundsTo negative (num / den) (ofRatio negative num den) := by
  have hnearest := nearestCode_nearest num hden
  rw [ofRatio]
  split
  · next hcode => exact hnearest.roundsTo hcode
  · next hcode => rw [RoundsTo, if_neg (hnearest.finite_iff.not.mp hcode)]

theorem nearest_zero (h : 0 ≤ a) (hsmall : a < magnitude 1 - a) : Nearest a 0 := by
  refine nearest_below ?_ ?_ (.inl ?_)
  · rw [magnitude_zero]
    exact h
  · linarith
  · rw [magnitude_zero, sub_zero]
    exact hsmall

theorem zero_roundsTo (negative : Bool) (h : 0 ≤ a) (hsmall : a < magnitude 1 - a) :
    RoundsTo negative a (zero negative) :=
  (nearest_zero h hsmall).roundsTo _

theorem magnitude_one : magnitude 1 = 2 ^ (-1074 : ℤ) := by
  rw [magnitude, if_pos (by norm_num)]
  norm_num

theorem two_pow_le : (2 : ℚ) ^ 1200 ≤ 10 ^ 400 :=
  calc (2 : ℚ) ^ 1200 = (2 ^ 3) ^ 400 := pow_mul 2 3 400
    _ ≤ 10 ^ 400 := pow_le_pow_left₀ (by norm_num) (by norm_num) 400

theorem overflow_le : overflow ≤ 10 ^ 400 := by
  have hpos : (0 : ℚ) < 2 ^ 970 := by positivity
  calc overflow ≤ 2 ^ 1024 := sub_le_self _ hpos.le
    _ ≤ 2 ^ 1200 := pow_le_pow_right₀ one_le_two (by norm_num)
    _ ≤ 10 ^ 400 := two_pow_le

theorem small_lt (coefficient : ℕ) {exponent : ℤ}
    (h : exponent < -(400 + (Nat.log2 coefficient : ℤ))) :
    coefficient * (10 : ℚ) ^ exponent < 2 ^ (-1075 : ℤ) := by
  have hcoefficient : (coefficient : ℚ) < 10 ^ ((Nat.log2 coefficient : ℤ) + 1) := by
    have htwo : (coefficient : ℚ) < 2 ^ (Nat.log2 coefficient + 1) := by
      exact_mod_cast Nat.lt_log2_self
    have hten : (2 : ℚ) ^ (Nat.log2 coefficient + 1) ≤ 10 ^ (Nat.log2 coefficient + 1) :=
      pow_le_pow_left₀ (by norm_num) (by norm_num) _
    exact_mod_cast htwo.trans_le hten
  have hexponent : (0 : ℚ) < 10 ^ exponent := by positivity
  calc coefficient * (10 : ℚ) ^ exponent
      < 10 ^ ((Nat.log2 coefficient : ℤ) + 1) * 10 ^ exponent := by gcongr
    _ = 10 ^ ((Nat.log2 coefficient : ℤ) + 1 + exponent) := (zpow_add₀ (by norm_num) _ _).symm
    _ ≤ 10 ^ (-(400 : ℕ) : ℤ) := zpow_le_zpow_right₀ (by norm_num) (by omega)
    _ = (10 ^ 400)⁻¹ := by rw [zpow_neg, zpow_natCast]
    _ ≤ (2 ^ 1200)⁻¹ := inv_anti₀ (by positivity) two_pow_le
    _ = 2 ^ (-(1200 : ℕ) : ℤ) := by rw [zpow_neg, zpow_natCast]
    _ ≤ 2 ^ (-1075 : ℤ) := zpow_le_zpow_right₀ one_le_two (by norm_num)

theorem ofDecimal_roundsTo (negative : Bool) (coefficient : ℕ) (exponent : ℤ) :
    RoundsTo negative (coefficient * 10 ^ exponent) (ofDecimal negative coefficient exponent) := by
  have hunit : magnitude 1 = 2 * 2 ^ (-1075 : ℤ) := by
    rw [magnitude_one, ← zpow_one_add₀ two_ne_zero]
    rfl
  have hhalf : (0 : ℚ) < 2 ^ (-1075 : ℤ) := by positivity
  rw [ofDecimal]
  split
  · next hzero =>
    rw [hzero, Nat.cast_zero, zero_mul]
    exact zero_roundsTo negative le_rfl (by rw [hunit]; linarith)
  split
  · next hzero hlarge =>
    have hone : (1 : ℚ) ≤ coefficient := by exact_mod_cast Nat.pos_of_ne_zero hzero
    have hten : (10 : ℚ) ^ (400 : ℤ) ≤ 10 ^ exponent :=
      zpow_le_zpow_right₀ (by norm_num) (by omega)
    have hover : overflow ≤ coefficient * 10 ^ exponent :=
      calc overflow ≤ 10 ^ (400 : ℤ) := by exact_mod_cast overflow_le
        _ ≤ 10 ^ exponent := hten
        _ ≤ coefficient * 10 ^ exponent := le_mul_of_one_le_left (by positivity) hone
    rw [RoundsTo, if_neg hover.not_gt]
  split
  · next hsmall =>
    have hlt := small_lt coefficient hsmall
    exact zero_roundsTo negative (by positivity) (by rw [hunit]; linarith)
  split
  · next hnonneg =>
    obtain ⟨n, rfl⟩ := Int.eq_ofNat_of_zero_le hnonneg
    have h := ofRatio_roundsTo negative (coefficient * 10 ^ n) one_pos
    rw [Nat.cast_mul, Nat.cast_pow, Nat.cast_one, div_one] at h
    rw [zpow_natCast]
    exact h
  · next hneg =>
    obtain ⟨n, hn⟩ := Int.eq_ofNat_of_zero_le (by omega : 0 ≤ -exponent)
    have hexponent : exponent = -n := by omega
    have h := ofRatio_roundsTo negative coefficient (Nat.pow_pos (n := n) (by norm_num : 0 < 10))
    rw [Nat.cast_pow] at h
    rw [hn, hexponent, zpow_neg, zpow_natCast, ← div_eq_mul_inv]
    exact h

theorem between_nearer {other : ℕ} (hapart : code + 1 < other)
    (heq : |a - magnitude code| = |a - magnitude other|) :
    |a - magnitude (code + 1)| < |a - magnitude code| := by
  have hfrom : magnitude code < magnitude (code + 1) := magnitude_strictMono (Nat.lt_succ_self code)
  have hto : magnitude (code + 1) < magnitude other := magnitude_strictMono hapart
  rcases abs_cases (a - magnitude code) with ⟨hcode, hfromSign⟩ | ⟨hcode, hfromSign⟩ <;>
    rcases abs_cases (a - magnitude other) with ⟨hother, htoSign⟩ | ⟨hother, htoSign⟩ <;>
    rw [hcode, hother] at heq
  · linarith
  · rw [hcode, abs_lt]
    constructor <;> linarith
  · linarith
  · linarith

/-- Correct rounding has one result. -/
theorem RoundsTo.unique (hx : RoundsTo negative a x) (hy : RoundsTo negative a y) : x = y := by
  rw [RoundsTo] at hx hy
  split at hx
  · next ha =>
    rw [if_pos ha] at hy
    obtain ⟨code, hcode, rfl, hx⟩ := hx
    obtain ⟨other, hother, rfl, hy⟩ := hy
    suffices hsame : code = other by
      subst hsame
      rfl
    by_contra hne
    wlog hlt : code < other generalizing code other
    · exact this other hother hy code hcode hx (Ne.symm hne)
        (lt_of_le_of_ne (not_lt.mp hlt) (Ne.symm hne))
    rcases hx other hother (Ne.symm hne) with hless | ⟨heq, heven⟩ <;>
      rcases hy code hcode hne with hmore | ⟨hequal, hevenOther⟩
    · exact absurd hless hmore.not_gt
    · exact absurd hequal hless.ne'
    · exact absurd heq hmore.ne'
    · rw [Nat.even_iff] at heven hevenOther
      have hnearer := between_nearer (by omega : code + 1 < other) heq
      rcases hx (code + 1) (by omega) (Nat.succ_ne_self code) with hless | ⟨hequal, -⟩
      · exact absurd hless hnearer.not_gt
      · exact absurd hequal hnearer.ne'
  · next ha =>
    rw [if_neg ha] at hy
    rw [hx, hy]

theorem nearest_self (code : ℕ) : Nearest (magnitude code) code := by
  intro k hk
  left
  rw [sub_self, abs_zero, abs_pos, sub_ne_zero]
  exact magnitude_strictMono.injective.ne hk.symm

/-- A magnitude of the format is rounded to itself. -/
theorem RoundsTo.of_magnitude (hx : RoundsTo negative (magnitude code) x)
    (hcode : code < 0x7FF0000000000000) : x = finite negative code hcode :=
  hx.unique ((nearest_self code).roundsTo hcode)

theorem ofInt_roundsTo (i : ℤ) : RoundsTo (i < 0) i.natAbs (ofInt i) := by
  have h := ofRatio_roundsTo (i < 0) i.natAbs one_pos
  rw [Nat.cast_one, div_one] at h
  exact h

end Results

end Binary64

end TableLoad
