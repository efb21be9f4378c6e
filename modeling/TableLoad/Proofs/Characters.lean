import TableLoad.Text.Blank
import TableLoad.Text.DecimalDigit
import Mathlib

namespace TableLoad

variable {c : Char}

theorem isDigit_bounds : c.isDigit = true ↔ 48 ≤ c.toNat ∧ c.toNat ≤ 57 := by
  simp only [Char.isDigit, Bool.and_eq_true, decide_eq_true_eq, ge_iff_le, UInt32.le_iff_toNat_le]
  rfl

theorem isAlpha_bounds : c.isAlpha = true ↔
    65 ≤ c.toNat ∧ c.toNat ≤ 90 ∨ 97 ≤ c.toNat ∧ c.toNat ≤ 122 := by
  simp only [Char.isAlpha, Char.isUpper, Char.isLower, Bool.or_eq_true, Bool.and_eq_true,
    decide_eq_true_eq, ge_iff_le, UInt32.le_iff_toNat_le]
  rfl

theorem not_isAlpha_of_isDigit (h : c.isDigit = true) : c.isAlpha = false := by
  rw [isDigit_bounds] at h
  rw [Bool.eq_false_iff, ne_eq, isAlpha_bounds]
  omega

theorem isBlank_bounds (h : Text.isBlank c = true) :
    c.toNat ≤ 32 ∨ c.toNat = 0x85 ∨ c.toNat = 0xA0 ∨ c.toNat = 0x1680 ∨
      0x2000 ≤ c.toNat ∧ c.toNat ≤ 0x205F ∨ c.toNat = 0x3000 := by
  simp only [Text.isBlank, Bool.or_eq_true, Bool.and_eq_true, decide_eq_true_eq, beq_iff_eq] at h
  omega

theorem not_isBlank_of_isAlphanum (h : c.isAlphanum = true) : Text.isBlank c = false := by
  rw [Char.isAlphanum, Bool.or_eq_true, isAlpha_bounds, isDigit_bounds] at h
  rw [Bool.eq_false_iff]
  intro hblank
  have hrange := isBlank_bounds hblank
  omega

theorem isDecimalDigit_bounds (h : Text.isDecimalDigit c = true) :
    48 ≤ c.toNat ∧ c.toNat ≤ 57 ∨ 0x660 ≤ c.toNat ∧ c.toNat < 0x1680 ∨
      0x1680 < c.toNat ∧ c.toNat < 0x2000 ∨ 0x3000 < c.toNat := by
  have hruns : ∀ run ∈ Text.decimalDigitRuns, run = (48, 10) ∨
      0x660 ≤ run.1 ∧ run.1 + run.2 ≤ 0x1680 ∨ 0x1680 < run.1 ∧ run.1 + run.2 ≤ 0x2000 ∨
        0x3000 < run.1 := by
    decide
  obtain ⟨⟨first, count⟩, hmem, hrange⟩ := List.any_eq_true.mp h
  have hrun := hruns _ hmem
  simp only [Bool.and_eq_true, decide_eq_true_eq, Prod.mk.injEq] at hrange hrun
  omega

theorem not_isDecimalDigit_of_isBlank (h : Text.isBlank c = true) :
    Text.isDecimalDigit c = false := by
  rw [Bool.eq_false_iff]
  intro hdigit
  have hblank := isBlank_bounds h
  have hrange := isDecimalDigit_bounds hdigit
  omega

end TableLoad
