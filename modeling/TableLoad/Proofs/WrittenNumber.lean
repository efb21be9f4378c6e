import TableLoad.Number.Written
import TableLoad.Proofs.Characters
import TableLoad.Proofs.Rounding
import TableLoad.Proofs.Splitting

namespace TableLoad

inductive Sign
  | none | plus | minus
deriving DecidableEq, Repr

namespace Sign

def chars : Sign → List Char
  | none => []
  | plus => ['+']
  | minus => ['-']

def negative : Sign → Bool
  | minus => true
  | _ => false

end Sign

/-- A whole number as it is written: a sign and digits. -/
structure WrittenInteger where
  sign : Sign
  digits : List Char
  digits_ne : digits ≠ []
  all_digits : ∀ d ∈ digits, d.isDigit = true

namespace WrittenInteger

def chars (w : WrittenInteger) : List Char :=
  w.sign.chars ++ w.digits

def text (w : WrittenInteger) : String :=
  String.ofList w.chars

def value (w : WrittenInteger) : ℤ :=
  if w.sign.negative then -(Nat.ofDigitChars 10 w.digits 0 : ℤ) else Nat.ofDigitChars 10 w.digits 0

end WrittenInteger

section Signs

variable {cs : List Char}

theorem not_sign_of_isDigit {c : Char} (h : c.isDigit = true) : c ≠ '+' ∧ c ≠ '-' := by
  constructor <;> rintro rfl <;> exact absurd h (by decide)

theorem splitSign_chars (sign : Sign) (h : ∀ c ∈ cs.head?, c ≠ '+' ∧ c ≠ '-') :
    splitSign (sign.chars ++ cs) = (sign.negative, cs) := by
  cases sign with
  | plus => rfl
  | minus => rfl
  | none =>
    cases cs with
    | nil => rfl
    | cons c cs =>
      obtain ⟨hplus, hminus⟩ := h c rfl
      rw [Sign.chars, List.nil_append, splitSign]
      · rfl
      · rintro rest ⟨⟩
        exact hplus rfl
      · rintro rest ⟨⟩
        exact hminus rfl

theorem exists_sign (cs : List Char) :
    ∃ sign : Sign, ∃ body, cs = sign.chars ++ body ∧ splitSign cs = (sign.negative, body) := by
  rcases cs with _ | ⟨c, cs⟩
  · exact ⟨.none, [], rfl, rfl⟩
  · by_cases hplus : c = '+'
    · exact ⟨.plus, cs, by rw [hplus]; rfl, by rw [hplus]; rfl⟩
    · by_cases hminus : c = '-'
      · exact ⟨.minus, cs, by rw [hminus]; rfl, by rw [hminus]; rfl⟩
      · refine ⟨.none, c :: cs, rfl, ?_⟩
        exact splitSign_chars .none fun d hd => by
          obtain rfl : c = d := by simpa using hd
          exact ⟨hplus, hminus⟩

theorem digitsValue_eq (ds : List Char) : digitsValue ds = Nat.ofDigitChars 10 ds 0 := by
  rw [digitsValue, Nat.ofDigitChars_eq_foldl]
  simp only [Nat.mul_comm]

theorem takeWhile_digits {ds : List Char} (h : ∀ d ∈ ds, d.isDigit = true) :
    ds.takeWhile Char.isDigit = ds := by
  rw [List.takeWhile_eq_self_iff]
  exact h

theorem head_digit {ds : List Char} (h : ∀ d ∈ ds, d.isDigit = true) :
    ∀ c ∈ ds.head?, c ≠ '+' ∧ c ≠ '-' :=
  fun c hc => not_sign_of_isDigit (h c (List.mem_of_mem_head? hc))

end Signs

namespace WrittenInteger

variable (w : WrittenInteger)

theorem splitSign_chars : splitSign w.chars = (w.sign.negative, w.digits) :=
  TableLoad.splitSign_chars w.sign (head_digit w.all_digits)

theorem chars_ne_nil : w.chars ≠ [] := by
  intro hnil
  exact w.digits_ne (List.append_eq_nil_iff.mp hnil).2

theorem parse_text (hlow : -2 ^ 63 ≤ w.value) (hhigh : w.value < 2 ^ 63) :
    IntegerText.parse w.text = .ok w.value := by
  have hdigits : w.digits.isEmpty = false := by simpa using w.digits_ne
  have htake := takeWhile_digits w.all_digits
  unfold IntegerText.parse
  rw [text, String.toList_ofList]
  split
  · next hnil => exact absurd hnil w.chars_ne_nil
  · rw [w.splitSign_chars]
    rw [value] at hlow hhigh ⊢
    simp only [htake, hdigits, digitsValue_eq, lt_irrefl, decide_false, Bool.or_self]
    split
    · next hminus =>
      rw [if_pos hminus] at hlow
      rw [if_neg (by omega)]
      rfl
    · next hplus =>
      rw [if_neg hplus] at hhigh
      rw [if_neg (by omega)]
      rfl

/-- The decimal text of an integer. -/
def ofInt (i : ℤ) : WrittenInteger where
  sign := if i < 0 then .minus else .none
  digits := Nat.toDigits 10 i.natAbs
  digits_ne := Nat.toDigits_ne_nil
  all_digits _ hd := Nat.isDigit_of_mem_toDigits (by norm_num) le_rfl hd

theorem text_ofInt (i : ℤ) : (ofInt i).text = toString i := by
  apply String.toList_injective
  rw [text, String.toList_ofList, chars]
  cases i with
  | ofNat n =>
    have hprinted : toString (Int.ofNat n) = n.repr := rfl
    have hsign : ¬Int.ofNat n < 0 := (Int.natCast_nonneg n).not_gt
    rw [hprinted, Nat.toList_repr, ofInt, if_neg hsign]
    rfl
  | negSucc n =>
    have hprinted : toString (Int.negSucc n) = "-" ++ (n + 1).repr := rfl
    rw [hprinted, String.toList_append, Nat.toList_repr, ofInt, if_pos (by omega)]
    rfl

theorem value_ofInt (i : ℤ) : (ofInt i).value = i := by
  have hdigits : Nat.ofDigitChars 10 (ofInt i).digits 0 = i.natAbs :=
    Nat.ofDigitChars_ten_toDigits
  have hsign : (ofInt i).sign.negative = decide (i < 0) := by
    rw [ofInt]
    by_cases hi : i < 0 <;> simp [hi, Sign.negative]
  rw [value, hdigits, hsign]
  split
  · next hi =>
    have hneg := of_decide_eq_true hi
    omega
  · next hi =>
    have hnonneg := of_decide_eq_false (Bool.eq_false_iff.mpr hi)
    omega

end WrittenInteger

namespace IntegerText

variable {s : String} {i : ℤ}

theorem whole_body {body : List Char} (h : ¬((body.takeWhile Char.isDigit).isEmpty ||
    decide ((body.takeWhile Char.isDigit).length < body.length)) = true) :
    body ≠ [] ∧ body.takeWhile Char.isDigit = body := by
  rw [Bool.or_eq_true, decide_eq_true_eq, not_or, not_lt] at h
  have htake : body.takeWhile Char.isDigit = body :=
    (List.takeWhile_prefix _).eq_of_length_le h.2
  rw [htake, List.isEmpty_iff] at h
  exact ⟨h.1, htake⟩

theorem written_of_parse (h : parse s = .ok i) :
    ∃ w : WrittenInteger, w.text = s ∧ w.value = i ∧ -2 ^ 63 ≤ i ∧ i < 2 ^ 63 := by
  obtain ⟨sign, body, hchars, hsplit⟩ := exists_sign s.toList
  have hwritten (hne : body ≠ []) (htake : body.takeWhile Char.isDigit = body) :
      ∃ w : WrittenInteger, w.text = s ∧ w.sign = sign ∧ w.digits = body :=
    ⟨⟨sign, body, hne, List.takeWhile_eq_self_iff.mp htake⟩,
      by rw [WrittenInteger.text, WrittenInteger.chars, ← hchars, String.ofList_toList], rfl, rfl⟩
  unfold parse at h
  split at h
  · cases h
  rw [hsplit] at h
  simp only [digitsValue_eq] at h
  split at h
  · next hminus =>
    split at h
    · cases h
    next hrange =>
    split at h
    · cases h
    next hfull =>
    obtain ⟨hne, htake⟩ := whole_body hfull
    obtain ⟨w, hw, rfl, rfl⟩ := hwritten hne htake
    cases h
    rw [htake] at hrange ⊢
    refine ⟨w, hw, ?_, by omega, by omega⟩
    rw [WrittenInteger.value, if_pos hminus]
  · next hplus =>
    split at h
    · cases h
    next hrange =>
    split at h
    · cases h
    next hfull =>
    obtain ⟨hne, htake⟩ := whole_body hfull
    obtain ⟨w, hw, rfl, rfl⟩ := hwritten hne htake
    cases h
    rw [htake] at hrange ⊢
    refine ⟨w, hw, ?_, by omega, by omega⟩
    rw [WrittenInteger.value, if_neg hplus]

/-- The reader takes the integers of 64 signed bits that are written so, and no other text. -/
theorem parse_eq_ok : parse s = .ok i ↔
    (∃ w : WrittenInteger, w.text = s ∧ w.value = i) ∧ -2 ^ 63 ≤ i ∧ i < 2 ^ 63 := by
  constructor
  · intro h
    obtain ⟨w, htext, hvalue, hrange⟩ := written_of_parse h
    exact ⟨⟨w, htext, hvalue⟩, hrange⟩
  · rintro ⟨⟨w, rfl, rfl⟩, hlow, hhigh⟩
    exact w.parse_text hlow hhigh

end IntegerText

/-- `e` and a whole number: the power of ten behind a decimal. -/
structure WrittenExponent where
  letter : Char
  power : WrittenInteger
  letter_e : letter = 'e' ∨ letter = 'E'

/-- A decimal as it is written: a sign, digits with a point among them or at either end, and an
exponent. -/
structure WrittenDecimal where
  sign : Sign
  whole : List Char
  /-- What stands behind the point; none where there is no point. -/
  fraction : Option (List Char)
  exponent : Option WrittenExponent
  all_digits : ∀ d ∈ whole ++ fraction.getD [], d.isDigit = true
  some_digit : whole ++ fraction.getD [] ≠ []

namespace WrittenDecimal

def pointChars : Option (List Char) → List Char
  | none => []
  | some ds => '.' :: ds

def exponentChars : Option WrittenExponent → List Char
  | none => []
  | some x => x.letter :: x.power.chars

def power : Option WrittenExponent → ℤ
  | none => 0
  | some x => x.power.value

/-- What stands behind the sign. -/
def body (d : WrittenDecimal) : List Char :=
  d.whole ++ (pointChars d.fraction ++ exponentChars d.exponent)

def chars (d : WrittenDecimal) : List Char :=
  d.sign.chars ++ d.body

def text (d : WrittenDecimal) : String :=
  String.ofList d.chars

def magnitude (d : WrittenDecimal) : ℚ :=
  (Nat.ofDigitChars 10 d.whole 0 +
    Nat.ofDigitChars 10 (d.fraction.getD []) 0 / 10 ^ (d.fraction.getD []).length) *
      10 ^ power d.exponent

variable (d : WrittenDecimal)

/-- The digits taken together are a whole number, and the point is a power of ten. -/
theorem magnitude_eq : d.magnitude =
    (Nat.ofDigitChars 10 (d.whole ++ d.fraction.getD []) 0 : ℕ) *
      10 ^ (power d.exponent - (d.fraction.getD []).length) := by
  have hjoined : Nat.ofDigitChars 10 (d.whole ++ d.fraction.getD []) 0 =
      10 ^ (d.fraction.getD []).length * Nat.ofDigitChars 10 d.whole 0 +
        Nat.ofDigitChars 10 (d.fraction.getD []) 0 := by
    rw [Nat.ofDigitChars_append]
    exact Nat.ofDigitChars_eq_ofDigitChars_zero
  rw [magnitude, hjoined, zpow_sub₀ (by norm_num), zpow_natCast]
  push_cast
  field_simp

theorem whole_digits : ∀ c ∈ d.whole, c.isDigit = true :=
  fun c hc => d.all_digits c (List.mem_append_left _ hc)

theorem fraction_digits : ∀ c ∈ d.fraction.getD [], c.isDigit = true :=
  fun c hc => d.all_digits c (List.mem_append_right _ hc)

theorem exponentChars_head (x : Option WrittenExponent) :
    ∀ c ∈ (exponentChars x).head?, c.isDigit = false ∧ c ≠ '.' := by
  intro c hc
  cases x with
  | none => cases hc
  | some x =>
    cases hc
    rcases x.letter_e with h | h <;> rw [h] <;> decide

theorem exists_digit : ∃ c ∈ d.body, c.isDigit = true := by
  obtain ⟨c, hc⟩ := List.exists_mem_of_ne_nil _ d.some_digit
  refine ⟨c, ?_, d.all_digits c hc⟩
  rw [body, List.mem_append, List.mem_append]
  refine (List.mem_append.mp hc).imp id fun hc => .inl ?_
  cases hfraction : d.fraction with
  | none =>
    rw [hfraction] at hc
    cases hc
  | some ds =>
    rw [hfraction] at hc
    exact List.mem_cons_of_mem _ hc

theorem body_head : ∀ c ∈ d.body.head?, c.isDigit = true ∨ c = '.' := by
  intro c hc
  have hsome := d.some_digit
  rw [body] at hc
  cases hwhole : d.whole with
  | cons first rest =>
    rw [hwhole] at hc
    obtain rfl : first = c := by simpa using hc
    exact .inl (d.whole_digits first (by rw [hwhole]; exact List.mem_cons_self))
  | nil =>
    rw [hwhole] at hc hsome
    cases hfraction : d.fraction with
    | none =>
      rw [hfraction] at hsome
      exact absurd rfl hsome
    | some ds =>
      rw [hfraction] at hc
      cases hc
      exact .inr rfl

theorem splitSign_chars : splitSign d.chars = (d.sign.negative, d.body) := by
  refine TableLoad.splitSign_chars d.sign fun c hc => ?_
  rcases d.body_head c hc with hdigit | rfl
  · exact not_sign_of_isDigit hdigit
  · decide

end WrittenDecimal

/-- A value that is spelled out: a sign, and a word in letters of either case. -/
structure SpelledFloat where
  sign : Sign
  word : List Char
  word_spelled : word.map Char.toLower ∈ ["nan".toList, "inf".toList, "infinity".toList]

namespace SpelledFloat

def chars (w : SpelledFloat) : List Char :=
  w.sign.chars ++ w.word

def text (w : SpelledFloat) : String :=
  String.ofList w.chars

def value (w : SpelledFloat) : Binary64 :=
  if w.word.map Char.toLower = "nan".toList then .nan else .infinity w.sign.negative

variable (w : SpelledFloat)

theorem letters : ∀ c ∈ w.word, c.isAlpha = true := by
  intro c hc
  have hspelled : ∀ word ∈ ["nan".toList, "inf".toList, "infinity".toList],
      ∀ letter ∈ word, letter.isAlpha = true := by
    simp
  have hlower := hspelled _ w.word_spelled c.toLower (List.mem_map_of_mem hc)
  rwa [Char.isAlpha_toLower_eq_isAlpha] at hlower

theorem word_ne_nil : w.word ≠ [] := by
  intro hnil
  have hspelled := w.word_spelled
  rw [hnil] at hspelled
  exact absurd hspelled (by decide)

theorem not_sign_of_isAlpha {c : Char} (h : c.isAlpha = true) : c ≠ '+' ∧ c ≠ '-' := by
  constructor <;> rintro rfl <;> exact absurd h (by decide)

theorem splitSign_chars : splitSign w.chars = (w.sign.negative, w.word) :=
  TableLoad.splitSign_chars w.sign fun c hc =>
    not_sign_of_isAlpha (w.letters c (List.mem_of_mem_head? hc))

end SpelledFloat

namespace FloatText

open WrittenDecimal (exponentChars pointChars power)

variable {cs : List Char}

theorem exponent?_chars (x : Option WrittenExponent) :
    exponent? (exponentChars x) = some (power x) := by
  cases x with
  | none => rfl
  | some x =>
    have hdigits : x.power.digits.isEmpty = false := by simpa using x.power.digits_ne
    have hall : x.power.digits.all Char.isDigit = true := List.all_eq_true.mpr x.power.all_digits
    rw [exponentChars, exponent?, if_pos (by simpa using x.letter_e), x.power.splitSign_chars]
    simp only [hdigits, hall, digitsValue_eq]
    rfl

theorem exists_exponent {e : ℤ} (h : exponent? cs = some e) :
    ∃ x, exponentChars x = cs ∧ power x = e := by
  rcases cs with _ | ⟨letter, cs⟩
  · cases h
    exact ⟨none, rfl, rfl⟩
  · rw [exponent?] at h
    split at h
    · next hletter =>
      obtain ⟨sign, body, rfl, hsplit⟩ := exists_sign cs
      rw [hsplit] at h
      simp only [digitsValue_eq] at h
      split at h
      · cases h
      · next hdigits =>
        rw [Bool.or_eq_true, not_or, List.isEmpty_iff, Bool.not_eq_true', Bool.not_eq_false,
          List.all_eq_true] at hdigits
        refine ⟨some ⟨letter, ⟨sign, body, hdigits.1, hdigits.2⟩, by simpa using hletter⟩, rfl, ?_⟩
        exact Option.some.inj h
    · cases h

theorem digits_not_empty {whole fraction : List Char} (h : whole ++ fraction ≠ []) :
    (whole.isEmpty && fraction.isEmpty) = false := by
  rw [Bool.eq_false_iff, ne_eq, Bool.and_eq_true, List.isEmpty_iff, List.isEmpty_iff]
  rintro ⟨rfl, rfl⟩
  exact h rfl

theorem decimal?_body (d : WrittenDecimal) : decimal? d.body =
    some (Nat.ofDigitChars 10 (d.whole ++ d.fraction.getD []) 0,
      power d.exponent - (d.fraction.getD []).length) := by
  have hempty := digits_not_empty d.some_digit
  have hfractionDigits := d.fraction_digits
  have hend := WrittenDecimal.exponentChars_head d.exponent
  rw [WrittenDecimal.body, decimal?]
  cases hfraction : d.fraction with
  | none =>
    rw [hfraction] at hempty
    obtain ⟨htake, hdrop⟩ := takeWhile_run d.whole_digits _ fun c hc => (hend c hc).1
    simp only [pointChars, List.nil_append, htake, hdrop]
    split
    · next hmore => exact absurd rfl (hend '.' (by rw [hmore]; rfl)).2
    · rw [Option.getD_none] at hempty
      simp only [hempty, exponent?_chars, digitsValue_eq]
      rfl
  | some ds =>
    rw [hfraction, Option.getD_some] at hempty hfractionDigits
    obtain ⟨htake, hdrop⟩ := takeWhile_run d.whole_digits ('.' :: (ds ++ exponentChars d.exponent))
      fun c hc => by cases hc; rfl
    obtain ⟨htakePoint, hdropPoint⟩ := takeWhile_run hfractionDigits _ fun c hc => (hend c hc).1
    simp only [pointChars, List.cons_append, htake, hdrop, htakePoint, hdropPoint, hempty,
      exponent?_chars, digitsValue_eq]
    rfl

theorem digits_some {whole fraction : List Char}
    (h : ¬(whole.isEmpty && fraction.isEmpty) = true) : whole ++ fraction ≠ [] := by
  intro hnil
  obtain ⟨rfl, rfl⟩ := List.append_eq_nil_iff.mp hnil
  exact h rfl

theorem exists_decimal (sign : Sign) {m : ℕ} {e : ℤ} (h : decimal? cs = some (m, e)) :
    ∃ d : WrittenDecimal, d.sign = sign ∧ d.body = cs ∧
      m = Nat.ofDigitChars 10 (d.whole ++ d.fraction.getD []) 0 ∧
      e = power d.exponent - (d.fraction.getD []).length := by
  have hdigits (cs : List Char) : ∀ c ∈ cs.takeWhile Char.isDigit, c.isDigit = true :=
    fun _ hc => List.mem_takeWhile_imp hc
  have hsplit : cs.takeWhile Char.isDigit ++ cs.dropWhile Char.isDigit = cs :=
    List.takeWhile_append_dropWhile
  rw [decimal?] at h
  simp only [digitsValue_eq] at h
  split at h
  · next behind more hbehind =>
    rw [hbehind] at hsplit
    simp only at h
    split at h
    · cases h
    next hsome =>
    obtain ⟨exponent, hexponent, hvalue⟩ := Option.bind_eq_some_iff.mp h
    obtain ⟨x, hx, rfl⟩ := exists_exponent hexponent
    cases hvalue
    have hall := List.forall_mem_append.mpr ⟨hdigits cs, hdigits more⟩
    refine ⟨⟨sign, cs.takeWhile Char.isDigit, some (more.takeWhile Char.isDigit), x, hall,
      digits_some hsome⟩, rfl, ?_, rfl, rfl⟩
    rw [WrittenDecimal.body, hx, pointChars, List.cons_append, List.takeWhile_append_dropWhile]
    exact hsplit
  · simp only at h
    split at h
    · cases h
    next hsome =>
    obtain ⟨exponent, hexponent, hvalue⟩ := Option.bind_eq_some_iff.mp h
    obtain ⟨x, hx, rfl⟩ := exists_exponent hexponent
    cases hvalue
    have hall := List.forall_mem_append.mpr ⟨hdigits cs, List.forall_mem_nil _⟩
    refine ⟨⟨sign, cs.takeWhile Char.isDigit, none, x, hall, digits_some hsome⟩, rfl, ?_, rfl, rfl⟩
    rw [WrittenDecimal.body, hx]
    exact hsplit

theorem spelled?_word (w : SpelledFloat) : spelled? w.sign.negative w.word = some w.value := by
  rw [spelled?, SpelledFloat.value]
  rcases List.mem_cons.mp w.word_spelled with hnan | hinfinite
  · rw [hnan]
    rfl
  · rcases List.mem_pair.mp hinfinite with hword | hword <;> rw [hword] <;> rfl

theorem exists_spelled (sign : Sign) {x : Binary64} (h : spelled? sign.negative cs = some x) :
    ∃ w : SpelledFloat, w.sign = sign ∧ w.word = cs ∧ w.value = x := by
  have hword : cs.map Char.toLower ∈ ["nan".toList, "inf".toList, "infinity".toList] := by
    rw [spelled?] at h
    by_contra hother
    simp only [List.mem_cons, List.not_mem_nil, or_false, not_or] at hother
    have hne (word : String) (hne : cs.map Char.toLower ≠ word.toList) :
        String.ofList (cs.map Char.toLower) ≠ word := by
      rintro rfl
      exact hne String.toList_ofList.symm
    simp only [hne _ hother.1, hne _ hother.2.1, hne _ hother.2.2] at h
    cases h
  refine ⟨⟨sign, cs, hword⟩, rfl, rfl, ?_⟩
  exact Option.some.inj ((spelled?_word ⟨sign, cs, hword⟩).symm.trans h)

/-- A decimal has a digit, and the words that are spelled out have letters only. -/
theorem spelled?_body (d : WrittenDecimal) : spelled? d.sign.negative d.body = none := by
  rw [Option.eq_none_iff_forall_ne_some]
  intro x hx
  obtain ⟨w, -, hword, -⟩ := exists_spelled d.sign hx
  obtain ⟨c, hc, hdigit⟩ := d.exists_digit
  have halpha := w.letters c (hword ▸ hc)
  rw [not_isAlpha_of_isDigit hdigit] at halpha
  cases halpha

variable {s : String} {x : Binary64}

theorem read_spelled (w : SpelledFloat) : read w.text = .ok w.value := by
  rw [read, SpelledFloat.text, String.toList_ofList]
  split
  · next hnil => exact absurd (List.append_eq_nil_iff.mp hnil).2 w.word_ne_nil
  · rw [w.splitSign_chars]
    simp only [spelled?_word]

theorem read_decimal (d : WrittenDecimal) : ∃ (coefficient : ℕ) (exponent : ℤ),
    d.magnitude = coefficient * 10 ^ exponent ∧
      read d.text = .ok (.ofDecimal d.sign.negative coefficient exponent) := by
  refine ⟨_, _, d.magnitude_eq, ?_⟩
  rw [read, WrittenDecimal.text, String.toList_ofList]
  split
  · next hnil =>
    obtain ⟨c, hc, -⟩ := d.exists_digit
    rw [(List.append_eq_nil_iff.mp hnil).2] at hc
    cases hc
  · rw [d.splitSign_chars]
    simp only [spelled?_body, decimal?_body]

theorem written_of_read (h : read s = .ok x) :
    (∃ w : SpelledFloat, w.text = s ∧ w.value = x) ∨ ∃ d : WrittenDecimal, d.text = s := by
  obtain ⟨sign, body, hchars, hsplit⟩ := exists_sign s.toList
  rw [read] at h
  split at h
  · cases h
  rw [hsplit] at h
  simp only at h
  split at h
  · next y hspelled =>
    obtain ⟨w, rfl, rfl, rfl⟩ := exists_spelled sign hspelled
    cases h
    refine .inl ⟨w, ?_, rfl⟩
    rw [SpelledFloat.text, SpelledFloat.chars, ← hchars, String.ofList_toList]
  split at h
  · cases h
  next coefficient exponent hdecimal =>
  obtain ⟨d, rfl, rfl, -⟩ := exists_decimal sign hdecimal
  exact .inr ⟨d, by rw [WrittenDecimal.text, WrittenDecimal.chars, ← hchars, String.ofList_toList]⟩

end FloatText

end TableLoad
