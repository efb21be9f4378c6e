import TableLoad.Column.LiteralDefault
import TableLoad.Proofs.Characters
import TableLoad.Proofs.Splitting

open scoped Computability

namespace TableLoad.LiteralDefault

open Text (isBlank isDecimalDigit)

section Patterns

def one (p : Char → Bool) : Language Char :=
  {w | ∃ c, w = [c] ∧ p c = true}

def many (p : Char → Bool) : Language Char :=
  {w | ∀ c ∈ w, p c = true}

def run (p : Char → Bool) : Language Char :=
  {w | w ≠ [] ∧ ∀ c ∈ w, p c = true}

def char (c : Char) : Language Char :=
  {[c]}

def maybe (l : Language Char) : Language Char :=
  1 + l

/-- A word in whatever case it is written. -/
def word (w : String) : Language Char :=
  {cs | cs.map fold = w.toList}

/-- `[^']|''` -/
def quotedPiece : Language Char :=
  one (· != '\'') + char '\'' * char '\''

/-- `'(?:[^']|'')*'` -/
def quotation : Language Char :=
  char '\'' * (quotedPiece∗ * char '\'')

/-- `\d+\.?\d*|\.\d+` -/
def mantissa : Language Char :=
  run isDecimalDigit * (maybe (char '.') * many isDecimalDigit) + char '.' * run isDecimalDigit

/-- `(?:e[+-]?\d+)?` -/
def exponent : Language Char :=
  maybe (word "e" * (maybe (one isSign) * run isDecimalDigit))

/-- `[+-]?(?:\d+\.?\d*|\.\d+)(?:e[+-]?\d+)?` -/
def number : Language Char :=
  maybe (one isSign) * (mantissa * exponent)

/-- `'(?:[^']|'')*'|[+-]?(?:\d+\.?\d*|\.\d+)(?:e[+-]?\d+)?|null|true|false` -/
def literal : Language Char :=
  quotation + (number + (word "null" + (word "true" + word "false")))

end Patterns

section Members

variable {c : Char} {w v cs rest : List Char} {p : Char → Bool} {l : Language Char}

theorem mem_kstar : w ∈ l∗ ↔ w = [] ∨ ∃ u ∈ l, ∃ v ∈ l∗, u ++ v = w := by
  rw [← Language.one_add_self_mul_kstar_eq_kstar, Language.mem_add, Language.mem_one,
    Language.one_add_self_mul_kstar_eq_kstar, Language.mem_mul]

theorem append_mem_kstar (hv : v ∈ l) (hw : w ∈ l∗) : v ++ w ∈ l∗ :=
  mem_kstar.mpr (.inr ⟨v, hv, w, hw, rfl⟩)

/-- A text of a repetition is empty, or one piece and a text of it. -/
theorem kstar_induction {motive : List Char → Prop} (nil : motive [])
    (append : ∀ v w, v ∈ l → motive w → motive (v ++ w)) : ∀ w ∈ l∗, motive w := by
  intro w hw
  obtain ⟨pieces, rfl, hpieces⟩ := Language.mem_kstar.mp hw
  clear hw
  induction pieces with
  | nil => exact nil
  | cons v pieces ih =>
    rw [List.forall_mem_cons] at hpieces
    exact append v pieces.flatten hpieces.1 (ih hpieces.2)

theorem head_append {P : Char → Prop} (hw : ∀ c ∈ w, P c) (hrest : ∀ c ∈ rest.head?, P c) :
    ∀ c ∈ (w ++ rest).head?, P c := by
  cases w with
  | nil => exact hrest
  | cons d w =>
    intro c hc
    cases hc
    exact hw d List.mem_cons_self

theorem forall_head {P : Char → Prop} (h : ∃ c ∈ cs.head?, P c) : ∀ c ∈ cs.head?, P c := by
  obtain ⟨c, hc, hP⟩ := h
  intro d hd
  obtain rfl : c = d := Option.some.inj (hc.symm.trans hd)
  exact hP

theorem many_append {p : Char → Bool} {u v : List Char} (hu : u ∈ many p) (hv : v ∈ many p) :
    u ++ v ∈ many p :=
  List.forall_mem_append.mpr ⟨hu, hv⟩

theorem run_many {p q : Char → Bool} {u : List Char} (hu : u ∈ run p)
    (h : ∀ c, p c = true → q c = true) : u ∈ many q :=
  fun c hc => h c (hu.2 c hc)

theorem takeWhile_mem_many (p : Char → Bool) (cs : List Char) : cs.takeWhile p ∈ many p :=
  fun _ hc => List.mem_takeWhile_imp hc

/-- A run of characters that may be empty ends where the text goes on with another character. -/
theorem dropWhile_many (hw : w ∈ many p) (hrest : ∀ c ∈ rest.head?, p c = false) :
    (w ++ rest).dropWhile p = rest :=
  (takeWhile_run hw rest hrest).2

theorem run_head (hw : w ∈ run p) (rest : List Char) : ∃ c ∈ (w ++ rest).head?, p c = true := by
  obtain ⟨hne, hall⟩ := hw
  obtain ⟨c, w, rfl⟩ := List.exists_cons_of_ne_nil hne
  exact ⟨c, rfl, hall c List.mem_cons_self⟩

theorem takeWhile_mem_run (h : cs.head?.any p = true) : cs.takeWhile p ∈ run p := by
  refine ⟨?_, takeWhile_mem_many p cs⟩
  cases cs with
  | nil => cases h
  | cons c cs =>
    have hc : p c = true := by simpa using h
    rw [List.takeWhile_cons, if_pos hc]
    exact List.cons_ne_nil _ _

end Members

section Letters

variable {c : Char}

theorem isLower_fold : (fold c).isLower = true ↔ c.isAlpha = true ∨ c = 'ſ' ∨ c = '\u212A' := by
  rw [fold]
  split
  · next hs => simp [hs]
  · next hs =>
    split
    · next hk => simp [hk]
    · next hk => simp [hs, hk]

theorem letter_bounds (h : (fold c).isLower = true) : 65 ≤ c.toNat ∧ c.toNat ≤ 90 ∨
    97 ≤ c.toNat ∧ c.toNat ≤ 122 ∨ c.toNat = 0x17F ∨ c.toNat = 0x212A := by
  rcases isLower_fold.mp h with halpha | rfl | rfl
  · rw [isAlpha_bounds] at halpha
    omega
  · decide
  · decide

theorem isBlank_not_letter (h : isBlank c = true) : (fold c).isLower = false := by
  have hrange := isBlank_bounds h
  rw [Bool.eq_false_iff]
  intro hletter
  have hletters := letter_bounds hletter
  omega

theorem isDecimalDigit_not_letter (h : isDecimalDigit c = true) : (fold c).isLower = false := by
  have hrange := isDecimalDigit_bounds h
  rw [Bool.eq_false_iff]
  intro hletter
  have hletters := letter_bounds hletter
  omega

theorem letter_not_number (h : (fold c).isLower = true) :
    isSign c = false ∧ isDecimalDigit c = false ∧ c ≠ '.' := by
  refine ⟨?_, ?_, ?_⟩
  · rw [Bool.eq_false_iff, isSign, ne_eq, Bool.or_eq_true, beq_iff_eq, beq_iff_eq]
    rintro (rfl | rfl) <;> exact absurd h (by decide)
  · rw [Bool.eq_false_iff]
    intro hdigit
    rw [isDecimalDigit_not_letter hdigit] at h
    cases h
  · rintro rfl
    exact absurd h (by decide)

theorem isDecimalDigit_not_sign (h : isDecimalDigit c = true) : isSign c = false := by
  have hrange := isDecimalDigit_bounds h
  rw [Bool.eq_false_iff, isSign, ne_eq, Bool.or_eq_true, beq_iff_eq, beq_iff_eq]
  rintro (rfl | rfl) <;> exact absurd hrange (by decide)

theorem isTypeStart_not_blank (h : isTypeStart c = true) : isBlank c = false := by
  rw [Bool.eq_false_iff]
  intro hblank
  rw [isTypeStart, isBlank_not_letter hblank, Bool.false_or, beq_iff_eq] at h
  rw [h] at hblank
  exact absurd hblank (by decide)

theorem isTypeStart_not_number (h : isTypeStart c = true) :
    isSign c = false ∧ isDecimalDigit c = false ∧ c ≠ '.' := by
  rw [isTypeStart, Bool.or_eq_true, beq_iff_eq] at h
  rcases h with hletter | rfl
  · exact letter_not_number hletter
  · decide

/-- A character that a literal can begin with. -/
def isStart (c : Char) : Bool :=
  c == '\'' || c == '.' || isSign c || isDecimalDigit c || (fold c).isLower

theorem isStart_cases (h : isStart c = true) : c = '\'' ∨ c = '.' ∨ c = '+' ∨ c = '-' ∨
    isDecimalDigit c = true ∨ (fold c).isLower = true := by
  simpa [isStart, isSign, or_assoc] using h

theorem isStart_not_blank (h : isStart c = true) : isBlank c = false := by
  rcases isStart_cases h with rfl | rfl | rfl | rfl | hdigit | hletter
  iterate 4 decide
  · rw [Bool.eq_false_iff]
    intro hblank
    rw [not_isDecimalDigit_of_isBlank hblank] at hdigit
    cases hdigit
  · rw [Bool.eq_false_iff]
    intro hblank
    rw [isBlank_not_letter hblank] at hletter
    cases hletter

/-- A character that can follow a literal. -/
def isEnd (c : Char) : Bool :=
  isBlank c || c == ')' || c == ':'

theorem isEnd_not_digit (h : isEnd c = true) : isDecimalDigit c = false := by
  simp only [isEnd, Bool.or_eq_true, beq_iff_eq] at h
  rcases h with (hblank | rfl) | rfl
  · exact not_isDecimalDigit_of_isBlank hblank
  · decide
  · decide

theorem isEnd_not_letter (h : isEnd c = true) : (fold c).isLower = false := by
  simp only [isEnd, Bool.or_eq_true, beq_iff_eq] at h
  rcases h with (hblank | rfl) | rfl
  · exact isBlank_not_letter hblank
  · decide
  · decide

end Letters

section Recognisers

variable {c : Char} {w cs rest ws : List Char}

theorem afterChar?_eq_some : afterChar? c cs = some rest ↔ c :: rest = cs := by
  cases cs with
  | nil => simp [afterChar?]
  | cons d cs =>
    rw [afterChar?]
    split
    · next h => simp [h, eq_comm]
    · next h => simp [Ne.symm h]

theorem afterChar?_self (c : Char) (cs : List Char) : afterChar? c (c :: cs) = some cs :=
  afterChar?_eq_some.mpr rfl

theorem afterChar?_of_head (h : ∀ d ∈ cs.head?, d ≠ c) : afterChar? c cs = none := by
  cases cs with
  | nil => rfl
  | cons d cs => rw [afterChar?, if_neg (h d rfl)]

/-- A word is taken off letter by letter, as long as the letters agree. -/
theorem afterWord?_eq_some :
    afterWord? ws cs = some rest ↔ ∃ w, w.map fold = ws ∧ w ++ rest = cs := by
  induction ws generalizing cs with
  | nil => simp [afterWord?, eq_comm]
  | cons letter ws ih =>
    cases cs with
    | nil => simp [afterWord?]
    | cons c cs =>
      rw [afterWord?]
      split
      · next hc =>
        rw [ih]
        constructor
        · rintro ⟨w, rfl, rfl⟩
          exact ⟨c :: w, by rw [List.map_cons, hc], rfl⟩
        · rintro ⟨w, hw, hcs⟩
          obtain ⟨d, w, rfl, -, rfl⟩ := List.map_eq_cons_iff.mp hw
          exact ⟨w, rfl, (List.cons.inj hcs).2⟩
      · next hc =>
        simp only [reduceCtorEq, false_iff, not_exists, not_and]
        intro w hw hcs
        obtain ⟨d, w, rfl, hd, -⟩ := List.map_eq_cons_iff.mp hw
        obtain ⟨rfl, -⟩ := List.cons.inj hcs
        exact hc hd

theorem skipBlanks_split (cs : List Char) : ∃ w ∈ many isBlank, w ++ skipBlanks cs = cs :=
  ⟨cs.takeWhile isBlank, takeWhile_mem_many _ _, List.takeWhile_append_dropWhile⟩

theorem skipChar_split (c : Char) (cs : List Char) :
    ∃ w ∈ maybe (char c), w ++ skipChar c cs = cs := by
  rw [skipChar]
  cases h : afterChar? c cs with
  | none => exact ⟨[], .inl rfl, rfl⟩
  | some rest => exact ⟨[c], .inr rfl, afterChar?_eq_some.mp h⟩

theorem skipChar_maybe (hw : w ∈ maybe (char c)) (hrest : ∀ d ∈ rest.head?, d ≠ c) :
    skipChar c (w ++ rest) = rest := by
  rcases hw with rfl | rfl
  · rw [List.nil_append, skipChar, afterChar?_of_head hrest, Option.getD_none]
  · rw [List.singleton_append, skipChar, afterChar?_self, Option.getD_some]

theorem skipSign_split (cs : List Char) : ∃ w ∈ maybe (one isSign), w ++ skipSign cs = cs := by
  cases cs with
  | nil => exact ⟨[], .inl rfl, rfl⟩
  | cons c cs =>
    rw [skipSign]
    split
    · next h => exact ⟨[c], .inr ⟨c, rfl, h⟩, rfl⟩
    · next h => exact ⟨[], .inl rfl, rfl⟩

theorem skipSign_maybe (hw : w ∈ maybe (one isSign)) (hrest : ∀ d ∈ rest.head?, isSign d = false) :
    skipSign (w ++ rest) = rest := by
  rcases hw with rfl | ⟨c, rfl, hc⟩
  · cases rest with
    | nil => rfl
    | cons d rest => rw [List.nil_append, skipSign, hrest d rfl, if_neg Bool.false_ne_true]
  · rw [List.singleton_append, skipSign, if_pos hc]

end Recognisers

section Quotations

variable {w cs rest : List Char}

theorem quotation_end (h : afterQuoted? cs = some rest) :
    ∃ w ∈ quotedPiece∗ * char '\'', w ++ rest = cs := by
  have extend {v w : List Char} (hv : v ∈ quotedPiece) (hw : w ∈ quotedPiece∗ * char '\'') :
      v ++ w ∈ quotedPiece∗ * char '\'' := by
    obtain ⟨pieces, hpieces, close, hclose, rfl⟩ := hw
    exact ⟨v ++ pieces, append_mem_kstar hv hpieces, close, hclose, List.append_assoc _ _ _⟩
  fun_induction afterQuoted? cs with
  | case1 => cases h
  | case2 cs ih =>
    obtain ⟨w, hw, rfl⟩ := ih h
    exact ⟨['\'', '\''] ++ w, extend (.inr ⟨['\''], rfl, ['\''], rfl, rfl⟩) hw, rfl⟩
  | case3 cs _ =>
    cases h
    exact ⟨['\''], ⟨[], Language.nil_mem_kstar _, ['\''], rfl, rfl⟩, rfl⟩
  | case4 c cs _ hc ih =>
    obtain ⟨w, hw, rfl⟩ := ih h
    exact ⟨[c] ++ w, extend (.inl ⟨c, rfl, by simpa using hc⟩) hw, rfl⟩

theorem afterQuoted?_end (hw : w ∈ quotedPiece∗ * char '\'')
    (hrest : ∀ c ∈ rest.head?, c ≠ '\'') : afterQuoted? (w ++ rest) = some rest := by
  obtain ⟨pieces, hpieces, _, rfl, rfl⟩ := hw
  rw [List.append_assoc]
  revert pieces
  apply kstar_induction
  · rw [List.nil_append, List.singleton_append, afterQuoted?]
    rintro cs rfl
    exact hrest '\'' rfl rfl
  · rintro v w (⟨c, rfl, hc⟩ | ⟨_, rfl, _, rfl, rfl⟩) ih
    · rw [List.append_assoc, List.singleton_append, afterQuoted?, ih]
      · rintro cs rfl
        exact absurd hc (by decide)
      · rintro rfl
        exact absurd hc (by decide)
    · exact ih

end Quotations

section Numbers

variable {w cs rest : List Char}

theorem skipExponent_split (cs : List Char) : ∃ w ∈ exponent, w ++ skipExponent cs = cs := by
  cases cs with
  | nil => exact ⟨[], .inl rfl, rfl⟩
  | cons c cs =>
    simp only [skipExponent]
    split
    · next h =>
      rw [Bool.and_eq_true, decide_eq_true_eq] at h
      obtain ⟨sign, hsign, hcs⟩ := skipSign_split cs
      have hletter : [c] ∈ word "e" := by
        change [fold c] = _
        rw [h.1]
        rfl
      refine ⟨[c] ++ (sign ++ (skipSign cs).takeWhile isDecimalDigit),
        .inr (Language.append_mem_mul hletter
          (Language.append_mem_mul hsign (takeWhile_mem_run h.2))), ?_⟩
      rw [List.append_assoc, List.append_assoc, List.takeWhile_append_dropWhile, hcs]
      rfl
    · exact ⟨[], .inl rfl, rfl⟩

theorem skipExponent_exponent (hw : w ∈ exponent) (hrest : ∀ c ∈ rest.head?, isEnd c = true) :
    skipExponent (w ++ rest) = rest := by
  rcases hw with rfl | ⟨letter, hletter, _, ⟨sign, hsign, digits, hdigits, rfl⟩, rfl⟩
  · cases rest with
    | nil => rfl
    | cons c rest =>
      have hc : fold c ≠ 'e' := by
        intro hfold
        have hnot := isEnd_not_letter (hrest c rfl)
        rw [hfold] at hnot
        cases hnot
      simp [skipExponent, hc]
  · obtain ⟨c, rfl, hc⟩ : ∃ c, letter = [c] ∧ fold c = 'e' := by
      obtain ⟨c, _, rfl, hc, hnil⟩ := List.map_eq_cons_iff.mp hletter
      exact ⟨c, by rw [List.map_eq_nil_iff.mp hnil], hc⟩
    obtain ⟨d, hd, hdigit⟩ := run_head hdigits rest
    have hskip : skipSign (sign ++ digits ++ rest) = digits ++ rest := by
      rw [List.append_assoc]
      apply skipSign_maybe hsign
      intro d hd
      exact isDecimalDigit_not_sign (forall_head (run_head hdigits rest) d hd)
    have hdrop : (digits ++ rest).dropWhile isDecimalDigit = rest :=
      dropWhile_many hdigits.2 fun c hc => isEnd_not_digit (hrest c hc)
    rw [List.append_assoc, List.singleton_append, skipExponent, hskip, hd, Option.any_some, hdigit,
      hdrop]
    simp [hc]

theorem afterMantissa?_split (h : afterMantissa? cs = some rest) :
    ∃ w ∈ mantissa, w ++ rest = cs := by
  cases cs with
  | nil => cases h
  | cons c cs =>
    rw [afterMantissa?] at h
    split at h
    · next hc =>
      cases h
      obtain ⟨point, hpoint, hcs⟩ := skipChar_split '.' (cs.dropWhile isDecimalDigit)
      refine ⟨(c :: cs.takeWhile isDecimalDigit) ++
        (point ++ (skipChar '.' (cs.dropWhile isDecimalDigit)).takeWhile isDecimalDigit),
        .inl (Language.append_mem_mul ⟨List.cons_ne_nil _ _, List.forall_mem_cons.mpr
          ⟨hc, takeWhile_mem_many _ _⟩⟩ (Language.append_mem_mul hpoint (takeWhile_mem_many _ _))),
        ?_⟩
      rw [List.append_assoc, List.append_assoc, List.takeWhile_append_dropWhile, hcs,
        List.cons_append, List.takeWhile_append_dropWhile]
    · split at h
      · next hc =>
        cases h
        rw [Bool.and_eq_true, decide_eq_true_eq] at hc
        obtain ⟨rfl, hdigits⟩ := hc
        refine ⟨['.'] ++ cs.takeWhile isDecimalDigit,
          .inr (Language.append_mem_mul rfl (takeWhile_mem_run hdigits)), ?_⟩
        rw [List.append_assoc, List.takeWhile_append_dropWhile]
        rfl
      · cases h

/-- The longest run of digits is the whole of it, with or without a point. -/
theorem afterMantissa?_mantissa (hw : w ∈ mantissa)
    (hrest : ∀ c ∈ rest.head?, isDecimalDigit c = false ∧ c ≠ '.') :
    afterMantissa? (w ++ rest) = some rest := by
  have hdigits {ds : List Char} (hds : ds ∈ many isDecimalDigit) :
      (ds ++ rest).dropWhile isDecimalDigit = rest :=
    dropWhile_many hds fun c hc => (hrest c hc).1
  rcases hw with ⟨whole, ⟨hne, hwhole⟩, _, ⟨point, rfl | rfl, fraction, hfraction, rfl⟩, rfl⟩ |
    ⟨_, rfl, fraction, hfraction, rfl⟩
  · obtain ⟨d, whole, rfl⟩ := List.exists_cons_of_ne_nil hne
    obtain ⟨hd, hwhole⟩ := List.forall_mem_cons.mp hwhole
    have hskip : skipChar '.' rest = rest := skipChar_maybe (.inl rfl) fun c hc => (hrest c hc).2
    have hdrop : rest.dropWhile isDecimalDigit = rest := hdigits (List.forall_mem_nil _)
    show afterMantissa? (d :: (whole ++ fraction ++ rest)) = some rest
    rw [afterMantissa?, if_pos hd, hdigits (many_append hwhole hfraction), hskip, hdrop]
  · obtain ⟨d, whole, rfl⟩ := List.exists_cons_of_ne_nil hne
    obtain ⟨hd, hwhole⟩ := List.forall_mem_cons.mp hwhole
    have hpoint : (whole ++ '.' :: (fraction ++ rest)).dropWhile isDecimalDigit =
        '.' :: (fraction ++ rest) :=
      dropWhile_many hwhole fun c hc => by cases hc; decide
    have hskip : skipChar '.' ('.' :: (fraction ++ rest)) = fraction ++ rest := by
      rw [skipChar, afterChar?_self, Option.getD_some]
    rw [List.append_assoc, List.append_assoc]
    show afterMantissa? (d :: (whole ++ '.' :: (fraction ++ rest))) = some rest
    rw [afterMantissa?, if_pos hd, hpoint, hskip, hdigits hfraction]
  · obtain ⟨d, hd, hdigit⟩ := run_head hfraction rest
    rw [List.append_assoc, List.singleton_append, afterMantissa?, if_neg (by decide), hd,
      Option.any_some, hdigit, hdigits hfraction.2]
    rfl

theorem afterNumber?_split (h : afterNumber? cs = some rest) : ∃ w ∈ number, w ++ rest = cs := by
  obtain ⟨tail, htail, rfl⟩ := Option.map_eq_some_iff.mp h
  obtain ⟨sign, hsign, hcs⟩ := skipSign_split cs
  obtain ⟨digits, hdigits, hskip⟩ := afterMantissa?_split htail
  obtain ⟨power, hpower, hrest⟩ := skipExponent_split tail
  refine ⟨sign ++ (digits ++ power),
    Language.append_mem_mul hsign (Language.append_mem_mul hdigits hpower), ?_⟩
  rw [List.append_assoc, List.append_assoc, hrest, hskip, hcs]

theorem mantissa_head (hw : w ∈ mantissa) (rest : List Char) :
    ∃ c ∈ (w ++ rest).head?, isDecimalDigit c = true ∨ c = '.' := by
  rcases hw with ⟨whole, hwhole, fraction, -, rfl⟩ | ⟨_, rfl, fraction, -, rfl⟩
  · obtain ⟨c, hc, hdigit⟩ := run_head hwhole (fraction ++ rest)
    rw [← List.append_assoc] at hc
    exact ⟨c, hc, .inl hdigit⟩
  · exact ⟨'.', rfl, .inr rfl⟩

theorem exponent_head (hw : w ∈ exponent) (hrest : ∀ c ∈ rest.head?, isEnd c = true) :
    ∀ c ∈ (w ++ rest).head?, isDecimalDigit c = false ∧ c ≠ '.' := by
  intro c hc
  rcases hw with rfl | ⟨letter, hletter, tail, -, rfl⟩
  · refine ⟨isEnd_not_digit (hrest c hc), ?_⟩
    rintro rfl
    exact absurd (hrest '.' hc) (by decide)
  · obtain ⟨e, _, rfl, he, -⟩ := List.map_eq_cons_iff.mp hletter
    cases hc
    exact (letter_not_number (by rw [he]; rfl)).2

theorem afterNumber?_number (hw : w ∈ number) (hrest : ∀ c ∈ rest.head?, isEnd c = true) :
    afterNumber? (w ++ rest) = some rest := by
  obtain ⟨sign, hsign, _, ⟨digits, hdigits, power, hpower, rfl⟩, rfl⟩ := hw
  have hskip : skipSign (sign ++ (digits ++ (power ++ rest))) = digits ++ (power ++ rest) := by
    apply skipSign_maybe hsign
    intro d hd
    rcases forall_head (mantissa_head hdigits (power ++ rest)) d hd with hdigit | rfl
    · exact isDecimalDigit_not_sign hdigit
    · decide
  have htail := afterMantissa?_mantissa hdigits (exponent_head hpower hrest)
  rw [List.append_assoc, List.append_assoc, afterNumber?, hskip, htail, Option.map_some,
    skipExponent_exponent hpower hrest]

theorem number_head (hw : w ∈ number) (rest : List Char) :
    ∃ c ∈ (w ++ rest).head?, isSign c = true ∨ isDecimalDigit c = true ∨ c = '.' := by
  obtain ⟨sign, rfl | ⟨c, rfl, hc⟩, _, ⟨digits, hdigits, power, -, rfl⟩, rfl⟩ := hw
  · obtain ⟨c, hc, hstart⟩ := mantissa_head hdigits (power ++ rest)
    rw [← List.append_assoc] at hc
    exact ⟨c, hc, .inr hstart⟩
  · exact ⟨c, rfl, .inl hc⟩

end Numbers

section Literals

variable {w cs rest : List Char}

theorem word_head {letter : Char} {letters : List Char} (hw : w.map fold = letter :: letters)
    (rest : List Char) : ∃ c cs, w ++ rest = c :: cs ∧ fold c = letter := by
  obtain ⟨c, w, rfl, hc, -⟩ := List.map_eq_cons_iff.mp hw
  exact ⟨c, w ++ rest, rfl, hc⟩

theorem afterWord?_word {ws : String} (hw : w ∈ word ws) (rest : List Char) :
    afterWord? ws.toList (w ++ rest) = some rest :=
  afterWord?_eq_some.mpr ⟨w, hw, rfl⟩

theorem afterNumber?_letter {c : Char} (hc : (fold c).isLower = true) (cs : List Char) :
    afterNumber? (c :: cs) = none := by
  obtain ⟨hsign, hdigit, hpoint⟩ := letter_not_number hc
  rw [afterNumber?, skipSign, hsign, if_neg Bool.false_ne_true, afterMantissa?, hdigit]
  simp [hpoint]

theorem afterLiteral?_split (h : afterLiteral? cs = some rest) :
    ∃ w ∈ literal, w ++ rest = cs := by
  simp only [afterLiteral?, Option.orElse_eq_some] at h
  rcases h with h | ⟨-, h | ⟨-, h | ⟨-, h | ⟨-, h⟩⟩⟩⟩
  · obtain ⟨inside, hopen, hclose⟩ := Option.bind_eq_some_iff.mp h
    obtain ⟨w, hw, rfl⟩ := quotation_end hclose
    exact ⟨['\''] ++ w, .inl (Language.append_mem_mul rfl hw), afterChar?_eq_some.mp hopen⟩
  · obtain ⟨w, hw, rfl⟩ := afterNumber?_split h
    exact ⟨w, .inr (.inl hw), rfl⟩
  · obtain ⟨w, hw, rfl⟩ := afterWord?_eq_some.mp h
    exact ⟨w, .inr (.inr (.inl hw)), rfl⟩
  · obtain ⟨w, hw, rfl⟩ := afterWord?_eq_some.mp h
    exact ⟨w, .inr (.inr (.inr (.inl hw))), rfl⟩
  · obtain ⟨w, hw, rfl⟩ := afterWord?_eq_some.mp h
    exact ⟨w, .inr (.inr (.inr (.inr hw))), rfl⟩

/-- A word is tried after everything that begins with another character. -/
theorem afterLiteral?_letter {c : Char} (hc : (fold c).isLower = true) (cs : List Char) :
    afterLiteral? (c :: cs) = (afterWord? "null".toList (c :: cs) <|>
      afterWord? "true".toList (c :: cs) <|> afterWord? "false".toList (c :: cs)) := by
  have hquote : c ≠ '\'' := by
    rintro rfl
    exact absurd hc (by decide)
  rw [afterLiteral?, afterNumber?_letter hc, afterChar?, if_neg hquote]
  rfl

theorem afterLiteral?_literal (hw : w ∈ literal) (hrest : ∀ c ∈ rest.head?, isEnd c = true) :
    afterLiteral? (w ++ rest) = some rest := by
  have hnoQuote : ∀ c ∈ rest.head?, c ≠ '\'' := by
    rintro c hc rfl
    exact absurd (hrest _ hc) (by decide)
  rcases hw with ⟨_, rfl, w, hw, rfl⟩ | hw | hw | hw | hw
  · show (afterQuoted? (w ++ rest) <|> _) = some rest
    rw [afterQuoted?_end hw hnoQuote]
    rfl
  · have hopen : afterChar? '\'' (w ++ rest) = none := by
      apply afterChar?_of_head
      rintro d hd rfl
      exact absurd (forall_head (number_head hw rest) _ hd) (by decide)
    rw [afterLiteral?, hopen, afterNumber?_number hw hrest]
    rfl
  · obtain ⟨c, cs, hcs, hc⟩ := word_head hw rest
    rw [hcs, afterLiteral?_letter (by rw [hc]; rfl), ← hcs, afterWord?_word hw]
    rfl
  · obtain ⟨c, cs, hcs, hc⟩ := word_head hw rest
    have hnull : afterWord? "null".toList (c :: cs) = none := if_neg (by rw [hc]; decide)
    rw [hcs, afterLiteral?_letter (by rw [hc]; rfl), hnull, ← hcs, afterWord?_word hw]
    rfl
  · obtain ⟨c, cs, hcs, hc⟩ := word_head hw rest
    have hnull : afterWord? "null".toList (c :: cs) = none := if_neg (by rw [hc]; decide)
    have htrue : afterWord? "true".toList (c :: cs) = none := if_neg (by rw [hc]; decide)
    rw [hcs, afterLiteral?_letter (by rw [hc]; rfl), hnull, htrue, ← hcs, afterWord?_word hw]
    rfl

theorem literal_head (hw : w ∈ literal) (rest : List Char) :
    ∃ c ∈ (w ++ rest).head?, isStart c = true := by
  have hletter (letter : Char) {letters : List Char} (hlower : letter.isLower = true)
      (hw : w.map fold = letter :: letters) : ∃ c ∈ (w ++ rest).head?, isStart c = true := by
    obtain ⟨c, cs, hcs, rfl⟩ := word_head hw rest
    rw [hcs]
    exact ⟨c, rfl, by rw [isStart, hlower, Bool.or_true]⟩
  rcases hw with ⟨_, rfl, w, -, rfl⟩ | hw | hw | hw | hw
  · exact ⟨'\'', rfl, rfl⟩
  · obtain ⟨c, hc, hstart⟩ := number_head hw rest
    refine ⟨c, hc, ?_⟩
    rcases hstart with h | h | rfl
    · simp [isStart, h]
    · simp [isStart, h]
    · rfl
  · exact hletter 'n' rfl hw
  · exact hletter 't' rfl hw
  · exact hletter 'f' rfl hw

theorem word_chars {w : List Char} {s : String} (hw : w ∈ word s)
    (hs : ∀ c ∈ s.toList, c.isLower = true) : w ∈ many isStart := by
  intro c hc
  have hletter : (fold c).isLower = true := by
    have hw : w.map fold = s.toList := hw
    exact hs _ (hw ▸ List.mem_map_of_mem hc)
  rw [isStart, hletter, Bool.or_true]

theorem number_chars {w : List Char} (hw : w ∈ number) : w ∈ many isStart := by
  have hdigit : ∀ c, isDecimalDigit c = true → isStart c = true := fun c h => by simp [isStart, h]
  have hsign {sign : List Char} (h : sign ∈ maybe (one isSign)) : sign ∈ many isStart := by
    rcases h with rfl | ⟨c, rfl, hc⟩
    · exact List.forall_mem_nil _
    · exact List.forall_mem_singleton.mpr (by simp [isStart, hc])
  have hpoint : ['.'] ∈ many isStart := List.forall_mem_singleton.mpr rfl
  obtain ⟨sign, hleft, _, ⟨digits, hdigits, power, hpower, rfl⟩, rfl⟩ := hw
  refine many_append (hsign hleft) (many_append ?_ ?_)
  · rcases hdigits with ⟨whole, hwhole, _, ⟨point, rfl | rfl, fraction, hfraction, rfl⟩, rfl⟩ |
      ⟨_, rfl, fraction, hfraction, rfl⟩
    · exact many_append (run_many hwhole hdigit) fun c hc => hdigit c (hfraction c hc)
    · exact many_append (run_many hwhole hdigit)
        (many_append hpoint fun c hc => hdigit c (hfraction c hc))
    · exact many_append hpoint (run_many hfraction hdigit)
  · rcases hpower with rfl | ⟨letter, hletter, _, ⟨sign, hsign', digits, hdigits, rfl⟩, rfl⟩
    · exact List.forall_mem_nil _
    · exact many_append (word_chars hletter (by simp))
        (many_append (hsign hsign') (run_many hdigits hdigit))

/-- A literal ends with a character of its own. -/
theorem literal_last {w : List Char} (hw : w ∈ literal) :
    ∃ u c, w = u ++ [c] ∧ isBlank c = false := by
  have hstart (hall : w ∈ many isStart) : ∃ u c, w = u ++ [c] ∧ isBlank c = false := by
    obtain ⟨c, hc, -⟩ := literal_head hw []
    have hne : w ≠ [] := by
      rintro rfl
      cases hc
    exact ⟨w.dropLast, w.getLast hne, (List.dropLast_append_getLast hne).symm,
      isStart_not_blank (hall _ (List.getLast_mem hne))⟩
  rcases hw with ⟨_, rfl, _, ⟨pieces, -, _, rfl, rfl⟩, rfl⟩ | hw | hw | hw | hw
  · exact ⟨'\'' :: pieces, '\'', rfl, rfl⟩
  · exact hstart (number_chars hw)
  · exact hstart (word_chars hw (by simp))
  · exact hstart (word_chars hw (by simp))
  · exact hstart (word_chars hw (by simp))

end Literals

end TableLoad.LiteralDefault
