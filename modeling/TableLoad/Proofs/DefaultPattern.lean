import TableLoad.Proofs.LiteralPattern

open scoped Computability

namespace TableLoad.LiteralDefault

open Text (isBlank isDecimalDigit trimChars)

section Patterns

/-- `\([\d,\s]*\)` -/
def sizes : Language Char :=
  char '(' * (many isSizeChar * char ')')

/-- `(?:\([\d,\s]*\))?(?:\[\])?` -/
def typeEnd : Language Char :=
  maybe sizes * maybe (char '[' * char ']')

/-- `\s*::\s*[a-z_][a-z0-9_\s]*(?:\([\d,\s]*\))?(?:\[\])?` -/
def typeCast : Language Char :=
  many isBlank * (char ':' * (char ':' * (many isBlank *
    (one isTypeStart * (many isTypeChar * typeEnd)))))

/-- `\s*\)?(?:cast)*$` -/
def literalEnd : Language Char :=
  many isBlank * (maybe (char ')') * typeCast∗)

/-- `^\(?\s*(?:literal)\s*\)?(?:cast)*$` -/
def literalPattern : Language Char :=
  maybe (char '(') * (many isBlank * (literal * literalEnd))

/-- `^cast\s*\(` -/
def castOpen : Language Char :=
  word "cast" * (many isBlank * char '(')

/-- `^cast\s*\(\s*` -/
def castHead : Language Char :=
  castOpen * many isBlank

/-- `\s+[^()]+(?:\([\d,\s]*\))?\s*\)$` -/
def castEnd : Language Char :=
  run isBlank * (run isOutside * (maybe sizes * (many isBlank * char ')')))

/-- `\sas\s+[^()]+(?:\([\d,\s]*\))?\s*\)$` -/
def asEnd : Language Char :=
  one isBlank * (word "as" * castEnd)

/-- `\s+as\s+[^()]+(?:\([\d,\s]*\))?\s*\)$` -/
def castTail : Language Char :=
  run isBlank * (word "as" * castEnd)

end Patterns

section Casts

variable {w t cs rest : List Char}

theorem afterSizes?_split (h : afterSizes? cs = some rest) : ∃ w ∈ sizes, w ++ rest = cs := by
  obtain ⟨inside, hopen, hclose⟩ := Option.bind_eq_some_iff.mp h
  refine ⟨['('] ++ (inside.takeWhile isSizeChar ++ [')']),
    Language.append_mem_mul rfl (Language.append_mem_mul (takeWhile_mem_many _ _) rfl), ?_⟩
  rw [List.append_assoc, List.append_assoc, List.singleton_append, List.singleton_append,
    afterChar?_eq_some.mp hclose, List.takeWhile_append_dropWhile, afterChar?_eq_some.mp hopen]

theorem afterSizes?_sizes (hw : w ∈ sizes) (rest : List Char) :
    afterSizes? (w ++ rest) = some rest := by
  obtain ⟨_, rfl, _, ⟨inside, hinside, _, rfl, rfl⟩, rfl⟩ := hw
  have hdrop : (inside ++ ')' :: rest).dropWhile isSizeChar = ')' :: rest :=
    dropWhile_many hinside fun c hc => by cases hc; decide
  rw [List.append_assoc, List.append_assoc]
  show afterChar? ')' ((inside ++ ')' :: rest).dropWhile isSizeChar) = some rest
  rw [hdrop, afterChar?_self]

theorem skipSizes_split (cs : List Char) : ∃ w ∈ maybe sizes, w ++ skipSizes cs = cs := by
  rw [skipSizes]
  cases h : afterSizes? cs with
  | none => exact ⟨[], .inl rfl, rfl⟩
  | some rest =>
    obtain ⟨w, hw, hcs⟩ := afterSizes?_split h
    exact ⟨w, .inr hw, hcs⟩

theorem skipSizes_maybe (hw : w ∈ maybe sizes) (hrest : ∀ c ∈ rest.head?, c ≠ '(') :
    skipSizes (w ++ rest) = rest := by
  rcases hw with rfl | hw
  · rw [List.nil_append, skipSizes, afterSizes?, afterChar?_of_head hrest]
    rfl
  · rw [skipSizes, afterSizes?_sizes hw, Option.getD_some]

theorem skipBrackets_split (cs : List Char) :
    ∃ w ∈ maybe (char '[' * char ']'), w ++ skipBrackets cs = cs := by
  rw [skipBrackets]
  cases h : (afterChar? '[' cs).bind (afterChar? ']') with
  | none => exact ⟨[], .inl rfl, rfl⟩
  | some rest =>
    obtain ⟨inside, hopen, hclose⟩ := Option.bind_eq_some_iff.mp h
    refine ⟨['['] ++ [']'], .inr (Language.append_mem_mul rfl rfl), ?_⟩
    rw [List.append_assoc, List.singleton_append, List.singleton_append,
      Option.getD_some, afterChar?_eq_some.mp hclose, afterChar?_eq_some.mp hopen]

theorem skipBrackets_maybe (hw : w ∈ maybe (char '[' * char ']'))
    (hrest : ∀ c ∈ rest.head?, c ≠ '[') : skipBrackets (w ++ rest) = rest := by
  rcases hw with rfl | ⟨_, rfl, _, rfl, rfl⟩
  · rw [List.nil_append, skipBrackets, afterChar?_of_head hrest]
    rfl
  · rfl

theorem afterCast?_split (h : afterCast? cs = some rest) : ∃ w ∈ typeCast, w ++ rest = cs := by
  obtain ⟨more, hcolon, h⟩ := Option.bind_eq_some_iff.mp h
  obtain ⟨type, hcolon', h⟩ := Option.bind_eq_some_iff.mp h
  obtain ⟨before, hbefore, hcs⟩ := skipBlanks_split cs
  obtain ⟨between, hbetween, htype⟩ := skipBlanks_split type
  cases hskip : skipBlanks type with
  | nil =>
    rw [hskip] at h
    cases h
  | cons c name =>
    rw [hskip, afterType?] at h
    split at h
    · next hc =>
      cases h
      obtain ⟨sized, hsized, hsizes⟩ := skipSizes_split (name.dropWhile isTypeChar)
      obtain ⟨brackets, hbrackets, hend⟩ :=
        skipBrackets_split (skipSizes (name.dropWhile isTypeChar))
      refine ⟨before ++ ([':'] ++ ([':'] ++ (between ++ ([c] ++
        (name.takeWhile isTypeChar ++ (sized ++ brackets)))))), ?_, ?_⟩
      · have hname := Language.append_mem_mul (takeWhile_mem_many isTypeChar name)
          (Language.append_mem_mul hsized hbrackets)
        exact Language.append_mem_mul hbefore (Language.append_mem_mul rfl
          (Language.append_mem_mul rfl (Language.append_mem_mul hbetween
            (Language.append_mem_mul ⟨c, rfl, hc⟩ hname))))
      · simp only [List.append_assoc, List.cons_append, List.nil_append]
        rw [hend, hsizes, List.takeWhile_append_dropWhile, ← hskip, htype,
          afterChar?_eq_some.mp hcolon', afterChar?_eq_some.mp hcolon, hcs]
    · cases h

/-- Casts begin with blanks, and with a colon where the blanks end. -/
theorem casts_split (ht : t ∈ typeCast∗) : ∃ blanks ∈ many isBlank, ∃ u ∈ typeCast∗,
    blanks ++ u = t ∧ ∀ c ∈ u.head?, c = ':' := by
  rcases mem_kstar.mp ht with rfl | ⟨_, ⟨blanks, hblanks, _, ⟨_, rfl, w, hw, rfl⟩, rfl⟩, v, hv, rfl⟩
  · exact ⟨[], List.forall_mem_nil _, [], ht, rfl, by simp⟩
  · have hcast : [] ++ ([':'] ++ w) ∈ typeCast :=
      Language.append_mem_mul (List.forall_mem_nil _) (Language.append_mem_mul rfl hw)
    refine ⟨blanks, hblanks, ([':'] ++ w) ++ v, append_mem_kstar hcast hv,
      (List.append_assoc _ _ _).symm, fun c hc => ?_⟩
    cases hc
    rfl

theorem casts_head (ht : t ∈ typeCast∗) : ∀ c ∈ t.head?, isEnd c = true := by
  obtain ⟨blanks, hblanks, u, -, rfl, hcolon⟩ := casts_split ht
  refine head_append (fun c hc => ?_) fun c hc => ?_
  · rw [isEnd, hblanks c hc]
    rfl
  · rw [hcolon c hc]
    rfl

theorem isEnd_ne {c : Char} (h : isEnd c = true) : c ≠ '(' ∧ c ≠ '[' ∧ c ≠ '\'' := by
  refine ⟨?_, ?_, ?_⟩ <;> rintro rfl <;> exact absurd h (by decide)

/-- The type of a cast goes as far as it can: the blanks of the next cast go with it where nothing
else stands between them. -/
theorem skipType_mem (hname : cs ∈ many isTypeChar) (hw : w ∈ typeEnd) (ht : t ∈ typeCast∗) :
    skipBrackets (skipSizes ((cs ++ (w ++ t)).dropWhile isTypeChar)) ∈ typeCast∗ ∧
      (skipBrackets (skipSizes ((cs ++ (w ++ t)).dropWhile isTypeChar))).length ≤ t.length := by
  obtain ⟨sized, hsized, brackets, hbrackets, rfl⟩ := hw
  have hskip : skipBrackets (brackets ++ t) = t :=
    skipBrackets_maybe hbrackets fun c hc => (isEnd_ne (casts_head ht c hc)).2.1
  rcases hsized with rfl | hsized
  · rcases hbrackets with rfl | hbrackets
    · obtain ⟨blanks, hblanks, u, hu, rfl, hcolon⟩ := casts_split ht
      have hblankChars : blanks ∈ many isTypeChar := by
        intro c hc
        rw [isTypeChar, hblanks c hc, Bool.or_true]
      have hdrop : (cs ++ blanks ++ u).dropWhile isTypeChar = u := by
        apply dropWhile_many (many_append hname hblankChars)
        intro c hc
        rw [hcolon c hc]
        decide
      have hsizes : skipSizes u = u :=
        skipSizes_maybe (.inl rfl) fun c hc => by rw [hcolon c hc]; decide
      have hbrackets : skipBrackets u = u :=
        skipBrackets_maybe (.inl rfl) fun c hc => by rw [hcolon c hc]; decide
      have hwhole : cs ++ ([] ++ [] ++ (blanks ++ u)) = cs ++ blanks ++ u := by simp
      rw [hwhole, hdrop, hsizes, hbrackets, List.length_append]
      exact ⟨hu, by omega⟩
    · obtain ⟨_, rfl, _, rfl, rfl⟩ := hbrackets
      have hdrop : (cs ++ '[' :: ']' :: t).dropWhile isTypeChar = '[' :: ']' :: t :=
        dropWhile_many hname fun c hc => by cases hc; decide
      have hsizes : skipSizes ('[' :: ']' :: t) = '[' :: ']' :: t :=
        skipSizes_maybe (.inl rfl) fun c hc => by cases hc; decide
      have hwhole : cs ++ ([] ++ (['['] ++ [']']) ++ t) = cs ++ '[' :: ']' :: t := by simp
      have hbrackets : skipBrackets ('[' :: ']' :: t) = t := hskip
      rw [hwhole, hdrop, hsizes, hbrackets]
      exact ⟨ht, le_rfl⟩
  · have hdrop : (cs ++ (sized ++ (brackets ++ t))).dropWhile isTypeChar =
        sized ++ (brackets ++ t) := by
      apply dropWhile_many hname
      intro c hc
      obtain ⟨_, rfl, inside, -, rfl⟩ := hsized
      cases hc
      decide
    have hsizes : skipSizes (sized ++ (brackets ++ t)) = brackets ++ t := by
      rw [skipSizes, afterSizes?_sizes hsized, Option.getD_some]
    rw [List.append_assoc, hdrop, hsizes, hskip]
    exact ⟨ht, le_rfl⟩

theorem afterCast?_cast (hw : w ∈ typeCast) (ht : t ∈ typeCast∗) :
    ∃ u ∈ typeCast∗, u.length < (w ++ t).length ∧ afterCast? (w ++ t) = some u := by
  obtain ⟨before, hbefore, _, ⟨_, rfl, _, ⟨_, rfl, _, ⟨between, hbetween, _,
    ⟨_, ⟨c, rfl, hc⟩, _, ⟨name, hname, behind, hbehind, rfl⟩, rfl⟩, rfl⟩, rfl⟩, rfl⟩, rfl⟩ := hw
  obtain ⟨hrest, hlength⟩ := skipType_mem hname hbehind ht
  refine ⟨_, hrest, ?_, ?_⟩
  · simp only [List.length_append, List.length_singleton] at hlength ⊢
    omega
  · simp only [List.append_assoc, List.cons_append, List.nil_append]
    have hcolon : skipBlanks (before ++ ':' :: ':' :: (between ++ c :: (name ++ (behind ++ t)))) =
        ':' :: ':' :: (between ++ c :: (name ++ (behind ++ t))) :=
      dropWhile_many hbefore fun d hd => by cases hd; decide
    have htype : skipBlanks (between ++ c :: (name ++ (behind ++ t))) =
        c :: (name ++ (behind ++ t)) := by
      apply dropWhile_many hbetween
      intro d hd
      cases hd
      exact isTypeStart_not_blank hc
    rw [afterCast?, hcolon]
    show afterType? (skipBlanks (between ++ c :: (name ++ (behind ++ t)))) = _
    rw [htype, afterType?, if_pos hc]

/-- The blanks of the first cast go with the blanks behind the literal where no parenthesis stands
between them. -/
theorem skipClose_mem {blanks right : List Char} (hblanks : blanks ∈ many isBlank)
    (hright : right ∈ maybe (char ')')) (ht : t ∈ typeCast∗) :
    skipChar ')' (skipBlanks (blanks ++ (right ++ t))) ∈ typeCast∗ := by
  rcases hright with rfl | rfl
  · obtain ⟨blanks', hblanks', u, hu, rfl, hcolon⟩ := casts_split ht
    have hskip : skipBlanks (blanks ++ blanks' ++ u) = u := by
      apply dropWhile_many (many_append hblanks hblanks')
      intro c hc
      rw [hcolon c hc]
      decide
    have hclose : skipChar ')' u = u :=
      skipChar_maybe (.inl rfl) fun c hc => by rw [hcolon c hc]; decide
    rw [List.nil_append, ← List.append_assoc, hskip, hclose]
    exact hu
  · have hskip : skipBlanks (blanks ++ ')' :: t) = ')' :: t :=
      dropWhile_many hblanks fun c hc => by cases hc; decide
    rw [List.singleton_append, hskip, skipChar, afterChar?_self, Option.getD_some]
    exact ht

theorem literalEnd_head (h : w ∈ literalEnd) : ∀ c ∈ w.head?, isEnd c = true := by
  obtain ⟨blanks, hblanks, _, ⟨right, hright, t, ht, rfl⟩, rfl⟩ := h
  refine head_append (fun c hc => ?_) (head_append (fun c hc => ?_) (casts_head ht))
  · rw [isEnd, hblanks c hc]
    rfl
  · rcases hright with rfl | rfl
    · cases hc
    · rw [List.mem_singleton.mp hc]
      rfl

theorem casts_of_isCasts {fuel : ℕ} (h : isCasts fuel cs = true) : cs ∈ typeCast∗ := by
  fun_induction isCasts fuel cs with
  | case1 => exact Language.nil_mem_kstar _
  | case2 => cases h
  | case3 fuel cs _ rest hrest ih =>
    obtain ⟨w, hw, rfl⟩ := afterCast?_split hrest
    exact append_mem_kstar hw (ih h)
  | case4 => cases h

/-- Each cast takes characters away, so that the length of the text is fuel enough. -/
theorem isCasts_of_casts {fuel : ℕ} (ht : t ∈ typeCast∗) (hfuel : t.length ≤ fuel) :
    isCasts fuel t = true := by
  induction fuel generalizing t with
  | zero =>
    rw [List.length_eq_zero_iff.mp (Nat.le_zero.mp hfuel)]
    rfl
  | succ fuel ih =>
    rcases mem_kstar.mp ht with rfl | ⟨w, hw, v, hv, rfl⟩
    · rfl
    · obtain ⟨u, hu, hlength, hcast⟩ := afterCast?_cast hw hv
      have hne : w ++ v ≠ [] := by
        intro hnil
        rw [hnil] at hlength
        exact absurd hlength (Nat.not_lt_zero _)
      rw [isCasts, hcast]
      · exact ih hu (by omega)
      · exact hne

end Casts

/-- The recogniser of literals decides the pattern. -/
theorem isLiteral_iff {cs : List Char} : isLiteral cs = true ↔ cs ∈ literalPattern := by
  constructor
  · intro h
    rw [isLiteral] at h
    split at h
    · next rest hliteral =>
      obtain ⟨left, hleft, hcs⟩ := skipChar_split '(' cs
      obtain ⟨blanks, hblanks, hskip⟩ := skipBlanks_split (skipChar '(' cs)
      obtain ⟨w, hw, hwhole⟩ := afterLiteral?_split hliteral
      obtain ⟨blanks', hblanks', hskip'⟩ := skipBlanks_split rest
      obtain ⟨right, hright, hclose⟩ := skipChar_split ')' (skipBlanks rest)
      have hcasts := casts_of_isCasts h
      rw [← hcs, ← hskip, ← hwhole, ← hskip', ← hclose]
      exact Language.append_mem_mul hleft (Language.append_mem_mul hblanks
        (Language.append_mem_mul hw (Language.append_mem_mul hblanks'
          (Language.append_mem_mul hright hcasts))))
    · cases h
  · rintro ⟨left, hleft, _, ⟨blanks, hblanks, _, ⟨w, hw, _, ⟨blanks', hblanks', _,
      ⟨right, hright, t, ht, rfl⟩, rfl⟩, rfl⟩, rfl⟩, rfl⟩
    have hstart := forall_head (literal_head hw (blanks' ++ (right ++ t)))
    have hopen : skipChar '(' (left ++ (blanks ++ (w ++ (blanks' ++ (right ++ t))))) =
        blanks ++ (w ++ (blanks' ++ (right ++ t))) := by
      apply skipChar_maybe hleft (head_append _ _)
      · rintro d hd rfl
        exact absurd (hblanks _ hd) (by decide)
      · rintro d hd rfl
        exact absurd (hstart _ hd) (by decide)
    have hskip : skipBlanks (blanks ++ (w ++ (blanks' ++ (right ++ t)))) =
        w ++ (blanks' ++ (right ++ t)) :=
      dropWhile_many hblanks fun d hd => isStart_not_blank (hstart d hd)
    have hliteral : afterLiteral? (w ++ (blanks' ++ (right ++ t))) =
        some (blanks' ++ (right ++ t)) :=
      afterLiteral?_literal hw (literalEnd_head (Language.append_mem_mul hblanks'
        (Language.append_mem_mul hright ht)))
    rw [isLiteral, hopen, hskip, hliteral]
    exact isCasts_of_casts (skipClose_mem hblanks' hright ht) le_rfl

section LiteralWords

variable {c : Char} {cs : List Char}

theorem not_nil_mem_literalPattern : [] ∉ literalPattern := by
  rintro ⟨left, -, _, ⟨blanks, -, _, ⟨w, hw, rest, -, rfl⟩, rfl⟩, hnil⟩
  have hnil : left ++ (blanks ++ (w ++ rest)) = [] := hnil
  obtain ⟨c, hc, -⟩ := literal_head hw rest
  rw [(List.append_eq_nil_iff.mp (List.append_eq_nil_iff.mp hnil).2).2] at hc
  cases hc

/-- A text that begins like a name matches by one of the words. -/
theorem literalPattern_name (hc : isTypeStart c = true) (h : c :: cs ∈ literalPattern) :
    ∃ w, (w ∈ word "null" ∨ w ∈ word "true" ∨ w ∈ word "false") ∧
      ∃ rest, w ++ rest = c :: cs ∧ ∀ d ∈ rest.head?, isEnd d = true := by
  obtain ⟨left, hleft, _, ⟨blanks, hblanks, _, ⟨w, hw, rest, hrest, rfl⟩, rfl⟩, hcs⟩ := h
  rcases hleft with rfl | rfl
  · cases blanks with
    | cons b blanks =>
      cases hcs
      have hblank := hblanks c List.mem_cons_self
      rw [isTypeStart_not_blank hc] at hblank
      cases hblank
    | nil =>
      have hcs : w ++ rest = c :: cs := hcs
      rcases hw with ⟨_, rfl, w, -, rfl⟩ | hw | hw
      · cases hcs
        exact absurd hc (by decide)
      · have hstart := forall_head (number_head hw rest) c (by rw [hcs]; rfl)
        obtain ⟨hsign, hdigit, hpoint⟩ := isTypeStart_not_number hc
        rw [hsign, hdigit] at hstart
        simp [hpoint] at hstart
      · exact ⟨w, hw, rest, hcs, literalEnd_head hrest⟩
  · cases hcs
    exact absurd hc (by decide)

end LiteralWords

section CastEnds

variable {w tail cs before inside : List Char}

theorem isOutside_of_isBlank {c : Char} (h : isBlank c = true) : isOutside c = true := by
  rw [isOutside, Bool.and_eq_true, bne_iff_ne, bne_iff_ne]
  constructor <;> rintro rfl <;> exact absurd h (by decide)

theorem castEnd_of_isCastEnd (h : isCastEnd cs = true) : cs ∈ castEnd := by
  cases cs with
  | nil => cases h
  | cons c type =>
    rw [isCastEnd, Bool.and_eq_true, Bool.and_eq_true, beq_iff_eq] at h
    obtain ⟨⟨hc, hhead⟩, hclose⟩ := h
    obtain ⟨sized, hsized, hsizes⟩ := skipSizes_split (type.dropWhile isOutside)
    obtain ⟨blanks, hblanks, hskip⟩ := skipBlanks_split (skipSizes (type.dropWhile isOutside))
    have hcs : c :: type = [c] ++ (type.takeWhile isOutside ++ (sized ++ (blanks ++ [')']))) := by
      rw [← hclose, hskip, hsizes, List.takeWhile_append_dropWhile]
      rfl
    rw [hcs]
    exact Language.append_mem_mul ⟨List.cons_ne_nil _ _, by simpa using hc⟩
      (Language.append_mem_mul (takeWhile_mem_run hhead) (Language.append_mem_mul hsized
        (Language.append_mem_mul hblanks rfl)))

/-- Whatever of the end stands outside of parentheses is taken for the name of the type. -/
theorem isCastEnd_of_castEnd (h : cs ∈ castEnd) : isCastEnd cs = true := by
  obtain ⟨_, ⟨hne, hlead⟩, _, ⟨name, hname, _, ⟨sized, hsized, _, ⟨blanks, hblanks, _, rfl, rfl⟩,
    rfl⟩, rfl⟩, rfl⟩ := h
  obtain ⟨c, lead, rfl⟩ := List.exists_cons_of_ne_nil hne
  rw [List.forall_mem_cons] at hlead
  have houtside : lead ++ name ∈ many isOutside :=
    many_append (fun c hc => isOutside_of_isBlank (hlead.2 c hc)) hname.2
  have hhead : (lead ++ (name ++ (sized ++ (blanks ++ [')'])))).head?.any isOutside = true := by
    cases lead with
    | nil =>
      obtain ⟨d, hd, hdOutside⟩ := run_head hname (sized ++ (blanks ++ [')']))
      rw [List.nil_append, hd, Option.any_some, hdOutside]
    | cons d lead => exact houtside d List.mem_cons_self
  have hclose : skipBlanks (skipSizes ((lead ++ (name ++ (sized ++ (blanks ++ [')'])))).dropWhile
      isOutside)) = [')'] := by
    rw [← List.append_assoc]
    rcases hsized with rfl | hsized
    · have hdrop : (lead ++ name ++ blanks ++ [')']).dropWhile isOutside = [')'] :=
        dropWhile_many (many_append houtside fun c hc => isOutside_of_isBlank (hblanks c hc))
          fun c hc => by cases hc; decide
      rw [List.nil_append, ← List.append_assoc, hdrop]
      rfl
    · have hdrop : (lead ++ name ++ (sized ++ (blanks ++ [')']))).dropWhile isOutside =
          sized ++ (blanks ++ [')']) := by
        refine dropWhile_many houtside fun c hc => ?_
        obtain ⟨_, rfl, rest, -, rfl⟩ := hsized
        cases hc
        decide
      rw [hdrop, skipSizes, afterSizes?_sizes hsized, Option.getD_some]
      exact dropWhile_many hblanks fun c hc => by cases hc; decide
  show isCastEnd (c :: (lead ++ (name ++ (sized ++ (blanks ++ [')']))))) = true
  rw [isCastEnd, hlead.1, hhead, hclose]
  rfl

theorem asEnd_cons {c : Char} : c :: cs ∈ asEnd ↔
    (isBlank c && (afterWord? "as".toList cs).any isCastEnd) = true := by
  rw [Bool.and_eq_true, Option.any_eq_true]
  constructor
  · rintro ⟨_, ⟨d, rfl, hd⟩, _, ⟨w, hw, rest, hrest, rfl⟩, hcs⟩
    cases hcs
    exact ⟨hd, rest, afterWord?_word hw rest, isCastEnd_of_castEnd hrest⟩
  · rintro ⟨hc, rest, hrest, hend⟩
    obtain ⟨w, hw, rfl⟩ := afterWord?_eq_some.mp hrest
    exact ⟨[c], ⟨c, rfl, hc⟩, w ++ rest,
      Language.append_mem_mul hw (castEnd_of_isCastEnd hend), rfl⟩

theorem not_nil_mem_asEnd : [] ∉ asEnd := by
  rintro ⟨_, ⟨c, rfl, -⟩, _, -, hnil⟩
  cases hnil

theorem castTail_of_asEnd (h : tail ∈ asEnd) : tail ∈ castTail := by
  obtain ⟨_, ⟨c, rfl, hc⟩, rest, hrest, rfl⟩ := h
  exact Language.append_mem_mul ⟨List.cons_ne_nil _ _, by simpa using hc⟩ hrest

theorem asEnd_of_castTail (h : tail ∈ castTail) :
    ∃ blanks ∈ many isBlank, ∃ tail' ∈ asEnd, blanks ++ tail' = tail := by
  obtain ⟨blanks, ⟨hne, hblanks⟩, rest, hrest, rfl⟩ := h
  refine ⟨blanks.dropLast, fun c hc => hblanks c (List.mem_of_mem_dropLast hc),
    [blanks.getLast hne] ++ rest,
    Language.append_mem_mul ⟨_, rfl, hblanks _ (List.getLast_mem hne)⟩ hrest, ?_⟩
  rw [← List.append_assoc, List.dropLast_append_getLast]

theorem beforeLastAs?_split (h : beforeLastAs? cs = some before) :
    ∃ tail ∈ asEnd, before ++ tail = cs := by
  induction cs generalizing before with
  | nil => cases h
  | cons c cs ih =>
    rw [beforeLastAs?] at h
    split at h
    · next before' hbefore =>
      cases h
      obtain ⟨tail, htail, rfl⟩ := ih hbefore
      exact ⟨tail, htail, rfl⟩
    · split at h
      · next hend =>
        cases h
        exact ⟨c :: cs, asEnd_cons.mpr hend, rfl⟩
      · cases h

/-- No end of a cast begins behind the one that is found. -/
theorem beforeLastAs?_longest (htail : tail ∈ asEnd) (hcs : w ++ tail = cs) :
    ∃ before, beforeLastAs? cs = some before ∧ w.length ≤ before.length := by
  induction cs generalizing w with
  | nil =>
    obtain ⟨-, rfl⟩ := List.append_eq_nil_iff.mp hcs
    exact absurd htail not_nil_mem_asEnd
  | cons c cs ih =>
    rw [beforeLastAs?]
    cases w with
    | nil =>
      obtain rfl : tail = c :: cs := hcs
      cases beforeLastAs? cs with
      | some before => exact ⟨c :: before, rfl, Nat.zero_le _⟩
      | none => exact ⟨[], if_pos (asEnd_cons.mp htail), le_rfl⟩
    | cons d w =>
      obtain ⟨rfl, htail⟩ := List.cons.inj hcs
      obtain ⟨before, hbefore, hlength⟩ := ih htail
      rw [hbefore]
      exact ⟨d :: before, rfl, Nat.succ_le_succ hlength⟩

theorem afterCastOpen?_eq_some :
    afterCastOpen? cs = some inside ↔ ∃ w ∈ castOpen, w ++ inside = cs := by
  constructor
  · intro h
    obtain ⟨rest, hword, hopen⟩ := Option.bind_eq_some_iff.mp h
    obtain ⟨w, hw, rfl⟩ := afterWord?_eq_some.mp hword
    obtain ⟨blanks, hblanks, hrest⟩ := skipBlanks_split rest
    refine ⟨w ++ (blanks ++ ['(']),
      Language.append_mem_mul hw (Language.append_mem_mul hblanks rfl), ?_⟩
    rw [List.append_assoc, List.append_assoc, List.singleton_append, afterChar?_eq_some.mp hopen,
      hrest]
  · rintro ⟨_, ⟨w, hw, _, ⟨blanks, hblanks, _, rfl, rfl⟩, rfl⟩, rfl⟩
    have hskip : skipBlanks (blanks ++ '(' :: inside) = '(' :: inside :=
      dropWhile_many hblanks fun c hc => by cases hc; decide
    rw [List.append_assoc, List.append_assoc, afterCastOpen?, afterWord?_word hw]
    show afterChar? '(' (skipBlanks (blanks ++ '(' :: inside)) = some inside
    rw [hskip, afterChar?_self]

end CastEnds

section Captures

variable {w cs head group tail inside before operand : List Char}

/-- A text cut into the pieces of `^cast\s*\(\s*(.+)\s+as\s+[^()]+(?:\([\d,\s]*\))?\s*\)$`. -/
structure CutsCast (cs head group tail : List Char) : Prop where
  head_mem : head ∈ castHead
  group_ne : group ≠ []
  tail_mem : tail ∈ castTail
  whole : head ++ (group ++ tail) = cs

/-- What the pattern captures: of all cuts the first piece is as long as it can be, and of those
cuts what is captured. -/
def Captures (cs group : List Char) : Prop :=
  ∃ head tail, CutsCast cs head group tail ∧ ∀ head' group' tail', CutsCast cs head' group' tail' →
    head'.length < head.length ∨ head'.length = head.length ∧ group'.length ≤ group.length

theorem castOperand?_split (h : castOperand? cs = some operand) : ∃ opened ∈ castOpen,
    ∃ inside before, opened ++ inside = cs ∧ beforeLastAs? inside = some before ∧
      trimChars before = operand := by
  obtain ⟨inside, hopen, h⟩ := Option.bind_eq_some_iff.mp h
  obtain ⟨before, hbefore, hoperand⟩ := Option.bind_eq_some_iff.mp h
  obtain ⟨opened, hopened, hcs⟩ := afterCastOpen?_eq_some.mp hopen
  exact ⟨opened, hopened, inside, before, hcs, hbefore, Option.some.inj hoperand⟩

theorem castOperand?_of_before (hw : w ∈ castOpen) (hbefore : beforeLastAs? inside = some before) :
    castOperand? (w ++ inside) = some (trimChars before) := by
  have hopen : afterCastOpen? (w ++ inside) = some inside :=
    afterCastOpen?_eq_some.mpr ⟨w, hw, rfl⟩
  rw [castOperand?, hopen]
  show (beforeLastAs? inside).bind _ = _
  rw [hbefore]
  rfl

theorem trimChars_many_append (hw : w ∈ many isBlank) (cs : List Char) :
    trimChars (w ++ cs) = trimChars cs := by
  rw [trimChars, Text.trimStartChars, List.dropWhile_append_of_pos hw]
  rfl

/-- What is captured is, up to blanks around it, what stands before the last `AS`. -/
theorem Captures.castOperand? (h : Captures cs group) :
    castOperand? cs = some (trimChars group) := by
  obtain ⟨_, tail, ⟨⟨opened, hopened, blanks, hblanks, rfl⟩, hgroup, htail, hcs⟩, hmost⟩ := h
  simp only [List.append_assoc] at hcs
  obtain ⟨blanks', hblanks', tail', htail', rfl⟩ := asEnd_of_castTail htail
  have hplace : (blanks ++ (group ++ blanks')) ++ tail' =
      blanks ++ (group ++ (blanks' ++ tail')) := by
    simp only [List.append_assoc]
  obtain ⟨before, hbefore, hlength⟩ := beforeLastAs?_longest htail' hplace
  obtain ⟨last, hlast, hsplit⟩ := beforeLastAs?_split hbefore
  have hpos := List.length_pos_iff.mpr hgroup
  simp only [List.length_append] at hlength
  -- What stands before the last `AS` takes in the blanks in front, and the rest of it is a cut.
  obtain ⟨group', rfl, hgroup'⟩ := append_longer hsplit (by omega)
  rw [List.length_append] at hlength
  have hne : group' ≠ [] := by
    rw [← List.length_pos_iff]
    omega
  have hcut : CutsCast cs (opened ++ blanks) group' last :=
    ⟨Language.append_mem_mul hopened hblanks, hne, castTail_of_asEnd hlast, by
      rw [← hcs, List.append_assoc, hgroup']⟩
  have hatMost : group'.length ≤ group.length := by
    rcases hmost _ _ _ hcut with hshorter | ⟨-, hatMost⟩
    · exact absurd hshorter (lt_irrefl _)
    · exact hatMost
  obtain ⟨rfl, -⟩ := List.append_inj hgroup' (by omega)
  rw [← hcs, castOperand?_of_before hopened hbefore, trimChars_many_append hblanks]

theorem trimChars_of_trimStart_nil (h : Text.trimStartChars cs = []) : trimChars cs = [] := by
  rw [trimChars, h]
  rfl

theorem length_le_of_many {p : Char → Bool} {c : Char} {u v x y : List Char} (hu : u ∈ many p)
    (hc : p c = false) (h : u ++ x = v ++ c :: y) : u.length ≤ v.length := by
  rcases List.append_eq_append_iff.mp h with ⟨more, rfl, -⟩ | ⟨more, rfl, hmore⟩
  · rw [List.length_append]
    omega
  · cases more with
    | nil => rw [List.append_nil]
    | cons d more =>
      cases hmore
      rw [hu c (List.mem_append_right _ List.mem_cons_self)] at hc
      cases hc

theorem castOpen_not_literal (hw : w ∈ castOpen) (inside : List Char) :
    w ++ inside ∉ literalPattern := by
  obtain ⟨opened, hopened, rest, -, rfl⟩ := hw
  obtain ⟨c, cs, hcs, hc⟩ := word_head hopened (rest ++ inside)
  intro hmatch
  have hcs : opened ++ rest ++ inside = c :: cs := by rw [List.append_assoc, hcs]
  have hstart : isTypeStart c = true := by
    rw [isTypeStart, hc]
    rfl
  obtain ⟨w, hw, more, hwhole, -⟩ := literalPattern_name hstart (hcs ▸ hmatch)
  have hother {letter : Char} {letters : List Char} (hw : w.map fold = letter :: letters) :
      letter = 'c' := by
    obtain ⟨d, ds, hds, rfl⟩ := word_head hw more
    obtain ⟨rfl, -⟩ := List.cons.inj (hds.symm.trans hwhole)
    exact hc
  rcases hw with hw | hw | hw <;> exact absurd (hother hw) (by decide)

/-- What stands before the last `AS` is captured, unless it is blank. -/
theorem captures_of_castOperand? (h : castOperand? cs = some operand) (hne : operand ≠ []) :
    ∃ group, Captures cs group ∧ trimChars group = operand := by
  obtain ⟨opened, hopened, inside, before, rfl, hbefore, rfl⟩ := castOperand?_split h
  obtain ⟨last, hlast, rfl⟩ := beforeLastAs?_split hbefore
  obtain ⟨blanks, hblanks, hskip⟩ := skipBlanks_split before
  have hgroup : skipBlanks before ≠ [] := fun hnil => hne (trimChars_of_trimStart_nil hnil)
  have hcut : CutsCast (opened ++ (before ++ last)) (opened ++ blanks) (skipBlanks before) last :=
    ⟨Language.append_mem_mul hopened hblanks, hgroup, castTail_of_asEnd hlast, by
      rw [List.append_assoc, ← List.append_assoc blanks, hskip]⟩
  refine ⟨skipBlanks before, ⟨_, _, hcut, ?_⟩, ?_⟩
  · rintro _ group' tail' ⟨⟨opened', hopened', blanks', hblanks', rfl⟩, -, htail', hcs⟩
    simp only [List.append_assoc] at hcs
    have hopen : some (blanks' ++ (group' ++ tail')) = some (before ++ last) :=
      (afterCastOpen?_eq_some.mpr ⟨opened', hopened', hcs⟩).symm.trans
        (afterCastOpen?_eq_some.mpr ⟨opened, hopened, rfl⟩)
    have hinside := Option.some.inj hopen
    rw [hinside] at hcs
    obtain rfl := List.append_cancel_right hcs
    obtain ⟨blanks'', -, tail'', htail'', rfl⟩ := asEnd_of_castTail htail'
    have hplace : (blanks' ++ (group' ++ blanks'')) ++ tail'' = before ++ last := by
      rw [← hinside]
      simp only [List.append_assoc]
    obtain ⟨before', hbefore', hmost⟩ := beforeLastAs?_longest htail'' hplace
    obtain rfl : before = before' := Option.some.inj (hbefore.symm.trans hbefore')
    have hlead : blanks'.length ≤ blanks.length := by
      obtain ⟨c, more, hmore⟩ := List.exists_cons_of_ne_nil hgroup
      have hc : isBlank c = false := by
        have hhead := List.head?_dropWhile_not isBlank before
        rw [← skipBlanks, hmore] at hhead
        simpa using hhead
      rw [← hskip, hmore, List.append_assoc, List.cons_append] at hinside
      exact length_le_of_many hblanks' hc hinside
    have hlength := congrArg List.length hskip
    simp only [List.length_append] at hmost hlength ⊢
    omega
  · rw [← hskip, trimChars_many_append hblanks, hskip]

theorem isLiteralDefault_eq (s : String) : isLiteralDefault s = true ↔
    (castOperand? (trimChars s.toList)).getD (trimChars s.toList) ∈ literalPattern :=
  isLiteral_iff

/-- A default is a literal when what its cast captures, or the whole of it where it is no cast,
matches the pattern of literals. -/
theorem isLiteralDefault_iff (s : String) : isLiteralDefault s = true ↔
    (∃ group, Captures (trimChars s.toList) group ∧ trimChars group ∈ literalPattern) ∨
      (∀ group, ¬Captures (trimChars s.toList) group) ∧ trimChars s.toList ∈ literalPattern := by
  rw [isLiteralDefault_eq]
  cases hcast : castOperand? (trimChars s.toList) with
  | none =>
    have hno (group : List Char) : ¬Captures (trimChars s.toList) group := by
      intro hcaptures
      rw [hcaptures.castOperand?] at hcast
      cases hcast
    simp [hno]
  | some operand =>
    have hsame {group : List Char} (hcaptures : Captures (trimChars s.toList) group) :
        trimChars group = operand :=
      Option.some.inj (hcaptures.castOperand?.symm.trans hcast)
    rw [Option.getD_some]
    by_cases hnil : operand = []
    · subst hnil
      obtain ⟨opened, hopened, inside, -, hcs, -, -⟩ := castOperand?_split hcast
      constructor
      · intro hmatch
        exact absurd hmatch not_nil_mem_literalPattern
      · rintro (⟨group, hcaptures, hmatch⟩ | ⟨-, hmatch⟩)
        · rwa [hsame hcaptures] at hmatch
        · rw [← hcs] at hmatch
          exact absurd hmatch (castOpen_not_literal hopened inside)
    · obtain ⟨group, hcaptures, hgroup⟩ := captures_of_castOperand? hcast hnil
      constructor
      · intro hmatch
        exact .inl ⟨group, hcaptures, by rwa [hgroup]⟩
      · rintro (⟨group', hcaptures', hmatch⟩ | ⟨hno, -⟩)
        · rwa [hsame hcaptures'] at hmatch
        · exact absurd hcaptures (hno group)

end Captures

end TableLoad.LiteralDefault
