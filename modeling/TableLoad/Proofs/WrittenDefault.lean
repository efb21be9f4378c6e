import TableLoad.Proofs.DefaultPattern
import TableLoad.Proofs.WrittenNumber

open scoped Computability

namespace TableLoad

open Text (isBlank isDecimalDigit trimChars trimEndChars)
open LiteralDefault

/-- A literal as a default spells it. -/
inductive WrittenLiteral
  | quoted (s : String)
  | number (d : WrittenDecimal)
  | word (cs : List Char)
      (spelled : cs.map Char.toLower ∈ ["null".toList, "true".toList, "false".toList])

/-- A text in single quotes; a quote inside the text is written twice. -/
def singleQuoted (s : String) : List Char :=
  '\'' :: (s.toList.flatMap (fun c => if c = '\'' then ['\'', '\''] else [c]) ++ ['\''])

namespace WrittenLiteral

def chars : WrittenLiteral → List Char
  | quoted s => singleQuoted s
  | number d => d.chars
  | word cs _ => cs

def text (l : WrittenLiteral) : String :=
  String.ofList l.chars

end WrittenLiteral

/-- A type as a cast names it: letters, digits, underscores and spaces, in which `as` is no word in
whatever case, and perhaps sizes. -/
structure TypeName where
  name : List Char
  /-- What stands in the parentheses; none where there are none. -/
  sizes : Option (List Char)
  name_start : ∃ c ∈ name.head?, c.isAlpha = true ∨ c = '_'
  name_chars : ∀ c ∈ name, c.isAlphanum = true ∨ c = '_' ∨ c = ' '
  no_as : ∀ word ∈ Text.splitOnChar ' ' name, word.map Char.toLower ≠ "as".toList
  sizes_chars : ∀ inside ∈ sizes, ∀ c ∈ inside, c.isDigit = true ∨ c = ',' ∨ c = ' '

namespace TypeName

def sizesChars : Option (List Char) → List Char
  | none => []
  | some inside => '(' :: (inside ++ [')'])

def chars (t : TypeName) : List Char :=
  t.name ++ sizesChars t.sizes

def text (t : TypeName) : String :=
  String.ofList t.chars

end TypeName

def castTo (operand : String) (t : TypeName) : String :=
  "CAST(" ++ operand ++ " AS " ++ t.text ++ ")"

/-- The name of a function: letters, digits, underscores and dots, but not `cast`, in whatever
case. -/
structure FunctionName where
  chars : List Char
  start : ∃ c ∈ chars.head?, c.isAlpha = true ∨ c = '_'
  all_chars : ∀ c ∈ chars, c.isAlphanum = true ∨ c = '_' ∨ c = '.'
  not_cast : chars.map Char.toLower ≠ "cast".toList

namespace FunctionName

def text (f : FunctionName) : String :=
  String.ofList f.chars

def call (f : FunctionName) (arguments : String) : String :=
  f.text ++ "(" ++ arguments ++ ")"

end FunctionName

section Ascii

variable {c : Char} {cs : List Char}

theorem fold_of_ascii (h : c.toNat < 128) : fold c = c.toLower := by
  rw [fold, if_neg, if_neg]
  · rintro rfl
    exact absurd h (by decide)
  · rintro rfl
    exact absurd h (by decide)

theorem isAlphanum_ascii (h : c.isAlphanum = true) : c.toNat < 128 := by
  rw [Char.isAlphanum, Bool.or_eq_true, isAlpha_bounds, isDigit_bounds] at h
  omega

theorem map_fold_of_ascii (h : ∀ c ∈ cs, c.toNat < 128) : cs.map fold = cs.map Char.toLower :=
  List.map_congr_left fun c hc => fold_of_ascii (h c hc)

/-- A word in lower-case letters is recognised in whatever case it is written. -/
theorem mem_word {w : String} (hw : ∀ c ∈ w.toList, c.isAlpha = true)
    (h : cs.map Char.toLower = w.toList) : cs ∈ word w := by
  show cs.map fold = w.toList
  rw [map_fold_of_ascii, h]
  intro c hc
  have hletter : c.toLower.isAlpha = true := hw _ (h ▸ List.mem_map_of_mem hc)
  rw [Char.isAlpha_toLower_eq_isAlpha, isAlpha_bounds] at hletter
  omega

theorem isTypeStart_of_start (h : c.isAlpha = true ∨ c = '_') : isTypeStart c = true := by
  rw [isTypeStart, Bool.or_eq_true, beq_iff_eq, isLower_fold]
  exact h.imp .inl id

end Ascii

section Literals

theorem singleQuoted_mem (s : String) : singleQuoted s ∈ quotation := by
  refine Language.append_mem_mul (a := ['\'']) rfl (Language.append_mem_mul ?_ rfl)
  refine Language.mem_kstar.mpr ⟨s.toList.map fun c => if c = '\'' then ['\'', '\''] else [c],
    List.flatMap_def, ?_⟩
  intro piece hpiece
  obtain ⟨c, -, rfl⟩ := List.mem_map.mp hpiece
  split
  · exact .inr ⟨['\''], rfl, ['\''], rfl, rfl⟩
  · next hc => exact .inl ⟨c, rfl, by simpa using hc⟩

theorem Sign.chars_mem (sign : Sign) : sign.chars ∈ maybe (one isSign) := by
  cases sign with
  | none => exact .inl rfl
  | plus => exact .inr ⟨'+', rfl, rfl⟩
  | minus => exact .inr ⟨'-', rfl, rfl⟩

theorem digits_mem {ds : List Char} (h : ∀ d ∈ ds, d.isDigit = true) : ds ∈ many isDecimalDigit :=
  fun d hd => Text.isDecimalDigit_of_isDigit (h d hd)

namespace WrittenDecimal

theorem exponentChars_mem (x : Option WrittenExponent) :
    exponentChars x ∈ LiteralDefault.exponent := by
  cases x with
  | none => exact .inl rfl
  | some x =>
    have hletter : [x.letter] ∈ LiteralDefault.word "e" := by
      rcases x.letter_e with h | h <;> rw [h] <;> rfl
    exact .inr (Language.append_mem_mul hletter (Language.append_mem_mul x.power.sign.chars_mem
      ⟨x.power.digits_ne, digits_mem x.power.all_digits⟩))

variable (d : WrittenDecimal)

theorem chars_mem : d.chars ∈ LiteralDefault.number := by
  refine Language.append_mem_mul d.sign.chars_mem ?_
  rw [body, ← List.append_assoc]
  refine Language.append_mem_mul ?_ (exponentChars_mem d.exponent)
  have hwhole := digits_mem d.whole_digits
  have hfraction := digits_mem d.fraction_digits
  have hsome := d.some_digit
  cases hpoint : d.fraction with
  | none =>
    rw [hpoint, Option.getD_none, List.append_nil] at hsome
    exact .inl (Language.append_mem_mul ⟨hsome, hwhole⟩
      (Language.append_mem_mul (a := []) (b := []) (.inl rfl) (List.forall_mem_nil _)))
  | some ds =>
    rw [hpoint, Option.getD_some] at hsome hfraction
    by_cases hnone : d.whole = []
    · rw [hnone] at hsome ⊢
      exact .inr (Language.append_mem_mul (a := ['.']) rfl ⟨hsome, hfraction⟩)
    · exact .inl (Language.append_mem_mul ⟨hnone, hwhole⟩
        (Language.append_mem_mul (a := ['.']) (.inr rfl) hfraction))

end WrittenDecimal

theorem WrittenLiteral.chars_mem (l : WrittenLiteral) : l.chars ∈ literal := by
  cases l with
  | quoted s => exact .inl (singleQuoted_mem s)
  | number d => exact .inr (.inl d.chars_mem)
  | word cs spelled =>
    simp only [List.mem_cons, List.not_mem_nil, or_false] at spelled
    rcases spelled with h | h | h
    · exact .inr (.inr (.inl (mem_word (by simp) h)))
    · exact .inr (.inr (.inr (.inl (mem_word (by simp) h))))
    · exact .inr (.inr (.inr (.inr (mem_word (by simp) h))))

end Literals

section Types

theorem trimChars_between (hbefore : before ∈ many isBlank)
    (hhead : ∀ d ∈ (u ++ [c]).head?, isBlank d = false) (hc : isBlank c = false) (v : List Char) :
    trimChars (before ++ (u ++ c :: v)) = u ++ c :: trimEndChars v := by
  have hdrop : (before ++ (u ++ c :: v)).dropWhile isBlank = u ++ c :: v := by
    refine dropWhile_many hbefore fun d hd => hhead d ?_
    cases u <;> exact hd
  rw [trimChars, Text.trimStartChars, hdrop, Text.trimEndChars_append_cons hc]

namespace TypeName

variable (t : TypeName)

theorem name_cons : ∃ c cs, t.name = c :: cs ∧ isTypeStart c = true := by
  obtain ⟨c, hc, hstart⟩ := t.name_start
  obtain ⟨cs, hcs⟩ := List.head?_eq_some_iff.mp hc
  exact ⟨c, cs, hcs, isTypeStart_of_start hstart⟩

theorem ascii {c : Char} (hc : c ∈ ' ' :: t.name) : c.toNat < 128 := by
  rcases List.mem_cons.mp hc with rfl | hc
  · decide
  · rcases t.name_chars c hc with h | rfl | rfl
    · exact isAlphanum_ascii h
    · decide
    · decide

theorem isTypeChar_name {c : Char} (hc : c ∈ t.name) : isTypeChar c = true := by
  rcases t.name_chars c hc with h | rfl | rfl
  · rw [Char.isAlphanum, Bool.or_eq_true] at h
    rcases h with halpha | hdigit
    · rw [isTypeChar, isTypeStart_of_start (.inl halpha)]
      rfl
    · rw [isTypeChar, hdigit, Bool.or_true]
      rfl
  · decide
  · decide

theorem isOutside_name {c : Char} (hc : c ∈ t.name) : isOutside c = true := by
  rw [isOutside, Bool.and_eq_true, bne_iff_ne, bne_iff_ne]
  have hchar := t.name_chars c hc
  constructor
  · rintro rfl
    exact absurd hchar (by decide)
  · rintro rfl
    exact absurd hchar (by decide)

theorem sizesChars_mem : sizesChars t.sizes ∈ maybe LiteralDefault.sizes := by
  cases hsizes : t.sizes with
  | none => exact .inl rfl
  | some inside =>
    refine .inr (Language.append_mem_mul (a := ['(']) rfl (Language.append_mem_mul ?_ rfl))
    intro c hc
    rcases t.sizes_chars inside (by rw [hsizes]; rfl) c hc with hdigit | rfl | rfl
    · rw [isSizeChar, Text.isDecimalDigit_of_isDigit hdigit]
      rfl
    · decide
    · decide

theorem name_run : t.name ∈ run isOutside := by
  obtain ⟨c, cs, hcs, -⟩ := t.name_cons
  exact ⟨by rw [hcs]; exact List.cons_ne_nil _ _, fun c hc => t.isOutside_name hc⟩

theorem castTail_mem : " AS ".toList ++ (t.chars ++ [')']) ∈ asEnd := by
  have hend : [' '] ++ (t.name ++ (sizesChars t.sizes ++ ([] ++ [')']))) ∈ castEnd :=
    Language.append_mem_mul ⟨List.cons_ne_nil _ _, List.forall_mem_singleton.mpr rfl⟩
      (Language.append_mem_mul t.name_run (Language.append_mem_mul t.sizesChars_mem
        (Language.append_mem_mul (List.forall_mem_nil _) rfl)))
  have hwhole : " AS ".toList ++ (t.chars ++ [')']) =
      [' '] ++ (['A', 'S'] ++ ([' '] ++ (t.name ++ (sizesChars t.sizes ++ ([] ++ [')']))))) := by
    simp [chars]
  rw [hwhole]
  exact Language.append_mem_mul ⟨' ', rfl, rfl⟩ (Language.append_mem_mul (b := _) rfl hend)

/-- Behind its name a type has no letters. -/
theorem not_letter_behind {c : Char} (hc : c ∈ sizesChars t.sizes ++ [')']) :
    (fold c).isLower = false := by
  rcases List.mem_append.mp hc with hc | hc
  · cases hsizes : t.sizes with
    | none =>
      rw [hsizes] at hc
      cases hc
    | some inside =>
      rw [hsizes, sizesChars, List.mem_cons, List.mem_append] at hc
      rcases hc with rfl | hc | hc
      · decide
      · rcases t.sizes_chars inside (by rw [hsizes]; rfl) c hc with hdigit | rfl | rfl
        · exact isDecimalDigit_not_letter (Text.isDecimalDigit_of_isDigit hdigit)
        · decide
        · decide
      · rw [List.mem_singleton.mp hc]
        decide
  · rw [List.mem_singleton.mp hc]
    decide

theorem head_behind : ∀ c ∈ (sizesChars t.sizes ++ [')']).head?, isBlank c = false := by
  intro c hc
  cases hsizes : t.sizes with
  | none =>
    rw [hsizes] at hc
    cases hc
    decide
  | some inside =>
    rw [hsizes] at hc
    cases hc
    decide

theorem blank_of_name {c : Char} (hc : c ∈ ' ' :: t.name) (hblank : isBlank c = true) :
    c = ' ' := by
  rcases List.mem_cons.mp hc with rfl | hc
  · rfl
  · rcases t.name_chars c hc with h | rfl | rfl
    · rw [not_isBlank_of_isAlphanum h] at hblank
      cases hblank
    · exact absurd hblank (by decide)
    · rfl

/-- No end of a cast begins inside of its type. -/
theorem no_asEnd {u tail : List Char} (h : u ++ tail = ' ' :: (t.chars ++ [')'])) :
    tail ∉ asEnd := by
  rintro ⟨_, ⟨b, rfl, hb⟩, _, ⟨as, has, _, ⟨gap, ⟨hgapNe, hgap⟩, more, -, rfl⟩, rfl⟩, rfl⟩
  obtain ⟨c, gap, rfl⟩ := List.exists_cons_of_ne_nil hgapNe
  have hc := hgap c List.mem_cons_self
  have hletters : as.map fold = ['a', 's'] := has
  obtain ⟨first, second, rfl⟩ : ∃ first second, as = [first, second] :=
    List.length_eq_two.mp (by rw [← List.length_map fold, hletters]; rfl)
  obtain ⟨hfirst, hsecond⟩ : fold first = 'a' ∧ fold second = 's' := by simpa using hletters
  have hsplit : (u ++ [b, first]) ++ [second] ++ (c :: gap ++ more) =
      (' ' :: t.name) ++ (sizesChars t.sizes ++ [')']) := by
    simpa [chars] using h
  obtain ⟨m, hname, hrest⟩ := append_split hsplit fun hmem => by
    have hnot := t.not_letter_behind hmem
    rw [hsecond] at hnot
    cases hnot
  cases m with
  | nil =>
    have hnot := t.head_behind c (by rw [← List.nil_append (_ ++ [')']), ← hrest]; rfl)
    rw [hc] at hnot
    cases hnot
  | cons c' m =>
    obtain ⟨rfl, -⟩ := List.cons.inj hrest
    have hmem {d : Char} (hd : d ∈ (u ++ [b, first]) ++ [second] ++ c :: m) :
        d ∈ ' ' :: t.name := by
      rw [hname]
      exact hd
    obtain rfl : b = ' ' := t.blank_of_name (hmem (by simp)) hb
    obtain rfl : c = ' ' := t.blank_of_name (hmem (by simp)) hc
    have hspace : ' ' ∉ [first, second] := by
      rw [List.mem_pair]
      rintro (rfl | rfl)
      · exact absurd hfirst (by decide)
      · exact absurd hsecond (by decide)
    have hbetween : ' ' :: t.name = u ++ ' ' :: ([first, second] ++ ' ' :: m) := by
      rw [hname]
      simp
    have hword := Text.mem_splitOnChar hspace (List.cons_ne_nil _ _) hbetween
    have hascii : ∀ d ∈ [first, second], d.toNat < 128 := by
      intro d hd
      apply t.ascii
      rcases List.mem_pair.mp hd with rfl | rfl <;> exact hmem (by simp)
    have hlower : [first, second].map Char.toLower = "as".toList := by
      rw [← map_fold_of_ascii hascii, hletters]
      rfl
    exact t.no_as _ hword hlower

/-- What a cast to a type casts is found behind the parenthesis, whatever stands in it. -/
theorem castOperand?_cast (cs : List Char) :
    castOperand? ("CAST(".toList ++ (cs ++ (" AS ".toList ++ (t.chars ++ [')'])))) =
      some (trimChars cs) := by
  have hopen : "CAST(".toList ∈ castOpen := by
    have hwhole : "CAST(".toList = ['C', 'A', 'S', 'T'] ++ ([] ++ ['(']) := by simp
    rw [hwhole]
    exact Language.append_mem_mul rfl (Language.append_mem_mul (List.forall_mem_nil _) rfl)
  obtain ⟨before, hbefore, hlength⟩ := beforeLastAs?_longest t.castTail_mem (w := cs) rfl
  obtain ⟨last, hlast, hsplit⟩ := beforeLastAs?_split hbefore
  obtain ⟨m, rfl, hm⟩ := append_longer hsplit hlength
  have hspaces : " AS ".toList = [' ', 'A', 'S', ' '] := by simp
  rw [hspaces] at hm
  -- The blank of the last `AS` is the first character behind the operand, or one of the type's.
  rcases m with _ | ⟨_, _ | ⟨_, _ | ⟨_, m⟩⟩⟩
  · rw [List.append_nil] at hbefore
    exact castOperand?_of_before hopen hbefore
  · obtain ⟨-, hm⟩ : _ ∧ last = 'A' :: 'S' :: ' ' :: (t.chars ++ [')']) := by simpa using hm
    rw [hm, asEnd_cons] at hlast
    exact absurd hlast (by simp [isBlank])
  · obtain ⟨-, -, hm⟩ : _ ∧ _ ∧ last = 'S' :: ' ' :: (t.chars ++ [')']) := by simpa using hm
    rw [hm, asEnd_cons] at hlast
    exact absurd hlast (by simp [isBlank])
  · obtain ⟨-, -, -, hm⟩ : _ ∧ _ ∧ _ ∧ m ++ last = ' ' :: (t.chars ++ [')']) := by
      simpa using hm
    exact absurd hlast (t.no_asEnd hm)

end TypeName

end Types

section Calls

variable {w u v rest front : List Char}

namespace FunctionName

variable (f : FunctionName)

theorem chars_cons : ∃ c cs, f.chars = c :: cs ∧ isTypeStart c = true := by
  obtain ⟨c, hc, hstart⟩ := f.start
  obtain ⟨cs, hcs⟩ := List.head?_eq_some_iff.mp hc
  exact ⟨c, cs, hcs, isTypeStart_of_start hstart⟩

theorem not_isEnd {c : Char} (hc : c ∈ f.chars) : isEnd c = false := by
  rcases f.all_chars c hc with h | rfl | rfl
  · have hparen : c ≠ ')' := by
      rintro rfl
      exact absurd h (by decide)
    have hcolon : c ≠ ':' := by
      rintro rfl
      exact absurd h (by decide)
    rw [isEnd, not_isBlank_of_isAlphanum h]
    simp [hparen, hcolon]
  · decide
  · decide

theorem not_paren : '(' ∉ f.chars := by
  intro hmem
  exact absurd (f.all_chars _ hmem) (by decide)

theorem ascii {c : Char} (hc : c ∈ f.chars) : c.toNat < 128 := by
  rcases f.all_chars c hc with h | rfl | rfl
  · exact isAlphanum_ascii h
  · decide
  · decide

/-- A text without a parenthesis in front of the call is in front of the parenthesis. -/
theorem split_call (hw : '(' ∉ w) (h : w ++ rest = f.chars ++ '(' :: v) :
    ∃ m, f.chars = w ++ m ∧ rest = m ++ '(' :: v := by
  rcases List.append_eq_append_iff.mp h with hinside | ⟨m, hm, hrest⟩
  · exact hinside
  · cases m with
    | nil =>
      rw [List.append_nil] at hm
      exact ⟨[], by rw [hm, List.append_nil], hrest.symm⟩
    | cons c m =>
      obtain ⟨rfl, -⟩ := List.cons.inj hrest
      exact absurd (by rw [hm]; simp) hw

theorem word_not_paren {s : String} (hw : w ∈ word s) (hs : '(' ∉ s.toList) : '(' ∉ w := by
  intro hmem
  have hw : w.map fold = s.toList := hw
  have hfold : fold '(' = '(' := by decide
  exact hs (hw ▸ hfold ▸ List.mem_map_of_mem hmem)

theorem castOperand?_call (v : List Char) : castOperand? (f.chars ++ '(' :: v) = none := by
  rw [Option.eq_none_iff_forall_ne_some]
  intro operand hoperand
  obtain ⟨_, ⟨opened, hopened, _, ⟨blanks, hblanks, _, rfl, rfl⟩, rfl⟩, inside, -, hcs, -⟩ :=
    castOperand?_split hoperand
  have hcs : opened ++ (blanks ++ '(' :: inside) = f.chars ++ '(' :: v := by simpa using hcs
  obtain ⟨m, hname, hrest⟩ := f.split_call (word_not_paren hopened (by simp)) hcs
  cases m with
  | nil =>
    rw [List.append_nil] at hname
    apply f.not_cast
    rw [← map_fold_of_ascii fun c hc => f.ascii hc, hname]
    exact hopened
  | cons c m =>
    have hc : c ∈ f.chars := by
      rw [hname]
      simp
    cases blanks with
    | nil =>
      obtain ⟨rfl, -⟩ := List.cons.inj hrest
      exact f.not_paren hc
    | cons b blanks =>
      obtain ⟨rfl, -⟩ := List.cons.inj hrest
      have hend := f.not_isEnd hc
      rw [isEnd, hblanks b List.mem_cons_self] at hend
      cases hend

theorem call_not_literal (v : List Char) : f.chars ++ '(' :: v ∉ literalPattern := by
  intro hmatch
  obtain ⟨c, cs, hcs, hstart⟩ := f.chars_cons
  rw [hcs] at hmatch
  obtain ⟨w, hw, rest, hrest, hend⟩ := literalPattern_name hstart hmatch
  have hparen : '(' ∉ w := by
    rcases hw with hw | hw | hw <;> exact word_not_paren hw (by simp)
  have hcall : w ++ rest = f.chars ++ '(' :: v := by
    rw [hrest, hcs]
    rfl
  obtain ⟨m, hname, rfl⟩ := f.split_call hparen hcall
  cases m with
  | nil => exact absurd (hend '(' rfl) (by decide)
  | cons d m =>
    have hd := f.not_isEnd (c := d) (by rw [hname]; simp)
    rw [hend d rfl] at hd
    cases hd

end FunctionName

end Calls

section Classes

variable {w cs t : List Char} {s before after : String}

theorem castOperand?_of_matches (h : cs ∈ literalPattern) : castOperand? cs = none := by
  rw [Option.eq_none_iff_forall_ne_some]
  intro operand hoperand
  obtain ⟨opened, hopened, inside, -, rfl, -⟩ := castOperand?_split hoperand
  exact castOpen_not_literal hopened inside h

theorem literal_matches (hw : w ∈ literal) (ht : t ∈ typeCast∗) : w ++ t ∈ literalPattern := by
  have hwhole : w ++ t = [] ++ ([] ++ (w ++ ([] ++ ([] ++ t)))) := by simp
  rw [hwhole]
  exact Language.append_mem_mul (.inl rfl) (Language.append_mem_mul (List.forall_mem_nil _)
    (Language.append_mem_mul hw (Language.append_mem_mul (List.forall_mem_nil _)
      (Language.append_mem_mul (.inl rfl) ht))))

theorem blanks_mem (h : Text.isAllBlank s = true) : s.toList ∈ many isBlank :=
  List.all_eq_true.mp h

theorem trimChars_around {c : Char} {u v : List Char} (hbefore : Text.isAllBlank before = true)
    (hs : s.toList = u ++ c :: v) (hhead : ∀ d ∈ (u ++ [c]).head?, isBlank d = false)
    (hc : isBlank c = false) :
    trimChars (before ++ s ++ after).toList = u ++ c :: trimEndChars (v ++ after.toList) := by
  have hwhole : (before ++ s ++ after).toList =
      before.toList ++ (u ++ c :: (v ++ after.toList)) := by
    rw [String.toList_append, String.toList_append, hs]
    simp
  rw [hwhole, trimChars_between (blanks_mem hbefore) hhead hc]

theorem trimChars_literal (hbefore : Text.isAllBlank before = true)
    (hafter : Text.isAllBlank after = true) (hs : s.toList ∈ literal) :
    trimChars (before ++ s ++ after).toList = s.toList := by
  obtain ⟨u, c, hlast, hc⟩ := literal_last hs
  have htrim : trimChars (before ++ s ++ after).toList =
      u ++ c :: trimEndChars ([] ++ after.toList) := by
    apply trimChars_around hbefore hlast _ hc
    intro d hd
    rw [← hlast, ← List.append_nil s.toList] at hd
    exact isStart_not_blank (forall_head (literal_head hs []) d hd)
  rw [htrim, List.nil_append, Text.trimEndChars_blank (blanks_mem hafter), hlast]

/-- A cast is a literal when what it casts is one. -/
theorem isLiteralDefault_castTo (hbefore : Text.isAllBlank before = true)
    (hafter : Text.isAllBlank after = true) (operand : String) (t : TypeName) :
    isLiteralDefault (before ++ castTo operand t ++ after) = true ↔
      trimChars operand.toList ∈ literalPattern := by
  have hcast : (castTo operand t).toList =
      "CAST(".toList ++ (operand.toList ++ (" AS ".toList ++ (t.chars ++ [')']))) := by
    simp [castTo, TypeName.text]
  have htrim : trimChars (before ++ castTo operand t ++ after).toList =
      (castTo operand t).toList := by
    have hend : (castTo operand t).toList =
        ("CAST(".toList ++ (operand.toList ++ (" AS ".toList ++ t.chars))) ++ ')' :: [] := by
      rw [hcast]
      simp
    rw [trimChars_around hbefore hend _ rfl, List.nil_append,
      Text.trimEndChars_blank (blanks_mem hafter), hend]
    intro d hd
    have hd : d ∈ some 'C' := by simpa using hd
    cases hd
    rfl
  rw [isLiteralDefault_eq, htrim, hcast, t.castOperand?_cast, Option.getD_some]

theorem isLiteralDefault_of_matches (h : trimChars s.toList ∈ literalPattern) :
    isLiteralDefault s = true := by
  rw [isLiteralDefault_eq, castOperand?_of_matches h, Option.getD_none]
  exact h

/-- The blanks behind a type go with the type or with the end of the text. -/
theorem TypeName.cast_mem (t : TypeName) (hafter : Text.isAllBlank after = true) :
    ∃ c v, t.chars = c :: v ∧ isBlank c = false ∧
      "::".toList ++ c :: trimEndChars (v ++ after.toList) ∈ typeCast := by
  obtain ⟨c, cs, hname, hstart⟩ := t.name_cons
  have hcs : cs ∈ many isTypeChar := fun d hd => t.isTypeChar_name (by rw [hname]; simp [hd])
  have hcast {v : List Char} (hv : v ∈ many isTypeChar * typeEnd) :
      "::".toList ++ c :: v ∈ typeCast := by
    have hwhole : "::".toList ++ c :: v = [] ++ ([':'] ++ ([':'] ++ ([] ++ ([c] ++ v)))) := by simp
    rw [hwhole]
    exact Language.append_mem_mul (List.forall_mem_nil _) (Language.append_mem_mul rfl
      (Language.append_mem_mul rfl (Language.append_mem_mul (List.forall_mem_nil _)
        (Language.append_mem_mul ⟨c, rfl, hstart⟩ hv))))
  have hchars : t.chars = c :: (cs ++ sizesChars t.sizes) := by
    rw [chars, hname]
    rfl
  refine ⟨c, cs ++ sizesChars t.sizes, hchars, isTypeStart_not_blank hstart, hcast ?_⟩
  cases hsizes : t.sizes with
  | none =>
    have hall : cs ++ sizesChars none ++ after.toList ∈ many isTypeChar := by
      refine many_append (many_append hcs (List.forall_mem_nil _)) fun d hd => ?_
      rw [isTypeChar, blanks_mem hafter d hd, Bool.or_true]
    have hwhole (v : List Char) : v = v ++ ([] ++ []) := by simp
    rw [hwhole (trimEndChars _)]
    exact Language.append_mem_mul (fun d hd => hall d (Text.mem_of_mem_trimEndChars hd))
      (Language.append_mem_mul (.inl rfl) (.inl rfl))
  | some inside =>
    have hmem := t.sizesChars_mem
    rw [hsizes] at hmem
    have hend : cs ++ sizesChars (some inside) ++ after.toList =
        (cs ++ '(' :: inside) ++ ')' :: after.toList := by simp [sizesChars]
    have hwhole : (cs ++ '(' :: inside) ++ ')' :: [] =
        cs ++ (sizesChars (some inside) ++ []) := by simp [sizesChars]
    rw [hend, Text.trimEndChars_append_cons rfl, Text.trimEndChars_blank (blanks_mem hafter),
      hwhole]
    exact Language.append_mem_mul hcs (Language.append_mem_mul hmem (.inl rfl))

theorem isLiteralDefault_cast (hbefore : Text.isAllBlank before = true)
    (hafter : Text.isAllBlank after = true) (hs : s.toList ∈ literal) (t : TypeName) :
    isLiteralDefault (before ++ (s ++ "::" ++ t.text) ++ after) = true := by
  obtain ⟨c, v, hchars, hc, hcast⟩ := t.cast_mem hafter
  have hwhole : (s ++ "::" ++ t.text).toList = (s.toList ++ "::".toList) ++ c :: v := by
    simp [TypeName.text, hchars]
  apply isLiteralDefault_of_matches
  rw [trimChars_around hbefore hwhole _ hc, List.append_assoc]
  · exact literal_matches hs (mem_kstar.mpr (.inr
      ⟨_, hcast, [], Language.nil_mem_kstar _, List.append_nil _⟩))
  · intro d hd
    rw [List.append_assoc] at hd
    exact isStart_not_blank (forall_head (literal_head hs _) d hd)

theorem FunctionName.toList_call (f : FunctionName) (arguments : String) :
    (f.call arguments).toList = f.chars ++ '(' :: (arguments.toList ++ [')']) := by
  simp [call, text]

theorem FunctionName.trimChars_call (f : FunctionName) {v : List Char}
    (hbefore : Text.isAllBlank before = true) (hs : s.toList = f.chars ++ '(' :: v) :
    trimChars (before ++ s ++ after).toList =
      f.chars ++ '(' :: trimEndChars (v ++ after.toList) := by
  obtain ⟨c, cs, hcs, hstart⟩ := f.chars_cons
  apply trimChars_around hbefore hs _ rfl
  intro d hd
  rw [hcs] at hd
  cases hd
  exact isTypeStart_not_blank hstart

theorem isLiteralDefault_call (f : FunctionName) {v : List Char}
    (hbefore : Text.isAllBlank before = true) (hs : s.toList = f.chars ++ '(' :: v) :
    isLiteralDefault (before ++ s ++ after) = false := by
  rw [Bool.eq_false_iff, ne_eq, isLiteralDefault_eq, f.trimChars_call hbefore hs,
    f.castOperand?_call, Option.getD_none]
  exact f.call_not_literal _

end Classes

namespace LiteralDefault

/-- Literals are told from calls of functions, each alone or cast to a type and with blanks around
it, whatever a quoted text and the arguments of a call have in them. -/
theorem isLiteralDefault_written {before after : String}
    (hbefore : Text.isAllBlank before = true) (hafter : Text.isAllBlank after = true)
    (l : WrittenLiteral) (f : FunctionName) (t : TypeName) (arguments behind : String) :
    isLiteralDefault (before ++ l.text ++ after) = true ∧
      isLiteralDefault (before ++ (l.text ++ "::" ++ t.text) ++ after) = true ∧
      isLiteralDefault (before ++ castTo l.text t ++ after) = true ∧
      isLiteralDefault (before ++ (f.call arguments ++ behind) ++ after) = false ∧
      isLiteralDefault (before ++ castTo (f.call arguments) t ++ after) = false := by
  have hl : l.text.toList ∈ literal := by
    rw [WrittenLiteral.text, String.toList_ofList]
    exact l.chars_mem
  have hmatches : l.text.toList ∈ literalPattern := by
    have hnone := literal_matches hl (Language.nil_mem_kstar typeCast)
    rwa [List.append_nil] at hnone
  refine ⟨?_, isLiteralDefault_cast hbefore hafter hl t, ?_, ?_, ?_⟩
  · apply isLiteralDefault_of_matches
    rwa [trimChars_literal hbefore hafter hl]
  · rw [isLiteralDefault_castTo hbefore hafter]
    have htrim : trimChars ("" ++ l.text ++ "").toList = _ := trimChars_literal rfl rfl hl
    rw [String.empty_append, String.append_empty] at htrim
    rwa [htrim]
  · apply isLiteralDefault_call f hbefore (v := arguments.toList ++ [')'] ++ behind.toList)
    rw [String.toList_append, f.toList_call]
    simp
  · rw [Bool.eq_false_iff, ne_eq, isLiteralDefault_castTo hbefore hafter]
    have htrim : trimChars ("" ++ f.call arguments ++ "").toList = _ :=
      f.trimChars_call rfl (f.toList_call arguments)
    rw [String.empty_append, String.append_empty] at htrim
    rw [htrim]
    exact f.call_not_literal _

end LiteralDefault

def TypeName.varying : TypeName where
  name := "character varying".toList
  sizes := some "20".toList
  name_start := ⟨'c', by simp, by decide⟩
  name_chars := by simp
  no_as := by simp [Text.splitOnChar]
  sizes_chars := by simp

def FunctionName.nextval : FunctionName where
  chars := "pg_catalog.nextval".toList
  start := ⟨'p', by simp, by decide⟩
  all_chars := by simp
  not_cast := by simp

namespace LiteralDefault

/-- A quoted text that looks like the end of a cast, and a call with such a text in it. -/
theorem isLiteralDefault_decoy :
    Text.isAllBlank " " = true ∧ Text.isAllBlank "\n" = true ∧
      isLiteralDefault (" " ++ "'it''s x) as y'" ++ "\n") = true ∧
      isLiteralDefault (" " ++ ("'it''s x) as y'" ++ "::" ++ "character varying(20)") ++ "\n") =
        true ∧
      isLiteralDefault (" " ++ castTo "'it''s x) as y'" .varying ++ "\n") = true ∧
      isLiteralDefault (" " ++ ("pg_catalog.nextval('x) as y')" ++ "::regclass") ++ "\n") = false ∧
      isLiteralDefault (" " ++ castTo "pg_catalog.nextval('x) as y')" .varying ++ "\n") =
        false := by
  have hbefore : Text.isAllBlank " " = true := rfl
  have hafter : Text.isAllBlank "\n" = true := rfl
  have hquoted : (WrittenLiteral.quoted "it's x) as y").text = "'it''s x) as y'" := by decide
  have htype : TypeName.varying.text = "character varying(20)" := by decide
  have hcall : FunctionName.nextval.call "'x) as y'" = "pg_catalog.nextval('x) as y')" := by decide
  have hwritten := isLiteralDefault_written hbefore hafter (.quoted "it's x) as y") .nextval
    .varying "'x) as y'" "::regclass"
  rw [hquoted, htype, hcall] at hwritten
  exact ⟨hbefore, hafter, hwritten⟩

end LiteralDefault

end TableLoad
