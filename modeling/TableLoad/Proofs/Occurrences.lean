import TableLoad.Proofs.Splitting
import TableLoad.Template

namespace TableLoad

namespace Template

open Text (isBlank splitOnChar)

section Characters

variable {c : Char}

/-- The characters of a path. -/
def isPathChar (c : Char) : Bool :=
  isIdentChar c || c == '.'

theorem isIdentChar_of_isIdentStart (h : isIdentStart c = true) : isIdentChar c = true := by
  simp only [isIdentStart, isIdentChar, Char.isAlphanum, Bool.or_eq_true] at h ⊢
  exact h.imp .inl id

theorem isPathChar_of_isIdentChar (h : isIdentChar c = true) : isPathChar c = true := by
  rw [isPathChar, h, Bool.true_or]

/-- A character of a path is a letter, a digit, an underscore or a point. -/
theorem not_blank_of_isPathChar (h : isPathChar c = true) : isBlank c = false := by
  simp only [isPathChar, isIdentChar, Char.isAlphanum, Char.isAlpha, Char.isUpper, Char.isLower,
    Char.isDigit, Bool.or_eq_true, Bool.and_eq_true, decide_eq_true_eq, beq_iff_eq, ge_iff_le,
    UInt32.le_iff_toNat_le] at h
  change ((((65 ≤ c.toNat ∧ c.toNat ≤ 90) ∨ (97 ≤ c.toNat ∧ c.toNat ≤ 122)) ∨
    (48 ≤ c.toNat ∧ c.toNat ≤ 57)) ∨ c = '_') ∨ c = '.' at h
  rcases h with (hascii | rfl) | rfl
  · simp only [isBlank, Bool.or_eq_false_iff, Bool.and_eq_false_iff, decide_eq_false_iff_not,
      beq_eq_false_iff_ne]
    omega
  · decide
  · decide

theorem not_isPathChar_of_blank (h : isBlank c = true) : isPathChar c = false := by
  rw [Bool.eq_false_iff]
  intro hpath
  rw [not_blank_of_isPathChar hpath] at h
  cases h

end Characters

/-- A variable as it is written: a path of identifiers between blanks, in double braces. -/
@[ext]
structure Occurrence where
  before : String
  names : List String
  after : String
  before_blank : Text.isAllBlank before = true
  names_ne : names ≠ []
  names_ident : ∀ name ∈ names, isIdent name.toList = true
  after_blank : Text.isAllBlank after = true

namespace Occurrence

def path (o : Occurrence) : String :=
  ".".intercalate o.names

def written (o : Occurrence) : String :=
  "\x7b\x7b" ++ o.before ++ o.path ++ o.after ++ "\x7d\x7d"

variable (o : Occurrence)

theorem toList_path : o.path.toList = ['.'].intercalate (o.names.map String.toList) := by
  rw [path, String.toList_intercalate]
  rfl

theorem toList_written : o.written.toList = '\x7b' :: '\x7b' ::
    (o.before.toList ++ (o.path.toList ++ (o.after.toList ++ ['\x7d', '\x7d']))) := by
  simp only [written, String.toList_append, List.append_assoc]
  rfl

theorem before_chars : ∀ c ∈ o.before.toList, isBlank c = true :=
  List.all_eq_true.mp o.before_blank

theorem after_chars : ∀ c ∈ o.after.toList, isBlank c = true :=
  List.all_eq_true.mp o.after_blank

theorem name_chars {name : String} (hname : name ∈ o.names) :
    ∀ c ∈ name.toList, isIdentChar c = true := by
  have hident := o.names_ident name hname
  cases hchars : name.toList with
  | nil => simp
  | cons c cs =>
    rw [hchars, isIdent, Bool.and_eq_true, List.all_eq_true] at hident
    exact List.forall_mem_cons.mpr ⟨isIdentChar_of_isIdentStart hident.1, hident.2⟩

theorem path_chars : ∀ c ∈ o.path.toList, isPathChar c = true := by
  intro c hc
  rw [toList_path] at hc
  rcases mem_intercalate hc with rfl | ⟨chars, hchars, hc⟩
  · decide
  · obtain ⟨name, hname, rfl⟩ := List.mem_map.mp hchars
    exact isPathChar_of_isIdentChar (o.name_chars hname c hc)

theorem path_ne_nil : o.path.toList ≠ [] := by
  obtain ⟨name, names, hnames⟩ := List.exists_cons_of_ne_nil o.names_ne
  have hident := o.names_ident name (hnames ▸ List.mem_cons_self)
  have hname : name.toList ≠ [] := by
    intro hnil
    rw [hnil] at hident
    exact absurd hident (by decide)
  rw [toList_path, hnames, List.map_cons]
  cases names with
  | nil => simpa using hname
  | cons next names => simp [List.intercalate_cons_cons]

/-- The names come back from the path. -/
theorem splitOnChar_path : (splitOnChar '.' o.path.toList).map String.ofList = o.names := by
  have hpoint : ∀ name ∈ o.names.map String.toList, '.' ∉ name := by
    intro chars hchars hmem
    obtain ⟨name, hname, rfl⟩ := List.mem_map.mp hchars
    exact absurd (o.name_chars hname '.' hmem) (by decide)
  rw [toList_path, Text.splitOnChar_intercalate (mt List.map_eq_nil_iff.mp o.names_ne) hpoint,
    List.map_map]
  simp [Function.comp_def]

theorem isPath_path : isPath o.path.toList = true := by
  have hsplit := congrArg (List.map String.toList) o.splitOnChar_path
  rw [List.map_map] at hsplit
  simp only [Function.comp_def, String.toList_ofList, List.map_id'] at hsplit
  rw [isPath, hsplit, List.all_map, List.all_eq_true]
  exact o.names_ident

theorem head_path (rest : List Char) :
    ∀ c ∈ (o.path.toList ++ rest).head?, isBlank c = false := by
  rw [List.head?_append_of_ne_nil _ o.path_ne_nil]
  exact fun c hc => not_blank_of_isPathChar (o.path_chars c (List.mem_of_mem_head? hc))

theorem head_after (rest : List Char) :
    ∀ c ∈ (o.after.toList ++ '\x7d' :: rest).head?, isPathChar c = false := by
  rcases eq_or_ne o.after.toList [] with hnil | hne
  · rw [hnil]
    intro c hc
    cases hc
    decide
  · rw [List.head?_append_of_ne_nil _ hne]
    exact fun c hc => not_isPathChar_of_blank (o.after_chars c (List.mem_of_mem_head? hc))

/-- The path stands between the blanks around it. -/
theorem blanks_and_path (rest : List Char) :
    let inner := o.before.toList ++ (o.path.toList ++ (o.after.toList ++ '\x7d' :: rest))
    inner.takeWhile isBlank = o.before.toList ∧
    (inner.dropWhile isBlank).takeWhile isPathChar = o.path.toList ∧
    ((inner.dropWhile isBlank).dropWhile isPathChar).takeWhile isBlank = o.after.toList ∧
    ((inner.dropWhile isBlank).dropWhile isPathChar).dropWhile isBlank = '\x7d' :: rest := by
  intro inner
  have hclose : ∀ c ∈ ('\x7d' :: rest).head?, isBlank c = false := by
    intro c hc
    cases hc
    decide
  have hbefore := takeWhile_run o.before_chars _
    (o.head_path (o.after.toList ++ '\x7d' :: rest))
  have hpath := takeWhile_run o.path_chars _ (o.head_after rest)
  have hafter := takeWhile_run o.after_chars _ hclose
  rw [hbefore.2, hpath.2]
  exact ⟨hbefore.1, hpath.1, hafter.1, hafter.2⟩

/-- Occurrences that begin in one place are one. -/
theorem eq_of_same_start {o o' : Occurrence} {rest rest' : List Char}
    (h : o.written.toList ++ rest = o'.written.toList ++ rest') : o = o' ∧ rest = rest' := by
  simp only [toList_written, List.cons_append, List.append_assoc, List.nil_append, List.cons.injEq,
    true_and] at h
  have hparts := o.blanks_and_path ('\x7d' :: rest)
  have hparts' := o'.blanks_and_path ('\x7d' :: rest')
  rw [h] at hparts
  have hbefore : o.before.toList = o'.before.toList := hparts.1.symm.trans hparts'.1
  have hpath : o.path.toList = o'.path.toList := hparts.2.1.symm.trans hparts'.2.1
  have hafter : o.after.toList = o'.after.toList := hparts.2.2.1.symm.trans hparts'.2.2.1
  have hrest := hparts.2.2.2.symm.trans hparts'.2.2.2
  refine ⟨Occurrence.ext (String.toList_inj.mp hbefore) ?_ (String.toList_inj.mp hafter), ?_⟩
  · rw [← o.splitOnChar_path, hpath, o'.splitOnChar_path]
  · simpa using hrest

theorem count_brace : o.written.toList.count '\x7b' = 2 := by
  have hbefore : '\x7b' ∉ o.before.toList := fun h => absurd (o.before_chars _ h) (by decide)
  have hpath : '\x7b' ∉ o.path.toList := fun h => absurd (o.path_chars _ h) (by decide)
  have hafter : '\x7b' ∉ o.after.toList := fun h => absurd (o.after_chars _ h) (by decide)
  rw [toList_written, List.count_cons_self, List.count_cons_self, List.count_append,
    List.count_append, List.count_append, List.count_eq_zero_of_not_mem hbefore,
    List.count_eq_zero_of_not_mem hpath, List.count_eq_zero_of_not_mem hafter]
  rfl

theorem getLast_written : o.written.toList.getLast? = some '\x7d' := by
  simp [toList_written, List.getLast?_append, List.getLast?_cons]

/-- An occurrence that begins behind the start of another begins behind its end: only the first two
characters of an occurrence are opening braces, and its last one is none. -/
theorem starts_behind {o o' : Occurrence} {front rest rest' : List Char} (hfront : front ≠ [])
    (h : o.written.toList ++ rest = front ++ (o'.written.toList ++ rest')) :
    ∃ between, front = o.written.toList ++ between := by
  rcases List.append_eq_append_iff.mp h with ⟨between, hbetween, -⟩ | ⟨tail, htail, hrest⟩
  · exact ⟨between, hbetween⟩
  rw [toList_written o', List.cons_append, List.cons_append] at hrest
  match tail, hrest with
  | [], _ => exact ⟨[], by rw [htail, List.append_nil, List.append_nil]⟩
  | [d], hrest =>
    have hlast := o.getLast_written
    rw [htail, List.getLast?_concat, ← (List.cons.inj hrest).1] at hlast
    exact absurd hlast (by decide)
  | d :: e :: tail, hrest =>
    obtain ⟨c, cs, rfl⟩ := List.exists_cons_of_ne_nil hfront
    have hcount := o.count_brace
    have hopen : c = '\x7b' := by
      rw [toList_written, List.cons_append] at htail
      exact (List.cons.inj htail).1.symm
    simp only [List.cons_append, List.cons.injEq] at hrest
    rw [htail, hopen, ← hrest.1, ← hrest.2.1, List.count_append, List.count_cons_self,
      List.count_cons_self, List.count_cons_self] at hcount
    omega

/-- Two occurrences in one text are one, or one of them ends before the other begins. -/
theorem eq_or_apart {o o' : Occurrence} {front front' rest rest' : List Char}
    (h : front ++ (o.written.toList ++ rest) = front' ++ (o'.written.toList ++ rest')) :
    (front = front' ∧ o = o' ∧ rest = rest') ∨
    (∃ between, front' = front ++ (o.written.toList ++ between)) ∨
    ∃ between, front = front' ++ (o'.written.toList ++ between) := by
  rcases List.append_eq_append_iff.mp h with ⟨gap, hgap, hrest⟩ | ⟨gap, hgap, hrest⟩
  · rcases eq_or_ne gap [] with rfl | hne
    · obtain ⟨ho, hrest⟩ := eq_of_same_start hrest
      exact .inl ⟨by rw [hgap, List.append_nil], ho, hrest⟩
    · obtain ⟨between, hbetween⟩ := starts_behind hne hrest
      exact .inr (.inl ⟨between, by rw [hgap, hbetween]⟩)
  · rcases eq_or_ne gap [] with rfl | hne
    · obtain ⟨ho, hrest⟩ := eq_of_same_start hrest
      exact .inl ⟨by rw [hgap, List.append_nil], ho.symm, hrest.symm⟩
    · obtain ⟨between, hbetween⟩ := starts_behind hne hrest
      exact .inr (.inr ⟨between, by rw [hgap, hbetween]⟩)

theorem split_iff {s front rest : String} : s = front ++ o.written ++ rest ↔
    s.toList = front.toList ++ (o.written.toList ++ rest.toList) := by
  rw [← String.toList_inj, String.toList_append, String.toList_append, List.append_assoc]

theorem eq_or_before_or_behind {s front front' rest rest' : String} {o o' : Occurrence}
    (h : s = front ++ o.written ++ rest) (h' : s = front' ++ o'.written ++ rest') :
    (front = front' ∧ o = o' ∧ rest = rest') ∨
    (∃ between, front' = front ++ o.written ++ between) ∨
    ∃ between, front = front' ++ o'.written ++ between := by
  rcases eq_or_apart ((split_iff o).mp h ▸ (split_iff o').mp h') with
    ⟨hfront, ho, hrest⟩ | ⟨between, hbetween⟩ | ⟨between, hbetween⟩
  · exact .inl ⟨String.toList_inj.mp hfront, ho, String.toList_inj.mp hrest⟩
  · refine .inr (.inl ⟨String.ofList between, (split_iff o).mpr ?_⟩)
    rw [hbetween, String.toList_ofList]
  · refine .inr (.inr ⟨String.ofList between, (split_iff o').mpr ?_⟩)
    rw [hbetween, String.toList_ofList]

end Occurrence

section Search

variable {cs path : List Char}

/-- A path is the join of its identifiers. -/
theorem exists_names (h : isPath path = true) :
    ∃ names : List String, names ≠ [] ∧ (∀ name ∈ names, isIdent name.toList = true) ∧
      (".".intercalate names).toList = path := by
  refine ⟨(splitOnChar '.' path).map String.ofList, ?_, ?_, ?_⟩
  · exact mt List.map_eq_nil_iff.mp (Text.splitOnChar_ne_nil '.' path)
  · intro name hname
    obtain ⟨chars, hchars, rfl⟩ := List.mem_map.mp hname
    rw [String.toList_ofList]
    exact List.all_eq_true.mp h chars hchars
  · have hpoint : (".".toList : List Char) = ['.'] := rfl
    rw [String.toList_intercalate, List.map_map, hpoint]
    simp only [Function.comp_def, String.toList_ofList, List.map_id']
    exact Text.intercalate_splitOnChar '.' path

theorem occurrence?_braces (inner : List Char) :
    occurrence? ('\x7b' :: '\x7b' :: inner) =
      match ((inner.dropWhile isBlank).dropWhile isPathChar).dropWhile isBlank with
      | '\x7d' :: '\x7d' :: rest =>
        if isPath ((inner.dropWhile isBlank).takeWhile isPathChar) then
          some ((inner.dropWhile isBlank).takeWhile isPathChar, inner.length + 2 - rest.length)
        else none
      | _ => none := rfl

theorem occurrence?_written (o : Occurrence) (rest : List Char) :
    occurrence? (o.written.toList ++ rest) = some (o.path.toList, o.written.toList.length) := by
  obtain ⟨-, hpath, -, hclose⟩ := o.blanks_and_path ('\x7d' :: rest)
  simp only [o.toList_written, List.cons_append, List.append_assoc, List.nil_append]
  rw [occurrence?_braces, hclose, hpath]
  simp only [if_pos o.isPath_path, List.length_append, List.length_cons, List.length_nil]
  congr 2
  omega

theorem isAllBlank_takeWhile (cs : List Char) :
    Text.isAllBlank (String.ofList (cs.takeWhile isBlank)) = true := by
  rw [Text.isAllBlank, String.toList_ofList]
  exact List.all_takeWhile

/-- Only an occurrence is found. -/
theorem exists_written {found : List Char × Nat} (h : occurrence? cs = some found) :
    ∃ (o : Occurrence) (rest : List Char), cs = o.written.toList ++ rest := by
  have hbraces : ∃ inner, cs = '\x7b' :: '\x7b' :: inner := by
    unfold occurrence? at h
    split at h
    · exact ⟨_, rfl⟩
    · cases h
  obtain ⟨inner, rfl⟩ := hbraces
  rw [occurrence?_braces] at h
  split at h
  · rename_i rest hrest
    split at h
    · rename_i hpath
      obtain ⟨names, hne, hident, hnames⟩ := exists_names hpath
      let o : Occurrence := ⟨_, names, _, isAllBlank_takeWhile inner, hne, hident,
        isAllBlank_takeWhile ((inner.dropWhile isBlank).dropWhile isPathChar)⟩
      have hinner : o.before.toList ++ (o.path.toList ++
          (o.after.toList ++ '\x7d' :: '\x7d' :: rest)) = inner := by
        simp only [o, Occurrence.path, String.toList_ofList, hnames]
        rw [← hrest, List.takeWhile_append_dropWhile, List.takeWhile_append_dropWhile,
          List.takeWhile_append_dropWhile]
      refine ⟨o, rest, ?_⟩
      simp only [o.toList_written, List.cons_append, List.append_assoc, List.nil_append, hinner]
    · cases h
  · cases h

theorem occurrence?_eq_none_iff : occurrence? cs = none ↔
    ∀ (o : Occurrence) (rest : List Char), cs ≠ o.written.toList ++ rest := by
  constructor
  · rintro h o rest rfl
    rw [occurrence?_written] at h
    cases h
  · intro h
    cases hcs : occurrence? cs with
    | none => rfl
    | some found =>
      obtain ⟨o, rest, hwritten⟩ := exists_written hcs
      exact absurd hwritten (h o rest)

theorem scan_skip (skip : Nat) (cs : List Char) : scan skip cs = scan 0 (cs.drop skip) := by
  induction cs generalizing skip with
  | nil => rw [List.drop_nil, scan, scan]
  | cons c cs ih =>
    cases skip with
    | zero => rw [List.drop_zero]
    | succ skip => rw [scan, ih, List.drop_succ_cons]

theorem scan_char {c : Char} (h : occurrence? (c :: cs) = none) :
    scan 0 (c :: cs) = .char c :: scan 0 cs := by
  rw [scan, h]

theorem scan_written (o : Occurrence) (rest : List Char) :
    scan 0 (o.written.toList ++ rest) = .variable o.path :: scan 0 rest := by
  have hfound := occurrence?_written o rest
  have hdrop : (o.written.toList ++ rest).drop o.written.toList.length = rest := List.drop_left
  obtain ⟨c, cs, hchars⟩ : ∃ c cs, o.written.toList = c :: cs := ⟨_, _, o.toList_written⟩
  rw [hchars, List.cons_append] at hfound hdrop ⊢
  rw [List.length_cons, List.drop_succ_cons] at hdrop
  rw [scan, hfound]
  simp only [List.length_cons, Nat.add_one_sub_one]
  rw [scan_skip, hdrop, String.ofList_toList]

end Search

/-- A piece of a template: a character that stands for itself, or an occurrence. -/
inductive Piece
  | char (c : Char)
  | occurrence (o : Occurrence)

namespace Piece

def written : Piece → String
  | char c => String.singleton c
  | occurrence o => o.written

def segment : Piece → Segment
  | char c => .char c
  | occurrence o => .variable o.path

/-- The piece with its occurrence replaced. -/
def replaced (text : Occurrence → String) : Piece → String
  | char c => String.singleton c
  | occurrence o => text o

def occurrence? : Piece → Option Occurrence
  | char _ => none
  | occurrence o => some o

def joined (pieces : List Piece) : List Char :=
  pieces.flatMap fun piece => piece.written.toList

theorem joined_cons (piece : Piece) (pieces : List Piece) :
    joined (piece :: pieces) = piece.written.toList ++ joined pieces :=
  List.flatMap_cons

end Piece

/-- The pieces make up the text, and every occurrence in the text is one of them. -/
structure Pieces (cs : List Char) (pieces : List Piece) : Prop where
  joined : Piece.joined pieces = cs
  complete : ∀ front o rest, cs = front ++ (o.written.toList ++ rest) → ∃ before after,
    pieces = before ++ .occurrence o :: after ∧ Piece.joined before = front ∧
      Piece.joined after = rest

section Pieces

variable {cs : List Char} {pieces : List Piece} {o : Occurrence}

theorem Pieces.char {c : Char} (h : Pieces cs pieces) (hc : occurrence? (c :: cs) = none) :
    Pieces (c :: cs) (.char c :: pieces) := by
  refine ⟨by rw [Piece.joined_cons, h.joined]; simp [Piece.written], fun front o rest hfront => ?_⟩
  cases front with
  | nil => exact absurd hfront (occurrence?_eq_none_iff.mp hc o rest)
  | cons d front =>
    rw [List.cons_append, List.cons.injEq] at hfront
    obtain ⟨before, after, rfl, hbefore, hafter⟩ := h.complete front o rest hfront.2
    refine ⟨.char c :: before, after, rfl, ?_, hafter⟩
    rw [Piece.joined_cons, hbefore, ← hfront.1]
    simp [Piece.written]

theorem Pieces.occurrence (o : Occurrence) (h : Pieces cs pieces) :
    Pieces (o.written.toList ++ cs) (.occurrence o :: pieces) := by
  refine ⟨by rw [Piece.joined_cons, h.joined, Piece.written], fun front o' rest hfront => ?_⟩
  have hplace : [] ++ (o.written.toList ++ cs) = front ++ (o'.written.toList ++ rest) := hfront
  rcases Occurrence.eq_or_apart hplace with
    ⟨rfl, rfl, rfl⟩ | ⟨between, rfl⟩ | ⟨between, hbetween⟩
  · exact ⟨[], pieces, rfl, rfl, h.joined⟩
  · rw [List.nil_append, List.append_assoc, List.append_cancel_left_eq] at hfront
    obtain ⟨before, after, rfl, hbefore, hafter⟩ := h.complete between o' rest hfront
    refine ⟨.occurrence o :: before, after, rfl, ?_, hafter⟩
    rw [Piece.joined_cons, hbefore, Piece.written, List.nil_append]
  · rw [o'.toList_written] at hbetween
    simp at hbetween

theorem scan_pieces (cs : List Char) :
    ∃ pieces, Pieces cs pieces ∧ scan 0 cs = pieces.map Piece.segment := by
  induction hlength : cs.length using Nat.strong_induction_on generalizing cs with
  | _ n ih =>
    cases cs with
    | nil =>
      refine ⟨[], ⟨rfl, fun front o rest hfront => ?_⟩, rfl⟩
      rw [o.toList_written] at hfront
      simp at hfront
    | cons c cs =>
      cases hfound : occurrence? (c :: cs) with
      | none =>
        obtain ⟨pieces, hpieces, hscan⟩ := ih cs.length (by simp [← hlength]) cs rfl
        exact ⟨.char c :: pieces, hpieces.char hfound, by rw [scan_char hfound, hscan]; rfl⟩
      | some found =>
        obtain ⟨o, rest, hcs⟩ := exists_written hfound
        have hlt : rest.length < n := by
          rw [← hlength, hcs, o.toList_written]
          simp only [List.length_append, List.length_cons]
          omega
        obtain ⟨pieces, hpieces, hscan⟩ := ih rest.length hlt rest rfl
        rw [hcs]
        exact ⟨.occurrence o :: pieces, hpieces.occurrence o, by rw [scan_written, hscan]; rfl⟩

def occurrences (pieces : List Piece) : List Occurrence :=
  pieces.filterMap Piece.occurrence?

theorem mem_occurrences : o ∈ occurrences pieces ↔ .occurrence o ∈ pieces := by
  rw [occurrences, List.mem_filterMap]
  constructor
  · rintro ⟨piece, hpiece, hoccurrence⟩
    cases piece with
    | char c => cases hoccurrence
    | occurrence o' =>
      cases hoccurrence
      exact hpiece
  · exact fun h => ⟨_, h, rfl⟩

theorem Piece.toList_join (pieces : List Piece) :
    (String.join (pieces.map Piece.written)).toList = Piece.joined pieces := by
  rw [String.toList_join, List.flatMap_map, Piece.joined]

/-- A template falls into pieces, every occurrence in it among them. -/
theorem exists_pieces (template : String) :
    ∃ pieces, segments template = pieces.map Piece.segment ∧
      String.join (pieces.map Piece.written) = template ∧
      ∀ (front rest : String) (o : Occurrence), template = front ++ o.written ++ rest →
        ∃ before after, pieces = before ++ .occurrence o :: after ∧
          String.join (before.map Piece.written) = front ∧
          String.join (after.map Piece.written) = rest := by
  obtain ⟨pieces, hpieces, hsegments⟩ := scan_pieces template.toList
  refine ⟨pieces, hsegments, ?_, fun front rest o h => ?_⟩
  · rw [← String.toList_inj, Piece.toList_join, hpieces.joined]
  · obtain ⟨before, after, hsplit, hbefore, hafter⟩ := hpieces.complete _ o _ (o.split_iff.mp h)
    refine ⟨before, after, hsplit, ?_, ?_⟩
    · rw [← String.toList_inj, Piece.toList_join, hbefore]
    · rw [← String.toList_inj, Piece.toList_join, hafter]

/-- An occurrence among the pieces stands in the text that they make up. -/
theorem split_of_mem (h : o ∈ occurrences pieces) : ∃ front rest,
    String.join (pieces.map Piece.written) = front ++ o.written ++ rest := by
  obtain ⟨before, after, rfl⟩ := List.append_of_mem (mem_occurrences.mp h)
  refine ⟨String.join (before.map Piece.written), String.join (after.map Piece.written), ?_⟩
  rw [List.map_append, List.map_cons, String.join_append, String.join_cons, ← String.append_assoc]
  rfl

end Pieces

end Template

end TableLoad
