import TableLoad.Text.Blank
import Mathlib

namespace TableLoad

section Splitting

variable {sep : Char} {name cs : List Char} {names : List (List Char)}

theorem Text.splitOnChar_ne_nil (sep : Char) (cs : List Char) : Text.splitOnChar sep cs ≠ [] := by
  cases cs with
  | nil => simp [Text.splitOnChar]
  | cons c cs =>
    rw [Text.splitOnChar]
    split
    · exact List.cons_ne_nil _ _
    · split <;> exact List.cons_ne_nil _ _

theorem Text.splitOnChar_cons_of_ne {c : Char} (h : c ≠ sep) (cs : List Char) :
    ∃ piece pieces, Text.splitOnChar sep cs = piece :: pieces ∧
      Text.splitOnChar sep (c :: cs) = (c :: piece) :: pieces := by
  obtain ⟨piece, pieces, hcs⟩ := List.exists_cons_of_ne_nil (Text.splitOnChar_ne_nil sep cs)
  exact ⟨piece, pieces, hcs, by rw [Text.splitOnChar, if_neg h, hcs]⟩

theorem Text.splitOnChar_last (h : sep ∉ name) : Text.splitOnChar sep name = [name] := by
  induction name with
  | nil => rfl
  | cons c name ih =>
    rw [List.mem_cons, not_or] at h
    obtain ⟨piece, pieces, hpieces, hcons⟩ := Text.splitOnChar_cons_of_ne (Ne.symm h.1) name
    rw [ih h.2, List.cons.injEq] at hpieces
    rw [hcons, ← hpieces.1, ← hpieces.2]

theorem Text.splitOnChar_sep (cs ds : List Char) : Text.splitOnChar sep (cs ++ sep :: ds) =
    Text.splitOnChar sep cs ++ Text.splitOnChar sep ds := by
  induction cs with
  | nil =>
    show Text.splitOnChar sep (sep :: ds) = [[]] ++ Text.splitOnChar sep ds
    rw [Text.splitOnChar, if_pos rfl]
    rfl
  | cons c cs ih =>
    by_cases h : c = sep
    · rw [List.cons_append, Text.splitOnChar, if_pos h, ih, Text.splitOnChar, if_pos h]
      rfl
    · obtain ⟨piece, pieces, hpieces, hcons⟩ := Text.splitOnChar_cons_of_ne h (cs ++ sep :: ds)
      obtain ⟨piece', pieces', hpieces', hcons'⟩ := Text.splitOnChar_cons_of_ne h cs
      rw [ih, hpieces', List.cons_append, List.cons.injEq] at hpieces
      rw [List.cons_append, hcons, hcons', ← hpieces.1, ← hpieces.2]
      rfl

theorem Text.splitOnChar_append (h : sep ∉ name) (cs : List Char) :
    Text.splitOnChar sep (name ++ sep :: cs) = name :: Text.splitOnChar sep cs := by
  rw [Text.splitOnChar_sep, Text.splitOnChar_last h]
  rfl

/-- What stands between two separators is a piece, also where the first one is put in front. -/
theorem Text.mem_splitOnChar {before word behind : List Char} (hword : sep ∉ word)
    (hne : word ≠ []) (h : sep :: name = before ++ sep :: (word ++ sep :: behind)) :
    word ∈ Text.splitOnChar sep name := by
  have hpieces := congrArg (Text.splitOnChar sep) h
  rw [Text.splitOnChar_sep, Text.splitOnChar_append hword, Text.splitOnChar, if_pos rfl] at hpieces
  have hmem : word ∈ [] :: Text.splitOnChar sep name := by
    rw [hpieces]
    simp
  simpa [hne] using hmem

/-- Pieces without the separator come back from their join. -/
theorem Text.splitOnChar_intercalate (hne : names ≠ []) (h : ∀ name ∈ names, sep ∉ name) :
    Text.splitOnChar sep ([sep].intercalate names) = names := by
  induction names with
  | nil => exact absurd rfl hne
  | cons name names ih =>
    rw [List.forall_mem_cons] at h
    cases names with
    | nil => rw [List.intercalate_singleton, Text.splitOnChar_last h.1]
    | cons next names =>
      rw [List.intercalate_cons_cons, List.append_assoc, List.singleton_append,
        Text.splitOnChar_append h.1, ih (List.cons_ne_nil _ _) h.2]

theorem Text.intercalate_splitOnChar (sep : Char) (cs : List Char) :
    [sep].intercalate (Text.splitOnChar sep cs) = cs := by
  induction cs with
  | nil => rfl
  | cons c cs ih =>
    by_cases h : c = sep
    · obtain ⟨piece, pieces, hcs⟩ := List.exists_cons_of_ne_nil (Text.splitOnChar_ne_nil sep cs)
      rw [Text.splitOnChar, if_pos h, hcs, List.intercalate_cons_cons, ← hcs, ih, h]
      rfl
    · obtain ⟨piece, pieces, hpieces, hcons⟩ := Text.splitOnChar_cons_of_ne h cs
      rw [hpieces] at ih
      rw [hcons, ← ih]
      cases pieces with
      | nil => rw [List.intercalate_singleton, List.intercalate_singleton]
      | cons next pieces =>
        rw [List.intercalate_cons_cons, List.intercalate_cons_cons, List.cons_append,
          List.cons_append]

theorem Text.sep_notMem_splitOnChar (h : name ∈ Text.splitOnChar sep cs) : sep ∉ name := by
  induction cs generalizing name with
  | nil =>
    rw [List.mem_singleton.mp h]
    exact List.not_mem_nil
  | cons c cs ih =>
    by_cases hc : c = sep
    · rw [Text.splitOnChar, if_pos hc] at h
      rcases List.mem_cons.mp h with rfl | h
      · exact List.not_mem_nil
      · exact ih h
    · obtain ⟨piece, pieces, hpieces, hcons⟩ := Text.splitOnChar_cons_of_ne hc cs
      rw [hpieces] at ih
      rw [hcons] at h
      rcases List.mem_cons.mp h with rfl | h
      · rw [List.mem_cons, not_or]
        exact ⟨Ne.symm hc, ih List.mem_cons_self⟩
      · exact ih (List.mem_cons_of_mem _ h)

theorem mem_intercalate {c : Char} (h : c ∈ [sep].intercalate names) :
    c = sep ∨ ∃ name ∈ names, c ∈ name := by
  induction names with
  | nil => simp at h
  | cons name names ih =>
    cases names with
    | nil =>
      rw [List.intercalate_singleton] at h
      exact .inr ⟨name, List.mem_singleton_self name, h⟩
    | cons next names =>
      rw [List.intercalate_cons_cons, List.append_assoc, List.mem_append, List.singleton_append,
        List.mem_cons] at h
      rcases h with h | h | h
      · exact .inr ⟨name, List.mem_cons_self, h⟩
      · exact .inl h
      · exact (ih h).imp id fun ⟨name, hname, hc⟩ => ⟨name, List.mem_cons_of_mem _ hname, hc⟩

/-- A run of characters that ends where a text goes on with another character. -/
theorem takeWhile_run {p : Char → Bool} {run : List Char} (hrun : ∀ c ∈ run, p c = true)
    (rest : List Char) (hrest : ∀ c ∈ rest.head?, p c = false) :
    (run ++ rest).takeWhile p = run ∧ (run ++ rest).dropWhile p = rest := by
  rw [List.takeWhile_append_of_pos hrun, List.dropWhile_append_of_pos hrun]
  cases rest with
  | nil => simp
  | cons c rest => simp [hrest c rfl]

/-- Of two pieces that a text begins with, the shorter is at the front of the longer. -/
theorem append_longer {x y front behind : List Char} (h : x ++ y = front ++ behind)
    (hlength : front.length ≤ x.length) : ∃ m, x = front ++ m ∧ m ++ y = behind := by
  rcases List.append_eq_append_iff.mp h with ⟨m, rfl, rfl⟩ | ⟨m, hx, hbehind⟩
  · rw [List.length_append] at hlength
    obtain rfl := List.length_eq_zero_iff.mp (by omega : m.length = 0)
    exact ⟨[], by simp, rfl⟩
  · exact ⟨m, hx, hbehind.symm⟩

theorem append_split {x y front behind : List Char} {d : Char}
    (h : x ++ [d] ++ y = front ++ behind) (hd : d ∉ behind) :
    ∃ m, front = x ++ [d] ++ m ∧ y = m ++ behind := by
  rcases List.append_eq_append_iff.mp h with hinside | ⟨m, hfront, rfl⟩
  · exact hinside
  · rcases List.eq_nil_or_concat' m with rfl | ⟨m, e, rfl⟩
    · exact ⟨[], by rw [hfront, List.append_nil, List.append_nil], rfl⟩
    · rw [← List.append_assoc] at hfront
      obtain ⟨-, hlast⟩ := List.append_inj' hfront rfl
      obtain rfl : d = e := by simpa using hlast
      exact absurd (by simp) hd

end Splitting

section Trimming

variable {c : Char} {v : List Char}

theorem Text.trimEndChars_append_cons (hc : Text.isBlank c = false) (u v : List Char) :
    Text.trimEndChars (u ++ c :: v) = u ++ c :: Text.trimEndChars v := by
  simp [Text.trimEndChars, List.dropWhile_append, hc]

theorem Text.trimEndChars_blank (hv : ∀ d ∈ v, Text.isBlank d = true) :
    Text.trimEndChars v = [] := by
  have hdrop : v.reverse.dropWhile Text.isBlank = [] := by
    rw [List.dropWhile_eq_nil_iff]
    intro d hd
    exact hv d (List.mem_reverse.mp hd)
  rw [Text.trimEndChars, hdrop, List.reverse_nil]

theorem Text.mem_of_mem_trimEndChars (h : c ∈ Text.trimEndChars v) : c ∈ v :=
  (List.rdropWhile_prefix Text.isBlank v).subset h

/-- A character that is not blank keeps what stands on its inner side. -/
theorem Text.trimChars_append_cons (hc : Text.isBlank c = false) (u v : List Char) :
    Text.trimChars (u ++ c :: v) = Text.trimStartChars u ++ c :: Text.trimEndChars v := by
  have hstart : Text.trimStartChars (u ++ c :: v) = Text.trimStartChars u ++ c :: v := by
    simp only [Text.trimStartChars, List.dropWhile_append, List.dropWhile_cons, hc]
    cases hu : u.dropWhile Text.isBlank <;> simp
  rw [Text.trimChars, hstart, Text.trimEndChars_append_cons hc]

theorem Text.trimChars_eq_nil {cs : List Char} :
    Text.trimChars cs = [] ↔ cs.all Text.isBlank = true := by
  simp only [Text.trimChars, Text.trimEndChars, Text.trimStartChars, List.reverse_eq_nil_iff,
    List.dropWhile_eq_nil_iff, List.mem_reverse, List.all_eq_true]
  constructor
  · intro h c hc
    rw [← List.takeWhile_append_dropWhile (p := Text.isBlank) (l := cs), List.mem_append] at hc
    exact hc.elim List.mem_takeWhile_imp (h c)
  · intro h c hc
    exact h c ((List.dropWhile_suffix _).subset hc)

theorem Text.mem_of_mem_trimChars (h : c ∈ Text.trimChars v) : c ∈ v :=
  (List.dropWhile_suffix _).subset (Text.mem_of_mem_trimEndChars h)

theorem Text.trimStartChars_trimChars (cs : List Char) :
    Text.trimStartChars (Text.trimChars cs) = Text.trimChars cs := by
  cases htrim : Text.trimChars cs with
  | nil => rfl
  | cons d ds =>
    have hprefix : Text.trimChars cs <+: Text.trimStartChars cs :=
      List.rdropWhile_prefix Text.isBlank _
    obtain ⟨behind, hbehind⟩ := hprefix
    rw [htrim, List.cons_append] at hbehind
    have hd : Text.isBlank d = false := by
      have hhead := List.head?_dropWhile_not Text.isBlank cs
      rw [← Text.trimStartChars, ← hbehind] at hhead
      simpa using hhead
    rw [Text.trimStartChars, List.dropWhile_cons_of_neg (by simp [hd])]

theorem Text.trimEndChars_trimChars (cs : List Char) :
    Text.trimEndChars (Text.trimChars cs) = Text.trimChars cs :=
  List.rdropWhile_idempotent Text.isBlank _

theorem Text.trimChars_trimChars (cs : List Char) :
    Text.trimChars (Text.trimChars cs) = Text.trimChars cs := by
  rw [Text.trimChars, Text.trimStartChars_trimChars, Text.trimEndChars_trimChars]

/-- Pieces without blanks at their ends are joined to a text without blanks at its ends. -/
theorem Text.trimChars_intercalate {sep : Char} (hsep : Text.isBlank sep = false)
    {names : List (List Char)} (h : ∀ name ∈ names, Text.trimChars name = name) :
    Text.trimChars ([sep].intercalate names) = [sep].intercalate names := by
  induction names with
  | nil => rfl
  | cons name names ih =>
    obtain ⟨hname, hnames⟩ := List.forall_mem_cons.mp h
    cases names with
    | nil => rw [List.intercalate_singleton, hname]
    | cons next names =>
      have hstart : Text.trimStartChars name = name := by
        rw [← hname, Text.trimStartChars_trimChars]
      have hend := Text.trimEndChars_trimChars ([sep].intercalate (next :: names))
      rw [ih hnames] at hend
      rw [List.intercalate_cons_cons, List.append_assoc, List.singleton_append,
        Text.trimChars_append_cons hsep, hstart, hend]

end Trimming

end TableLoad
