import TableLoad.Proofs.Deletion
import TableLoad.Proofs.Masking

namespace TableLoad.Destination

section Pairs

/-- A key and its value as they are written. -/
def pair (entry : String × String) : String :=
  entry.1 ++ "=" ++ entry.2

/-- A connection string of keys and values. -/
def keyed (entries : List (String × String)) : String :=
  " ".intercalate (entries.map pair)

/-- Entries as they stand before another one. -/
def leading (entries : List (String × String)) : String :=
  String.join (entries.map fun entry => pair entry ++ " ")

/-- Entries as they stand behind another one. -/
def trailing (entries : List (String × String)) : String :=
  String.join (entries.map fun entry => " " ++ pair entry)

/-- A connection string with a password among its entries. -/
def withPassword (before behind : List (String × String)) (password : String) : String :=
  keyed (before ++ ("password", password) :: behind)

variable (entry : String × String) (before behind : List (String × String))

theorem keyed_cons_of_ne_nil (h : behind ≠ []) :
    keyed (entry :: behind) = pair entry ++ " " ++ keyed behind := by
  have hmap : behind.map pair ≠ [] := by simpa using h
  rw [keyed, List.map_cons, String.intercalate_cons_of_ne_nil hmap, keyed]

theorem keyed_cons : keyed (entry :: behind) = pair entry ++ trailing behind := by
  induction behind generalizing entry with
  | nil => simp [keyed, trailing]
  | cons next behind ih =>
    rw [keyed_cons_of_ne_nil _ _ (List.cons_ne_nil next behind), ih next]
    simp [trailing, String.append_assoc]

theorem keyed_append :
    keyed (before ++ entry :: behind) = leading before ++ pair entry ++ trailing behind := by
  induction before with
  | nil =>
    rw [List.nil_append, keyed_cons]
    simp [leading]
  | cons first before ih =>
    have hne : before ++ entry :: behind ≠ [] := by simp
    rw [List.cons_append, keyed_cons_of_ne_nil _ _ hne, ih]
    simp [leading, String.append_assoc]

theorem withPassword_eq (password : String) : withPassword before behind password =
    leading before ++ pair ("password", password) ++ trailing behind :=
  keyed_append ("password", password) before behind

end Pairs

section Cuts

variable {cs tail front word : List Char}

theorem splitAtSign?_tail (h : '@' ∉ tail) (cs : List Char) : splitAtSign? (cs ++ tail) =
    (splitAtSign? cs).map fun cut => (cut.1, cut.2 ++ tail) := by
  induction cs with
  | nil =>
    rw [List.nil_append, splitAtSign?_eq_none h]
    rfl
  | cons c cs ih =>
    rw [List.cons_append, splitAtSign?, splitAtSign?, ih]
    cases splitAtSign? cs with
    | some cut => rfl
    | none =>
      simp only [Option.map_none]
      split <;> rfl

/-- What stands behind the last `@` is shown. -/
theorem maskChars_tail (h : '@' ∉ tail) (cs : List Char) :
    maskChars (cs ++ tail) = maskChars cs ++ tail := by
  rw [maskChars, maskChars, splitAtSign?_tail h]
  cases splitAtSign? cs with
  | none => rfl
  | some cut =>
    simp only [Option.map_some]
    split
    · simp only [List.append_assoc]
    · rfl

/-- The first `://` of a text that has one. -/
theorem exists_first_scheme (before behind : List Char) : ∃ scheme rest,
    before ++ "://".toList ++ behind = scheme ++ "://".toList ++ rest ∧
      ¬ "://".toList <:+: scheme ∧ behind <:+ rest := by
  induction before with
  | nil => exact ⟨[], behind, rfl, by decide, List.suffix_refl behind⟩
  | cons c before ih =>
    obtain ⟨scheme, rest, hcut, hfirst, hbehind⟩ := ih
    by_cases hfront : "://".toList <+: c :: scheme
    · -- with the character in front an earlier `://` comes about
      obtain ⟨more, hmore⟩ := hfront
      refine ⟨[], more ++ "://".toList ++ rest, ?_, by decide, ?_⟩
      · rw [List.cons_append, List.cons_append, hcut, ← List.cons_append, ← List.cons_append,
          ← hmore]
        simp only [List.nil_append, List.append_assoc]
      · exact hbehind.trans (List.suffix_append _ _)
    · refine ⟨c :: scheme, rest, ?_, ?_, hbehind⟩
      · rw [List.cons_append, List.cons_append, hcut, List.cons_append, List.cons_append]
      · rw [List.infix_cons_iff, not_or]
        exact ⟨hfront, hfirst⟩

/-- The text begins like a URL with a user: a colon stands behind a `://`. -/
def NamesUser (cs : List Char) : Prop :=
  ∃ scheme user rest, cs = scheme ++ "://".toList ++ user ++ ':' :: rest

theorem exists_last_at (h : '@' ∈ cs) :
    ∃ before tail, cs = before ++ '@' :: tail ∧ '@' ∉ tail := by
  obtain ⟨tail, before, hcut, htail⟩ := List.eq_append_cons_of_mem (List.mem_reverse.mpr h)
  refine ⟨before.reverse, tail.reverse, ?_, by simpa using htail⟩
  rw [← List.reverse_reverse cs, hcut]
  simp

/-- Behind the beginning of a URL with a user nothing is shown before the last `@`. -/
theorem maskChars_of_user (h : NamesUser front) (htail : '@' ∉ tail) :
    ∃ shown, ∀ between, maskChars (front ++ between ++ '@' :: tail) = shown := by
  obtain ⟨before, name, behind, rfl⟩ := h
  obtain ⟨scheme, rest, hcut, hscheme, hbehind⟩ :=
    exists_first_scheme before (name ++ ':' :: behind)
  have hcolon : ':' ∈ rest := hbehind.subset (by simp)
  obtain ⟨user, more, rfl, huser⟩ := List.eq_append_cons_of_mem hcolon
  refine ⟨scheme ++ "://".toList ++ user ++ ":****@".toList ++ tail, fun between => ?_⟩
  have hwhole : before ++ "://".toList ++ name ++ ':' :: behind ++ between ++ '@' :: tail =
      scheme ++ "://".toList ++ (user ++ ':' :: (more ++ between)) ++ '@' :: tail := by
    rw [List.append_assoc _ name, hcut]
    simp only [List.append_assoc, List.cons_append]
  rw [hwhole, maskChars_append hscheme huser htail]

/-- A word makes no `://` together with what stands before it. -/
theorem not_infix_append (hfront : ¬ "://".toList <:+: front) (hcolon : ':' ∉ word)
    (hslash : '/' ∉ word) : ¬ "://".toList <:+: front ++ word := by
  induction front with
  | nil => exact fun h => hcolon (h.subset (by simp))
  | cons c front ih =>
    rw [List.infix_cons_iff, not_or] at hfront
    rw [List.cons_append, List.infix_cons_iff, not_or]
    refine ⟨fun hprefix => ?_, ih hfront.2⟩
    match front with
    | [] => cases word <;> simp_all
    | [d] => cases word <;> simp_all
    | d :: e :: front =>
      apply hfront.1
      simpa using hprefix

/-- Where no user is named before it, a word with a `://` behind it is shown. -/
theorem maskChars_of_no_user (hfront : ¬ NamesUser front) (hcolon : ':' ∉ word)
    (hslash : '/' ∉ word) (htail : '@' ∉ tail) (between : List Char) :
    ∃ shown, maskChars (front ++ (word ++ "://".toList ++ ':' :: between) ++ '@' :: tail) =
      front ++ word ++ shown := by
  by_cases hinfix : "://".toList <:+: front
  · obtain ⟨before, behind, rfl⟩ := hinfix
    obtain ⟨scheme, rest, hcut, hscheme, -⟩ := exists_first_scheme before behind
    have huser : ':' ∉ rest ++ word := by
      rw [List.mem_append, not_or]
      refine ⟨fun h => hfront ?_, hcolon⟩
      obtain ⟨user, more, rfl, -⟩ := List.eq_append_cons_of_mem h
      exact ⟨scheme, user, more, by rw [hcut, ← List.append_assoc]⟩
    have hmask := maskChars_append hscheme huser htail ("//".toList ++ ':' :: between)
    have hdecoy : "://".toList ++ ':' :: between = ':' :: ("//".toList ++ ':' :: between) := rfl
    refine ⟨":****@".toList ++ tail, ?_⟩
    rw [hcut, List.append_assoc word, hdecoy]
    simpa only [List.append_assoc] using hmask
  · have hscheme := not_infix_append hinfix hcolon hslash
    have hmask := maskChars_append hscheme (@List.not_mem_nil _ ':') htail between
    refine ⟨"://".toList ++ ":****@".toList ++ tail, ?_⟩
    simpa only [List.append_assoc, List.cons_append, List.nil_append] using hmask

end Cuts

variable (before behind : List (String × String))

/-- A connection string of keys and values is accepted, whatever the password. -/
theorem validateTarget_withPassword (engine : Engine) (schema : Option String) (password : String) :
    Job.validateTarget ⟨engine, withPassword before behind password, schema⟩ = .ok () ↔
      schema.any Text.isAllBlank = false := by
  have heq : '=' ∈ (withPassword before behind password).toList := by
    rw [withPassword_eq]
    simp [pair]
  have hblank : Text.isAllBlank (withPassword before behind password) = false := by
    rw [Text.isAllBlank, List.all_eq_false]
    exact ⟨'=', heq, by decide⟩
  have hcontains : (withPassword before behind password).contains '=' = true := by
    rw [String.contains_char_eq, decide_eq_true heq]
  simp [Job.validateTarget, Job.bind_eq_ok, Job.require_eq_ok, hblank, hcontains]

section Password

variable {before behind : List (String × String)}

/-- A password is shown as it stands where no `@` stands in it or behind it. -/
theorem info_withPassword (engine : Engine) (schema : String) {password : String}
    (hpassword : '@' ∉ password.toList) (hbehind : '@' ∉ (trailing behind).toList) :
    (Destination.mk engine (withPassword before behind password) schema).info =
      maskPassword (leading before) ++ pair ("password", password) ++ trailing behind := by
  have htail : '@' ∉ (pair ("password", password) ++ trailing behind).toList := by
    simp [pair, hpassword, hbehind]
  rw [info, maskPassword, withPassword_eq, String.append_assoc, String.toList_append,
    maskChars_tail htail, String.ofList_append, String.ofList_toList, ← maskPassword,
    String.append_assoc]

/-- Where no user is named before it, a password is shown up to a `://` of its own, whatever is
masked behind it. -/
theorem info_of_no_user (engine : Engine) (schema : String)
    (hbefore : ¬ NamesUser (leading before).toList) (hbehind : '@' ∈ (trailing behind).toList)
    (name : String) (hcolon : ':' ∉ name.toList) (hslash : '/' ∉ name.toList) : ∃ shown,
      (Destination.mk engine (withPassword before behind (name ++ "://:")) schema).info =
        leading before ++ pair ("password", name) ++ shown := by
  obtain ⟨between, tail, hcut, htail⟩ := exists_last_at hbehind
  have hword : ':' ∉ (pair ("password", name)).toList := by simp [pair, hcolon]
  have hword' : '/' ∉ (pair ("password", name)).toList := by simp [pair, hslash]
  obtain ⟨shown, hshown⟩ := maskChars_of_no_user hbefore hword hword' htail between
  have hchars : (withPassword before behind (name ++ "://:")).toList =
      (leading before).toList ++
        ((pair ("password", name)).toList ++ "://".toList ++ ':' :: between) ++ '@' :: tail := by
    rw [withPassword_eq, String.toList_append, hcut]
    simp [pair]
  refine ⟨String.ofList shown, ?_⟩
  rw [info, maskPassword, hchars, hshown]
  simp only [String.ofList_append, String.ofList_toList]

/-- Where a user is named before it, nothing is shown of a password that an `@` follows. -/
theorem info_of_user (engine : Engine) (schema : String)
    (hbefore : NamesUser (leading before).toList) (hbehind : '@' ∈ (trailing behind).toList) :
    ∃ shown, ∀ password,
      (Destination.mk engine (withPassword before behind password) schema).info = shown := by
  obtain ⟨between, tail, hcut, htail⟩ := exists_last_at hbehind
  obtain ⟨shown, hshown⟩ := maskChars_of_user hbefore htail
  refine ⟨String.ofList shown, fun password => ?_⟩
  rw [info, maskPassword, withPassword_eq, String.toList_append, String.toList_append, hcut,
    ← hshown ((pair ("password", password)).toList ++ between)]
  simp only [List.append_assoc]

/-- Behind the same text two letters of passwords are told apart. -/
theorem shown_ne (front shown other : String) :
    front ++ pair ("password", "a") ++ shown ≠ front ++ pair ("password", "b") ++ other := by
  intro h
  rw [← String.toList_inj] at h
  simp [pair] at h

end Password

/-- Every connection string of keys and values is accepted. A password in it is shown as it stands
where no `@` stands in it or behind it; and what is shown is the same for all passwords exactly
where an `@` stands behind the password and the entries before it name a user as a URL does. -/
theorem info_withPassword_same_iff (engine : Engine) (schema : String)
    (before behind : List (String × String)) :
    (∀ password declared,
      Job.validateTarget ⟨engine, withPassword before behind password, declared⟩ = .ok () ↔
        declared.any Text.isAllBlank = false) ∧
    ('@' ∉ (trailing behind).toList → ∀ password, '@' ∉ password.toList →
      (Destination.mk engine (withPassword before behind password) schema).info =
        maskPassword (leading before) ++ pair ("password", password) ++ trailing behind) ∧
    ((∀ password other,
      (Destination.mk engine (withPassword before behind password) schema).info =
        (Destination.mk engine (withPassword before behind other) schema).info) ↔
      '@' ∈ (trailing behind).toList ∧ NamesUser (leading before).toList) := by
  refine ⟨fun password declared =>
      validateTarget_withPassword before behind engine declared password,
    fun hbehind password hpassword => info_withPassword engine schema hpassword hbehind, ?_⟩
  constructor
  · intro hsame
    have hbehind : '@' ∈ (trailing behind).toList := by
      by_contra hno
      have hshown := hsame "a" "b"
      rw [info_withPassword engine schema (by decide) hno,
        info_withPassword engine schema (by decide) hno] at hshown
      exact shown_ne _ _ _ hshown
    refine ⟨hbehind, ?_⟩
    by_contra hno
    obtain ⟨shown, ha⟩ :=
      info_of_no_user engine schema hno hbehind "a" (by decide) (by decide)
    obtain ⟨other, hb⟩ :=
      info_of_no_user engine schema hno hbehind "b" (by decide) (by decide)
    have hshown := hsame ("a" ++ "://:") ("b" ++ "://:")
    rw [ha, hb] at hshown
    exact shown_ne _ _ _ hshown
  · rintro ⟨hbehind, hbefore⟩ password other
    obtain ⟨shown, hshown⟩ := info_of_user engine schema hbefore hbehind
    rw [hshown password, hshown other]

/-- The connection string of a loader of sales. -/
def salesConnection (password : String) : String :=
  withPassword [("host", "db"), ("user", "loader")] [("database", "sales")] password

/-- A job may name such a destination, and what is shown of it tells two passwords apart. -/
theorem info_tells_passwords :
    salesConnection "secret" = "host=db user=loader password=secret database=sales" ∧
    Engine.mysql.isServer = true ∧
    Job.validateTarget ⟨.mysql, salesConnection "secret", none⟩ = .ok () ∧
    Job.validateTarget ⟨.mysql, salesConnection "hidden", none⟩ = .ok () ∧
    (Destination.mk .mysql (salesConnection "secret") "main").info = salesConnection "secret" ∧
    (Destination.mk .mysql (salesConnection "secret") "main").info ≠
      (Destination.mk .mysql (salesConnection "hidden") "main").info := by
  refine ⟨by decide +kernel, rfl, ?_, ?_, by decide +kernel, by decide +kernel⟩
  · exact (validateTarget_withPassword _ _ .mysql none "secret").mpr rfl
  · exact (validateTarget_withPassword _ _ .mysql none "hidden").mpr rfl

end TableLoad.Destination
