import TableLoad.Destination
import TableLoad.Proofs.Splitting

namespace TableLoad.Destination

section Cuts

variable {cs tail user : List Char}

theorem splitAtSign?_eq_none (h : '@' ∉ tail) : splitAtSign? tail = none := by
  induction tail with
  | nil => rfl
  | cons c tail ih =>
    rw [List.mem_cons, not_or] at h
    rw [splitAtSign?, ih h.2]
    exact if_neg (Ne.symm h.1)

/-- The cut is at the last `@`, whatever stands before it. -/
theorem splitAtSign?_append (h : '@' ∉ tail) (head : List Char) :
    splitAtSign? (head ++ '@' :: tail) = some (head, '@' :: tail) := by
  induction head with
  | nil =>
    rw [List.nil_append, splitAtSign?, splitAtSign?_eq_none h]
    rfl
  | cons c head ih => rw [List.cons_append, splitAtSign?, ih]

/-- No `://` begins inside a scheme that has none, not even one that the scheme only begins. -/
theorem not_prefix_scheme {scheme : List Char} (h : ¬ "://".toList <:+: scheme)
    (hne : scheme ≠ []) (cs : List Char) : ¬ "://".toList <+: scheme ++ "://".toList ++ cs := by
  intro hfront
  match scheme, hne with
  | [c], _ => simp at hfront
  | [c, d], _ => simp at hfront
  | c :: d :: e :: scheme, _ =>
    apply h
    have hthree : "://".toList <+: c :: d :: e :: scheme := by
      simpa using hfront
    exact hthree.isInfix

theorem splitScheme?_append {scheme : List Char} (h : ¬ "://".toList <:+: scheme) :
    splitScheme? (scheme ++ "://".toList ++ cs) = some (scheme ++ "://".toList, cs) := by
  induction scheme with
  | nil => simp [splitScheme?]
  | cons c scheme ih =>
    have hfront := not_prefix_scheme h (List.cons_ne_nil c scheme) cs
    have hrest : ¬ "://".toList <:+: scheme := by
      intro hinside
      exact h (hinside.trans (List.suffix_cons c scheme).isInfix)
    rw [List.cons_append, List.cons_append] at hfront ⊢
    rw [splitScheme?, if_neg (by simpa using hfront), ih hrest]
    rfl

/-- What is masked begins at the first colon behind the scheme and ends at the last `@`. -/
theorem maskChars_append {scheme : List Char} (hscheme : ¬ "://".toList <:+: scheme)
    (huser : ':' ∉ user) (htail : '@' ∉ tail) (masked : List Char) :
    maskChars (scheme ++ "://".toList ++ (user ++ ':' :: masked) ++ '@' :: tail) =
      scheme ++ "://".toList ++ user ++ ":****@".toList ++ tail := by
  have huser' : ∀ c ∈ user, (c != ':') = true := by
    intro c hc
    rw [bne_iff_ne]
    exact fun h => huser (h ▸ hc)
  have hrun := (takeWhile_run huser' (':' :: masked) (by simp)).1
  have hcolon : (user ++ ':' :: masked).contains ':' = true := by simp
  rw [maskChars, splitAtSign?_append htail]
  simp only [splitScheme?_append hscheme, Option.getD_some, hcolon, if_true, hrun]
  simp

end Cuts

/-- A URL with a user and a password. -/
def url (scheme user password rest : String) : String :=
  scheme ++ "://" ++ user ++ ":" ++ password ++ "@" ++ rest

/-- The part of a text after its last `@`; the whole text when it has none. -/
def behindLastAt (s : String) : String :=
  String.ofList (s.toList.rtakeWhile (· != '@'))

section BehindLastAt

variable (s : String)

theorem at_notMem_behindLastAt : '@' ∉ (behindLastAt s).toList := by
  rw [behindLastAt, String.toList_ofList]
  intro h
  have hne := List.mem_rtakeWhile_imp (p := fun c => c != '@') h
  exact absurd rfl (bne_iff_ne.mp hne)

theorem exists_before_behindLastAt :
    ∃ before, '@' :: s.toList = before ++ '@' :: (behindLastAt s).toList := by
  rw [behindLastAt, String.toList_ofList]
  induction s.toList using List.reverseRecOn with
  | nil => exact ⟨[], rfl⟩
  | append_singleton cs c ih =>
    rw [List.rtakeWhile_concat]
    split
    · obtain ⟨before, hbefore⟩ := ih
      refine ⟨before, ?_⟩
      rw [← List.cons_append, hbefore, List.append_assoc, List.cons_append]
    · rename_i hc
      have hat : c = '@' := by simpa using hc
      exact ⟨'@' :: cs, by rw [hat]; rfl⟩

variable {s}

theorem behindLastAt_of_notMem (h : '@' ∉ s.toList) : behindLastAt s = s := by
  have hall : ∀ c ∈ s.toList, (c != '@') = true := by
    intro c hc
    rw [bne_iff_ne]
    exact fun hat => h (hat ▸ hc)
  rw [behindLastAt, List.rtakeWhile_eq_self_iff.mpr hall, String.ofList_toList]

end BehindLastAt

/-- Of a URL with a password four stars are shown in its place and then what stands behind the last
`@`. So the password makes no difference, and nothing else is lost where no other `@` follows
it. -/
theorem info_hides_password (engine : Engine) (schema : String) {scheme user : String}
    (hscheme : ¬ "://".toList <:+: scheme.toList) (huser : ':' ∉ user.toList)
    (password rest : String) :
    (Destination.mk engine (url scheme user password rest) schema).info =
        url scheme user "****" (behindLastAt rest) ∧
      (∀ other, (Destination.mk engine (url scheme user other rest) schema).info =
        (Destination.mk engine (url scheme user password rest) schema).info) ∧
      ('@' ∉ rest.toList → (Destination.mk engine (url scheme user password rest) schema).info =
        url scheme user "****" rest) := by
  have hinfo (password : String) :
      (Destination.mk engine (url scheme user password rest) schema).info =
        url scheme user "****" (behindLastAt rest) := by
    obtain ⟨before, hbefore⟩ := exists_before_behindLastAt rest
    have hmask := maskChars_append hscheme huser (at_notMem_behindLastAt rest)
      (password.toList ++ before)
    have hchars : (url scheme user password rest).toList = scheme.toList ++ "://".toList ++
        (user.toList ++ ':' :: (password.toList ++ before)) ++
          '@' :: (behindLastAt rest).toList := by
      simp only [url, String.toList_append, List.append_assoc, List.cons_append]
      rw [← hbefore]
      rfl
    rw [info, maskPassword, hchars, hmask, ← String.toList_inj, String.toList_ofList]
    simp [url]
  refine ⟨hinfo password, fun other => ?_, fun hrest => ?_⟩
  · rw [hinfo other, hinfo password]
  · rw [hinfo password, behindLastAt_of_notMem hrest]

/-- The password and the rest hold every sign that parts a URL. -/
theorem info_hides_decoys : ¬ "://".toList <:+: "postgresql".toList ∧ ':' ∉ "loader".toList ∧
    (Destination.mk .postgres "postgresql://loader:p@ss://:ü@db:5432/sales@eu" "public").info =
      "postgresql://loader:****@eu" := by
  have hscheme : ¬ "://".toList <:+: "postgresql".toList := by decide
  have huser : ':' ∉ "loader".toList := by decide
  refine ⟨hscheme, huser, ?_⟩
  have hinfo := (info_hides_password .postgres "public" hscheme huser "p@ss://:ü"
    "db:5432/sales@eu").1
  have hurl : url "postgresql" "loader" "p@ss://:ü" "db:5432/sales@eu" =
      "postgresql://loader:p@ss://:ü@db:5432/sales@eu" := by decide +kernel
  have hshown : url "postgresql" "loader" "****" (behindLastAt "db:5432/sales@eu") =
      "postgresql://loader:****@eu" := by decide +kernel
  rwa [hurl, hshown] at hinfo

end TableLoad.Destination
