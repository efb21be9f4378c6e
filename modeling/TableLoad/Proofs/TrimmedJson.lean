import TableLoad.Proofs.JsonMachine
import TableLoad.Proofs.Utf8
import TableLoad.Text.Blank

namespace TableLoad.Json

namespace Reader

/-- The octets of blank characters. No value begins or ends with one of them. -/
def Outside (b : UInt8) : Prop :=
  b.toNat ≤ 0x20 ∨ 0x80 ≤ b.toNat

instance (b : UInt8) : Decidable (Outside b) :=
  inferInstanceAs (Decidable (_ ∨ _))

/-- What is owed of a word is not nothing, and made of letters. -/
def Mode.Sound : Mode → Prop
  | .word owed _ => owed ≠ [] ∧ ∀ c ∈ owed, ¬ Outside c
  | _ => True

section Octets

variable {b : UInt8} {mode : Mode}

theorem not_outside_of_isDigit (h : isDigit b = true) : ¬ Outside b := by
  simp only [isDigit, Bool.and_eq_true, decide_eq_true_eq, UInt8.le_iff_toNat_le] at h
  have hlow : 0x30 ≤ b.toNat := h.1
  have hhigh : b.toNat ≤ 0x39 := h.2
  simp only [Outside]
  omega

theorem Mode.Begun.not_outside (h : mode.Begun b) : ¬ Outside b := by
  cases h with
  | digit hdigit => exact not_outside_of_isDigit hdigit
  | string | minus | zero | null | true | false => decide

theorem Mode.Begun.sound (h : mode.Begun b) : mode.Sound := by
  cases h with
  | null | true | false => exact ⟨by decide, by simp [Outside]⟩
  | string | minus | zero | digit => trivial

theorem not_outside_of_numberPunctuation {d : Digits} {pointMayCome : Bool}
    {r : NumberStage × Digits} (h : numberPunctuation? d pointMayCome b = some r) :
    ¬ Outside b := by
  simp only [numberPunctuation?, Bool.and_eq_true, Bool.or_eq_true, beq_iff_eq] at h
  split_ifs at h with hpoint hmark
  · obtain ⟨rfl, -⟩ := hpoint
    decide
  · rcases hmark with rfl | rfl <;> decide

theorem not_outside_of_numberStep {stage : NumberStage} {d : Digits} {r : NumberStage × Digits}
    (h : numberStep stage d b = some r) : ¬ Outside b := by
  by_cases hdigit : isDigit b = true
  · exact not_outside_of_isDigit hdigit
  · simp only [numberStep, if_neg hdigit] at h
    cases stage with
    | sign | point | exponentSign | exponent => cases h
    | zero | whole | wholeRest | fraction | fractionRest =>
      exact not_outside_of_numberPunctuation h
    | mark =>
      simp only [beq_iff_eq] at h
      split_ifs at h with hplus hminus
      · subst hplus
        decide
      · subst hminus
        decide

end Octets

section Runs

variable {s s' : State} {b : UInt8} {bs : List UInt8} {v : Json}

theorem Moves.sound (h : Moves s b s') (hs : s.mode.Sound) : s'.mode.Sound := by
  cases h with
  | skip => exact hs
  | begin hbegun => exact hbegun.sound
  | letter howed => exact ⟨howed, fun c hc => hs.2 c (List.mem_cons_of_mem _ hc)⟩
  | _ => trivial

theorem run_sound (h : run s bs = .ok s') (hs : s.mode.Sound) : s'.mode.Sound := by
  induction bs generalizing s with
  | nil =>
    cases h
    exact hs
  | cons b bs ih =>
    obtain ⟨u, hstep, hrun⟩ := run_cons_eq_ok.mp h
    exact ih hrun ((moves_of_step hstep).sound hs)

/-- Before a value nothing is read from a blank but that it is one. -/
theorem Moves.of_start (h : Moves start b s') (hb : Outside b) : s' = start := by
  cases h with
  | skip => rfl
  | begin hbegun => exact absurd hb hbegun.not_outside
  | openArray | openObject => exact absurd hb (by decide)
  | rest hends => cases hends

/-- Behind a value nothing is read from a blank but that it is one. -/
theorem Moves.finish_eq (h : Moves s b s') (hs : s.mode.Sound) (hb : Outside b)
    (hv : finish? s' = some v) : finish? s = some v := by
  cases h with
  | skip hwaits => cases hwaits <;> simp [finish?] at hv
  | begin hbegun => exact absurd hb hbegun.not_outside
  | openArray | openObject | noElement | endText | endKey | key | noMember | colon | nextElement
  | closeArray | nextMember | closeObject => exact absurd hb (by decide)
  | letter | lastLetter => exact absurd hb (hs.2 b (List.mem_cons_self ..))
  | digit hstep => exact absurd hb (not_outside_of_numberStep hstep)
  | character => simp [finish?] at hv
  | @rest mode w frames _ hends =>
    cases frames with
    | cons => simp [finish?] at hv
    | nil =>
      cases hv
      cases hends with
      | after => rfl
      | word => exact absurd rfl hs.1
      | number _ hn => simp [finish?, hn]

theorem run_append_eq_ok {as : List UInt8} :
    run s (as ++ bs) = .ok s' ↔ ∃ u, run s as = .ok u ∧ run u bs = .ok s' := by
  induction as generalizing s with
  | nil => simp [run]
  | cons a as ih =>
    simp only [List.cons_append, run_cons_eq_ok, ih]
    tauto

theorem run_of_start {as : List UInt8} (h : run start (as ++ bs) = .ok s)
    (has : ∀ a ∈ as, Outside a) : run start bs = .ok s := by
  induction as with
  | nil => exact h
  | cons a as ih =>
    obtain ⟨u, hstep, hrun⟩ := run_cons_eq_ok.mp h
    obtain ⟨ha, has⟩ := List.forall_mem_cons.mp has
    rw [(moves_of_step hstep).of_start ha] at hrun
    exact ih hrun has

theorem run_finish_eq (h : run s bs = .ok s') (hs : s.mode.Sound) (hbs : ∀ b ∈ bs, Outside b)
    (hv : finish? s' = some v) : finish? s = some v := by
  induction bs generalizing s with
  | nil =>
    cases h
    exact hv
  | cons b bs ih =>
    obtain ⟨u, hstep, hrun⟩ := run_cons_eq_ok.mp h
    obtain ⟨hb, hbs⟩ := List.forall_mem_cons.mp hbs
    have hmoves := moves_of_step hstep
    exact hmoves.finish_eq hs hb (ih hrun (hmoves.sound hs) hbs)

end Runs

section Ends

variable {as bs : List UInt8} {v : Json}

theorem read_of_leading (h : read (as ++ bs) = .ok v) (has : ∀ a ∈ as, Outside a) :
    read bs = .ok v := by
  obtain ⟨s, hrun, hv⟩ := read_eq_ok.mp h
  exact read_eq_ok.mpr ⟨s, run_of_start hrun has, hv⟩

theorem read_of_trailing (h : read (as ++ bs) = .ok v) (hbs : ∀ b ∈ bs, Outside b) :
    read as = .ok v := by
  obtain ⟨s, hrun, hv⟩ := read_eq_ok.mp h
  obtain ⟨u, hfirst, hlast⟩ := run_append_eq_ok.mp hrun
  have hsound : u.mode.Sound := run_sound hfirst trivial
  exact read_eq_ok.mpr ⟨u, hfirst, run_finish_eq hlast hsound hbs hv⟩

end Ends

end Reader

section Characters

open Reader

variable {cs : List Char} {v : Json}

theorem outside_of_isBlank {c : Char} (h : Text.isBlank c = true) {b : UInt8}
    (hb : b ∈ String.utf8EncodeChar c) : Outside b := by
  by_cases hascii : c.toNat < 0x80
  · rw [Text.Utf8.octets_ascii hascii, List.mem_singleton] at hb
    subst hb
    simp only [Text.isBlank, Bool.or_eq_true, Bool.and_eq_true, decide_eq_true_eq,
      beq_iff_eq] at h
    rw [Outside, Text.Utf8.toNat_octet (by omega)]
    omega
  · exact .inr (Text.Utf8.octets_large (Nat.not_lt.mp hascii) hb)

theorem read_trimStart (h : read (cs.flatMap String.utf8EncodeChar) = .ok v) :
    read ((Text.trimStartChars cs).flatMap String.utf8EncodeChar) = .ok v := by
  induction cs with
  | nil => exact h
  | cons c cs ih =>
    rw [Text.trimStartChars, List.dropWhile_cons]
    split
    · rename_i hblank
      rw [List.flatMap_cons] at h
      exact ih (read_of_leading h fun b hb => outside_of_isBlank hblank hb)
    · exact h

theorem read_trimEnd (h : read (cs.flatMap String.utf8EncodeChar) = .ok v) :
    read ((Text.trimEndChars cs).flatMap String.utf8EncodeChar) = .ok v := by
  induction cs using List.reverseRecOn with
  | nil => exact h
  | append_singleton cs c ih =>
    rw [Text.trimEndChars, List.reverse_append, List.reverse_singleton, List.singleton_append,
      List.dropWhile_cons]
    split
    · rename_i hblank
      rw [List.flatMap_append, List.flatMap_singleton] at h
      exact ih (read_of_trailing h fun b hb => outside_of_isBlank hblank hb)
    · rwa [List.reverse_cons, List.reverse_reverse]

variable {text : String}

theorem readText?_trim (h : readText? text = some v) : readText? (Text.trim text) = some v := by
  rw [readText?_eq_some, Text.Utf8.encode_eq] at h
  rw [readText?_eq_some, Text.trim, Text.Utf8.encode_ofList]
  exact read_trimEnd (read_trimStart h)

theorem readText?_not_blank (h : readText? text = some v) : Text.trimChars text.toList ≠ [] := by
  intro hblank
  have htrim := readText?_trim h
  rw [Text.trim, hblank, readText?_eq_some, Text.Utf8.encode_ofList] at htrim
  cases htrim

end Characters

end TableLoad.Json
