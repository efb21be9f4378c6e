import TableLoad.Proofs.TrimmedJson

namespace TableLoad.Json.Reader

/-- Behind spaces, if any, an array or object begins. -/
def Opens (octets : List UInt8) : Prop :=
  (octets.dropWhile isSpace).head? = some 0x5B ∨ (octets.dropWhile isSpace).head? = some 0x7B

instance (octets : List UInt8) : Decidable (Opens octets) :=
  inferInstanceAs (Decidable (_ ∨ _))

/-- An array or object begins, and the octets do not end it. -/
def BreaksOff (octets : List UInt8) : Prop :=
  Opens octets ∧ ∀ v, read octets ≠ .ok v

/-- Inside the array or object that was opened first, or behind it. -/
def State.Opened (s : State) : Prop :=
  0 < s.level ∨ ∃ v, s = ⟨.after v, []⟩

/-- Inside or behind a value that stands in no array and no object and is none. -/
def State.Scalar (s : State) : Prop :=
  s.frames = [] ∧ match s.mode with
    | .word .. | .number .. | .string _ _ none | .after _ => True
    | _ => False

section Moving

variable {s s' : State} {b : UInt8} {bs : List UInt8} {v : Json}

theorem opened_after (v : Json) (frames : List Frame) : State.Opened ⟨.after v, frames⟩ := by
  cases frames with
  | nil => exact Or.inr ⟨v, rfl⟩
  | cons f frames => exact Or.inl (Nat.succ_pos _)

theorem State.Scalar.level_eq (h : s.Scalar) : s.level = 0 := by
  obtain ⟨mode, frames⟩ := s
  obtain ⟨hframes, hmode⟩ := h
  change frames = [] at hframes
  subst hframes
  cases mode with
  | string _ _ keyOf => cases keyOf <;> trivial
  | key | colon => exact hmode.elim
  | value | word | number | after => rfl

theorem level_of_finish (h : finish? s = some v) : s.level = 0 := by
  obtain ⟨mode, frames⟩ := s
  simp only [finish?] at h
  split at h
  · rfl
  · rfl
  · cases h

/-- What was opened stays open until it is complete. -/
theorem Moves.opened (h : Moves s b s') (hs : s.Opened) : s'.Opened := by
  cases h with
  | skip => exact hs
  | noElement | noMember | closeArray | closeObject => exact opened_after _ _
  | lastLetter | endText | rest => exact opened_after _ _
  | openArray | colon | nextElement => exact Or.inl (Nat.succ_pos _)
  | openObject | endKey | key | nextMember => exact Or.inl (Nat.succ_pos _)
  | @begin _ mode frames _ hbegun =>
    rcases hs with hlevel | ⟨v, hv⟩
    · exact Or.inl (Nat.lt_of_lt_of_le hlevel (Nat.le_add_right _ _))
    · cases hv
  | letter | digit =>
    rcases hs with hlevel | ⟨v, hv⟩
    · exact Or.inl hlevel
    · cases hv
  | @character _ _ _ _ keyOf =>
    rcases hs with hlevel | ⟨v, hv⟩
    · cases keyOf <;> exact Or.inl hlevel
    · cases hv

/-- What is neither array nor object stays outside of both. -/
theorem Moves.scalar (h : Moves s b s') (hs : s.Scalar) : s'.Scalar := by
  obtain ⟨hframes, hmode⟩ := hs
  cases h with
  | skip => exact ⟨hframes, hmode⟩
  | begin | openArray | openObject | endKey | key | noMember | colon => exact hmode.elim
  | noElement | nextElement | closeArray | nextMember | closeObject => cases hframes
  | letter | lastLetter | digit | endText | rest => exact ⟨hframes, trivial⟩
  | @character _ _ _ _ keyOf =>
    cases keyOf with
    | none => exact ⟨hframes, trivial⟩
    | some held => exact hmode.elim

/-- The first octet that is no space decides. -/
theorem Moves.first (h : Moves start b s') (hb : isSpace b = false) :
    (b = 0x5B ∨ b = 0x7B) ∧ s'.Opened ∨ ¬ (b = 0x5B ∨ b = 0x7B) ∧ s'.Scalar := by
  cases h with
  | skip _ hspace =>
    rw [hb] at hspace
    cases hspace
  | begin hbegun =>
    refine Or.inr ⟨?_, ?_⟩
    · cases hbegun with
      | digit hdigit => rintro (rfl | rfl) <;> exact absurd hdigit (by decide)
      | string | minus | zero | null | true | false => decide
    · cases hbegun <;> exact ⟨rfl, trivial⟩
  | openArray => exact Or.inl ⟨Or.inl rfl, Or.inl (Nat.succ_pos _)⟩
  | openObject => exact Or.inl ⟨Or.inr rfl, Or.inl (Nat.succ_pos _)⟩
  | rest hends => cases hends

theorem run_opened (h : run s bs = .ok s') (hs : s.Opened) : s'.Opened := by
  induction bs generalizing s with
  | nil =>
    cases h
    exact hs
  | cons b bs ih =>
    obtain ⟨u, hstep, hrun⟩ := run_cons_eq_ok.mp h
    exact ih hrun ((moves_of_step hstep).opened hs)

theorem run_scalar (h : run s bs = .ok s') (hs : s.Scalar) : s'.Scalar := by
  induction bs generalizing s with
  | nil =>
    cases h
    exact hs
  | cons b bs ih =>
    obtain ⟨u, hstep, hrun⟩ := run_cons_eq_ok.mp h
    exact ih hrun ((moves_of_step hstep).scalar hs)

end Moving

section Beginning

variable {octets : List UInt8} {s : State}

theorem run_dropWhile_isSpace (octets : List UInt8) :
    run start (octets.dropWhile isSpace) = run start octets := by
  induction octets with
  | nil => rfl
  | cons b octets ih =>
    cases hb : isSpace b with
    | false => rw [List.dropWhile_cons_of_neg (by simp [hb])]
    | true =>
      have hstep : step start b = some start := by simp [step, start, hb]
      rw [List.dropWhile_cons_of_pos hb, ih, run, hstep]

/-- Nothing is open before an array or object, behind it, or where another value stands. -/
theorem level_eq_zero_iff (h : run start octets = .ok s) :
    s.level = 0 ↔ ¬ Opens octets ∨ ∃ v, finish? s = some v := by
  rw [← run_dropWhile_isSpace] at h
  rw [Opens]
  cases hrest : octets.dropWhile isSpace with
  | nil =>
    rw [hrest] at h
    cases h
    exact iff_of_true rfl (Or.inl (by simp))
  | cons b rest =>
    rw [hrest] at h
    obtain ⟨u, hstep, hrun⟩ := run_cons_eq_ok.mp h
    have hb : isSpace b = false := by
      have hhead := List.head?_dropWhile_not isSpace octets
      simpa [hrest] using hhead
    rw [List.head?_cons, Option.some_inj, Option.some_inj]
    rcases (moves_of_step hstep).first hb with ⟨hopens, hu⟩ | ⟨hopens, hu⟩
    · rcases run_opened hrun hu with hlevel | ⟨v, rfl⟩
      · refine iff_of_false hlevel.ne' ?_
        rintro (hno | ⟨v, hv⟩)
        · exact hno hopens
        · exact hlevel.ne' (level_of_finish hv)
      · exact iff_of_true rfl (Or.inr ⟨v, rfl⟩)
    · exact iff_of_true (run_scalar hrun hu).level_eq (Or.inl hopens)

/-- The beginning of a document is only unfinished, and something is open if it breaks off. -/
theorem read_beginning {rest : List UInt8} {v : Json} {f : Fault}
    (h : read (octets ++ rest) = .ok v) (hf : read octets = .error f) :
    ∃ level, f = .unfinished level ∧ (level = 0 ↔ ¬ BreaksOff octets) := by
  obtain ⟨s, hrun, -⟩ := read_eq_ok.mp h
  obtain ⟨u, hu, -⟩ := run_append_eq_ok.mp hrun
  have hbreaks : BreaksOff octets ↔ Opens octets := and_iff_left fun v hv => by
    rw [hf] at hv
    cases hv
  rw [read, hu] at hf
  simp only [bind, Except.bind] at hf
  split at hf
  · cases hf
  · rename_i hnone
    refine ⟨u.level, (Except.error.inj hf).symm, ?_⟩
    rw [level_eq_zero_iff hu, hbreaks, hnone]
    simp

end Beginning

end TableLoad.Json.Reader
