import TableLoad.Json.Reader
import TableLoad.Record.Source
import TableLoad.Text.Blank

namespace TableLoad

/-- Records written one a line: the unread octets, whether reading past them fails, and how many
lines were read. Blank lines do not count as records, and a line that is no record fails alone. -/
structure Lines where
  unread : List UInt8
  fails : Bool
  line : Nat
deriving DecidableEq, Repr

namespace Lines

def newline : UInt8 := 0x0A

/-- The first line with its line feed, and what stands behind it. The last line may have no line
feed. -/
def splitLine : List UInt8 → List UInt8 × List UInt8
  | [] => ([], [])
  | b :: bs =>
    if b = newline then ([b], bs)
    else
      let (line, rest) := splitLine bs
      (b :: line, rest)

theorem length_splitLine_lt {bs : List UInt8} (h : bs ≠ []) :
    (splitLine bs).2.length < bs.length := by
  induction bs with
  | nil => exact absurd rfl h
  | cons b bs ih =>
    simp only [splitLine]
    split
    · simp
    · rcases bs with _ | ⟨c, cs⟩
      · simp [splitLine]
      · exact Nat.lt_succ_of_lt (ih (by simp))

/-- The record on one line; none when the line is blank. -/
def readLine (line : List UInt8) : Except String (Option Record) :=
  match Text.Utf8.decode line with
  | .error f => .error ("invalid UTF-8: " ++ f.message)
  | .ok cs =>
    match Text.trimChars cs with
    | [] => .ok none
    | text =>
      match Json.parse? (String.ofList text) with
      | none => .error "invalid JSON"
      | some v =>
        match v.record? with
        | some r => .ok (some r)
        | none => .error ("expected an object, got " ++ v.kindWithArticle)

/-- The next record. Where reading fails the unfinished line is lost, and every later call fails
again. -/
def nextFrom (fails : Bool) (line : Nat) (unread : List UInt8) :
    Except LoadError (Option Record) × Lines :=
  if _h : unread = [] then (if fails then .error (.io "read failed") else .ok none, ⟨[], fails, line⟩)
  else if fails && !unread.contains newline then (.error (.io "read failed"), ⟨[], fails, line⟩)
  else
    let (text, rest) := splitLine unread
    match readLine text with
    | .error message => (.error (.decode (line + 1) message), ⟨rest, fails, line + 1⟩)
    | .ok (some r) => (.ok (some r), ⟨rest, fails, line + 1⟩)
    | .ok none => nextFrom fails (line + 1) (splitLine unread).2
termination_by unread.length
decreasing_by exact length_splitLine_lt _h

def next (s : Lines) : Except LoadError (Option Record) × Lines :=
  nextFrom s.fails s.line s.unread

theorem nextFrom_size {fails : Bool} {line : Nat} {unread : List UInt8}
    {result : Except LoadError (Option Record)} {s : Lines}
    (h : nextFrom fails line unread = (result, s)) :
    s.unread.length < unread.length ∨ result = .ok none ∨ result = .error (.io "read failed") := by
  fun_induction nextFrom fails line unread with
  | case1 line =>
    cases fails <;> simp_all
  | case2 => simp_all
  | case3 line unread hne _ text rest hs message hr =>
    simp only [Prod.mk.injEq] at h
    obtain ⟨-, rfl⟩ := h
    exact Or.inl (by simpa [hs] using length_splitLine_lt hne)
  | case4 line unread hne _ text rest hs r hr =>
    simp only [Prod.mk.injEq] at h
    obtain ⟨-, rfl⟩ := h
    exact Or.inl (by simpa [hs] using length_splitLine_lt hne)
  | case5 line unread hne _ text rest hs hr ih =>
    have hlt := length_splitLine_lt hne
    rcases ih h with h | h
    · exact Or.inl (Nat.lt_trans h hlt)
    · exact Or.inr h

def source : Source Lines where
  next := next
  position s := s.line
  size s := s.unread.length
  size_lt_of_record h := by
    rcases nextFrom_size h with h | h | h
    · exact h
    · simp at h
    · simp at h
  size_lt_of_dataError h hd := by
    rcases nextFrom_size h with h | h | h
    · exact h
    · simp at h
    · simp only [Except.error.injEq] at h
      subst h
      simp [LoadError.isDataError] at hd

end Lines

end TableLoad
