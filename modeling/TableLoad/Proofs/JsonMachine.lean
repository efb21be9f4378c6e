import Mathlib
import TableLoad.Json.Reader

namespace TableLoad.Json

namespace Reader

/-- The mode has read the value `v`, and the octet `b` does not go on with it. -/
inductive Mode.Ends : Mode → UInt8 → Json → Prop
  | after {v : Json} {b : UInt8} : Ends (.after v) b v
  | word {v : Json} {b : UInt8} : Ends (.word [] v) b v
  | number {stage : NumberStage} {d : Digits} {b : UInt8} {n : Number} :
      numberStep stage d b = none → numberAt? stage d = some n →
      Ends (.number stage d) b (.number n)

/-- Nothing but a space or what the mode asks for may come. -/
inductive Mode.Waits : Mode → Prop
  | value {mayClose : Bool} : Waits (.value mayClose)
  | key {held : List (String × Json)} {mayClose : Bool} : Waits (.key held mayClose)
  | colon {held : List (String × Json)} {key : String} : Waits (.colon held key)

/-- The first octet of a text that opens nothing. -/
inductive Mode.Begun : Mode → UInt8 → Prop
  | string : Begun (.string .plain [] none) 0x22
  | minus : Begun (.number .sign (startNumber true 0)) 0x2D
  | zero : Begun (.number .zero (startNumber false 0)) 0x30
  | digit {b : UInt8} : isDigit b = true → b ≠ 0x30 →
      Begun (.number .whole (startNumber false (digitValue b))) b
  | null : Begun (.word [0x75, 0x6C, 0x6C] .null) 0x6E
  | true : Begun (.word [0x72, 0x75, 0x65] (.bool Bool.true)) 0x74
  | false : Begun (.word [0x61, 0x6C, 0x73, 0x65] (.bool Bool.false)) 0x66

/-- What one octet does to the machine. -/
inductive Moves : State → UInt8 → State → Prop
  | skip {mode : Mode} {frames : List Frame} {b : UInt8} :
      mode.Waits → isSpace b = true → Moves ⟨mode, frames⟩ b ⟨mode, frames⟩
  | begin {mayClose : Bool} {mode : Mode} {frames : List Frame} {b : UInt8} :
      mode.Begun b → Moves ⟨.value mayClose, frames⟩ b ⟨mode, frames⟩
  | openArray {mayClose : Bool} {frames : List Frame} :
      frames.length < maxDepth →
      Moves ⟨.value mayClose, frames⟩ 0x5B ⟨.value true, .array [] :: frames⟩
  | openObject {mayClose : Bool} {frames : List Frame} :
      frames.length < maxDepth → Moves ⟨.value mayClose, frames⟩ 0x7B ⟨.key [] true, frames⟩
  | noElement {held : List Json} {frames : List Frame} :
      Moves ⟨.value true, .array held :: frames⟩ 0x5D ⟨.after (.array held.reverse), frames⟩
  | letter {c : UInt8} {owed : List UInt8} {v : Json} {frames : List Frame} :
      owed ≠ [] → Moves ⟨.word (c :: owed) v, frames⟩ c ⟨.word owed v, frames⟩
  | lastLetter {c : UInt8} {v : Json} {frames : List Frame} :
      Moves ⟨.word [c] v, frames⟩ c ⟨.after v, frames⟩
  | digit {stage stage' : NumberStage} {d d' : Digits} {frames : List Frame} {b : UInt8} :
      numberStep stage d b = some (stage', d') →
      Moves ⟨.number stage d, frames⟩ b ⟨.number stage' d', frames⟩
  | character {stage stage' : StringStage} {octets octets' : List UInt8}
      {keyOf : Option (List (String × Json))} {frames : List Frame} {b : UInt8} :
      (b = 0x22 → stage ≠ .plain) → stringStep stage octets b = some (stage', octets') →
      Moves ⟨.string stage octets keyOf, frames⟩ b ⟨.string stage' octets' keyOf, frames⟩
  | endText {octets : List UInt8} {cs : List Char} {frames : List Frame} :
      Text.Utf8.decode octets.reverse = .ok cs →
      Moves ⟨.string .plain octets none, frames⟩ 0x22 ⟨.after (.string (String.ofList cs)), frames⟩
  | endKey {octets : List UInt8} {cs : List Char} {held : List (String × Json)}
      {frames : List Frame} :
      Text.Utf8.decode octets.reverse = .ok cs →
      Moves ⟨.string .plain octets (some held), frames⟩ 0x22
        ⟨.colon held (String.ofList cs), frames⟩
  | key {held : List (String × Json)} {mayClose : Bool} {frames : List Frame} :
      Moves ⟨.key held mayClose, frames⟩ 0x22 ⟨.string .plain [] (some held), frames⟩
  | noMember {held : List (String × Json)} {frames : List Frame} :
      Moves ⟨.key held true, frames⟩ 0x7D ⟨.after (.object held.reverse), frames⟩
  | colon {held : List (String × Json)} {key : String} {frames : List Frame} :
      Moves ⟨.colon held key, frames⟩ 0x3A ⟨.value false, .object held key :: frames⟩
  | rest {mode : Mode} {v : Json} {frames : List Frame} {b : UInt8} :
      mode.Ends b v → isSpace b = true → Moves ⟨mode, frames⟩ b ⟨.after v, frames⟩
  | nextElement {mode : Mode} {v : Json} {held : List Json} {frames : List Frame} :
      mode.Ends 0x2C v →
      Moves ⟨mode, .array held :: frames⟩ 0x2C ⟨.value false, .array (v :: held) :: frames⟩
  | closeArray {mode : Mode} {v : Json} {held : List Json} {frames : List Frame} :
      mode.Ends 0x5D v →
      Moves ⟨mode, .array held :: frames⟩ 0x5D ⟨.after (.array (v :: held).reverse), frames⟩
  | nextMember {mode : Mode} {v : Json} {held : List (String × Json)} {key : String}
      {frames : List Frame} :
      mode.Ends 0x2C v →
      Moves ⟨mode, .object held key :: frames⟩ 0x2C ⟨.key ((key, v) :: held) false, frames⟩
  | closeObject {mode : Mode} {v : Json} {held : List (String × Json)} {key : String}
      {frames : List Frame} :
      mode.Ends 0x7D v →
      Moves ⟨mode, .object held key :: frames⟩ 0x7D
        ⟨.after (.object ((key, v) :: held).reverse), frames⟩

section Steps

variable {b : UInt8} {frames : List Frame} {s s' : State}

theorem moves_of_afterStep {mode : Mode} {v : Json} (hv : mode.Ends b v)
    (h : afterStep v b frames = some s') : Moves ⟨mode, frames⟩ b s' := by
  match frames with
  | [] =>
    simp only [afterStep] at h
    split at h
    · cases h
      exact .rest hv ‹_›
    · cases h
  | .array held :: frames =>
    simp only [afterStep, beq_iff_eq] at h
    split_ifs at h with hspace hcomma hclose
    · cases h
      exact .rest hv hspace
    · cases h
      subst hcomma
      exact .nextElement hv
    · cases h
      subst hclose
      exact .closeArray hv
  | .object held key :: frames =>
    simp only [afterStep, beq_iff_eq] at h
    split_ifs at h with hspace hcomma hclose
    · cases h
      exact .rest hv hspace
    · cases h
      subst hcomma
      exact .nextMember hv
    · cases h
      subst hclose
      exact .closeObject hv

theorem moves_of_startValue {mayClose : Bool} (h : startValue b frames = some s') :
    Moves ⟨.value mayClose, frames⟩ b s' := by
  simp only [startValue, open?, beq_iff_eq] at h
  split_ifs at h with hquote hbracket hdepth hbrace hdepth' hminus hzero hdigit hnull htrue hfalse
  all_goals cases h
  all_goals subst_vars
  · exact .begin .string
  · exact .openArray hdepth
  · exact .openObject hdepth'
  · exact .begin .minus
  · exact .begin .zero
  · exact .begin (.digit hdigit hzero)
  · exact .begin .null
  · exact .begin .true
  · exact .begin .false

theorem moves_of_step (h : step s b = some s') : Moves s b s' := by
  obtain ⟨mode, frames⟩ := s
  cases mode with
  | value mayClose =>
    simp only [step] at h
    split_ifs at h with hspace
    · cases h
      exact .skip .value hspace
    · split at h
      · rename_i hclose
        cases h
        rw [Bool.and_eq_true, beq_iff_eq] at hclose
        obtain ⟨rfl, rfl⟩ := hclose
        exact .noElement
      · exact moves_of_startValue h
  | word owed v =>
    simp only [step] at h
    split at h
    · exact moves_of_afterStep .word h
    · split_ifs at h with hc
      cases h
      rw [beq_iff_eq] at hc
      subst hc
      exact .lastLetter
    · rename_i hne
      split_ifs at h with hc
      cases h
      rw [beq_iff_eq] at hc
      subst hc
      exact .letter fun hnil => hne hnil
  | number stage d =>
    simp only [step] at h
    split at h
    · rename_i hstep
      cases h
      exact .digit hstep
    · rename_i hstep
      obtain ⟨n, hn, hafter⟩ := Option.bind_eq_some_iff.mp h
      exact moves_of_afterStep (.number hstep hn) hafter
  | string stage octets keyOf =>
    simp only [step] at h
    split at h
    · rename_i hquote
      rw [beq_iff_eq] at hquote
      subst hquote
      simp only [endString] at h
      split at h
      · cases h
      · rename_i hdecode
        cases keyOf with
        | none =>
          cases h
          exact .endText hdecode
        | some held =>
          cases h
          exact .endKey hdecode
    · rename_i hplain
      obtain ⟨⟨stage', octets'⟩, hstep, hs⟩ := Option.bind_eq_some_iff.mp h
      cases hs
      refine .character (fun hb hstage => ?_) hstep
      exact hplain hstage (by simp [hb])
  | key held mayClose =>
    simp only [step] at h
    split_ifs at h with hspace hquote hclose
    · cases h
      exact .skip .key hspace
    · cases h
      rw [beq_iff_eq] at hquote
      subst hquote
      exact .key
    · cases h
      rw [Bool.and_eq_true, beq_iff_eq] at hclose
      obtain ⟨rfl, rfl⟩ := hclose
      exact .noMember
  | colon held key =>
    simp only [step] at h
    split_ifs at h with hspace hcolon
    · cases h
      exact .skip .colon hspace
    · cases h
      rw [beq_iff_eq] at hcolon
      subst hcolon
      exact .colon
  | after v => exact moves_of_afterStep .after h

/-- Behind a value that has ended the mode does not matter. -/
theorem step_of_ends {mode : Mode} {v : Json} (h : mode.Ends b v) (frames : List Frame) :
    step ⟨mode, frames⟩ b = afterStep v b frames := by
  cases h with
  | after => rfl
  | word => rfl
  | number hstep hn => simp [step, hstep, hn]

theorem isSpace_of_isDigit (h : isDigit b = true) : isSpace b = false := by
  rw [Bool.eq_false_iff]
  intro hspace
  simp only [isSpace, Bool.or_eq_true, beq_iff_eq] at hspace
  rcases hspace with ((rfl | rfl) | rfl) | rfl <;> exact absurd h (by decide)

theorem step_of_begun {mode : Mode} (h : mode.Begun b) (mayClose : Bool) (frames : List Frame) :
    step ⟨.value mayClose, frames⟩ b = some ⟨mode, frames⟩ := by
  cases h with
  | digit hdigit hzero =>
    have hother {c : UInt8} (hc : isDigit c = false) : b ≠ c := by
      rintro rfl
      rw [hdigit] at hc
      cases hc
    have hbracket : b ≠ 0x5D := hother (by decide)
    have hstart : startValue b frames =
        some ⟨.number .whole (startNumber false (digitValue b)), frames⟩ := by
      have hquote : b ≠ 0x22 := hother (by decide)
      have hopenArray : b ≠ 0x5B := hother (by decide)
      have hopenObject : b ≠ 0x7B := hother (by decide)
      have hminus : b ≠ 0x2D := hother (by decide)
      simp [startValue, hquote, hopenArray, hopenObject, hminus, hzero, hdigit]
    simp only [step, isSpace_of_isDigit hdigit, Bool.false_eq_true, if_false,
      beq_eq_false_iff_ne.mpr hbracket, Bool.and_false, hstart]
  | _ => cases mayClose <;> rfl

theorem step_of_moves (h : Moves s b s') : step s b = some s' := by
  cases h with
  | skip hwaits hspace => cases hwaits <;> simp [step, hspace]
  | begin hbegun => exact step_of_begun hbegun _ _
  | @openArray mayClose frames hdepth =>
    have hopen : startValue 0x5B frames = some ⟨.value true, .array [] :: frames⟩ := by
      simp [startValue, open?, hdepth]
    cases mayClose <;> exact hopen
  | @openObject mayClose frames hdepth =>
    have hopen : startValue 0x7B frames = some ⟨.key [] true, frames⟩ := by
      simp [startValue, open?, hdepth]
    cases mayClose <;> exact hopen
  | noElement => rfl
  | @letter c owed v frames howed =>
    obtain ⟨d, owed, rfl⟩ := List.exists_cons_of_ne_nil howed
    simp [step]
  | lastLetter => simp [step]
  | digit hstep => simp [step, hstep]
  | @character stage stage' octets octets' keyOf frames b hplain hstep =>
    simp only [step]
    split
    · rename_i hquote
      exact absurd rfl (hplain (beq_iff_eq.mp hquote))
    · rw [hstep]
      rfl
  | endText hdecode => simp [step, endString, hdecode]
  | endKey hdecode => simp [step, endString, hdecode]
  | key => rfl
  | noMember => rfl
  | colon => rfl
  | @rest mode v frames b hends hspace =>
    rw [step_of_ends hends]
    match frames with
    | [] => simp [afterStep, hspace]
    | .array held :: frames => simp [afterStep, hspace]
    | .object held key :: frames => simp [afterStep, hspace]
  | nextElement hends | closeArray hends | nextMember hends | closeObject hends =>
    rw [step_of_ends hends]
    rfl

end Steps

section Runs

variable {b : UInt8} {bs : List UInt8} {s s' : State} {v : Json}

theorem run_cons_eq_ok :
    run s (b :: bs) = .ok s' ↔ ∃ u, step s b = some u ∧ run u bs = .ok s' := by
  rw [run]
  cases step s b <;> simp

theorem read_eq_ok : read bs = .ok v ↔ ∃ s, run start bs = .ok s ∧ finish? s = some v := by
  simp only [read]
  cases run start bs with
  | error => simp [bind, Except.bind]
  | ok s =>
    simp only [bind, Except.bind, Except.ok.injEq, exists_eq_left']
    cases finish? s <;> simp

end Runs

end Reader

section Texts

variable {text : String} {v : Json}

theorem readText?_eq_some :
    readText? text = some v ↔ Reader.read (Text.Utf8.encode text) = .ok v := by
  rw [readText?]
  cases Reader.read (Text.Utf8.encode text) <;> simp [Except.toOption]

theorem parse?_of_readText? (h : readText? text = some v) : parse? text = some v.settled := by
  rw [parse?, h, Option.map_some]

end Texts

end TableLoad.Json
